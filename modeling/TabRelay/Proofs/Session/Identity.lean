import TabRelay.Proofs.Session.Naming

/-!
# The numbers of tabs and subscriptions

A tab is known by its number and a subscription by its id.  Both are counted up
in each area, so that no two tabs and no two subscriptions have the same one:
the handles of a tab are those that were duplicated from the one it was opened
for, and a drop finds the one subscriber that it is for.
-/

namespace TabRelay.Session

open TabRelay.Decoding TabRelay.Storage

variable {V : Type}

/-! ## Where a handle comes from -/

def Frame.handle? : Frame V → Option Handle
  | .writing relay _ _ => some relay.handle
  | _ => none

namespace Machine

def passOn (m : Machine V) (moment : Nat) (origin : Holder → Nat) : Holder → Nat :=
  match m.gain? with
  | none => origin
  | some gain => fun x =>
      if x = gain.holder then (gain.source.map origin).getD moment else origin x

/-- When the tab was opened from whose first handle the one of the holder was
duplicated. -/
def origin (past : List (Machine V)) : Holder → Nat :=
  past.zipIdx.foldl (fun origin next => next.1.passOn next.2 origin) fun _ => 0

theorem origin_append (past : List (Machine V)) (m : Machine V) :
    origin (past ++ [m]) = m.passOn past.length (origin past) := by
  simp [origin, List.zipIdx_append]

def opens (m : Machine V) : Bool :=
  match m.gain? with
  | some gain => gain.source.isNone
  | none => false

/-- Handles are of tabs that were opened, those that were duplicated from one handle are of
one tab, and no others are. -/
structure Pedigree (past : List (Machine V)) (m : Machine V) : Prop where
  opened : ∀ x h, m.system.handle? x = some h → m.system.Opened h
  inUse : ∀ frame ∈ m.stack, ∀ h, frame.handle? = some h → m.system.Opened h
  begun : ∀ x h, m.system.handle? x = some h →
    ∃ opener, past[origin past x]? = some opener ∧ opener.opens
  same : ∀ x y h k, m.system.handle? x = some h → m.system.handle? y = some k →
    (h = k ↔ origin past x = origin past y)

theorem Pedigree.origin_lt {past : List (Machine V)} {m : Machine V} (h : Pedigree past m)
    {x : Holder} {k : Handle} (hx : m.system.handle? x = some k) :
    origin past x < past.length := by
  obtain ⟨opener, hopener, -⟩ := h.begun x k hx
  exact (List.getElem?_eq_some_iff.mp hopener).1

/-! ## Frames that were given a handle -/

theorem handle?_of_isWork {frames : List (Frame V)} (h : ∀ frame ∈ frames, frame.isWork) :
    ∀ frame ∈ frames, frame.handle? = none := by
  intro frame hframe
  have hwork := h frame hframe
  cases frame <;> first | rfl | simp [Frame.isWork] at hwork

theorem Awaits.handle? {m : Machine V} {step : Step V} {h : Handle} {waiting : List (Frame V)}
    (hwaiting : m.Awaits step h waiting) {frame : Frame V} (hframe : frame ∈ waiting) {k : Handle}
    (hk : frame.handle? = some k) : ∃ x, m.system.handle? x = some k := by
  cases hwaiting with
  | reads hdirect => contradiction
  | direct hdirect =>
      rw [List.mem_singleton.mp hframe] at hk
      contradiction
  | @relayed id relay w stored hwrite hname hhandle =>
      rcases List.mem_cons.mp hframe with rfl | hframe
      · exact ⟨.relay id, by simpa [System.handle?, hname, Frame.handle?] using hk⟩
      · rw [List.mem_singleton.mp hframe] at hk
        contradiction

variable [Storable V]

theorem Begins.frameHandle {m : Machine V} {step : Step V} {s : System V}
    {pushed : List (Frame V)} {a : Answer V} (h : Begins m step s pushed a) {frame : Frame V}
    (hframe : frame ∈ pushed) {k : Handle} (hk : frame.handle? = some k) :
    ∃ x, m.system.handle? x = some k := by
  cases h with
  | operates hcall hwaiting houtcome =>
      rcases List.mem_append.mp hframe with hframe | hframe
      · obtain ⟨event, rfl⟩ := mem_deliveries hframe
        contradiction
      · exact hwaiting.handle? hframe hk
  | barred e hasked hwaiting => exact hwaiting.handle? hframe hk
  | startsDraining hdrains =>
      rw [handle?_of_isWork hdrains.isWork frame hframe] at hk
      contradiction
  | receives hname hreceives =>
      rcases List.mem_append.mp hframe with hframe | hframe
      · rw [handle?_of_isWork hreceives.isWork frame hframe] at hk
        contradiction
      · rw [List.mem_singleton.mp hframe] at hk
        contradiction
  | dispatches hname =>
      simp only [List.mem_cons, List.not_mem_nil, or_false] at hframe
      rcases hframe with rfl | rfl <;> contradiction
  | _ =>
      simp only [dropsOldStorage, dropsOldRelay, dropsOldSubscription, List.mem_map,
        List.mem_singleton, List.not_mem_nil] at hframe <;>
        first
          | (rw [hframe] at hk; contradiction)
          | (obtain ⟨_, _, rfl⟩ := hframe; contradiction)

omit [Storable V] in
theorem Continues.frameHandle {m : Machine V} {top : Frame V} {b : Answer V} {s : System V}
    {pushed : List (Frame V)} {control : Control V} {warned : List (Entry V)}
    (h : Continues m top b s pushed control warned) : ∀ frame ∈ pushed, frame.handle? = none := by
  cases h with
  | calls b hrunning hreacts =>
      intro frame hframe
      rcases List.mem_append.mp hframe with hframe | hframe
      · exact handle?_of_isWork hreacts.isWork frame hframe
      · simp only [List.mem_cons, List.not_mem_nil, or_false] at hframe
        rcases hframe with rfl | rfl <;> rfl
  | drains b hdrains => exact handle?_of_isWork hdrains.isWork
  | _ => simp [Frame.handle?]

theorem Effect.frameHandle {m : Machine V} {s : System V} {pushed : List (Frame V)}
    {control : Control V} {warned : List (Entry V)} (h : Effect m s pushed control warned)
    {frame : Frame V} (hframe : frame ∈ pushed) {k : Handle} (hk : frame.handle? = some k) :
    ∃ x, m.system.handle? x = some k := by
  cases h with
  | rests hrest hbelow => contradiction
  | begins hrun hbegins => exact hbegins.frameHandle hframe hk
  | continues hdone hstack hcontinues =>
      rw [hcontinues.frameHandle frame hframe] at hk
      contradiction
  | frees hdone hstack hfreeing hfrees =>
      have hnone := hfrees.isFreeing frame hframe
      cases frame <;> contradiction

/-! ## Handles of one tab -/

omit [Storable V] in
theorem mem_below {m : Machine V} {frame : Frame V} (h : frame ∈ m.below) : frame ∈ m.stack := by
  unfold below at h
  split at h
  · exact List.mem_of_mem_tail h
  · exact h

omit [Storable V] in
theorem Pedigree.gains {past : List (Machine V)} {m m' : Machine V} (hpedigree : Pedigree past m)
    {x : Holder} {h : Handle} {moment : Nat}
    (horigin : ∀ y, origin (past ++ [m]) y = if y = x then moment else origin past y)
    (hnew : m'.system.handle? x = some h)
    (hkept : ∀ y ≠ x, ∀ k, m'.system.handle? y = some k → m.system.handle? y = some k)
    (hbegun : ∃ opener, (past ++ [m])[moment]? = some opener ∧ opener.opens)
    (hsame : ∀ y k, m.system.handle? y = some k → (h = k ↔ moment = origin past y))
    (hopened : ∀ y k, m'.system.handle? y = some k → m'.system.Opened k)
    (hinUse : ∀ frame ∈ m'.stack, ∀ k, frame.handle? = some k → m'.system.Opened k) :
    Pedigree (past ++ [m]) m' where
  opened := hopened
  inUse := hinUse
  begun := by
    intro y k hy
    rw [horigin]
    by_cases hyx : y = x
    · rwa [if_pos hyx]
    · rw [if_neg hyx]
      obtain ⟨opener, hopener, hopens⟩ := hpedigree.begun y k (hkept y hyx k hy)
      refine ⟨opener, ?_, hopens⟩
      rw [List.getElem?_append_left (List.getElem?_eq_some_iff.mp hopener).1, hopener]
  same := by
    intro y z k l hy hz
    rw [horigin, horigin]
    by_cases hyx : y = x
    · subst hyx
      rw [hnew] at hy
      cases hy
      by_cases hzy : z = y
      · subst hzy
        rw [hnew] at hz
        cases hz
        simp
      · rw [if_pos rfl, if_neg hzy]
        exact hsame z l (hkept z hzy l hz)
    · by_cases hzx : z = x
      · subst hzx
        rw [hnew] at hz
        cases hz
        rw [if_neg hyx, if_pos rfl, eq_comm, hsame y k (hkept y hyx k hy), eq_comm]
      · rw [if_neg hyx, if_neg hzx]
        exact hpedigree.same y z k l (hkept y hyx k hy) (hkept z hzx l hz)

theorem Pedigree.advance {past : List (Machine V)} {m : Machine V} (h : Pedigree past m)
    (horderly : m.Orderly) (hgrounded : Grounded m.system) (hlisted : m.system.Listed) :
    Pedigree (past ++ [m]) m.advance := by
  obtain ⟨pushed, warned, heffect, hstack, -⟩ := advance_becomes horderly
  have hgrown (k : Handle) (hk : m.system.Opened k) : m.advance.system.Opened k :=
    ⟨Nat.lt_of_lt_of_le hk.1 heffect.alters.length_le, Nat.lt_of_lt_of_le hk.2 (heffect.tabs_le _)⟩
  have hinUse : ∀ frame ∈ m.advance.stack, ∀ k, frame.handle? = some k →
      m.advance.system.Opened k := by
    intro frame hframe k hk
    rw [hstack] at hframe
    rcases List.mem_append.mp hframe with hframe | hframe
    · obtain ⟨x, hx⟩ := heffect.frameHandle hframe hk
      exact hgrown k (h.opened x k hx)
    · exact hgrown k (h.inUse frame (mem_below hframe) k hk)
  have horigin := origin_append past m
  have hhands := horderly.hands hgrounded hlisted
  generalize hgain : m.gain? = gain at hhands
  cases hhands with
  | nothing hkept =>
      have horigin : origin (past ++ [m]) = origin past := by rw [horigin, passOn, hgain]
      refine ⟨fun x k hx => hgrown k (h.opened x k (hkept x k hx)), hinUse, ?_, ?_⟩
      · intro x k hx
        obtain ⟨opener, hopener, hopens⟩ := h.begun x k (hkept x k hx)
        refine ⟨opener, ?_, hopens⟩
        rw [horigin, List.getElem?_append_left (List.getElem?_eq_some_iff.mp hopener).1, hopener]
      · intro x y k l hx hy
        rw [horigin]
        exact h.same x y k l (hkept x k hx) (hkept y l hy)
  | @copy x source k hsource hnew hkept =>
      have horigin (y : Holder) : origin (past ++ [m]) y =
          if y = x then origin past source else origin past y := by
        simp only [horigin, passOn, hgain, Option.map_some, Option.getD_some]
      refine h.gains horigin hnew hkept ?_ ?_ ?_ hinUse
      · obtain ⟨opener, hopener, hopens⟩ := h.begun source k hsource
        refine ⟨opener, ?_, hopens⟩
        rw [List.getElem?_append_left (List.getElem?_eq_some_iff.mp hopener).1, hopener]
      · exact fun y l hy => h.same source y k l hsource hy
      · intro y l hy
        by_cases hyx : y = x
        · rw [hyx, hnew] at hy
          cases hy
          exact hgrown k (h.opened source k hsource)
        · exact hgrown l (h.opened y l (hkept y hyx l hy))
  | @tab x k hnew hfresh hopened hkept =>
      have horigin (y : Holder) : origin (past ++ [m]) y =
          if y = x then past.length else origin past y := by
        simp only [horigin, passOn, hgain, Option.map_none, Option.getD_none]
      refine h.gains horigin hnew hkept ⟨m, by simp, by simp [opens, hgain]⟩ ?_ ?_ hinUse
      · intro y l hy
        refine iff_of_false ?_ (Nat.ne_of_gt (h.origin_lt hy))
        rintro rfl
        exact hfresh (h.opened y k hy)
      · intro y l hy
        by_cases hyx : y = x
        · rw [hyx, hnew] at hy
          cases hy
          exact hopened
        · exact hgrown l (h.opened y l (hkept y hyx l hy))

/-! ## The subscribers of an area -/

omit [Storable V] in
/-- Subscribers are numbered in the order in which they subscribed, and each is on a tab. -/
structure Numbered (area : Area) : Prop where
  inOrder : (area.subscribers.map (·.id)).Pairwise (· < ·)
  below : ∀ s ∈ area.subscribers, s.id < area.nextSubscriber
  tabs : ∀ s ∈ area.subscribers, s.tab < area.tabs.length

omit [Storable V] in
theorem numbered_of_no_subscribers {area : Area} (h : area.subscribers = []) : Numbered area := by
  constructor <;> simp [h]

omit [Storable V] in
theorem Numbered.sublist {area changed : Area} (h : Numbered area)
    (hsubscribers : changed.subscribers.Sublist area.subscribers)
    (hnext : changed.nextSubscriber = area.nextSubscriber)
    (htabs : area.tabs.length ≤ changed.tabs.length) : Numbered changed where
  inOrder := h.inOrder.sublist (hsubscribers.map _)
  below := fun s hs => hnext ▸ h.below s (hsubscribers.mem hs)
  tabs := fun s hs => Nat.lt_of_lt_of_le (h.tabs s (hsubscribers.mem hs)) htabs

omit [Storable V] in
theorem Numbered.subscribe {area : Area} (h : Numbered area) {tab : Nat}
    (htab : tab < area.tabs.length) (handler : Nat) : Numbered (area.subscribe tab handler).1 where
  inOrder := by
    simp only [Area.subscribe, List.map_append]
    refine List.pairwise_append.mpr ⟨h.inOrder, List.pairwise_singleton _ _, ?_⟩
    intro id hid next hnext
    obtain ⟨s, hs, rfl⟩ := List.mem_map.mp hid
    rw [List.mem_singleton.mp hnext]
    exact h.below s hs
  below := by
    intro s hs
    rcases List.mem_append.mp hs with hs | hs
    · exact Nat.lt_succ_of_lt (h.below s hs)
    · rw [List.mem_singleton.mp hs]
      exact Nat.lt_succ_self _
  tabs := by
    intro s hs
    rcases List.mem_append.mp hs with hs | hs
    · exact h.tabs s hs
    · rw [List.mem_singleton.mp hs]
      exact htab

omit [Storable V] in
theorem numbered_setArea {s : System V} {j : Nat} {changed : Area}
    (h : ∀ i, Numbered (s.area i)) (hchanged : Numbered changed) (i : Nat) :
    Numbered ((s.setArea j changed).area i) := by
  by_cases hij : j = i
  · subst hij
    by_cases hj : j < s.areas.length
    · rwa [System.area_setArea_self _ hj]
    · rw [System.setArea, List.set_eq_of_length_le (Nat.le_of_not_lt hj)]
      exact h j
  · rw [System.area_setArea_ne _ hij]
    exact h i

omit [Storable V] in
theorem handle?_of_subscribing {m : Machine V} {h : Handle} (hsubscribing : m.subscribing? = some h) :
    ∃ x, m.system.handle? x = some h := by
  obtain ⟨step, -, hstep, -⟩ := subscribing?_eq_some hsubscribing
  cases step with
  | subscribe storage id steps times own => exact ⟨.storage storage, hstep⟩
  | listen relay id => exact ⟨.relay relay, hstep⟩
  | _ => contradiction

theorem Begins.numbered {m : Machine V} {step : Step V} {s : System V} {pushed : List (Frame V)}
    {a : Answer V} (h : Begins m step s pushed a)
    (hopened : ∀ x k, m.system.handle? x = some k → m.system.Opened k)
    (hnumbered : ∀ i, Numbered (m.system.area i)) : ∀ i, Numbered (s.area i) := by
  have hset (j : Nat) (changed : Area)
      (hsubscribers : changed.subscribers = (m.system.area j).subscribers)
      (hnext : changed.nextSubscriber = (m.system.area j).nextSubscriber)
      (htabs : (m.system.area j).tabs.length ≤ changed.tabs.length) :
      ∀ i, Numbered ((m.system.setArea j changed).area i) :=
    numbered_setArea hnumbered ((hnumbered j).sublist (hsubscribers ▸ .refl _) hnext htabs)
  have hjoins {k : Handle} (hsubscribing : m.subscribing? = some k) (handler : Nat) :
      ∀ i, Numbered ((m.system.setArea k.area
        ((m.system.area k.area).subscribe k.tab handler).1).area i) := by
    obtain ⟨x, hx⟩ := handle?_of_subscribing hsubscribing
    exact numbered_setArea hnumbered ((hnumbered k.area).subscribe (hopened x k hx).2 handler)
  cases h with
  | creates hnew =>
      intro i
      by_cases hi : i < m.system.areas.length
      · have hsame := hnumbered i
        simp only [System.area, List.getD_eq_getElem?_getD, System.nameStorage, System.addArea,
          List.getElem?_append_left hi] at hsame ⊢
        exact hsame
      · refine numbered_of_no_subscribers ?_
        simp only [System.area, List.getD_eq_getElem?_getD, System.nameStorage, System.addArea,
          List.getElem?_append_right (Nat.le_of_not_lt hi)]
        cases i - m.system.areas.length with
        | zero => exact subscribers_newArea hnew
        | succ n => rfl
  | opensTab hname => exact hset _ _ rfl rfl (by simp [Area.openTab])
  | operates hcall hwaiting houtcome =>
      subst houtcome
      exact hset _ _ (subscribers_perform _ _) (nextSubscriber_perform _ _)
        (Nat.le_of_eq (by rw [tabs_perform]))
  | setsFaults hname => exact hset _ _ rfl rfl (by simp [Area.setFaults])
  | subscribes hsubscribing htake =>
      obtain ⟨names, rfl⟩ := System.takeSubscriptions_eq htake
      exact hjoins hsubscribing _
  | failsToSubscribe htake =>
      obtain ⟨names, rfl⟩ := System.takeSubscriptions_eq htake
      exact hnumbered
  | listens hsubscribing hname => exact hjoins hsubscribing _
  | startsDraining hdrains =>
      obtain ⟨queues, logs, scripts, rfl⟩ := hdrains.eq
      exact hnumbered
  | receives hname hreceives =>
      obtain ⟨logs, scripts, rfl⟩ := hreceives.eq
      exact hnumbered
  | _ => exact hnumbered

theorem Effect.numbered {m : Machine V} {s : System V} {pushed : List (Frame V)}
    {control : Control V} {warned : List (Entry V)} (h : Effect m s pushed control warned)
    (hopened : ∀ x k, m.system.handle? x = some k → m.system.Opened k)
    (hnumbered : ∀ i, Numbered (m.system.area i)) : ∀ i, Numbered (s.area i) := by
  cases h with
  | rests hrest hbelow => exact hnumbered
  | begins hrun hbegins => exact hbegins.numbered hopened hnumbered
  | continues hdone hstack hcontinues =>
      intro i
      rw [System.area_congr hcontinues.areas]
      exact hnumbered i
  | frees hdone hstack hfreeing hfrees =>
      cases hfrees with
      | reaps hkeeps hdead => exact numbered_setArea hnumbered (numbered_of_no_subscribers rfl)
      | @detaches sub left subscriber halive hheld hfound =>
          refine numbered_setArea hnumbered ((hnumbered sub.area).sublist ?_ rfl (Nat.le_refl _))
          exact List.filter_sublist
      | _ => exact hnumbered

omit [Storable V] in
theorem dropping?_eq_some {m : Machine V} {sub : Subscription} (h : m.dropping? = some sub) :
    ∃ b left rest, m.control = .done b ∧ m.stack = .drop (sub :: left) :: rest := by
  unfold dropping? at h
  split at h
  · rename_i b other left rest hdone hstack
    cases h
    exact ⟨b, left, rest, hdone, hstack⟩
  · contradiction

omit [Storable V] in
theorem Numbered.unsubscribe {area : Area} (h : Numbered area) {id : Nat} {s : Subscriber}
    (hfound : area.subscriber? id = some s) :
    ∃ before after, area.subscribers = before ++ s :: after ∧ s.id = id ∧
      (area.unsubscribe id).subscribers = before ++ after := by
  obtain ⟨hid, before, after, hsubscribers, -⟩ := List.find?_eq_some_iff_append.mp hfound
  simp only [decide_eq_true_eq] at hid
  have hinOrder := h.inOrder
  rw [hsubscribers, List.map_append, List.map_cons] at hinOrder
  obtain ⟨-, hafter, hbefore⟩ := List.pairwise_append.mp hinOrder
  obtain ⟨hafter, -⟩ := List.pairwise_cons.mp hafter
  refine ⟨before, after, hsubscribers, hid, ?_⟩
  have hkeeps (l : List Subscriber) (hne : ∀ t ∈ l, t.id ≠ id) :
      l.filter (fun t => t.id ≠ id) = l := by
    refine List.filter_eq_self.mpr ?_
    simpa using hne
  rw [Area.unsubscribe, hsubscribers, List.filter_append, List.filter_cons_of_neg (by simp [hid]),
    hkeeps before, hkeeps after]
  · intro t ht
    rw [← hid]
    exact Nat.ne_of_gt (hafter t.id (List.mem_map_of_mem ht))
  · intro t ht
    rw [← hid]
    exact Nat.ne_of_lt (hbefore t.id (List.mem_map_of_mem ht) s.id List.mem_cons_self)

theorem Orderly.drops {m : Machine V} (horderly : m.Orderly)
    (hnumbered : ∀ i, Numbered (m.system.area i)) {sub : Subscription}
    (hdropping : m.dropping? = some sub) (i : Nat) :
    (m.advance.system.area i).subscribers = (m.system.area i).subscribers ∨
      i = sub.area ∧ ∃ before s after, (m.system.area i).subscribers = before ++ s :: after ∧
        s.id = sub.id ∧ (m.advance.system.area i).subscribers = before ++ after := by
  obtain ⟨b, left, rest, hdone, hstack⟩ := dropping?_eq_some hdropping
  obtain ⟨pushed, warned, heffect, -⟩ := advance_becomes horderly
  rcases heffect.of_done hdone hstack with hcontinues | ⟨-, hfrees, -⟩
  · exact absurd rfl hcontinues.inOrder.1
  generalize m.advance.system = s at hfrees ⊢
  cases hfrees with
  | pops hmore halive => exact absurd rfl hmore
  | reaps hkeeps hdead => contradiction
  | leaves hleaves => exact .inl rfl
  | @detaches sub left subscriber halive hheld hfound =>
      by_cases hi : sub.area = i
      · subst hi
        have hlength : sub.area < m.system.areas.length := by
          by_contra hlength
          rw [System.area_of_length_le (Nat.le_of_not_lt hlength)] at hfound
          contradiction
        obtain ⟨before, after, hbefore, hid, hafter⟩ := (hnumbered sub.area).unsubscribe hfound
        refine .inr ⟨rfl, before, subscriber, after, hbefore, hid, ?_⟩
        rw [System.area_setArea_self _ hlength, hafter]
      · refine .inl ?_
        rw [System.area_setArea_ne _ hi]

/-! ## The course of a session -/

omit [Storable V] in
/-- What tells tabs, handles and subscribers apart. -/
structure Identity (past : List (Machine V)) (m : Machine V) : Prop where
  grounded : Grounded m.system
  listed : m.system.Listed
  pedigree : Pedigree past m
  numbered : ∀ i, Numbered (m.system.area i)

omit [Storable V] in
theorem Identity.of_stack {past : List (Machine V)} {m m' : Machine V} (h : Identity past m)
    (hsystem : m'.system = m.system)
    (hstack : ∀ frame ∈ m'.stack, ∀ k, frame.handle? = some k → frame ∈ m.stack) :
    Identity past m' where
  grounded := hsystem ▸ h.grounded
  listed := hsystem ▸ h.listed
  pedigree :=
    { opened := hsystem ▸ h.pedigree.opened
      inUse := fun frame hframe k hk =>
        hsystem ▸ h.pedigree.inUse frame (hstack frame hframe k hk) k hk
      begun := hsystem ▸ h.pedigree.begun
      same := hsystem ▸ h.pedigree.same }
  numbered := hsystem ▸ h.numbered

theorem Identity.advance {past : List (Machine V)} {m : Machine V} (h : Identity past m)
    (horderly : m.Orderly) : Identity (past ++ [m]) m.advance := by
  obtain ⟨pushed, warned, heffect, -⟩ := advance_becomes horderly
  exact ⟨heffect.grounded h.grounded, heffect.listed h.listed,
    h.pedigree.advance horderly h.grounded h.listed,
    heffect.numbered h.pedigree.opened h.numbered⟩

theorem identity_playAll (moves : List (Move V)) :
    Identity (idle.history moves) (idle.playAll moves) := by
  apply orderly_induction (P := Identity)
  · refine ⟨grounded_playAll [], ⟨.nil, .nil, .nil, .nil⟩, ?_, ?_⟩
    · have hnone (x : Holder) : (idle (V := V)).system.handle? x = none := by cases x <;> rfl
      exact ⟨by simp [hnone], by simp [idle], by simp [hnone], by simp [hnone]⟩
    · exact fun i => numbered_of_no_subscribers (by simp [idle, System.area, default,
        instInhabitedArea.default])
  · exact fun past m step h hstack => h.of_stack rfl (by simp [start])
  · intro past m runner old left stack h hstack
    refine h.of_stack rfl ?_
    intro frame hframe k hk
    rcases List.mem_cons.mp hframe with rfl | hframe
    · contradiction
    · exact hstack ▸ List.mem_cons_of_mem _ hframe
  · exact fun past m horderly h => h.advance horderly

/--
Subscribers have ids in order, below the next one that is given, and they are on
tabs that were opened, as all handles are.  Two handles of an area are of the
same tab if and only if they come from the same opening, that is, from one handle
by duplication alone.  No two subscriptions of an area ever have the same id,
and a drop takes at most one subscriber out, whose id it names, and leaves the others
in order.
-/
theorem identity_is_kept (moves : List (Move V)) :
    let m := idle.playAll moves
    let past := idle.history moves
    (∀ i, ((m.system.area i).subscribers.map (·.id)).Pairwise (· < ·) ∧
      ∀ s ∈ (m.system.area i).subscribers,
        s.id < (m.system.area i).nextSubscriber ∧ s.tab < (m.system.area i).tabs.length) ∧
      (∀ x h, m.system.handle? x = some h → m.system.Opened h) ∧
      (∀ frame ∈ m.stack, ∀ h, frame.handle? = some h → m.system.Opened h) ∧
      (∀ x h, m.system.handle? x = some h →
        ∃ opener, past[origin past x]? = some opener ∧ opener.opens) ∧
      (∀ x y h k, m.system.handle? x = some h → m.system.handle? y = some k → h.area = k.area →
        (h.tab = k.tab ↔ origin past x = origin past y)) ∧
      (registrations past).Pairwise (fun r r' =>
        r.area = r'.area → r.subscriber.id ≠ r'.subscriber.id) ∧
      ∀ sub, m.dropping? = some sub → ∀ i,
        (m.advance.system.area i).subscribers = (m.system.area i).subscribers ∨
          i = sub.area ∧ ∃ before s after,
            (m.system.area i).subscribers = before ++ s :: after ∧ s.id = sub.id ∧
              (m.advance.system.area i).subscribers = before ++ after := by
  intro m past
  have hidentity : Identity past m := identity_playAll moves
  have hnumbered := hidentity.numbered
  have hpedigree := hidentity.pedigree
  refine ⟨?_, hpedigree.opened, hpedigree.inUse, hpedigree.begun, ?_, ?_, ?_⟩
  · exact fun i => ⟨(hnumbered i).inOrder,
      fun s hs => ⟨(hnumbered i).below s hs, (hnumbered i).tabs s hs⟩⟩
  · intro x y h k hx hy harea
    rw [← hpedigree.same x y h k hx hy]
    cases h
    cases k
    simp_all
  · refine (tenure_playAll moves).apart.imp ?_
    rintro r r' ⟨hapart, -⟩ harea hid
    exact hapart (by rw [Registration.subscription, Registration.subscription, harea, hid])
  · exact fun sub hdropping i => (orderly_playAll moves).drops hnumbered hdropping i

/-- The second name of a tab has its origin, another tab has one of its own. -/
example :
    let past := idle.history (V := Draft)
      [.begin (.new "a" .localArea), .advance, .begin (.openTab "b" "a"), .advance,
        .begin (.sameTab "c" "b"), .advance]
    origin past (.storage "a") = 0 ∧ origin past (.storage "b") = 1 ∧
      origin past (.storage "c") = 1 := by
  decide

end Machine

end TabRelay.Session
