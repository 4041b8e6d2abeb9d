import TabRelay.Proofs.Session.Lifetime
import TabRelay.Proofs.Session.Ownership
import TabRelay.Session.Draft

/-!
# Dropping a subscription detaches its handler

The subscribers of an area are the handlers that were registered with it, in
order, but for those that were detached.  A subscription is detached when it is
dropped, unless the area is in use just then: this is so while the handler of
another subscription of the area is freed, and what that handler owns stays
subscribed for good.
-/

namespace TabRelay.Session

open TabRelay.Storage

variable {V : Type}

namespace Machine

/-! ## Drops -/

/-- The drop that comes next finds the area free. -/
def detaching? (m : Machine V) : Option Subscription :=
  m.dropping?.filter fun sub => !m.isHeld (.area sub.area)

/-- The drop that comes next finds the area in use, and the handler stays. -/
def stranding? (m : Machine V) : Option Subscription :=
  m.dropping?.filter fun sub => m.isHeld (.area sub.area)

def joining (m : Machine V) (i : Nat) : List Subscriber :=
  (m.registering?.toList.filter (·.area = i)).map (·.subscriber)

theorem detaching?_eq_some {m : Machine V} {sub : Subscription} :
    m.detaching? = some sub ↔ m.dropping? = some sub ∧ m.isHeld (.area sub.area) = false := by
  simp [detaching?, Option.filter_eq_some_iff]

theorem detaching?_of_dropping {m : Machine V} (h : m.dropping? = none) : m.detaching? = none := by
  simp [detaching?, h]

theorem joining_of_not_subscribing {m : Machine V} (h : m.subscribing? = none) (i : Nat) :
    m.joining i = [] := by
  simp [joining, registering?, h]

/-! ## One step -/

theorem isAlive_beneath {m m' : Machine V} {pushed : List (Frame V)} {i : Nat}
    (halive : m'.isAlive i) (hnames : SameNames m.system m'.system)
    (hhandlers : m'.system.handlers = m.system.handlers) (hstack : m'.stack = pushed ++ m.below)
    (hpushed : ∀ frame ∈ pushed, ¬ frame.keeps i) : m.beneath.isAlive i := by
  rw [isAlive_iff, hhandlers, hstack] at halive
  rw [isAlive_iff]
  rcases halive with hnamed | hhandler | ⟨frame, hframe, hkeeps⟩
  · simp only [System.Names, hnames.storages, hnames.relays] at hnamed
    exact .inl hnamed
  · exact .inr (.inl hhandler)
  · rcases List.mem_append.mp hframe with hframe | hframe
    · exact absurd hkeeps (hpushed frame hframe)
    · exact .inr (.inr ⟨frame, hframe, hkeeps⟩)

theorem Frees.subscribers {m m' : Machine V} {top : Frame V} {pushed rest : List (Frame V)}
    {b : Answer V} (h : Frees m top m'.system pushed) (hdone : m.control = .done b)
    (hstack : m.stack = top :: rest) (hpushed : m'.stack = pushed ++ m.below) {i : Nat}
    (halive : m'.isAlive i) :
    (m'.system.area i).subscribers =
      (m.system.area i).subscribers.filter fun s => m.detaching? ≠ some ⟨i, s.id⟩ := by
  have hnames := h.names
  have hkept (hnone : ∀ s ∈ (m.system.area i).subscribers, m.detaching? ≠ some ⟨i, s.id⟩)
      (harea : m'.system.area i = m.system.area i) :
      (m'.system.area i).subscribers =
        (m.system.area i).subscribers.filter fun s => m.detaching? ≠ some ⟨i, s.id⟩ := by
    rw [harea]
    refine (List.filter_eq_self.mpr ?_).symm
    simpa using hnone
  have hundropped (hdrops : top.drops = []) (s : Subscriber) : m.detaching? ≠ some ⟨i, s.id⟩ := by
    rw [detaching?_of_dropping (dropping?_of_drops hstack hdrops)]
    simp
  generalize hsystem : m'.system = s at h hkept
  cases h with
  | pops hmore halive' =>
      exact hkept (fun s _ => hundropped (Frame.drops_of_not_hasMore hmore) s) rfl
  | reaps hkeeps hdead =>
      refine hkept (fun s _ => hundropped (Frame.drops_of_keeps hkeeps) s) ?_
      refine System.area_setArea_ne _ ?_
      rintro rfl
      have hbeneath := isAlive_beneath halive hnames (by rw [hsystem]; rfl) hpushed
        (by simp [Frame.keeps])
      simp [hdead] at hbeneath
  | letsGo j left => exact hkept (fun s _ => hundropped rfl s) rfl
  | frees hreferred hhandler => exact hkept (fun s _ => hundropped rfl s) rfl
  | @leaves sub left hleaves =>
      refine hkept ?_ rfl
      intro s hs hdetaching
      obtain ⟨hdropping, hheld⟩ := detaching?_eq_some.mp hdetaching
      rw [dropping?_of_drop hdone hstack] at hdropping
      cases hdropping
      rcases hleaves with hdead | hleaves | hmissing
      · have hbeneath := isAlive_beneath halive hnames (by rw [hsystem]) hpushed
          (by simp [Frame.keeps])
        simp [hdead] at hbeneath
      · simp [hheld] at hleaves
      · have hid := List.find?_eq_none.mp hmissing s hs
        simp at hid
  | @detaches sub left subscriber halive' hheld hfound =>
      have hdetaching : m.detaching? = some sub :=
        detaching?_eq_some.mpr ⟨dropping?_of_drop hdone hstack, hheld⟩
      by_cases hi : sub.area = i
      · subst hi
        have hlength : sub.area < m.system.areas.length := by
          by_contra hlength
          rw [System.area_of_length_le (Nat.le_of_not_lt hlength)] at hfound
          contradiction
        rw [System.area_setArea_self _ hlength, Area.unsubscribe, hdetaching]
        refine List.filter_congr ?_
        intro s hs
        cases sub
        simp [eq_comm]
      · refine hkept ?_ (System.area_setArea_ne _ hi)
        intro s hs heq
        rw [hdetaching] at heq
        cases heq
        exact hi rfl

variable [Storable V]

theorem Begins.subscribers {m : Machine V} {step : Step V} {s : System V}
    {pushed : List (Frame V)} {a : Answer V} (h : Begins m step s pushed a)
    (hrun : m.control = .run step) (hnone : m.subscribing? = none) (i : Nat) :
    (s.area i).subscribers = (m.system.area i).subscribers := by
  have hset {j : Nat} {changed : Area} {s' : System V}
      (hareas : s'.areas = (m.system.setArea j changed).areas)
      (hsame : changed.subscribers = (m.system.area j).subscribers) :
      (s'.area i).subscribers = (m.system.area i).subscribers := by
    rw [System.area_congr hareas]
    by_cases hij : j = i
    · subst hij
      exact System.subscribers_setArea hsame
    · rw [System.area_setArea_ne _ hij]
  have halters := h.alters hrun
  generalize hareas : s.areas = areas at halters
  cases halters with
  | keeps => rw [System.area_congr hareas]
  | @creates step' id area hrun' hnew =>
      simp only [System.area, hareas, List.getD_eq_getElem?_getD, List.getElem?_append]
      split
      · rfl
      · rename_i hi
        rw [List.getElem?_eq_none (Nat.le_of_not_lt hi)]
        cases hlast : i - m.system.areas.length with
        | zero => exact subscribers_newArea hnew
        | succ n => rfl
  | operates hcall => exact hset hareas (subscribers_perform _ _)
  | retabs j tabs => exact hset hareas rfl
  | subscribes hsubscribing =>
      rw [hnone] at hsubscribing
      contradiction
  | reaps hdone hdead =>
      rw [hrun] at hdone
      contradiction
  | detaches hdone hstack hheld halive =>
      rw [hrun] at hdone
      contradiction

theorem Orderly.subscribers {m : Machine V} (horderly : m.Orderly)
    (hgrounded : Grounded m.system) {i : Nat} (halive : m.advance.isAlive i) :
    (m.advance.system.area i).subscribers =
      ((m.system.area i).subscribers ++ m.joining i).filter fun s =>
        m.detaching? ≠ some ⟨i, s.id⟩ := by
  have hundropped (hdropping : m.dropping? = none) (l : List Subscriber) :
      l.filter (fun s => m.detaching? ≠ some ⟨i, s.id⟩) = l := by
    rw [detaching?_of_dropping hdropping]
    simp
  cases hsubscribing : m.subscribing? with
  | some h =>
      obtain ⟨step, hrun, -⟩ := subscribing?_eq_some hsubscribing
      obtain ⟨own, s, id, reaction, htake, hsystem, -⟩ := horderly.subscribes hsubscribing
      obtain ⟨names, rfl⟩ := System.takeSubscriptions_eq htake
      have hlength := hgrounded.subscribed hsubscribing
      have harea : m.advance.system.area i = (m.system.setArea h.area
          ((m.system.area h.area).subscribe h.tab m.system.handlers.length).1).area i := by
        rw [hsystem]
        rfl
      rw [hundropped (dropping?_of_run hrun), harea]
      by_cases hi : h.area = i
      · subst hi
        rw [System.area_setArea_self _ hlength]
        simp [joining, registering?, hsubscribing, Area.subscribe]
      · rw [System.area_setArea_ne _ hi]
        simp [joining, registering?, hsubscribing, hi]
  | none =>
      obtain ⟨pushed, warned, heffect, hpushed, -⟩ := advance_becomes horderly
      rw [joining_of_not_subscribing hsubscribing, List.append_nil]
      generalize m.advance = m' at heffect hpushed halive ⊢
      generalize hsystem : m'.system = s at heffect
      generalize m'.control = control at heffect
      cases heffect with
      | rests hrest hbelow => rw [hundropped (dropping?_of_rests hbelow)]
      | begins hrun hbegins =>
          rw [hundropped (dropping?_of_run hrun)]
          exact hbegins.subscribers hrun hsubscribing i
      | continues hdone hstack hcontinues =>
          have hdrops := Frame.drops_of_not_isFreeing hcontinues.inOrder.1
          rw [hundropped (dropping?_of_drops hstack hdrops), System.area_congr hcontinues.areas]
      | frees hdone hstack hfreeing hfrees =>
          subst hsystem
          exact hfrees.subscribers hdone hstack hpushed halive

/-! ## The course of a session -/

omit [Storable V] in
def detached (past : List (Machine V)) : List Subscription := past.filterMap (·.detaching?)

omit [Storable V] in
def stranded (past : List (Machine V)) : List Subscription := past.filterMap (·.stranding?)

omit [Storable V] in
/-- The subscribers of an area, in order, whose subscription is not one of these. -/
def remaining (past : List (Machine V)) (gone : List Subscription) (i : Nat) : List Subscriber :=
  ((registrations past).filter fun r => r.area = i ∧ r.subscription ∉ gone).map (·.subscriber)

omit [Storable V] in
theorem detached_append (past : List (Machine V)) (m : Machine V) :
    detached (past ++ [m]) = detached past ++ m.detaching?.toList := by
  rw [detached, List.filterMap_append, ← detached]
  cases hdetaching : m.detaching? <;> simp [hdetaching]

omit [Storable V] in
theorem dropped_perm (past : List (Machine V)) :
    (dropped past).Perm (detached past ++ stranded past) := by
  induction past with
  | nil => exact List.Perm.refl _
  | cons m past ih =>
      simp only [dropped, detached, stranded, List.filterMap_cons, detaching?, stranding?] at ih ⊢
      cases m.dropping? with
      | none => exact ih
      | some sub =>
          cases hheld : m.isHeld (.area sub.area) with
          | false =>
              simp only [Option.filter_some, hheld, Bool.not_false, if_true, Bool.false_eq_true,
                if_false, List.cons_append]
              exact ih.cons sub
          | true =>
              simp only [Option.filter_some, hheld, Bool.not_true, if_true, Bool.false_eq_true,
                if_false]
              exact (ih.cons sub).trans List.perm_middle.symm

omit [Storable V] in
theorem filter_gone (regs : List Registration) (gone : List Subscription)
    (next : Option Subscription) (i : Nat) :
    (regs.filter fun r => r.area = i ∧ r.subscription ∉ gone ++ next.toList).map (·.subscriber) =
      ((regs.filter fun r => r.area = i ∧ r.subscription ∉ gone).map (·.subscriber)).filter
        fun s => next ≠ some ⟨i, s.id⟩ := by
  rw [List.filter_map, List.filter_filter]
  congr 1
  refine List.filter_congr ?_
  intro r hr
  simp only [Function.comp_apply, List.mem_append, not_or, ← Bool.decide_and, decide_eq_decide,
    Option.mem_toList]
  constructor
  · rintro ⟨rfl, hgone, hnext⟩
    exact ⟨hnext, rfl, hgone⟩
  · rintro ⟨hnext, rfl, hgone⟩
    exact ⟨rfl, hgone, hnext⟩

omit [Storable V] in
theorem Tenure.dropped_made {past : List (Machine V)} {m : Machine V} (h : Tenure past m)
    {sub : Subscription} (hdropped : sub ∈ dropped past) :
    ∃ r ∈ registrations past, r.subscription = sub := by
  have hmem := h.conserved.mem_iff.mpr (List.mem_append_left _ hdropped)
  exact List.mem_map.mp hmem

theorem Tenure.fresh {past : List (Machine V)} {m : Machine V} (h : Tenure past m)
    (horderly : m.Orderly) {r : Registration} (hregistering : m.registering? = some r) :
    r.subscription ∉ detached past := by
  intro hdetached
  have hdropped := (dropped_perm past).mem_iff.mpr (List.mem_append_left _ hdetached)
  obtain ⟨r', hr', hsame⟩ := h.dropped_made hdropped
  simp only [Registration.subscription, Subscription.mk.injEq] at hsame
  have hid := (h.numbered r' hr').1
  have hnew := (horderly.numbers h.grounded hregistering).1
  rw [hsame.1] at hid
  omega

theorem Tenure.remaining_advance {past : List (Machine V)} {m : Machine V} (h : Tenure past m)
    (horderly : m.Orderly) (i : Nat) :
    remaining (past ++ [m]) (detached (past ++ [m])) i =
      (remaining past (detached past) i ++ m.joining i).filter fun s =>
        m.detaching? ≠ some ⟨i, s.id⟩ := by
  have hjoining : m.joining i = (m.registering?.toList.filter fun r =>
      r.area = i ∧ r.subscription ∉ detached past).map (·.subscriber) := by
    rw [joining]
    congr 1
    refine List.filter_congr ?_
    intro r hr
    simp [h.fresh horderly (Option.mem_toList.mp hr)]
  rw [hjoining, remaining, registrations_append, detached_append, List.filter_append,
    List.map_append, filter_gone, filter_gone, ← List.filter_append, remaining]

theorem subscribers_playAll (moves : List (Move V)) (i : Nat)
    (halive : (idle.playAll moves).isAlive i) :
    ((idle.playAll moves).system.area i).subscribers =
      remaining (idle.history moves) (detached (idle.history moves)) i := by
  -- The induction carries the tenure along, for the roll of an area that is new is empty.
  have hcourse : Tenure (idle.history moves) (idle.playAll moves) ∧
      ∀ i, (idle.playAll moves).isAlive i →
        ((idle.playAll moves).system.area i).subscribers =
          remaining (idle.history moves) (detached (idle.history moves)) i := by
    apply orderly_induction (P := fun past m => Tenure past m ∧ ∀ i, m.isAlive i →
      (m.system.area i).subscribers = remaining past (detached past) i)
    · exact ⟨tenure_playAll [], by simp [idle, isAlive]⟩
    · rintro past m step ⟨htenure, hroll⟩ hstack
      refine ⟨htenure.begin hstack step, ?_⟩
      intro i halive
      refine hroll i ?_
      simpa [isAlive, start, hstack] using halive
    · rintro past m runner old left stack ⟨htenure, hroll⟩ hstack
      refine ⟨htenure.decide hstack, ?_⟩
      intro i halive
      refine hroll i ?_
      simpa [isAlive, hstack, Frame.keeps] using halive
    · rintro past m horderly ⟨htenure, hroll⟩
      refine ⟨htenure.advance horderly, ?_⟩
      intro i halive
      have hbefore : (m.system.area i).subscribers = remaining past (detached past) i := by
        obtain ⟨pushed, warned, heffect, hstack, -⟩ := advance_becomes horderly
        rcases heffect.alive hstack htenure.custody halive with hbefore | rfl
        · exact hroll i hbefore
        · have hnone : remaining past (detached past) m.system.areas.length = [] := by
            refine List.map_eq_nil_iff.mpr (List.filter_eq_nil_iff.mpr ?_)
            intro r hr harea
            simp only [decide_eq_true_eq] at harea
            have hid := (htenure.numbered r hr).1
            rw [harea.1, System.area_of_length_le (Nat.le_refl _)] at hid
            exact absurd hid (Nat.not_lt_zero _)
          rw [hnone, System.area_of_length_le (Nat.le_refl _)]
          rfl
      rw [horderly.subscribers htenure.grounded halive, hbefore,
        htenure.remaining_advance horderly]
  exact hcourse.2 i halive

/-! ## Which drops detach -/

omit [Storable V] in
theorem Tenure.nodup {past : List (Machine V)} {m : Machine V} (h : Tenure past m) :
    (detached past ++ stranded past ++ owned m.system m.stack).Nodup := by
  have hmade : ((registrations past).map (·.subscription)).Nodup := by
    refine List.pairwise_map.mpr (h.apart.imp ?_)
    exact fun hapart => hapart.1
  have hall := h.conserved.nodup_iff.mp hmade
  exact ((dropped_perm past).append_right _).nodup_iff.mp hall

omit [Storable V] in
theorem Tenure.remaining_dropped {past : List (Machine V)} {m : Machine V} (h : Tenure past m)
    (i : Nat) :
    remaining past (detached past) i = remaining past (dropped past) i ↔
      ∀ sub ∈ stranded past, sub.area ≠ i := by
  have hsplit (sub : Subscription) :
      sub ∈ dropped past ↔ sub ∈ detached past ∨ sub ∈ stranded past := by
    rw [(dropped_perm past).mem_iff, List.mem_append]
  constructor
  · rintro hsame sub hstranded rfl
    obtain ⟨r, hr, rfl⟩ := h.dropped_made ((hsplit _).mpr (.inr hstranded))
    have hattached : r.subscription ∉ detached past := by
      intro hdetached
      have hapart := (List.nodup_append.mp (List.nodup_append.mp h.nodup).1).2.2
      exact hapart _ hdetached _ hstranded rfl
    have hmem : r.subscriber ∈ remaining past (detached past) r.area :=
      List.mem_map.mpr ⟨r, List.mem_filter.mpr ⟨hr, by simpa using hattached⟩, rfl⟩
    have hmem : r.subscriber ∈ remaining past (dropped past) r.area := hsame ▸ hmem
    obtain ⟨r', hr', hsubscriber⟩ := List.mem_map.mp hmem
    obtain ⟨harea, hundropped⟩ : r'.area = r.area ∧ r'.subscription ∉ dropped past := by
      simpa using (List.mem_filter.mp hr').2
    refine hundropped ((hsplit _).mpr (.inr ?_))
    rwa [Registration.subscription, harea, hsubscriber]
  · intro hnone
    rw [remaining, remaining]
    congr 1
    refine List.filter_congr ?_
    intro r hr
    rw [decide_eq_decide]
    refine and_congr_right ?_
    rintro rfl
    rw [hsplit]
    constructor
    · rintro hattached (hdetached | hstranded)
      · exact hattached hdetached
      · exact hnone _ hstranded rfl
    · exact fun hundropped hdetached => hundropped (.inl hdetached)

omit [Storable V] in
theorem Tenure.length_remaining {past : List (Machine V)} {m : Machine V} (h : Tenure past m)
    (i : Nat) :
    (remaining past (detached past) i).length =
      (owned m.system m.stack).countP (·.area = i) + (stranded past).countP (·.area = i) := by
  let counts (sub : Subscription) : Bool := sub.area = i ∧ sub ∉ detached past
  -- Count what was made and what became of it by what is not detached.
  have hall : ((registrations past).map (·.subscription)).countP counts =
      (detached past ++ stranded past ++ owned m.system m.stack).countP counts :=
    (h.conserved.trans ((dropped_perm past).append_right _)).countP_eq counts
  have hnodup := List.nodup_append.mp h.nodup
  have hdetached : (detached past).countP counts = 0 := by
    refine List.countP_eq_zero.mpr ?_
    intro sub hsub
    simp [counts, hsub]
  have hstranded : (stranded past).countP counts = (stranded past).countP (·.area = i) := by
    refine List.countP_congr ?_
    intro sub hsub
    have hattached : sub ∉ detached past := fun hmem =>
      (List.nodup_append.mp hnodup.1).2.2 _ hmem _ hsub rfl
    simp [counts, hattached]
  have howned : (owned m.system m.stack).countP counts =
      (owned m.system m.stack).countP (·.area = i) := by
    refine List.countP_congr ?_
    intro sub hsub
    have hattached : sub ∉ detached past := fun hmem =>
      hnodup.2.2 _ (List.mem_append_left _ hmem) _ hsub rfl
    simp [counts, hattached]
  rw [List.countP_map, List.countP_append, List.countP_append] at hall
  rw [remaining, List.length_map, ← List.countP_eq_length_filter]
  have hmade : (registrations past).countP (counts ∘ fun r => r.subscription) =
      (registrations past).countP fun r => r.area = i ∧ r.subscription ∉ detached past := rfl
  omega

omit [Storable V] in
theorem Tenure.same {past : List (Machine V)} {m : Machine V} (h : Tenure past m)
    {r r' : Registration} (hr : r ∈ registrations past) (hr' : r' ∈ registrations past)
    (hsame : r.subscriber.handler = r'.subscriber.handler) : r = r' := by
  have hnodup : ((registrations past).map (·.subscriber.handler)).Nodup := by
    refine List.pairwise_map.mpr (h.apart.imp ?_)
    exact fun hapart => hapart.2
  exact List.inj_on_of_nodup_map hnodup hr hr' hsame

/--
The subscribers of an area are, in order, those whose subscription was not
dropped, if and only if no subscription of the area was dropped while the area
was in use.  A subscription that is dropped at any other time is detached, and no
other one is; from then on no event goes to its handler.
-/
theorem drops_detach_unless_in_use (moves : List (Move V)) (i : Nat)
    (halive : (idle.playAll moves).isAlive i) :
    let m := idle.playAll moves
    let past := idle.history moves
    let subscribers := (m.system.area i).subscribers
    (subscribers = remaining past (dropped past) i ↔ ∀ sub ∈ stranded past, sub.area ≠ i) ∧
      subscribers = remaining past (detached past) i ∧
      subscribers.length =
        (owned m.system m.stack).countP (·.area = i) + (stranded past).countP (·.area = i) ∧
      (∀ r ∈ registrations past, r.subscription ∈ detached past → ∀ writer,
        r.subscriber.handler ∉ (m.system.area i).recipients writer) ∧
      (m.advance.isAlive i →
        (m.advance.system.area i).subscribers = (subscribers ++ m.joining i).filter fun s =>
          m.detaching? ≠ some ⟨i, s.id⟩) := by
  intro m past subscribers
  have htenure : Tenure past m := tenure_playAll moves
  have hremaining : subscribers = remaining past (detached past) i :=
    subscribers_playAll moves i halive
  refine ⟨?_, hremaining, ?_, ?_, ?_⟩
  · rw [hremaining]
    exact htenure.remaining_dropped i
  · rw [hremaining]
    exact htenure.length_remaining i
  · intro r hr hdetached writer hmem
    obtain ⟨s, hs, hhandler⟩ := List.mem_map.mp hmem
    have hs : s ∈ remaining past (detached past) i := hremaining ▸ (List.mem_filter.mp hs).1
    obtain ⟨r', hr', rfl⟩ := List.mem_map.mp hs
    obtain ⟨hr', hattached⟩ := List.mem_filter.mp hr'
    have hsame : r' = r := htenure.same hr' hr hhandler
    rw [hsame] at hattached
    simp [hdetached] at hattached
  · exact fun hnext => (orderly_playAll moves).subscribers htenure.grounded hnext

/-- A handler that owns another subscription drops its own one while it runs. -/
def droppedInTurn : List (Move Draft) :=
  [.begin (.new "a" .localArea), .advance, .begin (.openTab "b" "a"), .advance,
    .begin (.subscribe "b" "s" [] none []), .advance, .advance, .advance,
    .begin (.subscribe "b" "t" [.dropSubscription "t"] none ["s"]), .advance, .advance, .advance,
    .begin (.set "a" "k" "1")] ++ List.replicate 30 .advance

theorem dropped_in_turn_detaches :
    (idle.playAll droppedInTurn).isAlive 0 ∧
      ((idle.playAll droppedInTurn).system.area 0).subscribers =
        remaining (idle.history droppedInTurn) (dropped (idle.history droppedInTurn)) 0 := by
  have halive : (idle.playAll droppedInTurn).isAlive 0 := by decide
  refine ⟨halive, ?_⟩
  exact (drops_detach_unless_in_use droppedInTurn 0 halive).1.mpr (by decide)

def ownerDropped : List (Move Draft) :=
  [.begin (.new "a" .localArea), .advance, .begin (.openTab "b" "a"), .advance,
    .begin (.subscribe "b" "s" [] none []), .advance, .advance, .advance,
    .begin (.subscribe "b" "t" [] none ["s"]), .advance, .advance, .advance,
    .begin (.dropSubscription "t")] ++ List.replicate 12 .advance

/-- The owned subscription is dropped with its owner, and its handler stays. -/
theorem owned_handler_stays :
    (idle.playAll ownerDropped).answer? = some .ok ∧ (idle.playAll ownerDropped).isAlive 0 ∧
      dropped (idle.history ownerDropped) = [⟨0, 1⟩, ⟨0, 0⟩] ∧
      ((idle.playAll ownerDropped).system.area 0).subscribers = [⟨0, 1, 0⟩] ∧
      ((idle.playAll ownerDropped).system.area 0).subscribers ≠
        remaining (idle.history ownerDropped) (dropped (idle.history ownerDropped)) 0 := by
  decide

end Machine

end TabRelay.Session
