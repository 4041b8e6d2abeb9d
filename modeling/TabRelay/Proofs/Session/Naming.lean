import TabRelay.Proofs.Session.Detaching

/-!
# Who holds a handle

A handle is held under a name, by a relay that has a name, or by a handler that
forwards for a relay.  A step gives at most one holder a handle: that of a tab
which is opened for it, or a duplicate of the handle of another holder.  All
others keep what they have, or lose it.
-/

namespace TabRelay.Session

open TabRelay.Decoding TabRelay.Storage

variable {V : Type}

/-! ## Holders -/

inductive Holder where
  | storage (id : String)
  | relay (id : String)
  | handler (number : Nat)
  deriving DecidableEq, Repr

def Handler.handle? (handler : Handler V) : Option Handle :=
  match handler.reaction with
  | .script _ _ => none
  | .forward relay => some relay.handle

namespace System

def handle? (s : System V) : Holder → Option Handle
  | .storage id => Keyed.lookup? id s.storageNames
  | .relay id => (Keyed.lookup? id s.relayNames).map (·.handle)
  | .handler i => s.handlers[i]?.bind (·.handle?)

def Opened (s : System V) (h : Handle) : Prop :=
  h.area < s.areas.length ∧ h.tab < (s.area h.area).tabs.length

theorem handle?_congr {s s' : System V} (hstorages : s'.storageNames = s.storageNames)
    (hrelays : s'.relayNames = s.relayNames) (hhandlers : s'.handlers = s.handlers) (x : Holder) :
    s'.handle? x = s.handle? x := by
  cases x <;> simp only [handle?, hstorages, hrelays, hhandlers]

theorem handle?_nameStorage (s : System V) (id : String) (h : Handle) (x : Holder) :
    (s.nameStorage id h).handle? x = if x = .storage id then some h else s.handle? x := by
  cases x with
  | storage other =>
      simp only [handle?, nameStorage, Keyed.lookup?_insert, Holder.storage.injEq,
        eq_comm (a := other)]
  | relay other => rfl
  | handler i => rfl

theorem handle?_nameRelay (s : System V) (id : String) (relay : Relay) (x : Holder) :
    (s.nameRelay id relay).handle? x = if x = .relay id then some relay.handle
      else s.handle? x := by
  cases x with
  | storage other => rfl
  | relay other =>
      by_cases hid : other = id
      · simp [handle?, nameRelay, Keyed.lookup?_insert, hid]
      · simp [handle?, nameRelay, Keyed.lookup?_insert, hid, Ne.symm hid]
  | handler i => rfl

theorem handle?_setHandler {s : System V} {i : Nat} {handler : Handler V}
    (hsame : ∀ old, s.handlers[i]? = some old → handler.handle? = old.handle?) (x : Holder) :
    (s.setHandler i handler).handle? x = s.handle? x := by
  cases x with
  | storage id => rfl
  | relay id => rfl
  | handler j =>
      simp only [handle?, setHandler, List.getElem?_set]
      split
      · rename_i hij
        subst hij
        cases hold : s.handlers[i]? with
        | none => simp [List.getElem?_eq_none_iff.mp hold]
        | some old => simp [(List.getElem?_eq_some_iff.mp hold).1, hsame old hold]
      · rfl

theorem handle?_addHandler (s : System V) (reaction : Reaction V) (x : Holder) :
    (s.addHandler reaction).1.handle? x =
      if x = .handler s.handlers.length then Handler.handle? ⟨reaction, false⟩
      else s.handle? x := by
  cases x with
  | storage id => rfl
  | relay id => rfl
  | handler i =>
      simp only [handle?, addHandler, Holder.handler.injEq, List.getElem?_append]
      by_cases hi : i < s.handlers.length
      · simp [hi, Nat.ne_of_lt hi]
      · by_cases heq : i = s.handlers.length
        · simp [heq]
        · have hlt : s.handlers.length < i := by omega
          simp [hi, heq, Nat.sub_ne_zero_of_lt hlt]

end System

/-! ## The order of the names -/

structure System.Listed (s : System V) : Prop where
  storages : Keyed.Sorted s.storageNames
  logs : Keyed.Sorted s.logNames
  queues : Keyed.Sorted s.queueNames
  relays : Keyed.Sorted s.relayNames

namespace Machine

theorem SameNames.listed {s s' : System V} (h : SameNames s s') (hlisted : s.Listed) :
    s'.Listed where
  storages := h.storages ▸ hlisted.storages
  logs := h.logs ▸ hlisted.logs
  queues := h.queues ▸ hlisted.queues
  relays := h.relays ▸ hlisted.relays

variable [Storable V]

theorem Begins.listed {m : Machine V} {step : Step V} {s : System V} {pushed : List (Frame V)}
    {a : Answer V} (h : Begins m step s pushed a) (hlisted : m.system.Listed) : s.Listed := by
  obtain ⟨hstorages, hlogs, hqueues, hrelays⟩ := hlisted
  cases h with
  | creates hnew => exact ⟨Keyed.sorted_insert hstorages _ _, hlogs, hqueues, hrelays⟩
  | opensTab hname => exact ⟨Keyed.sorted_insert hstorages _ _, hlogs, hqueues, hrelays⟩
  | namesTab hname => exact ⟨Keyed.sorted_insert hstorages _ _, hlogs, hqueues, hrelays⟩
  | dropsTab hname => exact ⟨Keyed.sorted_erase hstorages _, hlogs, hqueues, hrelays⟩
  | createsLog id => exact ⟨hstorages, Keyed.sorted_insert hlogs _ _, hqueues, hrelays⟩
  | createsQueue id => exact ⟨hstorages, hlogs, Keyed.sorted_insert hqueues _ _, hrelays⟩
  | namesRelay hhandle hqueue hlog hscripts hmakes =>
      exact ⟨hstorages, hlogs, hqueues, Keyed.sorted_insert hrelays _ _⟩
  | renamesRelay hname => exact ⟨hstorages, hlogs, hqueues, Keyed.sorted_insert hrelays _ _⟩
  | dropsRelay hname => exact ⟨hstorages, hlogs, hqueues, Keyed.sorted_erase hrelays _⟩
  | subscribes hsubscribing htake =>
      obtain ⟨names, rfl⟩ := System.takeSubscriptions_eq htake
      exact ⟨hstorages, hlogs, hqueues, hrelays⟩
  | failsToSubscribe htake =>
      obtain ⟨names, rfl⟩ := System.takeSubscriptions_eq htake
      exact ⟨hstorages, hlogs, hqueues, hrelays⟩
  | startsDraining hdrains =>
      obtain ⟨queues, logs, scripts, rfl⟩ := hdrains.eq
      exact ⟨hstorages, hlogs, hqueues, hrelays⟩
  | receives hname hreceives =>
      obtain ⟨logs, scripts, rfl⟩ := hreceives.eq
      exact ⟨hstorages, hlogs, hqueues, hrelays⟩
  | _ => exact ⟨hstorages, hlogs, hqueues, hrelays⟩

theorem Effect.listed {m : Machine V} {s : System V} {pushed : List (Frame V)}
    {control : Control V} {warned : List (Entry V)} (h : Effect m s pushed control warned)
    (hlisted : m.system.Listed) : s.Listed := by
  cases h with
  | rests hrest hbelow => exact hlisted
  | begins hrun hbegins => exact hbegins.listed hlisted
  | continues hdone hstack hcontinues => exact hcontinues.names.listed hlisted
  | frees hdone hstack hfreeing hfrees => exact hfrees.names.listed hlisted

/-! ## Tabs are never closed -/

omit [Storable V] in
theorem tabs_setArea {s : System V} {j : Nat} (changed : Area)
    (hle : (s.area j).tabs.length ≤ changed.tabs.length) (i : Nat) :
    (s.area i).tabs.length ≤ ((s.setArea j changed).area i).tabs.length := by
  by_cases hij : j = i
  · subst hij
    by_cases hj : j < s.areas.length
    · rwa [System.area_setArea_self _ hj]
    · rw [System.setArea, List.set_eq_of_length_le (Nat.le_of_not_lt hj)]
  · rw [System.area_setArea_ne _ hij]

omit [Storable V] in
theorem tabs_newArea {step : Step V} {id : String} {area : Area}
    (h : step.newArea? = some (id, area)) : area.tabs = [{}] := by
  cases step <;> cases h <;> rfl

omit [Storable V] in
theorem tabs_perform (a : Area) (operation : Operation) :
    (a.perform operation).area.tabs = a.tabs := by
  obtain ⟨entries, harea⟩ := area_perform a operation
  rw [harea]

theorem Begins.tabs_le {m : Machine V} {step : Step V} {s : System V} {pushed : List (Frame V)}
    {a : Answer V} (h : Begins m step s pushed a) (i : Nat) :
    (m.system.area i).tabs.length ≤ (s.area i).tabs.length := by
  cases h with
  | @creates step id area hnew =>
      by_cases hi : i < m.system.areas.length
      · simp [System.area, System.nameStorage, System.addArea, List.getElem?_append, hi]
      · by_cases heq : i = m.system.areas.length
        · simp [System.area, System.nameStorage, System.addArea, heq, tabs_newArea hnew, default,
            instInhabitedArea.default]
        · have hlt : m.system.areas.length < i := by omega
          rw [System.area_of_length_le (Nat.le_of_not_lt hi), System.area_of_length_le]
          simpa [System.nameStorage, System.addArea] using Nat.succ_le_of_lt hlt
  | opensTab hname => exact tabs_setArea _ (by simp [Area.openTab]) i
  | operates hcall hwaiting houtcome =>
      subst houtcome
      exact tabs_setArea _ (Nat.le_of_eq (by rw [tabs_perform])) i
  | setsFaults hname => exact tabs_setArea _ (by simp [Area.setFaults]) i
  | @subscribes storage id steps times own s subs h hsubscribing htake =>
      obtain ⟨names, rfl⟩ := System.takeSubscriptions_eq htake
      exact tabs_setArea ((m.system.area h.area).subscribe h.tab _).1 (Nat.le_refl _) i
  | failsToSubscribe htake =>
      obtain ⟨names, rfl⟩ := System.takeSubscriptions_eq htake
      exact Nat.le_refl _
  | @listens name id relay hsubscribing hname =>
      exact tabs_setArea ((m.system.area relay.handle.area).subscribe relay.handle.tab _).1
        (Nat.le_refl _) i
  | startsDraining hdrains =>
      obtain ⟨queues, logs, scripts, rfl⟩ := hdrains.eq
      exact Nat.le_refl _
  | receives hname hreceives =>
      obtain ⟨logs, scripts, rfl⟩ := hreceives.eq
      exact Nat.le_refl _
  | _ => exact Nat.le_refl _

theorem Effect.tabs_le {m : Machine V} {s : System V} {pushed : List (Frame V)}
    {control : Control V} {warned : List (Entry V)} (h : Effect m s pushed control warned)
    (i : Nat) : (m.system.area i).tabs.length ≤ (s.area i).tabs.length := by
  cases h with
  | rests hrest hbelow => exact Nat.le_refl _
  | begins hrun hbegins => exact hbegins.tabs_le i
  | continues hdone hstack hcontinues => rw [System.area_congr hcontinues.areas]
  | frees hdone hstack hfreeing hfrees =>
      cases hfrees with
      | @reaps top j hkeeps hdead =>
          exact tabs_setArea { m.system.area j with subscribers := [] } (Nat.le_refl _) i
      | @detaches sub left subscriber halive hheld hfound =>
          exact tabs_setArea ((m.system.area sub.area).unsubscribe sub.id) (Nat.le_refl _) i
      | _ => exact Nat.le_refl _

end Machine

/-! ## What a step gives -/

/-- A holder gets a handle: a duplicate of that of the source, or else the handle of
a new tab. -/
structure Gain where
  holder : Holder
  source : Option Holder
  deriving DecidableEq, Repr

namespace Step

def relayGain? (s : System V) (id storage queue : String) : Option Gain :=
  (s.handle? (.storage storage)).bind fun _ =>
    (Keyed.lookup? queue s.queueNames).map fun _ => ⟨.relay id, some (.storage storage)⟩

def gain? (s : System V) : Step V → Option Gain
  | .new id _ => some ⟨.storage id, none⟩
  | .newWithQuota id _ _ => some ⟨.storage id, none⟩
  | .newWithEntries id _ _ => some ⟨.storage id, none⟩
  | .openTab id storage =>
      (s.handle? (.storage storage)).map fun _ => ⟨.storage id, none⟩
  | .sameTab id storage =>
      (s.handle? (.storage storage)).map fun _ => ⟨.storage id, some (.storage storage)⟩
  | .relayToLog id storage queue log =>
      (Keyed.lookup? log s.logNames).bind fun _ => relayGain? s id storage queue
  | .relayToNone id storage queue => relayGain? s id storage queue
  | .relayToScript id storage queue _ _ => relayGain? s id storage queue
  | .sameRelay id relay => (s.handle? (.relay relay)).map fun _ => ⟨.relay id, some (.relay relay)⟩
  | .listen relay _ =>
      ((s.handle? (.relay relay)).filter fun h => .subscribe ∉ (s.faultsOf h).failing).map
        fun _ => ⟨.handler s.handlers.length, some (.relay relay)⟩
  | _ => none

def givesHandle : Step V → Bool
  | .new .. | .newWithQuota .. | .newWithEntries .. | .openTab .. | .sameTab .. | .relayToLog ..
  | .relayToNone .. | .relayToScript .. | .sameRelay .. | .listen .. => true
  | _ => false

theorem gain?_of_not_givesHandle {s : System V} {step : Step V} (h : step.givesHandle = false) :
    step.gain? s = none := by
  cases step <;> first | rfl | contradiction

end Step

/-- From one system to the next, no holder but the one that gains a handle gets one. -/
inductive Hands (s s' : System V) : Option Gain → Prop where
  | nothing (hkept : ∀ x h, s'.handle? x = some h → s.handle? x = some h) : Hands s s' none
  | copy {x source : Holder} {h : Handle} (hsource : s.handle? source = some h)
      (hnew : s'.handle? x = some h)
      (hkept : ∀ y ≠ x, ∀ k, s'.handle? y = some k → s.handle? y = some k) :
      Hands s s' (some ⟨x, some source⟩)
  | tab {x : Holder} {h : Handle} (hnew : s'.handle? x = some h) (hfresh : ¬ s.Opened h)
      (hopened : s'.Opened h)
      (hkept : ∀ y ≠ x, ∀ k, s'.handle? y = some k → s.handle? y = some k) :
      Hands s s' (some ⟨x, none⟩)

theorem Hands.of_same {s s' : System V} (h : ∀ x, s'.handle? x = s.handle? x) : Hands s s' none :=
  .nothing fun x _ hx => (h x) ▸ hx

theorem Hands.nameRelay {s s' : System V} {id : String} {relay : Relay} {source : Holder}
    (hsource : s.handle? source = some relay.handle)
    (hsystem : ∃ scripts, s' = { s with scripts }.nameRelay id relay) :
    Hands s s' (some ⟨.relay id, some source⟩) := by
  obtain ⟨scripts, rfl⟩ := hsystem
  have hnamed := System.handle?_nameRelay { s with scripts } id relay
  refine .copy hsource ((hnamed _).trans (if_pos rfl)) ?_
  intro y hy k hk
  rw [hnamed, if_neg hy] at hk
  exact hk

namespace Machine

def gain? (m : Machine V) : Option Gain :=
  match m.control with
  | .run step => step.gain? m.system
  | _ => none

variable [Storable V]

theorem Begins.handle? {m : Machine V} {step : Step V} {s : System V} {pushed : List (Frame V)}
    {a : Answer V} (h : Begins m step s pushed a) (hlisted : m.system.Listed)
    (hgives : step.givesHandle = false) {x : Holder} {k : Handle}
    (hx : s.handle? x = some k) : m.system.handle? x = some k := by
  cases h with
  | creates hnew => cases step <;> contradiction
  | opensTab hname => contradiction
  | namesTab hname => contradiction
  | listens hsubscribing hname => contradiction
  | renamesRelay hname => contradiction
  | namesRelay hhandle hqueue hlog hscripts hmakes => cases step <;> contradiction
  | dropsTab hname =>
      cases x with
      | storage id =>
          simp only [System.handle?, Keyed.lookup?_erase hlisted.storages] at hx ⊢
          split at hx
          · contradiction
          · exact hx
      | relay id => exact hx
      | handler i => exact hx
  | dropsRelay hname =>
      cases x with
      | storage id => exact hx
      | relay id =>
          simp only [System.handle?, Keyed.lookup?_erase hlisted.relays] at hx ⊢
          split at hx
          · contradiction
          · exact hx
      | handler i => exact hx
  | subscribes hsubscribing htake =>
      obtain ⟨names, rfl⟩ := System.takeSubscriptions_eq htake
      have hadded : (m.system.addHandler (.script ⟨_, _, _⟩ _)).1.handle? x = some k := hx
      rw [System.handle?_addHandler] at hadded
      split at hadded
      · contradiction
      · exact hadded
  | failsToSubscribe htake =>
      obtain ⟨names, rfl⟩ := System.takeSubscriptions_eq htake
      exact (System.handle?_congr rfl rfl rfl x).symm.trans hx
  | startsDraining hdrains =>
      obtain ⟨queues, logs, scripts, rfl⟩ := hdrains.eq
      exact (System.handle?_congr rfl rfl rfl x).symm.trans hx
  | receives hname hreceives =>
      obtain ⟨logs, scripts, rfl⟩ := hreceives.eq
      exact (System.handle?_congr rfl rfl rfl x).symm.trans hx
  | _ => exact (System.handle?_congr rfl rfl rfl x).symm.trans hx

omit [Storable V] in
theorem Continues.handle? {m : Machine V} {top : Frame V} {b : Answer V} {s : System V}
    {pushed : List (Frame V)} {control : Control V} {warned : List (Entry V)}
    (h : Continues m top b s pushed control warned) (x : Holder) :
    s.handle? x = m.system.handle? x := by
  cases h with
  | calls b hrunning hreacts =>
      cases hreacts with
      | missing hhandler => rfl
      | script hhandler hreaction =>
          refine System.handle?_setHandler ?_ x
          intro old hold
          rw [hhandler] at hold
          cases hold
          simp only [Handler.handle?, hreaction]
      | forward hhandler hreaction hreceives =>
          obtain ⟨logs, scripts, rfl⟩ := hreceives.eq
          exact System.handle?_congr rfl rfl rfl x
  | drains b hdrains =>
      obtain ⟨queues, logs, scripts, rfl⟩ := hdrains.eq
      exact System.handle?_congr rfl rfl rfl x
  | _ => exact System.handle?_congr rfl rfl rfl x

omit [Storable V] in
theorem Frees.handle? {m : Machine V} {top : Frame V} {s : System V} {pushed : List (Frame V)}
    (h : Frees m top s pushed) (x : Holder) : s.handle? x = m.system.handle? x := by
  cases h with
  | frees hreferred hhandler =>
      refine System.handle?_setHandler ?_ x
      intro old hold
      rw [hhandler] at hold
      cases hold
      rfl
  | _ => exact System.handle?_congr rfl rfl rfl x

/-! ## Steps that give a handle -/

theorem advance_of_run {m : Machine V} {step : Step V} (hrun : m.control = .run step) :
    m.advance = m.begin step := by
  simp only [advance, hrun]

omit [Storable V] in
theorem hands_create {m : Machine V} {id : String} {area : Area} (htabs : area.tabs = [{}]) :
    Hands m.system (m.create id area).system (some ⟨.storage id, none⟩) := by
  have hnamed := System.handle?_nameStorage (m.system.addArea area).1 id
    (m.system.addArea area).2
  simp only [create, nameStorage_eq, update]
  refine .tab ((hnamed _).trans (if_pos rfl)) ?_ ?_ ?_
  · rintro ⟨hlength, -⟩
    exact Nat.lt_irrefl _ hlength
  · simp [System.Opened, System.addArea, System.nameStorage, System.area, htabs]
  · intro y hy k hk
    rw [hnamed, if_neg hy] at hk
    exact hk

omit [Storable V] in
theorem hands_openTab {m : Machine V} (hfree : m.Unheld) (id : String) {h : Handle}
    (hlength : h.area < m.system.areas.length) :
    Hands m.system (m.openTab id h).system (some ⟨.storage id, none⟩) := by
  have hnamed := System.handle?_nameStorage
    (m.system.setArea h.area (m.system.area h.area).openTab.1) id
    ⟨h.area, (m.system.area h.area).openTab.2⟩
  simp only [openTab, whenFree_of_unheld hfree, nameStorage_eq, setArea, update]
  refine .tab ((hnamed _).trans (if_pos rfl)) ?_ ?_ ?_
  · rintro ⟨-, htab⟩
    exact Nat.lt_irrefl _ htab
  · have harea := System.area_setArea_self (m.system.area h.area).openTab.1 hlength
    refine ⟨by simpa [System.nameStorage, System.setArea] using hlength, ?_⟩
    change (m.system.area h.area).tabs.length < ((m.system.setArea h.area
      (m.system.area h.area).openTab.1).area h.area).tabs.length
    rw [harea]
    simp [Area.openTab]
  · intro y hy k hk
    rw [hnamed, if_neg hy] at hk
    exact hk

omit [Storable V] in
theorem hands_makeRelay {m : Machine V} (id storage queue : String) (listener : Listener) :
    Hands m.system (m.makeRelay id storage queue listener).system
      (Step.relayGain? m.system id storage queue) := by
  simp only [makeRelay, withStorage, withQueue, withNamed, Step.relayGain?, System.handle?]
  cases hstorage : Keyed.lookup? storage m.system.storageNames with
  | none => exact .of_same fun _ => rfl
  | some h =>
      cases hqueue : Keyed.lookup? queue m.system.queueNames with
      | none => exact .of_same fun _ => rfl
      | some q =>
          simp only [nameRelay_eq]
          exact .nameRelay (by simpa [System.handle?] using hstorage) ⟨m.system.scripts, rfl⟩

omit [Storable V] in
theorem hands_makeScriptRelay {m : Machine V} (id storage queue : String) (script : Script V) :
    Hands m.system (m.makeScriptRelay id storage queue script).system
      (Step.relayGain? m.system id storage queue) := by
  simp only [makeScriptRelay, withStorage, withQueue, withNamed, Step.relayGain?, System.handle?]
  cases hstorage : Keyed.lookup? storage m.system.storageNames with
  | none => exact .of_same fun _ => rfl
  | some h =>
      cases hqueue : Keyed.lookup? queue m.system.queueNames with
      | none => exact .of_same fun _ => rfl
      | some q =>
          simp only [System.addScript, nameRelay_eq]
          exact .nameRelay (by simpa [System.handle?] using hstorage) ⟨m.system.scripts ++ [script], rfl⟩

omit [Storable V] in
theorem hands_listen {m : Machine V} (hfree : m.Unheld) {name : String} {relay : Relay}
    (hname : Keyed.lookup? name m.system.relayNames = some relay) (id : String) :
    Hands m.system (m.listen relay id).system
      (((some relay.handle).filter fun h => .subscribe ∉ (m.system.faultsOf h).failing).map
        fun _ => ⟨.handler m.system.handlers.length, some (.relay name)⟩) := by
  simp only [listen, Faults.check]
  by_cases hfails : .subscribe ∈ (m.system.faultsOf relay.handle).failing
  · simp only [Option.filter_some, hfails, not_true_eq_false, decide_false, Bool.false_eq_true,
      if_false, Option.map_none]
    exact .of_same fun _ => rfl
  · have hadded := System.handle?_addHandler m.system (.forward relay)
    simp only [Option.filter_some, hfails, not_false_eq_true, decide_true, if_true,
      Option.map_some, register_eq (hfree _)]
    refine .copy (h := relay.handle) (by simp [System.handle?, hname])
      ((hadded _).trans (if_pos rfl)) ?_
    intro y hy k hk
    have hk' := (hadded y).symm.trans hk
    rw [if_neg hy] at hk'
    exact hk'

theorem Orderly.hands {m : Machine V} (horderly : m.Orderly) (hgrounded : Grounded m.system)
    (hlisted : m.system.Listed) : Hands m.system m.advance.system m.gain? := by
  obtain ⟨pushed, warned, heffect, -⟩ := advance_becomes horderly
  cases hcontrol : m.control with
  | run step =>
      have hfree : m.Unheld := unheld_of_no_disposing (horderly.running step hcontrol)
      obtain ⟨a, -, hbegins⟩ := heffect.of_run hcontrol
      simp only [gain?, hcontrol]
      by_cases hgives : step.givesHandle = false
      · rw [Step.gain?_of_not_givesHandle hgives]
        exact .nothing fun x _ hx => hbegins.handle? hlisted hgives hx
      rw [advance_of_run hcontrol]
      cases step with
      | new id kind => exact hands_create rfl
      | newWithQuota id kind quota => exact hands_create rfl
      | newWithEntries id kind entries => exact hands_create rfl
      | openTab id storage =>
          simp only [begin, withStorage, withNamed, Step.gain?, System.handle?]
          cases hname : Keyed.lookup? storage m.system.storageNames with
          | none => exact .of_same fun _ => rfl
          | some h =>
              exact hands_openTab hfree id (hgrounded.storages _ (Keyed.mem_of_lookup? hname))
      | sameTab id storage =>
          simp only [begin, withStorage, withNamed, Step.gain?, System.handle?]
          cases hname : Keyed.lookup? storage m.system.storageNames with
          | none => exact .of_same fun _ => rfl
          | some h =>
              have hnamed := System.handle?_nameStorage m.system id h
              simp only [nameStorage_eq]
              refine .copy hname ((hnamed _).trans (if_pos rfl)) ?_
              intro y hy k hk
              rw [hnamed, if_neg hy] at hk
              exact hk
      | relayToLog id storage queue log =>
          simp only [begin, withLog, withNamed, Step.gain?]
          cases hlog : Keyed.lookup? log m.system.logNames with
          | none => exact .of_same fun _ => rfl
          | some log => exact hands_makeRelay id storage queue (.log log)
      | relayToNone id storage queue => exact hands_makeRelay id storage queue .none
      | relayToScript id storage queue steps times => exact hands_makeScriptRelay id storage queue _
      | sameRelay id relay =>
          simp only [begin, withRelay, withNamed, Step.gain?, System.handle?]
          cases hname : Keyed.lookup? relay m.system.relayNames with
          | none => exact .of_same fun _ => rfl
          | some r =>
              simp only [nameRelay_eq]
              exact .nameRelay (by simp [System.handle?, hname]) ⟨m.system.scripts, rfl⟩
      | listen relay id =>
          simp only [begin, withRelay, withNamed, Step.gain?, System.handle?]
          cases hname : Keyed.lookup? relay m.system.relayNames with
          | none => exact .of_same fun _ => rfl
          | some r => exact hands_listen hfree hname id
      | _ => exact absurd rfl hgives
  | done b =>
      simp only [gain?, hcontrol]
      cases hstack : m.stack with
      | nil =>
          simp only [Machine.advance, hcontrol, resume, hstack]
          exact .of_same fun _ => rfl
      | cons top rest =>
          rcases heffect.of_done hcontrol hstack with hcontinues | ⟨-, hfrees, -⟩
          · exact .of_same hcontinues.handle?
          · exact .of_same hfrees.handle?
  | conflict cell =>
      simp only [gain?, hcontrol, Machine.advance]
      exact .of_same fun _ => rfl

end Machine

end TabRelay.Session
