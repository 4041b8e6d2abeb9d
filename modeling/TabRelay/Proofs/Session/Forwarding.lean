import TabRelay.Proofs.Session.Recording
import TabRelay.Session.Draft

/-!
# Changes of other tabs are told once

What happens to an area is due to each subscription that a relay made by
listening and that is alive when it happens, unless it is a change that the tab of
the relay made itself.  In an ordinary session the notices of other tabs that a
log holds are those that were due to it, in order.
-/

namespace TabRelay.Session

open TabRelay.Storage

variable {V : Type}

namespace Machine

/-! ## What is due to a log -/

/-- The subscription that a relay gets with the next step, which listens. -/
def listening? (m : Machine V) : Option (Subscription × Relay) :=
  match m.control with
  | .run (.listen name _) =>
      m.registering?.bind fun r =>
        (Keyed.lookup? name m.system.relayNames).map fun relay => (r.subscription, relay)
  | _ => none

def listenings (past : List (Machine V)) : List (Subscription × Relay) :=
  past.filterMap (·.listening?)

variable [Storable V]

/-- The event that happens next, with the area and the tab that brings it about: what a plain
map raises for an operation, or an event that is dispatched. -/
def occurring? (past : List (Machine V)) (m : Machine V) :
    Option (Event × Nat × Option Nat) :=
  match m.control with
  | .run (.dispatch storage (.ok event)) =>
      (Keyed.lookup? storage m.system.storageNames).map fun h => (event, h.area, none)
  | .run _ =>
      m.invocation?.bind fun call =>
        (plainArea past call.handle.area).bind fun plain =>
          (plain.perform call.operation).raised.map fun event =>
            (event, call.handle.area, some call.handle.tab)
  | _ => none

/-- One notice of what happens next for each subscription that is alive, of a relay of
another tab of the area that tells the log. -/
def owed (log : Nat) (past : List (Machine V)) (m : Machine V) : List (Change V) :=
  match m.occurring? past with
  | none => []
  | some (event, area, writer) =>
      (listenings past).filterMap fun (sub, relay) =>
        if sub ∉ dropped past ∧ relay.listener = .log log ∧ relay.handle.area = area ∧
            writer ≠ some relay.handle.tab ∧ event.area = (plainArea past area).map (·.kind) then
          some (.external event.key event.newText)
        else none

def due (log : Nat) (past : List (Machine V)) : List (Machine V) → List (Change V)
  | [] => []
  | m :: later => owed log past m ++ due log (past ++ [m]) later

theorem due_append (log : Nat) (past first second : List (Machine V)) :
    due log past (first ++ second) = due log past first ++ due log (past ++ first) second := by
  induction first generalizing past with
  | nil => simp [due]
  | cons m first ih => simp [due, ih]

/-! ## What happens is what is raised -/

theorem plainArea_of_lt (moves : List (Move V)) {i : Nat}
    (hi : i < (idle.playAll moves).system.areas.length) :
    plainArea (idle.history moves) i = some ((idle.playAll moves).system.area i).plain := by
  rw [← plain_playAll moves i]
  simp [System.area, hi]

theorem raising?_eq_occurring? (moves : List (Move V)) :
    (idle.playAll moves).raising? = (idle.playAll moves).occurring? (idle.history moves) := by
  have hgrounded := grounded_playAll moves
  have hplain := fun i => plainArea_of_lt moves (i := i)
  generalize idle.playAll moves = m at hgrounded hplain ⊢
  have hcalls : (m.invocation?.bind fun call =>
      ((m.system.area call.handle.area).perform call.operation).raised.map fun event =>
        (event, call.handle.area, some call.handle.tab)) =
      m.invocation?.bind fun call =>
        (plainArea (idle.history moves) call.handle.area).bind fun plain =>
          (plain.perform call.operation).raised.map fun event =>
            (event, call.handle.area, some call.handle.tab) := by
    refine Option.bind_congr fun call hcall => ?_
    have hlength := hgrounded.called hcall
    have hrefines := Area.perform_refines (hgrounded.sorted_area call.handle.area) call.operation
    rw [hplain _ hlength, hrefines.raised]
    rfl
  unfold raising?
  rw [hcalls]
  rfl

theorem raising?_lt {m : Machine V} (hgrounded : Grounded m.system) {event : Event}
    {area : Nat} {writer : Option Nat} (h : m.raising? = some (event, area, writer)) :
    area < m.system.areas.length := by
  unfold raising? at h
  split at h
  · obtain ⟨handle, hname, hsame⟩ := Option.map_eq_some_iff.mp h
    cases hsame
    exact hgrounded.storages _ (Keyed.mem_of_lookup? hname)
  · obtain ⟨call, hcall, hmap⟩ := Option.bind_eq_some_iff.mp h
    obtain ⟨raised, hraised, hsame⟩ := Option.map_eq_some_iff.mp hmap
    cases hsame
    exact hgrounded.called hcall
  · contradiction

theorem run_of_raising {m : Machine V} {raised : Event × Nat × Option Nat}
    (h : m.raising? = some raised) : ∃ step, m.control = .run step := by
  cases hcontrol : m.control <;> first | exact ⟨_, rfl⟩ | simp [raising?, hcontrol] at h

theorem run_of_sending {m : Machine V} (hsending : m.sending ≠ []) :
    ∃ step, m.control = .run step := by
  cases hraising : m.raising? with
  | none => simp [sending, hraising] at hsending
  | some raised => exact run_of_raising hraising

/-! ## Who is told of it -/

omit [Storable V] in
theorem Ordinary.stranding?_eq_none {m : Machine V} (h : m.Ordinary) : m.stranding? = none := by
  cases hstranding : m.stranding? with
  | none => rfl
  | some sub =>
      obtain ⟨hdropping, hheld⟩ := Option.filter_eq_some_iff.mp hstranding
      have htidy := h.tidy
      unfold dropping? at hdropping
      split at hdropping
      · rename_i b top left rest hdone hstack
        rw [hstack] at htidy
        cases htidy.rest_eq_nil (by simp [Frame.allows])
        simp [isHeld, hstack] at hheld
      · contradiction

theorem ordinary_of_mem_history {moves : List (Move V)}
    (hordinary : ∀ m ∈ Machine.idle.history moves, m.isOrdinary) {m : Machine V}
    (hm : m ∈ Machine.idle.history moves) : m.Ordinary := by
  obtain ⟨earlier, rest, rfl, rfl⟩ := mem_history hm
  refine ordinary_playAll earlier fun x hx => hordinary x ?_
  rw [history_append]
  exact List.mem_append_left _ hx

theorem stranded_of_ordinary {moves : List (Move V)}
    (hordinary : ∀ m ∈ Machine.idle.history moves, m.isOrdinary) :
    stranded (Machine.idle.history moves) = [] := by
  refine List.filterMap_eq_nil_iff.mpr fun m hm => ?_
  exact (ordinary_of_mem_history hordinary hm).stranding?_eq_none

omit [Storable V] in
/-- A registration is of a relay that listens, and its handler forwards to this relay. -/
structure Listens (s : System V) (r : Registration) (listening : Subscription × Relay) : Prop where
  subscription : r.subscription = listening.1
  area : r.area = listening.2.handle.area
  tab : r.subscriber.tab = listening.2.handle.tab
  handler : ∃ handler, s.handlers[r.subscriber.handler]? = some handler ∧
    handler.reaction = .forward listening.2

theorem Orderly.listens {m : Machine V} (h : m.Orderly) (hordinary : m.isOrdinary)
    {r : Registration} (hregistering : m.registering? = some r) :
    ∃ relay, m.listening? = some (r.subscription, relay) ∧
      Listens m.advance.system r (r.subscription, relay) := by
  obtain ⟨handle, hsubscribing, rfl⟩ := Option.map_eq_some_iff.mp hregistering
  obtain ⟨step, hrun, hstep, hallowed⟩ := subscribing?_eq_some hsubscribing
  have hfree : m.Unheld := unheld_of_no_disposing (h.running step hrun)
  have hcheck : (m.system.faultsOf handle).check .subscribe = .ok () := if_neg hallowed
  cases step with
  | subscribe storage id steps times own =>
      simp [isOrdinary, hrun, Step.isOrdinary] at hordinary
  | listen name id =>
      obtain ⟨relay, hname, rfl⟩ := Option.map_eq_some_iff.mp hstep
      have hadvance : m.advance = m.register relay.handle id (.forward relay) := by
        simp only [Machine.advance, hrun, begin, withRelay, withNamed, hname, listen, hcheck]
      refine ⟨relay, ?_, rfl, rfl, rfl, ⟨.forward relay, false⟩, ?_, rfl⟩
      · simp [listening?, hrun, hregistering, hname]
      · rw [hadvance, register_eq (hfree _)]
        simp [registered, System.nameSubscription, System.setArea, System.addHandler]
  | _ => contradiction

omit [Storable V] in
theorem listening?_of_not_registering {m : Machine V} (h : m.registering? = none) :
    m.listening? = none := by
  unfold listening?
  split
  · simp [h]
  · rfl

omit [Storable V] in
theorem listenings_append (past : List (Machine V)) (m : Machine V) :
    listenings (past ++ [m]) = listenings past ++ m.listening?.toList := by
  rw [listenings, List.filterMap_append, ← listenings]
  cases hlistening : m.listening? <;> simp [hlistening]

theorem Listens.advance {m : Machine V} (h : m.Ordinary) (horderly : m.Orderly)
    (hordinary : m.isOrdinary) {r : Registration} {listening : Subscription × Relay}
    (hlistens : Listens m.system r listening) : Listens m.advance.system r listening := by
  obtain ⟨pushed, warned, heffect, -⟩ := advance_becomes horderly
  obtain ⟨handler, hhandler, hforward⟩ := hlistens.handler
  obtain ⟨kept, hkept, hsame⟩ := heffect.reaction hordinary h.scriptless hhandler
  exact ⟨hlistens.subscription, hlistens.area, hlistens.tab, kept, hkept, hsame.trans hforward⟩

theorem listens_playAll (moves : List (Move V))
    (hordinary : ∀ m ∈ Machine.idle.history moves, m.isOrdinary) :
    List.Forall₂ (Listens (Machine.idle.playAll moves).system)
      (registrations (Machine.idle.history moves)) (listenings (Machine.idle.history moves)) := by
  induction moves using List.reverseRecOn with
  | nil => exact .nil
  | append_singleton moves move ih =>
      rw [history_append] at hordinary ⊢
      have hpast := fun m hm => hordinary m (List.mem_append_left _ hm)
      have hlistens := ih hpast
      rw [playAll_append, playAll_cons, playAll_nil]
      cases move with
      | begin step => simpa [history] using hlistens
      | decide left => simpa [history] using hlistens
      | advance =>
          have hnext := hordinary _ (List.mem_append_right _ List.mem_cons_self)
          have horderly := orderly_playAll moves
          have hmachine := ordinary_playAll moves hpast
          have hkept := hlistens.imp fun _ _ h => h.advance hmachine horderly hnext
          generalize Machine.idle.playAll moves = m at *
          simp only [history, play, registrations_append, listenings_append]
          refine List.rel_append hkept ?_
          cases hregistering : m.registering? with
          | none => simp [listening?_of_not_registering hregistering]
          | some r =>
              obtain ⟨relay, hlistening, hnew⟩ := horderly.listens hnext hregistering
              simpa [hlistening] using hnew

omit [Storable V] in
theorem named_of_mem_listenings {past : List (Machine V)} {p : Subscription × Relay}
    (h : p ∈ listenings past) : ∃ m ∈ past, ∃ q ∈ m.system.relayNames, q.2 = p.2 := by
  obtain ⟨m, hm, hlistening⟩ := List.mem_filterMap.mp h
  unfold listening? at hlistening
  split at hlistening
  · obtain ⟨r, -, hmap⟩ := Option.bind_eq_some_iff.mp hlistening
    obtain ⟨relay, hname, rfl⟩ := Option.map_eq_some_iff.mp hmap
    exact ⟨m, hm, _, Keyed.mem_of_lookup? hname, rfl⟩
  · contradiction

/-! ## What is sent out is owed -/

omit [Storable V] in
theorem flatMap_forwards_of_listens {s : System V} {gone : List Subscription} {event : Event}
    {area log : Nat} {writer : Option Nat} {regs : List Registration}
    {listenings : List (Subscription × Relay)} (h : List.Forall₂ (Listens s) regs listenings) :
    ((((regs.filter fun r => r.area = area ∧ r.subscription ∉ gone).map (·.subscriber)).filter
        fun subscriber => writer ≠ some subscriber.tab).flatMap fun subscriber =>
          s.forwards log (event, subscriber.handler)) =
      listenings.filterMap fun (sub, relay) =>
        if sub ∉ gone ∧ relay.listener = .log log ∧ relay.handle.area = area ∧
            writer ≠ some relay.handle.tab ∧ event.area = some (s.area area).kind then
          some (.external event.key event.newText)
        else none := by
  induction h with
  | nil => rfl
  | @cons r listening regs listenings hlistens _ ih =>
      obtain ⟨sub, relay⟩ := listening
      obtain ⟨rfl, harea, htab, handler, hhandler, hforward⟩ := hlistens
      have hforwards := forwards_eq log (event, r.subscriber.handler) hhandler hforward
      simp only at harea htab hforwards
      by_cases hsame : relay.handle.area = area
      · subst hsame
        by_cases hgone : r.subscription ∈ gone
        · simpa [harea, hgone] using ih
        · by_cases hwriter : writer = some relay.handle.tab
          · simpa [harea, hgone, hwriter, htab] using ih
          · simp only [List.filter_cons, harea, hgone, not_false_eq_true, and_self, decide_true,
              if_true, List.map_cons, htab, ne_eq, hwriter, List.flatMap_cons, hforwards,
              List.filterMap_cons, true_and] at ih ⊢
            split
            · simpa using ih
            · simpa using ih
      · simpa [harea, hsame] using ih

theorem sending_forwards (moves : List (Move V))
    (hordinary : ∀ m ∈ Machine.idle.history moves, m.isOrdinary) (log : Nat) :
    (Machine.idle.playAll moves).sending.flatMap
        ((Machine.idle.playAll moves).system.forwards log) =
      owed log (Machine.idle.history moves) (Machine.idle.playAll moves) := by
  have hmachine := ordinary_playAll moves hordinary
  have hlistens := listens_playAll moves hordinary
  rw [owed, ← raising?_eq_occurring?, sending]
  cases hraising : (Machine.idle.playAll moves).raising? with
  | none => rfl
  | some raised =>
      obtain ⟨event, area, writer⟩ := raised
      have hstranded : ∀ sub ∈ stranded (Machine.idle.history moves), sub.area ≠ area := by
        simp [stranded_of_ordinary hordinary]
      have hremaining := ((tenure_playAll moves).remaining_dropped area).mpr hstranded
      have hplain := plainArea_of_lt moves (raising?_lt hmachine.grounded hraising)
      simp only [audience_eq moves hraising, hremaining, hplain, List.flatMap_map]
      exact flatMap_forwards_of_listens hlistens

/-! ## What a log is told -/

def overheard (log : Nat) (past : List (Machine V)) : List (Change V) :=
  past.flatMap fun m => (m.arriving log).filter (!·.isCommitted)

theorem overheard_balanced (log : Nat) (moves : List (Move V))
    (hordinary : ∀ m ∈ Machine.idle.history moves, m.isOrdinary) :
    overheard log (Machine.idle.history moves) ++ (Machine.idle.playAll moves).inTransit log =
      due log [] (Machine.idle.history moves) := by
  induction moves using List.reverseRecOn with
  | nil => rfl
  | append_singleton moves move ih =>
      rw [history_append] at hordinary ⊢
      have hpast := fun m hm => hordinary m (List.mem_append_left _ hm)
      have hbalanced := ih hpast
      rw [playAll_append, playAll_cons, playAll_nil]
      cases move with
      | begin step => simpa [history, inTransit_begin] using hbalanced
      | decide left => simpa [history, inTransit_decide] using hbalanced
      | advance =>
          have hmachine := ordinary_playAll moves hpast
          have hnext := hordinary _ (List.mem_append_right _ List.mem_cons_self)
          have hstep := hmachine.forwards (orderly_playAll moves) hnext (custody_playAll moves) log
          have hsending := sending_forwards moves hpast log
          generalize Machine.idle.history moves = past at *
          generalize Machine.idle.playAll moves = m at *
          have hswap : m.sending.flatMap (m.system.forwards log) ++ m.inTransit log =
              m.inTransit log ++ m.sending.flatMap (m.system.forwards log) := by
            by_cases hnone : m.sending = []
            · simp [hnone]
            · obtain ⟨step, hrun⟩ := run_of_sending hnone
              simp [hmachine.inTransit_of_run hrun]
          have htold : overheard log (past ++ [m]) =
              overheard log past ++ (m.arriving log).filter (!·.isCommitted) := by
            simp [overheard]
          calc overheard log (past ++ [m]) ++ m.advance.inTransit log
            _ = overheard log past ++
                  (m.sending.flatMap (m.system.forwards log) ++ m.inTransit log) := by
                rw [htold, List.append_assoc, hstep]
            _ = due log [] past ++ owed log past m := by
                rw [hswap, ← List.append_assoc, hbalanced, hsending]
            _ = due log [] (past ++ [m]) := by
                rw [due_append]
                simp [due]

theorem Orderly.extends_log {m : Machine V} (h : m.Orderly) (hordinary : m.isOrdinary)
    (hedits : m.editsLog = false) (log : Nat) :
    m.advance.system.log log = m.system.log log ++ m.arriving log := by
  obtain ⟨pushed, warned, heffect, -⟩ := advance_becomes h
  have hposts := heffect.posts
  have hrelayed := isUnrelayed_of_ordinary hordinary
  suffices hlonger : m.system.log log <+: m.advance.system.log log by
    simpa [arriving, hrelayed] using (List.prefix_append_drop hlonger)
  have hpushed (l : Nat) (change : Change V) :
      m.system.log log <+: (m.system.pushToLog l change).logs.getD log [] := by
    simp only [System.pushToLog, System.setLog, getD_set]
    split
    · rename_i hl
      exact hl.1 ▸ List.prefix_append ..
    · exact List.prefix_rfl
  generalize hlogs : m.advance.system.logs = logs at hposts
  generalize m.advance.system.queues = queues at hposts
  generalize m.succeeding m.advance.control = done at hposts
  rw [System.log, System.log, hlogs]
  cases hposts with
  | opensLog => rw [getD_append_nil]
  | shortens hedited => simp [hedits] at hedited
  | lengthens hunrelayed => simp [hrelayed] at hunrelayed
  | forwards htakes l key newText => exact hpushed l _
  | @notifies q l change tasks hdraining hqueue => exact hpushed l change
  | _ => exact List.prefix_rfl

theorem filter_log (log : Nat) (moves : List (Move V))
    (hordinary : ∀ m ∈ Machine.idle.history moves, m.isOrdinary)
    (hedits : ∀ m ∈ Machine.idle.history moves, m.editsLog = false) :
    ((Machine.idle.playAll moves).system.log log).filter (!·.isCommitted) =
      overheard log (Machine.idle.history moves) := by
  induction moves using List.reverseRecOn with
  | nil => rfl
  | append_singleton moves move ih =>
      rw [history_append] at hordinary hedits ⊢
      have hpast := ih (fun m hm => hordinary m (List.mem_append_left _ hm))
        fun m hm => hedits m (List.mem_append_left _ hm)
      rw [playAll_append, playAll_cons, playAll_nil]
      cases move with
      | begin step => simpa [history] using hpast
      | decide left => simpa [history] using hpast
      | advance =>
          have hnext := (orderly_playAll moves).extends_log
            (hordinary _ (List.mem_append_right _ List.mem_cons_self))
            (hedits _ (List.mem_append_right _ List.mem_cons_self)) log
          simp only [play, hnext, List.filter_append, hpast]
          simp [overheard, history]

/--
In an ordinary session a log is told of other tabs what is due to it: for each
event, one notice for each subscription that is alive, of a relay of another tab of
the area.  When no step is in progress, it was told all that is due, in order; if
nobody takes anything out of the log, these are the notices of other tabs in it.
-/
theorem other_tabs_are_told_once (log : Nat) (moves : List (Move V))
    (hordinary : ∀ m ∈ Machine.idle.history moves, m.isOrdinary) :
    let past := Machine.idle.history moves
    let m := Machine.idle.playAll moves
    overheard log past <+: due log [] past ∧
      (m.stack = [] → overheard log past = due log [] past) ∧
      ((∀ x ∈ past, x.editsLog = false) →
        (m.system.log log).filter (!·.isCommitted) = overheard log past) := by
  intro past m
  have hbalanced := overheard_balanced log moves hordinary
  refine ⟨⟨_, hbalanced⟩, ?_, filter_log log moves hordinary⟩
  intro hstack
  rw [inTransit_of_idle hstack] at hbalanced
  simpa using hbalanced

def listenedWrites : List (Move Draft) :=
  inTurn [(.new "a" .localArea, 1), (.openTab "b" "a", 1), (.newLog "l", 1), (.newQueue "q", 1),
    (.relayToLog "r" "a" "q" "l", 1), (.listen "r" "s", 2), (.set "a" "k" "1", 3),
    (.remove "b" "k", 8), (.dropSubscription "s", 7), (.set "b" "k" "2", 3)]

theorem one_change_is_owed :
    due 0 [] (Machine.idle.history listenedWrites) = [.external (some "k") none] := by
  have hordinary : ∀ m ∈ Machine.idle.history listenedWrites, m.isOrdinary := by decide
  have hstack : (Machine.idle.playAll listenedWrites).stack = [] := by decide
  have hdue := (other_tabs_are_told_once 0 listenedWrites hordinary).2.1 hstack
  rw [← hdue]
  decide

end Machine

end TabRelay.Session
