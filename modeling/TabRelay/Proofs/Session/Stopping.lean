import TabRelay.Proofs.Session.Advance
import TabRelay.Proofs.Session.Loans

/-!
# Where the machine stops

A machine that needs a cell while the cell is in use stops.  It does so exactly where one of
its touches borrows what is held.
-/

namespace TabRelay.Session

open TabRelay.Decoding TabRelay.Storage

variable {V : Type}

namespace Machine

def Stops (m : Machine V) : Prop := ∃ cell, m.control = .conflict cell

section Stops

variable (m : Machine V)

@[simp] theorem stops_answer (a : Answer V) : ¬(m.answer a).Stops := by
  rintro ⟨cell, hcell⟩
  contradiction

@[simp] theorem stops_whenFree (cell : Cell) (next : Machine V) :
    (m.whenFree cell next).Stops ↔ m.isHeld cell ∨ next.Stops := by
  unfold whenFree
  split
  · rename_i hheld
    simp [Stops, hheld]
  · rename_i hfree
    simp [hfree]

end Stops

theorem stops_tell (m : Machine V) (listener : Listener) (change : Change V) :
    (m.tell listener change).Stops ↔ m.Meets (telling listener) := by
  cases listener with
  | log log => simp [tell, recordChange, telling]
  | none => simp [tell, telling]
  | script i =>
      cases hscript : m.system.scripts[i]? <;> simp [tell, telling, hscript, runScript]

theorem stops_receive (m : Machine V) (relay : Relay) (event : Event) :
    (m.receive relay event).Stops ↔ m.Meets (m.receiving relay event) := by
  unfold receive receiving
  by_cases harea : event.area = some (m.system.area relay.handle.area).kind
  · have hforwarding : ∀ cell, ((m.mark (.enterReceive event.key)).push .forwarding).isHeld cell =
        m.isHeld cell := isHeld_push _ rfl
    simp [harea, stops_tell, meets_of_isHeld _ hforwarding]
  · simp [harea]

theorem stops_drain (m : Machine V) (queue started : Nat) :
    (m.drain queue started).Stops ↔ m.Meets (m.draining queue) := by
  unfold drain draining
  cases hqueue : m.system.queue queue with
  | nil => simp
  | cons task tasks =>
      cases task with
      | notice listener change =>
          have hdraining : ∀ cell, ((m.update (m.system.setQueue queue tasks)).push
              (.drain queue (started + 1))).isHeld cell = m.isHeld cell := isHeld_push _ rfl
          simp [stops_tell, meets_of_isHeld _ hdraining]
      | script name steps => simp [runScript]

theorem stops_deliverRaised (m : Machine V) (h : Handle) (raised : Option Event) :
    ¬(m.deliverRaised h raised).Stops := by
  cases raised <;> simp [deliverRaised, deliver]

theorem stops_setText (m : Machine V) (h : Handle) (key text : String) :
    (m.setText h key text).Stops ↔ m.Meets (m.changing h (.set key text)) := by
  rw [meets_changing]
  unfold setText Faults.check
  by_cases hfault : Call.set ∈ (m.system.faultsOf h).failing
  · simp [hfault, Operation.isBarred]
  · simp only [hfault, if_false, Operation.isBarred, decide_false, true_and, stops_whenFree]
    cases (m.system.area h.area).set key text with
    | error e => simp
    | ok result => simp [stops_deliverRaised]

theorem stops_removeKey (m : Machine V) (h : Handle) (key : String) :
    (m.removeKey h key).Stops ↔ m.Meets (m.changing h (.remove key)) := by
  rw [meets_changing]
  unfold removeKey Faults.check
  by_cases hfault : Call.remove ∈ (m.system.faultsOf h).failing
  · simp [hfault, Operation.isBarred]
  · simp [hfault, Operation.isBarred, stops_deliverRaised]

theorem stops_clearArea (m : Machine V) (h : Handle) :
    (m.clearArea h).Stops ↔ m.Meets (m.changing h .clear) := by
  rw [meets_changing]
  simp [clearArea, Operation.isBarred, stops_deliverRaised]

theorem stops_answerExcept {α : Type} (m : Machine V) (result : Except AreaError α)
    (f : α → Answer V) : ¬(m.answerExcept result f).Stops := by
  cases result <;> simp [answerExcept]

theorem stops_askArea (m : Machine V) (h : Handle) (question : AreaQuestion) :
    (m.askArea h question).Stops ↔ m.isHeld (.area h.area) := by
  cases question <;> simp [askArea, stops_answerExcept]

theorem stops_nameStorage (m : Machine V) (id : String) (h : Handle) :
    ¬(m.nameStorage id h).Stops := by
  rw [nameStorage_eq]
  rintro ⟨cell, hcell⟩
  contradiction

theorem stops_nameRelay (m : Machine V) (id : String) (relay : Relay) :
    ¬(m.nameRelay id relay).Stops := by
  rw [nameRelay_eq]
  rintro ⟨cell, hcell⟩
  contradiction

theorem stops_register (m : Machine V) (h : Handle) (id : String) (reaction : Reaction V) :
    (m.register h id reaction).Stops ↔ m.isHeld (.area h.area) := by
  simp [register]

theorem stops_snapshot (m : Machine V) (relay : Relay) :
    (m.snapshot relay).Stops ↔ m.isHeld (.area relay.handle.area) := by
  unfold snapshot
  rw [stops_whenFree]
  dsimp only
  split <;> simp

theorem stops_withNamed {α : Type} (m : Machine V) (names : Keyed α) (id : String)
    {next : α → Machine V} {touches : α → List Touch}
    (h : ∀ a, (next a).Stops ↔ m.Meets (touches a)) :
    (m.withNamed names id next).Stops ↔ m.Meets (naming names id touches) := by
  unfold withNamed naming
  cases Keyed.lookup? id names with
  | none => simp
  | some a => exact h a

theorem meets_subscribing {m : Machine V} {step : Step V} {h? : Option Handle}
    (hrun : m.control = .run step) (hstep : step.subscribing? m.system = h?) :
    m.Meets (match m.subscribing? with
      | none => []
      | some h => briefly (.area h.area) .exclusive) ↔
      ∃ h, h? = some h ∧ (m.system.faultsOf h).check .subscribe = .ok () ∧
        m.isHeld (.area h.area) := by
  simp only [subscribing?, hrun, hstep]
  cases h? with
  | none => simp
  | some h =>
      by_cases hfault : Call.subscribe ∈ (m.system.faultsOf h).failing <;>
        simp [Faults.check, hfault, Option.filter]

theorem stops_subscribe (m : Machine V) (storage id : String) (script : Script V)
    (own : List String) :
    (m.subscribe storage id script own).Stops ↔
      ∃ h, Keyed.lookup? storage m.system.storageNames = some h ∧
        (m.system.faultsOf h).check .subscribe = .ok () ∧ m.isHeld (.area h.area) := by
  unfold subscribe
  cases htake : m.system.takeSubscriptions own with
  | mk s subs =>
      obtain ⟨names, rfl⟩ := System.takeSubscriptions_eq htake
      dsimp only
      cases hname : Keyed.lookup? storage m.system.storageNames with
      | none => simp
      | some h =>
          have hfaults : System.faultsOf { m.system with subscriptionNames := names } h =
              m.system.faultsOf h := rfl
          simp only [hfaults]
          cases hcheck : (m.system.faultsOf h).check .subscribe with
          | error e => simp [hcheck]
          | ok _ => simp [hcheck, stops_register]

theorem stops_listen (m : Machine V) (relay : Relay) (id : String) :
    (m.listen relay id).Stops ↔ (m.system.faultsOf relay.handle).check .subscribe = .ok () ∧
      m.isHeld (.area relay.handle.area) := by
  unfold listen
  cases (m.system.faultsOf relay.handle).check .subscribe with
  | error e => simp
  | ok _ => simp [stops_register]

theorem stops_finishWrite (m : Machine V) (relay : Relay) (w : Write V) (stored : Option String)
    (answer : Answer V) : (m.finishWrite relay w stored answer).Stops ↔
      (∀ e, answer ≠ .areaError e) ∧ m.isHeld (.queue relay.queue) := by
  unfold finishWrite
  split
  · simp
  · rename_i hanswer
    cases stored <;> simpa using fun _ => hanswer

theorem not_stops_withNamed {α : Type} (m : Machine V) (names : Keyed α) (id : String)
    {next : α → Machine V} (h : ∀ a, ¬(next a).Stops) : ¬(m.withNamed names id next).Stops := by
  unfold withNamed
  cases Keyed.lookup? id names with
  | none => simp
  | some a => exact h a

theorem stops_nothing {m m' : Machine V} (h : ¬m'.Stops) : m'.Stops ↔ m.Meets [] :=
  iff_of_false h m.meets_nil

/-! ## After an answer -/

theorem stops_react (m : Machine V) (i : Nat) (event : Event) :
    (m.react i event).Stops ↔ m.Meets (m.reacting event i) := by
  unfold react reacting
  cases m.system.handlers[i]? with
  | none => simp
  | some handler =>
      cases hreaction : handler.reaction with
      | script script own => simp [hreaction, runScript]
      | forward relay => simpa [hreaction] using stops_receive m relay event

theorem stops_visit (m : Machine V) (event : Event) (i : Nat) (left : List Nat) :
    (m.visit event i left).Stops ↔ m.Meets (m.visiting event i) := by
  unfold visit visiting
  cases m.isRunning i with
  | true => simp
  | false =>
      have hcalled : ∀ cell, ((m.push (.delivery event left)).push (.turn i)).isHeld cell =
          m.isHeld cell := fun cell => (isHeld_push _ rfl cell).trans (isHeld_push m rfl cell)
      exact (stops_react _ i event).trans (meets_of_isHeld m hcalled _)

theorem control_reap (m : Machine V) (i : Nat) : (m.reap i).control = m.control := by
  unfold reap
  split <;> rfl

theorem control_free (m : Machine V) (i : Nat) : (m.free i).control = m.control := by
  unfold free
  split
  · rfl
  · split
    · rfl
    · rename_i handler hhandler
      cases handler.reaction <;> rfl

theorem control_detach (m : Machine V) (sub : Subscription) :
    (m.detach sub).control = m.control := by
  unfold detach
  split
  · rfl
  · dsimp only
    split <;> rfl

variable [Storable V]

/-! ## One advance -/

theorem stops_write (m : Machine V) (relay : Relay) (w : Write V) :
    (m.write relay w).Stops ↔ m.Meets (m.writing relay w) := by
  have hwaits (stored : Option String) (operation : Operation) :
      Meets _ (changing (((m.push (.keep relay.handle.area)).mark
        (.enterWrite w.key w.isRemoval)).push (.writing relay w stored)) relay.handle operation) ↔
          m.Meets (m.changing relay.handle operation) :=
    (meets_changing_push _ rfl _ _).trans (meets_changing_push m rfl _ _)
  unfold write writing operationFor?
  cases w.value with
  | none =>
      rw [stops_removeKey]
      exact hwaits none _
  | some value =>
      dsimp only
      cases Storable.stored value with
      | error source => simp
      | ok text =>
          rw [stops_setText]
          exact hwaits (some text) _

/-! ### The families of steps -/

theorem stops_begin_storages {m : Machine V} {step : Step V} (hfamily : step.family = .storages)
    (hnew : m.isHeld (.area m.system.areas.length) = false) :
    (m.begin step).Stops ↔ m.Meets (m.beginning step) := by
  cases step with
  | new id kind => simp [begin, beginning, create, stops_nameStorage]
  | newWithQuota id kind quota => simp [begin, beginning, create, stops_nameStorage, hnew]
  | newWithEntries id kind entries => simp [begin, beginning, create, stops_nameStorage, hnew]
  | openTab id storage =>
      apply stops_withNamed
      intro h
      simp [openTab, stops_nameStorage]
  | sameTab id storage =>
      apply stops_nothing
      exact not_stops_withNamed _ _ _ fun h => stops_nameStorage m id h
  | dropStorage id =>
      apply stops_nothing
      exact not_stops_withNamed _ _ _ fun h => by simp
  | setFaults storage faults =>
      apply stops_nothing
      exact not_stops_withNamed _ _ _ fun h => by simp
  | _ => contradiction

theorem stops_begin_entries (m : Machine V) {step : Step V} (hfamily : step.family = .entries) :
    (m.begin step).Stops ↔ m.Meets (m.beginning step) := by
  cases step with
  | askArea storage question =>
      apply stops_withNamed
      intro h
      simp [stops_askArea]
  | set storage key text =>
      apply stops_withNamed
      intro h
      exact (stops_setText _ _ _ _).trans (meets_changing_push m rfl h _)
  | remove storage key =>
      apply stops_withNamed
      intro h
      exact (stops_removeKey _ _ _).trans (meets_changing_push m rfl h _)
  | clear storage =>
      apply stops_withNamed
      intro h
      exact (stops_clearArea _ _).trans (meets_changing_push m rfl h _)
  | dispatch storage event =>
      cases event with
      | error e =>
          apply stops_nothing
          exact not_stops_withNamed _ _ _ fun h => by simp [withDecoded]
      | ok event =>
          apply stops_withNamed
          intro h
          simp [withDecoded, deliver]
  | _ => contradiction

theorem stops_begin_subscriptions {m : Machine V} {step : Step V} (hrun : m.control = .run step)
    (hfamily : step.family = .subscriptions) :
    (m.begin step).Stops ↔ m.Meets (m.beginning step) := by
  cases step with
  | subscribe storage id steps times own =>
      exact (stops_subscribe m storage id _ own).trans (meets_subscribing hrun rfl).symm
  | dropSubscription id =>
      apply stops_nothing
      exact not_stops_withNamed _ _ _ fun sub => by simp
  | showSubscription id =>
      apply stops_nothing
      exact not_stops_withNamed _ _ _ fun sub => by simp
  | _ => contradiction

theorem stops_begin_logs (m : Machine V) {step : Step V} (hfamily : step.family = .logs) :
    (m.begin step).Stops ↔ m.Meets (m.beginning step) := by
  cases step with
  | newLog id => simp [begin, beginning, nameLog]
  | pushToLog log change =>
      cases change with
      | error e => simp [begin, beginning, withDecoded]
      | ok change =>
          apply stops_withNamed
          intro log
          simp [setLog]
  | notifyLog log change =>
      cases change with
      | error e => simp [begin, beginning, withDecoded]
      | ok change =>
          apply stops_withNamed
          intro log
          simp [recordChange]
  | popFromLog log =>
      apply stops_withNamed
      intro log
      simp [setLog]
  | drainLog log =>
      apply stops_withNamed
      intro log
      simp [setLog]
  | clearLog log =>
      apply stops_withNamed
      intro log
      simp [setLog]
  | askLog log question =>
      apply stops_withNamed
      intro log
      cases question <;> simp [askLog]
  | _ => contradiction

theorem stops_begin_queues (m : Machine V) {step : Step V} (hfamily : step.family = .queues) :
    (m.begin step).Stops ↔ m.Meets (m.beginning step) := by
  cases step with
  | newQueue id => simp [begin, beginning, nameQueue]
  | defer queue name steps =>
      apply stops_withNamed
      intro queue
      simp [defer]
  | runPending queue =>
      apply stops_withNamed
      intro queue
      exact stops_drain m queue 0
  | askQueue queue question =>
      apply stops_withNamed
      intro queue
      cases question <;> simp [askQueue]
  | _ => contradiction

theorem stops_begin_relays (m : Machine V) {step : Step V} (hfamily : step.family = .relays) :
    (m.begin step).Stops ↔ m.Meets (m.beginning step) := by
  cases step with
  | relayToLog id storage queue log =>
      apply stops_nothing
      refine not_stops_withNamed _ _ _ fun log => not_stops_withNamed _ _ _ fun h =>
        not_stops_withNamed _ _ _ fun queue => ?_
      exact stops_nameRelay m id _
  | relayToNone id storage queue =>
      apply stops_nothing
      refine not_stops_withNamed _ _ _ fun h => not_stops_withNamed _ _ _ fun queue => ?_
      exact stops_nameRelay m id _
  | relayToScript id storage queue steps times =>
      apply stops_nothing
      refine not_stops_withNamed _ _ _ fun h => not_stops_withNamed _ _ _ fun queue => ?_
      exact stops_nameRelay _ id _
  | sameRelay id relay =>
      apply stops_nothing
      exact not_stops_withNamed _ _ _ fun relay => stops_nameRelay m id relay
  | dropRelay id =>
      apply stops_nothing
      exact not_stops_withNamed _ _ _ fun relay => by simp
  | _ => contradiction

theorem stops_begin_relayed {m : Machine V} {step : Step V} (hrun : m.control = .run step)
    (hfamily : step.family = .relayed) : (m.begin step).Stops ↔ m.Meets (m.beginning step) := by
  cases step with
  | askRelay relay question =>
      cases question with
      | kind =>
          apply stops_withNamed
          intro relay
          simp [askRelay, stops_askArea]
      | get key =>
          apply stops_withNamed
          intro relay
          simp [askRelay, stops_askArea]
      | logLength =>
          apply stops_withNamed
          intro relay
          cases hlistener : relay.listener <;> simp [askRelay, hlistener]
  | snapshot relay =>
      apply stops_withNamed
      intro relay
      simp [stops_snapshot]
  | write relay w =>
      apply stops_withNamed
      intro relay
      exact stops_write m relay w
  | writeRequest relay w =>
      cases w with
      | error e => simp [begin, beginning, withDecoded]
      | ok w =>
          apply stops_withNamed
          intro relay
          exact stops_write m relay w
  | receive relay event =>
      cases event with
      | error e =>
          apply stops_nothing
          exact not_stops_withNamed _ _ _ fun relay => by simp [withDecoded]
      | ok event =>
          apply stops_withNamed
          intro relay
          exact (stops_receive _ relay event).trans (meets_of_isHeld m (isHeld_push m rfl) _)
  | listen relay id =>
      refine Iff.trans ?_ (meets_subscribing hrun rfl).symm
      simp only [begin, withRelay, withNamed, Step.subscribing?]
      cases Keyed.lookup? relay m.system.relayNames with
      | none => simp
      | some relay => simp [stops_listen]
  | _ => contradiction

theorem stops_begin {m : Machine V} {step : Step V} (hrun : m.control = .run step)
    (hnew : m.isHeld (.area m.system.areas.length) = false) :
    (m.begin step).Stops ↔ m.Meets (m.beginning step) := by
  cases hfamily : step.family with
  | storages => exact stops_begin_storages hfamily hnew
  | entries => exact m.stops_begin_entries hfamily
  | subscriptions => exact stops_begin_subscriptions hrun hfamily
  | logs => exact m.stops_begin_logs hfamily
  | queues => exact m.stops_begin_queues hfamily
  | relays => exact m.stops_begin_relays hfamily
  | relayed => exact stops_begin_relayed hrun hfamily

theorem control_resume_of_isFreeing {m : Machine V} {answer : Answer V} {frame : Frame V}
    {rest : List (Frame V)} (hstack : m.stack = frame :: rest) (hfreeing : frame.isFreeing) :
    (m.resume answer).control = m.control := by
  unfold resume
  rw [hstack]
  cases frame with
  | keep i => exact control_reap _ i
  | held cell =>
      cases cell with
      | area i => exact control_reap _ i
      | queue i => rfl
      | log i => rfl
  | release left =>
      cases left with
      | nil => rfl
      | cons i left => exact control_free _ i
  | drop left =>
      cases left with
      | nil => rfl
      | cons sub left => exact control_detach _ sub
  | _ => contradiction

theorem stops_resume {m : Machine V} {answer : Answer V} (hdone : m.control = .done answer) :
    (m.resume answer).Stops ↔ m.Meets m.touches := by
  have hnot {m' : Machine V} (hcontrol : m'.control = m.control) : ¬m'.Stops := by
    rintro ⟨cell, hcell⟩
    rw [hcontrol, hdone] at hcell
    contradiction
  cases hstack : m.stack with
  | nil => simp [resume, touches, hdone, hstack, hnot]
  | cons frame rest =>
      by_cases hfreeing : frame.isFreeing
      · exact iff_of_false (hnot (control_resume_of_isFreeing hstack hfreeing))
          (not_meets_of_isFreeing hdone hstack hfreeing)
      have hframe : frame.loan? = none := by
        cases frame with
        | held cell => exact absurd rfl hfreeing
        | _ => rfl
      have hbeneath := beneath_of_done hdone hstack
      have hheld : ∀ cell, m.beneath.isHeld cell = m.isHeld cell := by
        rw [hbeneath]
        exact isHeld_of_stack hstack hframe
      rw [hdone] at hbeneath
      cases frame with
      | script runner left =>
          cases left with
          | nil => simp [resume, touches, hdone, hstack]
          | cons step left => simp [resume, touches, hdone, hstack, Stops]
      | nested runner step => simp [resume, touches, hdone, hstack]
      | delivery event left =>
          cases left with
          | nil => simp [resume, touches, hdone, hstack]
          | cons i left =>
              simp only [resume, touches, hdone, hstack]
              rw [← hbeneath, ← meets_of_isHeld m hheld]
              exact stops_visit m.beneath event i left
      | turn i =>
          simp only [resume, touches, hdone, hstack]
          exact stops_nothing (hnot hdone.symm)
      | writing relay w stored =>
          have hfinish := stops_finishWrite m.beneath relay w stored answer
          simp only [resume, hdone, hstack]
          rw [← hbeneath, hfinish, hheld]
          cases answer with
          | areaError e => simp [touches, hdone, hstack]
          | _ => simp [touches, hdone, hstack]
      | forwarding => simp [resume, touches, hdone, hstack]
      | drain queue started =>
          have hdrain := stops_drain m.beneath queue started
          simp only [resume, touches, hdone, hstack]
          rw [← hbeneath, hdrain, meets_of_isHeld m hheld]
          rfl
      | _ => contradiction

/-- The machine stops exactly where one of its touches borrows what is held. -/
theorem stops_advance {m : Machine V} (hnew : ∀ step, m.control = .run step →
    m.isHeld (.area m.system.areas.length) = false) :
    m.advance.Stops ↔ m.Stops ∨ m.Meets m.touches := by
  unfold advance
  cases hcontrol : m.control with
  | run step =>
      have hgoes : ¬m.Stops := by
        rintro ⟨cell, hcell⟩
        rw [hcontrol] at hcell
        contradiction
      have htouches : m.touches = m.beginning step := by simp [touches, hcontrol]
      rw [htouches, or_iff_right hgoes]
      exact stops_begin hcontrol (hnew step hcontrol)
  | done answer =>
      have hgoes : ¬m.Stops := by
        rintro ⟨cell, hcell⟩
        rw [hcontrol] at hcell
        contradiction
      rw [or_iff_right hgoes]
      exact stops_resume hcontrol
  | conflict cell =>
      have hstops : m.Stops := ⟨cell, hcontrol⟩
      exact iff_of_true hstops (.inl hstops)

end Machine

end TabRelay.Session
