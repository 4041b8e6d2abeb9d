import TabRelay.Proofs.Session.Enumerating
import TabRelay.Proofs.Session.Order

/-!
# Handlers that only record what they hear

A handler that only records puts changes into logs and reads.  Whatever such
handlers do in turn, the areas and the queues stay as they are, and so do the logs
in which none of them records.
-/

namespace TabRelay.Session

open TabRelay.Storage

variable {V : Type}

namespace Step

/-- The step puts a change into a log, or it only reads. -/
def onlyRecords : Step V → Bool
  | .pushToLog .. | .notifyLog .. | .askLog .. | .askQueue .. | .showSubscription .. => true
  | step => step.isReading

def recordsIn? (s : System V) : Step V → Option Nat
  | .pushToLog log _ | .notifyLog log _ => Keyed.lookup? log s.logNames
  | _ => none

end Step

namespace System

def forwarding? (s : System V) (i : Nat) : Option Relay :=
  s.handlers[i]?.bind fun handler =>
    match handler.reaction with
    | .forward relay => some relay
    | .script _ _ => none

theorem log_pushToLog_of_ne (s : System V) {i log : Nat} (change : Change V) (h : i ≠ log) :
    (s.pushToLog i change).log log = s.log log := by
  simp only [System.log, pushToLog, setLog, Machine.getD_set, h, false_and, if_false]

theorem forwarding?_setHandler {s : System V} {i : Nat} {handler : Handler V}
    {script script' : Script V} {own : List Subscription} (hhandler : s.handlers[i]? = some handler)
    (hreaction : handler.reaction = .script script own) (j : Nat) :
    (s.setHandler i { handler with reaction := .script script' own }).forwarding? j =
      s.forwarding? j := by
  simp only [forwarding?, setHandler, List.getElem?_set]
  split
  · rename_i hij
    subst hij
    rw [if_pos (List.getElem?_eq_some_iff.mp hhandler).1, hhandler]
    simp only [Option.bind_some, hreaction]
  · rfl

end System

/-- What is left alone when handlers only record, but not in the logs `spared`. -/
structure Recorded (spared : Nat → Prop) (s s' : System V) : Prop where
  areas : s'.areas = s.areas
  queues : s'.queues = s.queues
  relays : s'.relayNames = s.relayNames
  forwards : ∀ i, s'.forwarding? i = s.forwarding? i
  logs : ∀ log, spared log → s'.log log = s.log log

def Spares (spared : Nat → Prop) (s : System V) (i : Nat) : Prop :=
  ∀ relay log, s.forwarding? i = some relay → relay.listener = .log log → ¬spared log

section

variable {spared : Nat → Prop} {s s' s'' : System V}

theorem Recorded.refl (s : System V) : Recorded spared s s :=
  ⟨rfl, rfl, rfl, fun _ => rfl, fun _ _ => rfl⟩

theorem Recorded.trans (h : Recorded spared s s') (h' : Recorded spared s' s'') :
    Recorded spared s s'' where
  areas := h'.areas.trans h.areas
  queues := h'.queues.trans h.queues
  relays := h'.relays.trans h.relays
  forwards i := (h'.forwards i).trans (h.forwards i)
  logs log hlog := (h'.logs log hlog).trans (h.logs log hlog)

theorem Recorded.subscribed (h : Recorded spared s s') :
    s'.subscribed = s.subscribed := by
  rw [System.subscribed, System.subscribed, h.areas]

theorem Recorded.spares (h : Recorded spared s s') {i : Nat}
    (hspares : Spares spared s i) : Spares spared s' i := by
  intro relay log hforwards
  exact hspares relay log (h.forwards i ▸ hforwards)

theorem Recorded.defer (h : Recorded spared s s') (queue : Nat) (task : Task V) :
    Recorded spared (s.defer queue task) (s'.defer queue task) where
  areas := h.areas
  queues := by
    have hqueue : s'.queue queue = s.queue queue := by rw [System.queue, h.queues]; rfl
    simp only [System.defer, System.setQueue, h.queues, hqueue]
  relays := h.relays
  forwards := h.forwards
  logs := h.logs

theorem recorded_pushToLog {log : Nat} (change : Change V) (hlog : ¬spared log) :
    Recorded spared s (s.pushToLog log change) where
  areas := rfl
  queues := rfl
  relays := rfl
  forwards _ := rfl
  logs _ hspared := s.log_pushToLog_of_ne change fun h => hlog (h ▸ hspared)

theorem Tells.recorded {listener : Listener} {change : Change V} {frames : List (Frame V)}
    (h : Tells s change listener s' frames) (hspared : ∀ log, listener = .log log → ¬spared log) :
    Recorded spared s s' := by
  cases h with
  | toLog log => exact recorded_pushToLog change (hspared log rfl)
  | toNone => exact .refl s
  | toNoScript i => exact .refl s
  | toScript hscript => exact ⟨rfl, rfl, rfl, fun _ => rfl, fun _ _ => rfl⟩

theorem Reacts.recorded {i : Nat} {event : Event} {frames : List (Frame V)} {a : Answer V}
    (h : Reacts s i event s' frames a) (hspared : Spares spared s i) : Recorded spared s s' := by
  cases h with
  | missing hhandler => exact .refl s
  | script hhandler hreaction =>
      exact ⟨rfl, rfl, rfl, System.forwarding?_setHandler hhandler hreaction, fun _ _ => rfl⟩
  | @forward handler relay _ _ _ hhandler hreaction hreceives =>
      have hforwards : s.forwarding? i = some relay := by
        simp [System.forwarding?, hhandler, hreaction]
      cases hreceives with
      | forwards harea htells => exact htells.recorded fun log => hspared relay log hforwards
      | ignores harea => exact .refl s

end

/-! ## Frames of the handlers that an event has called -/

def Frame.isCall (heard : Nat → Prop) : Frame V → Prop
  | .script _ _ | .nested _ _ | .forwarding => True
  | .turn i => heard i
  | .release left => ∀ i ∈ left, heard i
  | _ => False

theorem Tells.isCall {s s' : System V} {change : Change V} {listener : Listener}
    {frames : List (Frame V)} (h : Tells s change listener s' frames) (heard : Nat → Prop) :
    ∀ frame ∈ frames, frame.isCall heard := by
  cases h <;> simp [Frame.isCall]

theorem Reacts.isCall {s s' : System V} {i : Nat} {event : Event} {frames : List (Frame V)}
    {a : Answer V} (h : Reacts s i event s' frames a) (heard : Nat → Prop) :
    ∀ frame ∈ frames, frame.isCall heard := by
  cases h with
  | missing hhandler => simp
  | script hhandler hreaction => simp [Frame.isCall]
  | forward hhandler hreaction hreceives =>
      cases hreceives with
      | forwards harea htells =>
          intro frame hframe
          rcases List.mem_append.mp hframe with hframe | hframe
          · exact htells.isCall heard frame hframe
          · rw [List.mem_singleton.mp hframe]
            trivial
      | ignores harea => simp

namespace Machine

def onlyRecords (m : Machine V) : Bool :=
  match m.control with
  | .run step => step.onlyRecords
  | _ => true

def recordsIn? (m : Machine V) : Option Nat :=
  match m.control with
  | .run step => step.recordsIn? m.system
  | _ => none

theorem Answers.recorded {m m' : Machine V} {spared : Nat → Prop} (h : m.Answers m') :
    Recorded spared m.system m'.system ∧ m'.stack = m.stack := by
  obtain ⟨answer, trace, rfl⟩ := h
  exact ⟨.refl _, rfl⟩

variable [Storable V]

theorem advance_records {m : Machine V} {spared : Nat → Prop} (hfree : m.Unheld) {step : Step V}
    (hrun : m.control = .run step) (honly : m.onlyRecords)
    (hspared : ∀ log, m.recordsIn? = some log → ¬spared log) :
    Recorded spared m.system m.advance.system ∧ m.advance.stack = m.stack := by
  simp only [onlyRecords, recordsIn?, hrun] at honly hspared
  have hbegin : m.advance = m.begin step := by rw [advance, hrun]
  cases step with
  | pushToLog name decoded =>
      rw [hbegin]
      cases decoded with
      | error e => exact ⟨.refl _, rfl⟩
      | ok change =>
          simp only [begin, withDecoded, withLog, withNamed]
          cases hname : Keyed.lookup? name m.system.logNames with
          | none => exact ⟨.refl _, rfl⟩
          | some log =>
              simp only [setLog, whenFree_of_unheld hfree]
              exact ⟨recorded_pushToLog change (hspared log hname), rfl⟩
  | notifyLog name decoded =>
      rw [hbegin]
      cases decoded with
      | error e => exact ⟨.refl _, rfl⟩
      | ok change =>
          simp only [begin, withDecoded, withLog, withNamed]
          cases hname : Keyed.lookup? name m.system.logNames with
          | none => exact ⟨.refl _, rfl⟩
          | some log =>
              simp only [recordChange, whenFree_of_unheld hfree]
              exact ⟨recorded_pushToLog change (hspared log hname), rfl⟩
  | askLog name question =>
      refine Answers.recorded ?_
      rw [hbegin]
      refine answers_withNamed fun log => ?_
      simp only [askLog, whenFree_of_unheld hfree]
      cases question <;> exact ⟨_, _, rfl⟩
  | askQueue name question =>
      refine Answers.recorded ?_
      rw [hbegin]
      refine answers_withNamed fun queue => ?_
      simp only [askQueue, whenFree_of_unheld hfree]
      cases question <;> exact ⟨_, _, rfl⟩
  | showSubscription name =>
      refine Answers.recorded ?_
      rw [hbegin]
      exact answers_withNamed fun sub => ⟨_, _, rfl⟩
  | askArea storage question => exact (answers_of_isReading hfree hrun rfl).recorded
  | askRelay relay question => exact (answers_of_isReading hfree hrun rfl).recorded
  | snapshot relay => exact (answers_of_isReading hfree hrun rfl).recorded
  | _ => contradiction

theorem Effect.of_isCall {m : Machine V} {s : System V} {pushed : List (Frame V)}
    {control : Control V} {warned : List (Entry V)} {b : Answer V} {frame : Frame V}
    {rest : List (Frame V)} {heard : Nat → Prop} (h : Effect m s pushed control warned)
    (hdone : m.control = .done b) (hstack : m.stack = frame :: rest)
    (hcall : frame.isCall heard) (hheard : ∀ i, heard i → i ∈ m.system.subscribed) :
    s = m.system ∧ ∀ f ∈ pushed, f.isCall heard := by
  rcases h.of_done hdone hstack with hcontinues | ⟨-, hfrees, -⟩
  · cases hcontinues with
    | finishes b hspent => exact ⟨rfl, by simp⟩
    | forwarded b => exact ⟨rfl, by simp⟩
    | runsStep b runner step left => exact ⟨rfl, by simp [Frame.isCall]⟩
    | endsTurn b i => exact ⟨rfl, by simpa [Frame.isCall] using hcall⟩
    | _ => exact absurd hcall id
  · cases hfrees with
    | pops hmore halive => exact ⟨rfl, by simp⟩
    | reaps hkeeps hdead => cases frame <;> simp [Frame.keeps, Frame.isCall] at hkeeps hcall
    | letsGo i left =>
        have hleft : ∀ j ∈ left, heard j := fun j hj => hcall j (List.mem_cons_of_mem _ hj)
        exact ⟨rfl, by simpa [Frame.isCall] using hleft⟩
    | @frees i left handler hreferred hhandler =>
        exact absurd (hheard i (hcall i List.mem_cons_self)) (not_referred hreferred).1
    | _ => exact absurd hcall id

theorem Effect.of_recording_visit {m : Machine V} {spared : Nat → Prop} {s : System V}
    {pushed : List (Frame V)} {control : Control V} {warned : List (Entry V)} {b : Answer V}
    {event : Event} {i : Nat} {left : List Nat} {rest : List (Frame V)} {heard : Nat → Prop}
    (h : Effect m s pushed control warned) (hdone : m.control = .done b)
    (hstack : m.stack = .delivery event (i :: left) :: rest) (hheard : heard i)
    (hspares : Spares spared m.system i) :
    Recorded spared m.system s ∧ ∃ above, pushed = above ++ [.delivery event left] ∧
      ∀ frame ∈ above, frame.isCall heard := by
  rcases h.of_done hdone hstack with hcontinues | ⟨hfreeing, -⟩
  · cases hcontinues with
    | finishes b hspent => contradiction
    | skips b hrunning => exact ⟨.refl _, [], rfl, by simp⟩
    | @calls _ _ _ _ _ _ frames hrunning hreacts =>
        refine ⟨hreacts.recorded hspares, frames ++ [.turn i], by simp, ?_⟩
        intro frame hframe
        rcases List.mem_append.mp hframe with hframe | hframe
        · exact hreacts.isCall heard frame hframe
        · rw [List.mem_singleton.mp hframe]
          exact hheard
  · contradiction

end Machine

end TabRelay.Session
