import TabRelay.Proofs.Session.Areas

/-!
# What a step does to logs and queues

`Posts m` lists what the logs and the queues may be after one step of the
machine, together with the write that the step ends with success, if any.
-/

namespace TabRelay.Session

open TabRelay.Storage

variable {V : Type}

namespace Machine

def succeeding (m : Machine V) (control : Control V) : Option (Relay × Write V) :=
  match m.control, m.stack, control with
  | .done _, .writing relay w _ :: _, .done .ok => some (relay, w)
  | _, _, _ => none

def isUnrelayed (m : Machine V) : Bool :=
  match m.control with
  | .run step => step.isDirectNotice
  | _ => false

def editsLog (m : Machine V) : Bool :=
  match m.control with
  | .run step => step.editsLog
  | _ => false

def takesEvent (m : Machine V) : Bool :=
  match m.control, m.stack with
  | .run (.receive _ _), _ => true
  | .done _, .delivery _ (_ :: _) :: _ => true
  | _, _ => false

def isDraining (m : Machine V) : Bool :=
  match m.control, m.stack with
  | .run (.runPending _), _ => true
  | .done _, .drain _ _ :: _ => true
  | _, _ => false

theorem isUnrelayed_of_draining {m : Machine V} (h : m.isDraining) : m.isUnrelayed = false := by
  unfold isDraining at h
  split at h
  · rename_i hrun
    simp [isUnrelayed, hrun, Step.isDirectNotice]
  · rename_i hdone _
    simp [isUnrelayed, hdone]
  · contradiction

theorem succeeding_eq_none {m : Machine V} {top : Frame V} {rest : List (Frame V)}
    (hstack : m.stack = top :: rest) (htop : ∀ relay w stored, top ≠ .writing relay w stored)
    (control : Control V) : m.succeeding control = none := by
  unfold succeeding
  split
  · rename_i hwriting
    rw [hstack] at hwriting
    cases hwriting
    exact absurd rfl (htop _ _ _)
  · rfl

theorem succeeding_of_rests {m : Machine V} (hbelow : m.below = m.stack) :
    m.succeeding m.control = none := by
  unfold succeeding
  split
  · rename_i hdone hwriting _
    simp [below, hdone, hwriting] at hbelow
  · rfl

inductive Posts (m : Machine V) :
    List (List (Change V)) → List (List (Task V)) → Option (Relay × Write V) → Prop where
  | keeps : Posts m m.system.logs m.system.queues none
  | opensLog : Posts m (m.system.logs ++ [[]]) m.system.queues none
  | shortens {log : Nat} {changes : List (Change V)} (hedits : m.editsLog)
      (hshorter : changes <+: m.system.log log) :
      Posts m (m.system.setLog log changes).logs m.system.queues none
  | lengthens (hunrelayed : m.isUnrelayed) (log : Nat) (change : Change V) :
      Posts m (m.system.pushToLog log change).logs m.system.queues none
  | forwards (htakes : m.takesEvent) (log : Nat) (key newText : Option String) :
      Posts m (m.system.pushToLog log (.external key newText)).logs m.system.queues none
  | opensQueue : Posts m m.system.logs (m.system.queues ++ [[]]) none
  | defers (queue : Nat) (name : String) (steps : List (Step V)) :
      Posts m m.system.logs (m.system.defer queue (.script name steps)).queues none
  | commits {relay : Relay} {w : Write V} {stored : Option String}
      (hwriting : .writing relay w stored ∈ m.stack) :
      Posts m m.system.logs
        (m.system.defer relay.queue (.notice relay.listener (.committed w.key w.value))).queues
        (some (relay, w))
  | takes {queue : Nat} {task : Task V} {tasks : List (Task V)}
      (hqueue : m.system.queue queue = task :: tasks)
      (hlog : ∀ log change, task ≠ .notice (.log log) change) :
      Posts m m.system.logs (m.system.setQueue queue tasks).queues none
  | notifies {queue log : Nat} {change : Change V} {tasks : List (Task V)}
      (hdraining : m.isDraining)
      (hqueue : m.system.queue queue = .notice (.log log) change :: tasks) :
      Posts m (m.system.pushToLog log change).logs (m.system.setQueue queue tasks).queues none

theorem Posts.of_tells {m : Machine V} {s : System V} {listener : Listener} {key : Option String}
    {newText : Option String} {frames : List (Frame V)}
    (htakes : m.takesEvent) (h : Tells m.system (.external key newText) listener s frames) :
    m.Posts s.logs s.queues none := by
  cases h with
  | toLog log => exact .forwards htakes log key newText
  | _ => exact .keeps

theorem Posts.of_receives {m : Machine V} {s : System V} {relay : Relay} {event : Event}
    {frames : List (Frame V)} {a : Answer V} (htakes : m.takesEvent)
    (h : Receives m.system relay event s frames a) : m.Posts s.logs s.queues none := by
  cases h with
  | forwards harea htells => exact .of_tells htakes htells
  | ignores harea => exact .keeps

theorem Posts.of_reacts {m : Machine V} {s : System V} {i : Nat} {event : Event}
    {frames : List (Frame V)} {a : Answer V} (htakes : m.takesEvent)
    (h : Reacts m.system i event s frames a) : m.Posts s.logs s.queues none := by
  cases h with
  | forward hhandler hreaction hreceives => exact .of_receives htakes hreceives
  | _ => exact .keeps

theorem Posts.of_drains {m : Machine V} {s : System V} {queue started : Nat}
    {frames : List (Frame V)} {a : Answer V} (hdraining : m.isDraining)
    (h : Drains m.system queue started s frames a) : m.Posts s.logs s.queues none := by
  cases h with
  | done hqueue => exact .keeps
  | notice hqueue htells =>
      cases htells with
      | toLog log => exact .notifies hdraining hqueue
      | toNone => exact .takes hqueue (by simp)
      | toNoScript i => exact .takes hqueue (by simp)
      | toScript hscript => exact .takes hqueue (by simp)
  | script hqueue => exact .takes hqueue (by simp)

variable [Storable V]

theorem Begins.posts {m : Machine V} {step : Step V} {s : System V} {pushed : List (Frame V)}
    {a : Answer V} (h : Begins m step s pushed a) (hrun : m.control = .run step) :
    m.Posts s.logs s.queues none := by
  cases h with
  | createsLog id => exact .opensLog
  | shortensLog a hedits hshorter =>
      exact .shortens (by simpa [editsLog, hrun] using hedits) hshorter
  | extendsLog hdirect => exact .lengthens (by simpa [isUnrelayed, hrun] using hdirect) _ _
  | createsQueue id => exact .opensQueue
  | defers => exact .defers _ _ _
  | startsDraining hdrains => exact .of_drains (by simp [isDraining, hrun]) hdrains
  | receives hname hreceives => exact .of_receives (by simp [takesEvent, hrun]) hreceives
  | subscribes hsubscribing htake =>
      obtain ⟨names, rfl⟩ := System.takeSubscriptions_eq htake
      exact .keeps
  | failsToSubscribe htake =>
      obtain ⟨names, rfl⟩ := System.takeSubscriptions_eq htake
      exact .keeps
  | _ => exact .keeps

theorem Effect.posts {m : Machine V} {s : System V} {pushed : List (Frame V)}
    {control : Control V} {warned : List (Entry V)} (h : Effect m s pushed control warned) :
    m.Posts s.logs s.queues (m.succeeding control) := by
  cases h with
  | rests hrest hbelow =>
      rw [succeeding_of_rests hbelow]
      exact .keeps
  | begins hrun hbegins =>
      simpa [succeeding, hrun] using hbegins.posts hrun
  | continues hdone hstack hcontinues =>
      cases hcontinues with
      | writeFails e relay w stored =>
          simp only [succeeding, hdone, hstack]
          exact .keeps
      | writeEnds relay w stored hb =>
          simp only [succeeding, hdone, hstack]
          exact .commits (hstack ▸ List.mem_cons_self)
      | calls b hrunning hreacts =>
          simp only [succeeding, hdone, hstack]
          exact .of_reacts (by simp [takesEvent, hdone, hstack]) hreacts
      | drains b hdrains =>
          simp only [succeeding, hdone, hstack]
          exact .of_drains (by simp [isDraining, hdone, hstack]) hdrains
      | finishes b hspent =>
          rw [succeeding_eq_none hstack]
          · exact .keeps
          · rintro relay w stored rfl
            contradiction
      | _ =>
          simp only [succeeding, hdone, hstack]
          exact .keeps
  | frees hdone hstack hfreeing hfrees =>
      rw [succeeding_eq_none hstack]
      · cases hfrees <;> exact .keeps
      · rintro relay w stored rfl
        contradiction

end Machine

end TabRelay.Session
