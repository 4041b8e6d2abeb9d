import TabRelay.Proofs.Session.Atomicity
import TabRelay.Proofs.Session.Nesting

/-!
# Tasks are started in the order in which they were deferred

A task is deferred by a step of its own, or with the success of a write; it is
started by a call that drains its queue.  Such a call takes one task after the
other from the queue as it is then, so that it starts what is deferred meanwhile
as well, and a nested call takes its tasks from the same queue.  What each call
has started so far stands in its frame.
-/

namespace TabRelay.Session

open TabRelay.Storage

variable {V : Type}

/-- The number of tasks of the queue that were started by the call that waits at the frame. -/
def Frame.startedFrom (queue : Nat) : Frame V → Nat
  | .drain q started => if q = queue then started else 0
  | _ => 0

def startedBelow (queue : Nat) (frames : List (Frame V)) : Nat :=
  (frames.map (·.startedFrom queue)).sum

@[simp] theorem startedBelow_nil (queue : Nat) : startedBelow queue ([] : List (Frame V)) = 0 := rfl

@[simp] theorem startedBelow_cons (queue : Nat) (frame : Frame V) (rest : List (Frame V)) :
    startedBelow queue (frame :: rest) = frame.startedFrom queue + startedBelow queue rest := by
  simp [startedBelow]

@[simp] theorem startedBelow_append (queue : Nat) (first second : List (Frame V)) :
    startedBelow queue (first ++ second) =
      startedBelow queue first + startedBelow queue second := by
  simp [startedBelow]

theorem startedBelow_eq_zero {frames : List (Frame V)} {queue : Nat}
    (h : ∀ frame ∈ frames, frame.startedFrom queue = 0) : startedBelow queue frames = 0 := by
  refine List.sum_eq_zero fun n hn => ?_
  obtain ⟨frame, hframe, rfl⟩ := List.mem_map.mp hn
  exact h frame hframe

theorem startedBelow_isFreeing {frames : List (Frame V)} (h : ∀ frame ∈ frames, frame.isFreeing)
    (queue : Nat) : startedBelow queue frames = 0 := by
  refine startedBelow_eq_zero fun frame hframe => ?_
  have hfreeing := h frame hframe
  cases frame <;> first | rfl | contradiction

theorem Tells.startedBelow {s s' : System V} {change : Change V} {listener : Listener}
    {frames : List (Frame V)} (h : Tells s change listener s' frames) (queue : Nat) :
    Session.startedBelow queue frames = 0 := by
  cases h <;> rfl

theorem Receives.startedBelow {s s' : System V} {relay : Relay} {event : Event}
    {frames : List (Frame V)} {a : Answer V} (h : Receives s relay event s' frames a)
    (queue : Nat) : Session.startedBelow queue frames = 0 := by
  cases h with
  | forwards harea htells =>
      rw [startedBelow_append, htells.startedBelow]
      rfl
  | ignores harea => rfl

theorem Reacts.startedBelow {s s' : System V} {i : Nat} {event : Event} {frames : List (Frame V)}
    {a : Answer V} (h : Reacts s i event s' frames a) (queue : Nat) :
    Session.startedBelow queue frames = 0 := by
  cases h with
  | forward hhandler hreaction hreceives => exact hreceives.startedBelow queue
  | _ => rfl

def ofQueue {α : Type} (queue : Nat) : Option (Nat × α) → Option α
  | some (q, a) => if q = queue then some a else none
  | none => none

@[simp] theorem ofQueue_none {α : Type} (queue : Nat) :
    ofQueue queue (none : Option (Nat × α)) = none := rfl

def Task.name? : Task V → Option String
  | .notice _ _ => none
  | .script name _ => some name

def Entry.task? : Entry V → Option String
  | .started name => some name
  | _ => none

namespace Machine

/-! ## What happens to tasks -/

def draining? (m : Machine V) : Option (Nat × Nat) :=
  match m.control, m.stack with
  | .run (.runPending name), _ => (Keyed.lookup? name m.system.queueNames).map (·, 0)
  | .done _, .drain queue started :: _ => some (queue, started)
  | _, _ => none

def starting? (m : Machine V) : Option (Nat × Task V) :=
  m.draining?.bind fun (queue, _) => (m.system.queue queue).head?.map (queue, ·)

/-- The task that is deferred next, by a step or with the success of a write. -/
def deferring? (m : Machine V) : Option (Nat × Task V) :=
  match m.control, m.stack with
  | .run (.defer name id steps), _ =>
      (Keyed.lookup? name m.system.queueNames).map (·, .script id steps)
  | .done (.areaError _), .writing _ _ _ :: _ => none
  | .done _, .writing relay w _ :: _ =>
      some (relay.queue, .notice relay.listener (.committed w.key w.value))
  | _, _ => none

def counting? [Storable V] (m : Machine V) : Option (Nat × Nat) :=
  match m.draining?, m.advance.control with
  | some (queue, _), .done (.count n) => some (queue, n)
  | _, _ => none

def deferred (queue : Nat) (past : List (Machine V)) : List (Task V) :=
  past.filterMap fun m => ofQueue queue m.deferring?

def started (queue : Nat) (past : List (Machine V)) : List (Task V) :=
  past.filterMap fun m => ofQueue queue m.starting?

def counts [Storable V] (queue : Nat) (past : List (Machine V)) : List Nat :=
  past.filterMap fun m => ofQueue queue m.counting?

def tasksTraced (m : Machine V) : List String := m.trace.filterMap (·.task?)

def runTask (m : Machine V) : Task V → Machine V
  | .notice listener change => m.tell listener change
  | .script name steps => (m.record (.started name)).runScript name steps

/-! ## A queue that is not drained -/

section

variable [Storable V] {m : Machine V}

theorem Begins.startedBelow {step : Step V} {s : System V} {pushed : List (Frame V)} {a : Answer V}
    (h : Begins m step s pushed a) (hrun : m.control = .run step) (hdraining : m.draining? = none)
    (queue : Nat) : Session.startedBelow queue pushed = 0 := by
  have hawaits {handle : Handle} {waiting : List (Frame V)} (h : m.Awaits step handle waiting) :
      Session.startedBelow queue waiting = 0 := by
    cases h <;> rfl
  cases h with
  | operates hcall hwaiting houtcome =>
      rw [startedBelow_append, hawaits hwaiting, startedBelow_eq_zero]
      intro frame hframe
      obtain ⟨event, rfl⟩ := mem_deliveries hframe
      rfl
  | barred e hasked hwaiting => exact hawaits hwaiting
  | startsDraining hdrains hname => simp [draining?, hrun, hname] at hdraining
  | receives hname hreceives =>
      rw [startedBelow_append, hreceives.startedBelow]
      rfl
  | _ =>
      refine startedBelow_eq_zero ?_
      simp [dropsOldStorage, dropsOldRelay, dropsOldSubscription, Frame.startedFrom]

theorem Begins.queue {step : Step V} {s : System V} {pushed : List (Frame V)} {a : Answer V}
    (h : Begins m step s pushed a) (hrun : m.control = .run step) (hdraining : m.draining? = none)
    (hstep : ∀ name id steps, step ≠ .defer name id steps) (queue : Nat) :
    s.queue queue = m.system.queue queue := by
  cases h with
  | createsQueue id => exact getD_append_nil m.system.queues queue
  | defers => exact absurd rfl (hstep _ _ _)
  | startsDraining hdrains hname => simp [draining?, hrun, hname] at hdraining
  | receives hname hreceives =>
      obtain ⟨logs, scripts, rfl⟩ := hreceives.eq
      rfl
  | subscribes hsubscribing htake =>
      obtain ⟨names, rfl⟩ := System.takeSubscriptions_eq htake
      rfl
  | failsToSubscribe htake =>
      obtain ⟨names, rfl⟩ := System.takeSubscriptions_eq htake
      rfl
  | _ => rfl

omit [Storable V] in
theorem Frees.queue {top : Frame V} {s : System V} {pushed : List (Frame V)}
    (h : Frees m top s pushed) (queue : Nat) : s.queue queue = m.system.queue queue := by
  cases h <;> rfl

omit [Storable V] in
theorem Continues.queue {top : Frame V} {rest : List (Frame V)} {b : Answer V} {s : System V}
    {pushed : List (Frame V)} {control : Control V} {warned : List (Entry V)}
    (h : Continues m top b s pushed control warned) (hdone : m.control = .done b)
    (hstack : m.stack = top :: rest) (hdraining : m.draining? = none)
    (hdeferring : m.deferring? = none) (queue : Nat) :
    s.queue queue = m.system.queue queue ∧
      Session.startedBelow queue pushed = top.startedFrom queue := by
  cases h with
  | finishes b hspent =>
      refine ⟨rfl, ?_⟩
      cases top <;> first | rfl | contradiction
  | calls b hrunning hreacts =>
      rw [startedBelow_append, hreacts.startedBelow]
      obtain ⟨handlers, logs, scripts, rfl⟩ := hreacts.eq
      exact ⟨rfl, rfl⟩
  | writeEnds relay w stored hb =>
      cases b with
      | areaError e => exact absurd rfl (hb e)
      | _ => simp [deferring?, hdone, hstack] at hdeferring
  | drains b hdrains => simp [draining?, hdone, hstack] at hdraining
  | _ => exact ⟨rfl, rfl⟩

theorem Effect.queue {s : System V} {pushed : List (Frame V)} {control : Control V}
    {warned : List (Entry V)} (h : Effect m s pushed control warned)
    (hdraining : m.draining? = none) (hdeferring : m.deferring? = none)
    (hstep : ∀ name id steps, m.control ≠ .run (.defer name id steps)) (queue : Nat) :
    s.queue queue = m.system.queue queue ∧
      Session.startedBelow queue (pushed ++ m.below) = Session.startedBelow queue m.stack := by
  cases h with
  | rests hrest hbelow => exact ⟨rfl, congrArg _ hbelow⟩
  | begins hrun hbegins =>
      rw [startedBelow_append, hbegins.startedBelow hrun hdraining, below_of_run hrun, Nat.zero_add]
      refine ⟨hbegins.queue hrun hdraining (fun name id steps hsame => ?_) queue, rfl⟩
      exact hstep name id steps (hsame ▸ hrun)
  | continues hdone hstack hcontinues =>
      obtain ⟨hqueue, hpushed⟩ := hcontinues.queue hdone hstack hdraining hdeferring queue
      rw [startedBelow_append, hpushed, below_of_done hdone hstack, hstack, startedBelow_cons]
      exact ⟨hqueue, rfl⟩
  | @frees b top rest s pushed hdone hstack hfreeing hfrees =>
      have htop : top.startedFrom queue = 0 := by
        cases top <;> first | rfl | contradiction
      rw [startedBelow_append, startedBelow_isFreeing hfrees.isFreeing,
        below_of_done hdone hstack, hstack, startedBelow_cons, htop]
      exact ⟨hfrees.queue queue, rfl⟩

end

/-! ## A queue that is drained -/

section

variable {m : Machine V}

theorem draining?_cases {queue started : Nat} (h : m.draining? = some (queue, started)) :
    (∃ name, m.control = .run (.runPending name) ∧
      Keyed.lookup? name m.system.queueNames = some queue ∧ started = 0) ∨
    ∃ b rest, m.control = .done b ∧ m.stack = .drain queue started :: rest := by
  unfold draining? at h
  split at h
  · rename_i name hrun
    obtain ⟨q, hname, hq⟩ := Option.map_eq_some_iff.mp h
    cases hq
    exact .inl ⟨name, hrun, hname, rfl⟩
  · rename_i b q k rest hdone hstack
    cases h
    exact .inr ⟨b, rest, hdone, hstack⟩
  · contradiction

theorem deferring?_of_draining {queue started : Nat} (h : m.draining? = some (queue, started)) :
    m.deferring? = none := by
  obtain ⟨name, hrun, -⟩ | ⟨b, rest, hdone, hstack⟩ := draining?_cases h
  · simp [deferring?, hrun]
  · cases b <;> simp [deferring?, hdone, hstack]

theorem startedBelow_of_draining {queue started : Nat} (h : m.draining? = some (queue, started))
    (q : Nat) : startedBelow q m.stack =
      (if queue = q then started else 0) + startedBelow q m.below := by
  obtain ⟨name, hrun, -, rfl⟩ | ⟨b, rest, hdone, hstack⟩ := draining?_cases h
  · rw [below_of_run hrun, ite_self, Nat.zero_add]
  · rw [below_of_done hdone hstack, hstack, startedBelow_cons]
    rfl

theorem Orderly.unheld_beneath (h : m.Orderly) {queue started : Nat}
    (hdraining : m.draining? = some (queue, started)) : m.beneath.Unheld := by
  obtain ⟨name, hrun, -⟩ | ⟨b, rest, hdone, hstack⟩ := draining?_cases hdraining
  · refine unheld_of_no_disposing ?_
    rw [beneath, below_of_run hrun]
    exact h.running _ hrun
  · refine unheld_of_no_disposing ?_
    rw [beneath, below_of_done hdone hstack]
    exact h.no_disposing hstack (by simp [Frame.isFreeing])

theorem drain_nil (hfree : m.Unheld) {queue : Nat} (h : m.system.queue queue = [])
    (started : Nat) : m.drain queue started = m.answer (.count started) := by
  rw [drain, whenFree_of_unheld hfree, h]

theorem drain_cons (hfree : m.Unheld) {queue : Nat} {task : Task V} {tasks : List (Task V)}
    (h : m.system.queue queue = task :: tasks) (started : Nat) :
    m.drain queue started =
      ((m.update (m.system.setQueue queue tasks)).push (.drain queue (started + 1))).runTask
        task := by
  rw [drain, whenFree_of_unheld hfree, h]
  cases task <;> rfl

variable [Storable V]

theorem advance_draining {queue started : Nat} (h : m.draining? = some (queue, started)) :
    m.advance = m.beneath.drain queue started := by
  obtain ⟨name, hrun, hname, rfl⟩ | ⟨b, rest, hdone, hstack⟩ := draining?_cases h
  · have hbeneath : m.beneath = m := by rw [beneath, below_of_run hrun]
    simp [advance, hrun, begin, withQueue, withNamed, hname, hbeneath]
  · simp [advance, hdone, resume, hstack, beneath, below]

end

/-! ## What the trace says of tasks -/

section

variable {m : Machine V}

theorem tasksTraced_tell (listener : Listener) (change : Change V) :
    (m.tell listener change).tasksTraced = m.tasksTraced := by
  simp only [tell, recordChange, whenFree]
  repeat' split
  all_goals rfl

theorem tasksTraced_runTask (task : Task V) :
    (m.runTask task).tasksTraced = task.name?.toList ++ m.tasksTraced := by
  cases task with
  | notice listener change => exact tasksTraced_tell listener change
  | script name steps => rfl

variable [Storable V]

theorem tasksTraced_begin {step : Step V} (h : ∀ name, step ≠ .runPending name) :
    (m.begin step).tasksTraced = m.tasksTraced := by
  cases step with
  | runPending name => exact absurd rfl (h name)
  | _ =>
      simp only [begin, withStorage, withRelay, withLog, withQueue, withNamed, withDecoded,
        whenFree, create, openTab, nameStorage, dropStorage, askArea, answerExcept, setText,
        removeKey, clearArea, deliver, deliverRaised, subscribe, register, listen,
        dropSubscription, nameLog, setLog, recordChange, askLog, nameQueue, defer, askQueue,
        makeRelay, makeScriptRelay, nameRelay, dropRelay, askRelay, snapshot, write, receive, tell]
      try (repeat' split)
      all_goals rfl

theorem tasksTraced_resume (b : Answer V)
    (h : ∀ queue started rest, m.stack ≠ .drain queue started :: rest) :
    (m.resume b).tasksTraced = m.tasksTraced := by
  simp only [resume, visit, react, receive, tell, recordChange, whenFree, reap, free, detach,
    finishWrite]
  repeat' split
  all_goals first | rfl | exact absurd (by assumption) (h _ _ _)

theorem tasksTraced_of_not_draining (h : m.draining? = none) :
    m.advance.tasksTraced = m.tasksTraced := by
  unfold advance
  cases hcontrol : m.control with
  | run step =>
      by_cases hstep : ∃ name, step = .runPending name
      · obtain ⟨name, rfl⟩ := hstep
        have hname : Keyed.lookup? name m.system.queueNames = none := by
          simpa [draining?, hcontrol] using h
        simp only [begin, withQueue, withNamed, hname]
        rfl
      · exact tasksTraced_begin fun name hname => hstep ⟨name, hname⟩
  | done b =>
      refine tasksTraced_resume b fun queue started rest hstack => ?_
      simp [draining?, hcontrol, hstack] at h
  | conflict cell => rfl

end

/-! ## One advance -/

/-- What an advance does with tasks. -/
structure TaskLaw [Storable V] (m : Machine V) : Prop where
  starts : ∀ queue task, m.starting? = some (queue, task) → ∃ tasks started,
    m.draining? = some (queue, started) ∧ m.system.queue queue = task :: tasks ∧
      m.advance = ((m.beneath.update (m.system.setQueue queue tasks)).push
        (.drain queue (started + 1))).runTask task ∧
      m.advance.tasksTraced = task.name?.toList ++ m.tasksTraced
  defers : ∀ queue task, m.deferring? = some (queue, task) →
    m.starting? = none ∧ m.advance.system = m.system.defer queue task ∧
      m.advance.stack = m.below ∧ m.advance.control = .done .ok
  returns : ∀ queue n, m.counting? = some (queue, n) →
    m.draining? = some (queue, n) ∧ m.system.queue queue = [] ∧
      m.advance = m.beneath.answer (.count n)
  quiet : m.starting? = none → m.advance.tasksTraced = m.tasksTraced

section

variable {m : Machine V}

theorem runTask_above (hfree : m.Unheld) (task : Task V) :
    ∃ frames, (m.runTask task).stack = frames ++ m.stack ∧
      (∀ queue, startedBelow queue frames = 0) ∧ (m.runTask task).control = .done .ok ∧
      (m.runTask task).system.queues = m.system.queues := by
  cases task with
  | script name steps => exact ⟨[.script name steps], rfl, fun _ => rfl, rfl, rfl⟩
  | notice listener change =>
      obtain ⟨frames, htells, hstack, hcontrol, -⟩ := tell_tells (hfree.not_meets _) change
      refine ⟨frames, hstack, htells.startedBelow, hcontrol, ?_⟩
      obtain ⟨logs, scripts, hsystem⟩ := htells.eq
      rw [runTask, hsystem]

variable [Storable V]

theorem Orderly.drains (h : m.Orderly) {queue started : Nat}
    (hdraining : m.draining? = some (queue, started)) :
    (m.system.queue queue = [] ∧ m.starting? = none ∧
        m.counting? = some (queue, started) ∧ m.advance = m.beneath.answer (.count started)) ∨
      ∃ task tasks, m.system.queue queue = task :: tasks ∧
        m.starting? = some (queue, task) ∧ m.counting? = none ∧
        m.advance = ((m.beneath.update (m.system.setQueue queue tasks)).push
          (.drain queue (started + 1))).runTask task := by
  have hfree := h.unheld_beneath hdraining
  cases hqueue : m.system.queue queue with
  | nil =>
      have hadvance : m.advance = m.beneath.answer (.count started) := by
        rw [advance_draining hdraining, drain_nil hfree hqueue]
      refine .inl ⟨rfl, by simp [starting?, hdraining, hqueue], ?_, hadvance⟩
      simp [counting?, hdraining, hadvance, answer]
  | cons task tasks =>
      have hadvance : m.advance = ((m.beneath.update (m.system.setQueue queue tasks)).push
          (.drain queue (started + 1))).runTask task := by
        rw [advance_draining hdraining, drain_cons hfree hqueue]
        rfl
      refine .inr ⟨task, tasks, rfl, by simp [starting?, hdraining, hqueue], ?_, hadvance⟩
      have hpushed : ((m.beneath.update (m.system.setQueue queue tasks)).push
          (.drain queue (started + 1))).Unheld :=
        Unheld.push (hfree.of_stack rfl) (by simp [Frame.isDisposing])
      obtain ⟨frames, -, -, hcontrol, -⟩ := runTask_above hpushed task
      rw [← hadvance] at hcontrol
      simp [counting?, hdraining, hcontrol]

theorem Orderly.defers (h : m.Orderly) {queue : Nat} {task : Task V}
    (hdeferring : m.deferring? = some (queue, task)) :
    m.advance.system = m.system.defer queue task ∧ m.advance.stack = m.below ∧
      m.advance.control = .done .ok := by
  unfold deferring? at hdeferring
  split at hdeferring
  · rename_i name id steps hrun
    obtain ⟨q, hname, hq⟩ := Option.map_eq_some_iff.mp hdeferring
    cases hq
    have hfree : m.Unheld := unheld_of_no_disposing (h.running _ hrun)
    rw [below_of_run hrun]
    simp only [Machine.advance, hrun, begin, withQueue, withNamed, hname, defer,
      whenFree_of_unheld hfree]
    exact ⟨rfl, rfl, rfl⟩
  · contradiction
  · rename_i b relay w stored rest hb hdone hstack
    cases hdeferring
    have hfree : Unheld { m with stack := rest } :=
      unheld_of_no_disposing (h.no_disposing hstack (by simp [Frame.isFreeing]))
    have hmarked (mark : Mark) : (Machine.mark { m with stack := rest } mark).Unheld :=
      hfree.of_stack rfl
    rw [below_of_done hdone hstack]
    simp only [Machine.advance, hdone]
    simp only [resume, hstack]
    unfold finishWrite
    split
    · exact (hb _ rfl).elim
    · simp only [whenFree_of_unheld (hmarked _)]
      exact ⟨rfl, rfl, rfl⟩
  · contradiction

theorem Orderly.taskLaw (h : m.Orderly) : m.TaskLaw where
  starts queue task hstarting := by
    obtain ⟨⟨q, started⟩, hdraining, hhead⟩ := Option.bind_eq_some_iff.mp hstarting
    obtain ⟨head, hhead, hq⟩ := Option.map_eq_some_iff.mp hhead
    cases hq
    rcases h.drains hdraining with ⟨hqueue, -⟩ | ⟨head, tasks, hqueue, -, -, hadvance⟩
    · simp [hqueue] at hhead
    · rw [hqueue] at hhead
      cases hhead
      refine ⟨tasks, started, hdraining, hqueue, hadvance, ?_⟩
      rw [hadvance, tasksTraced_runTask]
      rfl
  defers queue task hdeferring := by
    refine ⟨?_, h.defers hdeferring⟩
    cases hdraining : m.draining? with
    | none => simp [starting?, hdraining]
    | some found => simp [deferring?_of_draining hdraining] at hdeferring
  returns queue n hcounting := by
    unfold counting? at hcounting
    split at hcounting
    · rename_i q started k hdraining hcontrol
      cases hcounting
      rcases h.drains hdraining with ⟨hqueue, -, -, hadvance⟩ | ⟨head, tasks, hqueue, -, hnone, -⟩
      · rw [hadvance] at hcontrol
        cases hcontrol
        exact ⟨hdraining, hqueue, hadvance⟩
      · simp [counting?, hdraining, hcontrol] at hnone
    · contradiction
  quiet hstarting := by
    cases hdraining : m.draining? with
    | none => exact tasksTraced_of_not_draining hdraining
    | some found =>
        rcases h.drains hdraining with ⟨-, -, -, hadvance⟩ | ⟨head, tasks, -, hsome, -⟩
        · rw [hadvance]
          rfl
        · simp [hsome] at hstarting

/-! ## Every task once, in order -/

omit [Storable V] in
theorem queue_setQueue {s : System V} {i : Nat} {task : Task V} {tasks : List (Task V)}
    (h : s.queue i = task :: tasks) (queue : Nat) :
    s.queue queue =
      (ofQueue queue (some (i, task))).toList ++ (s.setQueue i tasks).queue queue := by
  have hi : i < s.queues.length := (List.getElem?_eq_some_iff.mp (queue_eq_some h)).1
  simp only [System.queue, System.setQueue, getD_set, hi, and_true, ofQueue]
  split
  · rename_i hsame
    exact hsame ▸ h
  · rfl

omit [Storable V] in
theorem queue_of_defer {s : System V} {i : Nat} (hi : i < s.queues.length) (task : Task V)
    (queue : Nat) : (s.defer i task).queue queue =
      s.queue queue ++ (ofQueue queue (some (i, task))).toList := by
  rw [System.queue, queue_defer]
  simp only [hi, and_true, ofQueue]
  split <;> rfl

omit [Storable V] in
theorem lt_of_deferring? (haddressed : Addressed m.system m.stack) {queue : Nat} {task : Task V}
    (h : m.deferring? = some (queue, task)) : queue < m.system.queues.length := by
  unfold deferring? at h
  split at h
  · rename_i name id steps hrun
    obtain ⟨q, hname, hq⟩ := Option.map_eq_some_iff.mp h
    cases hq
    exact haddressed.queueNames _ (Keyed.mem_of_lookup? hname)
  · contradiction
  · rename_i hstack
    cases h
    exact (haddressed.writing _ _ _ (hstack ▸ List.mem_cons_self)).queue
  · contradiction

omit [Storable V] in
theorem startedBelow_of_deferring {found : Nat × Task V} (h : m.deferring? = some found)
    (queue : Nat) : startedBelow queue m.below = startedBelow queue m.stack := by
  unfold deferring? at h
  split at h
  · rename_i hrun
    rw [below_of_run hrun]
  · contradiction
  · rename_i hdone hstack
    rw [below_of_done hdone hstack, hstack]
    exact (Nat.zero_add _).symm
  · contradiction

theorem Orderly.keepsQueues (h : m.Orderly) (hdraining : m.draining? = none)
    (hdeferring : m.deferring? = none) (queue : Nat) :
    m.advance.system.queue queue = m.system.queue queue ∧
      startedBelow queue m.advance.stack = startedBelow queue m.stack := by
  by_cases hstep : ∃ name id steps, m.control = .run (.defer name id steps)
  · obtain ⟨name, id, steps, hrun⟩ := hstep
    have hname : Keyed.lookup? name m.system.queueNames = none := by
      simpa [deferring?, hrun] using hdeferring
    simp only [Machine.advance, hrun, begin, withQueue, withNamed, hname]
    exact ⟨rfl, rfl⟩
  · obtain ⟨pushed, warned, heffect, hstack, -⟩ := advance_becomes h
    rw [hstack]
    exact heffect.queue hdraining hdeferring (fun name id steps hrun => hstep ⟨_, _, _, hrun⟩) queue

/-- What is deferred comes after the tasks in the queue, what is started was the first of
them, and each call counts what it starts. -/
theorem Orderly.balances (h : m.Orderly) (haddressed : Addressed m.system m.stack) (queue : Nat) :
    m.system.queue queue ++ (ofQueue queue m.deferring?).toList =
        (ofQueue queue m.starting?).toList ++ m.advance.system.queue queue ∧
      startedBelow queue m.stack + (ofQueue queue m.starting?).toList.length =
        startedBelow queue m.advance.stack + (ofQueue queue m.counting?).toList.sum := by
  cases hdraining : m.draining? with
  | some found =>
      obtain ⟨q, k⟩ := found
      rw [deferring?_of_draining hdraining, startedBelow_of_draining hdraining]
      rcases h.drains hdraining with ⟨-, hstarting, hcounting, hadvance⟩ |
        ⟨task, tasks, hqueue, hstarting, hcounting, hadvance⟩
      · rw [hstarting, hcounting, hadvance]
        refine ⟨by simp [answer, beneath], ?_⟩
        simp only [answer, beneath, ofQueue]
        split <;> simp [Nat.add_comm]
      · have hpushed : ((m.beneath.update (m.system.setQueue q tasks)).push
            (.drain q (k + 1))).Unheld :=
          Unheld.push ((h.unheld_beneath hdraining).of_stack rfl) (by simp [Frame.isDisposing])
        obtain ⟨frames, hstack, hnone, -, hqueues⟩ := runTask_above hpushed task
        have hleft : m.advance.system.queue queue = (m.system.setQueue q tasks).queue queue := by
          rw [hadvance, System.queue, hqueues]
          rfl
        rw [hstarting, hcounting, hleft, hadvance, hstack, startedBelow_append, hnone]
        refine ⟨by simpa using queue_setQueue hqueue queue, ?_⟩
        simp only [push, update, beneath, startedBelow_cons, Frame.startedFrom, ofQueue]
        split
        · simp
          omega
        · simp
  | none =>
      have hstarting : m.starting? = none := by simp [starting?, hdraining]
      have hcounting : m.counting? = none := by simp [counting?, hdraining]
      cases hdeferring : m.deferring? with
      | some found =>
          obtain ⟨q, task⟩ := found
          obtain ⟨hsystem, hstack, -⟩ := h.defers hdeferring
          rw [hstarting, hcounting, hsystem, hstack, startedBelow_of_deferring hdeferring,
            queue_of_defer (lt_of_deferring? haddressed hdeferring)]
          exact ⟨rfl, rfl⟩
      | none =>
          obtain ⟨hqueue, hstack⟩ := h.keepsQueues hdraining hdeferring queue
          simp [hstarting, hcounting, hqueue, hstack]

end

end Machine

end TabRelay.Session
