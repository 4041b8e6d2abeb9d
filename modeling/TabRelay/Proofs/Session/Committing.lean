import TabRelay.Proofs.Session.Posting

/-!
# What is told of writes, and what is still to be told

Relays that tell one log share a queue.  Then the notices that the log was told,
followed by those that are left in the queue, are at every moment those that
writes have put into it, in that order.
-/

namespace TabRelay.Session

open TabRelay.Storage

variable {V : Type}

/-! ## Notices -/

/-- The notices of writes that the tasks will tell the log. -/
def noticesFor (log : Nat) (tasks : List (Task V)) : List (Change V) :=
  tasks.filterMap fun
    | .notice (.log l) change => if l = log ∧ change.isCommitted then some change else none
    | _ => none

/-- The notice that the log is told of a write with this answer. -/
def noticeOf? (log : Nat) : Relay × Write V × Answer V → Option (Change V)
  | (relay, w, .ok) =>
      if relay.listener = .log log then some (.committed w.key w.value) else none
  | _ => none

namespace Machine

variable [Storable V]

/-- What the next step puts into a log, unless it does so without a relay. -/
def arriving (m : Machine V) (log : Nat) : List (Change V) :=
  if m.isUnrelayed then [] else (m.advance.system.log log).drop (m.system.log log).length

/-- The notices of writes that the log was told so far. -/
def delivered (log : Nat) (past : List (Machine V)) : List (Change V) :=
  past.flatMap fun m => (m.arriving log).filter (·.isCommitted)

def queued (log : Nat) (past : List (Machine V)) : List (Change V) :=
  past.flatMap fun m => (m.succeeding m.advance.control).toList.filterMap fun (relay, w) =>
    noticeOf? log (relay, w, .ok)

end Machine

/-! ## What is named exists -/

structure System.Reaches (s : System V) (relay : Relay) : Prop where
  queue : relay.queue < s.queues.length
  log : ∀ log, relay.listener = .log log → log < s.logs.length

structure Addressed (s : System V) (stack : List (Frame V)) : Prop where
  logNames : ∀ p ∈ s.logNames, p.2 < s.logs.length
  queueNames : ∀ p ∈ s.queueNames, p.2 < s.queues.length
  relays : ∀ p ∈ s.relayNames, s.Reaches p.2
  writing : ∀ relay w stored, .writing relay w stored ∈ stack → s.Reaches relay
  notices : ∀ queue log change, .notice (.log log) change ∈ s.queue queue → log < s.logs.length

theorem System.Reaches.mono {s s' : System V} {relay : Relay} (h : s.Reaches relay)
    (hlogs : s.logs.length ≤ s'.logs.length) (hqueues : s.queues.length ≤ s'.queues.length) :
    s'.Reaches relay where
  queue := Nat.lt_of_lt_of_le h.queue hqueues
  log := fun log hlog => Nat.lt_of_lt_of_le (h.log log hlog) hlogs

namespace Machine

theorem Posts.length_le {m : Machine V} {logs : List (List (Change V))}
    {queues : List (List (Task V))} {done : Option (Relay × Write V)}
    (h : m.Posts logs queues done) :
    m.system.logs.length ≤ logs.length ∧ m.system.queues.length ≤ queues.length := by
  cases h <;> simp [System.setLog, System.pushToLog, System.setQueue, System.defer]

theorem getD_set {α : Type} (l : List α) (i j : Nat) (a b : α) :
    (l.set i a).getD j b = if i = j ∧ i < l.length then a else l.getD j b := by
  simp only [List.getD_eq_getElem?_getD, List.getElem?_set]
  by_cases hij : i = j
  · subst hij
    by_cases hi : i < l.length
    · simp [hi]
    · simp [hi]
  · simp [hij]

theorem getD_append_nil {α : Type} (l : List (List α)) (j : Nat) :
    (l ++ [[]]).getD j [] = l.getD j [] := by
  induction l generalizing j with
  | nil => cases j <;> rfl
  | cons a l ih =>
      cases j with
      | zero => rfl
      | succ j => exact ih j

theorem drop_pushToLog (s : System V) (i log : Nat) (change : Change V) :
    ((s.pushToLog i change).logs.getD log []).drop (s.log log).length =
      if i = log ∧ i < s.logs.length then [change] else [] := by
  simp only [System.pushToLog, System.setLog, getD_set]
  split
  · rename_i h
    rw [h.1, List.drop_left]
  · exact List.drop_length

theorem queue_defer (s : System V) (i queue : Nat) (task : Task V) :
    (s.defer i task).queues.getD queue [] =
      s.queue queue ++ if i = queue ∧ i < s.queues.length then [task] else [] := by
  simp only [System.defer, System.setQueue, getD_set]
  split
  · rename_i h
    rw [h.1]
  · exact (List.append_nil _).symm

@[simp] theorem noticesFor_append (log : Nat) (first second : List (Task V)) :
    noticesFor log (first ++ second) = noticesFor log first ++ noticesFor log second :=
  List.filterMap_append

theorem noticesFor_notice (log l : Nat) (change : Change V) :
    noticesFor log [.notice (.log l) change] =
      (if l = log then [change] else []).filter (·.isCommitted) := by
  by_cases hl : l = log <;> by_cases hcommitted : change.isCommitted <;>
    simp [noticesFor, hl, hcommitted]

theorem noticesFor_other {log : Nat} {listener : Listener} {change : Change V}
    (h : listener ≠ .log log) : noticesFor log [.notice listener change] = [] := by
  cases listener with
  | log l =>
      have hl : l ≠ log := fun hl => h (hl ▸ rfl)
      rw [noticesFor_notice, if_neg hl]
      rfl
  | _ => rfl

theorem noticesFor_setQueue {s : System V} {i queue log : Nat} {task : Task V}
    {tasks : List (Task V)} (hqueue : s.queue i = task :: tasks) :
    noticesFor log (s.queue queue) =
      (if i = queue then noticesFor log [task] else []) ++
        noticesFor log ((s.setQueue i tasks).queues.getD queue []) := by
  have hi : i < s.queues.length := by
    by_contra hi
    simp [System.queue, List.getD_eq_getElem?_getD, List.getElem?_eq_none (Nat.le_of_not_lt hi)]
      at hqueue
  simp only [System.setQueue, getD_set]
  by_cases h : i = queue
  · subst h
    rw [if_pos rfl, if_pos ⟨rfl, hi⟩, hqueue, ← noticesFor_append]
    rfl
  · rw [if_neg h, if_neg (fun hboth => h hboth.1)]
    rfl

theorem noticeOf?_deferred {s : System V} {relay : Relay} {w : Write V} {queue log : Nat}
    (hreaches : relay.queue < s.queues.length)
    (hshared : relay.listener = .log log → relay.queue = queue) :
    (some (relay, w)).toList.filterMap (fun (relay, w) => noticeOf? log (relay, w, .ok)) =
      noticesFor log (if relay.queue = queue ∧ relay.queue < s.queues.length then
        [Task.notice relay.listener (.committed w.key w.value)] else []) := by
  simp only [Option.toList_some, List.filterMap_cons, List.filterMap_nil, noticeOf?]
  by_cases hlistener : relay.listener = .log log
  · rw [if_pos hlistener, if_pos ⟨hshared hlistener, hreaches⟩, hlistener, noticesFor_notice,
      if_pos rfl]
    rfl
  · have hnone : noticesFor log (if relay.queue = queue ∧ relay.queue < s.queues.length then
        [Task.notice relay.listener (.committed w.key w.value)] else []) = [] := by
      split
      · exact noticesFor_other hlistener
      · rfl
    rw [if_neg hlistener, hnone]

theorem noticesFor_taken {s : System V} {i queue log l : Nat} {change : Change V}
    {tasks : List (Task V)} (hothers : ∀ q, q ≠ queue → noticesFor log (s.queue q) = [])
    (hqueue : s.queue i = .notice (.log l) change :: tasks) :
    (if i = queue then noticesFor log [.notice (.log l) change] else []) =
      (if l = log then [change] else []).filter (·.isCommitted) := by
  rw [← noticesFor_notice]
  split
  · rfl
  · rename_i hi
    have hnone := hothers i hi
    rw [hqueue, ← List.singleton_append, noticesFor_append] at hnone
    exact (List.append_eq_nil_iff.mp hnone).1.symm

theorem Posts.law {m : Machine V} {logs : List (List (Change V))} {queues : List (List (Task V))}
    {done : Option (Relay × Write V)} (h : m.Posts logs queues done)
    (haddressed : Addressed m.system m.stack) {queue log : Nat}
    (hothers : ∀ q, q ≠ queue → noticesFor log (m.system.queue q) = [])
    (hshared : ∀ relay w stored, .writing relay w stored ∈ m.stack →
      relay.listener = .log log → relay.queue = queue) :
    noticesFor log (m.system.queue queue) ++
        done.toList.filterMap (fun (relay, w) => noticeOf? log (relay, w, .ok)) =
      (if m.isUnrelayed then []
        else (logs.getD log []).drop (m.system.log log).length).filter (·.isCommitted) ++
        noticesFor log (queues.getD queue []) := by
  have hquiet {told : List (Change V)} (htold : told = []) :
      (if m.isUnrelayed then [] else told).filter (·.isCommitted) = [] := by
    rw [htold, ite_self]
    rfl
  have hsame : (m.system.logs.getD log []).drop (m.system.log log).length = [] :=
    List.drop_length
  cases h with
  | keeps =>
      rw [hquiet hsame]
      exact List.append_nil _
  | opensLog =>
      rw [getD_append_nil, hquiet hsame]
      exact List.append_nil _
  | @shortens l changes hedits hshorter =>
      have hnone : ((m.system.setLog l changes).logs.getD log []).drop
          (m.system.log log).length = [] := by
        simp only [System.setLog, getD_set]
        split
        · rename_i hl
          exact List.drop_eq_nil_of_le (hl.1 ▸ hshorter.length_le)
        · exact hsame
      rw [hquiet hnone]
      exact List.append_nil _
  | lengthens hunrelayed l change =>
      rw [if_pos hunrelayed]
      exact List.append_nil _
  | forwards htakes l key newText =>
      have hnone : (if m.isUnrelayed then [] else ((m.system.pushToLog l
          (.external key newText)).logs.getD log []).drop
            (m.system.log log).length).filter (·.isCommitted) = [] := by
        rw [drop_pushToLog]
        split_ifs <;> rfl
      rw [hnone]
      exact List.append_nil _
  | opensQueue =>
      rw [hquiet hsame, getD_append_nil]
      exact List.append_nil _
  | defers q name steps =>
      have hscript : noticesFor log (if q = queue ∧ q < m.system.queues.length then
          [Task.script name steps] else []) = [] := by
        split <;> rfl
      rw [hquiet hsame, queue_defer, noticesFor_append, hscript]
      exact (List.append_nil _).trans (List.append_nil _).symm
  | @commits relay w stored hwriting =>
      rw [hquiet hsame, queue_defer, noticesFor_append]
      refine congrArg (noticesFor log (m.system.queue queue) ++ ·) ?_
      exact noticeOf?_deferred (haddressed.writing relay w stored hwriting).queue
        (hshared relay w stored hwriting)
  | @takes q task tasks hqueue hlog =>
      have hnone : noticesFor log [task] = [] := by
        cases task with
        | script name steps => rfl
        | notice listener change =>
            refine noticesFor_other ?_
            rintro rfl
            exact hlog log change rfl
      rw [hquiet hsame, noticesFor_setQueue hqueue, hnone, ite_self]
      exact List.append_nil _
  | @notifies q l change tasks hdraining hqueue =>
      have hl : l < m.system.logs.length :=
        haddressed.notices q l change (hqueue ▸ List.mem_cons_self)
      rw [noticesFor_setQueue hqueue, noticesFor_taken hothers hqueue, drop_pushToLog,
        isUnrelayed_of_draining hdraining]
      simp only [hl, and_true]
      exact List.append_nil _

theorem Posts.others {m : Machine V} {logs : List (List (Change V))}
    {queues : List (List (Task V))} {done : Option (Relay × Write V)}
    (h : m.Posts logs queues done) {queue log : Nat}
    (hothers : ∀ q, q ≠ queue → noticesFor log (m.system.queue q) = [])
    (hshared : ∀ relay w stored, .writing relay w stored ∈ m.stack →
      relay.listener = .log log → relay.queue = queue) :
    ∀ q, q ≠ queue → noticesFor log (queues.getD q []) = [] := by
  intro q hq
  have hold := hothers q hq
  have hadds {i : Nat} {task : Task V} (htask : i = q → noticesFor log [task] = []) :
      noticesFor log ((m.system.defer i task).queues.getD q []) = [] := by
    rw [queue_defer, noticesFor_append, hold, List.nil_append]
    split
    · rename_i hi
      exact htask hi.1
    · rfl
  cases h with
  | opensQueue => rwa [getD_append_nil]
  | defers i name steps => exact hadds fun _ => rfl
  | @commits relay w stored hwriting =>
      refine hadds fun hi => noticesFor_other fun hlistener => hq ?_
      rw [← hi]
      exact hshared relay w stored hwriting hlistener
  | takes hqueue hlog => exact (List.append_eq_nil_iff.mp (noticesFor_setQueue hqueue ▸ hold)).2
  | notifies hdraining hqueue =>
      exact (List.append_eq_nil_iff.mp (noticesFor_setQueue hqueue ▸ hold)).2
  | _ => exact hold

/-! ## What is named still exists -/

theorem Posts.notices {m : Machine V} {logs : List (List (Change V))}
    {queues : List (List (Task V))} {done : Option (Relay × Write V)}
    (h : m.Posts logs queues done) (haddressed : Addressed m.system m.stack) :
    ∀ queue log change, .notice (.log log) change ∈ queues.getD queue [] → log < logs.length := by
  intro queue log change hmem
  have hlength := h.length_le.1
  have hold (hmem : .notice (.log log) change ∈ m.system.queue queue) : log < logs.length :=
    Nat.lt_of_lt_of_le (haddressed.notices queue log change hmem) hlength
  have htaken {i : Nat} {task : Task V} {tasks : List (Task V)}
      (hqueue : m.system.queue i = task :: tasks)
      (hmem : .notice (.log log) change ∈ (m.system.setQueue i tasks).queues.getD queue []) :
      log < logs.length := by
    simp only [System.setQueue, getD_set] at hmem
    split at hmem
    · rename_i hi
      exact Nat.lt_of_lt_of_le (haddressed.notices i log change
        (hqueue ▸ List.mem_cons_of_mem _ hmem)) hlength
    · exact hold hmem
  cases h with
  | opensQueue =>
      rw [getD_append_nil] at hmem
      exact hold hmem
  | defers i name steps =>
      rw [queue_defer] at hmem
      rcases List.mem_append.mp hmem with hmem | hmem
      · exact hold hmem
      · split at hmem <;> simp at hmem
  | @commits relay w stored hwriting =>
      rw [queue_defer] at hmem
      rcases List.mem_append.mp hmem with hmem | hmem
      · exact hold hmem
      · split at hmem
        · have hlistener := List.mem_singleton.mp hmem
          injection hlistener with hlistener
          exact (haddressed.writing relay w stored hwriting).log log hlistener.symm
        · contradiction
  | takes hqueue hlog => exact htaken hqueue hmem
  | notifies hdraining hqueue => exact htaken hqueue hmem
  | _ => exact hold hmem

variable [Storable V]

theorem Begins.postNames {m : Machine V} {step : Step V} {s : System V} {pushed : List (Frame V)}
    {a : Answer V} (h : Begins m step s pushed a) :
    (∀ p ∈ s.logNames, p ∈ m.system.logNames ∨ p.2 < s.logs.length) ∧
      ∀ p ∈ s.queueNames, p ∈ m.system.queueNames ∨ p.2 < s.queues.length := by
  cases h with
  | createsLog id =>
      refine ⟨?_, fun p hp => .inl hp⟩
      intro p hp
      rcases Keyed.mem_insert hp with rfl | hp
      · exact .inr (by simp [System.addLog])
      · exact .inl hp
  | createsQueue id =>
      refine ⟨fun p hp => .inl hp, ?_⟩
      intro p hp
      rcases Keyed.mem_insert hp with rfl | hp
      · exact .inr (by simp [System.addQueue])
      · exact .inl hp
  | subscribes hsubscribing htake =>
      obtain ⟨names, rfl⟩ := System.takeSubscriptions_eq htake
      exact ⟨fun p hp => .inl hp, fun p hp => .inl hp⟩
  | failsToSubscribe htake =>
      obtain ⟨names, rfl⟩ := System.takeSubscriptions_eq htake
      exact ⟨fun p hp => .inl hp, fun p hp => .inl hp⟩
  | startsDraining hdrains =>
      obtain ⟨queues, logs, scripts, rfl⟩ := hdrains.eq
      exact ⟨fun p hp => .inl hp, fun p hp => .inl hp⟩
  | receives hname hreceives =>
      obtain ⟨logs, scripts, rfl⟩ := hreceives.eq
      exact ⟨fun p hp => .inl hp, fun p hp => .inl hp⟩
  | _ => exact ⟨fun p hp => .inl hp, fun p hp => .inl hp⟩

omit [Storable V] in
theorem not_writing_of_isWork {frames : List (Frame V)} (h : ∀ frame ∈ frames, frame.isWork)
    {relay : Relay} {w : Write V} {stored : Option String} :
    .writing relay w stored ∉ frames :=
  fun hmem => by simpa [Frame.isWork] using h _ hmem

theorem Begins.writing {m : Machine V} {step : Step V} {s : System V} {pushed : List (Frame V)}
    {a : Answer V} (h : Begins m step s pushed a) {relay : Relay} {w : Write V}
    {stored : Option String} (hmem : .writing relay w stored ∈ pushed) :
    ∃ p ∈ m.system.relayNames, p.2 = relay := by
  have hawaits {h : Handle} {waiting : List (Frame V)} (hwaiting : m.Awaits step h waiting)
      (hmem : .writing relay w stored ∈ waiting) : ∃ p ∈ m.system.relayNames, p.2 = relay := by
    cases hwaiting with
    | relayed stored hwrite hname hhandle =>
        simp only [List.mem_cons, Frame.writing.injEq, List.not_mem_nil, or_false,
          reduceCtorEq] at hmem
        exact ⟨_, Keyed.mem_of_lookup? hname, hmem.1.symm⟩
    | _ => simp at hmem
  cases h with
  | operates hcall hwaiting houtcome =>
      rcases List.mem_append.mp hmem with hmem | hmem
      · obtain ⟨event, hevent⟩ := mem_deliveries hmem
        contradiction
      · exact hawaits hwaiting hmem
  | barred e hasked hwaiting => exact hawaits hwaiting hmem
  | startsDraining hdrains => exact absurd hmem (not_writing_of_isWork hdrains.isWork)
  | receives hname hreceives =>
      rcases List.mem_append.mp hmem with hmem | hmem
      · exact absurd hmem (not_writing_of_isWork hreceives.isWork)
      · simp at hmem
  | _ => simp [dropsOldStorage, dropsOldRelay, dropsOldSubscription] at hmem

omit [Storable V] in
theorem Continues.not_writing {m : Machine V} {top : Frame V} {b : Answer V} {s : System V}
    {pushed : List (Frame V)} {control : Control V} {warned : List (Entry V)}
    (h : Continues m top b s pushed control warned) {relay : Relay} {w : Write V}
    {stored : Option String} : .writing relay w stored ∉ pushed := by
  cases h with
  | calls b hrunning hreacts =>
      intro hmem
      rcases List.mem_append.mp hmem with hmem | hmem
      · exact not_writing_of_isWork hreacts.isWork hmem
      · simp at hmem
  | drains b hdrains => exact not_writing_of_isWork hdrains.isWork
  | _ => simp

theorem Effect.writing {m : Machine V} {s : System V} {pushed : List (Frame V)}
    {control : Control V} {warned : List (Entry V)} (h : Effect m s pushed control warned)
    {relay : Relay} {w : Write V} {stored : Option String}
    (hmem : .writing relay w stored ∈ pushed ++ m.below) :
    .writing relay w stored ∈ m.stack ∨ ∃ p ∈ m.system.relayNames, p.2 = relay := by
  rcases List.mem_append.mp hmem with hmem | hmem
  · cases h with
    | rests hrest hbelow => contradiction
    | begins hrun hbegins => exact .inr (hbegins.writing hmem)
    | continues hdone hstack hcontinues => exact absurd hmem hcontinues.not_writing
    | frees hdone hstack hfreeing hfrees =>
        have hfree := hfrees.isFreeing _ hmem
        contradiction
  · refine .inl ?_
    unfold below at hmem
    split at hmem
    · exact List.mem_of_mem_tail hmem
    · exact hmem

theorem Effect.addressed {m : Machine V} {s : System V} {pushed : List (Frame V)}
    {control : Control V} {warned : List (Entry V)} (h : Effect m s pushed control warned)
    (haddressed : Addressed m.system m.stack) : Addressed s (pushed ++ m.below) := by
  have hposts := h.posts
  obtain ⟨hlogs, hqueues⟩ := hposts.length_le
  have hrelay {relay : Relay} (hreaches : m.system.Reaches relay) : s.Reaches relay :=
    hreaches.mono hlogs hqueues
  have hwriting (relay : Relay) (w : Write V) (stored : Option String)
      (hmem : .writing relay w stored ∈ pushed ++ m.below) : s.Reaches relay := by
    rcases h.writing hmem with hold | ⟨p, hp, rfl⟩
    · exact hrelay (haddressed.writing relay w stored hold)
    · exact hrelay (haddressed.relays p hp)
  have hsame (hnames : SameNames m.system s) : Addressed s (pushed ++ m.below) := by
    refine ⟨?_, ?_, ?_, hwriting, hposts.notices haddressed⟩
    · rw [hnames.logs]
      exact fun p hp => Nat.lt_of_lt_of_le (haddressed.logNames p hp) hlogs
    · rw [hnames.queues]
      exact fun p hp => Nat.lt_of_lt_of_le (haddressed.queueNames p hp) hqueues
    · rw [hnames.relays]
      exact fun p hp => hrelay (haddressed.relays p hp)
  cases h with
  | rests hrest hbelow => exact hsame ⟨rfl, rfl, rfl, rfl⟩
  | continues hdone hstack hcontinues => exact hsame hcontinues.names
  | frees hdone hstack hfreeing hfrees => exact hsame hfrees.names
  | begins hrun hbegins =>
      obtain ⟨hlogNames, hqueueNames⟩ := hbegins.postNames
      refine ⟨?_, ?_, ?_, hwriting, hposts.notices haddressed⟩
      · intro p hp
        rcases hlogNames p hp with hp | hp
        · exact Nat.lt_of_lt_of_le (haddressed.logNames p hp) hlogs
        · exact hp
      · intro p hp
        rcases hqueueNames p hp with hp | hp
        · exact Nat.lt_of_lt_of_le (haddressed.queueNames p hp) hqueues
        · exact hp
      · intro p hp
        rcases hbegins.relayNames p hp with ⟨q, hq, hold⟩ | ⟨-, ⟨q, hq, hqueue⟩, hlistener⟩
        · exact hrelay (hold ▸ haddressed.relays q hq)
        · refine ⟨?_, ?_⟩
          · rw [← hqueue]
            exact Nat.lt_of_lt_of_le (haddressed.queueNames q hq) hqueues
          · intro log hlog
            obtain ⟨r, hr, rfl⟩ := hlistener log hlog
            exact Nat.lt_of_lt_of_le (haddressed.logNames r hr) hlogs

/-! ## Every course -/

/-- All relays that tell the log, by name or in a write, share the queue. -/
structure Shared (queue log : Nat) (m : Machine V) : Prop where
  writing : ∀ relay w stored, .writing relay w stored ∈ m.stack →
    relay.listener = .log log → relay.queue = queue
  others : ∀ q, q ≠ queue → noticesFor log (m.system.queue q) = []

theorem Orderly.shared {m : Machine V} (h : m.Orderly) {queue log : Nat}
    (hshared : m.Shared queue log)
    (hnames : ∀ p ∈ m.system.relayNames, p.2.listener = .log log → p.2.queue = queue) :
    m.advance.Shared queue log := by
  obtain ⟨pushed, warned, heffect, hstack, -⟩ := advance_becomes h
  refine ⟨?_, heffect.posts.others hshared.others hshared.writing⟩
  intro relay w stored hmem
  rw [hstack] at hmem
  rcases heffect.writing hmem with hold | ⟨p, hp, rfl⟩
  · exact hshared.writing relay w stored hold
  · exact hnames p hp

theorem queued_singleton (m : Machine V) (log : Nat) :
    queued log [m] = (m.succeeding m.advance.control).toList.filterMap fun (relay, w) =>
      noticeOf? log (relay, w, .ok) :=
  List.append_nil _

theorem Orderly.delivered {m : Machine V} (h : m.Orderly) {queue log : Nat}
    (haddressed : Addressed m.system m.stack) (hshared : m.Shared queue log) :
    noticesFor log (m.system.queue queue) ++ queued log [m] =
      Machine.delivered log [m] ++ noticesFor log (m.advance.system.queue queue) := by
  obtain ⟨pushed, warned, heffect, -⟩ := advance_becomes h
  have hlaw := heffect.posts.law haddressed hshared.others hshared.writing
  rw [queued_singleton, hlaw]
  simp only [Machine.delivered, List.flatMap_cons, List.flatMap_nil, List.append_nil, arriving]
  rfl

theorem delivered_append (log : Nat) (first second : List (Machine V)) :
    delivered log (first ++ second) = delivered log first ++ delivered log second :=
  List.flatMap_append

theorem queued_append (log : Nat) (first second : List (Machine V)) :
    queued log (first ++ second) = queued log first ++ queued log second :=
  List.flatMap_append

/-- What is kept while all relays that tell the log share the queue. -/
structure Ledger (queue log : Nat) (past : List (Machine V)) (m : Machine V) : Prop where
  addressed : Addressed m.system m.stack
  shared : m.Shared queue log
  balanced : delivered log past ++ noticesFor log (m.system.queue queue) = queued log past

theorem ledger_idle (queue log : Nat) : Ledger queue log [] (idle : Machine V) where
  addressed := by
    refine ⟨by simp [idle], by simp [idle], by simp [idle], by simp [idle], ?_⟩
    simp [idle, System.queue]
  shared := ⟨by simp [idle], by simp [idle, System.queue, noticesFor]⟩
  balanced := rfl

theorem Ledger.of_stack {queue log : Nat} {past : List (Machine V)} {m m' : Machine V}
    (h : Ledger queue log past m) (hsystem : m'.system = m.system)
    (hstack : ∀ relay w stored, .writing relay w stored ∈ m'.stack →
      .writing relay w stored ∈ m.stack) : Ledger queue log past m' where
  addressed := by
    rw [hsystem]
    exact ⟨h.addressed.logNames, h.addressed.queueNames, h.addressed.relays,
      fun relay w stored hmem => h.addressed.writing relay w stored (hstack relay w stored hmem),
      h.addressed.notices⟩
  shared := by
    refine ⟨fun relay w stored hmem => h.shared.writing relay w stored (hstack _ _ _ hmem), ?_⟩
    rw [hsystem]
    exact h.shared.others
  balanced := by
    rw [hsystem]
    exact h.balanced

theorem Ledger.advance {queue log : Nat} {past : List (Machine V)} {m : Machine V}
    (h : Ledger queue log past m) (horderly : m.Orderly)
    (hnames : ∀ p ∈ m.system.relayNames, p.2.listener = .log log → p.2.queue = queue) :
    Ledger queue log (past ++ [m]) m.advance where
  addressed := by
    obtain ⟨pushed, warned, heffect, hstack, -⟩ := advance_becomes horderly
    rw [hstack]
    exact heffect.addressed h.addressed
  shared := horderly.shared h.shared hnames
  balanced := by
    calc delivered log (past ++ [m]) ++ noticesFor log (m.advance.system.queue queue)
        = delivered log past ++
            (delivered log [m] ++ noticesFor log (m.advance.system.queue queue)) := by
          rw [delivered_append, List.append_assoc]
      _ = delivered log past ++
            (noticesFor log (m.system.queue queue) ++ queued log [m]) := by
          rw [horderly.delivered h.addressed h.shared]
      _ = queued log (past ++ [m]) := by
          rw [← List.append_assoc, h.balanced, queued_append]

theorem ledger_playAll (moves : List (Move V)) (queue log : Nat)
    (hshared : ∀ m ∈ idle.history moves, ∀ p ∈ m.system.relayNames,
      p.2.listener = .log log → p.2.queue = queue) :
    Ledger queue log (idle.history moves) (idle.playAll moves) := by
  have hledger : (∀ m ∈ idle.history moves, ∀ p ∈ m.system.relayNames,
      p.2.listener = .log log → p.2.queue = queue) →
      Ledger queue log (idle.history moves) (idle.playAll moves) := by
    apply orderly_induction (P := fun past m =>
      (∀ x ∈ past, ∀ p ∈ x.system.relayNames, p.2.listener = .log log → p.2.queue = queue) →
        Ledger queue log past m)
    · exact fun _ => ledger_idle queue log
    · intro past m step h hstack hpast
      exact (h hpast).of_stack rfl (by simp [start])
    · intro past m runner old left stack h hstack hpast
      exact (h hpast).of_stack rfl (by simp [hstack])
    · intro past m horderly h hpast
      have hbefore := h fun x hx => hpast x (List.mem_append_left _ hx)
      exact hbefore.advance horderly
        (hpast m (List.mem_append_right _ (List.mem_singleton_self m)))
  exact hledger hshared

end Machine

end TabRelay.Session
