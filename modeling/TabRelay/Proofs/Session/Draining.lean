import TabRelay.Proofs.Session.Deferring
import TabRelay.Proofs.Session.Effort

/-!
# Every deferred task is run once, first in first out

What was deferred to a queue is at every moment what was started from it and what
is left in it, in this order, however the calls that drain it are nested.  Such a
call returns when nothing is left.  It does so in the end if finitely many tasks
are deferred and each of them leads to finitely many steps.
-/

namespace TabRelay.Session

open TabRelay.Storage

variable {V : Type}

namespace Machine

/-! ## Many moves -/

theorem filterMap_cons_toList {α β : Type} (f : α → Option β) (a : α) (l : List α) :
    (a :: l).filterMap f = (f a).toList ++ l.filterMap f := by
  cases h : f a <;> simp [h]

theorem deferred_cons (queue : Nat) (m : Machine V) (past : List (Machine V)) :
    deferred queue (m :: past) = (ofQueue queue m.deferring?).toList ++ deferred queue past :=
  filterMap_cons_toList ..

theorem started_cons (queue : Nat) (m : Machine V) (past : List (Machine V)) :
    started queue (m :: past) = (ofQueue queue m.starting?).toList ++ started queue past :=
  filterMap_cons_toList ..

variable [Storable V]

theorem counts_cons (queue : Nat) (m : Machine V) (past : List (Machine V)) :
    counts queue (m :: past) = (ofQueue queue m.counting?).toList ++ counts queue past :=
  filterMap_cons_toList ..

theorem startedBelow_begin (m : Machine V) (step : Step V) (queue : Nat) :
    startedBelow queue (m.play (.begin step)).stack = startedBelow queue m.stack := by
  simp only [play]
  split
  · rename_i a ha
    rw [(answer?_eq_some ha).1]
    rfl
  · rfl

theorem startedBelow_decide (m : Machine V) (left : List (Step V)) (queue : Nat) :
    startedBelow queue (m.play (.decide left)).stack = startedBelow queue m.stack := by
  simp only [play]
  split
  · rename_i runner old rest hstack
    rw [hstack]
    rfl
  · rfl

theorem addressed_play {m : Machine V} (horderly : m.Orderly)
    (h : Addressed m.system m.stack) (move : Move V) :
    Addressed (m.play move).system (m.play move).stack := by
  cases move with
  | begin step =>
      simp only [play]
      split
      · exact addressed_of_stack h (by simp [start])
      · exact h
  | decide left =>
      simp only [play]
      split
      · rename_i runner old rest hstack
        exact addressed_of_stack h (by simp [hstack])
      · exact h
  | advance =>
      obtain ⟨pushed, warned, heffect, hstack, -⟩ := advance_becomes horderly
      rw [play, hstack]
      exact heffect.addressed h

theorem Orderly.balances_all {m : Machine V} (h : m.Orderly) (haddressed : Addressed m.system m.stack)
    (queue : Nat) (moves : List (Move V)) :
    m.system.queue queue ++ deferred queue (m.history moves) =
        started queue (m.history moves) ++ (m.playAll moves).system.queue queue ∧
      startedBelow queue m.stack + (started queue (m.history moves)).length =
        startedBelow queue (m.playAll moves).stack + (counts queue (m.history moves)).sum := by
  induction moves generalizing m with
  | nil => exact ⟨List.append_nil _, rfl⟩
  | cons move moves ih =>
      obtain ⟨hqueue, hcount⟩ := ih (h.play move) (addressed_play h haddressed move)
      cases move with
      | begin step =>
          rw [system_begin] at hqueue
          rw [startedBelow_begin] at hcount
          exact ⟨hqueue, hcount⟩
      | decide left =>
          rw [system_decide] at hqueue
          rw [startedBelow_decide] at hcount
          exact ⟨hqueue, hcount⟩
      | advance =>
          obtain ⟨hstep, hsteps⟩ := h.balances haddressed queue
          have hnext : m.play .advance = m.advance := rfl
          rw [hnext] at hqueue hcount
          simp only [history, playAll_cons, hnext, deferred_cons, started_cons, counts_cons,
            List.length_append, List.sum_append]
          refine ⟨?_, by omega⟩
          rw [← List.append_assoc, hstep, List.append_assoc, hqueue, List.append_assoc]

/-! ## A call that drains a queue -/

inductive Draining (queue : Nat) (base : List (Frame V)) (m : Machine V) : Prop where
  | waits (above : List (Frame V)) (started : Nat)
      (hstack : m.stack = above ++ .drain queue started :: base)
  | returns (n : Nat) (hstack : m.stack = base) (hqueue : m.system.queue queue = [])
      (hdone : m.control = .done (.count n))

omit [Storable V] in
theorem Draining.settled {queue : Nat} {base : List (Frame V)} {m : Machine V} {a : Answer V}
    (h : m.Draining queue base) (hsettled : m.settled? base.length = some a) :
    m.stack = base ∧ m.system.queue queue = [] ∧ ∃ n, a = .count n := by
  obtain ⟨hdone, hlength⟩ := settled?_eq_some hsettled
  cases h with
  | waits above started hstack =>
      rw [hstack, List.length_append, List.length_cons] at hlength
      omega
  | returns n hstack hqueue hcount =>
      rw [hcount] at hdone
      cases hdone
      exact ⟨hstack, hqueue, n, rfl⟩

theorem Orderly.draining_advance {m : Machine V} (h : m.Orderly) {queue started : Nat}
    (hdraining : m.draining? = some (queue, started)) : m.advance.Draining queue m.below := by
  rcases h.drains hdraining with ⟨hqueue, -, -, hadvance⟩ | ⟨task, tasks, -, -, -, hadvance⟩
  · exact .returns started (hadvance ▸ rfl) (hadvance ▸ hqueue) (hadvance ▸ rfl)
  · have hpushed : ((m.beneath.update (m.system.setQueue queue tasks)).push
        (.drain queue (started + 1))).Unheld :=
      Unheld.push ((h.unheld_beneath hdraining).of_stack rfl) (by simp [Frame.isDisposing])
    obtain ⟨frames, hstack, -⟩ := runTask_above hpushed task
    exact .waits frames (started + 1) (hadvance ▸ hstack)

theorem Draining.advance {queue : Nat} {base : List (Frame V)} {m : Machine V}
    (h : m.Draining queue base) (horderly : m.Orderly)
    (hunsettled : m.settled? base.length = none) : m.advance.Draining queue base := by
  cases h with
  | returns n hstack hqueue hdone => simp [settled?, hdone, hstack] at hunsettled
  | waits above started hstack =>
      obtain ⟨pushed, warned, heffect, hpushed, -⟩ := advance_becomes horderly
      rcases m.below_eq with hbelow | ⟨b, hdone, hbelow⟩
      · refine .waits (pushed ++ above) started ?_
        rw [hpushed, hbelow, hstack, List.append_assoc]
      · cases above with
        | nil =>
            have hdraining : m.draining? = some (queue, started) := by
              simp [draining?, hdone, hstack]
            have hnext := horderly.draining_advance hdraining
            rw [hbelow, hstack] at hnext
            exact hnext
        | cons top above =>
            refine .waits (pushed ++ above) started ?_
            rw [hpushed, hbelow, hstack, List.append_assoc]
            rfl

theorem Draining.play {queue : Nat} {base : List (Frame V)} {m : Machine V}
    (h : m.Draining queue base) (horderly : m.Orderly)
    (hunsettled : m.settled? base.length = none) (move : Move V) :
    (m.play move).Draining queue base := by
  cases move with
  | begin step =>
      rw [play_begin_of_unsettled hunsettled]
      exact h
  | advance => exact h.advance horderly hunsettled
  | decide left =>
      simp only [Machine.play]
      split
      · rename_i runner old rest hscript
        cases h with
        | returns n hstack hqueue hdone => simp [settled?, hdone, hstack] at hunsettled
        | waits above started hstack =>
            rw [hscript] at hstack
            cases above with
            | nil => simp at hstack
            | cons top above =>
                exact .waits (.script runner left :: above) started
                  (congrArg _ (List.cons.inj hstack).2)
      · exact h

theorem Orderly.draining_ends {m : Machine V} (h : m.Orderly) {queue started : Nat}
    (hdraining : m.draining? = some (queue, started)) {later : List (Move V)} {a : Answer V}
    (hends : m.advance.EndsFrom m.below.length a later) :
    (m.advance.playAll later).stack = m.below ∧
      (m.advance.playAll later).system.queue queue = [] ∧ ∃ n, a = .count n := by
  obtain ⟨⟨-, hlast⟩, hsettled, -⟩ := hends.keeps
    (P := fun x => x.Orderly ∧ x.Draining queue m.below) (R := fun _ => True)
    (fun x move hx hunsettled _ => ⟨hx.1.play move, hx.2.play hx.1 hunsettled move⟩)
    (fun _ _ => trivial) ⟨h.advance, h.draining_advance hdraining⟩
  exact hlast.settled hsettled

/-! ## Every task once -/

/-- What holds when a call that drains a queue is over: everything that was in the queue, and
everything that was deferred meanwhile, was started once and in this order. -/
structure Drained (m : Machine V) (queue : Nat) (later : List (Move V)) (a : Answer V) : Prop where
  answer : ∃ n, a = .count n
  empty : (m.playAll (.advance :: later)).system.queue queue = []
  inOrder : started queue (m.history (.advance :: later)) =
    m.system.queue queue ++ deferred queue (m.history (.advance :: later))
  counted : (counts queue (m.history (.advance :: later))).sum =
    (started queue (m.history (.advance :: later))).length

/-- What a queue does with its tasks in a session. -/
structure RunsInOrder (queue : Nat) (moves : List (Move V)) : Prop where
  law : ∀ m ∈ idle.history moves, m.TaskLaw
  inOrder : deferred queue (idle.history moves) =
    started queue (idle.history moves) ++ (idle.playAll moves).system.queue queue
  counted : (counts queue (idle.history moves)).sum + startedBelow queue (idle.playAll moves).stack =
    (started queue (idle.history moves)).length
  drained : ∀ name, (idle.playAll moves).control = .run (.runPending name) →
    Keyed.lookup? name (idle.playAll moves).system.queueNames = some queue →
    ∀ later a, (idle.playAll moves).Ends later a → (idle.playAll moves).Drained queue later a
  ends : ∀ name, (idle.playAll moves).control = .run (.runPending name) →
    Keyed.lookup? name (idle.playAll moves).system.queueNames = some queue →
    ∀ tasks steps, ∃ bound, ∀ later,
      (deferred queue ((idle.playAll moves).history (.advance :: later))).length ≤ tasks →
      begun ((idle.playAll moves).advance.history later) ≤
        steps * (started queue ((idle.playAll moves).history (.advance :: later))).length →
      bound ≤ ((idle.playAll moves).history (.advance :: later)).length →
      ∃ earlier a, earlier <+: later ∧ (idle.playAll moves).Ends earlier a

theorem Orderly.drained {m : Machine V} (h : m.Orderly) (haddressed : Addressed m.system m.stack)
    {name : String} {queue : Nat} (hrun : m.control = .run (.runPending name))
    (hname : Keyed.lookup? name m.system.queueNames = some queue) {later : List (Move V)}
    {a : Answer V} (hends : m.Ends later a) : m.Drained queue later a := by
  have hdraining : m.draining? = some (queue, 0) := by simp [draining?, hrun, hname]
  obtain ⟨hqueue, hcount⟩ := h.balances_all haddressed queue (.advance :: later)
  rw [Machine.Ends, ← below_of_run hrun] at hends
  obtain ⟨hstack, hempty, hanswer⟩ := h.draining_ends hdraining hends
  have hlast : m.playAll (.advance :: later) = m.advance.playAll later := rfl
  rw [hlast, hempty, List.append_nil] at hqueue
  rw [hlast, hstack, below_of_run hrun] at hcount
  exact ⟨hanswer, hempty, hqueue.symm, by omega⟩

theorem exists_endsFrom_of_begun (before : List (Move V)) (depth limit : Nat) :
    ∃ bound, ∀ later, begun ((idle.playAll before).history later) ≤ limit →
      bound ≤ ((idle.playAll before).history later).length →
      ∃ earlier a, earlier <+: later ∧ (idle.playAll before).EndsFrom depth a earlier := by
  refine ⟨(idle.playAll before).work +
    limit * (12 + 6 * ((idle.playAll before).system.breadth + 2 * limit)) + 1, ?_⟩
  intro later hlimit hbound
  cases hreturned : (idle.playAll before).returned? depth later with
  | some a =>
      obtain ⟨earlier, hprefix, hends⟩ := exists_endsFrom_of_returned hreturned
      exact ⟨earlier, a, hprefix, hends⟩
  | none =>
      have hwork := (work_playAll before later hreturned hlimit).1
      have hspent := Nat.mul_le_mul_right
        (12 + 6 * ((idle.playAll before).system.breadth + 2 * limit)) hlimit
      omega

/--
Tasks are started in the order in which they were deferred, each of them once and none by
being deferred, whatever they do and however the calls that drain the queue are nested; and
these calls come to their end, with an empty queue.
-/
theorem tasks_run_once_in_order (moves : List (Move V)) (queue : Nat) :
    RunsInOrder queue moves := by
  have hnone : (idle : Machine V).system.queue queue = [] := by simp [idle, System.queue]
  obtain ⟨hqueue, hcount⟩ := (orderly_playAll []).balances_all (addressed_playAll []) queue moves
  have horderly := orderly_playAll moves
  have haddressed := addressed_playAll moves
  refine ⟨?_, ?_, ?_, ?_, ?_⟩
  · intro m hm
    obtain ⟨earlier, rest, -, rfl⟩ := mem_history hm
    exact (orderly_playAll earlier).taskLaw
  · simpa [hnone] using hqueue
  · have hstack : startedBelow queue (idle : Machine V).stack = 0 := rfl
    rw [playAll_nil, hstack] at hcount
    omega
  · intro name hrun hname later a hends
    exact horderly.drained haddressed hrun hname hends
  · intro name hrun hname tasks steps
    obtain ⟨bound, hbound⟩ := exists_endsFrom_of_begun (moves ++ [.advance]) (idle.playAll moves).stack.length
      (steps * (((idle.playAll moves).system.queue queue).length + tasks))
    have hafter : idle.playAll (moves ++ [.advance]) = (idle.playAll moves).advance :=
      playAll_append _ _ _
    rw [hafter] at hbound
    refine ⟨bound + 1, fun later hdeferred hbegun hlong => ?_⟩
    have hbalance := (horderly.balances_all haddressed queue (.advance :: later)).1
    have hlength := congrArg List.length hbalance
    rw [List.length_append, List.length_append] at hlength
    have hstarted : (started queue ((idle.playAll moves).history (.advance :: later))).length ≤
        ((idle.playAll moves).system.queue queue).length + tasks := by omega
    exact hbound later (hbegun.trans (Nat.mul_le_mul_left steps hstarted))
      (Nat.le_of_succ_le_succ hlong)

/-- The first task drains the queue itself, and so does one that is deferred meanwhile. -/
def nestedDrains : List (Move Draft) :=
  inTurn [(.newQueue "q", 1),
      (.defer "q" "a" [.runPending "q", .defer "q" "d" []], 1),
      (.defer "q" "b" [.defer "q" "c" [.runPending "q"]], 1)] ++
    [.begin (.runPending "q")]

theorem nested_drains_share_the_tasks :
    (idle.playAll nestedDrains).Drained 0 (List.replicate 20 .advance) (.count 2) ∧
      (started 0 ((idle.playAll nestedDrains).history (List.replicate 21 .advance))).map
        (·.name?) = ["a", "b", "c", "d"] ∧
      counts 0 ((idle.playAll nestedDrains).history (List.replicate 21 .advance)) = [0, 2, 2] :=
  ⟨(tasks_run_once_in_order nestedDrains 0).drained "q" rfl (by decide) _ _ (by decide),
    by decide, by decide⟩

end Machine

end TabRelay.Session
