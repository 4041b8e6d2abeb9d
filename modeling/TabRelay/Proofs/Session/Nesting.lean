import Mathlib.Algebra.GroupWithZero.Nat
import Mathlib.Algebra.Order.BigOperators.Group.List
import Mathlib.Algebra.Order.Group.Nat
import TabRelay.Proofs.Session.Borrowing
import TabRelay.Proofs.Session.Ending
import TabRelay.Proofs.Session.Tame

/-!
# Nested deliveries come to an end

Handlers may trigger one another in cycles, but a handler that is running is passed
over.  So a visit costs at most the steps of one handler, each of which visits the
others with one handler less that can be called.  Every advance lowers what is left
of these costs, as long as all steps are tame.
-/

namespace TabRelay.Session

open TabRelay.Storage

variable {V : Type}

/-! ## What is left to do -/

/-- So many handlers can be called, and a call runs at most so many steps. -/
structure Extent where
  handlers : Nat
  steps : Nat

namespace Extent

def visitCost (e : Extent) : Nat → Nat
  | 0 => 1
  | free + 1 => 6 + e.steps * (7 + e.handlers * e.visitCost free + 2)

def stepCost (e : Extent) (free : Nat) : Nat := 7 + e.handlers * e.visitCost free

theorem visitCost_succ (e : Extent) (free : Nat) :
    e.visitCost (free + 1) = 6 + e.steps * (e.stepCost free + 2) := rfl

theorem visitCost_pos (e : Extent) (free : Nat) : 0 < e.visitCost free := by
  cases free with
  | zero => exact Nat.zero_lt_one
  | succ free => rw [visitCost_succ]; omega

end Extent

/-- At least the number of advances until the frame and all that it leads to are gone. -/
def Frame.cost (e : Extent) (free : Nat) : Frame V → Nat
  | .script _ left => 1 + left.length * (e.stepCost free + 2)
  | .delivery _ left => 1 + left.length * e.visitCost free
  | .nested _ _ | .forwarding | .drain _ _ => 1
  | .turn _ => 3
  | .keep _ | .held _ | .writing _ _ _ => 2
  | .release left => 1 + left.length
  | .drop left => 1 + 5 * left.length

def Reaction.load : Reaction V → Nat
  | .script _ own => 1 + 5 * own.length
  | .forward _ => 2

def Handler.load (handler : Handler V) : Nat :=
  if handler.freed then 0 else handler.reaction.load

/-- What a system may add to the work: handlers that are freed, subscribers that are let go,
and tasks. -/
def System.load (s : System V) : Nat :=
  (s.handlers.map (·.load)).sum + s.subscribed.length + (s.queues.map List.length).sum

def System.extent (s : System V) : Extent where
  handlers := s.subscribed.length
  steps := (s.subscribed.map fun i => (s.body i).length).sum

namespace Extent

variable (e : Extent)

def free (frames : List (Frame V)) : Nat := e.handlers - (turns frames).length

def cost : List (Frame V) → Nat
  | [] => 0
  | frame :: rest => frame.cost e (e.free rest) + cost rest

def remaining (control : Control V) (above : List (Frame V)) (s : System V) : Nat :=
  match control with
  | .run _ => e.stepCost (e.free above) + e.cost above + s.load
  | _ => e.cost above + s.load

theorem free_append {pushed rest : List (Frame V)} (h : turns pushed = []) :
    e.free (pushed ++ rest) = e.free rest := by
  rw [free, Machine.turns_append, h, List.nil_append, free]

theorem cost_append {pushed rest : List (Frame V)} (h : turns pushed = []) :
    e.cost (pushed ++ rest) = (pushed.map (Frame.cost e (e.free rest))).sum + e.cost rest := by
  induction pushed with
  | nil => simp
  | cons frame pushed ih =>
      have hpushed : turns pushed = [] := by
        refine List.filterMap_eq_nil_iff.mpr fun other hother => ?_
        exact List.filterMap_eq_nil_iff.mp h other (List.mem_cons_of_mem _ hother)
      simp only [List.cons_append, cost, e.free_append hpushed, ih hpushed, List.map_cons,
        List.sum_cons]
      omega

end Extent

theorem Frame.cost_pos (e : Extent) (free : Nat) (frame : Frame V) : 0 < frame.cost e free := by
  cases frame <;> simp only [cost] <;> omega

theorem Reaction.cost_owned (e : Extent) (free : Nat) (reaction : Reaction V) :
    reaction.owned.cost e free = reaction.load := by
  cases reaction <;> rfl

/-! ## What a system may add -/

section

variable {α : Type} {f : α → Nat}

theorem sum_map_set {l : List α} {i : Nat} {a : α} (b : α) (h : l[i]? = some a) :
    ((l.set i b).map f).sum + f a = (l.map f).sum + f b := by
  induction l generalizing i with
  | nil => simp at h
  | cons head rest ih =>
      cases i with
      | zero =>
          cases h
          simp only [List.set_cons_zero, List.map_cons, List.sum_cons]
          omega
      | succ i =>
          have hrest := ih h
          simp only [List.set_cons_succ, List.map_cons, List.sum_cons]
          omega

end

section

variable {s s' : System V}

theorem load_le {drained : Nat → Bool} (h : Kept drained s s')
    (hhandlers : s'.handlers = s.handlers) (hqueues : s'.queues = s.queues) : s'.load ≤ s.load := by
  have hsubscribed := h.subscribed.length_le
  simp only [System.load, hhandlers, hqueues]
  omega

theorem queue_eq_some {s : System V} {queue : Nat} {task : Task V} {tasks : List (Task V)}
    (h : s.queue queue = task :: tasks) : s.queues[queue]? = some (task :: tasks) := by
  cases hqueue : s.queues[queue]? with
  | none => simp [System.queue, hqueue] at h
  | some found => simpa [System.queue, hqueue] using h

theorem load_setQueue {queue : Nat} {task : Task V} {tasks : List (Task V)}
    (h : s.queue queue = task :: tasks) : (s.setQueue queue tasks).load + 1 = s.load := by
  have hsum := sum_map_set (f := List.length) tasks (queue_eq_some h)
  simp only [System.load, System.setQueue, System.subscribed, List.length_cons] at hsum ⊢
  omega

theorem load_defer (queue : Nat) (task : Task V) : (s.defer queue task).load ≤ s.load + 1 := by
  by_cases hqueue : queue < s.queues.length
  · have hfound : s.queues[queue]? = some (s.queue queue) := by simp [System.queue, hqueue]
    have hsum := sum_map_set (f := List.length) (s.queue queue ++ [task]) hfound
    simp only [System.load, System.defer, System.setQueue, System.subscribed,
      List.length_append, List.length_singleton] at hsum ⊢
    omega
  · simp only [System.defer, System.setQueue, List.set_eq_of_length_le (Nat.le_of_not_lt hqueue)]
    exact Nat.le_succ _

theorem load_setHandler {i : Nat} {handler : Handler V} (changed : Handler V)
    (h : s.handlers[i]? = some handler) :
    (s.setHandler i changed).load + handler.load = s.load + changed.load := by
  have hsum := sum_map_set (f := fun handler : Handler V => handler.load) changed h
  simp only [System.load, System.setHandler, System.subscribed] at hsum ⊢
  omega

end

/-! ## Every advance lowers what is left -/

theorem Reacts.cost_le {s s' : System V} {i : Nat} {event : Event} {frames : List (Frame V)}
    {a : Answer V} (h : Reacts s i event s' frames a) {e : Extent} (free : Nat)
    (hsteps : (s.body i).length ≤ e.steps) :
    (frames.map (Frame.cost e free)).sum ≤ 2 + e.steps * (e.stepCost free + 2) := by
  obtain ⟨scripts, more, rfl, hmore, hscripts⟩ := h.frames
  have hrun : (scripts.map (Frame.cost e free)).sum ≤ 1 + e.steps * (e.stepCost free + 2) := by
    rcases hscripts with rfl | ⟨name, left, rfl, hleft⟩
    · simp
    · have hlength := Nat.mul_le_mul_right (e.stepCost free + 2) (hleft.length_le.trans hsteps)
      simp only [List.map_cons, List.map_nil, List.sum_cons, List.sum_nil, Frame.cost]
      omega
  have hforwards : (more.map (Frame.cost e free)).sum ≤ 1 := by
    rcases hmore with rfl | rfl <;> simp [Frame.cost]
  simp only [List.map_append, List.sum_append]
  omega

theorem Reacts.load_eq {s s' : System V} {i : Nat} {event : Event} {frames : List (Frame V)}
    {a : Answer V} (h : Reacts s i event s' frames a) : s'.load = s.load := by
  cases h with
  | missing hhandler => rfl
  | @script handler script own hhandler hreaction =>
      have hset := load_setHandler { handler with reaction := .script script.next.2 own } hhandler
      have hsame : Handler.load { handler with reaction := .script script.next.2 own } =
          handler.load := by
        simp only [Handler.load, hreaction, Reaction.load]
      omega
  | forward hhandler hreaction hreceives =>
      obtain ⟨logs, scripts, rfl⟩ := hreceives.eq
      rfl

theorem Drains.remaining_lt {s s' : System V} {queue started : Nat} {frames : List (Frame V)}
    {a : Answer V} (h : Drains s queue started s' frames a)
    (hqueue : ∀ task ∈ s.queue queue, ¬task.runsScript) (e : Extent) (free : Nat) :
    (frames.map (Frame.cost e free)).sum + s'.load < 1 + s.load := by
  rcases h.frames hqueue with ⟨rfl, rfl⟩ | ⟨rfl, task, tasks, hnext, logs, rfl⟩
  · simp
  · have hset := load_setQueue hnext
    have hsame : ({ s.setQueue queue tasks with logs } : System V).load =
        (s.setQueue queue tasks).load := rfl
    simp only [List.map_cons, List.map_nil, List.sum_cons, List.sum_nil, Frame.cost, hsame]
    omega

namespace Machine

variable {drained : Nat → Bool}

theorem cost_awaits [Storable V] {m : Machine V} {step : Step V} {handle : Handle}
    {waiting : List (Frame V)} (h : m.Awaits step handle waiting) (e : Extent) (free : Nat) :
    (waiting.map (Frame.cost e free)).sum ≤ 4 := by
  cases h <;> simp [Frame.cost]

theorem cost_keeps {α : Type} (found : Option α) (area : α → Nat) (e : Extent) (free : Nat) :
    ((found.toList.map fun a => (.keep (area a) : Frame V)).map (Frame.cost e free)).sum ≤ 6 := by
  cases found <;> simp [Frame.cost]

theorem cost_deliveries {outcome : Outcome Area} {tab : Nat} {e : Extent} (free : Nat)
    (h : (outcome.area.recipients (some tab)).length ≤ e.handlers) :
    ((deliveries outcome tab : List (Frame V)).map (Frame.cost e free)).sum ≤
      1 + e.handlers * e.visitCost free := by
  have hvisits := Nat.mul_le_mul_right (e.visitCost free) h
  simp only [deliveries]
  cases outcome.raised with
  | none => simp
  | some event =>
      simp only [Option.toList_some, List.map_cons, List.map_nil, List.sum_cons, List.sum_nil,
        Frame.cost]
      omega

theorem Begins.cost_lt [Storable V] {m : Machine V} {step : Step V} {s : System V}
    {pushed : List (Frame V)} {a : Answer V} (h : Begins m step s pushed a)
    (htame : Tame drained m.system) (hstep : step.isTame m.system drained) {e : Extent}
    (hhandlers : m.system.subscribed.length ≤ e.handlers) (free : Nat) :
    (pushed.map (Frame.cost e free)).sum + s.load < e.stepCost free + m.system.load := by
  have hkept := h.kept hstep
  have hless {frames : List (Frame V)} {s' : System V}
      (hcost : (frames.map (Frame.cost e free)).sum ≤ 6 + e.handlers * e.visitCost free)
      (hload : s'.load ≤ m.system.load) :
      (frames.map (Frame.cost e free)).sum + s'.load < e.stepCost free + m.system.load := by
    rw [Extent.stepCost]
    omega
  have hrecipients (i : Nat) (writer : Option Nat) :
      ((m.system.area i).recipients writer).length ≤ e.handlers :=
    (recipients_sublist m.system i writer).length_le.trans hhandlers
  cases h with
  | @operates step call waiting outcome hcall hwaiting houtcome =>
      refine hless ?_ (load_le hkept rfl rfl)
      have hwaits := cost_awaits hwaiting e free
      have hcount : (outcome.area.recipients (some call.handle.tab)).length ≤ e.handlers := by
        rw [Area.recipients, ← houtcome, subscribers_perform]
        exact hrecipients call.handle.area (some call.handle.tab)
      have hdeliveries := cost_deliveries (V := V) free hcount
      rw [List.map_append, List.sum_append]
      omega
  | barred error hasked hwaiting =>
      have hwaits := cost_awaits hwaiting e free
      exact hless (by omega) (Nat.le_refl _)
  | @dispatches storage h event hname =>
      refine hless ?_ (Nat.le_refl _)
      have hcost := Nat.mul_le_mul_right (e.visitCost free) (hrecipients h.area none)
      simp only [List.map_cons, List.map_nil, List.sum_cons, List.sum_nil, Frame.cost]
      omega
  | startsDraining hdrains hname =>
      rw [Step.isTame, hname] at hstep
      have hdrained := hdrains.remaining_lt (htame.queues _ hstep) e free
      rw [Extent.stepCost]
      omega
  | subscribes hsubscribing htake => contradiction
  | failsToSubscribe htake => contradiction
  | listens hsubscribing hname => contradiction
  | createsQueue id => contradiction
  | defers => contradiction
  | receives hname hreceives => contradiction
  | _ =>
      refine hless ?_ (load_le hkept rfl rfl)
      first
        | exact (cost_keeps _ _ e free).trans (Nat.le_add_right _ _)
        | (simp only [List.map_cons, List.map_nil, List.sum_cons, List.sum_nil, Frame.cost,
            List.length_singleton]; omega)

theorem Begins.remaining_lt [Storable V] {m : Machine V} {step : Step V} {s : System V}
    {pushed above : List (Frame V)} {a : Answer V} (h : Begins m step s pushed a)
    (htame : Tame drained m.system) (hstep : step.isTame m.system drained) {e : Extent}
    (hhandlers : m.system.subscribed.length ≤ e.handlers) :
    e.remaining (.done a) (pushed ++ above) s < e.remaining (.run step) above m.system := by
  have hcost := h.cost_lt htame hstep hhandlers (e.free above)
  simp only [Extent.remaining, e.cost_append h.turns]
  omega

theorem Continues.remaining_lt {m : Machine V} {top : Frame V} {b : Answer V} {s : System V}
    {pushed rest : List (Frame V)} {control : Control V} {warned : List (Entry V)}
    (h : Continues m top b s pushed control warned) {start : System V} (htame : Tame drained start)
    (hkept : Kept drained start m.system) (htop : top.isTame start drained) {e : Extent}
    (hfree : ∀ event i left, top = .delivery event (i :: left) → m.isRunning i = false →
      (turns rest).length < e.handlers)
    (hsteps : ∀ i ∈ start.subscribed, (start.body i).length ≤ e.steps) :
    e.remaining control (pushed ++ rest) s < e.remaining (.done b) (top :: rest) m.system := by
  have hpositive := top.cost_pos e (e.free rest)
  cases h with
  | runsStep b runner step left =>
      have hsame : e.free (.nested runner step.name :: .script runner left :: rest) =
          e.free rest := rfl
      simp only [Extent.remaining, Extent.cost, List.cons_append, List.nil_append, hsame,
        Frame.cost, List.length_cons, Nat.add_mul, Nat.one_mul]
      omega
  | @skips b event i left hrunning =>
      have hvisit := e.visitCost_pos (e.free rest)
      simp only [Extent.remaining, Extent.cost, List.cons_append, List.nil_append,
        Frame.cost, List.length_cons, Nat.add_mul, Nat.one_mul]
      omega
  | @calls b a event i left s frames hrunning hreacts =>
      have hi : i ∈ start.subscribed := List.Subperm.subset htop List.mem_cons_self
      -- One handler less can be called by the steps that this one runs.
      have hone : e.free rest = e.free (.turn i :: .delivery event left :: rest) + 1 := by
        have hlt := hfree event i left rfl hrunning
        have hturns : turns (.turn i :: .delivery event left :: rest) = i :: turns rest := rfl
        rw [Extent.free, Extent.free, hturns, List.length_cons]
        omega
      have hcall := hreacts.cost_le (e.free (.turn i :: .delivery event left :: rest))
        (hkept.bodies i ▸ hsteps i hi)
      have hvisit := e.visitCost_succ (e.free (.turn i :: .delivery event left :: rest))
      have hload := hreacts.load_eq
      have hpushed : frames ++ [.turn i, .delivery event left] ++ rest =
          frames ++ .turn i :: .delivery event left :: rest := List.append_assoc ..
      rw [← hone] at hvisit
      simp only [Extent.remaining, hpushed, e.cost_append (turns_of_isWork hreacts.isWork),
        Extent.cost, Frame.cost, List.length_cons, Nat.add_mul, Nat.one_mul] at hcall hvisit ⊢
      omega
  | endsTurn b i =>
      simp only [Extent.remaining, Extent.cost, List.cons_append, List.nil_append, Frame.cost,
        List.length_singleton]
      omega
  | writeEnds relay w stored hb =>
      have hload := load_defer (s := m.system) relay.queue
        (.notice relay.listener (.committed w.key w.value))
      simp only [Extent.remaining, Extent.cost, List.nil_append, Frame.cost]
      omega
  | drains b hdrains =>
      have hless := hdrains.remaining_lt ((htame.kept hkept).queues _ htop) e (e.free rest)
      simp only [Extent.remaining, e.cost_append (turns_of_isWork hdrains.isWork), Extent.cost,
        Frame.cost]
      omega
  | _ =>
      simp only [Extent.remaining, Extent.cost, List.nil_append]
      omega

theorem Frees.cost_lt {m : Machine V} {top : Frame V} {s : System V} {pushed : List (Frame V)}
    (h : Frees m top s pushed) (hlives : ∀ i ∈ top.mentions, m.system.Lives i) (e : Extent)
    (free : Nat) :
    (pushed.map (Frame.cost e free)).sum + s.load < top.cost e free + m.system.load := by
  have hpositive := top.cost_pos e free
  have hkept : Kept (fun _ => true) m.system s := h.kept
  cases h with
  | pops hmore halive => simpa using hpositive
  | @reaps top i hkeeps hdead =>
      have htwo : top.cost e free = 2 := by
        cases top <;> first | rfl | contradiction
      have hlength := (subscribed_reap m.system i).length_eq
      rw [htwo]
      simp only [System.load, System.setArea, List.map_cons, List.map_nil, List.sum_cons,
        List.sum_nil, Frame.cost, List.append_nil, List.length_append, List.length_map] at hlength ⊢
      omega
  | letsGo i left =>
      simp only [List.map_cons, List.map_nil, List.sum_cons, List.sum_nil, Frame.cost,
        List.length_cons]
      omega
  | @frees i left handler hreferred hhandler =>
      obtain ⟨found, hfound, halive⟩ := hlives i List.mem_cons_self
      rw [hhandler] at hfound
      cases hfound
      have hset := load_setHandler { handler with freed := true } hhandler
      have hnow : handler.load = handler.reaction.load := by simp [Handler.load, halive]
      have hthen : Handler.load { handler with freed := true } = 0 := by simp [Handler.load]
      simp only [List.map_cons, List.map_nil, List.sum_cons, List.sum_nil, Reaction.cost_owned]
      simp only [Frame.cost, List.length_cons]
      omega
  | leaves hleaves =>
      simp only [List.map_cons, List.map_nil, List.sum_cons, List.sum_nil, Frame.cost,
        List.length_cons]
      omega
  | detaches halive hheld hfound =>
      have hload := load_le hkept rfl rfl
      simp only [List.map_cons, List.map_nil, List.sum_cons, List.sum_nil, Frame.cost,
        List.length_cons, List.length_nil]
      omega

theorem Frees.remaining_lt {m : Machine V} {top : Frame V} {s : System V}
    {pushed rest : List (Frame V)} (h : Frees m top s pushed)
    (hlives : ∀ i ∈ top.mentions, m.system.Lives i) (b : Answer V) (e : Extent) :
    e.remaining (.done b) (pushed ++ rest) s < e.remaining (.done b) (top :: rest) m.system := by
  have hcost := h.cost_lt hlives e (e.free rest)
  simp only [Extent.remaining, e.cost_append h.turns, Extent.cost]
  omega

/-! ## Every tame step comes to an end -/

variable [Storable V]

omit [Storable V] in
theorem steps_le_extent {s : System V} {i : Nat} (hi : i ∈ s.subscribed) :
    (s.body i).length ≤ s.extent.steps :=
  List.le_sum_of_mem (List.mem_map_of_mem (f := fun i => (s.body i).length) hi)

/-- The machine is in the middle of a step that began at `start`; the frames above are of
that step. -/
structure Nested (drained : Nat → Bool) (start : Machine V) (above : List (Frame V))
    (m : Machine V) : Prop where
  reached : ∃ moves, m = idle.playAll moves
  stack : m.stack = above ++ start.stack
  kept : Kept drained start.system m.system
  frames : ∀ frame ∈ above, frame.isTame start.system drained
  running : ∀ step, m.control = .run step → step.isTame start.system drained

theorem Nested.turns_subperm {start m : Machine V} {above : List (Frame V)}
    (h : Nested drained start above m) : (turns above).Subperm start.system.subscribed := by
  obtain ⟨moves, rfl⟩ := h.reached
  have honce := (visitLaw_playAll moves).once
  rw [h.stack, turns_append] at honce
  refine List.subperm_of_subset (List.nodup_append.mp honce).1 fun i hi => ?_
  obtain ⟨frame, hframe, hturn⟩ := List.mem_filterMap.mp hi
  have htame := h.frames frame hframe
  cases frame with
  | turn j =>
      cases hturn
      exact htame
  | _ => contradiction

theorem Nested.turns_lt {start m : Machine V} {event : Event} {i : Nat} {left : List Nat}
    {rest : List (Frame V)} (h : Nested drained start (.delivery event (i :: left) :: rest) m)
    (hrunning : m.isRunning i = false) :
    (turns rest).length < start.system.subscribed.length := by
  obtain ⟨moves, hreached⟩ := h.reached
  have honce := (visitLaw_playAll moves).once
  rw [← hreached, h.stack, turns_append] at honce
  have hidle : i ∉ turns rest := by
    intro hi
    have hmem : m.isRunning i := by
      rw [isRunning_iff, h.stack, turns_append]
      exact List.mem_append_left _ hi
    simp [hrunning] at hmem
  have hi : i ∈ start.system.subscribed :=
    List.Subperm.subset (h.frames _ List.mem_cons_self) List.mem_cons_self
  have hmore : (i :: turns rest).Subperm start.system.subscribed :=
    List.subperm_of_subset (List.nodup_cons.mpr ⟨hidle, (List.nodup_append.mp honce).1⟩)
      (List.cons_subset.mpr ⟨hi, h.turns_subperm.subset⟩)
  exact hmore.length_le

theorem Nested.advance {start m : Machine V} {above : List (Frame V)}
    (h : Nested drained start above m) (htame : Tame drained start.system)
    (hunsettled : m.settled? start.stack.length = none) :
    ∃ next, Nested drained start next m.advance ∧
      start.system.extent.remaining m.advance.control next m.advance.system <
        start.system.extent.remaining m.control above m.system := by
  obtain ⟨moves, hreached⟩ := h.reached
  have hgoes : ∃ moves, m.advance = idle.playAll moves :=
    ⟨moves ++ [.advance], by rw [playAll_append, ← hreached]; rfl⟩
  have horderly : m.Orderly := hreached ▸ orderly_playAll moves
  have hcustody : Custody m.system m.stack := hreached ▸ custody_playAll moves
  have hstops : ¬m.Stops := hreached ▸ never_stops moves
  obtain ⟨pushed, warned, heffect, hstack, -⟩ := advance_becomes horderly
  cases hcontrol : m.control with
  | conflict cell => exact absurd ⟨cell, hcontrol⟩ hstops
  | run step =>
      have hstep := h.running step hcontrol
      have hnow : step.isTame m.system drained := (h.kept.isTame step).trans hstep
      have hless : m.system.subscribed.length ≤ start.system.extent.handlers :=
        h.kept.subscribed.length_le
      obtain ⟨a, hdone, hbegins⟩ := heffect.of_run hcontrol
      refine ⟨pushed ++ above, ⟨hgoes, ?_, h.kept.trans (hbegins.kept hnow), ?_, ?_⟩, ?_⟩
      · rw [hstack, below_of_run hcontrol, h.stack, List.append_assoc]
      · exact List.forall_mem_append.mpr ⟨hbegins.tames htame h.kept hstep, h.frames⟩
      · intro other hother
        simp [hdone] at hother
      · rw [hdone]
        exact hbegins.remaining_lt (htame.kept h.kept) hnow hless
  | done b =>
      cases above with
      | nil => simp [settled?, hcontrol, h.stack] at hunsettled
      | cons top rest =>
          have hbelow : m.below = rest ++ start.stack := below_of_done hcontrol h.stack
          have htop : top.isTame start.system drained := h.frames top List.mem_cons_self
          have hrest : ∀ frame ∈ rest, frame.isTame start.system drained :=
            fun frame hframe => h.frames frame (List.mem_cons_of_mem _ hframe)
          have hframes : pushed ++ m.below = pushed ++ rest ++ start.stack := by
            rw [hbelow, List.append_assoc]
          rcases heffect.of_done hcontrol h.stack with hcontinues | ⟨-, hfrees, hdone⟩
          · obtain ⟨htames, hrunning⟩ := hcontinues.tames htame h.kept htop
            refine ⟨pushed ++ rest, ⟨hgoes, hstack.trans hframes,
              h.kept.trans (hcontinues.kept htop), List.forall_mem_append.mpr ⟨htames, hrest⟩,
              hrunning⟩, ?_⟩
            refine hcontinues.remaining_lt htame h.kept htop ?_ fun i => steps_le_extent
            rintro event i left rfl hrunning
            exact h.turns_lt hrunning
          · refine ⟨pushed ++ rest, ⟨hgoes, hstack.trans hframes, h.kept.trans hfrees.kept,
              List.forall_mem_append.mpr ⟨hfrees.tames, hrest⟩, ?_⟩, ?_⟩
            · intro step hrun
              simp [hdone] at hrun
            · rw [hdone]
              exact hfrees.remaining_lt (hcustody.mentioned top (by simp [h.stack])) b _

/--
While nothing new is subscribed, every step comes to an end, whatever the handlers do and
however they trigger one another; and the calls that it leads to are never nested deeper than
the number of handlers that were subscribed when it began.
-/
theorem nested_delivery_ends (before : List (Move V)) (drained : Nat → Bool) {step : Step V}
    (hrun : (idle.playAll before).control = .run step)
    (hstep : step.isTame (idle.playAll before).system drained)
    (htame : Tame drained (idle.playAll before).system) :
    ∃ n a, (idle.playAll before).Ends (List.replicate n .advance) a ∧
      ∀ k ≤ n + 1, (turns ((idle.playAll before).advances k).stack).length ≤
        (turns (idle.playAll before).stack).length +
          (idle.playAll before).system.subscribed.length := by
  have hbegins : Nested drained (idle.playAll before) [] (idle.playAll before) := by
    refine ⟨⟨before, rfl⟩, rfl, .refl _, by simp, ?_⟩
    intro other hother
    rw [hrun] at hother
    cases hother
    exact hstep
  generalize idle.playAll before = start at *
  have hadvance (n : Nat) (m : Machine V)
      (h : ∃ above, Nested drained start above m ∧
        start.system.extent.remaining m.control above m.system = n)
      (hunsettled : m.settled? start.stack.length = none) :
      ∃ less < n, ∃ above, Nested drained start above m.advance ∧
        start.system.extent.remaining m.advance.control above m.advance.system = less := by
    obtain ⟨above, hnested, rfl⟩ := h
    obtain ⟨next, hnext, hless⟩ := hnested.advance htame hunsettled
    exact ⟨_, hless, next, hnext, rfl⟩
  obtain ⟨last, a, hends, hall⟩ := exists_endsFrom hadvance ⟨[], hbegins, rfl⟩
  cases last with
  | zero =>
      have hdone := (settled?_eq_some hends).1
      rw [hrun] at hdone
      contradiction
  | succ n =>
      refine ⟨n, a, hends.2, fun k hk => ?_⟩
      obtain ⟨left, above, hnested, -⟩ := hall k hk
      rw [hnested.stack, turns_append, List.length_append]
      have hlength := hnested.turns_subperm.length_le
      omega

/-- Two handlers that trigger each other; the second one writes through a relay whose queue
it drains.  The tab of the second one is about to write. -/
def cyclicHandlers : List (Move Draft) :=
  inTurn [(.new "a" .localArea, 1), (.openTab "b" "a", 1), (.newLog "l", 1), (.newQueue "q", 1),
      (.relayToLog "r" "a" "q" "l", 1),
      (.subscribe "b" "s" [.set "b" "k" "2", .dispatch "b" (.ok ⟨none, none, none, none⟩)] none [],
        2),
      (.subscribe "a" "t" [.write "r" (.remove "k"), .runPending "q"] none [], 2)] ++
    [.begin (.set "a" "k" "1")]

theorem cyclic_handlers_end :
    ∃ n a, (idle.playAll cyclicHandlers).Ends (List.replicate n .advance) a ∧
      ∀ k ≤ n + 1, (turns ((idle.playAll cyclicHandlers).advances k).stack).length ≤ 2 := by
  have htame : Tame (· == 0) (idle.playAll cyclicHandlers).system := by
    refine ⟨by decide +kernel, by decide +kernel, fun queue hdrained => ?_⟩
    rw [eq_of_beq hdrained]
    decide +kernel
  exact nested_delivery_ends cyclicHandlers (· == 0) rfl (by decide +kernel) htame

end Machine

end TabRelay.Session
