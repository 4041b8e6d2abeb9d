import TabRelay.Proofs.Session.Delivering
import TabRelay.Proofs.Session.Detaching
import TabRelay.Proofs.Session.Sequential

/-!
# Visits that are still to come

A step that raises an event leaves a visit to each handler of the audience, and
each visit that is made is one of those that were left.  So the visits that a
session has made and those that it has left are the ones that were sent out.
They are made in the order in which they were sent, as long as nothing is sent
while another visit is still to come: a delivery that is nested overtakes the
ones that wait below it.
-/

namespace TabRelay.Session

open TabRelay.Decoding TabRelay.Storage
open scoped List

variable {V : Type}

namespace Frame

def awaited : Frame V → List (Event × Nat)
  | .delivery event left => left.map (event, ·)
  | _ => []

theorem awaited_of_isWork {frame : Frame V} (h : frame.isWork) : frame.awaited = [] := by
  cases frame <;> first | rfl | simp [isWork] at h

theorem awaited_of_isPassing {frame : Frame V} (h : frame.isPassing) : frame.awaited = [] := by
  cases frame <;> first | rfl | simp [isPassing, isFreeing] at h

theorem awaited_of_isFreeing {frame : Frame V} (h : frame.isFreeing) : frame.awaited = [] := by
  cases frame <;> first | rfl | simp [isFreeing] at h

theorem awaited_of_isSpent {frame : Frame V} (h : frame.isSpent) : frame.awaited = [] := by
  cases frame with
  | delivery event left => cases left <;> first | rfl | simp [isSpent] at h
  | _ => rfl

end Frame

/-- The visits that deliveries have left, those of the topmost one first. -/
def awaited (frames : List (Frame V)) : List (Event × Nat) := frames.flatMap (·.awaited)

theorem awaited_append (first second : List (Frame V)) :
    awaited (first ++ second) = awaited first ++ awaited second :=
  List.flatMap_append

theorem awaited_eq_nil {frames : List (Frame V)} (h : ∀ frame ∈ frames, frame.awaited = []) :
    awaited frames = [] :=
  List.flatMap_eq_nil_iff.mpr h

namespace Machine

variable [Storable V]

def sending (m : Machine V) : List (Event × Nat) :=
  match m.raising? with
  | none => []
  | some (event, area, writer) => (m.audience area writer).map fun s => (event, s.handler)

omit [Storable V] in
def visited (past : List (Machine V)) : List (Event × Nat) :=
  past.flatMap (·.visiting?.toList)

def sent (past : List (Machine V)) : List (Event × Nat) := past.flatMap (·.sending)

/-! ## One step -/

theorem raising?_of_call {m : Machine V} {call : Invocation}
    (hcall : m.invocation? = some call) :
    m.raising? = ((m.system.area call.handle.area).perform call.operation).raised.map fun event =>
      (event, call.handle.area, some call.handle.tab) := by
  obtain ⟨step, hrun, hasked, -⟩ := invocation?_eq_some hcall
  unfold raising?
  split
  · rename_i hdispatch
    rw [hrun] at hdispatch
    cases hdispatch
    contradiction
  · rw [hcall]
    rfl
  · rename_i hnone
    exact absurd hrun (hnone step)

omit [Storable V] in
theorem visiting?_of_run {m : Machine V} {step : Step V} (hrun : m.control = .run step) :
    m.visiting? = none := by
  simp [visiting?, hrun]

omit [Storable V] in
theorem visiting?_of_top {m : Machine V} {top : Frame V} {rest : List (Frame V)}
    (hstack : m.stack = top :: rest) (htop : ∀ event i left, top ≠ .delivery event (i :: left)) :
    m.visiting? = none := by
  cases hvisiting : m.visiting? with
  | none => rfl
  | some visit =>
      obtain ⟨b, left, below, hdone, hdelivery⟩ := visiting?_eq_some hvisiting
      rw [hstack] at hdelivery
      cases hdelivery
      exact absurd rfl (htop _ _ _)

theorem Begins.awaited {m : Machine V} {step : Step V} {s : System V} {pushed : List (Frame V)}
    {a : Answer V} (h : Begins m step s pushed a) (hrun : m.control = .run step)
    (hraising : m.raising? = none) : ∀ frame ∈ pushed, frame.awaited = [] := by
  intro frame hframe
  have hwaits {h : Handle} {waiting : List (Frame V)} (hwaiting : m.Awaits step h waiting)
      (hframe : frame ∈ waiting) : frame.awaited = [] := by
    refine Frame.awaited_of_isPassing ?_
    cases hwaiting <;> simp only [List.mem_cons, List.not_mem_nil, or_false] at hframe
    · rw [hframe]
      rfl
    · rcases hframe with rfl | rfl <;> rfl
  cases h with
  | @operates _ call waiting outcome hcall hwaiting houtcome =>
      have hnone : outcome.raised = none := by
        simpa [raising?_of_call hcall, houtcome] using hraising
      simp only [deliveries, hnone, Option.toList_none, List.map_nil, List.nil_append] at hframe
      exact hwaits hwaiting hframe
  | barred e hasked hwaiting => exact hwaits hwaiting hframe
  | dispatches hname => simp [raising?, hrun, hname] at hraising
  | startsDraining hdrains => exact Frame.awaited_of_isWork (hdrains.isWork frame hframe)
  | receives hname hreceives =>
      rcases List.mem_append.mp hframe with hframe | hframe
      · exact Frame.awaited_of_isWork (hreceives.isWork frame hframe)
      · rw [List.mem_singleton.mp hframe]
        rfl
  | _ =>
      simp only [dropsOldStorage, dropsOldRelay, dropsOldSubscription, List.mem_map,
        List.mem_singleton, List.not_mem_nil] at hframe <;>
        first
          | (rw [hframe]; rfl)
          | (obtain ⟨_, _, rfl⟩ := hframe; rfl)

omit [Storable V] in
theorem Continues.awaited {m : Machine V} {top : Frame V} {b : Answer V} {s : System V}
    {pushed rest : List (Frame V)} {control : Control V} {warned : List (Entry V)}
    (h : Continues m top b s pushed control warned) (hdone : m.control = .done b)
    (hstack : m.stack = top :: rest) :
    m.visiting?.toList ++ Session.awaited pushed = top.awaited := by
  cases h with
  | finishes b hspent =>
      rw [visiting?_of_top hstack, Frame.awaited_of_isSpent hspent]
      · rfl
      · rintro event i left rfl
        contradiction
  | @skips b event i left hrunning =>
      simp [visiting?, hdone, hstack, Session.awaited, Frame.awaited]
  | @calls b a event i left s frames hrunning hreacts =>
      have hnone := awaited_eq_nil fun frame hframe =>
        Frame.awaited_of_isWork (hreacts.isWork frame hframe)
      rw [awaited_append, hnone]
      simp [visiting?, hdone, hstack, Session.awaited, Frame.awaited]
  | drains b hdrains =>
      rw [visiting?_of_top hstack (by simp), awaited_eq_nil fun frame hframe =>
        Frame.awaited_of_isWork (hdrains.isWork frame hframe)]
      rfl
  | _ =>
      rw [visiting?_of_top hstack (by simp)]
      rfl

/-- The visit that is made and those that are left are those left before and those sent. -/
theorem Orderly.awaits {m : Machine V} (h : m.Orderly) :
    m.visiting?.toList ++ awaited m.advance.stack = m.sending ++ awaited m.stack := by
  cases hraising : m.raising? with
  | some raised =>
      obtain ⟨event, area, writer⟩ := raised
      obtain ⟨waiting, hwaiting, hstack⟩ := h.raises hraising
      have hrun : ∃ step, m.control = .run step := by
        cases hcontrol : m.control <;> first | exact ⟨_, rfl⟩ | simp [raising?, hcontrol] at hraising
      obtain ⟨step, hrun⟩ := hrun
      have hnone := awaited_eq_nil fun frame hframe =>
        Frame.awaited_of_isPassing (hwaiting frame hframe)
      have hsplit : awaited m.advance.stack =
          ((m.audience area writer).map (·.handler)).map (event, ·) ++ awaited waiting ++
            awaited m.stack := by
        rw [hstack, List.cons_append, List.append_assoc, ← awaited_append]
        rfl
      rw [visiting?_of_run hrun, hsplit, hnone, List.append_nil, List.map_map]
      simp only [sending, hraising]
      rfl
  | none =>
      obtain ⟨pushed, warned, heffect, hstack, -⟩ := advance_becomes h
      have hsending : m.sending = [] := by simp [sending, hraising]
      rw [hsending, List.nil_append, hstack, awaited_append]
      generalize m.advance.system = s at heffect
      generalize m.advance.control = control at heffect
      cases heffect with
      | rests hrest hbelow =>
          have hvisiting : m.visiting? = none := by
            cases hvisiting : m.visiting? with
            | none => rfl
            | some visit =>
                obtain ⟨b, left, rest, hdone, htop⟩ := visiting?_eq_some hvisiting
                rw [below_of_done hdone htop, htop] at hbelow
                simp at hbelow
          rw [hvisiting, hbelow]
          rfl
      | begins hrun hbegins =>
          rw [visiting?_of_run hrun, below_of_run hrun,
            awaited_eq_nil (hbegins.awaited hrun hraising)]
          rfl
      | continues hdone htop hcontinues =>
          rw [below_of_done hdone htop, htop, ← List.append_assoc, hcontinues.awaited hdone htop]
          rfl
      | @frees b top rest s pushed hdone htop hfreeing hfrees =>
          have hvisiting : m.visiting? = none := by
            refine visiting?_of_top htop ?_
            rintro event i left rfl
            contradiction
          have hpushed := awaited_eq_nil fun frame hframe =>
            Frame.awaited_of_isFreeing (hfrees.isFreeing frame hframe)
          have htopnone := Frame.awaited_of_isFreeing hfreeing
          rw [hvisiting, below_of_done hdone htop, htop, hpushed]
          simp [awaited, htopnone]

/-! ## Many steps -/

theorem awaited_begin (m : Machine V) (step : Step V) :
    awaited (m.play (.begin step)).stack = awaited m.stack := by
  simp only [play]
  split
  · rename_i a ha
    rw [(answer?_eq_some ha).1]
    rfl
  · rfl

theorem awaited_decide (m : Machine V) (left : List (Step V)) :
    awaited (m.play (.decide left)).stack = awaited m.stack := by
  simp only [play]
  split
  · rename_i runner old rest hstack
    rw [hstack]
    rfl
  · rfl

theorem Orderly.visits_all {m : Machine V} (h : m.Orderly) (moves : List (Move V)) :
    (visited (m.history moves) ++ awaited (m.playAll moves).stack).Perm
      (sent (m.history moves) ++ awaited m.stack) := by
  induction moves generalizing m with
  | nil => exact List.Perm.refl _
  | cons move moves ih =>
      have hrest := ih (h.play move)
      cases move with
      | begin step =>
          rw [awaited_begin] at hrest
          exact hrest
      | decide left =>
          rw [awaited_decide] at hrest
          exact hrest
      | advance =>
          have hstep := h.awaits
          simp only [history, visited, sent, List.flatMap_cons, List.append_assoc,
            playAll_cons] at hrest ⊢
          calc m.visiting?.toList ++ (visited (m.advance.history moves) ++
                awaited (m.advance.playAll moves).stack)
            _ ~ m.visiting?.toList ++ (sent (m.advance.history moves) ++
                awaited m.advance.stack) := hrest.append_left _
            _ ~ sent (m.advance.history moves) ++ (m.visiting?.toList ++
                awaited m.advance.stack) := List.perm_append_comm_assoc ..
            _ = sent (m.advance.history moves) ++ (m.sending ++ awaited m.stack) := by rw [hstep]
            _ ~ m.sending ++ (sent (m.advance.history moves) ++ awaited m.stack) :=
                List.perm_append_comm_assoc ..

omit [Storable V] in
theorem filter_nil_append {α : Type} {p : α → Bool} {first second : List α}
    (h : first.filter p ≠ [] → second.filter p = []) :
    first.filter p ++ second.filter p = second.filter p ++ first.filter p := by
  by_cases hfirst : first.filter p = []
  · rw [hfirst, List.append_nil, List.nil_append]
  · rw [h hfirst, List.append_nil, List.nil_append]

/-- Visits of one kind are made in the order in which they are sent, if none is sent while
another one is still to be made. -/
theorem Orderly.visits_in_order {m : Machine V} (h : m.Orderly) {p : Event × Nat → Bool}
    (moves : List (Move V))
    (halone : ∀ x ∈ m.history moves, x.sending.filter p ≠ [] → (awaited x.stack).filter p = []) :
    (visited (m.history moves) ++ awaited (m.playAll moves).stack).filter p =
      (awaited m.stack).filter p ++ (sent (m.history moves)).filter p := by
  induction moves generalizing m with
  | nil => simp [visited, sent]
  | cons move moves ih =>
      cases move with
      | begin step =>
          have hrest := ih (h.play (.begin step)) halone
          rwa [awaited_begin] at hrest
      | decide left =>
          have hrest := ih (h.play (.decide left)) halone
          rwa [awaited_decide] at hrest
      | advance =>
          have hrest := ih h.advance fun x hx => halone x (List.mem_cons_of_mem _ hx)
          have hstep := congrArg (List.filter p) h.awaits
          have hswap := filter_nil_append (halone m List.mem_cons_self)
          simp only [history, visited, sent, List.flatMap_cons, List.append_assoc, playAll_cons,
            List.filter_append, Machine.play] at hrest hstep ⊢
          rw [hrest, ← List.append_assoc, hstep, hswap, List.append_assoc]

/-! ## The audience -/

theorem isAlive_of_raising {m : Machine V} {event : Event} {area : Nat} {writer : Option Nat}
    (hraising : m.raising? = some (event, area, writer)) : m.isAlive area := by
  unfold raising? at hraising
  split at hraising
  · obtain ⟨handle, hname, hsame⟩ := Option.map_eq_some_iff.mp hraising
    cases hsame
    exact isAlive_of_named (.inl ⟨_, Keyed.mem_of_lookup? hname, rfl⟩)
  · obtain ⟨call, hcall, hmap⟩ := Option.bind_eq_some_iff.mp hraising
    obtain ⟨raised, hraised, hsame⟩ := Option.map_eq_some_iff.mp hmap
    cases hsame
    obtain ⟨step, hrun, hasked, -⟩ := invocation?_eq_some hcall
    exact isAlive_of_named (asked?_named hasked)
  · contradiction

theorem audience_eq (moves : List (Move V)) {event : Event} {area : Nat} {writer : Option Nat}
    (hraising : (idle.playAll moves).raising? = some (event, area, writer)) :
    (idle.playAll moves).audience area writer =
      (remaining (idle.history moves) (detached (idle.history moves)) area).filter fun s =>
        writer ≠ some s.tab := by
  rw [audience, subscribers_playAll moves area (isAlive_of_raising hraising)]

/-! ## Handlers that do nothing -/

omit [Storable V] in
def isBeginning (m : Machine V) : Bool :=
  match m.control with
  | .run _ => true
  | _ => false

omit [Storable V] in
def Rests (i : Nat) (past : List (Machine V)) : Prop :=
  ∀ m ∈ past, m.isRunning i → m.isBeginning = false

omit [Storable V] in
instance (i : Nat) (past : List (Machine V)) : Decidable (Rests i past) :=
  inferInstanceAs (Decidable (∀ m ∈ past, m.isRunning i → m.isBeginning = false))

theorem Orderly.rests {m : Machine V} (h : m.Orderly) {i : Nat}
    (hpairs : m.stack.Pairwise fun above below => below.turn? = some i → above.awaited = [])
    (hrests : m.isRunning i → m.isBeginning = false) :
    m.advance.stack.Pairwise fun above below => below.turn? = some i → above.awaited = [] := by
  obtain ⟨pushed, warned, heffect, hstack, -⟩ := advance_becomes h
  have hbelow : m.below <+ m.stack := by
    rcases m.below_eq with hbelow | ⟨b, hdone, hbelow⟩
    · exact hbelow ▸ List.Sublist.refl _
    · exact hbelow ▸ List.tail_sublist _
  have hidle (hnone : ∀ frame ∈ pushed, frame.awaited = []) :
      (pushed ++ m.below).Pairwise fun above below => below.turn? = some i →
        above.awaited = [] := by
    refine List.pairwise_append.mpr ⟨?_, hpairs.sublist hbelow, ?_⟩
    · exact List.pairwise_of_forall_mem_list fun above habove _ _ _ => hnone above habove
    · exact fun above habove _ _ _ => hnone above habove
  rw [hstack]
  generalize m.advance.system = s at heffect
  generalize m.advance.control = control at heffect
  cases heffect with
  | rests hrest hbelow => exact hidle (by simp)
  | begins hrun hbegins =>
      have hturns : ∀ frame ∈ pushed, frame.turn? = none :=
        List.filterMap_eq_nil_iff.mp hbegins.turns
      refine List.pairwise_append.mpr ⟨?_, hpairs.sublist hbelow, ?_⟩
      · refine List.pairwise_of_forall_mem_list fun above _ below hmem hturn => ?_
        rw [hturns below hmem] at hturn
        contradiction
      · intro above _ below hmem hturn
        have hrunning : m.isRunning i :=
          isRunning_iff.mpr (List.mem_filterMap.mpr ⟨below, hbelow.mem hmem, hturn⟩)
        simpa [isBeginning, hrun] using hrests hrunning
  | frees hdone htop hfreeing hfrees =>
      exact hidle fun frame hframe => Frame.awaited_of_isFreeing (hfrees.isFreeing frame hframe)
  | @continues b top rest s pushed control warned hdone htop hcontinues =>
      have hawaited := hcontinues.awaited hdone htop
      rw [below_of_done hdone htop] at hidle ⊢
      rw [htop, List.pairwise_cons] at hpairs
      by_cases hnone : top.awaited = []
      · rw [hnone] at hawaited
        exact hidle (List.flatMap_eq_nil_iff.mp (List.append_eq_nil_iff.mp hawaited).2)
      · refine List.pairwise_append.mpr ⟨?_, hpairs.2, ?_⟩
        · cases hcontinues with
          | calls b hrunning hreacts =>
              refine List.pairwise_append.mpr ⟨?_, by simp [Frame.turn?], ?_⟩
              · exact List.pairwise_of_forall_mem_list fun above habove _ _ _ =>
                  Frame.awaited_of_isWork (hreacts.isWork above habove)
              · exact fun above habove _ _ _ =>
                  Frame.awaited_of_isWork (hreacts.isWork above habove)
          | skips b hrunning => exact List.pairwise_singleton _ _
          | finishes b hspent => exact absurd (Frame.awaited_of_isSpent hspent) hnone
          | _ => exact absurd rfl hnone
        · exact fun above _ below hmem hturn => absurd (hpairs.1 below hmem hturn) hnone

theorem not_running_of_rests (moves : List (Move V)) {i : Nat} {event : Event}
    (hrests : Rests i (idle.history moves))
    (hvisiting : (idle.playAll moves).visiting? = some (event, i)) :
    (idle.playAll moves).isRunning i = false := by
  have hcourse : Rests i (idle.history moves) → (idle.playAll moves).stack.Pairwise
      fun above below => below.turn? = some i → above.awaited = [] := by
    apply orderly_induction (P := fun past m => Rests i past → m.stack.Pairwise
      fun above below => below.turn? = some i → above.awaited = [])
    · exact fun _ => .nil
    · exact fun past m step h hstack hpast => .nil
    · intro past m runner old left stack h hstack hpast
      have hpairs := h hpast
      rw [hstack] at hpairs
      exact List.pairwise_cons.mpr ⟨fun below _ _ => rfl, (List.pairwise_cons.mp hpairs).2⟩
    · intro past m horderly h hpast
      have hpairs := h fun x hx => hpast x (List.mem_append_left _ hx)
      have hrest := hpast m (List.mem_append_right _ List.mem_cons_self)
      exact horderly.rests hpairs hrest
  obtain ⟨b, left, rest, hdone, hstack⟩ := visiting?_eq_some hvisiting
  have hpairs := hcourse hrests
  rw [Bool.eq_false_iff]
  intro hrunning
  rw [isRunning_iff, hstack] at hrunning
  obtain ⟨frame, hframe, hturn⟩ := List.mem_filterMap.mp hrunning
  rw [hstack, List.pairwise_cons] at hpairs
  rcases List.mem_cons.mp hframe with rfl | hframe
  · contradiction
  · have hnone := hpairs.1 frame hframe hturn
    simp [Frame.awaited] at hnone

end Machine

end TabRelay.Session
