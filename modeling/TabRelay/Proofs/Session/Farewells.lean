import Mathlib.Data.List.Induction
import TabRelay.Proofs.Session.Borrowing
import TabRelay.Proofs.Session.Grounded
import TabRelay.Session.Draft

/-!
# What handlers do when they are freed

What a handler owns may do something of its own when it is dropped.  So a handler that is
freed says farewell: before the subscriptions or the relay that it owns are dropped it runs
a script, and the script may do anything.  If the drop of a subscription frees the handler,
the area of the subscription is borrowed meanwhile, and a farewell that needs this area
meets the loan.  Nothing else meets one.
-/

namespace TabRelay.Session

open TabRelay.Decoding TabRelay.Storage

variable {V : Type}

/-- What a farewell comes back to: so many frames, and the answer that was on its way. -/
structure Farewell (V : Type) where
  depth : Nat
  answer : Answer V

/-- A machine, and the farewells that are in progress, the latest one first. -/
structure Parting (V : Type) where
  machine : Machine V
  farewells : List (Farewell V)

namespace Machine

/-- The answer that is on its way when the machine frees a handler. -/
def freeing? (m : Machine V) : Option (Answer V) :=
  match m.control, m.stack with
  | .done a, .release (i :: _) :: _ =>
      if m.beneath.isReferred i || m.system.handlers[i]?.isNone then none else some a
  | _, _ => none

def Lodged (m : Machine V) : Prop :=
  ∀ cell, .held cell ∈ m.stack → ∃ i < m.system.areas.length, cell = .area i

theorem isHeld_iff {m : Machine V} {cell : Cell} : m.isHeld cell ↔ .held cell ∈ m.stack := by
  simp only [isHeld, List.any_eq_true]
  constructor
  · rintro ⟨frame, hframe, hcell⟩
    cases frame with
    | held other => rwa [← of_decide_eq_true hcell]
    | _ => contradiction
  · exact fun hheld => ⟨_, hheld, decide_eq_true rfl⟩

end Machine

namespace Parting

open Machine (InOrder)

/-! ## Sessions with farewells -/

def idle : Parting V := ⟨.idle, []⟩

def depth (p : Parting V) : Nat := p.farewells.head?.elim 0 (·.depth)

def ending? (p : Parting V) : Option (Farewell V) :=
  match p.machine.control with
  | .done _ => p.farewells.head?.filter fun farewell => p.machine.stack.length = farewell.depth
  | _ => none

/-- Advance the machine.  A handler that is freed begins its farewell, without any steps yet. -/
def goOn [Storable V] (p : Parting V) : Parting V :=
  let m := p.machine.advance
  match p.machine.freeing? with
  | none => { p with machine := m }
  | some a => ⟨m.push (.script "" []), ⟨m.stack.length, a⟩ :: p.farewells⟩

def advance [Storable V] (p : Parting V) : Parting V :=
  match p.ending? with
  | some farewell =>
      ⟨{ p.machine with control := .done farewell.answer }, p.farewells.tail⟩
  | none => p.goOn

def play [Storable V] (p : Parting V) : Move V → Parting V
  | .advance => p.advance
  | move => { p with machine := p.machine.play move }

def playAll [Storable V] (p : Parting V) (moves : List (Move V)) : Parting V := moves.foldl play p

/-! ## What is lent meanwhile -/

def Stops (p : Parting V) : Prop := p.machine.Stops

def above (p : Parting V) : List (Frame V) :=
  p.machine.stack.take (p.machine.stack.length - p.depth)

def beneath (p : Parting V) : List (Frame V) :=
  p.machine.stack.drop (p.machine.stack.length - p.depth)

def loans (p : Parting V) : List Loan := p.machine.loans

/-- The loans that last as long as the latest farewell. -/
def lent (p : Parting V) : List Loan := p.beneath.filterMap Frame.loan?

def touches [Storable V] (p : Parting V) : List Touch :=
  match p.ending? with
  | some _ => []
  | none => p.machine.touches

/-- What is borrowed next is lent already. -/
def Invades [Storable V] (p : Parting V) : Prop :=
  ∃ loan, .borrow loan ∈ p.touches ∧ ∃ other ∈ p.lent, loan.conflicts other

/-! ## The stack of a session with farewells -/

/-- The frames above those that wait for a farewell are in order. -/
inductive Segmented : List (Frame V) → List (Farewell V) → Prop where
  | whole {stack : List (Frame V)} (h : InOrder stack) : Segmented stack []
  | parted {top base : List (Frame V)} {farewell : Farewell V} {earlier : List (Farewell V)}
      (htop : InOrder top) (hdepth : base.length = farewell.depth)
      (hbase : Segmented base earlier) : Segmented (top ++ base) (farewell :: earlier)

theorem Segmented.split {stack : List (Frame V)} {farewells : List (Farewell V)}
    (h : Segmented stack farewells) :
    ∃ top base, stack = top ++ base ∧ InOrder top ∧
      base.length = farewells.head?.elim 0 (·.depth) ∧
      ∀ top', InOrder top' → Segmented (top' ++ base) farewells := by
  cases h with
  | whole h => exact ⟨stack, [], by simp, h, rfl, fun top' h' => by simpa using .whole h'⟩
  | parted htop hdepth hbase => exact ⟨_, _, rfl, htop, hdepth, fun _ h' => .parted h' hdepth hbase⟩

structure Orderly (p : Parting V) : Prop where
  segmented : Segmented p.machine.stack p.farewells
  running : ∀ step, p.machine.control = .run step → ∀ frame ∈ p.above, ¬frame.isDisposing
  lodged : p.machine.Lodged

theorem stack_eq (p : Parting V) : p.machine.stack = p.above ++ p.beneath :=
  (List.take_append_drop _ _).symm

theorem above_of_append {p : Parting V} {top base : List (Frame V)}
    (hstack : p.machine.stack = top ++ base) (hdepth : base.length = p.depth) :
    p.above = top ∧ p.beneath = base := by
  rw [above, beneath, hstack, List.length_append, hdepth, Nat.add_sub_cancel]
  exact ⟨List.take_left, List.drop_left⟩

theorem Orderly.split {p : Parting V} (h : p.Orderly) :
    p.beneath.length = p.depth ∧ Machine.Orderly { p.machine with stack := p.above } ∧
      ∀ top, InOrder top → Segmented (top ++ p.beneath) p.farewells := by
  obtain ⟨top, base, hstack, hinorder, hdepth, hreplace⟩ := h.segmented.split
  obtain ⟨habove, hbeneath⟩ := above_of_append hstack hdepth
  exact ⟨hbeneath ▸ hdepth, ⟨habove ▸ hinorder, h.running⟩, hbeneath ▸ hreplace⟩

theorem ending?_eq_some {p : Parting V} {farewell : Farewell V}
    (h : p.ending? = some farewell) :
    ∃ b, p.machine.control = .done b ∧ p.farewells = farewell :: p.farewells.tail ∧
      p.machine.stack.length = farewell.depth := by
  unfold ending? at h
  split at h
  · rename_i b hdone
    obtain ⟨hhead, hlength⟩ := Option.filter_eq_some_iff.mp h
    exact ⟨b, hdone, List.eq_cons_of_mem_head? hhead, of_decide_eq_true hlength⟩
  · contradiction

theorem Orderly.beneath_eq_nil {p : Parting V} (h : p.Orderly) {b : Answer V}
    (hending : p.ending? = none) (hdone : p.machine.control = .done b) (habove : p.above = []) :
    p.beneath = [] := by
  have hdepth := h.split.1
  have hstack := p.stack_eq
  rw [habove, List.nil_append] at hstack
  cases hfarewells : p.farewells with
  | nil =>
      have hnone : p.depth = 0 := by rw [depth, hfarewells]; rfl
      rw [← List.length_eq_zero_iff, hdepth, hnone]
  | cons farewell earlier =>
      have hsame : p.depth = farewell.depth := by rw [depth, hfarewells]; rfl
      simp [ending?, hdone, hfarewells, Option.filter, hstack, hdepth, hsame] at hending

theorem lent_sublist (p : Parting V) : p.lent.Sublist p.loans :=
  (List.drop_sublist _ _).filterMap _

theorem Orderly.owes {p : Parting V} (h : p.Orderly) (hending : p.ending? = none) :
    p.machine.Owes p.lent := by
  obtain ⟨hdepth, horderly, -⟩ := h.split
  have hstack := p.stack_eq
  have hloans (hnone : p.above.filterMap Frame.loan? = []) : p.machine.loans = p.lent := by
    rw [Machine.loans, hstack, List.filterMap_append, hnone]
    rfl
  constructor
  · intro step hrun
    exact hloans (horderly.owes.running step hrun)
  · intro b frame rest hdone hframe hwork
    cases habove : p.above with
    | nil =>
        rw [habove, h.beneath_eq_nil hending hdone habove] at hstack
        rw [hstack] at hframe
        contradiction
    | cons frame' left =>
        rw [hstack, habove, List.cons_append, List.cons.injEq] at hframe
        exact hloans (horderly.owes.working b frame left hdone (by rw [habove, hframe.1]) hwork)

end Parting

namespace Machine

variable [Storable V]

theorem Owes.meets {m : Machine V} {lent : List Loan} (h : m.Owes lent)
    (hmeets : m.Meets m.touches) :
    ∃ loan, .borrow loan ∈ m.touches ∧ ∃ other ∈ lent, loan.conflicts other := by
  have hlent (hloans : m.loans = lent) :
      ∃ loan, .borrow loan ∈ m.touches ∧ ∃ other ∈ lent, loan.conflicts other := by
    obtain ⟨loan, hloan, hheld⟩ := hmeets
    exact ⟨loan, hloan, _, hloans ▸ mem_loans_of_isHeld hheld, by simp [Loan.conflicts]⟩
  cases hcontrol : m.control with
  | run step => exact hlent (h.running step hcontrol)
  | conflict cell => simp [touches, hcontrol] at hmeets
  | done b =>
      cases hstack : m.stack with
      | nil => simp [touches, hcontrol, hstack] at hmeets
      | cons frame rest =>
          by_cases hfreeing : frame.isFreeing
          · exact absurd hmeets (not_meets_of_isFreeing hcontrol hstack hfreeing)
          · exact hlent (h.working b frame rest hcontrol hstack hfreeing)

theorem Effect.held {m : Machine V} {s : System V} {pushed : List (Frame V)}
    {control : Control V} {warned : List (Entry V)} (h : Effect m s pushed control warned)
    {cell : Cell} (hcell : .held cell ∈ pushed) :
    ∃ sub left rest, m.stack = .drop (sub :: left) :: rest ∧ cell = .area sub.area ∧
      sub.area < m.system.areas.length := by
  have hnone (hlends : ∀ frame ∈ pushed, frame.loan? = none) : False := by
    have hloan := hlends _ hcell
    contradiction
  cases h with
  | rests hrest hbelow => contradiction
  | begins hrun hbegins => exact (hnone hbegins.lends).elim
  | continues hdone hstack hcontinues => exact (hnone hcontinues.lends).elim
  | frees hdone hstack hfreeing hfrees =>
      cases hfrees with
      | @frees i left handler hreferred hhandler =>
          refine (hnone ?_).elim
          intro frame hframe
          simp only [List.mem_cons, List.not_mem_nil, or_false] at hframe
          rcases hframe with rfl | rfl
          · cases handler.reaction <;> rfl
          · rfl
      | @detaches sub left subscriber halive hheld hfound =>
          simp only [List.mem_cons, List.not_mem_nil, or_false, reduceCtorEq, false_or,
            Frame.held.injEq] at hcell
          refine ⟨sub, left, _, hstack, hcell, ?_⟩
          by_contra hlength
          rw [System.area_of_length_le (Nat.le_of_not_lt hlength)] at hfound
          contradiction
      | _ => simp at hcell

theorem Becomes.lodged {m m' : Machine V} (h : m.Becomes m') (hlodged : m.Lodged) :
    m'.Lodged := by
  obtain ⟨pushed, warned, heffect, hstack, -⟩ := h
  have hlength := heffect.alters.length_le
  intro cell hcell
  rw [hstack] at hcell
  rcases List.mem_append.mp hcell with hcell | hcell
  · obtain ⟨sub, left, rest, -, rfl, hsub⟩ := heffect.held hcell
    exact ⟨sub.area, lt_of_lt_of_le hsub hlength, rfl⟩
  · obtain ⟨i, hi, rfl⟩ := hlodged cell (m.below_suffix.subset hcell)
    exact ⟨i, lt_of_lt_of_le hi hlength, rfl⟩

end Machine

namespace Parting

open Machine (InOrder)

variable [Storable V]

/-! ## One advance -/

theorem touches_of_ending {p : Parting V} (hending : p.ending? = none) :
    p.touches = p.machine.touches := by
  rw [touches, hending]

theorem Orderly.meets_iff {p : Parting V} (h : p.Orderly) (hending : p.ending? = none) :
    p.machine.Meets p.machine.touches ↔ p.Invades := by
  rw [Invades, touches_of_ending hending]
  constructor
  · exact (h.owes hending).meets
  · rintro ⟨loan, hloan, other, hother, hconflict⟩
    simp only [Loan.conflicts, Bool.and_eq_true, decide_eq_true_eq] at hconflict
    exact ⟨loan, hloan, hconflict.1 ▸ (Machine.mem_loans (p.lent_sublist.subset hother)).1⟩

theorem not_invades_of_ending {p : Parting V} {farewell : Farewell V}
    (hending : p.ending? = some farewell) : ¬p.Invades := by
  rintro ⟨loan, hloan, -⟩
  rw [touches, hending] at hloan
  contradiction

theorem advance_of_ending {p : Parting V} {farewell : Farewell V}
    (hending : p.ending? = some farewell) :
    p.advance = ⟨{ p.machine with control := .done farewell.answer }, p.farewells.tail⟩ := by
  rw [advance, hending]

theorem advance_of_not_ending {p : Parting V} (hending : p.ending? = none) :
    p.advance = p.goOn := by
  rw [advance, hending]

theorem goOn_machine (p : Parting V) :
    p.goOn.machine.control = p.machine.advance.control ∧
      p.goOn.machine.loans = p.machine.advance.loans := by
  unfold goOn
  cases p.machine.freeing? <;> exact ⟨rfl, rfl⟩

/-- A parting stops exactly where a farewell borrows what is lent. -/
theorem Orderly.stops_advance {p : Parting V} (h : p.Orderly) (hgoes : ¬p.Stops) :
    p.advance.Stops ↔ p.Invades := by
  cases hending : p.ending? with
  | some farewell =>
      refine iff_of_false ?_ (not_invades_of_ending hending)
      rw [advance_of_ending hending]
      rintro ⟨cell, hcell⟩
      contradiction
  | none =>
      have hnew : ∀ step, p.machine.control = .run step →
          p.machine.isHeld (.area p.machine.system.areas.length) = false := by
        intro step hrun
        by_contra hheld
        obtain ⟨i, hi, hcell⟩ := h.lodged _ (Machine.isHeld_iff.mp (by simpa using hheld))
        cases hcell
        exact Nat.lt_irrefl _ hi
      have hstops : p.goOn.Stops ↔ p.machine.advance.Stops := by
        rw [Stops, Machine.Stops, p.goOn_machine.1]
        rfl
      rw [advance_of_not_ending hending, hstops, Machine.stops_advance hnew,
        or_iff_right (show ¬p.machine.Stops from hgoes), h.meets_iff hending]

theorem Orderly.replay_touches {p : Parting V} (h : p.Orderly) (hclear : ¬p.Invades) :
    replay p.lent p.loans p.touches = some p.advance.loans := by
  cases hending : p.ending? with
  | some farewell =>
      rw [touches, hending, advance_of_ending hending]
      rfl
  | none =>
      rw [← h.meets_iff hending] at hclear
      rw [advance_of_not_ending hending, touches_of_ending hending, loans, loans,
        p.goOn_machine.2]
      exact Machine.replay_touches hclear (h.owes hending)

/-! ## A farewell in which nothing is done -/

omit [Storable V] in
theorem freeing?_eq_some {m : Machine V} {a : Answer V} (h : m.freeing? = some a) :
    m.control = .done a ∧ ∃ i left rest, m.stack = .release (i :: left) :: rest := by
  unfold Machine.freeing? at h
  split at h
  · rename_i a' i left rest hdone hstack
    split at h
    · contradiction
    · cases h
      exact ⟨hdone, i, left, rest, hstack⟩
  · contradiction

theorem control_advance_of_freeing {m : Machine V} {a : Answer V} (h : m.freeing? = some a) :
    m.advance.control = .done a := by
  obtain ⟨hdone, i, left, rest, hstack⟩ := freeing?_eq_some h
  simp only [Machine.advance, hdone]
  rw [Machine.control_resume_of_isFreeing hstack rfl, hdone]

/-- A handler that does nothing when it is freed is freed as in a session without farewells. -/
theorem advance_silent {p : Parting V} {a : Answer V} (hending : p.ending? = none)
    (hfreeing : p.machine.freeing? = some a) :
    p.advance.advance.advance = { p with machine := p.machine.advance } := by
  have hdone := control_advance_of_freeing hfreeing
  have hbegun : p.advance = ⟨p.machine.advance.push (.script "" []),
      ⟨p.machine.advance.stack.length, a⟩ :: p.farewells⟩ := by
    rw [advance_of_not_ending hending, goOn, hfreeing]
  have hspoken : p.advance.advance = ⟨p.machine.advance.answer .ok,
      ⟨p.machine.advance.stack.length, a⟩ :: p.farewells⟩ := by
    generalize p.machine.advance = m at hbegun hdone ⊢
    obtain ⟨system, stack, control, trace⟩ := m
    cases hdone
    have hgoing : p.advance.ending? = none := by
      rw [hbegun]
      simp [ending?, Machine.push, Option.filter]
    rw [advance_of_not_ending hgoing, hbegun]
    rfl
  have hover : p.advance.advance.ending? = some ⟨p.machine.advance.stack.length, a⟩ := by
    rw [hspoken]
    simp [ending?, Machine.answer, Option.filter]
  rw [advance_of_ending hover, hspoken]
  generalize p.machine.advance = m at hdone ⊢
  obtain ⟨system, stack, control, trace⟩ := m
  cases hdone
  rfl

/-! ## Order is kept -/

theorem Orderly.next {p : Parting V} (h : p.Orderly) (hending : p.ending? = none)
    (hclear : ¬p.Invades) : Orderly { p with machine := p.machine.advance } := by
  rw [← h.meets_iff hending] at hclear
  obtain ⟨hdepth, horderly, hreplace⟩ := h.split
  have hbecomes := Machine.becomes_of_not_meets hclear
  obtain ⟨top, hstack, htop⟩ := hbecomes.orderly p.stack_eq horderly
    fun b hdone habove => h.beneath_eq_nil hending hdone habove
  let next : Parting V := { p with machine := p.machine.advance }
  have habove : next.above = top :=
    (above_of_append (show next.machine.stack = top ++ p.beneath from hstack) hdepth).1
  refine ⟨?_, fun step hrun => ?_, hbecomes.lodged h.lodged⟩
  · change Segmented p.machine.advance.stack p.farewells
    rw [hstack]
    exact hreplace top htop.freeing
  · change ∀ frame ∈ next.above, ¬frame.isDisposing
    rw [habove]
    exact htop.running step hrun

omit [Storable V] in
theorem Orderly.part {p : Parting V} (h : p.Orderly) (a : Answer V) :
    Orderly ⟨p.machine.push (.script "" []), ⟨p.machine.stack.length, a⟩ :: p.farewells⟩ where
  segmented := by
    have hinorder : InOrder [(.script "" [] : Frame V)] := List.pairwise_singleton _ _
    exact Segmented.parted hinorder rfl h.segmented
  running step _ := by
    have hstack : (p.machine.push (.script "" [])).stack =
      [.script "" []] ++ p.machine.stack := rfl
    rw [(above_of_append hstack rfl).1]
    simp [Frame.isDisposing]
  lodged cell hcell := by
    rcases List.mem_cons.mp hcell with hcell | hcell
    · contradiction
    · exact h.lodged cell hcell

omit [Storable V] in
theorem Orderly.ends {p : Parting V} (h : p.Orderly) {farewell : Farewell V}
    (hending : p.ending? = some farewell) :
    Orderly ⟨{ p.machine with control := .done farewell.answer }, p.farewells.tail⟩ where
  segmented := by
    obtain ⟨b, hdone, hfarewells, hlength⟩ := ending?_eq_some hending
    have hsegmented := h.segmented
    rw [hfarewells] at hsegmented
    generalize p.machine.stack = stack at hsegmented hlength ⊢
    cases hsegmented with
    | @parted top base _ _ htop hdepth hbase =>
        have hnone : top = [] := by
          rw [← List.length_eq_zero_iff]
          rw [List.length_append] at hlength
          omega
        rwa [hnone]
  running step hrun := by contradiction
  lodged := h.lodged

theorem Orderly.advance {p : Parting V} (h : p.Orderly) (hclear : ¬p.Invades) :
    p.advance.Orderly := by
  cases hending : p.ending? with
  | some farewell =>
      rw [advance_of_ending hending]
      exact h.ends hending
  | none =>
      have hnext := h.next hending hclear
      rw [advance_of_not_ending hending]
      unfold goOn
      cases p.machine.freeing? with
      | none => exact hnext
      | some a => exact hnext.part a

omit [Storable V] in
theorem Segmented.decide {runner : String} {old : List (Step V)} {rest : List (Frame V)}
    {farewells : List (Farewell V)} (h : Segmented (.script runner old :: rest) farewells)
    (left : List (Step V)) : Segmented (.script runner left :: rest) farewells := by
  have hinorder {frames : List (Frame V)} (h : InOrder (.script runner old :: frames)) :
      InOrder (.script runner left :: frames) := by
    obtain ⟨hfirst, hframes⟩ := List.pairwise_cons.mp h
    refine List.pairwise_cons.mpr ⟨fun below hbelow hdisposing => ?_, hframes⟩
    have hfreeing := hfirst below hbelow hdisposing
    contradiction
  generalize hstack : Frame.script runner old :: rest = stack at h
  induction h generalizing rest with
  | whole h =>
      subst hstack
      exact .whole (hinorder h)
  | @parted top base farewell earlier htop hdepth hbase ih =>
      cases top with
      | nil =>
          rw [List.nil_append] at hstack
          subst hstack
          have hnone : InOrder ([] : List (Frame V)) := .nil
          exact Segmented.parted hnone hdepth (ih rfl)
      | cons frame frames =>
          rw [List.cons_append, List.cons.injEq] at hstack
          obtain ⟨rfl, rfl⟩ := hstack
          exact Segmented.parted (hinorder htop) hdepth hbase

theorem Orderly.play {p : Parting V} (h : p.Orderly) (hgoes : ¬p.Stops) {move : Move V}
    (hstays : ¬(p.play move).Stops) : (p.play move).Orderly := by
  cases move with
  | advance => exact h.advance ((h.stops_advance hgoes).not.mp hstays)
  | begin step =>
      simp only [Parting.play, Machine.play]
      split
      · rename_i a ha
        have hempty := (Machine.answer?_eq_some ha).1
        refine ⟨?_, fun step' _ => ?_, fun cell hcell => by contradiction⟩
        · have hsegmented := h.segmented
          rw [hempty] at hsegmented
          exact hsegmented
        · simp [above, Machine.start]
      · exact h
  | decide left =>
      simp only [Parting.play, Machine.play]
      split
      · rename_i runner old rest hstack
        have hsegmented := h.segmented
        rw [hstack] at hsegmented
        refine ⟨hsegmented.decide left, fun step hrun frame hframe => ?_, fun cell hcell => ?_⟩
        · have hold := h.running step hrun
          rw [above, hstack, List.length_cons] at hold
          change frame ∈ (Frame.script runner left :: rest).take (rest.length + 1 - p.depth) at hframe
          cases hcount : rest.length + 1 - p.depth with
          | zero => simp [hcount] at hframe
          | succ count =>
              rw [hcount, List.take_succ_cons] at hold hframe
              rcases List.mem_cons.mp hframe with rfl | hframe
              · simp [Frame.isDisposing]
              · exact hold frame (List.mem_cons_of_mem _ hframe)
        · refine h.lodged cell ?_
          rw [hstack]
          rcases List.mem_cons.mp hcell with hcell | hcell
          · contradiction
          · exact List.mem_cons_of_mem _ hcell
      · exact h

/-! ## Whole sessions -/

theorem Stops.play {p : Parting V} (h : p.Stops) (move : Move V) : (p.play move).Stops := by
  obtain ⟨cell, hcell⟩ := h
  refine ⟨cell, ?_⟩
  cases move with
  | advance =>
      have hending : p.ending? = none := by simp [ending?, hcell]
      have hstays : p.machine.advance = p.machine := by simp [Machine.advance, hcell]
      rw [Parting.play, advance_of_not_ending hending, p.goOn_machine.1, hstays, hcell]
  | begin step =>
      have hanswer : p.machine.answer? = none := by simp [Machine.answer?, hcell]
      simp [Parting.play, Machine.play, hanswer, hcell]
  | decide left =>
      simp only [Parting.play, Machine.play]
      split <;> exact hcell

theorem playAll_append (p : Parting V) (first second : List (Move V)) :
    p.playAll (first ++ second) = (p.playAll first).playAll second :=
  List.foldl_append

omit [Storable V] in
theorem orderly_idle : (idle : Parting V).Orderly where
  segmented := .whole .nil
  running step hrun := by contradiction
  lodged cell hcell := by contradiction

theorem Stops.of_play {p : Parting V} (h : p.Orderly) (hgoes : ¬p.Stops) {move : Move V}
    (hstops : (p.play move).Stops) : move = .advance ∧ p.Invades := by
  cases move with
  | advance => exact ⟨rfl, (h.stops_advance hgoes).mp hstops⟩
  | begin step =>
      refine absurd ?_ hgoes
      obtain ⟨cell, hcell⟩ := hstops
      simp only [Parting.play, Machine.play] at hcell
      split at hcell
      · contradiction
      · exact ⟨cell, hcell⟩
  | decide left =>
      refine absurd ?_ hgoes
      obtain ⟨cell, hcell⟩ := hstops
      simp only [Parting.play, Machine.play] at hcell
      split at hcell <;> exact ⟨cell, hcell⟩

theorem orderly_or_invaded (moves : List (Move V)) :
    (idle.playAll moves).Orderly ∧ ¬(idle.playAll moves).Stops ∨
      (idle.playAll moves).Stops ∧
        ∃ before after, moves = before ++ .advance :: after ∧ (idle.playAll before).Invades := by
  induction moves using List.reverseRecOn with
  | nil => exact .inl ⟨orderly_idle, fun ⟨cell, hcell⟩ => by contradiction⟩
  | append_singleton moves move ih =>
      have hplay : idle.playAll (moves ++ [move]) = (idle.playAll moves).play move :=
        playAll_append _ _ _
      rw [hplay]
      rcases ih with ⟨horderly, hgoes⟩ | ⟨hstops, before, after, rfl, hinvades⟩
      · by_cases hstops : ((idle.playAll moves).play move).Stops
        · obtain ⟨rfl, hinvades⟩ := Stops.of_play horderly hgoes hstops
          exact .inr ⟨hstops, moves, [], rfl, hinvades⟩
        · exact .inl ⟨horderly.play hgoes hstops, hstops⟩
      · exact .inr ⟨hstops.play move, before, after ++ [move], by simp, hinvades⟩

theorem Orderly.lender {p : Parting V} (h : p.Orderly) (hclear : ¬p.Invades) {loan : Loan}
    (hloan : loan ∈ p.advance.loans) :
    loan ∈ p.loans ∨ ∃ sub left rest, p.machine.stack = .drop (sub :: left) :: rest ∧
      loan = ⟨.area sub.area, .exclusive⟩ := by
  cases hending : p.ending? with
  | some farewell =>
      rw [advance_of_ending hending] at hloan
      exact .inl hloan
  | none =>
      rw [← h.meets_iff hending] at hclear
      obtain ⟨pushed, warned, heffect, hstack, -⟩ := Machine.becomes_of_not_meets hclear
      rw [advance_of_not_ending hending, loans, p.goOn_machine.2, Machine.loans, hstack,
        List.filterMap_append] at hloan
      rcases List.mem_append.mp hloan with hloan | hloan
      · obtain ⟨frame, hframe, hlends⟩ := List.mem_filterMap.mp hloan
        cases frame with
        | held cell =>
            cases hlends
            obtain ⟨sub, left, rest, hdrop, rfl, -⟩ := heffect.held hframe
            exact .inr ⟨sub, left, rest, hdrop, rfl⟩
        | _ => contradiction
      · exact .inl ((p.machine.below_suffix.sublist.filterMap _).subset hloan)

omit [Storable V] in
theorem loans_decide {p : Parting V} {runner : String} {old : List (Step V)}
    {rest : List (Frame V)} (hstack : p.machine.stack = .script runner old :: rest) :
    p.loans = rest.filterMap Frame.loan? := by
  rw [loans, Machine.loans, hstack]
  rfl

/-- Whatever is borrowed was lent by the drop of a subscription. -/
theorem lenders (moves : List (Move V)) (hgoes : ¬(idle.playAll moves).Stops) {loan : Loan}
    (hloan : loan ∈ (idle.playAll moves).loans) :
    ∃ before after sub left rest, moves = before ++ .advance :: after ∧
      (idle.playAll before).machine.stack = .drop (sub :: left) :: rest ∧
      loan = ⟨.area sub.area, .exclusive⟩ := by
  induction moves using List.reverseRecOn with
  | nil => contradiction
  | append_singleton moves move ih =>
      have hplay : idle.playAll (moves ++ [move]) = (idle.playAll moves).play move :=
        playAll_append _ _ _
      rw [hplay] at hgoes hloan
      have hgone : ¬(idle.playAll moves).Stops := fun hstops => hgoes (hstops.play move)
      have hearlier (hold : loan ∈ (idle.playAll moves).loans) :
          ∃ before after sub left rest, moves ++ [move] = before ++ .advance :: after ∧
            (idle.playAll before).machine.stack = .drop (sub :: left) :: rest ∧
            loan = ⟨.area sub.area, .exclusive⟩ := by
        obtain ⟨before, after, sub, left, rest, rfl, hlent⟩ := ih hgone hold
        exact ⟨before, after ++ [move], sub, left, rest, by simp, hlent⟩
      rcases orderly_or_invaded moves with ⟨horderly, -⟩ | ⟨hstops, -⟩
      · cases move with
        | advance =>
            have hclear := (horderly.stops_advance hgone).not.mp hgoes
            rcases horderly.lender hclear hloan with hold | ⟨sub, left, rest, hlent⟩
            · exact hearlier hold
            · exact ⟨moves, [], sub, left, rest, rfl, hlent⟩
        | begin step =>
            simp only [Parting.play, Machine.play] at hloan
            split at hloan
            · contradiction
            · exact hearlier hloan
        | decide left =>
            simp only [Parting.play, Machine.play] at hloan
            split at hloan
            · rename_i runner old rest hstack
              rw [loans_decide rfl] at hloan
              exact hearlier (by rwa [loans_decide hstack])
            · exact hearlier hloan
      · exact absurd hstops hgone

omit [Storable V] in
theorem farewells_ne_nil {p : Parting V} {loan : Loan} (hloan : loan ∈ p.lent) :
    p.farewells ≠ [] := by
  intro hnone
  have hdepth : p.depth = 0 := by
    rw [depth, hnone]
    rfl
  rw [lent, beneath, hdepth, Nat.sub_zero, List.drop_length] at hloan
  contradiction

/--
A borrow conflicts with a loan only if a handler that is freed, or what it calls, needs an
area that the drop of a subscription has borrowed to free it; then the session stops.  What is
lent in this way, and nothing else, may be borrowed when a handler, a task or a listener is
called.  Only the drop of a subscription may find its area in use, and lets it be.
-/
theorem only_farewells_conflict (moves : List (Move V)) :
    let p := idle.playAll moves
    (¬p.Stops →
      (p.advance.Stops ↔ p.Invades) ∧
      (¬p.Invades →
        replay p.lent p.loans p.touches = some p.advance.loans ∧
        ∀ before touch after, p.touches = before ++ touch :: after →
          ∃ loans, replay p.lent p.loans before = some loans ∧
            (∀ loan, touch = .borrow loan → ∀ other ∈ loans, loan.conflicts other = false) ∧
            (touch = .call → loans = p.lent)) ∧
      (∀ cell, .refused cell ∈ p.touches →
        ∃ sub left rest, p.machine.stack = .drop (sub :: left) :: rest ∧ cell = .area sub.area) ∧
      ∀ loan ∈ p.lent, p.farewells ≠ [] ∧
        ∃ before after sub left rest, moves = before ++ .advance :: after ∧
          (idle.playAll before).machine.stack = .drop (sub :: left) :: rest ∧
          loan = ⟨.area sub.area, .exclusive⟩) ∧
    (p.Stops →
      ∃ before after, moves = before ++ .advance :: after ∧ (idle.playAll before).Invades) := by
  intro p
  rcases orderly_or_invaded moves with ⟨horderly, hgoes⟩ | ⟨hstops, hinvaded⟩
  · refine ⟨fun _ => ⟨horderly.stops_advance hgoes, fun hclear => ?_, fun cell hcell => ?_, ?_⟩,
      fun hstops => absurd hstops hgoes⟩
    · have hreplay := horderly.replay_touches hclear
      refine ⟨hreplay, fun before touch after hsplit => ?_⟩
      change p.touches = _ at hsplit
      change replay p.lent p.loans p.touches = _ at hreplay
      rw [hsplit] at hreplay
      obtain ⟨loans, next, hloans, hnext⟩ := apply_of_replay hreplay
      refine ⟨loans, hloans, ?_, ?_⟩
      · rintro loan rfl
        exact no_conflict_of_apply hnext
      · rintro rfl
        exact only_lent_of_apply hnext
    · cases hending : p.ending? with
      | some farewell => simp [touches, hending] at hcell
      | none =>
          rw [touches_of_ending hending] at hcell
          exact Machine.drop_of_refused hcell
    · intro loan hloan
      exact ⟨farewells_ne_nil hloan, lenders moves hgoes (p.lent_sublist.subset hloan)⟩
  · exact ⟨fun hgoes => absurd hstops hgoes, fun _ => hinvaded⟩

/-- The handler of a subscription reads its area when the drop of the subscription frees it. -/
def partingReader : List (Move Draft) :=
  inTurn [(.new "a" .localArea, 1), (.subscribe "a" "s" [] none [], 3), (.dropSubscription "s", 3)] ++
    [.decide [.askArea "a" (.get "k")], .advance]

theorem parting_reader_conflicts :
    (idle.playAll partingReader).farewells.length = 1 ∧
      (idle.playAll partingReader).lent = [⟨.area 0, .exclusive⟩] ∧
      (idle.playAll partingReader).touches = briefly (.area 0) .shared ∧
      (idle.playAll (partingReader ++ [.advance])).machine.control = .conflict (.area 0) :=
  ⟨rfl, by decide, by decide, rfl⟩

end Parting

end TabRelay.Session
