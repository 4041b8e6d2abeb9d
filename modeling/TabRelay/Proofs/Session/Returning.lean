import TabRelay.Proofs.Session.Areas

/-!
# Where the answer of a call arrives

A call to an area leaves a delivery and the frames that wait for it.  Whatever
the handlers do, the answer that comes back to the caller is the one that the
area gave when the call was made.
-/

namespace TabRelay.Session

open TabRelay.Storage

variable {V : Type}

namespace Frame

def isPassing : Frame V → Bool
  | .writing _ _ _ => true
  | frame => frame.isFreeing

def passed (frame : Frame V) (a : Answer V) : Answer V :=
  match frame, a with
  | .writing _ w _, .areaError e => .writeError (.storage w.key e)
  | .writing _ _ _, _ => .ok
  | _, a => a

theorem passed_of_isFreeing {frame : Frame V} (h : frame.isFreeing) (a : Answer V) :
    frame.passed a = a := by
  cases frame <;> first | rfl | simp [isFreeing] at h

end Frame

/-- What frames make of an answer, the first one being the topmost. -/
def passedThrough (frames : List (Frame V)) (a : Answer V) : Answer V :=
  frames.foldl (fun a frame => frame.passed a) a

theorem passedThrough_of_isFreeing {frames : List (Frame V)}
    (h : ∀ frame ∈ frames, frame.isFreeing) (a : Answer V) : passedThrough frames a = a := by
  induction frames with
  | nil => rfl
  | cons frame frames ih =>
      have hframe := Frame.passed_of_isFreeing (h frame List.mem_cons_self) a
      have hrest := ih fun f hf => h f (List.mem_cons_of_mem _ hf)
      simpa only [passedThrough, List.foldl_cons, hframe] using hrest

theorem passedThrough_append (first second : List (Frame V)) (a : Answer V) :
    passedThrough (first ++ second) a = passedThrough second (passedThrough first a) :=
  List.foldl_append

namespace Machine

/-- The answer, if the machine has come back to so many frames. -/
def settled? (m : Machine V) (depth : Nat) : Option (Answer V) :=
  match m.control with
  | .done a => if m.stack.length ≤ depth then some a else none
  | _ => none

theorem settled?_of_lt {m : Machine V} {depth : Nat} (h : depth < m.stack.length) :
    m.settled? depth = none := by
  unfold settled?
  split
  · rw [if_neg (by omega)]
  · rfl

/-- The answer with which the machine first comes back to so many frames. -/
def returned? [Storable V] (m : Machine V) (depth : Nat) : List (Move V) → Option (Answer V)
  | [] => m.settled? depth
  | move :: moves =>
      match m.settled? depth with
      | some a => some a
      | none => (m.play move).returned? depth moves

theorem returned?_of_settled [Storable V] {m : Machine V} {depth : Nat} {a : Answer V}
    (h : m.settled? depth = some a) (moves : List (Move V)) :
    m.returned? depth moves = some a := by
  cases moves with
  | nil => exact h
  | cons move moves => simp only [returned?, h]

theorem returned?_advance [Storable V] {m : Machine V} {depth : Nat} (h : m.settled? depth = none)
    (moves : List (Move V)) :
    m.returned? depth (.advance :: moves) = m.advance.returned? depth moves := by
  simp only [returned?, h]
  rfl

def answered? [Storable V] (m : Machine V) (later : List (Move V)) : Option (Answer V) :=
  m.advance.returned? m.stack.length later

/-- The answer is on its way to the frames in `base`, or a delivery stands before
it that will start it. -/
inductive Due (base : List (Frame V)) (a : Answer V) (m : Machine V) : Prop where
  | under (b : Answer V) (frames : List (Frame V)) (hdone : m.control = .done b)
      (hstack : m.stack = frames ++ base) (hpassing : ∀ frame ∈ frames, frame.isPassing)
      (hpassed : passedThrough frames b = a)
  | waiting (above : List (Frame V)) (event : Event) (left : List Nat) (frames : List (Frame V))
      (hstack : m.stack = above ++ .delivery event left :: frames ++ base)
      (hpassing : ∀ frame ∈ frames, frame.isPassing) (hpassed : passedThrough frames .ok = a)

theorem Effect.of_passing [Storable V] {m : Machine V} {s : System V} {pushed : List (Frame V)}
    {control : Control V} {warned : List (Entry V)} {b : Answer V} {frame : Frame V}
    {rest : List (Frame V)} (h : Effect m s pushed control warned) (hdone : m.control = .done b)
    (hstack : m.stack = frame :: rest) (hpassing : frame.isPassing) :
    control = .done (frame.passed b) ∧ ∀ f ∈ pushed, f.isFreeing := by
  rcases h.of_done hdone hstack with hcontinues | ⟨hfreeing, hfrees, hcontrol⟩
  · cases hcontinues with
    | writeFails e relay w stored => exact ⟨rfl, by simp⟩
    | writeEnds relay w stored hb =>
        refine ⟨?_, by simp⟩
        cases b <;> first | rfl | exact absurd rfl (hb _)
    | finishes b hspent =>
        cases frame <;>
          simp [Frame.isSpent, Frame.isPassing, Frame.isFreeing] at hspent hpassing
    | _ => simp [Frame.isPassing, Frame.isFreeing] at hpassing
  · rw [hcontrol, Frame.passed_of_isFreeing hfreeing]
    exact ⟨rfl, hfrees.isFreeing⟩

theorem Effect.of_delivery [Storable V] {m : Machine V} {s : System V} {pushed : List (Frame V)}
    {control : Control V} {warned : List (Entry V)} {b : Answer V} {event : Event}
    {left : List Nat} {rest : List (Frame V)} (h : Effect m s pushed control warned)
    (hdone : m.control = .done b) (hstack : m.stack = .delivery event left :: rest) :
    control = .done .ok ∧ pushed = [] ∨
      ∃ above left', pushed = above ++ [.delivery event left'] := by
  cases left with
  | nil =>
      rcases h.of_done hdone hstack with hcontinues | ⟨hfreeing, -⟩
      · cases hcontinues with
        | finishes b hspent => exact .inl ⟨rfl, rfl⟩
      · contradiction
  | cons i left =>
      obtain ⟨above, habove⟩ := h.of_visit hdone hstack
      exact .inr ⟨above, left, habove⟩

variable [Storable V]

theorem Due.advance {m : Machine V} {base : List (Frame V)} {a : Answer V} (horderly : m.Orderly)
    (hdue : m.Due base a) (hsettled : m.settled? base.length = none) : m.advance.Due base a := by
  obtain ⟨pushed, warned, heffect, hpushed, -⟩ := advance_becomes horderly
  cases hdue with
  | under b frames hdone hstack hpassing hpassed =>
      cases frames with
      | nil => simp [settled?, hdone, hstack] at hsettled
      | cons frame frames =>
          have hbelow : m.below = frames ++ base := by simp [below, hdone, hstack]
          obtain ⟨hcontrol, hfreeing⟩ :=
            heffect.of_passing hdone hstack (hpassing frame List.mem_cons_self)
          refine .under _ (pushed ++ frames) hcontrol ?_ ?_ ?_
          · rw [hpushed, hbelow, List.append_assoc]
          · intro f hf
            rcases List.mem_append.mp hf with hf | hf
            · have hfree := hfreeing f hf
              cases f <;> simp_all [Frame.isPassing, Frame.isFreeing]
            · exact hpassing f (List.mem_cons_of_mem _ hf)
          · rw [passedThrough_append, passedThrough_of_isFreeing hfreeing]
            exact hpassed
  | waiting above event left frames hstack hpassing hpassed =>
      rcases m.below_eq with hbelow | ⟨b, hdone, hbelow⟩
      · refine .waiting (pushed ++ above) event left frames ?_ hpassing hpassed
        rw [hpushed, hbelow, hstack]
        simp
      · cases above with
        | nil =>
            have htail : m.below = frames ++ base := by rw [hbelow, hstack]; rfl
            rcases heffect.of_delivery hdone hstack with ⟨hcontrol, rfl⟩ | ⟨above, left', rfl⟩
            · exact .under _ frames hcontrol (by rw [hpushed, htail]; rfl) hpassing hpassed
            · refine .waiting above event left' frames ?_ hpassing hpassed
              rw [hpushed, htail]
              simp
        | cons frame above =>
            refine .waiting (pushed ++ above) event left frames ?_ hpassing hpassed
            rw [hpushed, hbelow, hstack]
            simp

omit [Storable V] in
theorem Due.settled {m : Machine V} {base : List (Frame V)} {a b : Answer V}
    (hdue : m.Due base a) (hsettled : m.settled? base.length = some b) : b = a := by
  cases hdue with
  | under b' frames hdone hstack hpassing hpassed =>
      cases frames with
      | nil => simp_all [settled?, passedThrough]
      | cons frame frames =>
          simp only [settled?, hdone, hstack, List.length_append, List.length_cons] at hsettled
          split at hsettled
          · omega
          · contradiction
  | waiting above event left frames hstack hpassing hpassed =>
      unfold settled? at hsettled
      split at hsettled
      · simp only [hstack, List.length_append, List.length_cons] at hsettled
        split at hsettled
        · omega
        · contradiction
      · contradiction

theorem Due.play {m : Machine V} {base : List (Frame V)} {a : Answer V} (horderly : m.Orderly)
    (hdue : m.Due base a) (hsettled : m.settled? base.length = none) (move : Move V) :
    (m.play move).Due base a := by
  cases move with
  | begin step =>
      simp only [Machine.play]
      split
      · rename_i b hb
        obtain ⟨hstack, hdone⟩ := answer?_eq_some hb
        simp [settled?, hdone, hstack] at hsettled
      · exact hdue
  | decide left =>
      simp only [Machine.play]
      split
      · rename_i runner old rest hscript
        cases hdue with
        | under b frames hdone hstack hpassing hpassed =>
            cases frames with
            | nil => simp [settled?, hdone, hstack] at hsettled
            | cons frame frames =>
                rw [hscript] at hstack
                cases hstack
                have hframe := hpassing _ List.mem_cons_self
                simp [Frame.isPassing, Frame.isFreeing] at hframe
        | waiting above event left' frames hstack hpassing hpassed =>
            rw [hscript] at hstack
            cases above with
            | nil => simp at hstack
            | cons frame above =>
                refine .waiting (.script runner left :: above) event left' frames ?_
                  hpassing hpassed
                simpa using (List.cons.inj hstack).2
      · exact hdue
  | advance => exact hdue.advance horderly hsettled

theorem Due.returned {m : Machine V} {base : List (Frame V)} {a b : Answer V}
    (horderly : m.Orderly) (hdue : m.Due base a) (moves : List (Move V))
    (hreturned : m.returned? base.length moves = some b) : b = a := by
  induction moves generalizing m with
  | nil => exact hdue.settled hreturned
  | cons move moves ih =>
      simp only [returned?] at hreturned
      split at hreturned
      · rename_i c hc
        cases hreturned
        exact hdue.settled hc
      · rename_i hc
        exact ih (horderly.play move) (hdue.play horderly hc move) hreturned

end Machine

end TabRelay.Session
