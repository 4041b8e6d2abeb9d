import TabRelay.Proofs.Session.Returning

/-!
# When a step is over

A step is over when the machine has come back to the frames on which the step
began, with an answer.  What is kept until then holds of everything that the step
has started, and a measure that every advance lowers shows that it comes to an end.
-/

namespace TabRelay.Session

variable {V : Type}

namespace Machine

theorem settled?_eq_some {m : Machine V} {depth : Nat} {a : Answer V}
    (h : m.settled? depth = some a) : m.control = .done a ∧ m.stack.length ≤ depth := by
  unfold settled? at h
  split at h
  · split at h
    · cases h
      exact ⟨by assumption, by assumption⟩
    · contradiction
  · contradiction

variable [Storable V]

theorem play_begin_of_unsettled {m : Machine V} {depth : Nat} (h : m.settled? depth = none)
    (step : Step V) : m.play (.begin step) = m := by
  simp only [play]
  split
  · rename_i b hb
    obtain ⟨hstack, hdone⟩ := answer?_eq_some hb
    simp [settled?, hdone, hstack] at h
  · rfl

/-- With the last of the moves the machine is back to so many frames for the first time. -/
def EndsFrom (m : Machine V) (depth : Nat) (a : Answer V) : List (Move V) → Prop
  | [] => m.settled? depth = some a
  | move :: moves => m.settled? depth = none ∧ (m.play move).EndsFrom depth a moves

instance decidableEndsFrom [DecidableEq V] (depth : Nat) (a : Answer V) :
    (m : Machine V) → (later : List (Move V)) → Decidable (m.EndsFrom depth a later)
  | m, [] => inferInstanceAs (Decidable (m.settled? depth = some a))
  | m, move :: later =>
      have := decidableEndsFrom depth a (m.play move) later
      inferInstanceAs (Decidable (m.settled? depth = none ∧ (m.play move).EndsFrom depth a later))

/-- The step that begins next is over with the last of the moves. -/
def Ends (m : Machine V) (later : List (Move V)) (a : Answer V) : Prop :=
  m.advance.EndsFrom m.stack.length a later

instance [DecidableEq V] (m : Machine V) (later : List (Move V)) (a : Answer V) :
    Decidable (m.Ends later a) :=
  inferInstanceAs (Decidable (m.advance.EndsFrom m.stack.length a later))

theorem EndsFrom.keeps {P R : Machine V → Prop} {depth : Nat} {a : Answer V}
    (hplay : ∀ m move, P m → m.settled? depth = none → (move = .advance → R m) →
      P (m.play move))
    {m : Machine V} {later : List (Move V)} (hends : m.EndsFrom depth a later)
    (hR : ∀ x ∈ m.history later, R x) (h : P m) :
    P (m.playAll later) ∧ (m.playAll later).settled? depth = some a ∧
      ∀ x ∈ m.history later, P x ∧ x.settled? depth = none := by
  induction later generalizing m with
  | nil => exact ⟨h, hends, by simp⟩
  | cons move later ih =>
      obtain ⟨hunsettled, hlater⟩ := hends
      cases move with
      | advance =>
          have hnext := hplay m .advance h hunsettled fun _ => hR m List.mem_cons_self
          obtain ⟨hlast, hsettled, hall⟩ :=
            ih hlater (fun x hx => hR x (List.mem_cons_of_mem _ hx)) hnext
          exact ⟨hlast, hsettled, List.forall_mem_cons.mpr ⟨⟨h, hunsettled⟩, hall⟩⟩
      | begin step => exact ih hlater hR (hplay m _ h hunsettled (by simp))
      | decide left => exact ih hlater hR (hplay m _ h hunsettled (by simp))

theorem EndsFrom.returned {m : Machine V} {depth : Nat} {a : Answer V} {later : List (Move V)}
    (h : m.EndsFrom depth a later) : m.returned? depth later = some a := by
  induction later generalizing m with
  | nil => exact h
  | cons move later ih =>
      obtain ⟨hunsettled, hlater⟩ := h
      simp only [returned?, hunsettled]
      exact ih hlater

theorem exists_endsFrom_of_returned {m : Machine V} {depth : Nat} {a : Answer V}
    {later : List (Move V)} (h : m.returned? depth later = some a) :
    ∃ earlier, earlier <+: later ∧ m.EndsFrom depth a earlier := by
  induction later generalizing m with
  | nil => exact ⟨[], List.prefix_rfl, h⟩
  | cons move later ih =>
      simp only [returned?] at h
      split at h
      · rename_i b hsettled
        cases h
        exact ⟨[], List.nil_prefix, hsettled⟩
      · rename_i hunsettled
        obtain ⟨earlier, hprefix, hends⟩ := ih h
        exact ⟨move :: earlier, (List.prefix_cons_inj move).mpr hprefix, hunsettled, hends⟩

theorem returned?_append_singleton (m : Machine V) (depth : Nat) (later : List (Move V))
    (move : Move V) : m.returned? depth (later ++ [move]) =
      (m.returned? depth later).or (((m.playAll later).play move).settled? depth) := by
  induction later generalizing m with
  | nil =>
      simp only [List.nil_append, returned?, playAll_nil]
      cases m.settled? depth <;> rfl
  | cons first later ih =>
      simp only [List.cons_append, returned?, playAll_cons]
      cases m.settled? depth with
      | none => exact ih (m.play first)
      | some a => rfl

/-- The answer, if with the last of the moves the machine is back to so many frames for the
first time. -/
def arrival? (m : Machine V) (depth : Nat) : List (Move V) → Option (Answer V)
  | [] => m.settled? depth
  | move :: moves =>
      if (m.settled? depth).isSome then none else (m.play move).arrival? depth moves

theorem arrival?_eq_some {m : Machine V} {depth : Nat} {a : Answer V} {later : List (Move V)} :
    m.arrival? depth later = some a ↔ m.EndsFrom depth a later := by
  induction later generalizing m with
  | nil => rfl
  | cons move later ih =>
      cases hsettled : m.settled? depth with
      | none => simp [arrival?, EndsFrom, hsettled, ih]
      | some b => simp [arrival?, EndsFrom, hsettled]

theorem arrival?_append_singleton (m : Machine V) (depth : Nat) (later : List (Move V))
    (move : Move V) : m.arrival? depth (later ++ [move]) =
      if (m.returned? depth later).isSome then none
      else ((m.playAll later).play move).settled? depth := by
  induction later generalizing m with
  | nil => rfl
  | cons first later ih =>
      cases hsettled : m.settled? depth with
      | none => simp [arrival?, returned?, hsettled, ih]
      | some a => simp [arrival?, returned?, hsettled]

theorem settled?_of_not_returned {m : Machine V} {depth : Nat} {later : List (Move V)}
    (h : m.returned? depth later = none) : (m.playAll later).settled? depth = none := by
  induction later generalizing m with
  | nil => exact h
  | cons move later ih =>
      simp only [returned?] at h
      split at h
      · contradiction
      · exact ih h

theorem not_returned_of_append {m : Machine V} {depth : Nat} {first second : List (Move V)}
    (h : m.returned? depth (first ++ second) = none) : m.returned? depth first = none := by
  induction first generalizing m with
  | nil =>
      cases hsettled : m.settled? depth with
      | none => exact hsettled
      | some a => simp [returned?_of_settled hsettled] at h
  | cons move first ih =>
      simp only [List.cons_append, returned?] at h ⊢
      split at h
      · contradiction
      · exact ih h

def advances (m : Machine V) (n : Nat) : Machine V := m.playAll (List.replicate n .advance)

@[simp] theorem advances_zero (m : Machine V) : m.advances 0 = m := rfl

@[simp] theorem advances_succ (m : Machine V) (n : Nat) :
    m.advances (n + 1) = m.advance.advances n := rfl

/-- A measure that every advance lowers brings the step to its end.  `P n` says that `n` is
left to do. -/
theorem exists_endsFrom {P : Nat → Machine V → Prop} {depth : Nat}
    (hadvance : ∀ n m, P n m → m.settled? depth = none → ∃ less < n, P less m.advance)
    {n : Nat} {m : Machine V} (h : P n m) :
    ∃ last a, m.EndsFrom depth a (List.replicate last .advance) ∧
      ∀ k ≤ last, ∃ left, P left (m.advances k) := by
  induction n using Nat.strongRecOn generalizing m with
  | ind n ih =>
      cases hsettled : m.settled? depth with
      | some a =>
          refine ⟨0, a, hsettled, fun k hk => ⟨n, ?_⟩⟩
          rw [Nat.le_zero.mp hk]
          exact h
      | none =>
          obtain ⟨less, hless, hnext⟩ := hadvance n m h hsettled
          obtain ⟨last, a, hends, hall⟩ := ih less hless hnext
          refine ⟨last + 1, a, ⟨hsettled, hends⟩, fun k hk => ?_⟩
          cases k with
          | zero => exact ⟨n, h⟩
          | succ k => exact hall k (Nat.le_of_succ_le_succ hk)

end Machine

end TabRelay.Session
