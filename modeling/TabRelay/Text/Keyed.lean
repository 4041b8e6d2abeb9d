/-!
# Lists ordered by key

A finite map from texts is a list of pairs in strictly increasing order of
their keys, the order being that of the characters' code points.  This is also
the byte order of the keys in UTF-8.
-/

namespace TabRelay

abbrev Keyed (α : Type) := List (String × α)

namespace Keyed

variable {α : Type}

def Sorted (items : Keyed α) : Prop := items.Pairwise fun a b => a.1 < b.1

def lookup? (key : String) : Keyed α → Option α
  | [] => none
  | (k, v) :: rest => if k = key then some v else lookup? key rest

def insert (key : String) (value : α) : Keyed α → Keyed α
  | [] => [(key, value)]
  | (k, v) :: rest =>
      if key < k then (key, value) :: (k, v) :: rest
      else if k = key then (key, value) :: rest
      else (k, v) :: insert key value rest

def erase (key : String) : Keyed α → Keyed α
  | [] => []
  | (k, v) :: rest => if k = key then rest else (k, v) :: erase key rest

def ofPairs (pairs : List (String × α)) : Keyed α :=
  pairs.foldl (fun items (k, v) => insert k v items) []

def keys (items : Keyed α) : List String := items.map (·.1)

/-! ## What the operations do to a look-up -/

@[simp] theorem lookup?_nil (key : String) : lookup? key ([] : Keyed α) = none := rfl

theorem lookup?_insert (key : String) (value : α) (items : Keyed α) (other : String) :
    lookup? other (insert key value items) =
      if key = other then some value else lookup? other items := by
  induction items with
  | nil => simp [insert, lookup?]
  | cons head rest ih =>
    obtain ⟨k, v⟩ := head
    simp only [insert]
    split
    · simp [lookup?]
    · split
      · rename_i hk
        subst hk
        simp only [lookup?]
        split <;> simp_all
      · simp only [lookup?, ih]
        split
        · rename_i hk ho
          rw [if_neg]
          rintro rfl
          exact hk ho
        · rfl

theorem mem_insert {key : String} {value : α} {items : Keyed α} {p : String × α}
    (h : p ∈ insert key value items) : p = (key, value) ∨ p ∈ items := by
  induction items with
  | nil => simpa [insert] using h
  | cons head rest ih =>
    obtain ⟨k, v⟩ := head
    simp only [insert] at h
    split at h
    · simpa using h
    · split at h
      · rcases List.mem_cons.mp h with h | h
        · exact .inl h
        · exact .inr (List.mem_cons_of_mem _ h)
      · rcases List.mem_cons.mp h with h | h
        · exact .inr (h ▸ List.mem_cons_self)
        · exact (ih h).imp_right (List.mem_cons_of_mem _)

theorem erase_sublist (key : String) (items : Keyed α) : (erase key items).Sublist items := by
  induction items with
  | nil => exact .slnil
  | cons head rest ih =>
    obtain ⟨k, v⟩ := head
    simp only [erase]
    split
    · exact List.sublist_cons_self _ _
    · exact ih.cons_cons _

/-! ## The order is kept -/

theorem sorted_nil : Sorted ([] : Keyed α) := List.Pairwise.nil

theorem lt_of_not_lt_of_ne {a b : String} (h : ¬ a < b) (hne : b ≠ a) : b < a := by
  rcases String.le_total a b with hab | hba
  · exact absurd (String.le_antisymm hab (String.not_lt.mp h)) (Ne.symm hne)
  · exact String.not_le.mp fun hab => hne (String.le_antisymm hba hab)

theorem sorted_insert {items : Keyed α} (h : Sorted items) (key : String) (value : α) :
    Sorted (insert key value items) := by
  induction items with
  | nil => exact List.pairwise_singleton _ _
  | cons head rest ih =>
    obtain ⟨k, v⟩ := head
    obtain ⟨hhead, hrest⟩ := List.pairwise_cons.mp h
    simp only [insert]
    split
    · rename_i hlt
      refine List.pairwise_cons.mpr ⟨fun p hp => ?_, h⟩
      rcases List.mem_cons.mp hp with rfl | hp
      · exact hlt
      · exact String.lt_trans hlt (hhead p hp)
    · split
      · rename_i hk
        subst hk
        exact List.pairwise_cons.mpr ⟨hhead, hrest⟩
      · rename_i hnlt hne
        refine List.pairwise_cons.mpr ⟨fun p hp => ?_, ih hrest⟩
        rcases mem_insert hp with rfl | hp
        · exact lt_of_not_lt_of_ne hnlt hne
        · exact hhead p hp

theorem sorted_erase {items : Keyed α} (h : Sorted items) (key : String) :
    Sorted (erase key items) :=
  List.Pairwise.sublist (erase_sublist key items) h

theorem sorted_ofPairs (pairs : List (String × α)) : Sorted (ofPairs pairs) := by
  suffices ∀ items : Keyed α, Sorted items →
      Sorted (pairs.foldl (fun items (k, v) => insert k v items) items) from
    this [] sorted_nil
  induction pairs with
  | nil => exact fun _ h => h
  | cons p rest ih => exact fun items h => ih _ (sorted_insert h p.1 p.2)

end Keyed

end TabRelay
