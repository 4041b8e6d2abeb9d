import Mathlib.Data.List.Induction
import Mathlib.Data.List.Nodup
import TabRelay.Text.Keyed

/-!
# Look-ups in lists ordered by key

A key is looked up among the keys of a list; in a sorted list no two items have
the same one.
-/

namespace TabRelay

namespace Keyed

variable {α : Type}

theorem mem_of_lookup? {key : String} {value : α} {items : Keyed α}
    (h : lookup? key items = some value) : (key, value) ∈ items := by
  induction items with
  | nil => contradiction
  | cons head rest ih =>
      obtain ⟨k, v⟩ := head
      simp only [lookup?] at h
      split at h
      · rename_i hk
        cases h
        rw [hk]
        exact List.mem_cons_self
      · exact List.mem_cons_of_mem _ (ih h)

theorem lookup?_eq_none_iff {key : String} {items : Keyed α} :
    lookup? key items = none ↔ key ∉ items.keys := by
  induction items with
  | nil => simp [lookup?, keys]
  | cons head rest ih =>
      obtain ⟨k, v⟩ := head
      simp only [keys] at ih
      by_cases h : k = key
      · simp [lookup?, keys, h]
      · simp [lookup?, keys, h, ih, Ne.symm h]

theorem Sorted.lookup?_tail {k : String} {v : α} {rest : Keyed α}
    (h : Sorted ((k, v) :: rest)) : lookup? k rest = none := by
  rw [lookup?_eq_none_iff]
  intro hmem
  obtain ⟨p, hp, hkey⟩ := List.mem_map.mp hmem
  have hlt : k < p.1 := (List.pairwise_cons.mp h).1 p hp
  rw [hkey] at hlt
  exact String.lt_irrefl k hlt

theorem Sorted.lookup?_of_lt {key k : String} {v : α} {rest : Keyed α}
    (h : Sorted ((k, v) :: rest)) (hlt : key < k) : lookup? key ((k, v) :: rest) = none := by
  rw [lookup?_eq_none_iff]
  intro hmem
  obtain ⟨p, hp, hkey⟩ := List.mem_map.mp hmem
  rw [← hkey] at hlt
  rcases List.mem_cons.mp hp with rfl | hp
  · exact String.lt_irrefl _ hlt
  · exact String.lt_irrefl _ (String.lt_trans hlt ((List.pairwise_cons.mp h).1 p hp))

theorem lookup?_erase {items : Keyed α} (h : Sorted items) (key other : String) :
    lookup? other (erase key items) = if key = other then none else lookup? other items := by
  induction items with
  | nil => simp [erase, lookup?]
  | cons head rest ih =>
      obtain ⟨k, v⟩ := head
      have hrest := ih (List.pairwise_cons.mp h).2
      simp only [erase]
      by_cases hk : k = key
      · subst hk
        rw [if_pos rfl]
        by_cases ho : k = other
        · subst ho
          rw [if_pos rfl, h.lookup?_tail]
        · simp [lookup?, ho]
      · rw [if_neg hk]
        simp only [lookup?, hrest]
        by_cases ho : k = other
        · subst ho
          simp [Ne.symm hk]
        · simp [ho]

theorem Sorted.nodup_keys {items : Keyed α} (h : Sorted items) : items.keys.Nodup := by
  refine List.Pairwise.map _ ?_ h
  intro a b hlt heq
  rw [heq] at hlt
  exact String.lt_irrefl _ hlt

theorem Sorted.pairwise_keys {items : Keyed α} (h : Sorted items) :
    items.keys.Pairwise (· ≤ ·) :=
  List.Pairwise.map _ (fun _ _ hlt => String.not_lt.mp (String.lt_asymm hlt)) h

theorem lookup?_of_mem {items : Keyed α} (h : Sorted items) {key : String} {value : α}
    (hmem : (key, value) ∈ items) : lookup? key items = some value := by
  induction items with
  | nil => contradiction
  | cons head rest ih =>
      obtain ⟨k, v⟩ := head
      obtain ⟨hhead, hrest⟩ := List.pairwise_cons.mp h
      rcases List.mem_cons.mp hmem with heq | hmem
      · cases heq
        exact if_pos rfl
      · have hlt : k < key := hhead _ hmem
        have hne : k ≠ key := fun heq => String.lt_irrefl key (heq ▸ hlt)
        rw [lookup?, if_neg hne, ih hrest hmem]

theorem lookup?_of_perm {pairs items : Keyed α} (hperm : pairs.Perm items) (h : Sorted items)
    (key : String) : lookup? key pairs = lookup? key items := by
  cases hlookup : lookup? key pairs with
  | some value => exact (lookup?_of_mem h (hperm.mem_iff.mp (mem_of_lookup? hlookup))).symm
  | none =>
      rw [lookup?_eq_none_iff, keys, (hperm.map _).mem_iff] at hlookup
      exact (lookup?_eq_none_iff.mpr hlookup).symm

theorem insert_last {items : Keyed α} {key : String} (value : α)
    (h : ∀ p ∈ items, p.1 < key) : insert key value items = items ++ [(key, value)] := by
  induction items with
  | nil => rfl
  | cons head rest ih =>
      obtain ⟨k, v⟩ := head
      have hlt : k < key := h (k, v) List.mem_cons_self
      have hne : k ≠ key := fun heq => String.lt_irrefl key (heq ▸ hlt)
      rw [insert, if_neg (String.lt_asymm hlt), if_neg hne,
        ih fun p hp => h p (List.mem_cons_of_mem _ hp)]
      rfl

theorem length_insert_le (key : String) (value : α) (items : Keyed α) :
    (insert key value items).length ≤ items.length + 1 := by
  induction items with
  | nil => exact Nat.le_refl 1
  | cons head rest ih =>
      obtain ⟨k, v⟩ := head
      simp only [insert]
      split
      · exact Nat.le_refl _
      · split
        · exact Nat.le_succ _
        · exact Nat.succ_le_succ ih

/-! ## Pairs that are inserted one after another -/

theorem ofPairs_append_singleton (pairs : List (String × α)) (key : String) (value : α) :
    ofPairs (pairs ++ [(key, value)]) = insert key value (ofPairs pairs) := by
  rw [ofPairs, List.foldl_append]
  rfl

theorem lookup?_ofPairs (pairs : List (String × α)) (key : String) :
    lookup? key (ofPairs pairs) = pairs.reverse.lookup key := by
  induction pairs using List.reverseRecOn with
  | nil => rfl
  | append_singleton pairs p ih =>
      obtain ⟨k, v⟩ := p
      rw [ofPairs_append_singleton, lookup?_insert, ih, List.reverse_append,
        List.reverse_singleton, List.singleton_append, List.lookup_cons]
      by_cases hk : k = key
      · simp [hk]
      · simp [hk, beq_false_of_ne (Ne.symm hk)]

theorem lookup?_ofPairs_eq_some_iff {pairs : List (String × α)} {key : String} {value : α}
    (h : ∀ p ∈ pairs, ∀ q ∈ pairs, p.1 = q.1 → p.2 = q.2) :
    lookup? key (ofPairs pairs) = some value ↔ (key, value) ∈ pairs := by
  rw [lookup?_ofPairs]
  constructor
  · intro hlookup
    obtain ⟨before, after, heq, -⟩ := List.lookup_eq_some_iff.mp hlookup
    rw [← List.mem_reverse, heq]
    simp
  · intro hmem
    have hsome : (pairs.reverse.lookup key).isSome :=
      List.lookup_isSome_iff.mpr ⟨(key, value), List.mem_reverse.mpr hmem, beq_self_eq_true key⟩
    obtain ⟨other, hother⟩ := Option.isSome_iff_exists.mp hsome
    obtain ⟨before, after, heq, -⟩ := List.lookup_eq_some_iff.mp hother
    have hlast : (key, other) ∈ pairs := by
      rw [← List.mem_reverse, heq]
      simp
    have hsame : other = value := h _ hlast _ hmem rfl
    rw [hother, hsame]

theorem sorted_pair {first second : String} (h : first < second) (value other : α) :
    Sorted [(first, value), (second, other)] :=
  List.pairwise_pair.mpr h

theorem Sorted.eq_of_mem_iff {items others : Keyed α} (h : Sorted items) (hothers : Sorted others)
    (hmem : ∀ p, p ∈ items ↔ p ∈ others) : items = others := by
  have hperm : items.Perm others :=
    (List.perm_ext_iff_of_nodup (List.Nodup.of_map _ h.nodup_keys)
      (List.Nodup.of_map _ hothers.nodup_keys)).mpr hmem
  exact hperm.eq_of_pairwise
    (fun a b _ _ hab hba => absurd (String.lt_trans hab hba) (String.lt_irrefl a.1)) h hothers

theorem ofPairs_of_perm {pairs items : Keyed α} (hperm : pairs.Perm items) (h : Sorted items) :
    ofPairs pairs = items := by
  have hsame : ∀ p ∈ pairs, ∀ q ∈ pairs, p.1 = q.1 → p.2 = q.2 := by
    intro p hp q hq hkey
    have hp := lookup?_of_mem h (hperm.mem_iff.mp hp)
    have hq := lookup?_of_mem h (hperm.mem_iff.mp hq)
    rw [hkey, hq] at hp
    exact (Option.some.inj hp).symm
  refine (sorted_ofPairs pairs).eq_of_mem_iff h fun p => ?_
  rw [← hperm.mem_iff, ← lookup?_ofPairs_eq_some_iff hsame]
  exact ⟨lookup?_of_mem (sorted_ofPairs pairs), mem_of_lookup?⟩

/-! ## Values -/

def values (items : Keyed α) : List α := items.map (·.2)

@[simp] theorem values_cons (key : String) (value : α) (rest : Keyed α) :
    values ((key, value) :: rest) = value :: values rest := rfl

theorem values_erase (key : String) (items : Keyed α) :
    ((lookup? key items).toList ++ values (erase key items)).Perm (values items) := by
  induction items with
  | nil => exact List.Perm.refl _
  | cons head rest ih =>
      obtain ⟨k, v⟩ := head
      simp only [lookup?, erase]
      split
      · exact List.Perm.refl _
      · rw [values_cons, values_cons]
        exact List.perm_middle.trans (ih.cons v)

theorem values_insert {items : Keyed α} (h : Sorted items) (key : String) (value : α) :
    ((lookup? key items).toList ++ values (insert key value items)).Perm
      (value :: values items) := by
  induction items with
  | nil => exact List.Perm.refl _
  | cons head rest ih =>
      obtain ⟨k, v⟩ := head
      by_cases hlt : key < k
      · have hnone : lookup? key ((k, v) :: rest) = none := h.lookup?_of_lt hlt
        simp only [hnone, insert, if_pos hlt]
        exact List.Perm.refl _
      · by_cases hk : k = key
        · simp only [lookup?, insert, if_neg hlt, if_pos hk]
          exact List.Perm.swap ..
        · simp only [lookup?, insert, if_neg hlt, if_neg hk, values_cons]
          have hrest := ih (List.pairwise_cons.mp h).2
          exact List.perm_middle.trans ((hrest.cons v).trans (List.Perm.swap ..))

end Keyed

end TabRelay
