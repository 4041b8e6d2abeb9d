import Mathlib.Data.Nat.Count
import TabRelay.Proofs.Text.Keyed

/-!
# Leaving items out

Things are known by their place in a list or by a name.  When some of them are
left out the others move up: `rest` is what remains of a list, and `rank` tells
the place that an item has in it.  Of names those remain that are seen.
-/

namespace TabRelay

/-! ## Places -/

section

variable (seen : Nat → Bool)

/-- The number of places below that are seen. -/
def rank (n : Nat) : Nat := Nat.count (fun i => seen i) n

@[simp] theorem rank_zero : rank seen 0 = 0 := Nat.count_zero _

theorem rank_succ (n : Nat) : rank seen (n + 1) = rank seen n + if seen n then 1 else 0 :=
  Nat.count_succ _ n

theorem rank_mono {m n : Nat} (h : m ≤ n) : rank seen m ≤ rank seen n := Nat.count_monotone _ h

theorem rank_inj {m n : Nat} (hm : seen m) (hn : seen n) : rank seen m = rank seen n ↔ m = n :=
  ⟨Nat.count_injective hm hn, fun h => h ▸ rfl⟩

theorem rank_lt {m n : Nat} (hm : seen m) (h : m < n) : rank seen m < rank seen n :=
  Nat.count_strict_mono hm h

theorem rank_of_all (h : ∀ n, seen n) (n : Nat) : rank seen n = n := by
  induction n with
  | zero => rfl
  | succ n ih => rw [rank_succ, ih, if_pos (h n)]

variable {α β : Type}

def rest (l : List α) : List α := (l.zipIdx.filter fun p => seen p.2).map (·.1)

@[simp] theorem rest_nil : rest seen ([] : List α) = [] := rfl

theorem rest_append_singleton (l : List α) (a : α) :
    rest seen (l ++ [a]) = if seen l.length then rest seen l ++ [a] else rest seen l := by
  by_cases h : seen l.length <;> simp [rest, List.zipIdx_append, h]

theorem length_rest (l : List α) : (rest seen l).length = rank seen l.length := by
  induction l using List.reverseRecOn with
  | nil => simp
  | append_singleton l a ih =>
      rw [rest_append_singleton, List.length_append, List.length_singleton, rank_succ]
      split <;> simp [ih]

variable {seen}

theorem getElem?_rest {n : Nat} (hn : seen n) (l : List α) :
    (rest seen l)[rank seen n]? = l[n]? := by
  induction l using List.reverseRecOn with
  | nil => simp
  | append_singleton l a ih =>
      rw [rest_append_singleton]
      rcases Nat.lt_trichotomy n l.length with hlt | rfl | hgt
      · have hrank : rank seen n < (rest seen l).length := by
          rw [length_rest]
          exact rank_lt seen hn hlt
        rw [List.getElem?_append_left hlt, ← ih]
        split
        · exact List.getElem?_append_left hrank
        · rfl
      · rw [if_pos hn, ← length_rest, List.getElem?_concat_length, List.getElem?_concat_length]
      · have hlength : (l ++ [a]).length ≤ n := by simpa using Nat.succ_le_of_lt hgt
        have hrank : rank seen (l ++ [a]).length ≤ rank seen n := rank_mono seen hlength
        rw [← length_rest, rest_append_singleton] at hrank
        rw [List.getElem?_eq_none hlength, List.getElem?_eq_none hrank]

theorem rest_set {n : Nat} (hn : seen n) (l : List α) (a : α) :
    rest seen (l.set n a) = (rest seen l).set (rank seen n) a := by
  induction l using List.reverseRecOn with
  | nil => simp
  | append_singleton l b ih =>
      rcases Nat.lt_trichotomy n l.length with hlt | rfl | hgt
      · have hrank : rank seen n < (rest seen l).length := by
          rw [length_rest]
          exact rank_lt seen hn hlt
        rw [List.set_append_left _ _ hlt, rest_append_singleton, rest_append_singleton, ih,
          List.length_set]
        split
        · rw [List.set_append_left _ _ hrank]
        · rfl
      · have hset : (l ++ [b]).set l.length a = l ++ [a] := by simp
        rw [hset, rest_append_singleton, rest_append_singleton, if_pos hn, if_pos hn,
          ← length_rest]
        simp
      · have hlength : (l ++ [b]).length ≤ n := by simpa using Nat.succ_le_of_lt hgt
        have hrank : rank seen (l ++ [b]).length ≤ rank seen n := rank_mono seen hlength
        rw [← length_rest] at hrank
        rw [List.set_eq_of_length_le hlength, List.set_eq_of_length_le hrank]

theorem rest_set_unseen {n : Nat} (hn : ¬ seen n) (l : List α) (a : α) :
    rest seen (l.set n a) = rest seen l := by
  induction l using List.reverseRecOn with
  | nil => simp
  | append_singleton l b ih =>
      rcases Nat.lt_or_ge n l.length with hlt | hge
      · rw [List.set_append_left _ _ hlt, rest_append_singleton, rest_append_singleton, ih,
          List.length_set]
      · rcases Nat.eq_or_lt_of_le hge with rfl | hgt
        · have hset : (l ++ [b]).set l.length a = l ++ [a] := by simp
          rw [hset, rest_append_singleton, rest_append_singleton, if_neg hn, if_neg hn]
        · rw [List.set_eq_of_length_le (by simpa using Nat.succ_le_of_lt hgt)]

theorem mem_rest {l : List α} {a : α} : a ∈ rest seen l ↔ ∃ n, seen n ∧ l[n]? = some a := by
  constructor
  · intro h
    obtain ⟨p, hp, rfl⟩ := List.mem_map.mp h
    obtain ⟨hp, hseen⟩ := List.mem_filter.mp hp
    exact ⟨p.2, hseen, List.mem_zipIdx_iff_getElem?.mp hp⟩
  · rintro ⟨n, hseen, ha⟩
    refine List.mem_map.mpr ⟨(a, n), List.mem_filter.mpr ⟨?_, hseen⟩, rfl⟩
    exact List.mem_zipIdx_iff_getElem?.mpr ha

end

/-! ## Names -/

namespace Keyed

variable {α β : Type} {seen : String → Bool} {f : α → β}

theorem lookup?_filter {id : String} (hid : seen id) (items : Keyed α) :
    lookup? id (items.filter fun p => seen p.1) = lookup? id items := by
  induction items with
  | nil => rfl
  | cons head items ih =>
      obtain ⟨k, a⟩ := head
      by_cases hk : k = id
      · simp [lookup?, hk, hid]
      · by_cases hseen : seen k <;> simp [lookup?, hk, hseen, ih]

theorem erase_filter {id : String} (hid : seen id) (items : Keyed α) :
    (erase id items).filter (fun p => seen p.1) = erase id (items.filter fun p => seen p.1) := by
  induction items with
  | nil => rfl
  | cons head items ih =>
      obtain ⟨k, a⟩ := head
      by_cases hk : k = id
      · simp [erase, hk, hid]
      · by_cases hseen : seen k <;> simp [erase, hk, hseen, ih]

theorem erase_filter_unseen {id : String} (hid : ¬ seen id) (items : Keyed α) :
    (erase id items).filter (fun p => seen p.1) = items.filter fun p => seen p.1 := by
  induction items with
  | nil => rfl
  | cons head items ih =>
      obtain ⟨k, a⟩ := head
      by_cases hk : k = id
      · simp [erase, hk, hid]
      · by_cases hseen : seen k <;> simp [erase, hk, hseen, ih]

theorem insert_first {items : Keyed α} {key : String} (value : α)
    (h : ∀ p ∈ items, key < p.1) : insert key value items = (key, value) :: items := by
  cases items with
  | nil => rfl
  | cons head items => rw [insert, if_pos (h head List.mem_cons_self)]

theorem insert_filter {items : Keyed α} (hsorted : Sorted items) {id : String} (hid : seen id)
    (a : α) : (insert id a items).filter (fun p => seen p.1) =
      insert id a (items.filter fun p => seen p.1) := by
  induction items with
  | nil => simp [insert, hid]
  | cons head items ih =>
      obtain ⟨k, b⟩ := head
      obtain ⟨hhead, hitems⟩ := List.pairwise_cons.mp hsorted
      by_cases hlt : id < k
      · have hall : ∀ p ∈ ((k, b) :: items).filter (fun p => seen p.1), id < p.1 := by
          intro p hp
          rcases List.mem_cons.mp (List.mem_filter.mp hp).1 with rfl | hp
          · exact hlt
          · exact String.lt_trans hlt (hhead p hp)
        rw [insert_first a hall, insert, if_pos hlt, List.filter_cons_of_pos (by simpa using hid)]
      · by_cases hk : k = id
        · subst hk
          simp [insert, hid]
        · by_cases hseen : seen k <;> simp [insert, hlt, hk, hseen, ih hitems]

theorem insert_filter_unseen {id : String} (hid : ¬ seen id) (a : α) (items : Keyed α) :
    (insert id a items).filter (fun p => seen p.1) = items.filter fun p => seen p.1 := by
  induction items with
  | nil => simp [insert, hid]
  | cons head items ih =>
      obtain ⟨k, b⟩ := head
      simp only [insert]
      split
      · simp [hid]
      · split
        · rename_i hk
          simp [hk, hid]
        · by_cases hseen : seen k <;> simp [hseen, ih]

/-! ## Values that are replaced -/

def mapValues (f : α → β) (items : Keyed α) : Keyed β := items.map fun p => (p.1, f p.2)

theorem lookup?_mapValues (id : String) (items : Keyed α) :
    lookup? id (mapValues f items) = (lookup? id items).map f := by
  induction items with
  | nil => rfl
  | cons head items ih =>
      obtain ⟨k, a⟩ := head
      by_cases hk : k = id
      · simp [mapValues, lookup?, hk]
      · simpa [mapValues, lookup?, hk] using ih

theorem insert_mapValues (id : String) (a : α) (items : Keyed α) :
    mapValues f (insert id a items) = insert id (f a) (mapValues f items) := by
  induction items with
  | nil => rfl
  | cons head items ih =>
      obtain ⟨k, b⟩ := head
      by_cases hlt : id < k
      · simp [mapValues, insert, hlt]
      · by_cases hk : k = id
        · simp [mapValues, insert, hk]
        · simpa [mapValues, insert, hlt, hk] using ih

theorem erase_mapValues (id : String) (items : Keyed α) :
    mapValues f (erase id items) = erase id (mapValues f items) := by
  induction items with
  | nil => rfl
  | cons head items ih =>
      obtain ⟨k, b⟩ := head
      by_cases hk : k = id
      · simp [mapValues, erase, hk]
      · simpa [mapValues, erase, hk] using ih

end Keyed

end TabRelay
