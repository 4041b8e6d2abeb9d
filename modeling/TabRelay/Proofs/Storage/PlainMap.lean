import Mathlib.Algebra.BigOperators.Group.Finset.Basic
import Mathlib.Data.Finset.Sort
import Mathlib.Data.String.Basic
import TabRelay.Proofs.Storage.Operation

/-!
# Finite maps from texts to texts

A `PlainMap` is a look-up function together with the finite set of keys that it
knows.  Maps with the same look-up are equal, and a `PlainArea` is what a storage
area is without tabs and subscribers: a map with a quota.  Its operations say
what they do to the map and that one event tells of a change.
-/

namespace TabRelay.Storage

structure PlainMap where
  get? : String → Option String
  keys : Finset String
  mem_keys : ∀ key, key ∈ keys ↔ get? key ≠ none

namespace PlainMap

theorem ext_get {a b : PlainMap} (h : ∀ key, a.get? key = b.get? key) : a = b := by
  have hget : a.get? = b.get? := funext h
  have hkeys : a.keys = b.keys := by
    ext key
    rw [a.mem_keys, b.mem_keys, hget]
  cases a
  cases b
  simp_all

instance : DecidableEq PlainMap := fun a b =>
  decidable_of_iff (∀ key ∈ a.keys ∪ b.keys, a.get? key = b.get? key) <| by
    constructor
    · intro h
      refine ext_get fun key => ?_
      by_cases hkey : key ∈ a.keys ∪ b.keys
      · exact h key hkey
      · simp only [Finset.mem_union, a.mem_keys, b.mem_keys, not_or, not_not] at hkey
        rw [hkey.1, hkey.2]
    · rintro rfl key _
      rfl

def empty : PlainMap where
  get? _ := none
  keys := ∅
  mem_keys := by simp

def set (m : PlainMap) (key text : String) : PlainMap where
  get? := Function.update m.get? key (some text)
  keys := insert key m.keys
  mem_keys other := by
    by_cases h : other = key
    · simp [h]
    · simp [h, m.mem_keys]

def erase (m : PlainMap) (key : String) : PlainMap where
  get? := Function.update m.get? key none
  keys := m.keys.erase key
  mem_keys other := by
    by_cases h : other = key
    · simp [h]
    · simp [h, m.mem_keys]

def ofPairs (pairs : List (String × String)) : PlainMap :=
  pairs.foldl (fun m (key, text) => m.set key text) empty

def size (m : PlainMap) : Nat := m.keys.card

def keyAt? (m : PlainMap) (index : Nat) : Option String := m.keys.sort[index]?

def bytes (m : PlainMap) : Nat := ∑ key ∈ m.keys, entryBytes key ((m.get? key).getD "")

end PlainMap

/-! ## Areas without tabs -/

structure PlainArea where
  kind : AreaKind
  quota : Option Nat
  map : PlainMap

namespace PlainArea

/-- One event tells of a change, with the text before and after; nothing is
raised when the map is as it was. -/
def becoming (area : PlainArea) (key : Option String) (map : PlainMap) : Outcome PlainArea where
  area := { area with map }
  raised :=
    if map = area.map then none
    else some ⟨key, key.bind area.map.get?, key.bind map.get?, some area.kind⟩
  reply := .done

def perform (area : PlainArea) : Operation → Outcome PlainArea
  | .set key text =>
      let map := area.map.set key text
      match area.quota with
      | none => area.becoming (some key) map
      | some quota =>
          if map.bytes ≤ quota then area.becoming (some key) map
          else ⟨area, none, .refused (.quotaExceeded key quota)⟩
  | .remove key => area.becoming (some key) (area.map.erase key)
  | .clear => area.becoming none .empty
  | .length => ⟨area, none, .count area.map.size⟩
  | .keyAt index => ⟨area, none, .text (area.map.keyAt? index)⟩
  | .get key => ⟨area, none, .text (area.map.get? key)⟩

end PlainArea

end TabRelay.Storage
