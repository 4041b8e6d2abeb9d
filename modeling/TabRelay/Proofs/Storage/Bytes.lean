import TabRelay.Proofs.Storage.PlainMap

/-!
# The bytes of a map

A write adds the bytes of its own entry to those of all other entries, and what
is taken out of a map frees the bytes of what was taken out.  So an area with a
quota is within it after every operation.
-/

namespace TabRelay.Storage

namespace PlainMap

def bytesOf (m : PlainMap) (keys : Finset String) : Nat :=
  ∑ key ∈ keys, entryBytes key ((m.get? key).getD "")

def IsPart (part whole : PlainMap) : Prop :=
  ∀ key ∈ part.keys, part.get? key = whole.get? key

theorem IsPart.keys_subset {part whole : PlainMap} (h : part.IsPart whole) :
    part.keys ⊆ whole.keys := by
  intro key hkey
  have hpart := (part.mem_keys key).mp hkey
  rw [h key hkey] at hpart
  exact (whole.mem_keys key).mpr hpart

theorem IsPart.bytes_add {part whole : PlainMap} (h : part.IsPart whole) :
    part.bytes + whole.bytesOf (whole.keys \ part.keys) = whole.bytes := by
  have hpart : part.bytes = whole.bytesOf part.keys := by
    refine Finset.sum_congr rfl ?_
    intro key hkey
    rw [h key hkey]
  rw [hpart, add_comm]
  exact Finset.sum_sdiff h.keys_subset

theorem IsPart.bytes_le {part whole : PlainMap} (h : part.IsPart whole) :
    part.bytes ≤ whole.bytes := by
  have hadd := h.bytes_add
  omega

theorem empty_isPart (m : PlainMap) : empty.IsPart m := by
  intro key hkey
  simp [empty] at hkey

@[simp] theorem bytes_empty : empty.bytes = 0 := rfl

theorem erase_isPart (m : PlainMap) (key : String) : (m.erase key).IsPart m := by
  intro other hother
  have hne : other ≠ key := (Finset.mem_erase.mp hother).1
  exact Function.update_of_ne hne ..

theorem bytes_set (m : PlainMap) (key text : String) :
    (m.set key text).bytes = (m.erase key).bytes + entryBytes key text := by
  have hpart : (m.erase key).IsPart (m.set key text) := by
    intro other hother
    have hne : other ≠ key := (Finset.mem_erase.mp hother).1
    simp only [erase, set, Function.update_of_ne hne]
  have hnew : (m.set key text).keys \ (m.erase key).keys = {key} := by
    ext other
    simp only [set, erase, Finset.mem_sdiff, Finset.mem_insert, Finset.mem_erase,
      Finset.mem_singleton]
    tauto
  rw [← hpart.bytes_add, hnew, bytesOf, Finset.sum_singleton]
  simp [set]

theorem bytes_erase {m : PlainMap} {key old : String} (hold : m.get? key = some old) :
    (m.erase key).bytes + entryBytes key old = m.bytes := by
  have hkey : key ∈ m.keys := (m.mem_keys key).mpr (by simp [hold])
  have hremoved : m.keys \ (m.erase key).keys = {key} := by
    rw [erase, Finset.sdiff_erase hkey, Finset.sdiff_self]
    rfl
  have hadd := (m.erase_isPart key).bytes_add
  simpa [hremoved, bytesOf, hold] using hadd

theorem bytes_set_le {m : PlainMap} {key old text : String} (hold : m.get? key = some old)
    (hshort : text.utf8ByteSize ≤ old.utf8ByteSize) : (m.set key text).bytes ≤ m.bytes := by
  have hset := m.bytes_set key text
  have herase := bytes_erase hold
  simp only [entryBytes] at hset herase
  omega

end PlainMap

namespace PlainArea

structure Within (area : PlainArea) (limit : Nat) : Prop where
  quota : area.quota = some limit
  bytes : area.map.bytes ≤ limit

theorem perform_set_of_fits {area : PlainArea} {limit : Nat} {key text : String}
    (hquota : area.quota = some limit) (hfits : (area.map.set key text).bytes ≤ limit) :
    area.perform (.set key text) = area.becoming (some key) (area.map.set key text) := by
  simp only [PlainArea.perform, hquota]
  exact if_pos hfits

theorem Within.becoming {area : PlainArea} {limit : Nat} (h : area.Within limit)
    (key : Option String) {map : PlainMap} (hmap : map.bytes ≤ limit) :
    (area.becoming key map).area.Within limit :=
  ⟨h.quota, hmap⟩

theorem Within.perform {area : PlainArea} {limit : Nat} (h : area.Within limit)
    (operation : Operation) : (area.perform operation).area.Within limit := by
  cases operation with
  | set key text =>
      simp only [PlainArea.perform, h.quota]
      split
      · rename_i hfits
        exact h.becoming _ hfits
      · exact h
  | remove key => exact h.becoming _ ((area.map.erase_isPart key).bytes_le.trans h.bytes)
  | clear => exact h.becoming _ ((area.map.empty_isPart).bytes_le.trans h.bytes)
  | _ => exact h

end PlainArea

end TabRelay.Storage
