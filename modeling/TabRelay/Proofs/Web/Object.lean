import Mathlib.Data.List.Perm.Basic
import TabRelay.Proofs.Text.Keyed
import TabRelay.Web.Value

/-!
# The fields of an object

An object that is made field by field has exactly the fields that were set, in the
order in which the engine enumerates them.  Made of a snapshot, it lacks the one
field that cannot be made by setting it.
-/

namespace TabRelay.Web

namespace Value

variable {fields : List (String × Value)} {key : String} {value : Value}

theorem setField_new (h : key ∉ fields.map (·.1)) :
    setField key value fields = fields ++ [(key, value)] := by
  induction fields with
  | nil => rfl
  | cons head rest ih =>
      obtain ⟨k, v⟩ := head
      simp only [List.map_cons, List.mem_cons, not_or] at h
      rw [setField, if_neg (Ne.symm h.1), ih h.2]
      rfl

theorem foldl_setField (fields pairs : List (String × Value))
    (h : ((fields ++ pairs).map (·.1)).Nodup) :
    pairs.foldl (fun fields (k, v) => setField k v fields) fields = fields ++ pairs := by
  induction pairs generalizing fields with
  | nil => simp
  | cons pair rest ih =>
      obtain ⟨k, v⟩ := pair
      have hnew : k ∉ fields.map (·.1) := by
        simp only [List.map_append, List.map_cons, List.nodup_append] at h
        exact fun hk => h.2.2 k hk k List.mem_cons_self rfl
      have hrest := ih (fields ++ [(k, v)]) (by simpa using h)
      simp only [List.foldl_cons, setField_new hnew, hrest]
      simp

/-! ## Enumeration -/

theorem insertIndexed_perm (index : Nat) (field : String × Value)
    (indexed : List (Nat × String × Value)) :
    ((insertIndexed index field indexed).map (·.2)).Perm (field :: indexed.map (·.2)) := by
  induction indexed with
  | nil => exact .refl _
  | cons head rest ih =>
      obtain ⟨i, f⟩ := head
      rw [insertIndexed]
      split
      · exact .refl _
      · exact (ih.cons f).trans (.swap ..)

theorem indexed_perm (fields : List (String × Value)) (indexed : List (Nat × String × Value)) :
    ((fields.foldl (fun acc field =>
      match arrayIndex? field.1 with
      | some i => insertIndexed i field acc
      | none => acc) indexed).map (·.2)).Perm
      (indexed.map (·.2) ++ fields.filter fun field => (arrayIndex? field.1).isSome) := by
  induction fields generalizing indexed with
  | nil => simp
  | cons field rest ih =>
      rw [List.foldl_cons]
      refine (ih _).trans ?_
      cases hindex : arrayIndex? field.1 with
      | none => simp [hindex]
      | some i =>
          have hinsert := insertIndexed_perm i field indexed
          simp only [List.filter_cons, hindex, Option.isSome_some, if_true]
          exact (hinsert.append_right _).trans List.perm_middle.symm

theorem enumerated_perm (fields : List (String × Value)) : (enumerated fields).Perm fields := by
  have hindexed := indexed_perm fields []
  have hsplit := List.filter_append_perm (fun field => (arrayIndex? field.1).isSome) fields
  simp only [Option.not_isSome] at hsplit
  exact (hindexed.append_right _).trans hsplit

theorem fields_ofPairs_perm {pairs : List (String × Value)} (h : (pairs.map (·.1)).Nodup) :
    (ofPairs pairs).fields.Perm pairs := by
  have hset := foldl_setField [] pairs h
  rw [ofPairs, hset]
  exact enumerated_perm pairs

/-! ## Snapshots -/

theorem mem_fields_ofSnapshot {s : Snapshot} (h : Keyed.Sorted s) :
    ((ofSnapshot s).fields.map (·.1)).Nodup ∧
      ∀ key value, (key, value) ∈ (ofSnapshot s).fields ↔
        ∃ text, Keyed.lookup? key s = some text ∧ key ≠ "__proto__" ∧ value = .string text := by
  let kept := s.filter fun entry => entry.1 ≠ "__proto__"
  have hnodup : ((kept.map fun entry => (entry.1, string entry.2)).map (·.1)).Nodup := by
    rw [List.map_map]
    exact (h.nodup_keys).sublist (List.filter_sublist.map _)
  have hperm : (ofSnapshot s).fields.Perm (kept.map fun entry => (entry.1, string entry.2)) :=
    fields_ofPairs_perm hnodup
  refine ⟨(hperm.map _).nodup_iff.mpr hnodup, ?_⟩
  intro key value
  rw [hperm.mem_iff]
  constructor
  · intro hmem
    obtain ⟨⟨k, text⟩, hkept, heq⟩ := List.mem_map.mp hmem
    obtain ⟨hstored, hname⟩ := List.mem_filter.mp hkept
    cases heq
    exact ⟨text, Keyed.lookup?_of_mem h hstored, by simpa using hname, rfl⟩
  · rintro ⟨text, hlookup, hname, rfl⟩
    have hkept : (key, text) ∈ kept :=
      List.mem_filter.mpr ⟨Keyed.mem_of_lookup? hlookup, by simpa using hname⟩
    exact List.mem_map.mpr ⟨(key, text), hkept, rfl⟩

end Value

end TabRelay.Web
