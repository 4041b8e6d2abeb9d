import TabRelay.Proofs.Storage.PlainMap
import TabRelay.Proofs.Text.Keyed

/-!
# A storage area is a plain map

The entries of an area are a list in the order of the keys.  `Area.plain` forgets
the list, the tabs and the subscribers.  On sorted entries each operation does to
the list what it does to the map, with the same event and the same reply.
-/

namespace TabRelay.Storage

/-! ## Bytes -/

theorem replacedBytes_le (key : String) (entries : Keyed String) :
    replacedBytes key entries ≤ usedBytes entries := by
  induction entries with
  | nil => simp [replacedBytes, Keyed.lookup?]
  | cons head rest ih =>
      obtain ⟨k, v⟩ := head
      simp only [replacedBytes, Keyed.lookup?, usedBytes] at ih ⊢
      by_cases h : k = key
      · subst h
        simp
      · simp only [h, if_false]
        omega

theorem usedBytes_insert {entries : Keyed String} (h : Keyed.Sorted entries)
    (key text : String) :
    usedBytes (Keyed.insert key text entries) =
      usedBytes entries - replacedBytes key entries + entryBytes key text := by
  induction entries with
  | nil => simp [usedBytes, Keyed.insert, replacedBytes, Keyed.lookup?]
  | cons head rest ih =>
      obtain ⟨k, v⟩ := head
      have hrest := ih (List.pairwise_cons.mp h).2
      have hle := replacedBytes_le key rest
      simp only [Keyed.insert]
      split
      · rename_i hlt
        simp only [replacedBytes, h.lookup?_of_lt hlt, usedBytes]
        omega
      · split
        · rename_i hk
          subst hk
          simp only [replacedBytes, Keyed.lookup?, usedBytes, if_true]
          omega
        · rename_i hk
          simp only [replacedBytes, Keyed.lookup?, usedBytes, hk, if_false] at hrest hle ⊢
          omega

/-! ## The map that the entries are -/

namespace PlainMap

def ofEntries (entries : Keyed String) : PlainMap where
  get? key := Keyed.lookup? key entries
  keys := entries.keys.toFinset
  mem_keys key := by
    rw [List.mem_toFinset, Ne, Keyed.lookup?_eq_none_iff, not_not]

theorem ofEntries_nil : ofEntries [] = empty := ext_get fun _ => rfl

theorem ofEntries_insert (key text : String) (entries : Keyed String) :
    ofEntries (Keyed.insert key text entries) = (ofEntries entries).set key text := by
  refine ext_get fun other => ?_
  simp only [ofEntries, set, Keyed.lookup?_insert, Function.update_apply, eq_comm]

theorem ofEntries_erase {entries : Keyed String} (h : Keyed.Sorted entries) (key : String) :
    ofEntries (Keyed.erase key entries) = (ofEntries entries).erase key := by
  refine ext_get fun other => ?_
  simp only [ofEntries, erase, Keyed.lookup?_erase h, Function.update_apply, eq_comm]

theorem ofEntries_ofPairs (pairs : List (String × String)) :
    ofEntries (Keyed.ofPairs pairs) = ofPairs pairs := by
  unfold Keyed.ofPairs ofPairs
  rw [← ofEntries_nil]
  generalize ([] : Keyed String) = entries
  induction pairs generalizing entries with
  | nil => rfl
  | cons p rest ih => simp only [List.foldl_cons, ih, ofEntries_insert]

theorem ofEntries_inj_empty {entries : Keyed String} (h : ofEntries entries = empty) :
    entries = [] := by
  cases entries with
  | nil => rfl
  | cons head rest =>
      have hget := congrFun (congrArg get? h) head.1
      simp [ofEntries, empty, Keyed.lookup?] at hget

theorem size_ofEntries {entries : Keyed String} (h : Keyed.Sorted entries) :
    (ofEntries entries).size = entries.length := by
  have hcard : entries.keys.toFinset.card = entries.keys.length :=
    List.toFinset_card_of_nodup h.nodup_keys
  exact hcard.trans (List.length_map _)

theorem keyAt?_ofEntries {entries : Keyed String} (h : Keyed.Sorted entries) (index : Nat) :
    (ofEntries entries).keyAt? index = entries[index]?.map (·.1) := by
  have hsort : entries.keys.toFinset.sort = entries.keys :=
    (List.toFinset_sort _ h.nodup_keys).mpr h.pairwise_keys
  calc (ofEntries entries).keyAt? index
      = (entries.keys.toFinset.sort)[index]? := rfl
    _ = entries.keys[index]? := by rw [hsort]
    _ = entries[index]?.map (·.1) := List.getElem?_map

theorem bytes_ofEntries {entries : Keyed String} (h : Keyed.Sorted entries) :
    (ofEntries entries).bytes = usedBytes entries := by
  simp only [bytes, ofEntries, List.sum_toFinset _ h.nodup_keys]
  induction entries with
  | nil => rfl
  | cons head rest ih =>
      obtain ⟨k, v⟩ := head
      have hnone := Keyed.lookup?_eq_none_iff.mp h.lookup?_tail
      have hrest := ih (List.pairwise_cons.mp h).2
      simp only [Keyed.keys, List.map_cons, List.sum_cons, usedBytes] at hrest ⊢
      rw [← hrest]
      congr 1
      · simp [Keyed.lookup?]
      · refine congrArg List.sum (List.map_congr_left fun key hkey => ?_)
        have hne : k ≠ key := by
          rintro rfl
          exact hnone hkey
        simp only [Keyed.lookup?, hne, if_false]

end PlainMap

/-! ## The operations -/

namespace Area

def plain (area : Area) : PlainArea := ⟨area.kind, area.quota, .ofEntries area.entries⟩

theorem neededBytes_eq {area : Area} (h : Keyed.Sorted area.entries) (key text : String) :
    area.neededBytes key text = (area.plain.map.set key text).bytes := by
  unfold neededBytes
  rw [← usedBytes_insert h, plain, ← PlainMap.ofEntries_insert,
    PlainMap.bytes_ofEntries (Keyed.sorted_insert h key text)]

end Area

/-- What the outcome of an operation on a plain area says of one on an area: all
but that a length is counted in 32 bits. -/
structure Refines (outcome : Outcome Area) (plain : Outcome PlainArea) : Prop where
  area : outcome.area.plain = plain.area
  raised : outcome.raised = plain.raised
  reply : outcome.reply = plain.reply.inWord

namespace PlainMap

theorem set_eq_self_iff {m : PlainMap} {key text : String} :
    m.set key text = m ↔ m.get? key = some text := by
  constructor
  · intro heq
    have hget := congrFun (congrArg get? heq) key
    exact hget.symm.trans (Function.update_self ..)
  · intro hold
    refine ext_get fun other => ?_
    by_cases hother : other = key
    · subst hother
      exact (Function.update_self ..).trans hold.symm
    · exact Function.update_of_ne hother ..

theorem erase_eq_self_iff {m : PlainMap} {key : String} :
    m.erase key = m ↔ m.get? key = none := by
  constructor
  · intro heq
    have hget := congrFun (congrArg get? heq) key
    exact hget.symm.trans (Function.update_self ..)
  · intro hold
    refine ext_get fun other => ?_
    by_cases hother : other = key
    · subst hother
      exact (Function.update_self ..).trans hold.symm
    · exact Function.update_of_ne hother ..

end PlainMap

namespace Area

theorem plain_perform_set {area : Area} (h : Keyed.Sorted area.entries) (key text : String) :
    area.plain.perform (.set key text) =
      if area.fits key text then area.plain.becoming (some key) (area.plain.map.set key text)
      else ⟨area.plain, none, .refused (.quotaExceeded key (area.quota.getD 0))⟩ := by
  have hquota : area.plain.quota = area.quota := rfl
  simp only [PlainArea.perform, fits, hquota, neededBytes_eq h]
  cases area.quota with
  | none => rfl
  | some quota => simp only [decide_eq_true_eq, Option.getD_some]

theorem stored_refines (area : Area) (key text : String) :
    Refines
      ⟨{ area with entries := Keyed.insert key text area.entries },
        if area.get? key = some text then none
        else some ⟨some key, area.get? key, some text, some area.kind⟩, .done⟩
      (area.plain.becoming (some key) (area.plain.map.set key text)) where
  area := by simp only [PlainArea.becoming, plain, PlainMap.ofEntries_insert]
  raised := by
    simp only [PlainArea.becoming, PlainMap.set_eq_self_iff]
    refine if_congr Iff.rfl rfl ?_
    simp only [Option.bind_some, PlainMap.set, Function.update_self]
    rfl
  reply := rfl

theorem set_refines {area : Area} (h : Keyed.Sorted area.entries) (key text : String) :
    Refines (area.perform (.set key text)) (area.plain.perform (.set key text)) := by
  have hstored := stored_refines area key text
  simp only [plain_perform_set h, perform, set]
  by_cases hfits : area.fits key text
  · by_cases hold : area.get? key = some text
    · simpa [hfits, hold] using hstored
    · simpa [hfits, hold] using hstored
  · simp only [hfits]
    exact ⟨rfl, rfl, rfl⟩

theorem remove_refines {area : Area} (h : Keyed.Sorted area.entries) (key : String) :
    Refines (area.perform (.remove key)) (area.plain.perform (.remove key)) := by
  have hmap := PlainMap.ofEntries_erase h key
  simp only [perform, PlainArea.perform, PlainArea.becoming, PlainMap.erase_eq_self_iff]
  have hget : area.plain.map.get? key = area.get? key := rfl
  cases hold : area.get? key with
  | none =>
      have hsame : area.plain.map.erase key = area.plain.map :=
        PlainMap.erase_eq_self_iff.mpr (hget.trans hold)
      refine ⟨?_, ?_, rfl⟩
      · simp [remove, hold, hsame]
      · simp [remove, hold, hget]
  | some old =>
      refine ⟨?_, ?_, rfl⟩
      · simp [remove, hold, plain, hmap]
      · simp [remove, hold, hget, PlainMap.erase]
        rfl

theorem clear_refines (area : Area) :
    Refines (area.perform .clear) (area.plain.perform .clear) := by
  simp only [perform, PlainArea.perform, PlainArea.becoming, clear]
  cases hentries : area.entries with
  | nil =>
      have hempty : PlainMap.empty = area.plain.map := by
        simp only [plain, hentries, PlainMap.ofEntries_nil]
      refine ⟨?_, ?_, rfl⟩
      · simp [plain, hentries, PlainMap.ofEntries_nil]
      · simp [← hempty]
  | cons head rest =>
      have hne : PlainMap.empty ≠ area.plain.map := by
        intro heq
        have hnil := PlainMap.ofEntries_inj_empty heq.symm
        simp [hentries] at hnil
      refine ⟨?_, ?_, rfl⟩
      · simp [plain, PlainMap.ofEntries_nil]
      · simp only [if_neg hne]
        rfl

theorem perform_refines {area : Area} (h : Keyed.Sorted area.entries) (operation : Operation) :
    Refines (area.perform operation) (area.plain.perform operation) := by
  cases operation with
  | set key text => exact set_refines h key text
  | remove key => exact remove_refines h key
  | clear => exact clear_refines area
  | length =>
      refine ⟨rfl, rfl, ?_⟩
      simp only [perform, PlainArea.perform, length, plain, PlainMap.size_ofEntries h, Reply.inWord]
  | keyAt index =>
      refine ⟨rfl, rfl, ?_⟩
      simp only [perform, PlainArea.perform, keyAt?, plain, PlainMap.keyAt?_ofEntries h,
        Reply.inWord]
  | get key => exact ⟨rfl, rfl, rfl⟩

theorem sorted_perform {area : Area} (h : Keyed.Sorted area.entries) (operation : Operation) :
    Keyed.Sorted (area.perform operation).area.entries := by
  cases operation with
  | set key text =>
      have hinsert := Keyed.sorted_insert h key text
      simp only [perform, set]
      split_ifs <;> assumption
  | remove key =>
      have herase := Keyed.sorted_erase h key
      simp only [perform, remove]
      split <;> assumption
  | clear =>
      simp only [perform, clear]
      split
      · exact h
      · exact Keyed.sorted_nil
  | _ => exact h

end Area

end TabRelay.Storage
