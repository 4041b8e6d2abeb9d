import TabRelay.Proofs.Storage.Refinement

/-!
# Making a change once more from what was told of it

What is told of a change is its key and the text after it, and no key at all when
the area was emptied.  That is enough to make the same change to a copy of the
entries, and making it twice is making it once.
-/

namespace TabRelay

namespace Keyed

variable {α : Type}

theorem insert_eq_self {items : Keyed α} (h : Sorted items) {key : String} {value : α}
    (hlookup : lookup? key items = some value) : insert key value items = items := by
  induction items with
  | nil => contradiction
  | cons head rest ih =>
      obtain ⟨k, v⟩ := head
      have hnot : ¬ key < k := by
        intro hlt
        rw [h.lookup?_of_lt hlt] at hlookup
        contradiction
      simp only [lookup?] at hlookup
      simp only [insert, if_neg hnot]
      split
      · rename_i hk
        rw [if_pos hk, Option.some.injEq] at hlookup
        rw [hk, hlookup]
      · rename_i hk
        rw [if_neg hk] at hlookup
        rw [ih (List.pairwise_cons.mp h).2 hlookup]

theorem erase_eq_self {items : Keyed α} {key : String} (hlookup : lookup? key items = none) :
    erase key items = items := by
  induction items with
  | nil => rfl
  | cons head rest ih =>
      obtain ⟨k, v⟩ := head
      simp only [lookup?] at hlookup
      simp only [erase]
      split
      · rename_i hk
        rw [if_pos hk] at hlookup
        contradiction
      · rename_i hk
        rw [if_neg hk] at hlookup
        rw [ih hlookup]

end Keyed

namespace Storage

def retold (key newText : Option String) (entries : Keyed String) : Keyed String :=
  match key, newText with
  | none, _ => []
  | some key, none => Keyed.erase key entries
  | some key, some text => Keyed.insert key text entries

theorem retold_retold {entries : Keyed String} (h : Keyed.Sorted entries)
    (key newText : Option String) :
    retold key newText (retold key newText entries) = retold key newText entries := by
  cases key with
  | none => rfl
  | some key =>
      cases newText with
      | none =>
          have hgone : Keyed.lookup? key (Keyed.erase key entries) = none := by
            rw [Keyed.lookup?_erase h, if_pos rfl]
          exact Keyed.erase_eq_self hgone
      | some text =>
          have hset : Keyed.lookup? key (Keyed.insert key text entries) = some text := by
            rw [Keyed.lookup?_insert, if_pos rfl]
          exact Keyed.insert_eq_self (Keyed.sorted_insert h key text) hset

theorem lookup?_retold {entries : Keyed String} (h : Keyed.Sorted entries)
    (key newText : Option String) (other : String) :
    Keyed.lookup? other (retold key newText entries) =
      if key = some other then newText
      else if key = none then none else Keyed.lookup? other entries := by
  cases key with
  | none => simp [retold]
  | some key => cases newText <;> simp [retold, Keyed.lookup?_erase h, Keyed.lookup?_insert]

/-! ## Operations -/

def Operation.applyTo (entries : Keyed String) : Operation → Keyed String
  | set key text => Keyed.insert key text entries
  | remove key => Keyed.erase key entries
  | clear => []
  | _ => entries

namespace Area

theorem applyTo_of_done {area : Area} {operation : Operation}
    (h : (area.perform operation).reply = .done) :
    (area.perform operation).area.entries = operation.applyTo area.entries := by
  cases operation with
  | set key text =>
      simp only [perform, set] at h ⊢
      split_ifs at h ⊢ <;> rfl
  | remove key =>
      simp only [perform, remove, Operation.applyTo]
      split
      · rename_i hnone
        exact (Keyed.erase_eq_self hnone).symm
      · rfl
  | clear =>
      simp only [perform, clear, Operation.applyTo]
      split
      · rename_i hempty
        exact List.isEmpty_iff.mp hempty
      · rfl
  | _ => contradiction

theorem entries_of_quiet {area : Area} (hsorted : Keyed.Sorted area.entries)
    {operation : Operation} (h : (area.perform operation).raised = none) :
    (area.perform operation).area.entries = area.entries := by
  cases operation with
  | set key text =>
      by_cases hfits : area.fits key text
      · by_cases hold : area.get? key = some text
        · simpa [perform, set, hfits, hold] using Keyed.insert_eq_self hsorted hold
        · simp [perform, set, hfits, hold] at h
      · simp [perform, set, hfits]
  | remove key =>
      simp only [perform, remove] at h ⊢
      split at h <;> first | rfl | contradiction
  | clear =>
      simp only [perform, clear] at h ⊢
      split_ifs at h ⊢
      rfl
  | _ => rfl

theorem entries_of_raised {area : Area} {operation : Operation} {event : Event}
    (h : (area.perform operation).raised = some event) :
    (area.perform operation).area.entries = retold event.key event.newText area.entries ∧
      event.oldText = event.key.bind area.get? ∧ event.area = some area.kind := by
  cases operation with
  | set key text =>
      simp only [perform, set] at h ⊢
      split_ifs at h ⊢
      cases h
      exact ⟨rfl, rfl, rfl⟩
  | remove key =>
      simp only [perform, remove] at h ⊢
      split at h
      · contradiction
      · rename_i old hold
        cases h
        exact ⟨rfl, hold.symm, rfl⟩
  | clear =>
      simp only [perform, clear] at h ⊢
      split_ifs at h ⊢
      cases h
      exact ⟨rfl, rfl, rfl⟩
  | _ => contradiction

end Area

/-! ## Replays -/

/-- A copy of the entries goes by the events from the first state to the last one, and each
event has the text before it as the copy has it. -/
def Replays : Keyed String → List Event → Keyed String → Prop
  | entries, [], last => entries = last
  | entries, event :: later, last =>
      event.oldText = event.key.bind (Keyed.lookup? · entries) ∧
        Replays (retold event.key event.newText entries) later last

theorem Replays.append {first middle last : Keyed String} {events later : List Event}
    (h : Replays first events middle) (hlater : Replays middle later last) :
    Replays first (events ++ later) last := by
  induction events generalizing first with
  | nil =>
      cases h
      exact hlater
  | cons event events ih => exact ⟨h.1, ih h.2⟩

end Storage

end TabRelay
