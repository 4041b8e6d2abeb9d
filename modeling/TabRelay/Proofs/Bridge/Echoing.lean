import TabRelay.Proofs.Bridge.Taking

/-!
# Notices are read back as writes

The message that tells of a change has the form of a message that asks for a write.  An
application that returns it asks for what it is told of: the notice of its own write
repeats this write, and the notice of another tab's change asks for the text that the key
has now.  Only the notice of an area that was emptied asks for nothing.
-/

namespace TabRelay.Bridge

open TabRelay.Storage TabRelay.Web

/-! ## What the message of a notice asks for -/

theorem parseWrite_committed (key : String) (value : Option Value) :
    parseWrite (changeMessage (.committed key value)) =
      .ok ⟨key, value.filter (!·.isNullish)⟩ := by
  rw [changeMessage, parseWrite_pair]
  cases value with
  | none => rfl
  | some value =>
      cases hnullish : value.isNullish <;>
        simp [Option.filter, hnullish, Write.remove, Write.store]

theorem parseWrite_external (key : String) (newText : Option String) :
    parseWrite (changeMessage (.external (some key) newText)) =
      .ok ⟨key, newText.map .string⟩ := by
  cases newText <;> rfl

theorem parseWrite_cleared (newText : Option String) :
    parseWrite (changeMessage (.external none newText)) =
      .error (.malformedMessage (changeMessage (.external none newText))) := rfl

theorem Asks.filter_value {message : Value} {w : Write Value} (h : Asks message w) :
    w.value.filter (!·.isNullish) = w.value := by
  cases h with
  | removal => rfl
  | removalOf habsent => rfl
  | @storing key value rest hundefined hnull =>
      have hvalue : value.isNullish = false := by
        rw [Bool.eq_false_iff, ne_eq, isNullish_iff]
        exact not_or.mpr ⟨hundefined, hnull⟩
      simp [Write.store, Option.filter, hvalue]

/-! ## Taking it -/

theorem callPortCallback_congr {message other : Value} (h : parseWrite message = parseWrite other)
    (i : Nat) : callPortCallback message i = callPortCallback other i := by
  have htake (relay : Relay) : takeMessage relay message = takeMessage relay other := by
    rw [takeMessage, takeMessage, h]
  simp only [callPortCallback, htake]

/--
The notice of a write that was asked for is a pair that asks for the same write, and whoever
takes it does what the first message made it do.  The notice of another tab's change of a key
asks for this key to be removed, if it was removed, and else for its text, as a string.  Of all
notices only that of an emptied area is malformed.
-/
theorem notices_are_read_back :
    (∀ message w, parseWrite message = .ok w →
      (∃ value, changeMessage (.committed w.key w.value) = .array [.string w.key, value]) ∧
        parseWrite (changeMessage (.committed w.key w.value)) = .ok w ∧
        ∀ i, callPortCallback (changeMessage (.committed w.key w.value)) i =
          callPortCallback message i) ∧
      (∀ (event : Event) key, event.key = some key →
        ∃ w, parseWrite (changeMessage (.external event.key event.newText)) = .ok w ∧
          w.key = key ∧ (w.isRemoval ↔ event.newText = none) ∧
          ∀ text, event.newText = some text → w.value = some (.string text)) ∧
      ∀ change : Change Value, (∃ e, parseWrite (changeMessage change) = .error e) ↔
        ∃ newText, change = .external none newText := by
  refine ⟨fun message w hparsed => ?_, fun event key hkey => ?_, fun change => ?_⟩
  · have hsame : parseWrite (changeMessage (.committed w.key w.value)) = .ok w := by
      rw [parseWrite_committed, (parseWrite_ok_iff.mp hparsed).filter_value]
    exact ⟨⟨_, rfl⟩, hsame, callPortCallback_congr (hsame.trans hparsed.symm)⟩
  · rw [hkey]
    refine ⟨_, parseWrite_external key event.newText, rfl, ?_, ?_⟩
    · simp [Write.isRemoval]
    · intro text htext
      simp [htext]
  · constructor
    · rintro ⟨e, he⟩
      cases change with
      | committed key value =>
          rw [parseWrite_committed] at he
          contradiction
      | external key newText =>
          cases key with
          | none => exact ⟨newText, rfl⟩
          | some key =>
              rw [parseWrite_external] at he
              contradiction
    · rintro ⟨newText, rfl⟩
      exact ⟨_, parseWrite_cleared newText⟩

theorem long_message_is_read_back :
    parseWrite (changeMessage (.committed "k" (some (.bool false)))) =
        .ok (.store "k" (.bool false)) ∧
      (∀ i, callPortCallback (.array [.string "k", .bool false]) i =
        callPortCallback (.array [.string "k", .bool false, .null]) i) ∧
      ∃ w, parseWrite (changeMessage (.external (some "k") none)) = .ok w ∧ w.isRemoval := by
  obtain ⟨-, hsame, hcallback⟩ := notices_are_read_back.1
    (.array [.string "k", .bool false, .null]) (.store "k" (.bool false)) rfl
  obtain ⟨w, hparsed, -, hremoval, -⟩ :=
    notices_are_read_back.2.1 ⟨some "k", some "1", none, some .localArea⟩ "k" rfl
  exact ⟨hsame, hcallback, w, hparsed, hremoval.mpr rfl⟩

end TabRelay.Bridge
