import Mathlib.Tactic.IntervalCases
import TabRelay.Json.Reading

/-!
# Texts and numbers are read as they are written

An escaped character is read as the character, so a quoted text is read as the
text; the digits of a whole number are read as the number.  What follows is left,
as long as it does not go on with the number.
-/

namespace TabRelay.Json

open TabRelay.Decimal TabRelay.Text

namespace Document

/-! ## Texts -/

theorem hexNumber?_padded {a b : Nat} (ha : a < 16) (hb : b < 16) :
    hexNumber? ['0', '0', hexDigit a, hexDigit b] = some (16 * a + b) := by
  have hzero : hexValue? '0' = some 0 := rfl
  simp [hexNumber?, hzero, hexValue?_hexDigit ha, hexValue?_hexDigit hb, Nat.mul_comm]

theorem fourHex_padded {a b : Nat} (ha : a < 16) (hb : b < 16) (rest : List Char) :
    fourHex ('0' :: '0' :: hexDigit a :: hexDigit b :: rest) = .ok (16 * a + b, rest) := by
  have hsize : ¬(('0' :: '0' :: hexDigit a :: hexDigit b :: rest).take 4).foldr
      (fun c bytes => c.utf8Size + bytes) 0 < 4 := by
    have hfirst := Char.utf8Size_pos '0'
    have hthird := (hexDigit a).utf8Size_pos
    have hfourth := (hexDigit b).utf8Size_pos
    simp only [List.take_succ_cons, List.take_zero, List.foldr_cons, List.foldr_nil]
    omega
  rw [fourHex, if_neg hsize]
  simp only [hexNumber?_padded ha hb]

theorem spell_escape (c : Char) (fuel : Nat) (rest : List Char) :
    spell (fuel + 1) (escape c ++ rest) = (spell fuel rest).cons c := by
  unfold escape
  split_ifs with hquote hslash hback hfeed hline hreturn htab hcontrol
  · subst hquote
    rfl
  · subst hslash
    rfl
  · subst hback
    rfl
  · subst hfeed
    rfl
  · subst hline
    rfl
  · subst hreturn
    rfl
  · subst htab
    rfl
  · have hhex := fourHex_padded (a := c.toNat / 16) (b := c.toNat % 16) (by omega) (by omega) rest
    rw [Nat.div_add_mod] at hhex
    have hlow : isLowSurrogate c.toNat = false := by simp [isLowSurrogate]; omega
    have hhigh : isHighSurrogate c.toNat = false := by simp [isHighSurrogate]; omega
    simp only [List.cons_append, List.nil_append, spell, hhex, hlow, hhigh, Bool.false_eq_true,
      if_false, Char.ofNat_toNat]
  · rw [List.singleton_append, spell, if_neg hcontrol]
    all_goals simp [hquote, hslash]

theorem length_escape_pos (c : Char) : 0 < (escape c).length := by
  unfold escape
  split_ifs <;> simp

theorem length_le_escaped (cs : List Char) : cs.length ≤ (escaped cs).length := by
  induction cs with
  | nil => exact Nat.le_refl 0
  | cons c cs ih =>
      have hpos := length_escape_pos c
      rw [escaped_cons, List.length_append, List.length_cons]
      omega

theorem spell_escaped {cs rest : List Char} {fuel : Nat} (h : cs.length < fuel) :
    spell fuel (escaped cs ++ '"' :: rest) = ⟨.ok cs, .ok rest⟩ := by
  induction cs generalizing fuel with
  | nil =>
      obtain ⟨fuel, rfl⟩ := Nat.exists_eq_add_of_lt h
      simp [spell]
  | cons c cs ih =>
      cases fuel with
      | zero => contradiction
      | succ fuel =>
          rw [escaped_cons, List.append_assoc, spell_escape, ih (Nat.lt_of_succ_lt_succ h)]
          rfl

theorem spelled_quoted (s : String) (rest : List Char) :
    spelled (escaped s.toList ++ '"' :: rest) = ⟨.ok s.toList, .ok rest⟩ := by
  refine spell_escaped ?_
  have hlength := length_le_escaped s.toList
  rw [List.length_append]
  omega

theorem readValue_quoted (fuel : Nat) (s : String) (rest : List Char) :
    readValue (fuel + 1) (quoted s ++ rest) = (.string s, some rest) := by
  have hspelled := spelled_quoted s rest
  simp [readValue, quoted, skipBlanks, isBlank, hspelled, ofSpelled]

/-! ## Numbers -/

def EndsNumber (cs : List Char) : Prop :=
  ∀ c rest, cs = c :: rest → c.isDigit = false ∧ c ≠ '.' ∧ c ≠ 'e' ∧ c ≠ 'E'

theorem natChars_cases (n : Nat) :
    natChars n = ['0'] ∧ n = 0 ∨ ∃ d ds, natChars n = d :: ds ∧ d ≠ '0' := by
  induction n using Nat.strongRecOn with
  | _ n ih =>
      rcases Nat.lt_or_ge n 10 with hlt | hge
      · rw [natChars_of_lt_ten hlt]
        interval_cases n
        · exact .inl ⟨rfl, rfl⟩
        all_goals exact .inr ⟨_, [], rfl, by decide⟩
      · rw [natChars_of_ten_le hge]
        rcases ih (n / 10) (by omega) with ⟨-, hzero⟩ | ⟨d, ds, hdigits, hd⟩
        · omega
        · rw [hdigits]
          exact .inr ⟨d, ds ++ [Nat.digitChar (n % 10)], rfl, hd⟩

theorem takeDigits_append {ds rest : List Char} (hds : ∀ d ∈ ds, d.isDigit)
    (hrest : EndsNumber rest) : takeDigits (ds ++ rest) = (ds, rest) := by
  have hnone : rest.takeWhile Char.isDigit = [] ∧ rest.dropWhile Char.isDigit = rest := by
    cases rest with
    | nil => exact ⟨rfl, rfl⟩
    | cons c rest => simp [(hrest c rest rfl).1]
  rw [takeDigits, List.takeWhile_append_of_pos hds, List.dropWhile_append_of_pos hds, hnone.1,
    hnone.2, List.append_nil]

theorem readNumber_natChars {n : Nat} {rest : List Char} (hrest : EndsNumber rest)
    (negative : Bool) :
    readNumber negative (natChars n ++ rest) =
      (integerDocument negative (natChars n), some rest) := by
  have hdigits := takeDigits_append (fun d hd => isDigit_of_mem_natChars (n := n) hd) hrest
  rw [readNumber, hdigits]
  rcases natChars_cases n with ⟨hzero, -⟩ | ⟨d, ds, hcons, hd⟩
  · rw [hzero]
    cases rest with
    | nil => rfl
    | cons c rest =>
        obtain ⟨-, hpoint, he, hE⟩ := hrest c rest rfl
        simp [hpoint, he, hE]
  · rw [hcons]
    cases rest with
    | nil => simp [hd]
    | cons c rest =>
        obtain ⟨-, hpoint, he, hE⟩ := hrest c rest rfl
        simp [hd, hpoint, he, hE]

theorem integerDocument_natChars {n : Nat} {negative : Bool}
    (hword : isWord (if negative then -n else n)) (hzero : negative → n ≠ 0) :
    integerDocument negative (natChars n) = .number (.int (if negative then -n else n)) := by
  rw [integerDocument, digitsValue_natChars]
  refine if_pos ⟨hword, ?_⟩
  cases negative with
  | false => exact .inr rfl
  | true => simpa using hzero rfl

end Document

end TabRelay.Json
