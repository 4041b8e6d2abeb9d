import Mathlib.Data.List.Lex
import Mathlib.Data.String.Basic

/-!
# The order of texts is that of their bytes

Texts are compared by the code points of their characters.  In UTF-8 a character
with a greater code point has the greater bytes, at the first byte in which two
characters differ, and so the bytes of two texts are in the order of the texts.
-/

namespace TabRelay.Text

def utf8 (text : String) : List UInt8 := text.toUTF8.data.toList

theorem utf8_eq (text : String) : utf8 text = text.toList.flatMap String.utf8EncodeChar := by
  have hbytes : text.toUTF8 = (text.toList.flatMap String.utf8EncodeChar).toByteArray :=
    (String.utf8Encode_toList).symm
  rw [utf8, hbytes, List.data_toByteArray]

theorem ofNat_cons_lt_iff {a b : Nat} (ha : a < 256) (hb : b < 256) {rest others : List UInt8} :
    UInt8.ofNat a :: rest < UInt8.ofNat b :: others ↔ a < b ∨ a = b ∧ rest < others := by
  rw [List.cons_lt_cons_iff, UInt8.lt_iff_toNat_lt, ← UInt8.toNat_inj,
    UInt8.toNat_ofNat_of_lt' ha, UInt8.toNat_ofNat_of_lt' hb]

/-- The groups of six bits decide from the highest one on. -/
theorem digits_lt {m n : Nat} (h : m < n) :
    m / 262144 < n / 262144 ∨ m / 262144 = n / 262144 ∧
      (m / 4096 % 64 < n / 4096 % 64 ∨ m / 4096 % 64 = n / 4096 % 64 ∧
        (m / 64 % 64 < n / 64 % 64 ∨ m / 64 % 64 = n / 64 % 64 ∧ m % 64 < n % 64)) := by
  have hstep {a b : Nat} (h : a < b) : a / 64 < b / 64 ∨ a / 64 = b / 64 ∧ a % 64 < b % 64 := by
    omega
  have hdiv (k : Nat) : k / 262144 = k / 4096 / 64 := (Nat.div_div_eq_div_mul k 4096 64).symm
  have hdiv' (k : Nat) : k / 4096 = k / 64 / 64 := (Nat.div_div_eq_div_mul k 64 64).symm
  rw [hdiv, hdiv, hdiv', hdiv']
  rcases hstep h with h₁ | ⟨heq₁, hlt₀⟩
  · rcases hstep h₁ with h₂ | ⟨heq₂, hlt₁⟩
    · rcases hstep h₂ with h₃ | ⟨heq₃, hlt₂⟩
      · exact .inl h₃
      · exact .inr ⟨heq₃, .inl hlt₂⟩
    · rw [heq₂]
      exact .inr ⟨rfl, .inr ⟨rfl, .inl hlt₁⟩⟩
  · rw [heq₁]
    exact .inr ⟨rfl, .inr ⟨rfl, .inr ⟨rfl, hlt₀⟩⟩⟩

theorem utf8EncodeChar_lt {c d : Char} (h : c < d) (rest others : List UInt8) :
    String.utf8EncodeChar c ++ rest < String.utf8EncodeChar d ++ others := by
  have hlt : c.val.toNat < d.val.toNat := h
  have hd : d.val.toNat < 0x110000 := by
    rcases d.valid with hd | hd <;> omega
  simp only [String.utf8EncodeChar]
  generalize c.val.toNat = m at hlt ⊢
  generalize d.val.toNat = n at hlt hd ⊢
  have hdigits := digits_lt hlt
  have hm : m / 262144 % 8 = m / 262144 := by omega
  have hn : n / 262144 % 8 = n / 262144 := by omega
  split_ifs <;>
    simp (disch := omega) only [List.cons_append, List.nil_append, ofNat_cons_lt_iff] <;>
    omega

theorem flatMap_utf8EncodeChar_lt {a b : List Char} (h : a < b) :
    a.flatMap String.utf8EncodeChar < b.flatMap String.utf8EncodeChar := by
  induction a generalizing b with
  | nil =>
      cases b with
      | nil => exact absurd h (List.lt_irrefl _)
      | cons d b =>
          obtain ⟨byte, rest, heq⟩ :=
            List.exists_cons_of_ne_nil (String.utf8EncodeChar_ne_nil : String.utf8EncodeChar d ≠ [])
          rw [List.flatMap_nil, List.flatMap_cons, heq]
          exact List.nil_lt_cons ..
  | cons c a ih =>
      cases b with
      | nil => exact absurd h (List.not_lt_nil _)
      | cons d b =>
          rw [List.flatMap_cons, List.flatMap_cons]
          rcases List.cons_lt_cons_iff.mp h with hlt | ⟨rfl, hlt⟩
          · exact utf8EncodeChar_lt hlt _ _
          · exact List.append_left_lt (ih hlt)

theorem utf8_lt_iff {a b : String} : utf8 a < utf8 b ↔ a < b := by
  have hlt {a b : String} (h : a < b) : utf8 a < utf8 b := by
    rw [utf8_eq, utf8_eq]
    exact flatMap_utf8EncodeChar_lt (String.lt_iff.mp h)
  refine ⟨fun h => ?_, hlt⟩
  by_contra hnot
  rcases eq_or_lt_of_le (String.not_lt.mp hnot) with rfl | hback
  · exact List.lt_irrefl _ h
  · exact List.lt_asymm h (hlt hback)

end TabRelay.Text
