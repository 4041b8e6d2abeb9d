/-!
# Whole numbers in decimal digits

`digitsValue` reads what `natChars` writes.
-/

namespace TabRelay.Decimal

def natChars (n : Nat) : List Char := Nat.toDigits 10 n

def intChars (n : Int) : List Char :=
  if n < 0 then '-' :: natChars n.natAbs else natChars n.natAbs

def digitsValue (ds : List Char) : Nat :=
  ds.foldl (fun n d => 10 * n + (d.toNat - '0'.toNat)) 0

theorem digitsValue_append_digit (ds : List Char) (d : Char) :
    digitsValue (ds ++ [d]) = 10 * digitsValue ds + (d.toNat - '0'.toNat) := by
  simp [digitsValue]

theorem natChars_of_lt_ten {n : Nat} (h : n < 10) : natChars n = [Nat.digitChar n] :=
  Nat.toDigits_of_lt_base h

theorem natChars_of_ten_le {n : Nat} (h : 10 ≤ n) :
    natChars n = natChars (n / 10) ++ [Nat.digitChar (n % 10)] := by
  have hLast : n % 10 < 10 := Nat.mod_lt n (by decide)
  have hAppend := Nat.toDigits_append_toDigits (b := 10) (n := n / 10) (d := n % 10)
    (by decide) (by omega) hLast
  rw [Nat.toDigits_of_lt_base hLast, Nat.div_add_mod] at hAppend
  exact hAppend.symm

theorem digitsValue_natChars (n : Nat) : digitsValue (natChars n) = n := by
  induction n using Nat.strongRecOn with
  | _ n ih =>
      by_cases h : n < 10
      · have hDigit := Nat.toNat_digitChar_of_lt_ten h
        rw [natChars_of_lt_ten h]
        simp [digitsValue, hDigit]
      · have hLast : n % 10 < 10 := Nat.mod_lt n (by decide)
        rw [natChars_of_ten_le (Nat.not_lt.mp h), digitsValue_append_digit, ih (n / 10) (by omega),
          Nat.toNat_digitChar_of_lt_ten hLast]
        simp
        omega

theorem isDigit_of_mem_natChars {n : Nat} {d : Char} (h : d ∈ natChars n) : d.isDigit :=
  Nat.isDigit_of_mem_toDigits (by decide) (by decide) h

end TabRelay.Decimal
