import TabRelay.Web.Value

/-!
# Equality of JavaScript values

Two values are equal when they are built alike.  This is finer than what a
comparison in a web page tells, and it is decidable.
-/

namespace TabRelay.Web.Value

mutual

def alike : Value → Value → Bool
  | undefined, undefined | null, null | function, function | map, map => true
  | bool a, bool b => a = b
  | number a, number b => a = b
  | string a, string b | symbol a, symbol b | bigint a, bigint b | element a, element b
  | app a, app b => a = b
  | error a m, error b n => a = b && m = n
  | array as, array bs => alikeItems as bs
  | object as, object bs => alikeFields as bs
  | cycle a, cycle b | converting a, converting b | throwing a, throwing b | trap a, trap b =>
      alike a b
  | port a, port b => a = b
  | _, _ => false

def alikeItems : List Value → List Value → Bool
  | [], [] => true
  | a :: as, b :: bs => alike a b && alikeItems as bs
  | _, _ => false

def alikeFields : List (String × Value) → List (String × Value) → Bool
  | [], [] => true
  | (k, a) :: as, (l, b) :: bs => k = l && alike a b && alikeFields as bs
  | _, _ => false

end

mutual

theorem alike_self (v : Value) : alike v v = true := by
  cases v with
  | array items => simpa [alike] using alikeItems_self items
  | object fields => simpa [alike] using alikeFields_self fields
  | cycle v | converting v | throwing v | trap v => simpa [alike] using alike_self v
  | _ => simp [alike]

theorem alikeItems_self (vs : List Value) : alikeItems vs vs = true := by
  cases vs with
  | nil => simp [alikeItems]
  | cons v vs => simp [alikeItems, alike_self v, alikeItems_self vs]

theorem alikeFields_self (fs : List (String × Value)) : alikeFields fs fs = true := by
  cases fs with
  | nil => simp [alikeFields]
  | cons f fs =>
      obtain ⟨key, v⟩ := f
      simp [alikeFields, alike_self v, alikeFields_self fs]

end

mutual

theorem eq_of_alike {v w : Value} (h : alike v w = true) : v = w := by
  cases v with
  | array items =>
      cases w with
      | array items' =>
          have h : alikeItems items items' = true := by simpa [alike] using h
          rw [eq_of_alikeItems h]
      | _ => simp [alike] at h
  | object fields =>
      cases w with
      | object fields' =>
          have h : alikeFields fields fields' = true := by simpa [alike] using h
          rw [eq_of_alikeFields h]
      | _ => simp [alike] at h
  | cycle v | converting v | throwing v | trap v =>
      cases w <;> simp only [alike, Bool.false_eq_true] at h
      rw [eq_of_alike h]
  | _ => cases w <;> simp_all [alike]

theorem eq_of_alikeItems {vs ws : List Value} (h : alikeItems vs ws = true) : vs = ws := by
  cases vs with
  | nil => cases ws <;> simp_all [alikeItems]
  | cons v vs =>
      cases ws with
      | nil => simp [alikeItems] at h
      | cons w ws =>
          simp only [alikeItems, Bool.and_eq_true] at h
          rw [eq_of_alike h.1, eq_of_alikeItems h.2]

theorem eq_of_alikeFields {fs gs : List (String × Value)} (h : alikeFields fs gs = true) :
    fs = gs := by
  cases fs with
  | nil => cases gs <;> simp_all [alikeFields]
  | cons f fs =>
      cases gs with
      | nil => simp [alikeFields] at h
      | cons g gs =>
          obtain ⟨key, v⟩ := f
          obtain ⟨key', w⟩ := g
          simp only [alikeFields, Bool.and_eq_true, decide_eq_true_eq] at h
          rw [h.1.1, eq_of_alike h.1.2, eq_of_alikeFields h.2]

end

theorem alike_iff {v w : Value} : alike v w = true ↔ v = w :=
  ⟨eq_of_alike, fun h => h ▸ alike_self v⟩

instance : DecidableEq Value := fun _ _ => decidable_of_iff _ alike_iff

end TabRelay.Web.Value
