import TabRelay.Proofs.Json.Spelling
import TabRelay.Proofs.Text.Keyed

/-!
# The compact text of a value is read as the value

The numbers have to be integers that fit a word.  The text of such a value is read
as the document of the value, to its end, and the document has the value again when
the fields of every object stand in the order of their keys and there is room for
the nesting.
-/

namespace TabRelay.Json

open TabRelay.Decimal TabRelay.Text

namespace Value

/-! ## The values that are read back -/

mutual

def Whole : Value → Prop
  | .null | .bool _ | .string _ => True
  | .number (.int n) => isWord n
  | .number (.float _) => False
  | .array items => WholeItems items
  | .object fields => WholeFields fields

def WholeItems : List Value → Prop
  | [] => True
  | item :: rest => item.Whole ∧ WholeItems rest

def WholeFields : List (String × Value) → Prop
  | [] => True
  | (_, value) :: rest => value.Whole ∧ WholeFields rest

end

mutual

def Ordered : Value → Prop
  | .null | .bool _ | .number _ | .string _ => True
  | .array items => OrderedItems items
  | .object fields => Keyed.Sorted fields ∧ OrderedFields fields

def OrderedItems : List Value → Prop
  | [] => True
  | item :: rest => item.Ordered ∧ OrderedItems rest

def OrderedFields : List (String × Value) → Prop
  | [] => True
  | (_, value) :: rest => value.Ordered ∧ OrderedFields rest

end

mutual

def arranged : Value → Value
  | .array items => .array (arrangedItems items)
  | .object fields => .object (Keyed.ofPairs (arrangedFields fields))
  | .null => .null
  | .bool b => .bool b
  | .number n => .number n
  | .string s => .string s

def arrangedItems : List Value → List Value
  | [] => []
  | item :: rest => item.arranged :: arrangedItems rest

def arrangedFields : List (String × Value) → List (String × Value)
  | [] => []
  | (key, value) :: rest => (key, value.arranged) :: arrangedFields rest

end

mutual

def depth : Value → Nat
  | .null | .bool _ | .number _ | .string _ => 0
  | .array items => depthItems items + 1
  | .object fields => depthFields fields + 1

def depthItems : List Value → Nat
  | [] => 0
  | item :: rest => max item.depth (depthItems rest)

def depthFields : List (String × Value) → Nat
  | [] => 0
  | (_, value) :: rest => max value.depth (depthFields rest)

end

end Value

namespace Document

/-! ## What a text begins with -/

def Starts (cs : List Char) : Prop :=
  ∃ c rest, cs = c :: rest ∧ isBlank c = false ∧ c ≠ ']'

theorem Starts.append {cs : List Char} (h : Starts cs) (more : List Char) :
    Starts (cs ++ more) := by
  obtain ⟨c, rest, rfl, hblank, hbracket⟩ := h
  exact ⟨c, rest ++ more, rfl, hblank, hbracket⟩

theorem Starts.skipBlanks {cs : List Char} (h : Starts cs) : skipBlanks cs = cs := by
  obtain ⟨c, rest, rfl, hblank, -⟩ := h
  simp [Document.skipBlanks, hblank]

theorem starts_of_isDigit {c : Char} (h : c.isDigit) (rest : List Char) : Starts (c :: rest) := by
  refine ⟨c, rest, rfl, ?_, ?_⟩
  · by_contra hblank
    simp only [isBlank, Bool.not_eq_false, Bool.or_eq_true, beq_iff_eq] at hblank
    rcases hblank with ((rfl | rfl) | rfl) | rfl <;> contradiction
  · rintro rfl
    contradiction

theorem exists_natChars_eq_cons (n : Nat) : ∃ d ds, natChars n = d :: ds ∧ d.isDigit := by
  rcases natChars_cases n with ⟨hzero, -⟩ | ⟨d, ds, hcons, -⟩
  · exact ⟨'0', [], hzero, rfl⟩
  · exact ⟨d, ds, hcons, isDigit_of_mem_natChars (hcons ▸ List.mem_cons_self)⟩

theorem starts_intChars (n : Int) : Starts (intChars n) := by
  unfold intChars
  split
  · exact ⟨'-', _, rfl, rfl, by decide⟩
  · obtain ⟨d, ds, hcons, hd⟩ := exists_natChars_eq_cons n.natAbs
    rw [hcons]
    exact starts_of_isDigit hd ds

theorem starts_chars {v : Value} (h : v.Whole) : Starts v.chars := by
  cases v with
  | null => exact ⟨'n', _, rfl, rfl, by decide⟩
  | bool b => cases b <;> exact ⟨_, _, rfl, rfl, by decide⟩
  | number n =>
      cases n with
      | int n => exact starts_intChars n
      | float x => exact h.elim
  | string s => exact ⟨'"', _, rfl, rfl, by decide⟩
  | array items => cases items <;> exact ⟨'[', _, rfl, rfl, by decide⟩
  | object fields => cases fields <;> exact ⟨'\x7b', _, rfl, rfl, by decide⟩

theorem endsNumber_of_mark {c : Char} (h : c = ',' ∨ c = ']' ∨ c = '\x7d') (rest : List Char) :
    EndsNumber (c :: rest) := by
  intro d more heq
  cases heq
  rcases h with rfl | rfl | rfl <;> decide

theorem endsNumber_moreItems (items : List Value) (rest : List Char) :
    EndsNumber (Value.moreItems items ++ rest) := by
  cases items with
  | nil => exact endsNumber_of_mark (.inr (.inl rfl)) rest
  | cons item items => exact endsNumber_of_mark (.inl rfl) _

theorem endsNumber_moreFields (fields : List (String × Value)) (rest : List Char) :
    EndsNumber (Value.moreFields fields ++ rest) := by
  cases fields with
  | nil => exact endsNumber_of_mark (.inr (.inr rfl)) rest
  | cons field fields => exact endsNumber_of_mark (.inl rfl) _

/-! ## Values without brackets -/

theorem ne_of_isDigit {d : Char} (hd : d.isDigit) :
    d ≠ '[' ∧ d ≠ '\x7b' ∧ d ≠ '"' ∧ d ≠ 'n' ∧ d ≠ 't' ∧ d ≠ 'f' ∧ d ≠ '-' := by
  refine ⟨?_, ?_, ?_, ?_, ?_, ?_, ?_⟩ <;> (rintro rfl; contradiction)

theorem readValue_digit {d : Char} (hd : d.isDigit) (fuel : Nat) (cs : List Char) :
    readValue (fuel + 1) (d :: cs) = readNumber false (d :: cs) := by
  obtain ⟨hbracket, hbrace, hquote, hn, ht, hf, hminus⟩ := ne_of_isDigit hd
  rw [readValue, (starts_of_isDigit hd cs).skipBlanks]
  simp only [hd, if_true]

theorem readValue_intChars {n : Int} (hword : isWord n) (fuel : Nat) {rest : List Char}
    (hrest : EndsNumber rest) :
    readValue (fuel + 1) (intChars n ++ rest) = (.number (.int n), some rest) := by
  unfold intChars
  split_ifs with hneg
  · have habs : -(n.natAbs : Int) = n := by omega
    have hdocument : integerDocument true (natChars n.natAbs) =
        .number (.int (-(n.natAbs : Int))) :=
      integerDocument_natChars (habs.symm ▸ hword) fun _ => by omega
    rw [habs] at hdocument
    exact (readNumber_natChars hrest true).trans (by rw [hdocument])
  · have habs : (n.natAbs : Int) = n := by omega
    have hdocument : integerDocument false (natChars n.natAbs) = .number (.int n.natAbs) :=
      integerDocument_natChars (habs.symm ▸ hword) nofun
    rw [habs] at hdocument
    obtain ⟨d, ds, hcons, hd⟩ := exists_natChars_eq_cons n.natAbs
    have hread := readNumber_natChars (n := n.natAbs) hrest false
    rw [hdocument, hcons] at hread
    rw [hcons, List.cons_append, readValue_digit hd]
    exact hread

/-! ## Lists -/

theorem readValue_bracket {cs : List Char} (h : Starts cs) (fuel : Nat) :
    readValue (fuel + 1) ('[' :: cs) =
      (.array (readItems fuel cs).1 (readItems fuel cs).2.1, (readItems fuel cs).2.2) := by
  have hopen : skipBlanks ('[' :: cs) = '[' :: cs := rfl
  have hskip := h.skipBlanks
  obtain ⟨c, rest, rfl, -, hbracket⟩ := h
  rw [readValue, hopen]
  simp only [hskip]
  split
  · contradiction
  · rename_i heq
    cases heq
    exact absurd rfl hbracket
  · rfl

theorem readValue_brace (key : String) (cs : List Char) (fuel : Nat) :
    readValue (fuel + 1) ('\x7b' :: (quoted key ++ cs)) =
      (.object (readFields fuel false (quoted key ++ cs)).1
        (readFields fuel false (quoted key ++ cs)).2.1,
        (readFields fuel false (quoted key ++ cs)).2.2) := by
  simp [readValue, skipBlanks, isBlank, quoted]

theorem readItems_closed {fuel : Nat} {cs rest : List Char} {item : Document}
    (hitem : readValue fuel cs = (item, some (']' :: rest))) :
    readItems (fuel + 1) cs = ([item], .closed, some rest) := by
  rw [readItems, hitem]
  rfl

theorem readItems_comma {fuel : Nat} {cs more rest : List Char} {item : Document}
    {items : List Document} {ending : Ending}
    (hitem : readValue fuel cs = (item, some (',' :: more)))
    (hitems : readItems fuel more = (items, ending, some rest)) :
    readItems (fuel + 1) cs = (item :: items, ending, some rest) := by
  have hskip : skipBlanks (',' :: more) = ',' :: more := rfl
  rw [readItems, hitem]
  simp only [hskip, hitems]

theorem skipBlanks_quoted (key : String) (cs : List Char) :
    skipBlanks (quoted key ++ cs) = '"' :: (escaped key.toList ++ '"' :: cs) := by
  simp [skipBlanks, isBlank, quoted]

theorem readFields_closed {key : String} {fuel : Nat} {cs rest : List Char} {found : Document}
    {afterComma : Bool} (hfound : readValue fuel cs = (found, some ('\x7d' :: rest))) :
    readFields (fuel + 1) afterComma (quoted key ++ ':' :: cs) =
      ([(.ok key, found)], .closed, some rest) := by
  have hcolon : skipBlanks (':' :: cs) = ':' :: cs := rfl
  have hbrace : skipBlanks ('\x7d' :: rest) = '\x7d' :: rest := rfl
  rw [readFields, skipBlanks_quoted]
  simp only [spelled_quoted, hcolon, hfound, hbrace, Except.map, String.ofList_toList]

theorem readFields_comma {key : String} {fuel : Nat} {cs more rest : List Char}
    {found : Document} {fields : List (Except Fault String × Document)} {ending : Ending}
    {afterComma : Bool} (hfound : readValue fuel cs = (found, some (',' :: more)))
    (hfields : readFields fuel true more = (fields, ending, some rest)) :
    readFields (fuel + 1) afterComma (quoted key ++ ':' :: cs) =
      ((.ok key, found) :: fields, ending, some rest) := by
  have hcolon : skipBlanks (':' :: cs) = ':' :: cs := rfl
  have hcomma : skipBlanks (',' :: more) = ',' :: more := rfl
  rw [readFields, skipBlanks_quoted]
  simp only [spelled_quoted, hcolon, hfound, hcomma, hfields, Except.map, String.ofList_toList]

/-- With so much fuel the texts of values, and of what stands between brackets, are
read to their ends; what follows them is left. -/
structure Reads (fuel : Nat) : Prop where
  value : ∀ v : Value, v.Whole → v.chars.length < fuel → ∀ rest, EndsNumber rest →
    readValue fuel (v.chars ++ rest) = (ofValue v, some rest)
  items : ∀ (item : Value) (more : List Value), item.Whole → Value.WholeItems more →
    (item.chars ++ Value.moreItems more).length < fuel → ∀ rest,
    readItems fuel (item.chars ++ Value.moreItems more ++ rest) =
      (ofItems (item :: more), .closed, some rest)
  fields : ∀ (key : String) (value : Value) (more : List (String × Value)), value.Whole →
    Value.WholeFields more →
    (quoted key ++ ':' :: value.chars ++ Value.moreFields more).length < fuel →
    ∀ afterComma rest,
    readFields fuel afterComma (quoted key ++ ':' :: value.chars ++ Value.moreFields more ++ rest) =
      (ofFields ((key, value) :: more), .closed, some rest)

namespace Reads

variable {fuel : Nat}

theorem readValue_succ (h : Reads fuel) {v : Value} (hwhole : v.Whole)
    (hfuel : v.chars.length < fuel + 1) {rest : List Char} (hrest : EndsNumber rest) :
    readValue (fuel + 1) (v.chars ++ rest) = (ofValue v, some rest) := by
  match v with
  | .null => rfl
  | .bool true => rfl
  | .bool false => rfl
  | .number (.int n) => exact readValue_intChars hwhole fuel hrest
  | .number (.float x) => exact hwhole.elim
  | .string s => exact readValue_quoted fuel s rest
  | .array [] => rfl
  | .array (item :: more) =>
      obtain ⟨hitem, hmore⟩ := hwhole
      have hitems := h.items item more hitem hmore (Nat.lt_of_succ_lt_succ hfuel) rest
      have hstarts := ((starts_chars hitem).append (Value.moreItems more)).append rest
      exact (readValue_bracket hstarts fuel).trans (by rw [hitems]; rfl)
  | .object [] => rfl
  | .object ((key, value) :: more) =>
      obtain ⟨hvalue, hmore⟩ := hwhole
      have hfields := h.fields key value more hvalue hmore (Nat.lt_of_succ_lt_succ hfuel) false rest
      have hread := readValue_brace key (':' :: value.chars ++ Value.moreFields more ++ rest) fuel
      rw [← List.append_assoc, ← List.append_assoc, hfields] at hread
      exact hread

theorem readItems_succ (h : Reads fuel) {item : Value} {more : List Value} (hitem : item.Whole)
    (hmore : Value.WholeItems more)
    (hfuel : (item.chars ++ Value.moreItems more).length < fuel + 1) (rest : List Char) :
    readItems (fuel + 1) (item.chars ++ Value.moreItems more ++ rest) =
      (ofItems (item :: more), .closed, some rest) := by
  have hlength : item.chars.length < fuel := by
    cases more <;> simp [Value.moreItems] at hfuel <;> omega
  have hread := h.value item hitem hlength _ (endsNumber_moreItems more rest)
  rw [List.append_assoc]
  cases more with
  | nil => exact readItems_closed hread
  | cons next more =>
      have hnext : (next.chars ++ Value.moreItems more).length < fuel := by
        simp [Value.moreItems] at hfuel ⊢
        omega
      exact readItems_comma hread (h.items next more hmore.1 hmore.2 hnext rest)

theorem readFields_succ (h : Reads fuel) {key : String} {value : Value}
    {more : List (String × Value)} (hvalue : value.Whole) (hmore : Value.WholeFields more)
    (hfuel : (quoted key ++ ':' :: value.chars ++ Value.moreFields more).length < fuel + 1)
    (afterComma : Bool) (rest : List Char) :
    readFields (fuel + 1) afterComma
        (quoted key ++ ':' :: value.chars ++ Value.moreFields more ++ rest) =
      (ofFields ((key, value) :: more), .closed, some rest) := by
  have hlength : value.chars.length < fuel := by
    simp at hfuel
    omega
  have hread := h.value value hvalue hlength _ (endsNumber_moreFields more rest)
  rw [List.append_assoc, List.append_assoc, List.cons_append]
  match more with
  | [] => exact readFields_closed hread
  | (nextKey, next) :: more =>
      have hnext : (quoted nextKey ++ ':' :: next.chars ++ Value.moreFields more).length < fuel := by
        simp [Value.moreFields] at hfuel ⊢
        omega
      exact readFields_comma hread (h.fields nextKey next more hmore.1 hmore.2 hnext true rest)

end Reads

theorem reads (fuel : Nat) : Reads fuel := by
  induction fuel with
  | zero => constructor <;> intros <;> contradiction
  | succ fuel ih =>
      constructor
      · intro v hwhole hfuel rest hrest
        exact ih.readValue_succ hwhole hfuel hrest
      · intro item more hitem hmore hfuel rest
        exact ih.readItems_succ hitem hmore hfuel rest
      · intro key value more hvalue hmore hfuel afterComma rest
        exact ih.readFields_succ hvalue hmore hfuel afterComma rest

/-- The text of a value is the document of the value, and nothing follows it. -/
theorem read_text {v : Value} (hwhole : v.Whole) :
    Document.read v.text = ⟨ofValue v, false⟩ := by
  have hend : EndsNumber [] := nofun
  have hread := (reads (2 * v.chars.length + 2)).value v hwhole (by omega) [] hend
  rw [List.append_nil] at hread
  rw [Document.read, Value.text, String.toList_ofList, hread]
  rfl

/-! ## The value of a document -/

theorem enter_of_lt {room : Room} {n : Nat} (h : ∀ m, room = some m → n + 1 < m) :
    ∃ inner, room.enter = .ok inner ∧ ∀ m, inner = some m → n < m := by
  cases room with
  | none => exact ⟨none, rfl, nofun⟩
  | some m =>
      have hm := h m rfl
      refine ⟨some (m - 1), if_neg (by omega), ?_⟩
      intro k hk
      cases hk
      omega

mutual

theorem toValue_ofValue : ∀ (v : Value) (room : Room), (∀ m, room = some m → v.depth < m) →
    (ofValue v).toValue room = .ok v.arranged
  | .null, _, _ => rfl
  | .bool _, _, _ => rfl
  | .number _, _, _ => rfl
  | .string _, _, _ => rfl
  | .array items, room, hroom => by
      obtain ⟨inner, henter, hinner⟩ := enter_of_lt hroom
      have hitems := toItems_ofItems items inner hinner
      rw [ofValue, toValue, henter, Value.arranged]
      simp only [bind, Except.bind, hitems, checkEnding]
  | .object fields, room, hroom => by
      obtain ⟨inner, henter, hinner⟩ := enter_of_lt hroom
      have hfields := toFields_ofFields fields inner hinner
      rw [ofValue, toValue, henter, Value.arranged]
      simp only [bind, Except.bind, hfields, checkEnding, Value.ofFields]

theorem toItems_ofItems : ∀ (items : List Value) (room : Room),
    (∀ m, room = some m → Value.depthItems items < m) →
    toItems room (ofItems items) = .ok (Value.arrangedItems items)
  | [], _, _ => rfl
  | item :: rest, room, hroom => by
      have hitem := toValue_ofValue item room fun m hm =>
        Nat.lt_of_le_of_lt (Nat.le_max_left ..) (hroom m hm)
      have hrest := toItems_ofItems rest room fun m hm =>
        Nat.lt_of_le_of_lt (Nat.le_max_right ..) (hroom m hm)
      rw [ofItems, toItems, hitem, Value.arrangedItems]
      simp only [bind, Except.bind, hrest]

theorem toFields_ofFields : ∀ (fields : List (String × Value)) (room : Room),
    (∀ m, room = some m → Value.depthFields fields < m) →
    toFields room (ofFields fields) = .ok (Value.arrangedFields fields)
  | [], _, _ => rfl
  | (key, value) :: rest, room, hroom => by
      have hvalue := toValue_ofValue value room fun m hm =>
        Nat.lt_of_le_of_lt (Nat.le_max_left ..) (hroom m hm)
      have hrest := toFields_ofFields rest room fun m hm =>
        Nat.lt_of_le_of_lt (Nat.le_max_right ..) (hroom m hm)
      rw [ofFields, toFields, hvalue, Value.arrangedFields]
      simp only [bind, Except.bind, hrest]

end

end Document

namespace Value

/-! ## Each field on its own -/

theorem wholeFields_iff {fields : List (String × Value)} :
    WholeFields fields ↔ ∀ p ∈ fields, p.2.Whole := by
  induction fields with
  | nil => simp [WholeFields]
  | cons field rest ih => simp [WholeFields, ih]

theorem orderedFields_iff {fields : List (String × Value)} :
    OrderedFields fields ↔ ∀ p ∈ fields, p.2.Ordered := by
  induction fields with
  | nil => simp [OrderedFields]
  | cons field rest ih => simp [OrderedFields, ih]

theorem depthFields_le_iff {fields : List (String × Value)} {n : Nat} :
    depthFields fields ≤ n ↔ ∀ p ∈ fields, p.2.depth ≤ n := by
  induction fields with
  | nil => simp [depthFields]
  | cons field rest ih => simp [depthFields, ih]

/-! ## The value of a text -/

theorem parse_text {v : Value} (hwhole : v.Whole) {room : Room}
    (hroom : ∀ m, room = some m → v.depth < m) : parse room v.text = .ok v.arranged := by
  rw [parse, Document.read_text hwhole, Document.toValue_ofValue v room hroom]
  rfl

mutual

theorem Ordered.arranged_eq : ∀ {v : Value}, v.Ordered → v.arranged = v
  | .null, _ => rfl
  | .bool _, _ => rfl
  | .number _, _ => rfl
  | .string _, _ => rfl
  | .array items, h => by rw [arranged, arrangedItems_eq h]
  | .object fields, h => by
      rw [arranged, arrangedFields_eq h.2, Keyed.ofPairs_of_perm (.refl _) h.1]

theorem arrangedItems_eq : ∀ {items : List Value}, OrderedItems items →
    arrangedItems items = items
  | [], _ => rfl
  | item :: rest, h => by rw [arrangedItems, Ordered.arranged_eq h.1, arrangedItems_eq h.2]

theorem arrangedFields_eq : ∀ {fields : List (String × Value)}, OrderedFields fields →
    arrangedFields fields = fields
  | [], _ => rfl
  | (key, value) :: rest, h => by
      rw [arrangedFields, Ordered.arranged_eq h.1, arrangedFields_eq h.2]

end

end Value

end TabRelay.Json
