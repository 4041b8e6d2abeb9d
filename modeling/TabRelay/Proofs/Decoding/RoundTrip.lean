import TabRelay.Decoding.Forms
import TabRelay.Proofs.Json.ReadBack
import TabRelay.Session.Draft

/-!
# Records are read back from their forms

A record is decoded from the text of its form, and from the value of that text,
whose fields are in another order.  Only an object's field that holds a null is
read as one that is absent.
-/

namespace TabRelay

open TabRelay.Json

/-- What is read back of a value that may be absent: a null is an absent value. -/
def unlessNull (value : Option Value) : Option Value := value.filter (· ≠ .null)

def Write.readBack (w : Write Value) : Write Value := { w with value := unlessNull w.value }

def Change.readBack : Change Value → Change Value
  | .committed key value => .committed key (unlessNull value)
  | .external key newText => .external key newText

def Change.value? : Change Value → Option Value
  | .committed _ value => value
  | .external _ _ => none

theorem unlessNull_eq_self_iff {value : Option Value} :
    unlessNull value = value ↔ value ≠ some .null := by
  cases value with
  | none => simp [unlessNull]
  | some v => simp [unlessNull, Option.filter_eq_some_iff]

theorem Write.readBack_eq_self_iff {w : Write Value} :
    w.readBack = w ↔ w.value ≠ some .null := by
  rw [← unlessNull_eq_self_iff]
  constructor
  · exact congrArg Write.value
  · intro h
    rw [Write.readBack, h]

theorem Change.readBack_eq_self_iff {change : Change Value} :
    change.readBack = change ↔ ∀ key, change ≠ .committed key (some .null) := by
  cases change with
  | committed key value => simp [Change.readBack, unlessNull_eq_self_iff]
  | external key newText => simp [Change.readBack]

namespace Decoding

open TabRelay.Bridge TabRelay.Session TabRelay.Storage

/-! ## Texts and values of a form -/

theorem ofText_text {α : Type} (decode : Decoder α) {v : Value} (hwhole : v.Whole) :
    ofText decode v.text = decode (.text Room.whole) (Document.ofValue v) := by
  rw [ofText, Document.read_text hwhole]
  cases decode (.text Room.whole) (Document.ofValue v) <;> rfl

structure ReadsBack {α : Type} (decode : Decoder α) (form : Value) (a : α) : Prop where
  text : ofText decode form.text = .ok a
  value : (Value.parse Room.whole form.text).toOption.map (ofValue decode) = some (.ok a)

/-! ## Room for brackets -/

def Source.Fits (n : Nat) : Source → Prop
  | .text room => ∀ m, room = some m → n < m
  | .value => True

theorem Source.Fits.enter {n : Nat} {source : Source} (h : source.Fits (n + 1)) :
    ∃ inner, source.enter = .ok inner ∧ inner.Fits n := by
  cases source with
  | value => exact ⟨.value, rfl, trivial⟩
  | text room =>
      obtain ⟨inner, henter, hinner⟩ := Document.enter_of_lt h
      exact ⟨.text inner, by rw [Source.enter, henter]; rfl, hinner⟩

theorem Source.fits_whole {n : Nat} (h : n < 128) : (Source.text Room.whole).Fits n := by
  rintro m ⟨⟩
  exact h

theorem readsBack_of {α : Type} {decode : Decoder α} {form : Value} {a : α}
    (hwhole : form.Whole) (hdepth : form.depth < 128)
    (hform : ∀ source : Source, source.Fits form.depth →
      decode source (Document.ofValue form) = .ok a)
    (harranged : decode .value (Document.ofValue form.arranged) = .ok a) :
    ReadsBack decode form a := by
  have hfits := Source.fits_whole hdepth
  have hparse : Value.parse Room.whole form.text = .ok form.arranged :=
    Value.parse_text hwhole hfits
  exact ⟨(ofText_text decode hwhole).trans (hform _ hfits),
    by rw [hparse]; exact congrArg some harranged⟩

theorem readsBack_of_ordered {α : Type} {decode : Decoder α} {form : Value} {a : α}
    (hwhole : form.Whole) (hordered : form.Ordered) (hdepth : form.depth < 128)
    (hform : ∀ source : Source, source.Fits form.depth →
      decode source (Document.ofValue form) = .ok a) :
    ReadsBack decode form a :=
  readsBack_of hwhole hdepth hform (by
    rw [hordered.arranged_eq]
    exact hform .value trivial)

/-! ## Fields -/

theorem Shape.decodeFields_of {σ α : Type} {shape : Shape σ} {name : String} {decode : Decoder α}
    {set : α → σ → σ} (hfind : shape.find? name = some (.of name decode set)) {source : Source}
    {value : Value} {a : α} (hvalue : decode source (Document.ofValue value) = .ok a)
    {seen : List String} (hnew : name ∉ seen) (rest : List (String × Value)) (record : σ) :
    shape.decodeFields source (Document.ofFields ((name, value) :: rest)) seen record =
      shape.decodeFields source (Document.ofFields rest) (name :: seen) (set a record) := by
  rw [Document.ofFields, Shape.decodeFields]
  simp [liftFault, hfind, hnew, Field.of, hvalue, Except.map, bind, Except.bind]

theorem Shape.decode_of {σ : Type} {shape : Shape σ} {source inner : Source}
    (henter : source.enter = .ok inner) {fields : List (String × Value)} {record : σ}
    (hfields : shape.decodeFields inner (Document.ofFields fields) [] shape.start = .ok record) :
    shape.decode source (Document.ofValue (.object fields)) = .ok record := by
  rw [Document.ofValue, Shape.decode, Shape.decodeObject, henter]
  simp [hfields, liftFault, Document.checkEnding, bind, Except.bind]

theorem decodeString_ofValue (source : Source) (s : String) :
    decodeString source (Document.ofValue (.string s)) = .ok s := rfl

theorem decodeText?_ofValue (source : Source) (s : Option String) :
    decodeOption decodeString source (Document.ofValue (.ofText? s)) = .ok s := by
  cases s <;> rfl

theorem decodeArea_ofValue (source : Source) (kind : AreaKind) :
    decodeArea source (Document.ofValue (areaForm kind)) = .ok kind := by
  cases kind <;> rfl

theorem decodeArea?_ofValue (source : Source) (kind : Option AreaKind) :
    decodeOption decodeArea source (Document.ofValue (.ofOption areaForm kind)) = .ok kind := by
  cases kind with
  | none => rfl
  | some kind => cases kind <;> rfl

theorem decodeJson?_ofValue {source : Source} {value : Option Value}
    (h : ∀ v, value = some v → v.Ordered ∧ source.Fits v.depth) :
    decodeOption decodeJson source (Document.ofValue (.ofOption id value)) =
      .ok (unlessNull value) := by
  cases value with
  | none => rfl
  | some v =>
      obtain ⟨hordered, hfits⟩ := h v rfl
      have hroom : ∀ m, source.room = some m → v.depth < m := by
        cases source with
        | text room => exact hfits
        | value => exact nofun
      have hdecode : decodeJson source (Document.ofValue v) = .ok v := by
        rw [decodeJson, Document.toValue_ofValue v source.room hroom, hordered.arranged_eq]
        rfl
      cases v with
      | null => rfl
      | _ => exact congrArg (Except.map some) hdecode

/-! ## What the parts of a form are like -/

section

variable (text? : Option String) (kind : AreaKind) (kind? : Option AreaKind)

theorem whole_ofText? : (Value.ofText? text?).Whole := by
  cases text? <;> trivial

theorem ordered_ofText? : (Value.ofText? text?).Ordered := by
  cases text? <;> trivial

@[simp] theorem depth_ofText? : (Value.ofText? text?).depth = 0 := by
  cases text? <;> rfl

theorem whole_areaForm? : (Value.ofOption areaForm kind?).Whole := by
  cases kind? <;> trivial

theorem ordered_areaForm? : (Value.ofOption areaForm kind?).Ordered := by
  cases kind? <;> trivial

@[simp] theorem depth_areaForm? : (Value.ofOption areaForm kind?).depth = 0 := by
  cases kind? <;> rfl

end

/-! ## Events -/

theorem decodeEvent_form {source : Source} (h : source.Fits 1) (e : Event) :
    decodeEvent source (Document.ofValue (eventForm e)) = .ok e := by
  obtain ⟨inner, henter, -⟩ := h.enter
  refine Shape.decode_of henter ?_
  rw [Shape.decodeFields_of rfl (decodeText?_ofValue inner e.key) (by decide),
    Shape.decodeFields_of rfl (decodeText?_ofValue inner e.oldText) (by decide),
    Shape.decodeFields_of rfl (decodeText?_ofValue inner e.newText) (by decide),
    Shape.decodeFields_of rfl (decodeArea?_ofValue inner e.area) (by decide)]
  rfl

theorem arranged_eventForm (e : Event) :
    (eventForm e).arranged =
      .object [("area", .ofOption areaForm e.area), ("key", .ofText? e.key),
        ("new_value", .ofText? e.newText), ("old_value", .ofText? e.oldText)] := by
  simp only [eventForm, Value.arranged, Value.arrangedFields, (ordered_ofText? _).arranged_eq,
    (ordered_areaForm? _).arranged_eq]
  rfl

theorem decodeEvent_arranged (e : Event) :
    decodeEvent .value (Document.ofValue (eventForm e).arranged) = .ok e := by
  rw [arranged_eventForm]
  have henter : Source.value.enter = .ok .value := rfl
  refine Shape.decode_of henter ?_
  rw [Shape.decodeFields_of rfl (decodeArea?_ofValue .value e.area) (by decide),
    Shape.decodeFields_of rfl (decodeText?_ofValue .value e.key) (by decide),
    Shape.decodeFields_of rfl (decodeText?_ofValue .value e.newText) (by decide),
    Shape.decodeFields_of rfl (decodeText?_ofValue .value e.oldText) (by decide)]
  rfl

theorem event_readsBack (e : Event) : ReadsBack decodeEvent (eventForm e) e := by
  have hdepth : (eventForm e).depth = 1 := by simp [eventForm, Value.depth, Value.depthFields]
  refine readsBack_of ?_ ?_ ?_ (decodeEvent_arranged e)
  · exact ⟨whole_ofText? _, whole_ofText? _, whole_ofText? _, whole_areaForm? _, trivial⟩
  · rw [hdepth]
    decide
  · rw [hdepth]
    exact fun source h => decodeEvent_form h e

/-! ## Configurations -/

theorem decodeConfig_form {source : Source} (h : source.Fits 1) (c : Config) :
    decodeConfig source (Document.ofValue (configForm c)) = .ok c := by
  obtain ⟨inner, henter, -⟩ := h.enter
  refine Shape.decode_of henter ?_
  rw [Shape.decodeFields_of rfl (decodeString_ofValue inner c.node) (by decide),
    Shape.decodeFields_of rfl (decodeString_ofValue inner c.storePort) (by decide),
    Shape.decodeFields_of rfl (decodeString_ofValue inner c.changePort) (by decide),
    Shape.decodeFields_of rfl (decodeArea_ofValue inner c.area) (by decide)]
  rfl

theorem arranged_configForm (c : Config) :
    (configForm c).arranged =
      .object [("area", areaForm c.area), ("changePort", .string c.changePort),
        ("node", .string c.node), ("storePort", .string c.storePort)] := rfl

theorem decodeConfig_arranged (c : Config) :
    decodeConfig .value (Document.ofValue (configForm c).arranged) = .ok c := by
  rw [arranged_configForm]
  have henter : Source.value.enter = .ok .value := rfl
  refine Shape.decode_of henter ?_
  rw [Shape.decodeFields_of rfl (decodeArea_ofValue .value c.area) (by decide),
    Shape.decodeFields_of rfl (decodeString_ofValue .value c.changePort) (by decide),
    Shape.decodeFields_of rfl (decodeString_ofValue .value c.node) (by decide),
    Shape.decodeFields_of rfl (decodeString_ofValue .value c.storePort) (by decide)]
  rfl

theorem config_readsBack (c : Config) : ReadsBack decodeConfig (configForm c) c := by
  refine readsBack_of ?_ (by decide : 1 < 128) ?_ (decodeConfig_arranged c)
  · exact ⟨trivial, trivial, trivial, trivial, trivial⟩
  · exact fun source h => decodeConfig_form h c

/-! ## Writes -/

def Readable (value : Option Value) : Prop := ∀ v, value = some v → v.Whole ∧ v.Ordered

theorem Readable.whole {value : Option Value} (h : Readable value) :
    (Value.ofOption id value).Whole := by
  cases value with
  | none => trivial
  | some v => exact (h v rfl).1

theorem Readable.ordered {value : Option Value} (h : Readable value) :
    (Value.ofOption id value).Ordered := by
  cases value with
  | none => trivial
  | some v => exact (h v rfl).2

theorem decodeKeyedValue {expected : String} {source : Source} {key : String}
    {value : Option Value} (hvalue : Readable value)
    (h : source.Fits ((Value.ofOption id value).depth + 1)) :
    (keyedValueShape expected).decode source (Document.ofValue
        (.object [("key", .string key), ("value", .ofOption id value)])) =
      .ok ⟨some key, unlessNull value⟩ := by
  obtain ⟨inner, henter, hinner⟩ := h.enter
  refine Shape.decode_of henter ?_
  have hdecode : decodeOption decodeJson inner (Document.ofValue (.ofOption id value)) =
      .ok (unlessNull value) := decodeJson?_ofValue fun v hv => by
    subst hv
    exact ⟨(hvalue v rfl).2, hinner⟩
  rw [Shape.decodeFields_of rfl (decodeString_ofValue inner key) (by decide),
    Shape.decodeFields_of rfl hdecode (by decide)]
  rfl

theorem whole_keyedValue {key : String} {value : Option Value} (h : Readable value) :
    (Value.object [("key", .string key), ("value", .ofOption id value)]).Whole :=
  ⟨trivial, h.whole, trivial⟩

theorem ordered_keyedValue {key : String} {value : Option Value} (h : Readable value) :
    (Value.object [("key", .string key), ("value", .ofOption id value)]).Ordered := by
  exact ⟨Keyed.sorted_pair (by decide) _ _, trivial, h.ordered, trivial⟩

theorem depth_keyedValue (key : String) (value : Value) :
    (Value.object [("key", .string key), ("value", value)]).depth = value.depth + 1 := by
  simp [Value.depth, Value.depthFields]

theorem decodeWrite_form {w : Write Value} (hvalue : Readable w.value) {source : Source}
    (h : source.Fits (writeForm w).depth) :
    decodeWrite source (Document.ofValue (writeForm w)) = .ok w.readBack := by
  rw [writeForm, depth_keyedValue] at h
  rw [decodeWrite, writeForm, decodeKeyedValue hvalue h]
  rfl

theorem write_readsBack {w : Write Value} (hvalue : Readable w.value)
    (hdepth : (writeForm w).depth < 128) : ReadsBack decodeWrite (writeForm w) w.readBack :=
  readsBack_of_ordered (whole_keyedValue hvalue) (ordered_keyedValue hvalue) hdepth
    fun _ h => decodeWrite_form hvalue h

/-! ## Changes -/

theorem Choice.decode_of {α : Type} {choice : Choice α} {source inner : Source}
    (henter : source.enter = .ok inner) {name : String} {variant : Variant α}
    (hfind : choice.variants.find? (fun variant => variant.1 = name) = some (name, variant))
    {content : Value} {a : α}
    (hcontent : variant inner (some (Document.ofValue content)) = .ok a) :
    choice.decode source (Document.ofValue (.object [(name, content)])) = .ok a := by
  have hvariant : choice.decodeVariant inner name (some (Document.ofValue content)) = .ok a := by
    rw [Choice.decodeVariant, hfind]
    exact hcontent
  cases source with
  | value =>
      cases henter
      exact hvariant
  | text room =>
      rw [Document.ofValue, Choice.decode, henter]
      simp [Document.ofFields, liftFault, checkAlone, hvariant, bind, Except.bind]

theorem recordVariant_of {σ α : Type} {shape : Shape σ} {source : Source}
    {fields : List (String × Value)} {record : σ}
    (h : shape.decode source (Document.ofValue (.object fields)) = .ok record)
    (finish : σ → Decoded α) :
    recordVariant shape finish source (some (Document.ofValue (.object fields))) =
      finish record := by
  cases source with
  | value =>
      have hobject : shape.decodeObject .value (Document.ofFields fields) .closed = .ok record := h
      rw [Document.ofValue, recordVariant, hobject]
      rfl
  | text room =>
      rw [recordVariant, h]
      rfl

theorem decodeExternal {source : Source} (h : source.Fits 1) (key newText : Option String) :
    externalShape.decode source (Document.ofValue
        (.object [("key", .ofText? key), ("new_value", .ofText? newText)])) =
      .ok ⟨key, newText⟩ := by
  obtain ⟨inner, henter, -⟩ := h.enter
  refine Shape.decode_of henter ?_
  rw [Shape.decodeFields_of rfl (decodeText?_ofValue inner key) (by decide),
    Shape.decodeFields_of rfl (decodeText?_ofValue inner newText) (by decide)]
  rfl

theorem depth_single (name : String) (content : Value) :
    (Value.object [(name, content)]).depth = content.depth + 1 := by
  simp [Value.depth, Value.depthFields]

theorem decodeChange_form {change : Change Value} (hvalue : Readable change.value?)
    {source : Source} (h : source.Fits (changeForm change).depth) :
    decodeChange source (Document.ofValue (changeForm change)) = .ok change.readBack := by
  cases change with
  | committed key value =>
      rw [changeForm, depth_single, depth_keyedValue] at h
      obtain ⟨inner, henter, hinner⟩ := h.enter
      exact Choice.decode_of henter rfl
        ((recordVariant_of (decodeKeyedValue hvalue hinner) _).trans rfl)
  | external key newText =>
      have hdepth : (Value.object [("key", .ofText? key), ("new_value", .ofText? newText)]).depth =
          1 := by
        simp [Value.depth, Value.depthFields]
      rw [changeForm, depth_single, hdepth] at h
      obtain ⟨inner, henter, hinner⟩ := h.enter
      exact Choice.decode_of henter rfl
        ((recordVariant_of (decodeExternal hinner key newText) _).trans rfl)

theorem change_readsBack {change : Change Value} (hvalue : Readable change.value?)
    (hdepth : (changeForm change).depth < 128) :
    ReadsBack decodeChange (changeForm change) change.readBack := by
  refine readsBack_of_ordered ?_ ?_ hdepth fun _ h => decodeChange_form hvalue h
  · cases change with
    | committed key value => exact ⟨whole_keyedValue hvalue, trivial⟩
    | external key newText => exact ⟨⟨whole_ofText? _, whole_ofText? _, trivial⟩, trivial⟩
  · cases change with
    | committed key value =>
        exact ⟨List.pairwise_singleton _ _, ordered_keyedValue hvalue, trivial⟩
    | external key newText =>
        exact ⟨List.pairwise_singleton _ _, ⟨Keyed.sorted_pair (by decide) _ _, ordered_ofText? _,
          ordered_ofText? _, trivial⟩, trivial⟩

/-! ## Snapshots -/

theorem decodePairs_ofFields (source : Source) (entries : List (String × String))
    (s : Snapshot) :
    decodePairs source
        (Document.ofFields (entries.map fun (key, text) => (key, .string text))) s =
      .ok (entries.foldl (fun items (key, text) => Keyed.insert key text items) s) := by
  induction entries generalizing s with
  | nil => rfl
  | cons entry rest ih => exact ih _

theorem decodeSnapshot_form {source : Source} (h : source.Fits 1)
    {entries : List (String × String)} {s : Snapshot} (hperm : entries.Perm s)
    (hsorted : Keyed.Sorted s) :
    decodeSnapshot source (Document.ofValue (snapshotForm entries)) = .ok s := by
  obtain ⟨inner, henter, -⟩ := h.enter
  have hpairs := decodePairs_ofFields inner entries []
  rw [← Keyed.ofPairs, Keyed.ofPairs_of_perm hperm hsorted] at hpairs
  rw [snapshotForm, Document.ofValue, decodeSnapshot, henter]
  simp [hpairs, liftFault, Document.checkEnding, bind, Except.bind]

theorem forall_snapshotFields (entries : List (String × String)) (p : Value → Prop)
    (h : ∀ text, p (.string text)) :
    ∀ field ∈ entries.map fun (key, text) => (key, Value.string text), p field.2 := by
  intro field hfield
  obtain ⟨entry, -, rfl⟩ := List.mem_map.mp hfield
  exact h entry.2

theorem arranged_snapshotForm {entries : List (String × String)} {s : Snapshot}
    (hperm : entries.Perm s) (hsorted : Keyed.Sorted s) :
    (snapshotForm entries).arranged = snapshotForm s := by
  have hordered : Value.OrderedFields (entries.map fun (key, text) => (key, .string text)) :=
    Value.orderedFields_iff.mpr (forall_snapshotFields entries Value.Ordered fun _ => trivial)
  have hforms : Keyed.Sorted (s.map fun (key, text) => (key, Value.string text)) :=
    List.Pairwise.map _ (fun _ _ hlt => hlt) hsorted
  rw [snapshotForm, Value.arranged, Value.arrangedFields_eq hordered,
    Keyed.ofPairs_of_perm (hperm.map _) hforms, snapshotForm]

theorem snapshot_readsBack {entries : List (String × String)} {s : Snapshot}
    (hperm : entries.Perm s) (hsorted : Keyed.Sorted s) :
    ReadsBack decodeSnapshot (snapshotForm entries) s := by
  have hdepth : (snapshotForm entries).depth = 1 := by
    have hfields : Value.depthFields (entries.map fun (key, text) => (key, .string text)) ≤ 0 :=
      Value.depthFields_le_iff.mpr (forall_snapshotFields entries (·.depth ≤ 0) fun _ => Nat.le_refl 0)
    rw [snapshotForm, Value.depth, Nat.le_zero.mp hfields]
  refine readsBack_of ?_ ?_ ?_ ?_
  · exact Value.wholeFields_iff.mpr (forall_snapshotFields entries Value.Whole fun _ => trivial)
  · rw [hdepth]
    decide
  · rw [hdepth]
    exact fun source h => decodeSnapshot_form h hperm hsorted
  · rw [arranged_snapshotForm hperm hsorted]
    have hfits : Source.value.Fits 1 := trivial
    exact decodeSnapshot_form hfits (.refl s) hsorted

/-! ## Stored texts -/

theorem parse_text_of_ordered {v : Value} (hwhole : v.Whole) (hordered : v.Ordered) (room : Room)
    (hroom : ∀ m, room = some m → v.depth < m) : Value.parse room v.text = .ok v := by
  rw [Value.parse_text hwhole hroom, hordered.arranged_eq]

theorem text_injective {v w : Value} (hv : v.Whole ∧ v.Ordered) (hw : w.Whole ∧ w.Ordered)
    (h : v.text = w.text) : v = w := by
  have hread := parse_text_of_ordered hv.1 hv.2 none nofun
  rw [h, parse_text_of_ordered hw.1 hw.2 none nofun] at hread
  exact (Except.ok.inj hread).symm

/-! ## Every form -/

/-- Every record is read back from its form, but for a null that is written as an
application's value: it is read as an absent one, so that storing it becomes a
removal.  The entries of a snapshot may be written in any order. -/
theorem serialised_forms_read_back :
    (∀ e : Event, ReadsBack decodeEvent (eventForm e) e) ∧
      (∀ (s : Snapshot) (entries : List (String × String)), Keyed.Sorted s → entries.Perm s →
        ReadsBack decodeSnapshot (snapshotForm entries) s) ∧
      (∀ c : Config, ReadsBack decodeConfig (configForm c) c) ∧
      (∀ change : Change Value, Readable change.value? → (changeForm change).depth < 128 →
        ReadsBack decodeChange (changeForm change) change.readBack) ∧
      (∀ w : Write Value, Readable w.value → (writeForm w).depth < 128 →
        ReadsBack decodeWrite (writeForm w) w.readBack) ∧
      (∀ change : Change Value,
        change.readBack = change ↔ ∀ key, change ≠ .committed key (some .null)) ∧
      (∀ w : Write Value, w.readBack = w ↔ w.value ≠ some .null) ∧
      (∀ key, (Change.committed key (some .null)).readBack = .committed key none ∧
        (Write.store key .null).readBack = .remove key) ∧
      (∀ v : Value, v.Whole → v.Ordered → v.depth < 128 →
        ∃ text, Storable.stored (Draft.json v) = .ok text ∧
          Value.parse Room.whole text = .ok v) ∧
      ∀ v w : Value, v.Whole ∧ v.Ordered → w.Whole ∧ w.Ordered →
        Storable.stored (Draft.json v) = Storable.stored (Draft.json w) → v = w := by
  refine ⟨event_readsBack, fun s entries hsorted hperm => snapshot_readsBack hperm hsorted,
    config_readsBack, fun change => change_readsBack, fun w => write_readsBack,
    fun change => Change.readBack_eq_self_iff, fun w => Write.readBack_eq_self_iff,
    fun key => ⟨rfl, rfl⟩, ?_, ?_⟩
  · intro v hwhole hordered hdepth
    exact ⟨v.text, rfl, parse_text_of_ordered hwhole hordered Room.whole (Source.fits_whole hdepth)⟩
  · intro v w hv hw h
    exact text_injective hv hw (Except.ok.inj h)

def mixedValue : Value :=
  .object [("\"", .array [.int (-9223372036854775808), .int 18446744073709551615, .object []]),
    ("a\n", .string "\\é\x01"), ("b", .null)]

theorem mixed_value_reads_back :
    ReadsBack decodeWrite (writeForm (.store "k" mixedValue)) (.store "k" mixedValue) ∧
      ReadsBack decodeWrite (writeForm (.store "k" .null)) (.remove "k") ∧
      ReadsBack decodeChange (changeForm (.committed "k" (some .null))) (.committed "k" none) ∧
      ReadsBack decodeSnapshot (snapshotForm [("b", "2"), ("a", "1")]) [("a", "1"), ("b", "2")] ∧
      (∃ text, Storable.stored (Draft.json mixedValue) = .ok text ∧
        Value.parse Room.whole text = .ok mixedValue) ∧
      Storable.stored (Draft.json mixedValue) ≠ Storable.stored (Draft.json .null) := by
  obtain ⟨-, hsnapshot, -, hchange, hwrite, -, hsame, -, hstored, hinjective⟩ :=
    serialised_forms_read_back
  have hwhole : mixedValue.Whole := by
    simp [mixedValue, Value.int, Value.Whole, Value.WholeFields, Value.WholeItems, isWord]
  have hordered : mixedValue.Ordered := by
    refine ⟨?sorted, ⟨trivial, trivial, ⟨List.Pairwise.nil, trivial⟩, trivial⟩, trivial, trivial,
      trivial⟩
    unfold Keyed.Sorted
    decide
  have hnull : Readable (some .null) := by
    rintro v ⟨⟩
    exact ⟨trivial, trivial⟩
  have hwritten := hwrite (.store "k" mixedValue) (by rintro v ⟨⟩; exact ⟨hwhole, hordered⟩)
    (by decide)
  rw [(hsame _).mpr (by decide)] at hwritten
  refine ⟨hwritten, hwrite (.store "k" .null) hnull (by decide),
    hchange (.committed "k" (some .null)) hnull (by decide), hsnapshot _ _
    (Keyed.sorted_pair (by decide) _ _) (.swap ..), hstored mixedValue hwhole hordered (by decide), fun h => ?_⟩
  have heq : mixedValue = .null :=
    hinjective mixedValue .null ⟨hwhole, hordered⟩ ⟨trivial, trivial⟩ h
  contradiction

end Decoding

end TabRelay
