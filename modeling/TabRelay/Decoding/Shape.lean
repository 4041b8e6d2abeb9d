import TabRelay.Decoding.Refusal
import TabRelay.Json.Reading

/-!
# Decoding records and choices

A decoder walks a document.  A record is read from an object, field by field in
the order of the document, or from an array, field by field in the order of the
record.  A choice is read from a bare name or from an object with one field.

Two sources differ in places: a value that was read before, whose length is
known, and a text, of which only the part up to the first mistake is looked at.
-/

namespace TabRelay.Decoding

open TabRelay.Json

/-- Where a document comes from: a text with room for nesting, or a value. -/
inductive Source where
  | text (room : Room)
  | value
  deriving DecidableEq, Repr

abbrev Decoder (α : Type) := Source → Document → Decoded α

def fault {α : Type} (f : Fault) : Decoded α := .error (.fault f)

def refuse {α : Type} (r : Refusal) : Decoded α := .error (.refused r)

def liftFault {α : Type} : Except Fault α → Decoded α
  | .ok a => .ok a
  | .error f => fault f

def Source.enter : Source → Decoded Source
  | .text room => (liftFault room.enter).map .text
  | .value => .ok .value

def Source.room : Source → Room
  | .text room => room
  | .value => none

def mismatch {α : Type} (expected : String) : Document → Decoded α
  | .null => refuse (.invalidType .null expected)
  | .bool b => refuse (.invalidType (.bool b) expected)
  | .number (.int n) => refuse (.invalidType (.int n) expected)
  | .number (.float x) => refuse (.invalidType (.float x) expected)
  | .string s => refuse (.invalidType (.string s) expected)
  | .array _ _ => refuse (.invalidType .sequence expected)
  | .object _ _ => refuse (.invalidType .map expected)
  | .broken _ f _ => fault f

/-! ## Simple values -/

def decodeString : Decoder String
  | _, .string s => .ok s
  | _, d => mismatch "a string" d

/-- Null is absence; a word that begins as null is read as null. -/
def decodeOption {α : Type} (decode : Decoder α) : Decoder (Option α)
  | _, .null => .ok none
  | _, .broken .nullWord f _ => fault f
  | source, d => (decode source d).map some

def decodeJson : Decoder Value := fun source d => liftFault (d.toValue source.room)

def decodeNull (expected : String) : Decoder Unit
  | _, .null => .ok ()
  | _, d => mismatch expected d

/-! ## Records -/

structure Field (σ : Type) where
  name : String
  decode : Source → Document → σ → Decoded σ

def Field.of {σ α : Type} (name : String) (decode : Decoder α) (set : α → σ → σ) : Field σ where
  name := name
  decode := fun source d record => (decode source d).map (set · record)

structure Shape (σ : Type) where
  expected : String
  fields : List (Field σ)
  closed : Bool
  /-- Whether an array may leave out its last fields. -/
  openEnded : Bool
  start : σ

namespace Shape

variable {σ : Type}

def names (shape : Shape σ) : List String := shape.fields.map (·.name)

def find? (shape : Shape σ) (name : String) : Option (Field σ) :=
  shape.fields.find? fun field => field.name = name

/-- Read the fields of an object.  A field given twice is refused when its second
name is met. -/
def decodeFields (shape : Shape σ) (source : Source) :
    List (Except Fault String × Document) → List String → σ → Decoded σ
  | [], _, record => .ok record
  | (key, found) :: rest, seen, record => do
      let key ← liftFault key
      match shape.find? key with
      | some field =>
          if key ∈ seen then refuse (.duplicateField key)
          else do
            let record ← field.decode source found record
            decodeFields shape source rest (key :: seen) record
      | none =>
          if shape.closed then refuse (.unknownField key shape.names)
          else do
            liftFault found.skip
            decodeFields shape source rest seen record

/-- Read the items of an array as fields; what is left are the items too many,
or the number of items when there were too few. -/
def decodeItems (shape : Shape σ) (source : Source) (ending : Ending) (count : Nat) :
    List (Field σ) → List Document → σ → Decoded (σ × List Document)
  | [], items, record => .ok (record, items)
  | _ :: _, [], record => do
      liftFault (Document.checkEnding ending)
      if shape.openEnded then .ok (record, [])
      else
        refuse (.invalidLength count
          (shape.expected ++ " with " ++ toString shape.fields.length ++ " elements"))
  | field :: fields, item :: items, record => do
      let record ← field.decode source item record
      decodeItems shape source ending count fields items record

def decodeObject (shape : Shape σ) (source : Source)
    (fields : List (Except Fault String × Document)) (ending : Ending) : Decoded σ := do
  let source ← source.enter
  let record ← shape.decodeFields source fields [] shape.start
  liftFault (Document.checkEnding ending)
  .ok record

def decodeArray (shape : Shape σ) (source : Source) (items : List Document) (ending : Ending) :
    Decoded σ := do
  let inner ← source.enter
  let (record, more) ← shape.decodeItems inner ending items.length shape.fields items shape.start
  match more, source with
  | [], _ => do
      liftFault (Document.checkEnding ending)
      .ok record
  | _ :: _, .text _ => fault .malformed
  | _ :: _, .value => refuse (.invalidLength items.length "fewer elements in array")

def decode (shape : Shape σ) : Decoder σ
  | source, .object fields ending => shape.decodeObject source fields ending
  | source, .array items ending => shape.decodeArray source items ending
  | _, d => mismatch shape.expected d

end Shape

/-! ## Choices -/

/-- The content of a variant: a bare name has none. -/
abbrev Variant (α : Type) := Source → Option Document → Decoded α

structure Choice (α : Type) where
  variants : List (String × Variant α)

namespace Choice

variable {α : Type}

def decodeVariant (choice : Choice α) (source : Source) (name : String)
    (content : Option Document) : Decoded α :=
  match choice.variants.find? fun variant => variant.1 = name with
  | some (_, variant) => variant source content
  | none => refuse (.unknownVariant name (choice.variants.map (·.1)))

/-- In a text nothing may follow the one field. -/
def checkAlone (more : List (Except Fault String × Document)) (ending : Ending) :
    Except Fault Unit :=
  match more, ending with
  | [], .closed => .ok ()
  | [], .cut fault false => .error fault
  | _, _ => .error .malformed

def decode (choice : Choice α) : Decoder α
  | source, .string name => choice.decodeVariant source name none
  | .text room, .object fields ending => do
      let inner ← Source.enter (.text room)
      match fields, ending with
      | [], .closed => fault .malformed
      | [], .cut f _ => fault f
      | (key, content) :: more, ending => do
          let key ← liftFault key
          let result ← choice.decodeVariant inner key (some content)
          liftFault (checkAlone more ending)
          .ok result
  | .value, .object [(key, content)] _ => do
      let key ← liftFault key
      choice.decodeVariant .value key (some content)
  | .value, .object _ _ => refuse .notOneKey
  | .text _, .broken .nothing f _ => fault f
  | .text _, _ => fault .malformed
  | .value, d => mismatch "string or map" d

end Choice

def plainVariant {α : Type} (result : α) : Variant α
  | _, none => .ok result
  | source, some content => (decodeNull "unit" source content).map fun _ => result

/-- A variant whose content is a record.  A value has to be an object; in a text
it may be an array as well. -/
def recordVariant {σ α : Type} (shape : Shape σ) (finish : σ → Decoded α) : Variant α
  | _, none => refuse (.invalidType .bareVariant "struct variant")
  | .text room, some content => do finish (← shape.decode (.text room) content)
  | .value, some (.object fields ending) => do
      finish (← shape.decodeObject .value fields ending)
  | .value, some content => mismatch "struct variant" content

/-! ## Whole values and texts -/

def ofValue {α : Type} (decode : Decoder α) (v : Value) : Decoded α :=
  decode .value (Document.ofValue v)

def ofText {α : Type} (decode : Decoder α) (text : String) : Decoded α := do
  let reading := Document.read text
  let result ← decode (.text Room.whole) reading.document
  if reading.trailing then fault .malformed else .ok result

end TabRelay.Decoding
