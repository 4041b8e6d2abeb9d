import TabRelay.Json.Token

/-!
# Reading a JSON text

A text is read as a document to the place where it ends or breaks.  A value is
read from a text that is JSON to its end.
-/

namespace TabRelay.Json

namespace Document

/-- What follows a value is not known when it could not be passed over. -/
def lost : Ending := .cut .ended false

mutual

def readValue : Nat → List Char → Document × Option (List Char)
  | 0, _ => (.broken .nothing .ended (some .ended), none)
  | fuel + 1, cs =>
      match skipBlanks cs with
      | [] => (.broken .nothing .ended (some .ended), none)
      | '[' :: cs =>
          match skipBlanks cs with
          | [] => (.array [] (.cut .ended false), none)
          | ']' :: rest => (.array [] .closed, some rest)
          | cs =>
              let (items, ending, rest) := readItems fuel cs
              (.array items ending, rest)
      | '\x7b' :: cs =>
          match skipBlanks cs with
          | [] => (.object [] (.cut .ended false), none)
          | '\x7d' :: rest => (.object [] .closed, some rest)
          | cs =>
              let (fields, ending, rest) := readFields fuel false cs
              (.object fields ending, rest)
      | '"' :: cs => ofSpelled (spelled cs)
      | 'n' :: cs => word .nullWord .null ['u', 'l', 'l'] cs
      | 't' :: cs => word .plain (.bool true) ['r', 'u', 'e'] cs
      | 'f' :: cs => word .plain (.bool false) ['a', 'l', 's', 'e'] cs
      | '-' :: cs => readNumber true cs
      | c :: cs =>
          if c.isDigit then readNumber false (c :: cs)
          else (.broken .nothing .malformed (some .malformed), none)

def readItems : Nat → List Char → List Document × Ending × Option (List Char)
  | 0, _ => ([], lost, none)
  | fuel + 1, cs =>
      match readValue fuel cs with
      | (item, none) => ([item], lost, none)
      | (item, some cs) =>
          match skipBlanks cs with
          | [] => ([item], .cut .ended false, none)
          | ']' :: rest => ([item], .closed, some rest)
          | ',' :: cs =>
              let (more, ending, rest) := readItems fuel cs
              (item :: more, ending, rest)
          | _ => ([item], .cut .malformed false, none)

def readFields : Nat → Bool → List Char →
    List (Except Fault String × Document) × Ending × Option (List Char)
  | 0, _, _ => ([], lost, none)
  | fuel + 1, afterComma, cs =>
      match skipBlanks cs with
      | [] => ([], .cut .ended afterComma, none)
      | '"' :: cs =>
          let spelled := spelled cs
          let key := spelled.value.map String.ofList
          match spelled.rest with
          | .error fault => ([(key, .broken .nothing fault (some fault))], lost, none)
          | .ok cs =>
              match skipBlanks cs with
              | [] => ([(key, .broken .nothing .ended (some .ended))], lost, none)
              | ':' :: cs =>
                  match readValue fuel cs with
                  | (found, none) => ([(key, found)], lost, none)
                  | (found, some cs) =>
                      match skipBlanks cs with
                      | [] => ([(key, found)], .cut .ended false, none)
                      | '\x7d' :: rest => ([(key, found)], .closed, some rest)
                      | ',' :: cs =>
                          let (more, ending, rest) := readFields fuel true cs
                          ((key, found) :: more, ending, rest)
                      | _ => ([(key, found)], .cut .malformed false, none)
              | _ => ([(key, .broken .nothing .malformed (some .malformed))], lost, none)
      | _ => ([], .cut .malformed afterComma, none)

end

structure Reading where
  document : Document
  trailing : Bool

def read (text : String) : Reading :=
  let cs := text.toList
  let (document, rest) := readValue (2 * cs.length + 2) cs
  ⟨document, match rest with
    | none => false
    | some rest => !(skipBlanks rest).isEmpty⟩

end Document

def Value.parse (room : Room) (text : String) : Except Fault Value := do
  let reading := Document.read text
  let value ← reading.document.toValue room
  if reading.trailing then .error .malformed else .ok value

end TabRelay.Json
