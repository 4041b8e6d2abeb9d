import TabRelay.Bridge.Config
import TabRelay.Text.Shown
import TabRelay.Web.Stringify

/-!
# Reading a configuration from a web page

The four fields are asked for by name, so that fields of other names are not
noticed.  A field that is there is read, whatever its value; one that is missing
has its default.
-/

namespace TabRelay.Bridge

open TabRelay.Decimal TabRelay.Storage TabRelay.Text TabRelay.Web

def foundText : Value → String
  | .undefined | .null => "unit value"
  | .bool true => "boolean `true`"
  | .bool false => "boolean `false`"
  | .number x => "floating point `" ++ Layout.plain.text x ++ "`"
  | .string s => "string " ++ Text.shown s
  | v => v.shown

def invalidType {α : Type} (found : Value) (expected : String) : Except String α :=
  .error ("invalid type: " ++ foundText found ++ ", expected " ++ expected)

def readString : Value → Except String String
  | .string s => .ok s
  | v => invalidType v "a string"

def readAreaName (name : String) : Except String AreaKind :=
  match AreaKind.ofName? name with
  | some kind => .ok kind
  | none => .error ("unknown variant `" ++ name ++ "`, expected `local` or `session`")

/-- An area is given by its name, or by an object whose only field has that name
and no value. -/
def readArea : Value → Except String AreaKind
  | .string name => readAreaName name
  | v =>
      if v.isObject then
        match v.fields with
        | [(name, content)] => do
            let kind ← readAreaName name
            if content.isNullish then .ok kind else invalidType content "unit"
        | fields => .error ("invalid length " ++ toString fields.length ++ ", expected 1")
      else invalidType v "enum StorageArea"

/-- A field that is there, even if its value is undefined. -/
def readField {α : Type} (v : Value) (name : String) (read : Value → Except String α)
    (default : α) : Except String α :=
  match v.fields.find? fun field => field.1 = name with
  | some (_, value) => read value
  | none => .ok default

def readFields (v : Value) : Except String Config := do
  let defaults : Config := {}
  let node ← readField v "node" readString defaults.node
  let storePort ← readField v "storePort" readString defaults.storePort
  let changePort ← readField v "changePort" readString defaults.changePort
  let area ← readField v "area" readArea defaults.area
  .ok { node, storePort, changePort, area }

def Config.ofValue (v : Value) : Except String Config :=
  if v.isNullish then .ok {}
  else
    let read := if v.isObject then readFields v else invalidType v "struct BridgeConfig"
    read.mapError fun reason => "Error: " ++ reason

end TabRelay.Bridge
