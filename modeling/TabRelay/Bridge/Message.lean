import TabRelay.Bridge.Error
import TabRelay.Change

/-!
# The messages on the ports

A message is a pair of a key and a value.  On its way out an absent value asks
for removal, on its way in it tells of one.
-/

namespace TabRelay.Bridge

open TabRelay.Web

/-- The write that a message asks for.  Items after the second are ignored. -/
def parseWrite (message : Value) : Except BridgeError (Write Value) :=
  match message with
  | .array (.string key :: rest) =>
      match rest with
      | [] => .ok (.remove key)
      | value :: _ => .ok (if value.isNullish then .remove key else .store key value)
  | _ => .error (.malformedMessage message)

def changeMessage : Change Value → Value
  | .committed key value => .array [.string key, value.getD .null]
  | .external key newText => .array [.ofText? key, .ofText? newText]

end TabRelay.Bridge
