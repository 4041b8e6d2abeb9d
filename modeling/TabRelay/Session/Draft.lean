import TabRelay.Change
import TabRelay.Json.Value

/-!
# Values that an application writes

A draft is a JSON value, which is stored as its compact text, or a value that
has no text, with the reason.
-/

namespace TabRelay.Session

open TabRelay.Json

inductive Draft where
  | json (value : Value)
  | unencodable (reason : String)
  deriving DecidableEq

instance : Storable Draft where
  stored
    | .json value => .ok value.text
    | .unencodable reason => .error reason

end TabRelay.Session
