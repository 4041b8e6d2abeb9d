import TabRelay.Text.Shown

/-!
# Why a write was not applied
-/

namespace TabRelay

open TabRelay.Text

inductive WriteError (ε : Type) where
  | encode (key : String) (source : String)
  | storage (key : String) (source : ε)
  deriving DecidableEq, Repr

namespace WriteError

variable {ε : Type}

def key : WriteError ε → String
  | encode key _ => key
  | storage key _ => key

def source (describe : ε → String) : WriteError ε → String
  | encode _ source => source
  | storage _ source => describe source

def message (describe : ε → String) : WriteError ε → String
  | encode key source => "Cannot encode value for " ++ shown key ++ ": " ++ source
  | storage key source => "Cannot write " ++ shown key ++ " to storage: " ++ describe source

end WriteError

end TabRelay
