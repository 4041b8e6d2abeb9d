/-!
# Writes and the notices of changes

An application asks for a `Write`.  It is told of two kinds of `Change`: its own
write was applied, or another tab changed the area.
-/

namespace TabRelay

structure Write (V : Type) where
  key : String
  value : Option V
  deriving DecidableEq, Repr

namespace Write

variable {V : Type}

def store (key : String) (value : V) : Write V := ⟨key, some value⟩

def remove (key : String) : Write V := ⟨key, none⟩

def isRemoval (w : Write V) : Bool := w.value.isNone

end Write

inductive Change (V : Type) where
  /-- The application's own write, with the value as it was written. -/
  | committed (key : String) (value : Option V)
  /-- Another tab's change, with the stored text.  Without a key the area was
  emptied. -/
  | external (key : Option String) (newText : Option String)
  deriving DecidableEq, Repr

namespace Change

variable {V : Type}

def key? : Change V → Option String
  | committed key _ => some key
  | external key _ => key

def isCommitted : Change V → Bool
  | committed _ _ => true
  | external _ _ => false

end Change

class Storable (V : Type) where
  stored : V → Except String String

end TabRelay
