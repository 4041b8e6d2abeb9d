/-!
# Storage areas and the events they raise

There are two storage areas.  A tab that changes one of them raises an event on
the other tabs: it names the key with the text before and after, or no key when
the whole area was emptied.
-/

namespace TabRelay.Storage

inductive AreaKind where
  | localArea
  | sessionArea
  deriving DecidableEq, Repr, Inhabited

namespace AreaKind

def name : AreaKind → String
  | localArea => "local"
  | sessionArea => "session"

def shown : AreaKind → String
  | localArea => "Local"
  | sessionArea => "Session"

def ofName? (name : String) : Option AreaKind :=
  if name = "local" then some localArea
  else if name = "session" then some sessionArea
  else none

def shownOption : Option AreaKind → String
  | none => "None"
  | some kind => "Some(" ++ kind.shown ++ ")"

@[simp] theorem ofName?_name (kind : AreaKind) : ofName? kind.name = some kind := by
  cases kind <;> rfl

end AreaKind

structure Event where
  key : Option String := none
  oldText : Option String := none
  newText : Option String := none
  /-- Absent when the event is about neither of the two areas. -/
  area : Option AreaKind := none
  deriving DecidableEq, Repr, Inhabited

def Event.cleared (kind : AreaKind) : Event := { area := some kind }

end TabRelay.Storage
