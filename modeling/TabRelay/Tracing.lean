import TabRelay.Text.Shown

/-!
# Records of what is going on

A `Mark` is left when a span of work begins or ends and when something worth
telling happens in it.  All its fields are texts.
-/

namespace TabRelay

open TabRelay.Text

inductive Level where
  | debug
  | info
  | warning
  | error
  deriving DecidableEq, Repr

def Level.name : Level → String
  | debug => "debug"
  | info => "info"
  | warning => "warn"
  | error => "error"

inductive Mark where
  | enter (span : String) (fields : List (String × String))
  | exit (span : String)
  | note (level : Level) (message : String) (fields : List (String × String))
  deriving DecidableEq, Repr

namespace Mark

def boolText (b : Bool) : String := if b then "true" else "false"

def enterWrite (key : String) (isRemoval : Bool) : Mark :=
  .enter "write" [("key", key), ("remove", boolText isRemoval)]

def exitWrite : Mark := .exit "write"

def removed : Mark := .note .debug "removed" []

def stored (text : String) : Mark :=
  .note .debug "stored" [("bytes", toString text.utf8ByteSize)]

def enterReceive (key : Option String) : Mark := .enter "receive" [("key", shownOption key)]

def exitReceive : Mark := .exit "receive"

def otherArea (area eventArea : String) : Mark :=
  .note .debug "event for another storage area dropped"
    [("area", area), ("event_area", eventArea)]

def forwarded : Mark := .note .debug "forwarded" []

def enterRead (area : String) : Mark := .enter "read" [("area", area)]

def exitRead : Mark := .exit "read"

def readEntries (count : Nat) : Mark :=
  .note .debug "read storage snapshot" [("entries", toString count)]

def enterRecord (key : Option String) : Mark :=
  .enter "on_store_change" [("key", shownOption key)]

def exitRecord : Mark := .exit "on_store_change"

def reentered (key : Option String) : Mark :=
  .note .warning "storage handler re-entered; event dropped" [("key", shownOption key)]

end Mark

end TabRelay
