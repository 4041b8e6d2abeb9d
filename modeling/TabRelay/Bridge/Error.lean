import TabRelay.Storage.Event
import TabRelay.Web.Stringify
import TabRelay.WriteError

/-!
# What can go wrong in a bridge

Each error has a name, by which a web page tells it apart, and a message.
-/

namespace TabRelay.Bridge

open TabRelay.Storage TabRelay.Text TabRelay.Web

inductive PortMethod where
  | send
  | subscribe
  | unsubscribe
  deriving DecidableEq, Repr

def PortMethod.name : PortMethod → String
  | send => "send"
  | subscribe => "subscribe"
  | unsubscribe => "unsubscribe"

inductive BridgeError where
  | noWindow
  | noDocument
  | storageUnavailable (kind : AreaKind)
  | storage (thrown : Value)
  | config (reason : String)
  | conversion (reason : String)
  | noPorts
  | missingPort (name : String) (method : PortMethod)
  | port (name : String) (thrown : Value)
  | init (thrown : Value)
  | malformedMessage (message : Value)
  | write (error : WriteError Value)
  deriving DecidableEq

def storageMessage (thrown : Value) : String := "Web Storage call failed: " ++ thrown.shown

namespace BridgeError

def name : BridgeError → String
  | noWindow | noDocument => "EnvironmentError"
  | storageUnavailable _ | storage _ => "StorageError"
  | config _ => "ConfigError"
  | conversion _ => "SerializationError"
  | noPorts | missingPort .. | port .. | malformedMessage _ => "PortError"
  | init _ => "InitError"
  | write _ => "WriteError"

def message : BridgeError → String
  | noWindow => "No global `window` object"
  | noDocument => "No `document` on the window"
  | storageUnavailable kind => kind.name ++ " storage is not available"
  | storage thrown => storageMessage thrown
  | config reason => "Invalid bridge config: " ++ reason
  | conversion reason => "Cannot convert value for JavaScript: " ++ reason
  | noPorts => "Application has no `ports` object"
  | missingPort name method =>
      "Port " ++ shown name ++ " is missing or has no `" ++ method.name ++ "` function"
  | port name thrown => "Port " ++ shown name ++ " rejected the call: " ++ thrown.shown
  | init thrown => "Application init failed: " ++ thrown.shown
  | malformedMessage m => "Malformed port message, expected [key, value]: " ++ m.shown
  | write error => error.message storageMessage

def toValue (e : BridgeError) : Value := .error e.name e.message

end BridgeError

end TabRelay.Bridge
