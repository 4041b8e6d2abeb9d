import TabRelay.Bridge.Calls
import TabRelay.Bridge.Message

/-!
# Traffic between ports and storage

Outbound, a message of the application is applied to its storage area, and the
notice of it is sent on a later turn.  Inbound, an event of the window is sent
to the application at once, if it is about the relay's own area.
-/

namespace TabRelay.Bridge

open TabRelay.Storage TabRelay.Web

/-! ## Outbound -/

def defer (timer : Timer) : Act Unit := do
  match ← (setTimeout timer).run with
  | .ok () => pure ()
  | .error thrown =>
      mark (.note .error "setTimeout failed; deferred task dropped" [("err", thrown.shown)])
      console [.string "setTimeout failed; deferred task dropped", thrown]

/-- Apply a write to an area; a value is encoded before the area is touched. -/
def apply (kind : AreaKind) (w : Write Value) : ExceptT (WriteError Value) Act Unit := do
  match w.value with
  | none =>
      (storageRemove kind w.key).adapt (WriteError.storage w.key)
      mark .removed
  | some value =>
      match Storable.stored value with
      | .error source => throw (.encode w.key source)
      | .ok text =>
          (storageSet kind w.key text).adapt (WriteError.storage w.key)
          mark (.stored text)

def writeThrough (relay : Relay) (w : Write Value) : ExceptT (WriteError Value) Act Unit :=
  ExceptT.mk do
    mark (.enterWrite w.key w.isRemoval)
    let result ← (apply relay.kind w).run
    if let .ok () := result then
      defer (.notice relay.changePort (.committed w.key w.value))
    mark .exitWrite
    return result

def takeMessage (relay : Relay) (message : Value) : Act Unit := do
  let result ← (do
    let w ← ExceptT.mk (pure (parseWrite message))
    (writeThrough relay w).adapt BridgeError.write : ExceptT BridgeError Act Unit).run
  match result with
  | .ok () => pure ()
  | .error e =>
      mark (.note .error "storage write failed" [("err", e.message)])
      console [e.toValue]

/-! ## The application -/

/-- A callback whose closure was freed throws. -/
def callPortCallback (message : Value) (i : Nat) : Act Unit := do
  match (← get).portCallbacks[i]? with
  | some ⟨relay, true⟩ => takeMessage relay message
  | _ => record (.uncaught Value.closureError)

/-- The application emits a message on one of its ports.  The subscribers are
those at this moment; their number is returned. -/
def emit (app : Nat) (port : String) (message : Value) : Act Nat := do
  let page ← get
  let subscribers := page.subscribersOf app port
  set { page with emitted := emittedValues message ++ page.emitted }
  subscribers.forM (callPortCallback message)
  return subscribers.length
where
  emittedValues : Value → List Value
    | .array (_ :: value :: _) => [value]
    | _ => []

def echo (app : Nat) : Act Unit := do
  let page ← get
  match page.apps[app]? with
  | none => pure ()
  | some a =>
      match a.echo with
      | [] => pure ()
      | message :: rest =>
          set (page.modifyApp app fun a => { a with echo := rest })
          let _ ← emit app "storeCache" message

/-- Whether the second part of a message is an object that was emitted before. -/
def sameObject? (page : Page) : Value → Option Bool
  | .array [_, value] =>
      if value.isObject || value.isFunction then some (page.emitted.contains value) else none
  | _ => none

def sendToPort (port : Port) (message : Value) : Throwing Unit :=
  callPort port .send do
    attempt .send
    record (.sent port.name message (sameObject? (← get) message))
    echo port.app

def notify (port : Port) (change : Change Value) : Act Unit := do
  match ← (sendToPort port (changeMessage change)).run with
  | .ok () => pure ()
  | .error thrown =>
      let e := BridgeError.port port.name thrown
      mark (.note .error "failed to deliver storage change" [("err", e.message)])
      console [e.toValue]

/-! ## Inbound -/

inductive EventSource where
  | area (kind : AreaKind)
  | other
  | nothing
  deriving DecidableEq, Repr

structure WindowEvent where
  key : Option String
  oldText : Option String
  newText : Option String
  source : EventSource
  deriving DecidableEq, Repr

/-- Ask the window for an area and compare it with the source of an event.  An
area that throws or is not there is no match. -/
def isArea (source : EventSource) (kind : AreaKind) : Act Bool := do
  match ← (hasArea kind).run with
  | .ok true => return decide (source = .area kind)
  | _ => return false

def areaOf (source : EventSource) : Act (Option AreaKind) := do
  if source = .nothing then return none
  if ← isArea source .localArea then return some .localArea
  if ← isArea source .sessionArea then return some .sessionArea
  return none

def receive (relay : Relay) (event : Event) : Act Unit := do
  mark (.enterReceive event.key)
  if event.area = some relay.kind then
    notify relay.changePort (.external event.key event.newText)
    mark .forwarded
  else
    mark (.otherArea relay.kind.name (AreaKind.shownOption event.area))
  mark .exitReceive

def callWindowCallback (e : WindowEvent) (i : Nat) : Act Unit := do
  match (← get).windowCallbacks[i]? with
  | some ⟨reaction, true⟩ =>
      let event : Event := ⟨e.key, e.oldText, e.newText, ← areaOf e.source⟩
      match reaction with
      | .forward relay => receive relay event
      | .note id => record (.heard id event)
  | _ => record (.uncaught Value.closureError)

def raise (event : WindowEvent) : Act Unit := do
  (← get).listeners.forM (callWindowCallback event)

/-! ## Timers -/

def fire : Timer → Act Unit
  | .notice port change => notify port change
  | .task name => record (.started name)

/-- Timers that may still fire: those that wait, and those that the echo of each
application may add. -/
def timerBound (page : Page) : Nat :=
  let echoes := page.apps.foldr (fun app n => app.echo.length + n) 0
  let subscribers := page.apps.foldr (fun app n => app.subscribers.length + n) 0
  page.timers.length + echoes * subscribers

def fireTimers : Nat → Act Nat
  | 0 => return 0
  | fuel + 1 => do
      let page ← get
      match page.timers with
      | [] => return 0
      | timer :: rest =>
          set { page with timers := rest }
          fire timer
          return (← fireTimers fuel) + 1

def turn : Act Nat := do fireTimers (timerBound (← get))

end TabRelay.Bridge
