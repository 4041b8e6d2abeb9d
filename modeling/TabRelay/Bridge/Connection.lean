import TabRelay.Bridge.ConfigReading
import TabRelay.Bridge.Traffic

/-!
# Connecting an application to a storage area

A connection holds two callbacks: one is subscribed to the store port of the
application, the other listens for the storage events of the window.  Stopping
gives both back.  An entry into the library does its steps in order, and the
first that fails ends it.
-/

namespace TabRelay.Bridge

open TabRelay.Storage TabRelay.Web

abbrev Bridging := ExceptT BridgeError Act

structure Connection where
  app : Nat
  relay : Relay
  storePort : Port
  onWrite : Option Nat
  listener : Option Nat
  deriving DecidableEq

def Connection.isConnected (c : Connection) : Bool := c.onWrite.isSome || c.listener.isSome

/-- A connection that was stopped holds nothing, even when stopping it failed. -/
def Connection.stopped (c : Connection) : Connection :=
  { c with onWrite := none, listener := none }

/-! ## Entries -/

def entry {α : Type} (name : String) (act : Bridging α) : Bridging α :=
  ExceptT.mk do
    mark (.enter "js_entry" [("entry", name)])
    mark (.note .debug "start" [])
    let result ← act.run
    mark (.exit "js_entry")
    return result

/-! ## What an entry needs -/

def readConfig (config : Value) : Bridging Config :=
  ExceptT.mk (pure ((Config.ofValue config).mapError BridgeError.config))

def needWindow : Bridging Unit := do
  unless (← get).hasWindow do throw .noWindow

def needArea (kind : AreaKind) : Bridging Unit := do
  let found ← (hasArea kind).adapt BridgeError.storage
  unless found do throw (.storageUnavailable kind)

def readSnapshot (kind : AreaKind) : Bridging Snapshot :=
  ExceptT.mk do
    mark (.enterRead kind.name)
    let result ← (Snapshot.read (areaService kind)).run
    if let .ok s := result then mark (.readEntries s.length)
    mark .exitRead
    return result.mapError BridgeError.storage

/-- The element to mount the application at.  An application may need none, so a
missing one is null. -/
def mountNode (id : String) : Bridging Value := do
  let page ← get
  unless page.hasDocument do throw .noDocument
  if page.nodes.contains id then return .element id
  mark (.note .warning "mount node not found, passing null" [("node", id)])
  return .null

def launch (node flags : Value) : Bridging Nat := do
  (attempt .init).adapt BridgeError.init
  record (.init node flags)
  addApp "main" (← get).program

def Page.findPort (page : Page) (app : Nat) (name : String) (method : PortMethod) :
    Except BridgeError Port :=
  let ports := (page.apps[app]?.map (·.ports)).getD .undefined
  if ports.isObject then
    match ports.property name with
    | .error _ => .error (.missingPort name method)
    | .ok port =>
        if port.isObject && hasMethod port then .ok ⟨app, name, port⟩
        else .error (.missingPort name method)
  else .error .noPorts
where
  hasMethod (port : Value) : Bool :=
    match port.property method.name with
    | .ok value => value.isFunction
    | .error _ => false

/-! ## Listening on the window -/

def listen (reaction : Reaction) : Throwing Nat := do
  let callback ← addWindowCallback reaction
  try
    addListener callback
    return callback
  catch thrown =>
    freeWindowCallback callback
    throw thrown

/-- The callback is freed, even when the window keeps it. -/
def unlisten (callback : Nat) : Act Unit := do
  match ← (removeListener callback).run with
  | .ok () => pure ()
  | .error thrown =>
      mark (.note .warning "failed to remove storage listener" [("err", thrown.shown)])
  freeWindowCallback callback

/-! ## Connecting -/

/-- Connect a running application.  When a step fails, the callback for the store
port is freed, but it stays subscribed. -/
def connect (app : Nat) (config : Config) : Bridging Connection := do
  let page ← get
  let changePort ← page.findPort app config.changePort .send
  let storePort ← page.findPort app config.storePort .subscribe
  let relay : Relay := ⟨config.area, changePort⟩
  let onWrite ← addPortCallback relay
  try
    (subscribePort storePort onWrite).adapt (BridgeError.port storePort.name)
    let listener ← (listen (.forward relay)).adapt BridgeError.storage
    mark (.note .debug "ports connected"
      [("store_port", config.storePort), ("change_port", config.changePort)])
    return ⟨app, relay, storePort, some onWrite, some listener⟩
  catch e =>
    freePortCallback onWrite
    throw e

def start (config : Value) : Bridging Connection :=
  entry "StorageBridge::start" do
    let config ← readConfig config
    needWindow
    needArea config.area
    let snapshot ← readSnapshot config.area
    let node ← mountNode config.node
    let app ← launch node (Value.ofSnapshot snapshot)
    mark (.note .info "application started" [("area", config.area.name)])
    connect app config

def attach (app : Nat) (config : Value) : Bridging Connection :=
  entry "StorageBridge::attach" do
    let config ← readConfig config
    needWindow
    needArea config.area
    connect app config

/-! ## Disconnecting -/

def unsubscribe (port : Port) (callback : Nat) : Bridging Unit :=
  ExceptT.mk do
    let result ← (unsubscribePort port callback).run
    freePortCallback callback
    return result.mapError (BridgeError.port port.name)

def stop (c : Connection) : Bridging Unit :=
  entry "StorageBridge::stop" do
    if let some listener := c.listener then unlisten listener
    if let some onWrite := c.onWrite then unsubscribe c.storePort onWrite

def drop (c : Connection) : Act Unit := do
  match ← (stop c).run with
  | .ok () => pure ()
  | .error e =>
      mark (.note .warning "failed to disconnect storage bridge" [("err", e.message)])

/-! ## Reading the area -/

def snapshot (c : Connection) : Bridging Value :=
  entry "StorageBridge::snapshot" do
    return Value.ofSnapshot (← readSnapshot c.relay.kind)

def allState : Bridging Value :=
  entry "allState" do
    needWindow
    needArea .localArea
    return Value.ofSnapshot (← readSnapshot .localArea)

end TabRelay.Bridge
