import TabRelay.Bridge.Page

/-!
# Calls on a page

What can be done in a page: the calls on its storage areas, its window and the
ports of its applications.  A call is attempted first and has its effect only
when it does not throw.
-/

namespace TabRelay.Bridge

open TabRelay.Storage TabRelay.Web

abbrev Act := StateM Page

abbrev Throwing := ExceptT Value Act

def record (entry : Trace) : Act Unit :=
  modify fun page => { page with trace := entry :: page.trace }

def mark (m : Mark) : Act Unit := record (.mark m)

def console (arguments : List Value) : Act Unit := record (.console arguments)

def attempt (call : PageCall) : Throwing Unit := do
  let s := (← get).scheduleOf call
  modify fun page => page.setSchedule call s.next
  match s.thrown with
  | none => pure ()
  | some thrown => throw thrown

/-! ## The storage areas of the window -/

def getterOf : AreaKind → PageCall
  | .localArea => .localStorage
  | .sessionArea => .sessionStorage

def hasArea (kind : AreaKind) : Throwing Bool := do
  attempt (getterOf kind)
  return ((← get).entries kind).isSome

def entriesOf (kind : AreaKind) : Act Entries := do
  return ((← get).entries kind).getD []

def storageLength (kind : AreaKind) : Throwing Nat := do
  attempt .length
  return (← entriesOf kind).length

def storageKey (kind : AreaKind) (index : Nat) : Throwing (Option String) := do
  attempt .key
  return (← entriesOf kind)[index]?.map (·.1)

def storageGet (kind : AreaKind) (key : String) : Throwing (Option String) := do
  attempt .getItem
  return (← entriesOf kind).get? key

def storageSet (kind : AreaKind) (key text : String) : Throwing Unit := do
  attempt .setItem
  modify fun page => page.setEntries kind (((page.entries kind).getD []).set key text)

def storageRemove (kind : AreaKind) (key : String) : Throwing Unit := do
  attempt .removeItem
  modify fun page => page.setEntries kind (((page.entries kind).getD []).remove key)

def areaService (kind : AreaKind) : Service Throwing where
  length := storageLength kind
  key := storageKey kind
  get := storageGet kind

/-! ## Window and timers -/

def addListener (callback : Nat) : Throwing Unit := do
  attempt .addEventListener
  record .listening
  modify fun page => { page with listeners := page.listeners ++ [callback] }

def removeListener (callback : Nat) : Throwing Unit := do
  attempt .removeEventListener
  record .unlistened
  modify fun page => { page with listeners := page.listeners.filter fun c => c ≠ callback }

def setTimeout (timer : Timer) : Throwing Unit := do
  attempt .setTimeout
  record .timeout
  modify fun page => { page with timers := page.timers ++ [timer] }

/-! ## Callbacks of the library -/

def addPortCallback (relay : Relay) : Act Nat := do
  let page ← get
  set { page with portCallbacks := page.portCallbacks ++ [PortCallback.mk relay true] }
  return page.portCallbacks.length

def addWindowCallback (reaction : Reaction) : Act Nat := do
  let page ← get
  set { page with windowCallbacks := page.windowCallbacks ++ [WindowCallback.mk reaction true] }
  return page.windowCallbacks.length

def freePortCallback (i : Nat) : Act Unit :=
  modify fun page =>
    { page with portCallbacks := page.portCallbacks.modify i fun c => { c with alive := false } }

def freeWindowCallback (i : Nat) : Act Unit :=
  modify fun page =>
    { page with
      windowCallbacks := page.windowCallbacks.modify i fun c => { c with alive := false } }

/-! ## Applications -/

def addApp (name : String) (spec : AppSpec) : Act Nat := do
  let page ← get
  let i := page.apps.length
  set { page with
    apps := page.apps ++ [App.mk name spec.ports spec.echo []]
    appNames := Keyed.insert name i page.appNames }
  return i

/-- Call a method of a port.  Only the page's own ports have an effect: a plain
function does nothing. -/
def callPort (port : Port) (method : PortMethod) (effect : Throwing Unit) : Throwing Unit :=
  match port.value.property method.name with
  | .error thrown => throw thrown
  | .ok .function => if port.value.isPort then effect else pure ()
  | .ok _ => throw Value.typeError

def subscribePort (port : Port) (callback : Nat) : Throwing Unit :=
  callPort port .subscribe do
    attempt .subscribe
    record (.subscribed port.name)
    modify fun page =>
      page.modifyApp port.app fun app =>
        { app with subscribers := app.subscribers ++ [(port.name, callback)] }

def unsubscribePort (port : Port) (callback : Nat) : Throwing Unit :=
  callPort port .unsubscribe do
    attempt .unsubscribe
    record (.unsubscribed port.name)
    modify fun page =>
      page.modifyApp port.app fun app =>
        { app with subscribers := app.subscribers.filter fun s => s ≠ (port.name, callback) }

end TabRelay.Bridge
