import TabRelay.Bridge.Connection

/-!
# Scenes in a page

A scene is a page with the connections and the subscriptions made in it, each
under a name.  A step is what the application, another tab, the window or the
owner of a connection does next, and has an answer.
-/

namespace TabRelay.Bridge

open TabRelay.Storage TabRelay.Web

/-! ## Steps -/

inductive Question where
  | snapshot
  | area
  | isConnected
  | app
  deriving DecidableEq, Repr

inductive AreaCall where
  | name
  | length
  | isEmpty
  | key (index : Nat)
  | get (key : String)
  | set (key text : String)
  | remove (key : String)
  | isOwn
  deriving DecidableEq, Repr

inductive TabChange where
  | set (key text : String)
  | remove (key : String)
  | clear
  deriving DecidableEq, Repr

inductive Step where
  | start (id : String) (config : Value)
  | attach (id : String) (spec : AppSpec) (config : Value)
  | stop (id : String)
  | drop (id : String)
  | ask (id : String) (question : Question)
  | allState
  | emit (app port : String) (message : Value)
  | turn
  | change (kind : AreaKind) (change : TabChange)
  | event (event : WindowEvent)
  | fail (call : PageCall) (thrown : Value) (times : Option Nat)
  | recover (call : PageCall)
  | count (app : String)
  | defer (task : String)
  | call (kind : AreaKind) (call : AreaCall)
  | subscribe (id : String) (kind : AreaKind)
  | unsubscribe (id : String)
  | rest
  deriving DecidableEq

inductive Answer where
  | ok
  | bool (value : Bool)
  | count (n : Nat)
  | text (text : Option String)
  | value (value : Value)
  | counts (subscribers listeners timers : Nat)
  | noSuch (id : String)
  | failed (error : BridgeError)
  | threw (thrown : Value)
  deriving DecidableEq

structure Scene where
  page : Page := {}
  connections : Keyed Connection := []
  subscriptions : Keyed Nat := []

abbrev Play := StateM Scene

def onPage {α : Type} (act : Act α) : Play α := do
  let scene ← get
  let (a, page) := act.run scene.page
  set { scene with page }
  return a

/-! ## Another tab -/

def TabChange.effect (kind : AreaKind) (entries : Entries) :
    TabChange → Option (Entries × WindowEvent)
  | .set key text =>
      let old := entries.get? key
      if old = some text then none
      else some (entries.set key text, ⟨some key, old, some text, .area kind⟩)
  | .remove key =>
      (entries.get? key).map fun old =>
        (entries.remove key, ⟨some key, some old, none, .area kind⟩)
  | .clear =>
      if entries.isEmpty then none else some ([], ⟨none, none, none, .area kind⟩)

def changeArea (kind : AreaKind) (change : TabChange) : Act Unit := do
  match ((← get).entries kind).bind (change.effect kind) with
  | none => pure ()
  | some (entries, event) =>
      modify fun page => page.setEntries kind entries
      raise event

def Page.sourceOf (page : Page) : EventSource → EventSource
  | .area kind => if (page.entries kind).isSome then .area kind else .nothing
  | source => source

/-! ## Connections by name -/

/-- Keep a connection.  One that had its name is dropped after that. -/
def keepConnection (id : String) (c : Connection) : Play Unit := do
  let scene ← get
  set { scene with connections := Keyed.insert id c scene.connections }
  match Keyed.lookup? id scene.connections with
  | some old => onPage (drop old)
  | none => pure ()

def connecting (id : String) (act : Bridging Connection) : Play Answer := do
  match ← onPage act.run with
  | .ok c =>
      keepConnection id c
      return .ok
  | .error e => return .failed e

def withConnection (id : String) (act : Connection → Play Answer) : Play Answer := do
  match Keyed.lookup? id (← get).connections with
  | some c => act c
  | none => return .noSuch id

def stopConnection (id : String) (c : Connection) : Play Answer := do
  let result ← onPage (stop c).run
  modify fun scene =>
    { scene with connections := Keyed.insert id c.stopped scene.connections }
  match result with
  | .ok () => return .ok
  | .error e => return .failed e

def dropConnection (id : String) (c : Connection) : Play Answer := do
  onPage (drop c)
  modify fun scene => { scene with connections := Keyed.erase id scene.connections }
  return .ok

def valueAnswer : Except BridgeError Value → Answer
  | .ok v => .value v
  | .error e => .failed e

def answerQuestion (c : Connection) : Question → Act Answer
  | .snapshot => do return valueAnswer (← (snapshot c).run)
  | .area => return .text (some c.relay.kind.name)
  | .isConnected => return .bool c.isConnected
  | .app => do
      match (← get).apps[c.app]? with
      | some app => return .value (.app app.name)
      | none => return .value .undefined

/-! ## Areas of the window -/

def callArea (kind : AreaKind) : AreaCall → Throwing Answer
  | .name => return .text (some kind.name)
  | .length => do return .count (← storageLength kind)
  | .isEmpty => do return .bool ((← storageLength kind) == 0)
  | .key index => do return .text (← storageKey kind index)
  | .get key => do return .text (← storageGet kind key)
  | .set key text => do
      storageSet kind key text
      return .ok
  | .remove key => do
      storageRemove kind key
      return .ok
  | .isOwn => return .bool true

def inArea {α : Type} (kind : AreaKind) (act : Throwing α) : ExceptT Answer Act α := do
  needWindow.adapt Answer.failed
  (needArea kind).adapt Answer.failed
  act.adapt Answer.threw

def keepSubscription (id : String) (listener : Nat) : Play Unit := do
  let scene ← get
  set { scene with subscriptions := Keyed.insert id listener scene.subscriptions }
  match Keyed.lookup? id scene.subscriptions with
  | some old => onPage (unlisten old)
  | none => pure ()

def subscribeNamed (id : String) (kind : AreaKind) : Play Answer := do
  match ← onPage (inArea kind (listen (.note id))).run with
  | .ok listener =>
      keepSubscription id listener
      return .ok
  | .error answer => return answer

/-! ## Playing -/

def countsOf (page : Page) (app : String) : Answer :=
  let subscribers := match page.app? app with
    | some i => (page.subscribersOf i "storeCache").length
    | none => 0
  .counts subscribers page.listeners.length page.timers.length

def perform : Step → Play Answer
  | .start id config => connecting id (start config)
  | .attach id spec config => do
      let app ← onPage (addApp id spec)
      connecting id (attach app config)
  | .stop id => withConnection id (stopConnection id)
  | .drop id => withConnection id (dropConnection id)
  | .ask id question => withConnection id fun c => onPage (answerQuestion c question)
  | .allState => do return valueAnswer (← onPage allState.run)
  | .emit app port message => do
      match (← get).page.app? app with
      | some i => return .count (← onPage (emit i port message))
      | none => return .count 0
  | .turn => do return .count (← onPage turn)
  | .change kind change => do
      onPage (changeArea kind change)
      return .ok
  | .event e => do
      onPage (raise { e with source := (← get).page.sourceOf e.source })
      return .ok
  | .fail call thrown times => do
      onPage (modify fun page => page.setSchedule call (.throwing thrown times))
      return .ok
  | .recover call => do
      onPage (modify fun page => page.setSchedule call {})
      return .ok
  | .count app => do return countsOf (← get).page app
  | .defer task => do
      if (← get).page.hasWindow then
        onPage (defer (.task task))
        return .ok
      else return .failed .noWindow
  | .call kind call => do
      match ← onPage (inArea kind (callArea kind call)).run with
      | .ok answer | .error answer => return answer
  | .subscribe id kind => subscribeNamed id kind
  | .unsubscribe id => do
      match Keyed.lookup? id (← get).subscriptions with
      | some listener =>
          onPage (unlisten listener)
          modify fun scene =>
            { scene with subscriptions := Keyed.erase id scene.subscriptions }
          return .ok
      | none => return .noSuch id
  | .rest => return .ok

def Scene.play (scene : Scene) (step : Step) : Answer × Scene :=
  (perform step).run { scene with page := { scene.page with trace := [] } }

end TabRelay.Bridge
