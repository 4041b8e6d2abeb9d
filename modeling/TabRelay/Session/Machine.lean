import TabRelay.Session.Relaying

/-!
# How a session runs

`Machine.advance` is one step of the machine.  It begins the step in control, or
hands an answer to the topmost frame.  Freeing is done frame by frame as well: an
area is held while a handler that was removed from it is freed.
-/

namespace TabRelay.Session

open TabRelay.Decoding TabRelay.Storage

variable {V : Type}

namespace Machine

/-! ## Beginning a step -/

def begin [Storable V] (m : Machine V) : Step V → Machine V
  | .new id kind => m.create id { kind }
  | .newWithQuota id kind quota => m.create id { kind, quota := some quota }
  | .newWithEntries id kind entries => m.create id { kind, entries := Keyed.ofPairs entries }
  | .openTab id storage => m.withStorage storage fun h => m.openTab id h
  | .sameTab id storage => m.withStorage storage fun h => m.nameStorage id h
  | .dropStorage id => m.dropStorage id
  | .askArea storage question => m.withStorage storage fun h => m.askArea h question
  | .set storage key text =>
      m.withStorage storage fun h => (m.push (.keep h.area)).setText h key text
  | .remove storage key =>
      m.withStorage storage fun h => (m.push (.keep h.area)).removeKey h key
  | .clear storage => m.withStorage storage fun h => (m.push (.keep h.area)).clearArea h
  | .dispatch storage event =>
      m.withStorage storage fun h =>
        m.withDecoded event fun event =>
          m.whenFree (.area h.area) <| (m.push (.keep h.area)).deliver h.area none event
  | .setFaults storage faults =>
      m.withStorage storage fun h =>
        (m.setArea h.area ((m.system.area h.area).setFaults h.tab faults)).answer .ok
  | .subscribe storage id steps times own => m.subscribe storage id ⟨id, steps, times⟩ own
  | .dropSubscription id => m.dropSubscription id
  | .showSubscription id =>
      m.withNamed m.system.subscriptionNames id fun sub =>
        m.answer (.text (some ("MemorySubscription \x7b id: " ++ toString sub.id ++ " \x7d")))
  | .newLog id => m.nameLog id
  | .pushToLog log change =>
      m.withDecoded change fun change =>
        m.withLog log fun log => m.setLog log (m.system.log log ++ [change]) .ok
  | .notifyLog log change =>
      m.withDecoded change fun change => m.withLog log fun log => m.recordChange log change
  | .popFromLog log =>
      m.withLog log fun log =>
        let changes := m.system.log log
        m.setLog log changes.dropLast (.change changes.getLast?)
  | .drainLog log => m.withLog log fun log => m.setLog log [] (.changes (m.system.log log))
  | .clearLog log => m.withLog log fun log => m.setLog log [] .ok
  | .askLog log question => m.withLog log fun log => m.askLog log question
  | .newQueue id => m.nameQueue id
  | .defer queue name steps => m.withQueue queue fun queue => m.defer queue (.script name steps)
  | .runPending queue => m.withQueue queue fun queue => m.drain queue 0
  | .askQueue queue question => m.withQueue queue fun queue => m.askQueue queue question
  | .relayToLog id storage queue log =>
      m.withLog log fun log => m.makeRelay id storage queue (.log log)
  | .relayToNone id storage queue => m.makeRelay id storage queue .none
  | .relayToScript id storage queue steps times =>
      m.makeScriptRelay id storage queue ⟨id, steps, some times⟩
  | .sameRelay id relay => m.withRelay relay fun relay => m.nameRelay id relay
  | .dropRelay id => m.dropRelay id
  | .askRelay relay question => m.withRelay relay fun relay => m.askRelay relay question
  | .snapshot relay => m.withRelay relay fun relay => m.snapshot relay
  | .write relay write => m.withRelay relay fun relay => m.write relay write
  | .writeRequest relay write =>
      m.withDecoded write fun write => m.withRelay relay fun relay => m.write relay write
  | .receive relay event =>
      m.withRelay relay fun relay =>
        m.withDecoded event fun event =>
          (m.push (.keep relay.handle.area)).receive relay event
  | .listen relay id => m.withRelay relay fun relay => m.listen relay id

/-! ## Running handlers, and freeing them -/

def react (m : Machine V) (i : Nat) (event : Event) : Machine V :=
  match m.system.handlers[i]? with
  | none => m.answer .ok
  | some handler =>
      match handler.reaction with
      | .forward relay => m.receive relay event
      | .script script own =>
          let (steps, script) := script.next
          let m := m.record (.heard script.name event)
          let system := m.system.setHandler i { handler with reaction := .script script own }
          (m.update system).runScript script.name steps

def visit (m : Machine V) (event : Event) (handler : Nat) (left : List Nat) : Machine V :=
  let waiting := m.push (.delivery event left)
  if m.isRunning handler then (waiting.mark (.reentered event.key)).answer .ok
  else (waiting.push (.turn handler)).react handler event

/-- When the last handle on an area is gone, its subscribers are let go. -/
def reap (m : Machine V) (i : Nat) : Machine V :=
  if m.isAlive i then m
  else
    let area := m.system.area i
    (m.setArea i { area with subscribers := [] }).push
      (.release (area.subscribers.map (·.handler)))

def free (m : Machine V) (i : Nat) : Machine V :=
  if m.isReferred i then m
  else
    match m.system.handlers[i]? with
    | none => m
    | some handler =>
        let m := m.update (m.system.setHandler i { handler with freed := true })
        match handler.reaction with
        | .script _ own => m.push (.drop own)
        | .forward relay => m.push (.keep relay.handle.area)

/-- Drop a subscription.  Nothing happens when the area is gone, and nothing when
it is in use: then the handler stays subscribed. -/
def detach (m : Machine V) (sub : Subscription) : Machine V :=
  if !m.isAlive sub.area || m.isHeld (.area sub.area) then m
  else
    let area := m.system.area sub.area
    match area.subscriber? sub.id with
    | none => m
    | some subscriber =>
        ((m.setArea sub.area (area.unsubscribe sub.id)).push (.held (.area sub.area))).push
          (.release [subscriber.handler])

/-! ## One step of the machine -/

/-- Hand an answer to the topmost frame.  The frames that free something pass it
on. -/
def resume [Storable V] (m : Machine V) (answer : Answer V) : Machine V :=
  match m.stack with
  | [] => m
  | frame :: stack =>
      let m := { m with stack }
      match frame with
      | .script _ [] => m.answer .ok
      | .script runner (step :: left) =>
          { (m.push (.script runner left)).push (.nested runner step.name) with
            control := .run step }
      | .nested runner step => (m.record (.nested runner step answer)).answer .ok
      | .delivery _ [] => m.answer .ok
      | .delivery event (handler :: left) => m.visit event handler left
      | .turn handler => m.push (.release [handler])
      | .keep area => m.reap area
      | .held (.area area) => m.reap area
      | .held _ => m
      | .release [] => m
      | .release (handler :: left) => (m.push (.release left)).free handler
      | .drop [] => m
      | .drop (sub :: left) => (m.push (.drop left)).detach sub
      | .writing relay write stored => m.finishWrite relay write stored answer
      | .forwarding => ((m.mark .forwarded).mark .exitReceive).answer (.bool true)
      | .drain queue started => m.drain queue started

def advance [Storable V] (m : Machine V) : Machine V :=
  match m.control with
  | .run step => m.begin step
  | .done answer => m.resume answer
  | .conflict _ => m

def isFinished (m : Machine V) : Bool :=
  match m.control with
  | .run _ => false
  | .done _ => m.stack.isEmpty
  | .conflict _ => true

def start (system : System V) (step : Step V) : Machine V := ⟨system, [], .run step, []⟩

def runFor [Storable V] : Nat → Machine V → Machine V
  | 0, m => m
  | fuel + 1, m => if m.isFinished then m else runFor fuel m.advance

def reserving? (m : Machine V) : Option Nat :=
  match m.control with
  | .run (.snapshot id) =>
      (Keyed.lookup? id m.system.relayNames).bind fun relay =>
        if m.isHeld (.area relay.handle.area) then none
        else (m.service relay.handle).length.toOption
  | _ => none

/-- In a memory without room for a snapshot the run ends there, without an answer. -/
def hasRoom [Storable V] (memory : Memory) : Nat → Machine V → Bool
  | 0, _ => true
  | fuel + 1, m =>
      m.isFinished || m.reserving?.all memory.holds && hasRoom memory fuel m.advance

def answer? (m : Machine V) : Option (Answer V) :=
  match m.stack, m.control with
  | [], .done answer => some answer
  | _, _ => none

end Machine

end TabRelay.Session
