import TabRelay.Session.Moves

/-!
# Relays, logs and queues

A write is encoded first and stored then; the notice of it is queued last, when
the area has answered.  An event of the relay's own area is told to its listener
at once.
-/

namespace TabRelay.Session

open TabRelay.Storage

variable {V : Type}

namespace Machine

/-! ## Telling a listener -/

def runScript (m : Machine V) (name : String) (steps : List (Step V)) : Machine V :=
  (m.push (.script name steps)).answer .ok

def recordChange (m : Machine V) (log : Nat) (change : Change V) : Machine V :=
  m.whenFree (.log log) <|
    let m := m.mark (.enterRecord change.key?)
    ((m.update (m.system.pushToLog log change)).mark .exitRecord).answer .ok

def tell (m : Machine V) (listener : Listener) (change : Change V) : Machine V :=
  match listener with
  | .log log => m.recordChange log change
  | .none => m.answer .ok
  | .script i =>
      match m.system.scripts[i]? with
      | none => m.answer .ok
      | some script =>
          let (steps, script) := script.next
          let m := m.record (.told script.name change)
          (m.update (m.system.setScript i script)).runScript script.name steps

/-! ## Relays -/

def write [Storable V] (m : Machine V) (relay : Relay) (write : Write V) : Machine V :=
  let m := (m.push (.keep relay.handle.area)).mark (.enterWrite write.key write.isRemoval)
  match write.value with
  | none => (m.push (.writing relay write none)).removeKey relay.handle write.key
  | some value =>
      match Storable.stored value with
      | .error source => (m.mark .exitWrite).answer (.writeError (.encode write.key source))
      | .ok text =>
          (m.push (.writing relay write (some text))).setText relay.handle write.key text

def finishWrite (m : Machine V) (relay : Relay) (write : Write V) (stored : Option String)
    (answer : Answer V) : Machine V :=
  match answer with
  | .areaError e => (m.mark .exitWrite).answer (.writeError (.storage write.key e))
  | _ =>
      let m := m.mark (match stored with
        | none => .removed
        | some text => .stored text)
      m.whenFree (.queue relay.queue) <|
        let notice := Task.notice relay.listener (.committed write.key write.value)
        ((m.update (m.system.defer relay.queue notice)).mark .exitWrite).answer .ok

def receive (m : Machine V) (relay : Relay) (event : Event) : Machine V :=
  m.whenFree (.area relay.handle.area) <|
    let kind := (m.system.area relay.handle.area).kind
    let m := m.mark (.enterReceive event.key)
    if event.area = some kind then
      (m.push .forwarding).tell relay.listener (.external event.key event.newText)
    else
      ((m.mark (.otherArea kind.name (AreaKind.shownOption event.area))).mark
        .exitReceive).answer (.bool false)

def snapshot (m : Machine V) (relay : Relay) : Machine V :=
  m.whenFree (.area relay.handle.area) <|
    let m := m.mark (.enterRead (m.system.area relay.handle.area).kind.name)
    match Snapshot.read (m.service relay.handle) with
    | .error e => (m.mark .exitRead).answer (.areaError e)
    | .ok entries =>
        ((m.mark (.readEntries entries.length)).mark .exitRead).answer (.snapshot entries)

def askRelay (m : Machine V) (relay : Relay) (question : RelayQuestion) : Machine V :=
  match question with
  | .kind => m.askArea relay.handle .kind
  | .get key => m.askArea relay.handle (.get key)
  | .logLength =>
      match relay.listener with
      | .log log =>
          m.whenFree (.log log) <| m.answer (.optionalCount (some (m.system.log log).length))
      | _ => m.answer (.optionalCount none)

/-! ## Logs and queues -/

def askLog (m : Machine V) (log : Nat) (question : LogQuestion) : Machine V :=
  m.whenFree (.log log) <|
    let changes := m.system.log log
    match question with
    | .changes => m.answer (.changes changes)
    | .length => m.answer (.count changes.length)
    | .isEmpty => m.answer (.bool changes.isEmpty)

def setLog (m : Machine V) (log : Nat) (changes : List (Change V)) (answer : Answer V) :
    Machine V :=
  m.whenFree (.log log) <| (m.update (m.system.setLog log changes)).answer answer

def nameLog (m : Machine V) (id : String) : Machine V :=
  let (system, log) := m.system.addLog
  (m.update { system with logNames := Keyed.insert id log system.logNames }).answer .ok

def nameQueue (m : Machine V) (id : String) : Machine V :=
  let (system, queue) := m.system.addQueue
  (m.update { system with queueNames := Keyed.insert id queue system.queueNames }).answer .ok

def askQueue (m : Machine V) (queue : Nat) (question : QueueQuestion) : Machine V :=
  m.whenFree (.queue queue) <|
    let tasks := m.system.queue queue
    match question with
    | .length => m.answer (.count tasks.length)
    | .isEmpty => m.answer (.bool tasks.isEmpty)
    | .shown =>
        m.answer (.text (some ("DeferQueue \x7b pending: " ++ toString tasks.length ++ " \x7d")))

def defer (m : Machine V) (queue : Nat) (task : Task V) : Machine V :=
  m.whenFree (.queue queue) <| (m.update (m.system.defer queue task)).answer .ok

def drain (m : Machine V) (queue started : Nat) : Machine V :=
  m.whenFree (.queue queue) <|
    match m.system.queue queue with
    | [] => m.answer (.count started)
    | task :: tasks =>
        let m := (m.update (m.system.setQueue queue tasks)).push (.drain queue (started + 1))
        match task with
        | .notice listener change => m.tell listener change
        | .script name steps => (m.record (.started name)).runScript name steps

end Machine

end TabRelay.Session
