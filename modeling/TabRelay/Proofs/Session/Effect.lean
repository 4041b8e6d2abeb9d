import TabRelay.Proofs.Session.Course
import TabRelay.Proofs.Storage.Operation

/-!
# What one step of the machine can do

`Effect m` lists everything that `m.advance` may be: the system afterwards, the
frames that are pushed onto `m.below`, the control and the warnings.  What a
session keeps is shown once for each of these effects.

Handlers and subscriptions are let go before anything else goes on, and a cell
is held only meanwhile.  `Orderly` says so of the stack, and in an orderly
machine no cell that is needed is in use.
-/

namespace TabRelay.Session

open TabRelay.Decoding TabRelay.Storage

variable {V : Type}

/-! ## Frames and entries -/

namespace Frame

def isFreeing : Frame V → Bool
  | .keep _ | .held _ | .release _ | .drop _ => true
  | _ => false

def isDisposing : Frame V → Bool
  | .held _ | .release _ | .drop _ => true
  | _ => false

def isSpent : Frame V → Bool
  | .script _ [] | .nested _ _ | .delivery _ [] => true
  | _ => false

def hasMore : Frame V → Bool
  | .release (_ :: _) | .drop (_ :: _) => true
  | _ => false

end Frame

def Entry.isWarning : Entry V → Bool
  | .mark (.note .warning _ _) => true
  | _ => false

/-! ## What a step asks of an area -/

structure Invocation where
  handle : Handle
  operation : Operation
  deriving DecidableEq, Repr

/-- What a relay asks of its area for a write, unless the value has no text. -/
def operationFor? [Storable V] (write : Write V) : Option Operation :=
  match write.value with
  | none => some (.remove write.key)
  | some value =>
      match Storable.stored value with
      | .error _ => none
      | .ok text => some (.set write.key text)

namespace Step

def newArea? : Step V → Option (String × Area)
  | .new id kind => some (id, { kind })
  | .newWithQuota id kind quota => some (id, { kind, quota := some quota })
  | .newWithEntries id kind entries => some (id, { kind, entries := Keyed.ofPairs entries })
  | _ => none

def relayWrite? : Step V → Option (String × Write V)
  | .write relay w => some (relay, w)
  | .writeRequest relay (.ok w) => some (relay, w)
  | _ => none

def isDirectNotice : Step V → Bool
  | .pushToLog .. | .notifyLog .. => true
  | _ => false

def editsLog : Step V → Bool
  | .popFromLog _ | .drainLog _ | .clearLog _ => true
  | _ => false

def makesScript : Step V → Bool
  | .relayToScript .. => true
  | _ => false

def makesRelay : Step V → Bool
  | .relayToLog .. | .relayToNone .. | .relayToScript .. => true
  | _ => false

def subscribing? (s : System V) : Step V → Option Handle
  | .subscribe storage _ _ _ _ => Keyed.lookup? storage s.storageNames
  | .listen relay _ => (Keyed.lookup? relay s.relayNames).map (·.handle)
  | _ => none

def asked? [Storable V] (s : System V) (step : Step V) : Option Invocation :=
  let ofStorage (storage : String) (operation : Operation) : Option Invocation :=
    (Keyed.lookup? storage s.storageNames).map (⟨·, operation⟩)
  match step with
  | .set storage key text => ofStorage storage (.set key text)
  | .remove storage key => ofStorage storage (.remove key)
  | .clear storage => ofStorage storage .clear
  | .askArea storage .length => ofStorage storage .length
  | .askArea storage (.keyAt index) => ofStorage storage (.keyAt index)
  | .askArea storage (.get key) => ofStorage storage (.get key)
  | .askRelay relay (.get key) =>
      (Keyed.lookup? relay s.relayNames).map fun relay => ⟨relay.handle, .get key⟩
  | .write relay w =>
      (Keyed.lookup? relay s.relayNames).bind fun relay =>
        (operationFor? w).map (⟨relay.handle, ·⟩)
  | .writeRequest relay (.ok w) =>
      (Keyed.lookup? relay s.relayNames).bind fun relay =>
        (operationFor? w).map (⟨relay.handle, ·⟩)
  | _ => none

/-- What a step is about: the handles on areas, what is in an area, and so on. -/
inductive Family where
  | storages
  | entries
  | subscriptions
  | logs
  | queues
  | relays
  | relayed
  deriving DecidableEq, Repr

def family : Step V → Family
  | .new .. | .newWithQuota .. | .newWithEntries .. | .openTab .. | .sameTab ..
  | .dropStorage _ | .setFaults .. => .storages
  | .askArea .. | .set .. | .remove .. | .clear _ | .dispatch .. => .entries
  | .subscribe .. | .dropSubscription _ | .showSubscription _ => .subscriptions
  | .newLog _ | .pushToLog .. | .notifyLog .. | .popFromLog _ | .drainLog _ | .clearLog _
  | .askLog .. => .logs
  | .newQueue _ | .defer .. | .runPending _ | .askQueue .. => .queues
  | .relayToLog .. | .relayToNone .. | .relayToScript .. | .sameRelay .. | .dropRelay _ =>
      .relays
  | .askRelay .. | .snapshot _ | .write .. | .writeRequest .. | .receive .. | .listen .. =>
      .relayed

end Step

namespace Machine

/-- The call to an area that the machine makes next. -/
def invocation? [Storable V] (m : Machine V) : Option Invocation :=
  match m.control with
  | .run step =>
      (step.asked? m.system).filter fun call =>
        !call.operation.isBarred (m.system.faultsOf call.handle)
  | _ => none

def subscribing? (m : Machine V) : Option Handle :=
  match m.control with
  | .run step =>
      (step.subscribing? m.system).filter fun h => .subscribe ∉ (m.system.faultsOf h).failing
  | _ => none

/-! ## Order on the stack -/

structure Orderly (m : Machine V) : Prop where
  freeing : m.stack.Pairwise fun above below => below.isDisposing → above.isFreeing
  running : ∀ step, m.control = .run step → ∀ frame ∈ m.stack, ¬ frame.isDisposing

def Unheld (m : Machine V) : Prop := ∀ cell, m.isHeld cell = false

def below (m : Machine V) : List (Frame V) :=
  match m.control with
  | .done _ => m.stack.tail
  | _ => m.stack

def beneath (m : Machine V) : Machine V := { m with stack := m.below }

theorem below_eq (m : Machine V) :
    m.below = m.stack ∨ ∃ b, m.control = .done b ∧ m.below = m.stack.tail := by
  unfold below
  split
  · rename_i b hdone
    exact .inr ⟨b, hdone, rfl⟩
  · exact .inl rfl

theorem below_suffix (m : Machine V) : m.below <:+ m.stack := by
  rcases m.below_eq with hbelow | ⟨b, -, hbelow⟩
  · exact hbelow ▸ List.suffix_rfl
  · exact hbelow ▸ List.tail_suffix _

theorem below_of_run {m : Machine V} {step : Step V} (h : m.control = .run step) :
    m.below = m.stack := by
  simp [below, h]

theorem below_of_done {m : Machine V} {b : Answer V} {top : Frame V} {rest : List (Frame V)}
    (hdone : m.control = .done b) (hstack : m.stack = top :: rest) : m.below = rest := by
  simp [below, hdone, hstack]

theorem beneath_of_done {m : Machine V} {b : Answer V} {top : Frame V} {rest : List (Frame V)}
    (hdone : m.control = .done b) (hstack : m.stack = top :: rest) :
    m.beneath = { m with stack := rest } := by
  rw [beneath, below_of_done hdone hstack]

def warnings (m : Machine V) : List (Entry V) := m.trace.filter (·.isWarning)

end Machine

/-! ## The effects of one step -/

def replied : Reply → Answer V
  | .done => .ok
  | .refused e => .areaError e
  | .count n => .count n
  | .text text => .text text

def deliveries (outcome : Outcome Area) (tab : Nat) : List (Frame V) :=
  outcome.raised.toList.map fun event => .delivery event (outcome.area.recipients (some tab))

inductive Tells (s : System V) (change : Change V) :
    Listener → System V → List (Frame V) → Prop where
  | toLog (log : Nat) : Tells s change (.log log) (s.pushToLog log change) []
  | toNone : Tells s change .none s []
  | toNoScript (i : Nat) : Tells s change (.script i) s []
  | toScript {i : Nat} {script : Script V} (hscript : s.scripts[i]? = some script) :
      Tells s change (.script i) (s.setScript i script.next.2)
        [.script script.name script.next.1]

inductive Receives (s : System V) (relay : Relay) (event : Event) :
    System V → List (Frame V) → Answer V → Prop where
  | forwards {s' : System V} {frames : List (Frame V)}
      (harea : event.area = some (s.area relay.handle.area).kind)
      (htells : Tells s (.external event.key event.newText) relay.listener s' frames) :
      Receives s relay event s' (frames ++ [.forwarding]) .ok
  | ignores (harea : event.area ≠ some (s.area relay.handle.area).kind) :
      Receives s relay event s [] (.bool false)

inductive Reacts (s : System V) (i : Nat) (event : Event) :
    System V → List (Frame V) → Answer V → Prop where
  | missing (hhandler : s.handlers[i]? = none) : Reacts s i event s [] .ok
  | script {handler : Handler V} {script : Script V} {own : List Subscription}
      (hhandler : s.handlers[i]? = some handler)
      (hreaction : handler.reaction = .script script own) :
      Reacts s i event (s.setHandler i { handler with reaction := .script script.next.2 own })
        [.script script.name script.next.1] .ok
  | forward {handler : Handler V} {relay : Relay} {s' : System V} {frames : List (Frame V)}
      {a : Answer V} (hhandler : s.handlers[i]? = some handler)
      (hreaction : handler.reaction = .forward relay)
      (hreceives : Receives s relay event s' frames a) : Reacts s i event s' frames a

inductive Drains (s : System V) (queue started : Nat) :
    System V → List (Frame V) → Answer V → Prop where
  | done (hqueue : s.queue queue = []) : Drains s queue started s [] (.count started)
  | notice {listener : Listener} {change : Change V} {tasks : List (Task V)} {s' : System V}
      {frames : List (Frame V)} (hqueue : s.queue queue = .notice listener change :: tasks)
      (htells : Tells (s.setQueue queue tasks) change listener s' frames) :
      Drains s queue started s' (frames ++ [.drain queue (started + 1)]) .ok
  | script {name : String} {steps : List (Step V)} {tasks : List (Task V)}
      (hqueue : s.queue queue = .script name steps :: tasks) :
      Drains s queue started (s.setQueue queue tasks)
        [.script name steps, .drain queue (started + 1)] .ok

def Reaction.owned : Reaction V → Frame V
  | .script _ own => .drop own
  | .forward relay => .keep relay.handle.area

namespace Machine

/-- The frames of a step that wait for the reply of an area. -/
inductive Awaits (m : Machine V) (step : Step V) (handle : Handle) : List (Frame V) → Prop where
  | reads (hdirect : step.relayWrite? = none) : Awaits m step handle []
  | direct (hdirect : step.relayWrite? = none) : Awaits m step handle [.keep handle.area]
  | relayed {id : String} {relay : Relay} {w : Write V} (stored : Option String)
      (hwrite : step.relayWrite? = some (id, w))
      (hname : Keyed.lookup? id m.system.relayNames = some relay)
      (hhandle : relay.handle = handle) :
      Awaits m step handle [.writing relay w stored, .keep relay.handle.area]

def dropsOldStorage (m : Machine V) (id : String) : List (Frame V) :=
  (Keyed.lookup? id m.system.storageNames).toList.map fun h => .keep h.area

def dropsOldRelay (m : Machine V) (id : String) : List (Frame V) :=
  (Keyed.lookup? id m.system.relayNames).toList.map fun relay => .keep relay.handle.area

def dropsOldSubscription (s : System V) (id : String) : List (Frame V) :=
  [.drop (Keyed.lookup? id s.subscriptionNames).toList]

def registered (s : System V) (h : Handle) (id : String) (reaction : Reaction V) : System V :=
  ((s.addHandler reaction).1.setArea h.area
    ((s.area h.area).subscribe h.tab s.handlers.length).1).nameSubscription id
      ⟨h.area, (s.area h.area).nextSubscriber⟩

/-- What a step begins: the system afterwards, the frames that are pushed and the
answer, which waits for those frames. -/
inductive Begins [Storable V] (m : Machine V) :
    Step V → System V → List (Frame V) → Answer V → Prop where
  | answers (step : Step V) (a : Answer V) : Begins m step m.system [] a
  | creates {step : Step V} {id : String} {area : Area}
      (hnew : step.newArea? = some (id, area)) :
      Begins m step ((m.system.addArea area).1.nameStorage id ⟨m.system.areas.length, 0⟩)
        (m.dropsOldStorage id) .ok
  | opensTab {id storage : String} {h : Handle}
      (hname : Keyed.lookup? storage m.system.storageNames = some h) :
      Begins m (.openTab id storage)
        ((m.system.setArea h.area (m.system.area h.area).openTab.1).nameStorage id
          ⟨h.area, (m.system.area h.area).openTab.2⟩)
        (m.dropsOldStorage id) .ok
  | namesTab {id storage : String} {h : Handle}
      (hname : Keyed.lookup? storage m.system.storageNames = some h) :
      Begins m (.sameTab id storage) (m.system.nameStorage id h) (m.dropsOldStorage id) .ok
  | dropsTab {id : String} {h : Handle}
      (hname : Keyed.lookup? id m.system.storageNames = some h) :
      Begins m (.dropStorage id)
        { m.system with storageNames := Keyed.erase id m.system.storageNames }
        [.keep h.area] .ok
  | operates {step : Step V} {call : Invocation} {waiting : List (Frame V)} {outcome : Outcome Area}
      (hcall : m.invocation? = some call) (hwaiting : m.Awaits step call.handle waiting)
      (houtcome : (m.system.area call.handle.area).perform call.operation = outcome) :
      Begins m step (m.system.setArea call.handle.area outcome.area)
        (deliveries outcome call.handle.tab ++ waiting) (replied outcome.reply)
  /-- A call that does not reach the area, because of the faults of the handle. -/
  | barred {step : Step V} {call : Invocation} {waiting : List (Frame V)} (e : AreaError)
      (hasked : step.asked? m.system = some call) (hwaiting : m.Awaits step call.handle waiting) :
      Begins m step m.system waiting (.areaError e)
  | dispatches {storage : String} {h : Handle} {event : Event}
      (hname : Keyed.lookup? storage m.system.storageNames = some h) :
      Begins m (.dispatch storage (.ok event)) m.system
        [.delivery event ((m.system.area h.area).recipients none), .keep h.area] .ok
  | setsFaults {storage : String} {h : Handle} {faults : Faults}
      (hname : Keyed.lookup? storage m.system.storageNames = some h) :
      Begins m (.setFaults storage faults)
        (m.system.setArea h.area ((m.system.area h.area).setFaults h.tab faults)) [] .ok
  | subscribes {storage id : String} {steps : List (Step V)} {times : Option Nat}
      {own : List String} {s : System V} {subs : List Subscription} {h : Handle}
      (hsubscribing : m.subscribing? = some h)
      (htake : m.system.takeSubscriptions own = (s, subs)) :
      Begins m (.subscribe storage id steps times own)
        (registered s h id (.script ⟨id, steps, times⟩ subs)) (dropsOldSubscription s id) .ok
  | failsToSubscribe {storage id : String} {steps : List (Step V)} {times : Option Nat}
      {own : List String} {s : System V} {subs : List Subscription}
      (htake : m.system.takeSubscriptions own = (s, subs)) (a : Answer V) :
      Begins m (.subscribe storage id steps times own) s [.drop subs] a
  | listens {name id : String} {relay : Relay}
      (hsubscribing : m.subscribing? = some relay.handle)
      (hname : Keyed.lookup? name m.system.relayNames = some relay) :
      Begins m (.listen name id) (registered m.system relay.handle id (.forward relay))
        (dropsOldSubscription m.system id) .ok
  | dropsSubscription {id : String} {sub : Subscription}
      (hname : Keyed.lookup? id m.system.subscriptionNames = some sub) :
      Begins m (.dropSubscription id)
        { m.system with subscriptionNames := Keyed.erase id m.system.subscriptionNames }
        [.drop [sub]] .ok
  | createsLog (id : String) :
      Begins m (.newLog id)
        { m.system.addLog.1 with logNames := Keyed.insert id m.system.addLog.2 m.system.logNames }
        [] .ok
  | shortensLog {step : Step V} {log : Nat} {changes : List (Change V)} (a : Answer V)
      (hedits : step.editsLog) (hshorter : changes <+: m.system.log log) :
      Begins m step (m.system.setLog log changes) [] a
  | extendsLog {step : Step V} {log : Nat} {change : Change V} (hdirect : step.isDirectNotice) :
      Begins m step (m.system.pushToLog log change) [] .ok
  | createsQueue (id : String) :
      Begins m (.newQueue id)
        { m.system.addQueue.1 with
          queueNames := Keyed.insert id m.system.addQueue.2 m.system.queueNames }
        [] .ok
  | defers {queue : Nat} {id name : String} {steps : List (Step V)} :
      Begins m (.defer id name steps) (m.system.defer queue (.script name steps)) [] .ok
  | startsDraining {name : String} {queue : Nat} {s : System V} {frames : List (Frame V)}
      {a : Answer V} (hdrains : Drains m.system queue 0 s frames a)
      (hname : Keyed.lookup? name m.system.queueNames = some queue) :
      Begins m (.runPending name) s frames a
  | namesRelay {step : Step V} {id : String} {relay : Relay} {scripts : List (Script V)}
      (hhandle : ∃ name, Keyed.lookup? name m.system.storageNames = some relay.handle)
      (hqueue : ∃ name, Keyed.lookup? name m.system.queueNames = some relay.queue)
      (hlog : ∀ log, relay.listener = .log log →
        ∃ name, Keyed.lookup? name m.system.logNames = some log)
      (hscripts : step.makesScript ∨ scripts = m.system.scripts) (hmakes : step.makesRelay) :
      Begins m step ({ m.system with scripts }.nameRelay id relay) (m.dropsOldRelay id) .ok
  | renamesRelay {name id : String} {relay : Relay}
      (hname : Keyed.lookup? name m.system.relayNames = some relay) :
      Begins m (.sameRelay id name) (m.system.nameRelay id relay) (m.dropsOldRelay id) .ok
  | dropsRelay {id : String} {relay : Relay}
      (hname : Keyed.lookup? id m.system.relayNames = some relay) :
      Begins m (.dropRelay id)
        { m.system with relayNames := Keyed.erase id m.system.relayNames }
        [.keep relay.handle.area] .ok
  | failsToEncode {step : Step V} {id : String} {relay : Relay} {w : Write V} (source : String)
      (hwrite : step.relayWrite? = some (id, w))
      (hname : Keyed.lookup? id m.system.relayNames = some relay) :
      Begins m step m.system [.keep relay.handle.area] (.writeError (.encode w.key source))
  | receives {name : String} {event : Event} {relay : Relay} {s : System V}
      {frames : List (Frame V)} {a : Answer V}
      (hname : Keyed.lookup? name m.system.relayNames = some relay)
      (hreceives : Receives m.system relay event s frames a) :
      Begins m (.receive name (.ok event)) s (frames ++ [.keep relay.handle.area]) a

/-- What the topmost frame does with an answer, unless it frees something. -/
inductive Continues (m : Machine V) :
    Frame V → Answer V → System V → List (Frame V) → Control V → List (Entry V) → Prop where
  | finishes {frame : Frame V} (b : Answer V) (hspent : frame.isSpent) :
      Continues m frame b m.system [] (.done .ok) []
  | forwarded (b : Answer V) : Continues m .forwarding b m.system [] (.done (.bool true)) []
  | runsStep (b : Answer V) (runner : String) (step : Step V) (left : List (Step V)) :
      Continues m (.script runner (step :: left)) b m.system
        [.nested runner step.name, .script runner left] (.run step) []
  | skips (b : Answer V) {event : Event} {i : Nat} {left : List Nat}
      (hrunning : m.isRunning i = true) :
      Continues m (.delivery event (i :: left)) b m.system [.delivery event left] (.done .ok)
        [.mark (.reentered event.key)]
  | calls (b : Answer V) {a : Answer V} {event : Event} {i : Nat} {left : List Nat}
      {s : System V} {frames : List (Frame V)} (hrunning : m.isRunning i = false)
      (hreacts : Reacts m.system i event s frames a) :
      Continues m (.delivery event (i :: left)) b s
        (frames ++ [.turn i, .delivery event left]) (.done a) []
  | endsTurn (b : Answer V) (i : Nat) :
      Continues m (.turn i) b m.system [.release [i]] (.done b) []
  | writeFails (e : AreaError) (relay : Relay) (w : Write V) (stored : Option String) :
      Continues m (.writing relay w stored) (.areaError e) m.system []
        (.done (.writeError (.storage w.key e))) []
  | writeEnds {b : Answer V} (relay : Relay) (w : Write V) (stored : Option String)
      (hb : ∀ e, b ≠ .areaError e) :
      Continues m (.writing relay w stored) b
        (m.system.defer relay.queue (.notice relay.listener (.committed w.key w.value))) []
        (.done .ok) []
  | drains (b : Answer V) {a : Answer V} {queue started : Nat} {s : System V}
      {frames : List (Frame V)} (hdrains : Drains m.system queue started s frames a) :
      Continues m (.drain queue started) b s frames (.done a) []

/-- What the topmost frame does if it frees something.  The answer is passed on. -/
inductive Frees (m : Machine V) : Frame V → System V → List (Frame V) → Prop where
  | pops {frame : Frame V} (hmore : ¬ frame.hasMore)
      (halive : ∀ i, frame.keeps i → m.beneath.isAlive i) : Frees m frame m.system []
  | reaps {frame : Frame V} {i : Nat} (hkeeps : frame.keeps i)
      (hdead : m.beneath.isAlive i = false) :
      Frees m frame (m.system.setArea i { m.system.area i with subscribers := [] })
        [.release ((m.system.area i).subscribers.map (·.handler))]
  | letsGo (i : Nat) (left : List Nat) :
      Frees m (.release (i :: left)) m.system [.release left]
  | frees {i : Nat} {left : List Nat} {handler : Handler V}
      (hreferred : m.beneath.isReferred i = false)
      (hhandler : m.system.handlers[i]? = some handler) :
      Frees m (.release (i :: left)) (m.system.setHandler i { handler with freed := true })
        [handler.reaction.owned, .release left]
  | leaves {sub : Subscription} {left : List Subscription}
      (hleaves : m.beneath.isAlive sub.area = false ∨ m.isHeld (.area sub.area) ∨
        (m.system.area sub.area).subscriber? sub.id = none) :
      Frees m (.drop (sub :: left)) m.system [.drop left]
  | detaches {sub : Subscription} {left : List Subscription} {subscriber : Subscriber}
      (halive : m.beneath.isAlive sub.area) (hheld : m.isHeld (.area sub.area) = false)
      (hfound : (m.system.area sub.area).subscriber? sub.id = some subscriber) :
      Frees m (.drop (sub :: left))
        (m.system.setArea sub.area ((m.system.area sub.area).unsubscribe sub.id))
        [.release [subscriber.handler], .held (.area sub.area), .drop left]

/-- What `m.advance` is: the system, the frames pushed onto `m.below`, the control
and the warnings given. -/
inductive Effect [Storable V] (m : Machine V) :
    System V → List (Frame V) → Control V → List (Entry V) → Prop where
  | rests (hrest : ∀ step, m.control ≠ .run step) (hbelow : m.below = m.stack) :
      Effect m m.system [] m.control []
  | begins {step : Step V} {s : System V} {pushed : List (Frame V)} {a : Answer V}
      (hrun : m.control = .run step) (hbegins : Begins m step s pushed a) :
      Effect m s pushed (.done a) []
  | continues {b : Answer V} {frame : Frame V} {rest : List (Frame V)} {s : System V}
      {pushed : List (Frame V)} {control : Control V} {warned : List (Entry V)}
      (hdone : m.control = .done b) (hstack : m.stack = frame :: rest)
      (hcontinues : Continues m frame b s pushed control warned) :
      Effect m s pushed control warned
  | frees {b : Answer V} {frame : Frame V} {rest : List (Frame V)} {s : System V}
      {pushed : List (Frame V)} (hdone : m.control = .done b) (hstack : m.stack = frame :: rest)
      (hfreeing : frame.isFreeing) (hfrees : Frees m frame s pushed) :
      Effect m s pushed m.control []

def Becomes [Storable V] (m m' : Machine V) : Prop :=
  ∃ pushed warned, Effect m m'.system pushed m'.control warned ∧
    m'.stack = pushed ++ m.below ∧ m'.warnings = warned ++ m.warnings

end Machine

end TabRelay.Session
