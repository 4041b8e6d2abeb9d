import TabRelay.Session.Step
import TabRelay.Snapshot
import TabRelay.Tracing
import TabRelay.WriteError

/-!
# The state of a session

A `System` holds all areas, handlers, logs, queues and script listeners of a
session, known by their numbers, and the names under which they can be reached.
A `Machine` is a system in the middle of a step: the stack of what waits for the
step in progress, and what was traced so far.
-/

namespace TabRelay.Session

open TabRelay.Decoding TabRelay.Storage

/-! ## Handles -/

structure Handle where
  area : Nat
  tab : Nat
  deriving DecidableEq, Repr

/-- Dropping it detaches its handler from the area. -/
structure Subscription where
  area : Nat
  id : Nat
  deriving DecidableEq, Repr

inductive Listener where
  | log (log : Nat)
  | none
  | script (script : Nat)
  deriving DecidableEq, Repr

structure Relay where
  handle : Handle
  queue : Nat
  listener : Listener
  deriving DecidableEq, Repr

/-! ## Scripts, handlers and tasks -/

/-- Steps under the name of who runs them, and how often they may still be run. -/
structure Script (V : Type) where
  name : String
  steps : List (Step V)
  left : Option Nat

namespace Script

variable {V : Type}

def next (script : Script V) : List (Step V) × Script V :=
  match script.left with
  | none => (script.steps, script)
  | some 0 => ([], script)
  | some (n + 1) => (script.steps, { script with left := some n })

end Script

inductive Reaction (V : Type) where
  /-- Run a script.  The owned subscriptions are dropped with the handler. -/
  | script (script : Script V) (own : List Subscription)
  | forward (relay : Relay)

structure Handler (V : Type) where
  reaction : Reaction V
  freed : Bool := false

inductive Task (V : Type) where
  | notice (listener : Listener) (change : Change V)
  | script (name : String) (steps : List (Step V))

/-! ## Systems -/

structure System (V : Type) where
  areas : List Area := []
  handlers : List (Handler V) := []
  logs : List (List (Change V)) := []
  queues : List (List (Task V)) := []
  scripts : List (Script V) := []
  storageNames : Keyed Handle := []
  subscriptionNames : Keyed Subscription := []
  logNames : Keyed Nat := []
  queueNames : Keyed Nat := []
  relayNames : Keyed Relay := []

/-! ## Answers and traces -/

inductive Answer (V : Type) where
  | ok
  | bool (value : Bool)
  | count (value : Nat)
  | text (value : Option String)
  | entries (entries : Keyed String)
  | snapshot (snapshot : Snapshot)
  | change (change : Option (Change V))
  | changes (changes : List (Change V))
  | optionalCount (value : Option Nat)
  | noSuch (name : String)
  | undecodable (error : DecodeError)
  | areaError (error : AreaError)
  | writeError (error : WriteError AreaError)
  deriving DecidableEq, Repr

inductive Entry (V : Type) where
  | heard (subscription : String) (event : Event)
  | told (listener : String) (change : Change V)
  | started (task : String)
  | nested (runner step : String) (answer : Answer V)
  | mark (mark : Mark)
  deriving DecidableEq, Repr

/-! ## Machines -/

inductive Cell where
  | area (area : Nat)
  | queue (queue : Nat)
  | log (log : Nat)
  deriving DecidableEq, Repr

inductive Frame (V : Type) where
  | script (runner : String) (left : List (Step V))
  | nested (runner step : String)
  | delivery (event : Event) (left : List Nat)
  | turn (handler : Nat)
  /-- The area is kept until here. -/
  | keep (area : Nat)
  /-- The cell is in use, so that nothing else can be done with it. -/
  | held (cell : Cell)
  /-- Handlers that are let go, each of which is freed if nothing refers to it. -/
  | release (left : List Nat)
  | drop (left : List Subscription)
  | writing (relay : Relay) (write : Write V) (stored : Option String)
  | forwarding
  | drain (queue : Nat) (started : Nat)

inductive Control (V : Type) where
  | run (step : Step V)
  | done (answer : Answer V)
  /-- A cell was needed while it was in use.  The machine stops here. -/
  | conflict (cell : Cell)

structure Machine (V : Type) where
  system : System V
  stack : List (Frame V)
  control : Control V
  /-- The latest entry is the first. -/
  trace : List (Entry V)

end TabRelay.Session
