import TabRelay.Session.State

/-!
# Operations on a system

Each operation changes one part of the system.  Whether an area is alive and
whether a handler is referred to is not recorded but looked up: an area lives as
long as there is a handle on it, a handler as long as a subscriber or an
unfinished delivery names it.
-/

namespace TabRelay.Session

open TabRelay.Storage

variable {V : Type}

namespace System

/-! ## Areas -/

def area (s : System V) (i : Nat) : Area := s.areas.getD i default

def setArea (s : System V) (i : Nat) (area : Area) : System V :=
  { s with areas := s.areas.set i area }

def addArea (s : System V) (area : Area) : System V × Handle :=
  ({ s with areas := s.areas ++ [area] }, ⟨s.areas.length, 0⟩)

def faultsOf (s : System V) (h : Handle) : Faults := (s.area h.area).faultsOf h.tab

/-! ## Handlers and scripts -/

def addHandler (s : System V) (reaction : Reaction V) : System V × Nat :=
  ({ s with handlers := s.handlers ++ [{ reaction }] }, s.handlers.length)

def setHandler (s : System V) (i : Nat) (handler : Handler V) : System V :=
  { s with handlers := s.handlers.set i handler }

def addScript (s : System V) (script : Script V) : System V × Nat :=
  ({ s with scripts := s.scripts ++ [script] }, s.scripts.length)

def setScript (s : System V) (i : Nat) (script : Script V) : System V :=
  { s with scripts := s.scripts.set i script }

/-! ## Logs and queues -/

def addLog (s : System V) : System V × Nat :=
  ({ s with logs := s.logs ++ [[]] }, s.logs.length)

def log (s : System V) (i : Nat) : List (Change V) := s.logs.getD i []

def setLog (s : System V) (i : Nat) (changes : List (Change V)) : System V :=
  { s with logs := s.logs.set i changes }

def pushToLog (s : System V) (i : Nat) (change : Change V) : System V :=
  s.setLog i (s.log i ++ [change])

def addQueue (s : System V) : System V × Nat :=
  ({ s with queues := s.queues ++ [[]] }, s.queues.length)

def queue (s : System V) (i : Nat) : List (Task V) := s.queues.getD i []

def setQueue (s : System V) (i : Nat) (tasks : List (Task V)) : System V :=
  { s with queues := s.queues.set i tasks }

def defer (s : System V) (i : Nat) (task : Task V) : System V :=
  s.setQueue i (s.queue i ++ [task])

/-! ## Names -/

def nameStorage (s : System V) (id : String) (h : Handle) : System V :=
  { s with storageNames := Keyed.insert id h s.storageNames }

def nameSubscription (s : System V) (id : String) (sub : Subscription) : System V :=
  { s with subscriptionNames := Keyed.insert id sub s.subscriptionNames }

def nameRelay (s : System V) (id : String) (relay : Relay) : System V :=
  { s with relayNames := Keyed.insert id relay s.relayNames }

/-- Take subscriptions out of their name space, in order; unknown names are
passed over. -/
def takeSubscriptions (s : System V) : List String → System V × List Subscription
  | [] => (s, [])
  | id :: ids =>
      match Keyed.lookup? id s.subscriptionNames with
      | none => s.takeSubscriptions ids
      | some sub =>
          let (s, subs) := takeSubscriptions
            { s with subscriptionNames := Keyed.erase id s.subscriptionNames } ids
          (s, sub :: subs)

end System

/-! ## What refers to areas and handlers -/

def Reaction.keeps (area : Nat) : Reaction V → Bool
  | .script _ _ => false
  | .forward relay => relay.handle.area = area

def Handler.keeps (area : Nat) (handler : Handler V) : Bool :=
  !handler.freed && handler.reaction.keeps area

def Frame.keeps (area : Nat) : Frame V → Bool
  | .keep i => i = area
  | .held cell => cell = .area area
  | _ => false

def Frame.refersTo (handler : Nat) : Frame V → Bool
  | .delivery _ left => handler ∈ left
  | .turn i => i = handler
  | _ => false

namespace Machine

def isAlive (m : Machine V) (area : Nat) : Bool :=
  m.system.storageNames.any (fun (_, h) => h.area = area) ||
    m.system.relayNames.any (fun (_, relay) => relay.handle.area = area) ||
    m.system.handlers.any (·.keeps area) || m.stack.any (·.keeps area)

def isReferred (m : Machine V) (handler : Nat) : Bool :=
  m.system.areas.any (fun area => area.subscribers.any fun sub => sub.handler = handler) ||
    m.stack.any (·.refersTo handler)

def isRunning (m : Machine V) (handler : Nat) : Bool :=
  m.stack.any fun frame => match frame with
    | .turn i => i = handler
    | _ => false

def isHeld (m : Machine V) (cell : Cell) : Bool :=
  m.stack.any fun frame => match frame with
    | .held c => c = cell
    | _ => false

end Machine

end TabRelay.Session
