import TabRelay.Change
import TabRelay.Decoding.Refusal
import TabRelay.Storage.Area

/-!
# The steps of a session

A session works on five kinds of named things: handles of storage areas,
subscriptions, logs, queues and relays.  A `Step` makes, uses or drops one of
them.  Handlers, tasks and listeners are scripts, that is lists of further
steps.
-/

namespace TabRelay.Session

open TabRelay.Decoding TabRelay.Storage

inductive AreaQuestion where
  | kind
  | length
  | isEmpty
  | keyAt (index : Nat)
  | get (key : String)
  | subscriberCount
  | entries
  | shown
  deriving DecidableEq, Repr

inductive LogQuestion where
  | changes
  | length
  | isEmpty
  deriving DecidableEq, Repr

inductive QueueQuestion where
  | length
  | isEmpty
  | shown
  deriving DecidableEq, Repr

inductive RelayQuestion where
  | kind
  | get (key : String)
  | logLength
  deriving DecidableEq, Repr

inductive Step (V : Type) where
  | new (id : String) (kind : AreaKind)
  | newWithQuota (id : String) (kind : AreaKind) (quota : Nat)
  | newWithEntries (id : String) (kind : AreaKind) (entries : List (String × String))
  | openTab (id storage : String)
  | sameTab (id storage : String)
  | dropStorage (id : String)
  | askArea (storage : String) (question : AreaQuestion)
  | set (storage key text : String)
  | remove (storage key : String)
  | clear (storage : String)
  /-- Raise an event on every tab. -/
  | dispatch (storage : String) (event : Decoded Event)
  | setFaults (storage : String) (faults : Faults)
  /-- Run the steps at each event, a limited number of times if there is a limit.
  The handler takes the subscriptions it owns out of their name space. -/
  | subscribe (storage id : String) (steps : List (Step V)) (times : Option Nat)
      (own : List String)
  | dropSubscription (id : String)
  | showSubscription (id : String)
  | newLog (id : String)
  | pushToLog (log : String) (change : Decoded (Change V))
  | notifyLog (log : String) (change : Decoded (Change V))
  | popFromLog (log : String)
  | drainLog (log : String)
  | clearLog (log : String)
  | askLog (log : String) (question : LogQuestion)
  | newQueue (id : String)
  | defer (queue name : String) (steps : List (Step V))
  | runPending (queue : String)
  | askQueue (queue : String) (question : QueueQuestion)
  | relayToLog (id storage queue log : String)
  | relayToNone (id storage queue : String)
  | relayToScript (id storage queue : String) (steps : List (Step V)) (times : Nat)
  | sameRelay (id relay : String)
  | dropRelay (id : String)
  | askRelay (relay : String) (question : RelayQuestion)
  | snapshot (relay : String)
  | write (relay : String) (write : Write V)
  | writeRequest (relay : String) (write : Decoded (Write V))
  | receive (relay : String) (event : Decoded Event)
  | listen (relay id : String)

namespace Step

variable {V : Type}

def name : Step V → String
  | new .. => "new"
  | newWithQuota .. => "with_quota"
  | newWithEntries .. => "with_entries"
  | openTab .. => "open_tab"
  | sameTab .. => "dupe"
  | dropStorage .. => "drop_storage"
  | askArea _ .kind => "area"
  | askArea _ .length => "len"
  | askArea _ .isEmpty => "is_empty"
  | askArea _ (.keyAt _) => "key"
  | askArea _ (.get _) => "get"
  | askArea _ .subscriberCount => "subscriber_count"
  | askArea _ .entries => "dump"
  | askArea _ .shown => "debug_storage"
  | set .. => "set"
  | remove .. => "remove"
  | clear .. => "clear"
  | dispatch .. => "dispatch"
  | setFaults .. => "fault"
  | subscribe .. => "subscribe"
  | dropSubscription .. => "drop_sub"
  | showSubscription .. => "debug_sub"
  | newLog .. => "new_log"
  | pushToLog .. => "log_push"
  | notifyLog .. => "log_notify"
  | popFromLog .. => "log_pop"
  | drainLog .. => "log_drain"
  | clearLog .. => "log_clear"
  | askLog _ .changes => "log_changes"
  | askLog _ .length => "log_len"
  | askLog _ .isEmpty => "log_is_empty"
  | newQueue .. => "new_queue"
  | defer .. => "defer"
  | runPending .. => "run_pending"
  | askQueue _ .length => "queue_len"
  | askQueue _ .isEmpty => "queue_is_empty"
  | askQueue _ .shown => "debug_queue"
  | relayToLog .. => "relay"
  | relayToNone .. => "relay"
  | relayToScript .. => "relay"
  | sameRelay .. => "dupe_relay"
  | dropRelay .. => "drop_relay"
  | askRelay _ .kind => "relay_area"
  | askRelay _ (.get _) => "relay_get"
  | askRelay _ .logLength => "relay_log_len"
  | snapshot .. => "snapshot"
  | write .. => "write"
  | writeRequest .. => "write_request"
  | receive .. => "receive"
  | listen .. => "listen"

end Step

end TabRelay.Session
