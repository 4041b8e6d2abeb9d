import TabRelay.Session.System

/-!
# Moves of a machine

A move changes the system of a machine and leaves an answer.  Storage operations
change their area at once and leave a delivery on the stack, so that handlers
see the change and the answer waits for them.
-/

namespace TabRelay.Session

open TabRelay.Decoding TabRelay.Storage

variable {V : Type}

namespace Machine

/-! ## Small moves -/

def record (m : Machine V) (entry : Entry V) : Machine V := { m with trace := entry :: m.trace }

def mark (m : Machine V) (mark : Mark) : Machine V := m.record (.mark mark)

def push (m : Machine V) (frame : Frame V) : Machine V := { m with stack := frame :: m.stack }

def answer (m : Machine V) (answer : Answer V) : Machine V := { m with control := .done answer }

def update (m : Machine V) (system : System V) : Machine V := { m with system }

def setArea (m : Machine V) (i : Nat) (area : Area) : Machine V :=
  m.update (m.system.setArea i area)

/-! ## Looking things up -/

def whenFree (m : Machine V) (cell : Cell) (next : Machine V) : Machine V :=
  if m.isHeld cell then { m with control := .conflict cell } else next

def withNamed {α : Type} (m : Machine V) (names : Keyed α) (id : String)
    (next : α → Machine V) : Machine V :=
  match Keyed.lookup? id names with
  | none => m.answer (.noSuch id)
  | some a => next a

def withStorage (m : Machine V) (id : String) (next : Handle → Machine V) : Machine V :=
  m.withNamed m.system.storageNames id next

def withRelay (m : Machine V) (id : String) (next : Relay → Machine V) : Machine V :=
  m.withNamed m.system.relayNames id next

def withLog (m : Machine V) (id : String) (next : Nat → Machine V) : Machine V :=
  m.withNamed m.system.logNames id next

def withQueue (m : Machine V) (id : String) (next : Nat → Machine V) : Machine V :=
  m.withNamed m.system.queueNames id next

def withDecoded {α : Type} (m : Machine V) (decoded : Decoded α) (next : α → Machine V) :
    Machine V :=
  match decoded with
  | .error e => m.answer (.undecodable e)
  | .ok a => next a

def answerExcept {α : Type} (m : Machine V) (result : Except AreaError α) (f : α → Answer V) :
    Machine V :=
  match result with
  | .error e => m.answer (.areaError e)
  | .ok a => m.answer (f a)

/-! ## Reading an area -/

def service (m : Machine V) (h : Handle) : Service (Except AreaError) where
  length := do
    let faults := m.system.faultsOf h
    faults.check .length
    return faults.length.getD (m.system.area h.area).length
  key := fun index => do
    let faults := m.system.faultsOf h
    faults.check .key
    return if index ∈ faults.hiddenIndices then none else (m.system.area h.area).keyAt? index
  get := fun key => do
    let faults := m.system.faultsOf h
    faults.check .get
    return if key ∈ faults.hiddenKeys then none else (m.system.area h.area).get? key

def askArea (m : Machine V) (h : Handle) (question : AreaQuestion) : Machine V :=
  let area := m.system.area h.area
  let service := m.service h
  m.whenFree (.area h.area) <|
    match question with
    | .kind => m.answer (.text (some area.kind.name))
    | .length => m.answerExcept service.length .count
    | .isEmpty => m.answerExcept service.length fun n => .bool (n == 0)
    | .keyAt index => m.answerExcept (service.key index) .text
    | .get key => m.answerExcept (service.get key) .text
    | .subscriberCount => m.answer (.count area.subscribers.length)
    | .entries => m.answer (.entries area.entries)
    | .shown => m.answer (.text (some (area.shownFrom h.tab)))

/-! ## Changing an area -/

/-- Visit the handlers that an event is for; the list is fixed now. -/
def deliver (m : Machine V) (area : Nat) (writer : Option Nat) (event : Event) : Machine V :=
  (m.push (.delivery event ((m.system.area area).recipients writer))).answer .ok

def deliverRaised (m : Machine V) (h : Handle) : Option Event → Machine V
  | none => m.answer .ok
  | some event => m.deliver h.area (some h.tab) event

def setText (m : Machine V) (h : Handle) (key text : String) : Machine V :=
  match (m.system.faultsOf h).check .set with
  | .error e => m.answer (.areaError e)
  | .ok () =>
      m.whenFree (.area h.area) <|
        match (m.system.area h.area).set key text with
        | .error e => m.answer (.areaError e)
        | .ok (area, raised) => (m.setArea h.area area).deliverRaised h raised

def removeKey (m : Machine V) (h : Handle) (key : String) : Machine V :=
  match (m.system.faultsOf h).check .remove with
  | .error e => m.answer (.areaError e)
  | .ok () =>
      m.whenFree (.area h.area) <|
        let (area, raised) := (m.system.area h.area).remove key
        (m.setArea h.area area).deliverRaised h raised

def clearArea (m : Machine V) (h : Handle) : Machine V :=
  m.whenFree (.area h.area) <|
    let (area, raised) := (m.system.area h.area).clear
    (m.setArea h.area area).deliverRaised h raised

/-! ## Subscriptions -/

/-- Register a handler.  The subscription that had the name before is dropped. -/
def register (m : Machine V) (h : Handle) (id : String) (reaction : Reaction V) : Machine V :=
  m.whenFree (.area h.area) <|
    let old := Keyed.lookup? id m.system.subscriptionNames
    let (system, handler) := m.system.addHandler reaction
    let (area, number) := (system.area h.area).subscribe h.tab handler
    let system := (system.setArea h.area area).nameSubscription id ⟨h.area, number⟩
    ((m.update system).push (.drop old.toList)).answer .ok

def subscribe (m : Machine V) (storage id : String) (script : Script V) (own : List String) :
    Machine V :=
  let (system, own) := m.system.takeSubscriptions own
  let m := m.update system
  match Keyed.lookup? storage system.storageNames with
  | none => (m.push (.drop own)).answer (.noSuch storage)
  | some h =>
      match (system.faultsOf h).check .subscribe with
      | .error e => (m.push (.drop own)).answer (.areaError e)
      | .ok () => m.register h id (.script script own)

def listen (m : Machine V) (relay : Relay) (id : String) : Machine V :=
  match (m.system.faultsOf relay.handle).check .subscribe with
  | .error e => m.answer (.areaError e)
  | .ok () => m.register relay.handle id (.forward relay)

def dropSubscription (m : Machine V) (id : String) : Machine V :=
  m.withNamed m.system.subscriptionNames id fun sub =>
    let system :=
      { m.system with subscriptionNames := Keyed.erase id m.system.subscriptionNames }
    ((m.update system).push (.drop [sub])).answer .ok

/-! ## Storage and relay names -/

def nameStorage (m : Machine V) (id : String) (h : Handle) : Machine V :=
  let old := Keyed.lookup? id m.system.storageNames
  let m := m.update (m.system.nameStorage id h)
  match old with
  | none => m.answer .ok
  | some old => (m.push (.keep old.area)).answer .ok

def create (m : Machine V) (id : String) (area : Area) : Machine V :=
  let (system, h) := m.system.addArea area
  (m.update system).nameStorage id h

def openTab (m : Machine V) (id : String) (h : Handle) : Machine V :=
  m.whenFree (.area h.area) <|
    let (area, tab) := (m.system.area h.area).openTab
    (m.setArea h.area area).nameStorage id ⟨h.area, tab⟩

def dropStorage (m : Machine V) (id : String) : Machine V :=
  m.withStorage id fun h =>
    let system := { m.system with storageNames := Keyed.erase id m.system.storageNames }
    ((m.update system).push (.keep h.area)).answer .ok

def nameRelay (m : Machine V) (id : String) (relay : Relay) : Machine V :=
  let old := Keyed.lookup? id m.system.relayNames
  let m := m.update (m.system.nameRelay id relay)
  match old with
  | none => m.answer .ok
  | some old => (m.push (.keep old.handle.area)).answer .ok

def dropRelay (m : Machine V) (id : String) : Machine V :=
  m.withRelay id fun relay =>
    let system := { m.system with relayNames := Keyed.erase id m.system.relayNames }
    ((m.update system).push (.keep relay.handle.area)).answer .ok

def makeRelay (m : Machine V) (id storage queue : String) (listener : Listener) : Machine V :=
  m.withStorage storage fun handle =>
    m.withQueue queue fun queue => m.nameRelay id ⟨handle, queue, listener⟩

def makeScriptRelay (m : Machine V) (id storage queue : String) (script : Script V) :
    Machine V :=
  m.withStorage storage fun handle =>
    m.withQueue queue fun queue =>
      let (system, number) := m.system.addScript script
      (m.update system).nameRelay id ⟨handle, queue, .script number⟩

end Machine

end TabRelay.Session
