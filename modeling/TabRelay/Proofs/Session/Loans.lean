import TabRelay.Proofs.Session.Effect

/-!
# What a session borrows

An area, a queue or a log is borrowed while something is done with it: by several at a
time if they only read it, by one alone if it is changed.  `Machine.touches` lists what an
advance of the machine borrows and gives back, and when it calls a handler, a task or a
listener, in the order in which this is done.  Almost every loan is given back at once.
Only a subscription that is dropped keeps its area borrowed while its handler is freed,
and that loan is a frame on the stack.
-/

namespace TabRelay.Session

open TabRelay.Decoding TabRelay.Storage

variable {V : Type}

/-! ## Loans -/

inductive Access where
  | shared
  | exclusive
  deriving DecidableEq, Repr

structure Loan where
  cell : Cell
  access : Access
  deriving DecidableEq, Repr

def Loan.conflicts (loan other : Loan) : Bool :=
  loan.cell = other.cell && (loan.access = .exclusive || other.access = .exclusive)

inductive Touch where
  | borrow (loan : Loan)
  | giveBack (loan : Loan)
  /-- To borrow the cell was tried, and given up because it is borrowed. -/
  | refused (cell : Cell)
  | call
  deriving DecidableEq, Repr

section Replay

variable {lent : List Loan}

/-- The loans afterwards, while some are lent for as long as it takes.  There are none if the
touch cannot go well: when a borrow conflicts with a loan, or something is called while
anything else is borrowed. -/
def Touch.apply (lent loans : List Loan) : Touch → Option (List Loan)
  | borrow loan => if loans.any loan.conflicts then none else some (loan :: loans)
  | giveBack loan => if loan ∈ loans then some (loans.erase loan) else none
  | refused cell => if loans.any fun loan => loan.cell = cell then some loans else none
  | call => if loans = lent then some loans else none

def replay (lent loans : List Loan) (touches : List Touch) : Option (List Loan) :=
  touches.foldlM (Touch.apply lent) loans

@[simp] theorem replay_nil (loans : List Loan) : replay lent loans [] = some loans := rfl

@[simp] theorem replay_cons (loans : List Loan) (touch : Touch) (touches : List Touch) :
    replay lent loans (touch :: touches) =
      (touch.apply lent loans).bind (replay lent · touches) := rfl

theorem replay_append (loans : List Loan) (before after : List Touch) :
    replay lent loans (before ++ after) =
      (replay lent loans before).bind (replay lent · after) :=
  List.foldlM_append

theorem apply_of_replay {loans last : List Loan} {before after : List Touch} {touch : Touch}
    (h : replay lent loans (before ++ touch :: after) = some last) :
    ∃ reached next, replay lent loans before = some reached ∧
      touch.apply lent reached = some next := by
  rw [replay_append, Option.bind_eq_some_iff] at h
  obtain ⟨reached, hreached, hrest⟩ := h
  rw [replay_cons, Option.bind_eq_some_iff] at hrest
  obtain ⟨next, hnext, -⟩ := hrest
  exact ⟨reached, next, hreached, hnext⟩

theorem no_conflict_of_apply {loans next : List Loan} {loan : Loan}
    (h : (Touch.borrow loan).apply lent loans = some next) :
    ∀ other ∈ loans, loan.conflicts other = false := by
  simp only [Touch.apply, Option.ite_none_left_eq_some] at h
  intro other hother
  by_contra hconflict
  apply h.1
  exact List.any_eq_true.mpr ⟨other, hother, by simpa using hconflict⟩

theorem only_lent_of_apply {loans next : List Loan}
    (h : Touch.call.apply lent loans = some next) : loans = lent := by
  simp only [Touch.apply, Option.ite_none_right_eq_some] at h
  exact h.1

end Replay

def briefly (cell : Cell) (access : Access) : List Touch :=
  [.borrow ⟨cell, access⟩, .giveBack ⟨cell, access⟩]

theorem replay_briefly {lent loans : List Loan} {cell : Cell}
    (h : ∀ loan ∈ loans, loan.cell ≠ cell) (access : Access) :
    replay lent loans (briefly cell access) = some loans := by
  have hfree : loans.any (Loan.conflicts ⟨cell, access⟩) = false := by
    apply List.any_eq_false.mpr
    intro loan hloan
    simp [Loan.conflicts, Ne.symm (h loan hloan)]
  simp [briefly, Touch.apply, hfree]

/-- What is borrowed is given back before anything else is borrowed or called. -/
inductive Settled : List Touch → Prop where
  | nil : Settled []
  | borrowed (cell : Cell) (access : Access) {rest : List Touch} (h : Settled rest) :
      Settled (briefly cell access ++ rest)
  | called {rest : List Touch} (h : Settled rest) : Settled (.call :: rest)

namespace Settled

theorem briefly (cell : Cell) (access : Access) : Settled (briefly cell access) :=
  borrowed cell access nil

theorem append {before after : List Touch} (h : Settled before) (h' : Settled after) :
    Settled (before ++ after) := by
  induction h with
  | nil => exact h'
  | borrowed cell access h ih =>
      rw [List.append_assoc]
      exact ih.borrowed cell access
  | called h ih => exact ih.called

theorem replay_eq {touches : List Touch} {loans : List Loan} (h : Settled touches)
    (hother : ∀ loan, .borrow loan ∈ touches → ∀ other ∈ loans, loan.cell ≠ other.cell) :
    replay loans loans touches = some loans := by
  induction h with
  | nil => rfl
  | borrowed cell access h ih =>
      rw [replay_append, replay_briefly, Option.bind_some]
      · exact ih fun loan hloan => hother loan (List.mem_append_right _ hloan)
      · have hborrow : .borrow ⟨cell, access⟩ ∈ Session.briefly cell access := List.mem_cons_self
        exact fun other hmem => Ne.symm (hother _ (List.mem_append_left _ hborrow) other hmem)
  | called h ih =>
      have hrest := ih fun loan hloan => hother loan (List.mem_cons_of_mem _ hloan)
      simpa [Touch.apply] using hrest

theorem not_refused {touches : List Touch} (h : Settled touches) (cell : Cell) :
    .refused cell ∉ touches := by
  induction h with
  | nil => simp
  | borrowed cell access h ih => simpa [Session.briefly] using ih
  | called h ih => simpa using ih

end Settled

/-! ## What the machine holds -/

def Frame.loan? : Frame V → Option Loan
  | held cell => some ⟨cell, .exclusive⟩
  | _ => none

namespace Machine

def loans (m : Machine V) : List Loan := m.stack.filterMap Frame.loan?

theorem mem_loans {m : Machine V} {loan : Loan} (h : loan ∈ m.loans) :
    m.isHeld loan.cell ∧ loan.access = .exclusive := by
  obtain ⟨frame, hframe, hloan⟩ := List.mem_filterMap.mp h
  cases frame with
  | held cell =>
      cases hloan
      exact ⟨List.any_eq_true.mpr ⟨_, hframe, by simp⟩, rfl⟩
  | _ => contradiction

theorem mem_loans_of_isHeld {m : Machine V} {cell : Cell} (h : m.isHeld cell) :
    ⟨cell, .exclusive⟩ ∈ m.loans := by
  obtain ⟨frame, hframe, hcell⟩ := List.any_eq_true.mp h
  apply List.mem_filterMap.mpr
  refine ⟨frame, hframe, ?_⟩
  cases frame with
  | held held =>
      simp only [decide_eq_true_eq] at hcell
      rw [hcell]
      rfl
  | _ => contradiction

/-! ## What each function touches -/

/-- The loan for a change is given back before the handlers of the event are looked up. -/
def changing (m : Machine V) (h : Handle) (operation : Operation) : List Touch :=
  if operation.isBarred (m.system.faultsOf h) then []
  else
    briefly (.area h.area) .exclusive ++
      match ((m.system.area h.area).perform operation).raised with
      | none => []
      | some _ => briefly (.area h.area) .shared

def telling : Listener → List Touch
  | .log log => briefly (.log log) .exclusive
  | .none => []
  | .script _ => [.call]

def receiving (m : Machine V) (relay : Relay) (event : Event) : List Touch :=
  briefly (.area relay.handle.area) .shared ++
    if event.area = some (m.system.area relay.handle.area).kind then telling relay.listener
    else []

/-- The task is off the queue, and the queue is given back, before the task is called. -/
def draining (m : Machine V) (queue : Nat) : List Touch :=
  briefly (.queue queue) .exclusive ++
    match m.system.queue queue with
    | [] => []
    | .notice listener _ :: _ => .call :: telling listener
    | .script _ _ :: _ => [.call]

def writing [Storable V] (m : Machine V) (relay : Relay) (w : Write V) : List Touch :=
  match operationFor? w with
  | none => []
  | some operation => m.changing relay.handle operation

def reacting (m : Machine V) (event : Event) (i : Nat) : List Touch :=
  match m.system.handlers[i]? with
  | none => []
  | some handler =>
      .call :: match handler.reaction with
        | .script _ _ => []
        | .forward relay => m.receiving relay event

def visiting (m : Machine V) (event : Event) (i : Nat) : List Touch :=
  if m.isRunning i then [] else m.reacting event i

def detaching (m : Machine V) (sub : Subscription) : List Touch :=
  if !m.isAlive sub.area then []
  else if m.isHeld (.area sub.area) then [.refused (.area sub.area)]
  else
    match (m.system.area sub.area).subscriber? sub.id with
    | none => briefly (.area sub.area) .exclusive
    | some _ => [.borrow ⟨.area sub.area, .exclusive⟩]

def naming {α : Type} (names : Keyed α) (id : String) (touches : α → List Touch) : List Touch :=
  match Keyed.lookup? id names with
  | none => []
  | some a => touches a

/-- What a step touches when it begins.  Reads of one cell that follow each other are told
as one. -/
def beginning [Storable V] (m : Machine V) : Step V → List Touch
  | .newWithQuota .. | .newWithEntries .. => briefly (.area m.system.areas.length) .exclusive
  | .openTab _ storage =>
      naming m.system.storageNames storage fun h => briefly (.area h.area) .exclusive
  | .askArea storage _ =>
      naming m.system.storageNames storage fun h => briefly (.area h.area) .shared
  | .set storage key text =>
      naming m.system.storageNames storage fun h => m.changing h (.set key text)
  | .remove storage key =>
      naming m.system.storageNames storage fun h => m.changing h (.remove key)
  | .clear storage => naming m.system.storageNames storage fun h => m.changing h .clear
  | .dispatch storage (.ok _) =>
      naming m.system.storageNames storage fun h => briefly (.area h.area) .shared
  | .subscribe .. | .listen .. =>
      match m.subscribing? with
      | none => []
      | some h => briefly (.area h.area) .exclusive
  | .pushToLog log (.ok _) | .notifyLog log (.ok _) | .popFromLog log | .drainLog log
  | .clearLog log => naming m.system.logNames log fun log => briefly (.log log) .exclusive
  | .askLog log _ => naming m.system.logNames log fun log => briefly (.log log) .shared
  | .defer queue _ _ =>
      naming m.system.queueNames queue fun queue => briefly (.queue queue) .exclusive
  | .runPending queue => naming m.system.queueNames queue m.draining
  | .askQueue queue _ =>
      naming m.system.queueNames queue fun queue => briefly (.queue queue) .shared
  | .askRelay relay .logLength =>
      naming m.system.relayNames relay fun relay =>
        match relay.listener with
        | .log log => briefly (.log log) .shared
        | _ => []
  | .askRelay relay _ | .snapshot relay =>
      naming m.system.relayNames relay fun relay => briefly (.area relay.handle.area) .shared
  | .write relay w | .writeRequest relay (.ok w) =>
      naming m.system.relayNames relay fun relay => m.writing relay w
  | .receive relay (.ok event) =>
      naming m.system.relayNames relay fun relay => m.receiving relay event
  | _ => []

def touches [Storable V] (m : Machine V) : List Touch :=
  match m.control, m.stack with
  | .run step, _ => m.beginning step
  | .done _, .delivery event (i :: _) :: _ => m.beneath.visiting event i
  | .done _, .held cell :: _ => [.giveBack ⟨cell, .exclusive⟩]
  | .done _, .drop (sub :: _) :: _ => m.beneath.detaching sub
  | .done (.areaError _), .writing .. :: _ => []
  | .done _, .writing relay _ _ :: _ => briefly (.queue relay.queue) .exclusive
  | .done _, .drain queue _ :: _ => m.draining queue
  | _, _ => []

/-! ## What meets a loan -/

section Meets

variable (m : Machine V)

/-- Something that is held would be borrowed. -/
def Meets (touches : List Touch) : Prop := ∃ loan, .borrow loan ∈ touches ∧ m.isHeld loan.cell

@[simp] theorem meets_nil : ¬m.Meets [] := by
  rintro ⟨loan, hloan, -⟩
  contradiction

@[simp] theorem meets_append (touches more : List Touch) :
    m.Meets (touches ++ more) ↔ m.Meets touches ∨ m.Meets more := by
  simp [Meets, or_and_right, exists_or]

@[simp] theorem meets_call (touches : List Touch) :
    m.Meets (.call :: touches) ↔ m.Meets touches := by
  simp [Meets]

@[simp] theorem meets_briefly (cell : Cell) (access : Access) :
    m.Meets (briefly cell access) ↔ m.isHeld cell := by
  simp [Meets, briefly]

theorem meets_of_isHeld {m' : Machine V} (h : ∀ cell, m'.isHeld cell = m.isHeld cell)
    (touches : List Touch) : m'.Meets touches ↔ m.Meets touches := by
  simp [Meets, h]

theorem Unheld.not_meets {m : Machine V} (h : m.Unheld) (touches : List Touch) :
    ¬m.Meets touches := by
  rintro ⟨loan, -, hheld⟩
  rw [h] at hheld
  contradiction

@[simp] theorem isHeld_mark (mark : Mark) (cell : Cell) :
    (m.mark mark).isHeld cell = m.isHeld cell := rfl

@[simp] theorem isHeld_update (s : System V) (cell : Cell) :
    (m.update s).isHeld cell = m.isHeld cell := rfl

theorem isHeld_push {frame : Frame V} (h : frame.loan? = none) (cell : Cell) :
    (m.push frame).isHeld cell = m.isHeld cell := by
  cases frame with
  | held held => contradiction
  | _ => rfl

theorem meets_changing (h : Handle) (operation : Operation) :
    m.Meets (m.changing h operation) ↔
      operation.isBarred (m.system.faultsOf h) = false ∧ m.isHeld (.area h.area) := by
  unfold changing
  cases operation.isBarred (m.system.faultsOf h) with
  | true => simp
  | false => cases ((m.system.area h.area).perform operation).raised <;> simp

theorem meets_changing_push {frame : Frame V} (hframe : frame.loan? = none)
    (h : Handle) (operation : Operation) :
    (m.push frame).Meets ((m.push frame).changing h operation) ↔
      m.Meets (m.changing h operation) := by
  rw [meets_changing, meets_changing, isHeld_push m hframe]
  rfl

end Meets

theorem isHeld_of_stack {m : Machine V} {frame : Frame V} {rest : List (Frame V)}
    (hstack : m.stack = frame :: rest) (hframe : frame.loan? = none) (cell : Cell) :
    isHeld { m with stack := rest } cell = m.isHeld cell := by
  rw [← isHeld_push _ hframe cell]
  unfold isHeld
  rw [hstack]
  rfl

theorem not_meets_detaching (m : Machine V) (sub : Subscription) : ¬m.Meets (m.detaching sub) := by
  unfold detaching
  cases m.isAlive sub.area with
  | false => simp
  | true =>
      cases hheld : m.isHeld (.area sub.area) with
      | true => simp [Meets]
      | false =>
          cases (m.system.area sub.area).subscriber? sub.id with
          | none => simp [hheld]
          | some subscriber => simp [Meets, hheld]

/-! ## What is borrowed for a moment -/

theorem settled_changing (m : Machine V) (h : Handle) (operation : Operation) :
    Settled (m.changing h operation) := by
  unfold changing
  split
  · exact Settled.nil
  · apply (Settled.briefly _ _).append
    split
    · exact Settled.nil
    · exact Settled.briefly _ _

theorem settled_telling (listener : Listener) : Settled (telling listener) := by
  cases listener with
  | log log => exact Settled.briefly _ _
  | none => exact Settled.nil
  | script i => exact Settled.nil.called

theorem settled_receiving (m : Machine V) (relay : Relay) (event : Event) :
    Settled (m.receiving relay event) := by
  apply (Settled.briefly _ _).append
  split
  · exact settled_telling _
  · exact Settled.nil

theorem settled_draining (m : Machine V) (queue : Nat) : Settled (m.draining queue) := by
  apply (Settled.briefly _ _).append
  split
  · exact Settled.nil
  · exact (settled_telling _).called
  · exact Settled.nil.called

theorem settled_visiting (m : Machine V) (event : Event) (i : Nat) :
    Settled (m.visiting event i) := by
  unfold visiting reacting
  split
  · exact Settled.nil
  · split
    · exact Settled.nil
    · apply Settled.called
      split
      · exact Settled.nil
      · exact settled_receiving m _ event

theorem settled_naming {α : Type} (names : Keyed α) (id : String) {touches : α → List Touch}
    (h : ∀ a, Settled (touches a)) : Settled (naming names id touches) := by
  unfold naming
  split
  · exact Settled.nil
  · exact h _

theorem settled_subscribing (m : Machine V) :
    Settled (match m.subscribing? with
      | none => []
      | some h => briefly (.area h.area) .exclusive) := by
  split
  · exact Settled.nil
  · exact Settled.briefly _ _

variable [Storable V]

theorem settled_writing (m : Machine V) (relay : Relay) (w : Write V) :
    Settled (m.writing relay w) := by
  unfold writing
  split
  · exact Settled.nil
  · exact m.settled_changing _ _

theorem settled_beginning (m : Machine V) (step : Step V) : Settled (m.beginning step) := by
  cases step with
  | set storage key text => exact settled_naming _ _ fun h => m.settled_changing h _
  | remove storage key => exact settled_naming _ _ fun h => m.settled_changing h _
  | clear storage => exact settled_naming _ _ fun h => m.settled_changing h _
  | subscribe storage id steps times own =>
      rw [beginning]
      exact m.settled_subscribing
  | listen relay id =>
      rw [beginning]
      exact m.settled_subscribing
  | runPending queue => exact settled_naming _ _ m.settled_draining
  | write relay w => exact settled_naming _ _ fun relay => m.settled_writing relay w
  | writeRequest relay w =>
      cases w with
      | error e => exact Settled.nil
      | ok w => exact settled_naming _ _ fun relay => m.settled_writing relay w
  | receive relay event =>
      cases event with
      | error e => exact Settled.nil
      | ok event => exact settled_naming _ _ fun relay => m.settled_receiving relay event
  | askRelay relay question =>
      cases question with
      | logLength =>
          apply settled_naming
          intro relay
          split
          · exact Settled.briefly _ _
          · exact Settled.nil
      | _ => exact settled_naming _ _ fun _ => Settled.briefly _ _
  | dispatch storage event =>
      cases event with
      | error e => exact Settled.nil
      | ok event => exact settled_naming _ _ fun _ => Settled.briefly _ _
  | pushToLog log change =>
      cases change with
      | error e => exact Settled.nil
      | ok change => exact settled_naming _ _ fun _ => Settled.briefly _ _
  | notifyLog log change =>
      cases change with
      | error e => exact Settled.nil
      | ok change => exact settled_naming _ _ fun _ => Settled.briefly _ _
  | _ =>
      first
        | exact Settled.nil
        | exact Settled.briefly _ _
        | exact settled_naming _ _ fun _ => Settled.briefly _ _

theorem settled_touches {m : Machine V} {answer : Answer V} {frame : Frame V}
    {rest : List (Frame V)} (hdone : m.control = .done answer) (hstack : m.stack = frame :: rest)
    (hframe : ¬frame.isFreeing) : Settled m.touches := by
  unfold touches
  rw [hdone, hstack]
  cases frame with
  | delivery event left =>
      cases left with
      | nil => exact Settled.nil
      | cons i left => exact settled_visiting _ event i
  | writing relay w stored =>
      cases answer with
      | areaError e => exact Settled.nil
      | _ => exact Settled.briefly _ _
  | drain queue started => exact settled_draining m queue
  | keep i => exact absurd rfl hframe
  | held cell => exact absurd rfl hframe
  | release left => exact absurd rfl hframe
  | drop left => exact absurd rfl hframe
  | _ => exact Settled.nil

theorem not_meets_of_isFreeing {m : Machine V} {answer : Answer V} {frame : Frame V}
    {rest : List (Frame V)} (hdone : m.control = .done answer) (hstack : m.stack = frame :: rest)
    (hfreeing : frame.isFreeing) : ¬m.Meets m.touches := by
  cases frame with
  | keep i => simp [touches, hdone, hstack]
  | held cell => simp [touches, hdone, hstack, Meets]
  | release left => simp [touches, hdone, hstack]
  | drop left =>
      cases left with
      | nil => simp [touches, hdone, hstack]
      | cons sub left =>
          have htouches : m.touches = m.beneath.detaching sub := by simp [touches, hdone, hstack]
          have hkept := meets_of_isHeld m (isHeld_of_stack hstack rfl) (m.beneath.detaching sub)
          rw [← beneath_of_done hdone hstack] at hkept
          rw [htouches, ← hkept]
          exact not_meets_detaching _ sub
  | _ => contradiction

end Machine

end TabRelay.Session
