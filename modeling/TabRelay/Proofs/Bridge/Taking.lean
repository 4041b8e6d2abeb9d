import TabRelay.Proofs.Bridge.Opening

/-!
# What taking a message does

A message asks for a write, or it is malformed.  A write that can be applied changes one
entry and sets one timer.  Otherwise there is one complaint on the console.
-/

namespace TabRelay.Bridge

open TabRelay.Storage TabRelay.Web

/-! ## What a message asks for -/

/-- The message asks for the write.  Items after the second do not matter. -/
inductive Asks : Value → Write Value → Prop where
  | removal {key : String} : Asks (.array [.string key]) (.remove key)
  | removalOf {key : String} {value : Value} {rest : List Value}
      (habsent : value = .undefined ∨ value = .null) :
      Asks (.array (.string key :: value :: rest)) (.remove key)
  | storing {key : String} {value : Value} {rest : List Value}
      (hundefined : value ≠ .undefined) (hnull : value ≠ .null) :
      Asks (.array (.string key :: value :: rest)) (.store key value)

theorem isNullish_iff (value : Value) :
    value.isNullish ↔ value = .undefined ∨ value = .null := by
  cases value <;> simp [Value.isNullish]

theorem parseWrite_pair (key : String) (value : Value) (rest : List Value) :
    parseWrite (.array (.string key :: value :: rest)) =
      .ok (if value.isNullish then .remove key else .store key value) := rfl

theorem parseWrite_ok_iff {message : Value} {w : Write Value} :
    parseWrite message = .ok w ↔ Asks message w := by
  constructor
  · intro h
    unfold parseWrite at h
    split at h
    case h_2 => contradiction
    rename_i key rest
    cases rest with
    | nil =>
        cases h
        exact .removal
    | cons value rest =>
        cases h
        split
        · rename_i hnullish
          exact .removalOf ((isNullish_iff value).mp hnullish)
        · rename_i hvalue
          rw [isNullish_iff, not_or] at hvalue
          exact .storing hvalue.1 hvalue.2
  · intro h
    cases h with
    | removal => rfl
    | removalOf habsent => rw [parseWrite_pair, if_pos ((isNullish_iff _).mpr habsent)]
    | storing hundefined hnull =>
        rw [parseWrite_pair, if_neg]
        rw [isNullish_iff, not_or]
        exact ⟨hundefined, hnull⟩

theorem name_of_malformed {message : Value} {e : BridgeError}
    (h : parseWrite message = .error e) : e.name = "PortError" := by
  unfold parseWrite at h
  split at h
  · split at h <;> contradiction
  · cases h
    rfl

/-! ## What is kept of a page -/

def Trace.sent? : Trace → Option (String × Value)
  | sent port message _ => some (port, message)
  | _ => none

def Trace.console? : Trace → Option (List Value)
  | console arguments => some arguments
  | _ => none

/-- The contents of a page, beside its wiring. -/
structure Ledger where
  entries : AreaKind → Option Entries
  timers : List Timer
  echoes : List (List Value)
  sent : List (String × Value)
  console : List (List Value)

namespace Ledger

/-- The entries of an area; an area that is not there has none. -/
def contents (ledger : Ledger) (kind : AreaKind) : Entries := (ledger.entries kind).getD []

def withEntries (ledger : Ledger) (kind : AreaKind) (entries : Entries) : Ledger :=
  { ledger with entries := fun other => if kind = other then some entries else ledger.entries other }

def withTimer (ledger : Ledger) (timer : Timer) : Ledger :=
  { ledger with timers := ledger.timers ++ [timer] }

def complaining (ledger : Ledger) (e : BridgeError) : Ledger :=
  { ledger with console := ledger.console ++ [[e.toValue]] }

theorem contents_withEntries (ledger : Ledger) (kind other : AreaKind) (entries : Entries) :
    (ledger.withEntries kind entries).contents other =
      if kind = other then entries else ledger.contents other := by
  unfold contents withEntries
  by_cases h : kind = other <;> simp [h]

end Ledger

namespace Page

def ledger (page : Page) : Ledger where
  entries := page.entries
  timers := page.timers
  echoes := page.apps.map (·.echo)
  sent := (page.trace.filterMap Trace.sent?).reverse
  console := (page.trace.filterMap Trace.console?).reverse

theorem ledger_setEntries (page : Page) (kind : AreaKind) (entries : Entries) :
    (page.setEntries kind entries).ledger = page.ledger.withEntries kind entries := by
  have hentries : (page.setEntries kind entries).entries =
      fun other => if kind = other then some entries else page.entries other := by
    funext other
    exact page.entries_setEntries kind other entries
  simp only [ledger, hentries]
  cases kind <;> rfl

def withTimer (page : Page) (timer : Timer) : Page :=
  { page with timers := page.timers ++ [timer] }

def complaining (page : Page) (e : BridgeError) : Page :=
  (page.recorded (.mark (.note .error "storage write failed" [("err", e.message)]))).recorded
    (.console [e.toValue])

theorem ledger_complaining (page : Page) (e : BridgeError) :
    (page.complaining e).ledger = page.ledger.complaining e := by
  have hconsole : (page.complaining e).ledger.console = page.ledger.console ++ [[e.toValue]] :=
    List.reverse_cons
  rw [Ledger.complaining, ← hconsole]
  rfl

end Page

/-! ## Applying a write -/

/-- The entries when the write is applied to them.  A value without a text is not stored. -/
def Entries.writing (w : Write Value) (entries : Entries) : Entries :=
  match w.value with
  | none => entries.remove w.key
  | some value =>
      match Storable.stored value with
      | .ok text => entries.set w.key text
      | .error _ => entries

def Page.accepts (page : Page) (w : Write Value) : Bool :=
  match w.value with
  | none => (page.thrownBy .removeItem).isNone
  | some value =>
      match Storable.stored value with
      | .ok _ => (page.thrownBy .setItem).isNone
      | .error _ => false

theorem stored_ok_iff {value : Value} {text : String} :
    Storable.stored value = .ok text ↔ value.stringify = .ok (some text) := by
  cases hresult : value.stringify with
  | error thrown => simp [Storable.stored, Value.stored, hresult]
  | ok text? => cases text? <;> simp [Storable.stored, Value.stored, hresult]

theorem run_storageSet (kind : AreaKind) (key text : String) (page : Page) :
    (storageSet kind key text).run.run page = match page.thrownBy .setItem with
      | none => (.ok (), (page.calling .setItem).setEntries kind
          ((page.ledger.contents kind).set key text))
      | some thrown => (.error thrown, page.calling .setItem) := by
  rw [storageSet, run_bind, run_attempt]
  cases page.thrownBy .setItem <;> rfl

theorem run_storageRemove (kind : AreaKind) (key : String) (page : Page) :
    (storageRemove kind key).run.run page = match page.thrownBy .removeItem with
      | none => (.ok (), (page.calling .removeItem).setEntries kind
          ((page.ledger.contents kind).remove key))
      | some thrown => (.error thrown, page.calling .removeItem) := by
  rw [storageRemove, run_bind, run_attempt]
  cases page.thrownBy .removeItem <;> rfl

theorem apply_cases (kind : AreaKind) (w : Write Value) (page : Page) :
    (page.accepts w ∧ ∃ next, (apply kind w).run.run page = (.ok (), next) ∧
      next.ledger = page.ledger.withEntries kind ((page.ledger.contents kind).writing w)) ∨
    (page.accepts w = false ∧ ∃ e next, (apply kind w).run.run page = (.error e, next) ∧
      next.ledger = page.ledger) := by
  obtain ⟨key, value⟩ := w
  cases value with
  | none =>
      simp only [apply, run_bind, run_adapt, run_storageRemove, run_lift, Page.accepts]
      cases page.thrownBy .removeItem with
      | none => exact .inl ⟨rfl, _, rfl, Page.ledger_setEntries ..⟩
      | some thrown => exact .inr ⟨rfl, _, _, rfl, rfl⟩
  | some value =>
      simp only [apply, Page.accepts, Entries.writing]
      cases Storable.stored value with
      | error source => exact .inr ⟨rfl, _, _, rfl, rfl⟩
      | ok text =>
          simp only [run_bind, run_adapt, run_storageSet, run_lift]
          cases page.thrownBy .setItem with
          | none => exact .inl ⟨rfl, _, rfl, Page.ledger_setEntries ..⟩
          | some thrown => exact .inr ⟨rfl, _, _, rfl, rfl⟩

/-! ## Taking a message -/

def Wiring.NeverThrows (w : Wiring) (call : PageCall) : Prop := ∀ n, w.thrownAt call n = none

theorem Wiring.NeverThrows.thrownBy {page : Page} {call : PageCall}
    (h : page.wiring.NeverThrows call) : page.thrownBy call = none := h _

theorem after_defer {page : Page} (h : page.wiring.NeverThrows .setTimeout) (timer : Timer) :
    (page.after (defer timer)).ledger = page.ledger.withTimer timer := by
  have hrun : (setTimeout timer).run.run page =
      (.ok (), ((page.calling .setTimeout).recorded .timeout).withTimer timer) := by
    rw [setTimeout, run_bind, run_attempt, h.thrownBy]
    rfl
  rw [defer, after_bind_of_run hrun]
  rfl

theorem run_writeThrough (relay : Relay) (w : Write Value) (page : Page) :
    (writeThrough relay w).run.run page =
      match (apply relay.kind w).run.run
        (page.recorded (.mark (.enterWrite w.key w.isRemoval))) with
      | (.ok (), next) => (.ok (),
          (next.after (defer (.notice relay.changePort (.committed w.key w.value)))).recorded
            (.mark .exitWrite))
      | (.error e, next) => (.error e, next.recorded (.mark .exitWrite)) := by
  have hmarked : (mark (.enterWrite w.key w.isRemoval)).run page =
      ((), page.recorded (.mark (.enterWrite w.key w.isRemoval))) := rfl
  rw [writeThrough, ExceptT.run_mk, run_bind_of_run hmarked]
  cases hrun : (apply relay.kind w).run.run
    (page.recorded (.mark (.enterWrite w.key w.isRemoval))) with
  | mk result next =>
      rw [run_bind_of_run hrun]
      cases result <;> rfl

theorem after_takeMessage (relay : Relay) (message : Value) (page : Page) :
    page.after (takeMessage relay message) = match parseWrite message with
      | .error e => page.complaining e
      | .ok w => match (writeThrough relay w).run.run page with
          | (.ok (), next) => next
          | (.error e, next) => next.complaining (.write e) := by
  cases hparsed : parseWrite message with
  | error e =>
      rw [takeMessage, hparsed]
      rfl
  | ok w =>
      have hrun := run_adapt (writeThrough relay w) BridgeError.write page
      rw [takeMessage, hparsed]
      change page.after (((writeThrough relay w).adapt BridgeError.write).run >>= _) =
        match (writeThrough relay w).run.run page with
        | (.ok (), next) => next
        | (.error e, next) => next.complaining (.write e)
      revert hrun
      obtain ⟨result, next⟩ := (writeThrough relay w).run.run page
      cases result with
      | ok _ => exact fun hrun => after_bind_of_run hrun _
      | error e => exact fun hrun => after_bind_of_run hrun _

theorem ledger_of_malformed {message : Value} {e : BridgeError}
    (hparsed : parseWrite message = .error e) (relay : Relay) (page : Page) :
    (page.after (takeMessage relay message)).ledger = page.ledger.complaining e := by
  rw [after_takeMessage, hparsed]
  exact page.ledger_complaining e

theorem ledger_of_accepted {page : Page} (h : page.wiring.NeverThrows .setTimeout)
    {message : Value} {w : Write Value} (hparsed : parseWrite message = .ok w)
    (haccepts : page.accepts w) (relay : Relay) :
    (page.after (takeMessage relay message)).ledger =
      (page.ledger.withEntries relay.kind
        ((page.ledger.contents relay.kind).writing w)).withTimer
          (.notice relay.changePort (.committed w.key w.value)) := by
  have hkept := keeps_apply relay.kind w (page.recorded (.mark (.enterWrite w.key w.isRemoval)))
  rw [after_takeMessage, hparsed]
  simp only [run_writeThrough]
  rcases apply_cases relay.kind w (page.recorded (.mark (.enterWrite w.key w.isRemoval))) with
    ⟨_, next, hrun, hnext⟩ | ⟨hrefused, _⟩
  · have hwiring : next.wiring = page.wiring :=
      (congrArg (fun pair => pair.2.wiring) hrun).symm.trans hkept
    have hnever : next.wiring.NeverThrows .setTimeout := hwiring ▸ h
    rw [hrun]
    change (next.after (defer _)).ledger = _
    rw [after_defer hnever, hnext]
    rfl
  · exact absurd (haccepts.symm.trans hrefused) (by decide)

theorem ledger_of_refused {page : Page} {message : Value} {w : Write Value}
    (hparsed : parseWrite message = .ok w) (hrefused : page.accepts w = false) (relay : Relay) :
    ∃ e, (page.after (takeMessage relay message)).ledger =
      page.ledger.complaining (.write e) := by
  rw [after_takeMessage, hparsed]
  simp only [run_writeThrough]
  rcases apply_cases relay.kind w (page.recorded (.mark (.enterWrite w.key w.isRemoval))) with
    ⟨haccepts, _⟩ | ⟨_, e, next, hrun, hnext⟩
  · exact absurd (hrefused.symm.trans haccepts) (by decide)
  · rw [hrun]
    refine ⟨e, ?_⟩
    change ((next.recorded _).complaining _).ledger = _
    rw [Page.ledger_complaining]
    change next.ledger.complaining _ = _
    rw [hnext]
    rfl

/-! ## The callback of a port -/

theorem after_callPortCallback (message : Value) (i : Nat) (page : Page) :
    page.after (callPortCallback message i) = match page.portCallbacks[i]? with
      | some ⟨relay, true⟩ => page.after (takeMessage relay message)
      | _ => page.recorded (.uncaught Value.closureError) := by
  rw [callPortCallback, after_get]
  rcases page.portCallbacks[i]? with _ | ⟨relay, _ | _⟩ <;> rfl

end TabRelay.Bridge
