import TabRelay.Bridge.Connection

/-!
# The wiring of a page

The callbacks that are subscribed to ports or listen on the window are the wiring of
a page.  Messages, events and timers go along these wires, and whatever an
application, a storage area or a timer does on the way leaves the wiring as it is.
-/

namespace TabRelay.Bridge

open TabRelay.Storage TabRelay.Web

variable {α β γ δ ε : Type}

/-! ## Running -/

namespace Page

def after (page : Page) (act : Act α) : Page := (act.run page).2

def result (page : Page) (act : Act α) : α := (act.run page).1

theorem after_bind (page : Page) (x : Act α) (f : α → Act β) :
    page.after (x >>= f) = (page.after x).after (f (page.result x)) := rfl

end Page

theorem run_bind_of_run {x : Act α} {page next : Page} {a : α} (h : x.run page = (a, next))
    (f : α → Act β) : (x >>= f).run page = (f a).run next := by
  rw [StateT.run_bind, h]
  rfl

theorem after_bind_of_run {x : Act α} {page next : Page} {a : α} (h : x.run page = (a, next))
    (f : α → Act β) : page.after (x >>= f) = next.after (f a) :=
  congrArg Prod.snd (run_bind_of_run h f)

theorem after_get (f : Page → Act α) (page : Page) :
    page.after (get >>= f) = page.after (f page) := rfl

theorem after_forM_append (act : α → Act Unit) (as bs : List α) (page : Page) :
    page.after ((as ++ bs).forM act) = (page.after (as.forM act)).after (bs.forM act) := by
  induction as generalizing page with
  | nil => rfl
  | cons a as ih => exact ih (page.after (act a))

theorem run_get (page : Page) :
    (get : ExceptT ε Act Page).run.run page = (.ok page, page) := rfl

theorem run_lift (x : Act α) (page : Page) :
    (liftM x : ExceptT ε Act α).run.run page = (.ok (page.result x), page.after x) := rfl

theorem run_except (x : Except ε α) (page : Page) :
    (liftM x : ExceptT ε Act α).run.run page = (x, page) := by
  cases x <;> rfl

theorem run_bind (x : ExceptT ε Act α) (f : α → ExceptT ε Act β) (page : Page) :
    (x >>= f).run.run page = match x.run.run page with
      | (.ok a, next) => (f a).run.run next
      | (.error e, next) => (.error e, next) := by
  change (ExceptT.bindCont f (x.run.run page).1).run (x.run.run page).2 = _
  obtain ⟨result, next⟩ := x.run.run page
  cases result <;> rfl

theorem run_tryCatch (x : ExceptT ε Act α) (handle : ε → ExceptT ε Act α) (page : Page) :
    (tryCatch x handle).run.run page = match x.run.run page with
      | (.ok a, next) => (.ok a, next)
      | (.error e, next) => (handle e).run.run next := by
  rw [ExceptT.run_tryCatch, StateT.run_bind]
  obtain ⟨result, next⟩ := x.run.run page
  cases result <;> rfl

theorem run_adapt (x : ExceptT ε Act α) (f : ε → δ) (page : Page) :
    (x.adapt f).run.run page = match x.run.run page with
      | (.ok a, next) => (.ok a, next)
      | (.error e, next) => (.error (f e), next) := by
  change ((x.run.run page).1.mapError f, (x.run.run page).2) = _
  obtain ⟨result, next⟩ := x.run.run page
  cases result <;> rfl

/-! ## What an act keeps -/

/-- Whatever is read off the page by `f` is as it was when the act is done. -/
def Keeps (f : Page → β) (act : Act α) : Prop := ∀ page : Page, f (page.after act) = f page

namespace Keeps

variable {f : Page → β}

theorem pure (a : α) : Keeps f (Pure.pure a : Act α) := fun _ => rfl

theorem get : Keeps f (MonadState.get : Act Page) := fun _ => rfl

theorem bind {x : Act α} {g : α → Act γ} (hx : Keeps f x) (hg : ∀ a, Keeps f (g a)) :
    Keeps f (x >>= g) := fun page => (hg _ _).trans (hx page)

theorem of_run {x : Act α} (h : Keeps f x) {page next : Page} {a : α}
    (hrun : x.run page = (a, next)) : f next = f page := by
  rw [← h page]
  exact congrArg (fun pair => f pair.2) hrun.symm

theorem forM {act : α → Act Unit} (h : ∀ a, Keeps f (act a)) (as : List α) :
    Keeps f (as.forM act) := by
  induction as with
  | nil => exact pure ()
  | cons a as ih => exact bind (h a) fun _ => ih

theorem run_pure (a : α) : Keeps f (Pure.pure a : ExceptT ε Act α).run := fun _ => rfl

theorem run_throw (e : ε) : Keeps f (throw e : ExceptT ε Act α).run := fun _ => rfl

theorem run_get : Keeps f (MonadState.get : ExceptT ε Act Page).run := fun _ => rfl

theorem run_lift {x : Act α} (hx : Keeps f x) : Keeps f (liftM x : ExceptT ε Act α).run := hx

theorem run_bind {x : ExceptT ε Act α} {g : α → ExceptT ε Act γ} (hx : Keeps f x.run)
    (hg : ∀ a, Keeps f (g a).run) : Keeps f (x >>= g).run := by
  rw [ExceptT.run_bind]
  refine bind hx fun result => ?_
  cases result with
  | ok a => exact hg a
  | error e => exact pure _

theorem run_adapt {x : ExceptT ε Act α} (h : Keeps f x.run) (g : ε → δ) :
    Keeps f (x.adapt g).run := h

end Keeps

/-! ## Calls on the page -/

def PageCall.wires : PageCall → Bool
  | addEventListener | removeEventListener | subscribe | unsubscribe => true
  | _ => false

namespace Page

def called (page : Page) (call : PageCall) : Nat := (page.scheduleOf call).made

def thrownBy (page : Page) (call : PageCall) : Option Value := (page.scheduleOf call).thrown

def calling (page : Page) (call : PageCall) : Page :=
  page.setSchedule call (page.scheduleOf call).next

def recorded (page : Page) (entry : Trace) : Page := { page with trace := entry :: page.trace }

theorem called_calling (page : Page) (call other : PageCall) :
    (page.calling call).called other =
      if call = other then page.called call + 1 else page.called other := by
  rw [called, calling, scheduleOf_setSchedule]
  split <;> rfl

theorem thrownAt_calling (page : Page) (call other : PageCall) :
    ((page.calling call).scheduleOf other).thrownAt = (page.scheduleOf other).thrownAt := by
  rw [calling, scheduleOf_setSchedule]
  split
  · rename_i h
    rw [← h]
    rfl
  · rfl

end Page

theorem run_attempt (call : PageCall) (page : Page) :
    (attempt call).run.run page = match page.thrownBy call with
      | none => (.ok (), page.calling call)
      | some thrown => (.error thrown, page.calling call) := by
  change (ExceptT.run (match page.thrownBy call with
    | none => pure ()
    | some thrown => throw thrown) : Act _).run (page.calling call) = _
  cases page.thrownBy call <;> rfl

theorem after_attempt (call : PageCall) (page : Page) :
    page.after (attempt call).run = page.calling call := by
  have hrun := run_attempt call page
  change ((attempt call).run.run page).2 = _
  rw [hrun]
  cases page.thrownBy call <;> rfl

theorem Keeps.of_calling {f : Page → β} {call : PageCall}
    (h : ∀ page, f (page.calling call) = f page) : Keeps f (attempt call).run := by
  intro page
  rw [after_attempt, h]

/-! ## The wiring -/

structure Wiring where
  subscribers : Nat → String → List Nat
  listeners : List Nat
  portCallbacks : List PortCallback
  windowCallbacks : List WindowCallback
  called : PageCall → Nat
  thrownAt : PageCall → Nat → Option Value

namespace Page

def wiring (page : Page) : Wiring where
  subscribers := page.subscribersOf
  listeners := page.listeners
  portCallbacks := page.portCallbacks
  windowCallbacks := page.windowCallbacks
  called call := if call.wires then page.called call else 0
  thrownAt call := (page.scheduleOf call).thrownAt

@[simp] theorem wiring_recorded (page : Page) (entry : Trace) :
    (page.recorded entry).wiring = page.wiring := rfl

theorem wiring_calling (page : Page) {call : PageCall} (hcall : call.wires = false) :
    (page.calling call).wiring = page.wiring := by
  have hcalled : ∀ other : PageCall, other.wires → (page.calling call).called other =
      page.called other := by
    intro other hother
    rw [called_calling, if_neg]
    rintro rfl
    rw [hcall] at hother
    contradiction
  simp only [wiring, thrownAt_calling]
  congr 1
  funext other
  split
  · rename_i hother
    exact hcalled other hother
  · rfl

theorem subscribersOf_modifyApp (page : Page) (i : Nat) (f : App → App)
    (hf : ∀ app, (f app).subscribers = app.subscribers) :
    (page.modifyApp i f).subscribersOf = page.subscribersOf := by
  funext app port
  simp only [subscribersOf, modifyApp, List.getElem?_modify]
  cases page.apps[app]? with
  | none => rfl
  | some a => by_cases hi : i = app <;> simp [hi, hf]

theorem wiring_modifyApp (page : Page) (i : Nat) (f : App → App)
    (hf : ∀ app, (f app).subscribers = app.subscribers) :
    (page.modifyApp i f).wiring = page.wiring := by
  simp only [wiring, subscribersOf_modifyApp page i f hf]
  rfl

end Page

theorem keeps_attempt {call : PageCall} (hcall : call.wires = false) :
    Keeps Page.wiring (attempt call).run :=
  .of_calling fun page => page.wiring_calling hcall

theorem keeps_record (entry : Trace) : Keeps Page.wiring (record entry) := fun _ => rfl

theorem keeps_mark (m : Mark) : Keeps Page.wiring (mark m) := fun _ => rfl

theorem keeps_console (arguments : List Value) : Keeps Page.wiring (console arguments) :=
  fun _ => rfl

/-! ## Storage -/

theorem Keeps.hasArea {f : Page → β} {kind : AreaKind}
    (hf : Keeps f (attempt (getterOf kind)).run) : Keeps f (hasArea kind).run :=
  .run_bind hf fun _ => .run_bind .run_get fun _ => .run_pure _

theorem keeps_getter (kind : AreaKind) : Keeps Page.wiring (attempt (getterOf kind)).run := by
  refine keeps_attempt ?_
  cases kind <;> rfl

section

variable {f : Page → β} (hcall : ∀ {call : PageCall}, call.wires = false → Keeps f (attempt call).run)
include hcall

theorem Keeps.storageLength (kind : AreaKind) : Keeps f (storageLength kind).run :=
  .run_bind (hcall rfl) fun _ => .run_bind (.run_lift fun _ => rfl) fun _ => .run_pure _

theorem Keeps.storageKey (kind : AreaKind) (index : Nat) : Keeps f (storageKey kind index).run :=
  .run_bind (hcall rfl) fun _ => .run_bind (.run_lift fun _ => rfl) fun _ => .run_pure _

theorem Keeps.storageGet (kind : AreaKind) (key : String) : Keeps f (storageGet kind key).run :=
  .run_bind (hcall rfl) fun _ => .run_bind (.run_lift fun _ => rfl) fun _ => .run_pure _

theorem Keeps.collect (kind : AreaKind) (index count : Nat) (entries : Snapshot) :
    Keeps f (Snapshot.collect (areaService kind) index count entries).run := by
  induction count generalizing index entries with
  | zero => exact .run_pure _
  | succ count ih =>
      refine .run_bind (.storageKey hcall kind index) fun found => ?_
      cases found with
      | none => exact ih (index + 1) entries
      | some key =>
          refine .run_bind (.storageGet hcall kind key) fun text => ?_
          cases text with
          | none => exact ih (index + 1) entries
          | some text => exact ih (index + 1) (Keyed.insert key text entries)

theorem Keeps.readSnapshot (hmark : ∀ m, Keeps f (mark m)) (kind : AreaKind) :
    Keeps f (readSnapshot kind).run := by
  have hread : Keeps f (Snapshot.read (areaService kind)).run :=
    .run_bind (.storageLength hcall kind) fun count => .collect hcall kind 0 count []
  refine .bind (hmark _) fun _ => .bind hread fun result => ?_
  cases result with
  | ok s => exact .bind (hmark _) fun _ => .bind (hmark _) fun _ => .pure _
  | error e => exact .bind (hmark _) fun _ => .pure _

end

theorem keeps_readSnapshot (kind : AreaKind) : Keeps Page.wiring (readSnapshot kind).run :=
  .readSnapshot keeps_attempt keeps_mark kind

/-! ## Messages of an application -/

/-- What is read off the page is nothing that a message of an application changes: such a
message changes entries, sets timers and makes calls, but does not send. -/
structure ApartFromWrites (f : Page → β) : Prop where
  attempt : ∀ {call : PageCall}, call.wires = false → call ≠ .send → Keeps f (attempt call).run
  record : ∀ {entry : Trace}, (∀ port message same, entry ≠ .sent port message same) →
    Keeps f (record entry)
  setEntries : ∀ page kind entries, f (Page.setEntries page kind entries) = f page
  timers : ∀ (page : Page) timers, f { page with timers } = f page
  emitted : ∀ (page : Page) emitted, f { page with emitted } = f page
  echo : ∀ page i rest, f (Page.modifyApp page i fun a => { a with echo := rest }) = f page

namespace ApartFromWrites

variable {f : Page → β} (h : ApartFromWrites f)
include h

theorem mark (m : Mark) : Keeps f (mark m) := h.record nofun

theorem console (arguments : List Value) : Keeps f (console arguments) := h.record nofun

theorem storageSet (kind : AreaKind) (key text : String) :
    Keeps f (storageSet kind key text).run :=
  .run_bind (h.attempt rfl nofun) fun _ page => h.setEntries page kind _

theorem storageRemove (kind : AreaKind) (key : String) : Keeps f (storageRemove kind key).run :=
  .run_bind (h.attempt rfl nofun) fun _ page => h.setEntries page kind _

theorem defer (timer : Timer) : Keeps f (defer timer) := by
  have hset : Keeps f (setTimeout timer).run :=
    .run_bind (h.attempt rfl nofun) fun _ => .run_bind (.run_lift (h.record nofun))
      fun _ page => h.timers page _
  refine .bind hset fun result => ?_
  cases result with
  | ok _ => exact .pure ()
  | error thrown => exact .bind (h.mark _) fun _ => h.console _

theorem apply (kind : AreaKind) (w : Write Value) : Keeps f (apply kind w).run := by
  unfold Bridge.apply
  split
  · exact .run_bind (.run_adapt (h.storageRemove kind w.key) _) fun _ => .run_lift (h.mark _)
  · split
    · exact .run_throw _
    · exact .run_bind (.run_adapt (h.storageSet kind w.key _) _) fun _ => .run_lift (h.mark _)

theorem writeThrough (relay : Relay) (w : Write Value) : Keeps f (writeThrough relay w).run := by
  refine .bind (h.mark _) fun _ => .bind (h.apply relay.kind w) fun result => ?_
  cases result with
  | ok _ => exact .bind (h.defer _) fun _ => .bind (h.mark _) fun _ => .pure _
  | error e => exact .bind (h.mark _) fun _ => .pure _

theorem takeMessage (relay : Relay) (message : Value) : Keeps f (takeMessage relay message) := by
  refine .bind (.run_bind (.pure _) fun w => .run_adapt (h.writeThrough relay w) _)
    fun result => ?_
  cases result with
  | ok _ => exact .pure ()
  | error e => exact .bind (h.mark _) fun _ => h.console _

theorem callPortCallback (message : Value) (i : Nat) : Keeps f (callPortCallback message i) := by
  refine .bind .get fun page => ?_
  split
  · exact h.takeMessage _ message
  · exact h.record nofun

theorem emit (app : Nat) (port : String) (message : Value) : Keeps f (emit app port message) :=
  fun page => (Keeps.forM (h.callPortCallback message) (page.subscribersOf app port) _).trans
    (h.emitted page _)

end ApartFromWrites

theorem after_echo (app : Nat) (page : Page) :
    page.after (echo app) = match page.apps[app]?.map (·.echo) with
      | some (message :: rest) =>
          (page.modifyApp app fun a => { a with echo := rest }).after
            (emit app "storeCache" message)
      | _ => page := by
  rw [echo, after_get]
  cases page.apps[app]? with
  | none => rfl
  | some a =>
      obtain ⟨name, ports, messages, subscribers⟩ := a
      cases messages <;> rfl

theorem ApartFromWrites.keeps_echo {f : Page → β} (h : ApartFromWrites f) (app : Nat) :
    Keeps f (Bridge.echo app) := by
  intro page
  rw [after_echo]
  split
  · exact (h.emit _ _ _ _).trans (h.echo page app _)
  · rfl

theorem wiring_apart_from_writes : ApartFromWrites Page.wiring where
  attempt hcall _ := keeps_attempt hcall
  record _ := keeps_record _
  setEntries page kind _ := by cases kind <;> rfl
  timers _ _ := rfl
  emitted _ _ := rfl
  echo page i _ := page.wiring_modifyApp i _ fun _ => rfl

theorem keeps_apply (kind : AreaKind) (w : Write Value) : Keeps Page.wiring (apply kind w).run :=
  wiring_apart_from_writes.apply kind w

theorem keeps_callPortCallback (message : Value) (i : Nat) :
    Keeps Page.wiring (callPortCallback message i) :=
  wiring_apart_from_writes.callPortCallback message i

theorem keeps_emit (app : Nat) (port : String) (message : Value) :
    Keeps Page.wiring (emit app port message) :=
  wiring_apart_from_writes.emit app port message

/-! ## Traffic -/

theorem keeps_sendToPort (port : Port) (message : Value) :
    Keeps Page.wiring (sendToPort port message).run := by
  unfold sendToPort callPort
  split
  · exact .run_throw _
  · split
    · exact .run_bind (keeps_attempt rfl) fun _ => .run_bind .run_get fun _ =>
        .run_bind (.run_lift (keeps_record _)) fun _ =>
          .run_lift (wiring_apart_from_writes.keeps_echo _)
    · exact .run_pure ()
  · exact .run_throw _

theorem keeps_notify (port : Port) (change : Change Value) :
    Keeps Page.wiring (notify port change) := by
  refine .bind (keeps_sendToPort port _) fun result => ?_
  cases result with
  | ok _ => exact .pure ()
  | error thrown => exact .bind (keeps_mark _) fun _ => keeps_console _

theorem Keeps.areaOf {f : Page → β} (hf : ∀ kind, Keeps f (attempt (getterOf kind)).run)
    (source : EventSource) : Keeps f (areaOf source) := by
  have hasked (kind : AreaKind) : Keeps f (isArea source kind) := by
    refine .bind (.hasArea (hf kind)) fun result => ?_
    split <;> exact .pure _
  unfold Bridge.areaOf
  split
  · exact .pure _
  · refine .bind (hasked _) fun isLocal => ?_
    split
    · exact .pure _
    · refine .bind (hasked _) fun isSession => ?_
      split <;> exact .pure _

theorem keeps_receive (relay : Relay) (event : Event) : Keeps Page.wiring (receive relay event) := by
  refine .bind (keeps_mark _) fun _ => ?_
  split
  · exact .bind (keeps_notify _ _) fun _ => .bind (keeps_mark _) fun _ => keeps_mark _
  · exact .bind (keeps_mark _) fun _ => keeps_mark _

theorem keeps_callWindowCallback (e : WindowEvent) (i : Nat) :
    Keeps Page.wiring (callWindowCallback e i) := by
  refine .bind .get fun page => ?_
  split
  · refine .bind (.areaOf keeps_getter e.source) fun area => ?_
    split
    · exact keeps_receive _ _
    · exact keeps_record _
  · exact keeps_record _

theorem keeps_raise (e : WindowEvent) : Keeps Page.wiring (raise e) :=
  .bind .get fun page => .forM (keeps_callWindowCallback e) page.listeners

theorem keeps_fire (timer : Timer) : Keeps Page.wiring (fire timer) := by
  cases timer with
  | notice port change => exact keeps_notify port change
  | task name => exact keeps_record _

theorem after_fireTimers_one (page : Page) :
    page.after (fireTimers 1) = match page.timers with
      | [] => page
      | timer :: rest => { page with timers := rest }.after (fire timer) := by
  rw [fireTimers, after_get]
  cases page.timers <;> rfl

theorem keeps_fireTimers_one : Keeps Page.wiring (fireTimers 1) := by
  intro page
  rw [after_fireTimers_one]
  split
  · rfl
  · exact keeps_fire _ _

end TabRelay.Bridge
