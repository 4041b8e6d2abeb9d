import TabRelay.Bridge.Scene
import TabRelay.Proofs.Bridge.Opening

/-!
# Giving a connection back

The first stop or drop of a connection asks the window and the store port to let go
of its two callbacks, frees both, and leaves nothing that a later stop could ask for.
It does so even when the window or the port refuses.
-/

namespace TabRelay.Bridge

open TabRelay.Storage TabRelay.Web

variable {α : Type}

/-! ## Changes of the wiring -/

namespace Wiring

/-- What the port answers to the wish to unsubscribe, if it refuses. -/
def refusal (w : Wiring) (port : Port) : Option Value :=
  match port.value.property "unsubscribe" with
  | .error thrown => some thrown
  | .ok .function => if port.value.isPort then w.thrownBy .unsubscribe else none
  | .ok _ => some Value.typeError

def unsubscribed (w : Wiring) (port : Port) (callback : Nat) : Wiring :=
  { w with
    subscribers := fun app name => (w.subscribers app name).filter fun i =>
      ¬(app = port.app ∧ name = port.name ∧ i = callback) }

def unsubscribing (w : Wiring) (port : Port) (callback : Nat) : Wiring :=
  match port.value.property "unsubscribe" with
  | .ok .function =>
      if port.value.isPort then
        match w.thrownBy .unsubscribe with
        | some _ => w.counting .unsubscribe
        | none => (w.counting .unsubscribe).unsubscribed port callback
      else w
  | _ => w

def unlistening (w : Wiring) (callback : Nat) : Wiring :=
  match w.thrownBy .removeEventListener with
  | some _ => w.counting .removeEventListener
  | none =>
      { w.counting .removeEventListener with
        listeners := w.listeners.filter fun i => i ≠ callback }

/-- A connection's callbacks are given back, the listener first. -/
def closing (w : Wiring) (c : Connection) : Wiring :=
  let w := match c.listener with
    | some listener => (w.unlistening listener).freeingWindowCallback listener
    | none => w
  match c.onWrite with
  | some onWrite => (w.unsubscribing c.storePort onWrite).freeingPortCallback onWrite
  | none => w

end Wiring

namespace Wiring

section Unsubscribing

variable (w : Wiring) (port : Port) (callback : Nat)

@[simp] theorem portCallbacks_unsubscribing :
    (w.unsubscribing port callback).portCallbacks = w.portCallbacks := by
  unfold unsubscribing
  repeat' split
  all_goals rfl

@[simp] theorem windowCallbacks_unsubscribing :
    (w.unsubscribing port callback).windowCallbacks = w.windowCallbacks := by
  unfold unsubscribing
  repeat' split
  all_goals rfl

@[simp] theorem listeners_unsubscribing :
    (w.unsubscribing port callback).listeners = w.listeners := by
  unfold unsubscribing
  repeat' split
  all_goals rfl

theorem called_unsubscribing {call : PageCall} (hcall : call ≠ .unsubscribe) :
    (w.unsubscribing port callback).called call = w.called call := by
  have hcounting : (w.counting .unsubscribe).called call = w.called call := if_neg (Ne.symm hcall)
  unfold unsubscribing
  repeat' split
  all_goals first | rfl | exact hcounting

theorem unsubscribing_port (hport : port.value.isPort)
    (hmethod : port.value.property "unsubscribe" = .ok .function) :
    w.unsubscribing port callback =
      if (w.thrownBy .unsubscribe).isSome then w.counting .unsubscribe
      else (w.counting .unsubscribe).unsubscribed port callback := by
  simp only [unsubscribing, hmethod, hport, if_true]
  cases w.thrownBy .unsubscribe <;> rfl

theorem unsubscribing_plain (hport : ¬port.value.isPort) :
    w.unsubscribing port callback = w := by
  unfold unsubscribing
  split
  · exact if_neg hport
  · rfl

end Unsubscribing

section Unlistening

variable (w : Wiring) (callback : Nat)

@[simp] theorem portCallbacks_unlistening :
    (w.unlistening callback).portCallbacks = w.portCallbacks := by
  unfold unlistening
  split <;> rfl

@[simp] theorem windowCallbacks_unlistening :
    (w.unlistening callback).windowCallbacks = w.windowCallbacks := by
  unfold unlistening
  split <;> rfl

@[simp] theorem subscribers_unlistening :
    (w.unlistening callback).subscribers = w.subscribers := by
  unfold unlistening
  split <;> rfl

theorem listeners_unlistening : (w.unlistening callback).listeners =
    if (w.thrownBy .removeEventListener).isSome then w.listeners
    else w.listeners.filter fun i => i ≠ callback := by
  unfold unlistening
  cases w.thrownBy .removeEventListener <;> rfl

theorem called_unlistening : (w.unlistening callback).called =
    (w.counting .removeEventListener).called := by
  unfold unlistening
  split <;> rfl

theorem thrownBy_unlistening :
    (w.unlistening callback).thrownBy .unsubscribe = w.thrownBy .unsubscribe := by
  unfold unlistening
  split <;> rfl

end Unlistening

end Wiring

/-! ## Closing what is held -/

theorem unsubscribe_of_subscribe {v : Value} (hport : v.isPort)
    (hsubscribe : v.property "subscribe" = .ok .function) :
    v.property "unsubscribe" = .ok .function := by
  cases v with
  | port kind =>
      cases kind with
      | incoming =>
          have hundefined : (Except.ok Value.undefined : Except Value Value) = .ok .function :=
            hsubscribe
          cases hundefined
      | outgoing => rfl
      | both => rfl
  | _ => contradiction

namespace Wiring.Holds

variable {w : Wiring} {c : Connection} {onWrite listener : Nat}

theorem closing_eq (h : w.Holds c onWrite listener) : w.closing c =
    (((w.unlistening listener).freeingWindowCallback listener).unsubscribing c.storePort
      onWrite).freeingPortCallback onWrite := by
  rw [closing, h.port, h.window]

theorem portCallbacks_closing (h : w.Holds c onWrite listener) :
    (w.closing c).portCallbacks =
      w.portCallbacks.modify onWrite fun callback => { callback with alive := false } := by
  simp [h.closing_eq, freeingPortCallback, freeingWindowCallback]

theorem windowCallbacks_closing (h : w.Holds c onWrite listener) :
    (w.closing c).windowCallbacks =
      w.windowCallbacks.modify listener fun callback => { callback with alive := false } := by
  simp [h.closing_eq, freeingPortCallback, freeingWindowCallback]

theorem listeners_closing (h : w.Holds c onWrite listener) :
    (w.closing c).listeners = if (w.thrownBy .removeEventListener).isSome then w.listeners
      else w.listeners.filter fun i => i ≠ listener := by
  simp [h.closing_eq, freeingPortCallback, freeingWindowCallback, listeners_unlistening]

theorem called_closing (h : w.Holds c onWrite listener) {call : PageCall}
    (hcall : call ≠ .unsubscribe) :
    (w.closing c).called call = (w.counting .removeEventListener).called call := by
  rw [h.closing_eq, ← called_unlistening w listener]
  exact called_unsubscribing _ _ _ hcall

theorem unsubscribing_closing (h : w.Holds c onWrite listener)
    (hsubscribe : c.storePort.value.property "subscribe" = .ok .function) :
    (w.closing c).called .unsubscribe =
        w.called .unsubscribe + (if c.storePort.value.isPort then 1 else 0) ∧
      (w.closing c).subscribers =
        if c.storePort.value.isPort ∧ w.thrownBy .unsubscribe = none then
          (w.unsubscribed c.storePort onWrite).subscribers
        else w.subscribers := by
  have hcalled : (w.unlistening listener).called .unsubscribe = w.called .unsubscribe := by
    rw [called_unlistening]
    rfl
  have hsubscribers := w.subscribers_unlistening listener
  have hthrown : ((w.unlistening listener).freeingWindowCallback listener).thrownBy .unsubscribe =
      w.thrownBy .unsubscribe := w.thrownBy_unlistening listener
  rw [h.closing_eq]
  by_cases hport : c.storePort.value.isPort
  · rw [unsubscribing_port _ _ _ hport (unsubscribe_of_subscribe hport hsubscribe), hthrown]
    cases w.thrownBy .unsubscribe <;>
      simp [freeingPortCallback, freeingWindowCallback, counting, unsubscribed, hcalled, hport]
  · rw [unsubscribing_plain _ _ _ hport]
    simp [freeingPortCallback, freeingWindowCallback, hcalled, hport]

end Wiring.Holds

/-! ## Stopping -/

theorem Page.subscribersOf_unsubscribed (page : Page) (app : Nat) (port : String) (callback : Nat) :
    (page.modifyApp app fun a =>
      { a with subscribers := a.subscribers.filter fun s => s ≠ (port, callback) }).subscribersOf =
      fun other name => (page.subscribersOf other name).filter fun i =>
        ¬(other = app ∧ name = port ∧ i = callback) := by
  funext other name
  simp only [subscribersOf, modifyApp, List.getElem?_modify]
  cases page.apps[other]? with
  | none => rfl
  | some a =>
      by_cases hother : app = other
      · subst hother
        simp only [if_true, Option.map_eq_map, Option.map_some, List.filter_map, List.filter_filter]
        congr 1
        refine List.filter_congr fun s _ => ?_
        obtain ⟨subscribed, i⟩ := s
        by_cases hname : subscribed = name
        · subst hname
          by_cases hi : i = callback <;> simp [hi]
        · simp [hname]
      · simp only [hother, if_false, Option.map_eq_map, Option.map_some]
        refine (List.filter_eq_self.mpr fun i _ => ?_).symm
        simp [Ne.symm hother]

theorem run_unsubscribePort (port : Port) (callback : Nat) (page : Page) :
    ∃ next, (unsubscribePort port callback).run.run page =
        ((match page.wiring.refusal port with
          | none => .ok ()
          | some thrown => .error thrown), next) ∧
      next.wiring = page.wiring.unsubscribing port callback := by
  simp only [unsubscribePort, callPort, PortMethod.name, Wiring.refusal, Wiring.unsubscribing]
  cases port.value.property "unsubscribe" with
  | error thrown => exact ⟨page, rfl, rfl⟩
  | ok method =>
      cases method
      case function =>
        by_cases hport : port.value.isPort
        · have hthrown : page.wiring.thrownBy .unsubscribe = page.thrownBy .unsubscribe :=
            page.thrownBy_wiring rfl
          simp only [hport, if_true, hthrown, run_bind, run_attempt]
          cases page.thrownBy .unsubscribe with
          | some thrown => exact ⟨_, rfl, page.wiring_counting rfl⟩
          | none =>
              have hsubscribers := Page.subscribersOf_unsubscribed
                ((page.calling .unsubscribe).recorded (.unsubscribed port.name)) port.app port.name
                callback
              refine ⟨_, rfl, ?_⟩
              rw [← page.wiring_counting rfl]
              exact congrArg (fun subscribers => { (page.calling .unsubscribe).wiring with
                subscribers := subscribers }) hsubscribers
        · simp only [hport]
          exact ⟨page, rfl, rfl⟩
      all_goals exact ⟨page, rfl, rfl⟩

theorem run_removeListener (callback : Nat) (page : Page) :
    (page.after (removeListener callback).run).wiring = page.wiring.unlistening callback := by
  have hthrown : page.wiring.thrownBy .removeEventListener = page.thrownBy .removeEventListener :=
    page.thrownBy_wiring rfl
  change ((removeListener callback).run.run page).2.wiring = _
  simp only [removeListener, Wiring.unlistening, hthrown, run_bind, run_attempt]
  cases page.thrownBy .removeEventListener with
  | some thrown => exact page.wiring_counting rfl
  | none =>
      rw [← page.wiring_counting rfl]
      rfl

theorem after_unlisten (callback : Nat) (page : Page) :
    (page.after (unlisten callback)).wiring =
      (page.wiring.unlistening callback).freeingWindowCallback callback := by
  rw [← run_removeListener callback page]
  rw [unlisten, Page.after_bind]
  cases page.result (removeListener callback).run <;> rfl

theorem run_unsubscribe (port : Port) (callback : Nat) (page : Page) :
    ∃ next, (unsubscribe port callback).run.run page =
        ((match page.wiring.refusal port with
          | none => .ok ()
          | some thrown => .error (.port port.name thrown)), next) ∧
      next.wiring = (page.wiring.unsubscribing port callback).freeingPortCallback callback := by
  obtain ⟨next, hrun, hnext⟩ := run_unsubscribePort port callback page
  change ∃ last, (((unsubscribePort port callback).run.run page).1.mapError
    (BridgeError.port port.name), ((unsubscribePort port callback).run.run page).2.after
      (freePortCallback callback)) = _ ∧ _
  rw [hrun]
  refine ⟨next.after (freePortCallback callback), ?_, ?_⟩
  · cases page.wiring.refusal port <;> rfl
  · rw [← hnext]
    rfl

def Page.entered (page : Page) (name : String) : Page :=
  (page.recorded (.mark (.enter "js_entry" [("entry", name)]))).recorded
    (.mark (.note .debug "start" []))

theorem run_entry (name : String) (act : Bridging α) (page : Page) :
    (entry name act).run.run page =
      ((act.run.run (page.entered name)).1,
        (act.run.run (page.entered name)).2.recorded (.mark (.exit "js_entry"))) := rfl

/-- How stopping a connection ends. -/
def Connection.farewell (c : Connection) (w : Wiring) : Except BridgeError Unit :=
  match c.onWrite.bind fun _ => w.refusal c.storePort with
  | none => .ok ()
  | some thrown => .error (.port c.storePort.name thrown)

theorem Connection.farewell_unlistening (c : Connection) (w : Wiring) (callback : Nat) :
    c.farewell ((w.unlistening callback).freeingWindowCallback callback) = c.farewell w := by
  unfold Wiring.unlistening
  split <;> rfl

def unplug (c : Connection) : Bridging Unit :=
  match c.onWrite with
  | some onWrite => unsubscribe c.storePort onWrite
  | none => pure ()

theorem run_unplug (c : Connection) (page : Page) :
    ∃ next, (unplug c).run.run page = (c.farewell page.wiring, next) ∧
      next.wiring = page.wiring.closing { c with listener := none } := by
  obtain ⟨app, relay, store, onWrite, listener⟩ := c
  cases onWrite with
  | none => exact ⟨page, rfl, rfl⟩
  | some onWrite => exact run_unsubscribe store onWrite page

theorem stop_eq (c : Connection) :
    stop c = entry "StorageBridge::stop" (match c.listener with
      | some listener => (liftM (unlisten listener) : Bridging Unit) >>= fun _ => unplug c
      | none => unplug c) := by
  obtain ⟨app, relay, store, onWrite, listener⟩ := c
  cases onWrite <;> cases listener <;> rfl

theorem run_stop (c : Connection) (page : Page) :
    ∃ next, (stop c).run.run page = (c.farewell page.wiring, next) ∧
      next.wiring = page.wiring.closing c := by
  generalize hentered : page.entered "StorageBridge::stop" = entered
  have hwiring : entered.wiring = page.wiring := hentered ▸ rfl
  rw [stop_eq, run_entry, hentered, ← hwiring]
  cases hlistener : c.listener with
  | none =>
      obtain ⟨next, hrun, hnext⟩ := run_unplug c entered
      rw [hrun]
      refine ⟨_, rfl, ?_⟩
      rw [Page.wiring_recorded, hnext, Wiring.closing, Wiring.closing, hlistener]
  | some listener =>
      obtain ⟨next, hrun, hnext⟩ := run_unplug c (entered.after (unlisten listener))
      rw [after_unlisten, c.farewell_unlistening] at hrun
      rw [after_unlisten] at hnext
      simp only [run_bind, run_lift, hrun]
      refine ⟨_, rfl, ?_⟩
      rw [Page.wiring_recorded, hnext, Wiring.closing, Wiring.closing, hlistener]

theorem after_stop (c : Connection) (page : Page) :
    (page.after (stop c).run).wiring = page.wiring.closing c := by
  obtain ⟨next, hrun, hnext⟩ := run_stop c page
  rw [← hnext]
  exact congrArg (fun pair => pair.2.wiring) hrun

theorem result_stop (c : Connection) (page : Page) :
    page.result (stop c).run = c.farewell page.wiring := by
  obtain ⟨next, hrun, hnext⟩ := run_stop c page
  exact congrArg Prod.fst hrun

theorem after_drop (c : Connection) (page : Page) :
    (page.after (drop c)).wiring = page.wiring.closing c := by
  rw [← after_stop, drop, Page.after_bind]
  cases page.result (stop c).run <;> rfl

/-! ## The life of a connection -/

theorem wiring_setEntries (page : Page) (kind : AreaKind) (entries : Entries) :
    (page.setEntries kind entries).wiring = page.wiring := by
  cases kind <;> rfl

theorem keeps_changeArea (kind : AreaKind) (change : TabChange) :
    Keeps Page.wiring (changeArea kind change) := by
  refine .bind .get fun page => ?_
  split
  · exact .pure _
  · exact .bind (fun page => wiring_setEntries page kind _) fun _ => keeps_raise _

/-- A page and a connection that was opened on it, until that is dropped. -/
structure Life where
  page : Page
  connection : Option Connection

inductive Happening where
  | message (app : Nat) (port : String) (message : Value)
  | event (event : WindowEvent)
  | change (kind : AreaKind) (change : TabChange)
  | timer
  | stop
  | drop
  deriving DecidableEq

def Happening.ends : Happening → Bool
  | stop | drop => true
  | _ => false

namespace Life

def play (life : Life) : Happening → Life
  | .message app port message => { life with page := life.page.after (emit app port message) }
  | .event e => { life with page := life.page.after (raise e) }
  | .change kind change => { life with page := life.page.after (changeArea kind change) }
  | .timer => { life with page := life.page.after (fireTimers 1) }
  | .stop =>
      match life.connection with
      | some c => ⟨life.page.after (Bridge.stop c).run, some c.stopped⟩
      | none => life
  | .drop =>
      match life.connection with
      | some c => ⟨life.page.after (Bridge.drop c), none⟩
      | none => life

def playAll (life : Life) (run : List Happening) : Life := run.foldl play life

theorem playAll_cons (life : Life) (h : Happening) (run : List Happening) :
    life.playAll (h :: run) = (life.play h).playAll run := rfl

def Over (life : Life) : Prop := ∀ c, life.connection = some c → c.stopped = c

theorem play_quiet (life : Life) {h : Happening} (hquiet : h.ends = false) :
    (life.play h).connection = life.connection ∧
      (life.play h).page.wiring = life.page.wiring := by
  cases h with
  | message app port message => exact ⟨rfl, keeps_emit app port message life.page⟩
  | event e => exact ⟨rfl, keeps_raise e life.page⟩
  | change kind change => exact ⟨rfl, keeps_changeArea kind change life.page⟩
  | timer => exact ⟨rfl, keeps_fireTimers_one life.page⟩
  | stop => contradiction
  | drop => contradiction

theorem play_end (life : Life) {h : Happening} (hends : h.ends) :
    (life.play h).Over ∧
      (life.play h).page.wiring =
        life.connection.elim life.page.wiring life.page.wiring.closing := by
  obtain ⟨page, connection⟩ := life
  cases h with
  | stop =>
      cases connection with
      | none => exact ⟨nofun, rfl⟩
      | some c =>
          refine ⟨?_, after_stop c page⟩
          rintro _ ⟨⟩
          rfl
  | drop =>
      cases connection with
      | none => exact ⟨nofun, rfl⟩
      | some c => exact ⟨nofun, after_drop c page⟩
  | message => contradiction
  | event => contradiction
  | change => contradiction
  | timer => contradiction

theorem Over.play {life : Life} (hover : life.Over) (h : Happening) :
    (life.play h).Over ∧ (life.play h).page.wiring = life.page.wiring := by
  cases hends : h.ends with
  | false =>
      obtain ⟨hconnection, hwiring⟩ := life.play_quiet hends
      exact ⟨fun c hc => hover c (hconnection ▸ hc), hwiring⟩
  | true =>
      obtain ⟨hover', hwiring⟩ := life.play_end hends
      refine ⟨hover', hwiring.trans ?_⟩
      cases hc : life.connection with
      | none => rfl
      | some c =>
          change life.page.wiring.closing c = _
          rw [← hover c hc]
          rfl

theorem Over.playAll {life : Life} (hover : life.Over) (run : List Happening) :
    (life.playAll run).Over ∧ (life.playAll run).page.wiring = life.page.wiring := by
  induction run generalizing life with
  | nil => exact ⟨hover, rfl⟩
  | cons h run ih =>
      obtain ⟨hnext, hwiring⟩ := hover.play h
      obtain ⟨hover', hrun⟩ := ih hnext
      exact ⟨hover', hrun.trans hwiring⟩

/-- The wiring changes once in a life: when the connection is first stopped or dropped. -/
theorem playAll_cases {life : Life} {c : Connection} (hc : life.connection = some c)
    (run : List Happening) :
    run.any Happening.ends = false ∧ (life.playAll run).connection = some c ∧
        (life.playAll run).page.wiring = life.page.wiring ∨
      run.any Happening.ends ∧ (life.playAll run).Over ∧
        (life.playAll run).page.wiring = life.page.wiring.closing c := by
  induction run generalizing life with
  | nil => exact .inl ⟨rfl, hc, rfl⟩
  | cons h run ih =>
      rw [playAll_cons, List.any_cons]
      cases hends : h.ends with
      | false =>
          obtain ⟨hconnection, hwiring⟩ := life.play_quiet hends
          rw [← hwiring]
          exact ih (hconnection.trans hc)
      | true =>
          obtain ⟨hover, hwiring⟩ := life.play_end hends
          rw [hc] at hwiring
          obtain ⟨hover', hrun⟩ := hover.playAll run
          exact .inr ⟨rfl, hover', hrun.trans hwiring⟩

end Life

theorem opened_while_quiet {opening : Opening} {page opened : Page} {c : Connection}
    (hopened : opening.act.run.run page = (.ok c, opened)) {run : List Happening}
    (hquiet : run.any Happening.ends = false) :
    Opened page.wiring c ((Life.mk opened (some c)).playAll run).page.wiring := by
  have hstart : (Life.mk opened (some c)).connection = some c := rfl
  rcases Life.playAll_cases hstart run with ⟨_, _, hwiring⟩ | ⟨hends, _, _⟩
  · rw [hwiring]
    exact opened_ok hopened
  · exact absurd (hquiet.symm.trans hends) (by decide)

end TabRelay.Bridge
