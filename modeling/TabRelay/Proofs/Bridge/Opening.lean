import TabRelay.Proofs.Bridge.Wiring

/-!
# What it takes to open a connection, and what a failure leaves behind

A connection is opened in steps, each of which may fail.  Until the callback is
subscribed to the store port a failure leaves the wiring as it was, but for closures
that are freed at once.  The one step after it asks the window to listen.  When the
window throws, the callback stays subscribed although its closure is freed.
-/

namespace TabRelay.Bridge

open TabRelay.Storage TabRelay.Web

variable {α : Type}

/-! ## Changes of the wiring -/

namespace Wiring

def thrownBy (w : Wiring) (call : PageCall) : Option Value := w.thrownAt call (w.called call)

def counting (w : Wiring) (call : PageCall) : Wiring :=
  { w with called := fun other => if call = other then w.called call + 1 else w.called other }

/-- A plain function in the place of a port's method keeps no callback. -/
def subscribing (w : Wiring) (port : Port) (callback : Nat) : Wiring :=
  if port.value.isPort then
    { w.counting .subscribe with
      subscribers := fun app name =>
        w.subscribers app name ++ if app = port.app ∧ name = port.name then [callback] else [] }
  else w

def withPortCallback (w : Wiring) (relay : Relay) (alive : Bool) : Wiring :=
  { w with portCallbacks := w.portCallbacks ++ [⟨relay, alive⟩] }

def withWindowCallback (w : Wiring) (reaction : Reaction) (alive : Bool) : Wiring :=
  { w with windowCallbacks := w.windowCallbacks ++ [⟨reaction, alive⟩] }

def listening (w : Wiring) (callback : Nat) : Wiring :=
  { w with listeners := w.listeners ++ [callback] }

def freeingPortCallback (w : Wiring) (i : Nat) : Wiring :=
  { w with portCallbacks := w.portCallbacks.modify i fun c => { c with alive := false } }

def freeingWindowCallback (w : Wiring) (i : Nat) : Wiring :=
  { w with windowCallbacks := w.windowCallbacks.modify i fun c => { c with alive := false } }

theorem modify_last (as : List α) (a : α) (f : α → α) :
    (as ++ [a]).modify as.length f = as ++ [f a] := by
  induction as with
  | nil => rfl
  | cons _ as ih => simp [ih]

theorem freeingPortCallback_last (w : Wiring) (relay : Relay) (alive : Bool) :
    (w.withPortCallback relay alive).freeingPortCallback w.portCallbacks.length =
      w.withPortCallback relay false := by
  rw [freeingPortCallback, withPortCallback, modify_last]
  rfl

theorem freeingWindowCallback_last (w : Wiring) (reaction : Reaction) (alive : Bool) :
    (w.withWindowCallback reaction alive).freeingWindowCallback w.windowCallbacks.length =
      w.withWindowCallback reaction false := by
  rw [freeingWindowCallback, withWindowCallback, modify_last]
  rfl

end Wiring

namespace Page

theorem wiring_counting (page : Page) {call : PageCall} (hcall : call.wires) :
    (page.calling call).wiring = page.wiring.counting call := by
  simp only [wiring, Wiring.counting, thrownAt_calling, called_calling, hcall, if_true]
  congr 1
  funext other
  by_cases hother : call = other
  · subst hother
    simp [hcall]
  · simp [hother]

theorem thrownBy_wiring (page : Page) {call : PageCall} (hcall : call.wires) :
    page.wiring.thrownBy call = page.thrownBy call := by
  simp only [Wiring.thrownBy, wiring, hcall, if_true]
  rfl

theorem subscribersOf_subscribed (page : Page) {app : Nat} (h : app < page.apps.length)
    (port : String) (callback : Nat) :
    (page.modifyApp app fun a =>
      { a with subscribers := a.subscribers ++ [(port, callback)] }).subscribersOf =
      fun other name =>
        page.subscribersOf other name ++ if other = app ∧ name = port then [callback] else [] := by
  funext other name
  simp only [subscribersOf, modifyApp, List.getElem?_modify]
  by_cases hother : app = other
  · subst hother
    rw [List.getElem?_eq_getElem h]
    by_cases hname : port = name
    · simp [hname]
    · simp [hname, Ne.symm hname]
  · cases page.apps[other]? <;> simp [hother, Ne.symm hother]

end Page

/-! ## Ports -/

structure Port.Has (port : Port) (page : Page) (method : PortMethod) : Prop where
  runs : port.app < page.apps.length
  method : port.value.property method.name = .ok .function

theorem findPort_ok {page : Page} {app : Nat} {name : String} {method : PortMethod} {port : Port}
    (h : page.findPort app name method = .ok port) :
    port.app = app ∧ port.name = name ∧ port.Has page method := by
  simp only [Page.findPort] at h
  split at h
  case isFalse => contradiction
  rename_i hports
  split at h
  case h_1 => contradiction
  rename_i found hfound
  split at h
  case isFalse => contradiction
  rename_i hmethod
  cases h
  refine ⟨rfl, rfl, ?_, ?_⟩
  · refine Nat.lt_of_not_le fun hlength => ?_
    rw [List.getElem?_eq_none hlength] at hports
    contradiction
  · simp only [Page.findPort.hasMethod, Bool.and_eq_true] at hmethod
    cases hproperty : found.property method.name with
    | error thrown => simp [hproperty] at hmethod
    | ok value => cases value <;> simp_all [Value.isFunction]

theorem subscribePort_cases (page : Page) {port : Port} (h : port.Has page .subscribe)
    (callback : Nat) :
    (∃ thrown next, page.thrownBy .subscribe = some thrown ∧ port.value.isPort ∧
      (subscribePort port callback).run.run page = (.error thrown, next) ∧
        next.wiring = page.wiring.counting .subscribe) ∨
    ∃ next, (subscribePort port callback).run.run page = (.ok (), next) ∧
      next.wiring = page.wiring.subscribing port callback := by
  have hmethod := h.method
  simp only [PortMethod.name] at hmethod
  simp only [subscribePort, callPort, PortMethod.name, hmethod, Wiring.subscribing]
  by_cases hport : port.value.isPort
  · simp only [hport, if_true, true_and, run_bind, run_attempt]
    cases page.thrownBy .subscribe with
    | some thrown => exact .inl ⟨thrown, _, rfl, rfl, page.wiring_counting rfl⟩
    | none =>
        refine .inr ⟨((page.calling .subscribe).recorded (.subscribed port.name)).modifyApp port.app
          fun a => { a with subscribers := a.subscribers ++ [(port.name, callback)] }, rfl, ?_⟩
        have hsubscribers := Page.subscribersOf_subscribed
          ((page.calling .subscribe).recorded (.subscribed port.name)) h.runs port.name callback
        rw [← page.wiring_counting rfl]
        simp only [Page.wiring, hsubscribers]
        rfl
  · simp only [hport]
    exact .inr ⟨page, rfl, rfl⟩

/-! ## Listening -/

theorem listen_cases (page : Page) (reaction : Reaction) :
    (∃ thrown next, page.thrownBy .addEventListener = some thrown ∧
      (listen reaction).run.run page = (.error thrown, next) ∧
        next.wiring = (page.wiring.counting .addEventListener).withWindowCallback reaction false) ∨
    ∃ next, page.thrownBy .addEventListener = none ∧
      (listen reaction).run.run page = (.ok page.windowCallbacks.length, next) ∧
        next.wiring = ((page.wiring.counting .addEventListener).withWindowCallback
          reaction true).listening page.windowCallbacks.length := by
  have hmade : (liftM (addWindowCallback reaction) : Throwing Nat).run.run page =
      (.ok page.windowCallbacks.length,
        { page with windowCallbacks := page.windowCallbacks ++ [⟨reaction, true⟩] }) := rfl
  have hsame : Page.thrownBy
      { page with windowCallbacks := page.windowCallbacks ++ [⟨reaction, true⟩] }
      .addEventListener = page.thrownBy .addEventListener := rfl
  have hcounting : (page.calling .addEventListener).wiring =
      page.wiring.counting .addEventListener := page.wiring_counting rfl
  simp only [listen, addListener, run_bind, run_tryCatch, run_attempt, hmade, hsame]
  cases page.thrownBy .addEventListener with
  | some thrown =>
      refine .inl ⟨thrown, _, rfl, rfl, ?_⟩
      rw [← hcounting]
      exact Wiring.freeingWindowCallback_last (page.calling .addEventListener).wiring reaction true
  | none =>
      refine .inr ⟨_, rfl, rfl, ?_⟩
      rw [← hcounting]
      rfl

/-! ## Connecting -/

/-- The two ports are those that the configuration names, and have the methods that are needed. -/
structure Fits (app : Nat) (config : Config) (relay : Relay) (store : Port) : Prop where
  kind : relay.kind = config.area
  changeApp : relay.changePort.app = app
  changeName : relay.changePort.name = config.changePort
  send : relay.changePort.value.property "send" = .ok .function
  storeApp : store.app = app
  storeName : store.name = config.storePort
  subscribe : store.value.property "subscribe" = .ok .function

namespace Wiring

def plugged (w : Wiring) (relay : Relay) (store : Port) (alive : Bool) : Wiring :=
  (w.withPortCallback relay alive).subscribing store w.portCallbacks.length

def joined (w : Wiring) (relay : Relay) (store : Port) (alive : Bool) : Wiring :=
  ((w.plugged relay store alive).counting .addEventListener).withWindowCallback (.forward relay) alive

theorem windowCallbacks_plugged (w : Wiring) (relay : Relay) (store : Port) (alive : Bool) :
    (w.plugged relay store alive).windowCallbacks = w.windowCallbacks := by
  unfold plugged subscribing
  split <;> rfl

theorem thrownBy_plugged (w : Wiring) (relay : Relay) (store : Port) (alive : Bool) :
    (w.plugged relay store alive).thrownBy .addEventListener =
      w.thrownBy .addEventListener := by
  unfold plugged subscribing
  split <;> rfl

section Joined

variable (w : Wiring) (relay : Relay) (store : Port) (alive : Bool)

@[simp] theorem portCallbacks_joined :
    (w.joined relay store alive).portCallbacks = w.portCallbacks ++ [⟨relay, alive⟩] := by
  unfold joined plugged subscribing
  split <;> rfl

@[simp] theorem windowCallbacks_joined :
    (w.joined relay store alive).windowCallbacks =
      w.windowCallbacks ++ [⟨.forward relay, alive⟩] := by
  unfold joined plugged subscribing
  split <;> rfl

@[simp] theorem listeners_joined : (w.joined relay store alive).listeners = w.listeners := by
  unfold joined plugged subscribing
  split <;> rfl

@[simp] theorem thrownAt_joined : (w.joined relay store alive).thrownAt = w.thrownAt := by
  unfold joined plugged subscribing
  split <;> rfl

theorem subscribers_joined (app : Nat) (name : String) :
    (w.joined relay store alive).subscribers app name = w.subscribers app name ++
      if store.value.isPort ∧ app = store.app ∧ name = store.name then [w.portCallbacks.length]
      else [] := by
  unfold joined plugged subscribing
  by_cases hport : store.value.isPort
  · simp only [hport, true_and]
    rfl
  · simp only [hport, Bool.false_eq_true, false_and, if_false, List.append_nil]
    rfl

theorem called_joined (call : PageCall) :
    (w.joined relay store alive).called call = w.called call +
      if call = .addEventListener ∨ call = .subscribe ∧ store.value.isPort then 1 else 0 := by
  unfold joined plugged subscribing
  by_cases hport : store.value.isPort <;> cases call <;>
    simp [hport, counting, withPortCallback, withWindowCallback]

end Joined

theorem freeingPortCallback_joined (w : Wiring) (relay : Relay) (store : Port) :
    (((w.plugged relay store true).counting .addEventListener).withWindowCallback
      (.forward relay) false).freeingPortCallback w.portCallbacks.length =
      w.joined relay store false := by
  have hfreed := congrArg Wiring.portCallbacks (w.freeingPortCallback_last relay true)
  unfold joined plugged subscribing
  split <;> simpa [freeingPortCallback, withPortCallback, withWindowCallback, counting] using hfreed

end Wiring

inductive ConnectEnds (w : Wiring) (app : Nat) (config : Config) :
    Except BridgeError Connection → Wiring → Prop where
  | missing {e : BridgeError} : ConnectEnds w app config (.error e) w
  | refused {relay : Relay} {store : Port} {thrown : Value} (hfits : Fits app config relay store)
      (hport : store.value.isPort) (hthrown : w.thrownBy .subscribe = some thrown) :
      ConnectEnds w app config (.error (.port store.name thrown))
        ((w.counting .subscribe).withPortCallback relay false)
  | deaf {relay : Relay} {store : Port} {thrown : Value} (hfits : Fits app config relay store)
      (hthrown : w.thrownBy .addEventListener = some thrown) :
      ConnectEnds w app config (.error (.storage thrown)) (w.joined relay store false)
  | connected {relay : Relay} {store : Port} (hfits : Fits app config relay store)
      (hthrown : w.thrownBy .addEventListener = none) :
      ConnectEnds w app config
        (.ok ⟨app, relay, store, some w.portCallbacks.length, some w.windowCallbacks.length⟩)
        ((w.joined relay store true).listening w.windowCallbacks.length)

namespace Page

def withPortCallback (page : Page) (relay : Relay) : Page :=
  { page with portCallbacks := page.portCallbacks ++ [⟨relay, true⟩] }

end Page

theorem run_connect {page : Page} {app : Nat} {config : Config} {changePort store : Port}
    (hchange : page.findPort app config.changePort .send = .ok changePort)
    (hstore : page.findPort app config.storePort .subscribe = .ok store) :
    (connect app config).run.run page =
      match (subscribePort store page.portCallbacks.length).run.run
        (page.withPortCallback ⟨config.area, changePort⟩) with
      | (.error thrown, next) => (.error (.port store.name thrown),
          next.after (freePortCallback page.portCallbacks.length))
      | (.ok (), next) =>
          match (listen (.forward ⟨config.area, changePort⟩)).run.run next with
          | (.error thrown, last) => (.error (.storage thrown),
              last.after (freePortCallback page.portCallbacks.length))
          | (.ok listener, last) =>
              (.ok ⟨app, ⟨config.area, changePort⟩, store, some page.portCallbacks.length,
                some listener⟩,
              last.recorded (.mark (.note .debug "ports connected"
                [("store_port", config.storePort), ("change_port", config.changePort)]))) := by
  have hmade : (liftM (addPortCallback ⟨config.area, changePort⟩) : Bridging Nat).run.run page =
      (.ok page.portCallbacks.length, page.withPortCallback ⟨config.area, changePort⟩) := rfl
  simp only [connect, run_bind, run_get, run_except, hchange, hstore, hmade, run_tryCatch, run_adapt]
  obtain ⟨result, next⟩ := (subscribePort store page.portCallbacks.length).run.run
    (page.withPortCallback ⟨config.area, changePort⟩)
  cases result with
  | error thrown => rfl
  | ok _ =>
      simp only
      obtain ⟨result, last⟩ := (listen (.forward ⟨config.area, changePort⟩)).run.run next
      cases result <;> rfl

theorem connect_ends_of_found {page : Page} {app : Nat} {config : Config} {changePort store : Port}
    (hchange : page.findPort app config.changePort .send = .ok changePort)
    (hstore : page.findPort app config.storePort .subscribe = .ok store) :
    ∃ result next, (connect app config).run.run page = (result, next) ∧
      ConnectEnds page.wiring app config result next.wiring := by
  obtain ⟨hchangeApp, hchangeName, hsend⟩ := findPort_ok hchange
  obtain ⟨hstoreApp, hstoreName, hsubscribe⟩ := findPort_ok hstore
  have hfits : Fits app config ⟨config.area, changePort⟩ store :=
    ⟨rfl, hchangeApp, hchangeName, hsend.method, hstoreApp, hstoreName, hsubscribe.method⟩
  have hwiring : (page.withPortCallback ⟨config.area, changePort⟩).wiring =
      page.wiring.withPortCallback ⟨config.area, changePort⟩ true := rfl
  rw [run_connect hchange hstore]
  rcases subscribePort_cases (page.withPortCallback ⟨config.area, changePort⟩)
    ⟨hsubscribe.runs, hsubscribe.method⟩ page.portCallbacks.length with
    ⟨thrown, next, hthrown, hport, hrun, hnext⟩ | ⟨next, hrun, hnext⟩
  · rw [hrun]
    refine ⟨_, _, rfl, ?_⟩
    have hfreed : (next.after (freePortCallback page.portCallbacks.length)).wiring =
        (page.wiring.counting .subscribe).withPortCallback ⟨config.area, changePort⟩ false := by
      change next.wiring.freeingPortCallback page.portCallbacks.length = _
      rw [hnext, hwiring]
      exact Wiring.freeingPortCallback_last (page.wiring.counting .subscribe) _ _
    rw [hfreed]
    exact .refused hfits hport ((page.thrownBy_wiring rfl).trans hthrown)
  · have hplugged : next.wiring = page.wiring.plugged ⟨config.area, changePort⟩ store true :=
      hnext.trans (by rw [hwiring]; rfl)
    have hthrowing : page.wiring.thrownBy .addEventListener = next.thrownBy .addEventListener := by
      rw [← next.thrownBy_wiring rfl, hplugged, Wiring.thrownBy_plugged]
    have hcallbacks : next.windowCallbacks = page.windowCallbacks :=
      (congrArg Wiring.windowCallbacks hplugged).trans (Wiring.windowCallbacks_plugged ..)
    rw [hrun]
    rcases listen_cases next (.forward ⟨config.area, changePort⟩) with
      ⟨thrown, last, hthrown, hrun, hlast⟩ | ⟨last, hthrown, hrun, hlast⟩
    · simp only [hrun]
      refine ⟨_, _, rfl, ?_⟩
      have hfreed : (last.after (freePortCallback page.portCallbacks.length)).wiring =
          page.wiring.joined ⟨config.area, changePort⟩ store false := by
        change last.wiring.freeingPortCallback page.portCallbacks.length = _
        rw [hlast, hplugged]
        exact page.wiring.freeingPortCallback_joined _ _
      rw [hfreed]
      exact .deaf hfits (hthrowing.trans hthrown)
    · simp only [hrun]
      refine ⟨_, _, rfl, ?_⟩
      rw [Page.wiring_recorded, hlast, hplugged, hcallbacks]
      exact .connected hfits (hthrowing.trans hthrown)

theorem connect_ends (app : Nat) (config : Config) (page : Page) :
    ∃ result next, (connect app config).run.run page = (result, next) ∧
      ConnectEnds page.wiring app config result next.wiring := by
  cases hchange : page.findPort app config.changePort .send with
  | error e =>
      refine ⟨.error e, page, ?_, .missing⟩
      simp only [connect, run_bind, run_get, run_except, hchange]
  | ok changePort =>
      cases hstore : page.findPort app config.storePort .subscribe with
      | error e =>
          refine ⟨.error e, page, ?_, .missing⟩
          simp only [connect, run_bind, run_get, run_except, hchange, hstore]
      | ok store => exact connect_ends_of_found hchange hstore

/-! ## Opening -/

inductive Opening where
  | start (config : Value)
  | attach (app : Nat) (config : Value)

def Opening.act : Opening → Bridging Connection
  | start config => Bridge.start config
  | attach app config => Bridge.attach app config

/-- How an opening ends, whichever application and configuration it comes to. -/
def Ends (w : Wiring) (result : Except BridgeError Connection) (last : Page) : Prop :=
  ∃ app config, ConnectEnds w app config result last.wiring

theorem Ends.of_bind {x : Bridging α} {f : α → Bridging Connection} {w : Wiring}
    (hx : Keeps Page.wiring x.run)
    (hf : ∀ a (next : Page), next.wiring = w →
      Ends w ((f a).run.run next).1 ((f a).run.run next).2)
    (page : Page) (hw : page.wiring = w) :
    Ends w ((x >>= f).run.run page).1 ((x >>= f).run.run page).2 := by
  have hkept : (x.run.run page).2.wiring = w := (hx page).trans hw
  rw [run_bind]
  revert hkept
  obtain ⟨result, next⟩ := x.run.run page
  cases result with
  | ok a => exact hf a next
  | error e =>
      rintro rfl
      exact ⟨0, {}, .missing⟩

theorem ends_connect (app : Nat) (config : Config) {w : Wiring} (page : Page)
    (hw : page.wiring = w) :
    Ends w ((connect app config).run.run page).1 ((connect app config).run.run page).2 := by
  obtain ⟨result, next, hrun, hends⟩ := connect_ends app config page
  rw [hrun]
  exact ⟨app, config, hw ▸ hends⟩

section

variable {β : Type} {f : Page → β}

theorem Keeps.readConfig (config : Value) : Keeps f (readConfig config).run := fun _ => rfl

theorem Keeps.needWindow : Keeps f needWindow.run := by
  refine .run_bind .run_get fun page => ?_
  cases page.hasWindow <;> exact fun _ => rfl

theorem Keeps.needArea {kind : AreaKind} (hf : Keeps f (attempt (getterOf kind)).run) :
    Keeps f (needArea kind).run := by
  refine .run_bind (.run_adapt (.hasArea hf) _) fun found => ?_
  cases found <;> exact fun _ => rfl

theorem Keeps.mountNode (hmark : ∀ m, Keeps f (mark m)) (id : String) :
    Keeps f (mountNode id).run := by
  refine .run_bind .run_get fun page => ?_
  cases page.hasDocument with
  | false => exact fun _ => rfl
  | true =>
      cases page.nodes.contains id with
      | false => exact .run_bind (.run_lift (hmark _)) fun _ => .run_pure _
      | true => exact fun _ => rfl

end

theorem keeps_addApp (name : String) (spec : AppSpec) : Keeps Page.wiring (addApp name spec) := by
  intro page
  have hsubscribers : (page.after (addApp name spec)).subscribersOf = page.subscribersOf := by
    funext app port
    change Page.subscribersOf
      { page with apps := page.apps ++ [⟨name, spec.ports, spec.echo, []⟩] } app port = _
    simp only [Page.subscribersOf, List.getElem?_append]
    by_cases hlength : app < page.apps.length
    · simp only [if_pos hlength]
    · rw [if_neg hlength, List.getElem?_eq_none (Nat.not_lt.mp hlength)]
      cases (app - page.apps.length) <;> rfl
  exact congrArg (fun subscribers => { page.wiring with subscribers := subscribers }) hsubscribers

theorem keeps_launch (node flags : Value) : Keeps Page.wiring (launch node flags).run :=
  .run_bind (.run_adapt (keeps_attempt rfl) _) fun _ => .run_bind (.run_lift (keeps_record _))
    fun _ => .run_bind .run_get fun _ => .run_lift (keeps_addApp _ _)

theorem ends_start (config : Value) (page : Page) :
    Ends page.wiring ((Bridge.start config).run.run page).1
      ((Bridge.start config).run.run page).2 := by
  refine Ends.of_bind (.readConfig config) (fun config => ?_) _ rfl
  refine Ends.of_bind .needWindow fun _ => ?_
  refine Ends.of_bind (.needArea (keeps_getter _)) fun _ => ?_
  refine Ends.of_bind (keeps_readSnapshot _) fun snapshot => ?_
  refine Ends.of_bind (.mountNode keeps_mark _) fun node => ?_
  refine Ends.of_bind (keeps_launch _ _) fun app => ?_
  exact Ends.of_bind (.run_lift (keeps_mark _)) fun _ => ends_connect app config

theorem ends_attach (app : Nat) (config : Value) (page : Page) :
    Ends page.wiring ((Bridge.attach app config).run.run page).1
      ((Bridge.attach app config).run.run page).2 := by
  refine Ends.of_bind (.readConfig config) (fun config => ?_) _ rfl
  refine Ends.of_bind .needWindow fun _ => ?_
  refine Ends.of_bind (.needArea (keeps_getter _)) fun _ => ?_
  exact ends_connect app config

theorem opening_ends {opening : Opening} {page last : Page} {result : Except BridgeError Connection}
    (h : opening.act.run.run page = (result, last)) : Ends page.wiring result last := by
  have hends : Ends page.wiring (opening.act.run.run page).1 (opening.act.run.run page).2 := by
    cases opening with
    | start config => exact ends_start config page
    | attach app config => exact ends_attach app config page
  rwa [h] at hends

/-! ## What a connection holds -/

/-- The connection was opened on the wiring `w`. -/
structure Opened (w : Wiring) (c : Connection) (next : Wiring) : Prop where
  fits : ∃ config, Fits c.app config c.relay c.storePort
  onWrite : c.onWrite = some w.portCallbacks.length
  listener : c.listener = some w.windowCallbacks.length
  wiring : next = (w.joined c.relay c.storePort true).listening w.windowCallbacks.length

theorem opened_ok {opening : Opening} {page last : Page} {c : Connection}
    (h : opening.act.run.run page = (.ok c, last)) : Opened page.wiring c last.wiring := by
  obtain ⟨app, config, hends⟩ := opening_ends h
  generalize last.wiring = next at hends
  cases hends with
  | connected hfits hthrown => exact ⟨⟨config, hfits⟩, rfl, rfl, rfl⟩

theorem Opened.thrownAt {w next : Wiring} {c : Connection} (h : Opened w c next) :
    next.thrownAt = w.thrownAt := by
  rw [h.wiring]
  exact w.thrownAt_joined c.relay c.storePort true

/-- Both callbacks of the connection are in place. -/
structure Wiring.Holds (w : Wiring) (c : Connection) (onWrite listener : Nat) : Prop where
  port : c.onWrite = some onWrite
  window : c.listener = some listener
  portAlive : w.portCallbacks[onWrite]? = some ⟨c.relay, true⟩
  windowAlive : w.windowCallbacks[listener]? = some ⟨.forward c.relay, true⟩
  subscribed : c.storePort.value.isPort → onWrite ∈ w.subscribers c.storePort.app c.storePort.name
  listening : listener ∈ w.listeners

theorem Opened.holds {w next : Wiring} {c : Connection} (h : Opened w c next) :
    next.Holds c w.portCallbacks.length w.windowCallbacks.length where
  port := h.onWrite
  window := h.listener
  portAlive := by simp [h.wiring, Wiring.listening]
  windowAlive := by simp [h.wiring, Wiring.listening]
  subscribed hport := by simp [h.wiring, Wiring.listening, Wiring.subscribers_joined, hport]
  listening := by simp [h.wiring, Wiring.listening]

/-! ## A page with one application -/

def soloPage (schedules : List (PageCall × Schedule)) : Page :=
  { apps := [⟨"b", AppSpec.ports {}, [], []⟩]
    schedules }

def attachFirst : Opening := .attach 0 .undefined

def firstConnection : Connection where
  app := 0
  relay := ⟨.localArea, 0, "onStoreChange", .port .incoming⟩
  storePort := ⟨0, "storeCache", .port .outgoing⟩
  onWrite := some 0
  listener := some 0

def attachedTo (page : Page) : Page := (attachFirst.act.run.run page).2

example : attachFirst.act.run.run (soloPage []) = (.ok firstConnection, attachedTo (soloPage [])) :=
  rfl

end TabRelay.Bridge
