import TabRelay.Proofs.Bridge.Closing

/-!
# What is left behind when opening or closing a connection fails

A call that throws may leave a callback subscribed although its closure is freed.
There are two places where this can happen: the window refuses to listen after the
callback was subscribed, and the port refuses to unsubscribe it.
-/

namespace TabRelay.Bridge

open TabRelay.Storage TabRelay.Web

/-! ## Failing to open -/

/-- What an opening on the wiring `w` leaves when it fails. -/
structure Abandoned (w : Wiring) (e : BridgeError) (next : Wiring) : Prop where
  portFreed : ∃ made : List PortCallback, next.portCallbacks = w.portCallbacks ++ made ∧
    ∀ callback ∈ made, callback.alive = false
  windowFreed : ∃ made : List WindowCallback, next.windowCallbacks = w.windowCallbacks ++ made ∧
    ∀ callback ∈ made, callback.alive = false
  listeners : next.listeners = w.listeners
  /-- A port gets a subscriber only when the window was asked to listen and threw. -/
  subscribers : next.called .addEventListener = w.called .addEventListener ∧
      next.subscribers = w.subscribers ∨
    next.called .addEventListener = w.called .addEventListener + 1 ∧
      ∃ (store : Port) (thrown : Value), w.thrownBy .addEventListener = some thrown ∧
        e = .storage thrown ∧ next.subscribers = fun app name => w.subscribers app name ++
          if store.value.isPort ∧ app = store.app ∧ name = store.name then
            [w.portCallbacks.length]
          else []

theorem ConnectEnds.abandoned {w next : Wiring} {app : Nat} {config : Config} {e : BridgeError}
    (h : ConnectEnds w app config (.error e) next) : Abandoned w e next := by
  have hnone {β : Type} (as : List β) {p : β → Prop} :
      ∃ made, as = as ++ made ∧ ∀ a ∈ made, p a := ⟨[], (List.append_nil as).symm, nofun⟩
  cases h with
  | missing => exact ⟨hnone _, hnone _, rfl, .inl ⟨rfl, rfl⟩⟩
  | @refused relay store thrown hfits hport hthrown =>
      exact ⟨⟨[⟨relay, false⟩], rfl, by simp⟩, hnone _, rfl, .inl ⟨rfl, rfl⟩⟩
  | @deaf relay store thrown hfits hthrown =>
      refine ⟨⟨[⟨relay, false⟩], w.portCallbacks_joined relay store false, by simp⟩,
        ⟨[⟨.forward relay, false⟩], w.windowCallbacks_joined relay store false, by simp⟩,
        w.listeners_joined relay store false, .inr ⟨?_, store, thrown, hthrown, rfl, ?_⟩⟩
      · rw [Wiring.called_joined, if_pos (.inl rfl)]
      · funext app name
        exact w.subscribers_joined relay store false app name

/--
An opening that fails frees every callback that it made and leaves the listeners of the
window as they were.  So are the subscribers of every port, unless the window was asked
to listen and threw: then a store port that keeps its subscribers keeps the freed
callback.  No message, event or timer changes this later.
-/
theorem failed_opening_leaves {opening : Opening} {page last : Page} {e : BridgeError}
    (hfailed : opening.act.run.run page = (.error e, last)) (run : List Happening) :
    Abandoned page.wiring e ((Life.mk last none).playAll run).page.wiring := by
  have hover : (Life.mk last none).Over := nofun
  rw [(hover.playAll run).2]
  obtain ⟨app, config, hends⟩ := opening_ends hfailed
  exact hends.abandoned

def deafPage : Page := soloPage [(.addEventListener, .throwing (.string "no") none)]

theorem deaf_window_leaves :
    attachFirst.act.run.run deafPage = (.error (.storage (.string "no")), attachedTo deafPage) ∧
      Abandoned deafPage.wiring (.storage (.string "no"))
        ((Life.mk (attachedTo deafPage) none).playAll
          [.message 0 "storeCache" .null]).page.wiring := by
  have hfailed : attachFirst.act.run.run deafPage =
      (.error (.storage (.string "no")), attachedTo deafPage) := rfl
  exact ⟨hfailed, failed_opening_leaves hfailed _⟩

/-- The next message goes to the freed callback. -/
theorem freed_callback_is_called :
    (attachFirst.act.run.run deafPage).1 = .error (.storage (.string "no")) ∧
      (attachedTo deafPage).subscribersOf 0 "storeCache" = [0] ∧
      (attachedTo deafPage).portCallbacks.map (·.alive) = [false] ∧
      ((Life.mk (attachedTo deafPage) none).play
        (.message 0 "storeCache" .null)).page.trace.head? = some (.uncaught Value.closureError) :=
  ⟨rfl, rfl, rfl, rfl⟩

/-! ## Failing to close -/

/-- What is left of a connection that was closed on the wiring `w`. -/
structure Released (w : Wiring) (c : Connection) (onWrite listener : Nat) (next : Wiring) :
    Prop where
  portFreed : next.portCallbacks[onWrite]? = some ⟨c.relay, false⟩
  windowFreed : next.windowCallbacks[listener]? = some ⟨.forward c.relay, false⟩
  askedWindow : next.called .removeEventListener = w.called .removeEventListener + 1
  listening : listener ∈ next.listeners ↔ (w.thrownBy .removeEventListener).isSome
  askedPort : c.storePort.value.isPort →
    next.called .unsubscribe = w.called .unsubscribe + 1
  subscribed : c.storePort.value.isPort →
    (onWrite ∈ next.subscribers c.storePort.app c.storePort.name ↔
      (w.thrownBy .unsubscribe).isSome)

theorem Wiring.Holds.released {w : Wiring} {c : Connection} {onWrite listener : Nat}
    (h : w.Holds c onWrite listener)
    (hsubscribe : c.storePort.value.property "subscribe" = .ok .function) :
    Released w c onWrite listener (w.closing c) := by
  refine ⟨?_, ?_, h.called_closing (by decide), ?_, fun hport => ?_, fun hport => ?_⟩
  · simp [h.portCallbacks_closing, h.portAlive]
  · simp [h.windowCallbacks_closing, h.windowAlive]
  · rw [h.listeners_closing]
    split <;> simp_all [h.listening]
  · rw [(h.unsubscribing_closing hsubscribe).1, if_pos hport]
  · rw [(h.unsubscribing_closing hsubscribe).2]
    have hsubscribed := h.subscribed hport
    cases w.thrownBy .unsubscribe <;> simp_all [Wiring.unsubscribed]

/--
A connection is whole until it is stopped or dropped for the first time.  From then on
it says that it is not connected, its callbacks are freed, and nothing is asked of the
port or the window again, whatever the first stop came to.  So a port that refuses to
unsubscribe keeps a callback that is freed, and nobody takes it back.
-/
theorem disconnected_even_if_refused {opening : Opening} {page opened : Page} {c : Connection}
    (hopened : opening.act.run.run page = (.ok c, opened)) (run : List Happening) :
    let life := (Life.mk opened (some c)).playAll run
    let onWrite := page.portCallbacks.length
    let listener := page.windowCallbacks.length
    if run.any Happening.ends then
      Released opened.wiring c onWrite listener life.page.wiring ∧
        ∀ left, life.connection = some left →
          left.isConnected = false ∧ life.page.result (stop left).run = .ok ()
    else
      life.page.wiring.Holds c onWrite listener ∧
        life.connection = some c ∧ c.isConnected ∧
          life.page.result (stop c).run = c.farewell opened.wiring := by
  intro life onWrite listener
  have hopen : Opened page.wiring c opened.wiring := opened_ok hopened
  obtain ⟨config, hfits⟩ := hopen.fits
  have hholds : opened.wiring.Holds c onWrite listener := hopen.holds
  have hconnected : (Life.mk opened (some c)).connection = some c := rfl
  rcases Life.playAll_cases hconnected run with
    ⟨hends, hconnection, hwiring⟩ | ⟨hends, hover, hwiring⟩
  · have hwhole : life.page.wiring = opened.wiring := hwiring
    rw [if_neg (by simp [hends]), hwhole, result_stop, hwhole]
    refine ⟨hholds, hconnection, ?_, rfl⟩
    simp [Connection.isConnected, hholds.port]
  · have hclosed : life.page.wiring = opened.wiring.closing c := hwiring
    rw [if_pos hends, hclosed]
    refine ⟨hholds.released hfits.subscribe, fun left hleft => ?_⟩
    rw [result_stop, ← hover left hleft]
    exact ⟨rfl, rfl⟩

def clingingPage : Page := soloPage [(.unsubscribe, .throwing (.string "no") (some 1))]

theorem clinging_port_is_asked_once :
    attachFirst.act.run.run clingingPage = (.ok firstConnection, attachedTo clingingPage) ∧
      let life := (Life.mk (attachedTo clingingPage) (some firstConnection)).playAll
        [.stop, .stop, .drop]
      Released (attachedTo clingingPage).wiring firstConnection 0 0 life.page.wiring ∧
        ∀ left, life.connection = some left →
          left.isConnected = false ∧ life.page.result (stop left).run = .ok () := by
  have hopened : attachFirst.act.run.run clingingPage =
      (.ok firstConnection, attachedTo clingingPage) := rfl
  exact ⟨hopened, disconnected_even_if_refused hopened [.stop, .stop, .drop]⟩

/-- The first stop fails.  The second one asks nothing of the port, which would let go now. -/
theorem refused_stop_is_final :
    let life := Life.mk (attachedTo clingingPage) (some firstConnection)
    let stopped := life.play .stop
    (attachFirst.act.run.run clingingPage).1 = .ok firstConnection ∧
      life.page.result (stop firstConnection).run = .error (.port "storeCache" (.string "no")) ∧
      stopped.connection.map Connection.isConnected = some false ∧
      stopped.page.subscribersOf 0 "storeCache" = [0] ∧
      stopped.page.portCallbacks.map (·.alive) = [false] ∧
      stopped.page.thrownBy .unsubscribe = none ∧
      (stopped.playAll [.stop, .drop]).page.called .unsubscribe = 1 ∧
      (stopped.playAll [.stop, .drop]).page.subscribersOf 0 "storeCache" = [0] :=
  ⟨rfl, rfl, rfl, rfl, rfl, rfl, rfl, rfl⟩

end TabRelay.Bridge
