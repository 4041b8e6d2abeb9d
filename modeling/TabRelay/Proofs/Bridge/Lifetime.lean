import TabRelay.Proofs.Bridge.Accounts

/-!
# The life of a connection in its books

A connection writes and forwards until it is first stopped or dropped, and not after
that.  Its timers outlive it: what it wrote is acknowledged in order, when the timers
fire, whether it is still there or not.
-/

namespace TabRelay.Bridge

open TabRelay.Storage TabRelay.Web

variable {α : Type}

/-! ## Stopping leaves the books alone -/

theorem keeps_ledger_unlisten (callback : Nat) : Keeps Page.ledger (unlisten callback) := by
  have hremove : Keeps Page.ledger (removeListener callback).run :=
    .run_bind (keeps_ledger_attempt _) fun _ _ => rfl
  refine .bind hremove fun result => ?_
  cases result <;> exact fun _ => rfl

theorem ledger_modifyApp (page : Page) (i : Nat) (f : App → App)
    (hf : ∀ app, (f app).echo = app.echo) : (page.modifyApp i f).ledger = page.ledger := by
  have hechoes : (page.apps.modify i f).map (·.echo) = page.apps.map (·.echo) := by
    refine List.ext_getElem? fun other => ?_
    simp only [List.getElem?_map, List.getElem?_modify]
    cases page.apps[other]? with
    | none => rfl
    | some a => by_cases hi : i = other <;> simp [hi, hf]
  simp only [Page.ledger, Page.modifyApp, hechoes]
  rfl

theorem keeps_ledger_unsubscribe (port : Port) (callback : Nat) :
    Keeps Page.ledger (unsubscribe port callback).run := by
  have hport : Keeps Page.ledger (unsubscribePort port callback).run := by
    unfold unsubscribePort callPort
    split
    · exact .run_throw _
    · split
      · exact .run_bind (keeps_ledger_attempt _) fun _ page =>
          ledger_modifyApp (page.recorded (.unsubscribed port.name)) port.app _ fun _ => rfl
      · exact .run_pure _
    · exact .run_throw _
  exact .bind hport fun _ _ => rfl

theorem keeps_ledger_unplug (c : Connection) : Keeps Page.ledger (unplug c).run := by
  unfold unplug
  split
  · exact keeps_ledger_unsubscribe _ _
  · exact .run_pure _

theorem keeps_ledger_entry (name : String) {act : Bridging α} (h : Keeps Page.ledger act.run) :
    Keeps Page.ledger (entry name act).run := fun page => h (page.entered name)

theorem keeps_ledger_stop (c : Connection) : Keeps Page.ledger (stop c).run := by
  rw [stop_eq]
  refine keeps_ledger_entry _ ?_
  split
  · exact .run_bind (.run_lift (keeps_ledger_unlisten _)) fun _ => keeps_ledger_unplug c
  · exact keeps_ledger_unplug c

theorem keeps_ledger_drop (c : Connection) : Keeps Page.ledger (drop c) := by
  refine .bind (keeps_ledger_stop c) fun result => ?_
  cases result <;> exact fun _ => rfl

/-! ## The deeds of a life -/

/-- What comes from the happenings of a run, on a page where applications react with messages. -/
def Sources.ofRun (run : List Happening) (ledger : Ledger) : Sources where
  messages m := (∃ app port, .message app port m ∈ run) ∨ m ∈ ledger.echoes.flatten
  events e := .event e ∈ run ∨
    ∃ kind change old next, .change kind change ∈ run ∧ change.effect kind old = some (next, e)
  timers := .timer ∈ run
  changes kind next :=
    ∃ change old e, .change kind change ∈ run ∧ change.effect kind old = some (next, e)

namespace Life

def deedsOf (life : Life) : Happening → List Deed
  | .message app port message => life.page.emission app port message
  | .event e => life.page.heardAll e life.page.listeners
  | .change kind change => life.page.changing kind change
  | .timer => life.page.nextTimer
  | .stop | .drop => []

def deeds : Life → List Happening → List Deed
  | _, [] => []
  | life, h :: run => life.deedsOf h ++ (life.play h).deeds run

theorem deedsOf_end (life : Life) {h : Happening} (hends : h.ends) : life.deedsOf h = [] := by
  cases h <;> first | rfl | contradiction

end Life

/-! ## The books of a life -/

structure Wiring.Fades (w next : Wiring) : Prop where
  port : ∀ {i : Nat} {relay : Relay}, next.portCallbacks[i]? = some ⟨relay, true⟩ →
    w.portCallbacks[i]? = some ⟨relay, true⟩
  window : ∀ {i : Nat} {reaction : Reaction}, next.windowCallbacks[i]? = some ⟨reaction, true⟩ →
    w.windowCallbacks[i]? = some ⟨reaction, true⟩
  thrownAt : next.thrownAt = w.thrownAt

namespace Wiring

theorem Fades.refl (w : Wiring) : w.Fades w := ⟨id, id, rfl⟩

theorem Fades.trans {w w' w'' : Wiring} (h : w.Fades w') (h' : w'.Fades w'') : w.Fades w'' :=
  ⟨fun halive => h.port (h'.port halive), fun halive => h.window (h'.window halive),
    h'.thrownAt.trans h.thrownAt⟩

theorem Fades.willing {w next : Wiring} (h : w.Fades next) (hwilling : w.Willing) : next.Willing where
  setTimeout := fun n => by rw [h.thrownAt]; exact hwilling.setTimeout n
  send := fun n => by rw [h.thrownAt]; exact hwilling.send n

theorem getElem?_of_modify {as : List α} {f : α → α} {k i : Nat} {a : α}
    (h : (as.modify k f)[i]? = some a) (hf : ∀ b, f b ≠ a) : as[i]? = some a := by
  rw [List.getElem?_modify] at h
  obtain ⟨b, hb, hba⟩ := Option.map_eq_some_iff.mp h
  by_cases hk : k = i
  · rw [if_pos hk] at hba
    exact absurd hba (hf b)
  · rw [if_neg hk] at hba
    rw [hb, hba]

theorem fades_freeingPortCallback (w : Wiring) (callback : Nat) :
    w.Fades (w.freeingPortCallback callback) :=
  ⟨fun halive => getElem?_of_modify halive nofun, id, rfl⟩

theorem fades_freeingWindowCallback (w : Wiring) (callback : Nat) :
    w.Fades (w.freeingWindowCallback callback) :=
  ⟨id, fun halive => getElem?_of_modify halive nofun, rfl⟩

theorem fades_unlistening (w : Wiring) (callback : Nat) : w.Fades (w.unlistening callback) := by
  unfold unlistening
  split <;> exact ⟨id, id, rfl⟩

theorem fades_unsubscribing (w : Wiring) (port : Port) (callback : Nat) :
    w.Fades (w.unsubscribing port callback) := by
  unfold unsubscribing
  repeat' split
  all_goals exact ⟨id, id, rfl⟩

theorem fades_closing (w : Wiring) (c : Connection) : w.Fades (w.closing c) := by
  obtain ⟨app, relay, store, onWrite, listener⟩ := c
  have hunplugging (w : Wiring) : w.Fades (w.closing ⟨app, relay, store, onWrite, none⟩) := by
    cases onWrite with
    | none => exact .refl w
    | some onWrite => exact (w.fades_unsubscribing _ _).trans (fades_freeingPortCallback _ _)
  cases listener with
  | none => exact hunplugging w
  | some listener =>
      exact ((w.fades_unlistening listener).trans (fades_freeingWindowCallback _ _)).trans
        (hunplugging _)

end Wiring

structure Sources.Within (s s' : Sources) : Prop where
  messages : ∀ {m}, s.messages m → s'.messages m
  events : ∀ {e}, s.events e → s'.events e
  timers : s.timers → s'.timers
  changes : ∀ {kind next}, s.changes kind next → s'.changes kind next

theorem within_ofRun {run run' : List Happening} {l l' : Ledger} (hrun : run ⊆ run')
    (hechoes : ∀ m ∈ l.echoes.flatten, m ∈ l'.echoes.flatten) :
    (Sources.ofRun run l).Within (.ofRun run' l') where
  messages h := h.imp (fun ⟨app, port, hm⟩ => ⟨app, port, hrun hm⟩) (hechoes _)
  events h := h.imp (hrun ·) fun ⟨kind, change, old, next, hm, heffect⟩ =>
    ⟨kind, change, old, next, hrun hm, heffect⟩
  timers h := hrun h
  changes := fun ⟨change, old, e, hm, heffect⟩ => ⟨change, old, e, hrun hm, heffect⟩

theorem Deed.Origin.within {w next : Wiring} {s s' : Sources} {d : Deed} (h : d.Origin next s)
    (hfades : w.Fades next) (hwithin : s.Within s') : d.Origin w s' := by
  cases d with
  | applied => exact ⟨hfades.port h.1, h.2.1, hwithin.messages h.2.2⟩
  | forwarded => exact ⟨hfades.window h.1, hwithin.events h.2⟩
  | fired => exact hwithin.timers h
  | changed => exact hwithin.changes h

namespace Life

theorem fades_play (life : Life) (h : Happening) :
    life.page.wiring.Fades (life.play h).page.wiring := by
  cases hends : h.ends with
  | false =>
      rw [(life.play_quiet hends).2]
      exact .refl _
  | true =>
      rw [(life.play_end hends).2]
      cases life.connection with
      | none => exact .refl _
      | some c => exact life.page.wiring.fades_closing c

theorem accounts_play (life : Life) (hwilling : life.page.wiring.Willing) (h : Happening) :
    Accounts (Deed.Origin life.page.wiring (.ofRun [h] life.page.ledger)) life.page.ledger
      (life.deedsOf h) (life.play h).page.ledger := by
  have hechoes : ∀ message ∈ life.page.ledger.echoes.flatten,
      (Sources.ofRun [h] life.page.ledger).messages message := fun _ => .inr
  have hself : h ∈ [h] := List.mem_singleton_self h
  cases h with
  | message app port message => exact accounts_emission hwilling app port (.inl ⟨app, port, hself⟩)
  | event e => exact accounts_heardAll hwilling hechoes (.inl hself) life.page.listeners
  | change kind change =>
      exact accounts_changing hwilling hechoes kind change fun old next e heffect =>
        ⟨⟨change, old, e, hself, heffect⟩, .inr ⟨kind, change, old, next, hself, heffect⟩⟩
  | timer => exact accounts_nextTimer hwilling hself hechoes
  | stop =>
      have hkept : (life.play .stop).page.ledger = life.page.ledger := by
        obtain ⟨page, connection⟩ := life
        cases connection with
        | none => rfl
        | some c => exact keeps_ledger_stop c page
      rw [hkept]
      exact .refl _
  | drop =>
      have hkept : (life.play .drop).page.ledger = life.page.ledger := by
        obtain ⟨page, connection⟩ := life
        cases connection with
        | none => rfl
        | some c => exact keeps_ledger_drop c page
      rw [hkept]
      exact .refl _

theorem accounts_playAll (life : Life) (hwilling : life.page.wiring.Willing)
    (run : List Happening) :
    Accounts (Deed.Origin life.page.wiring (.ofRun run life.page.ledger)) life.page.ledger
      (life.deeds run) (life.playAll run).page.ledger := by
  induction run generalizing life with
  | nil => exact .refl _
  | cons h run ih =>
      have hfades := life.fades_play h
      have hfirst := life.accounts_play hwilling h
      have hrest := ih (life.play h) (hfades.willing hwilling)
      have hhead : [h] ⊆ h :: run := fun _ hmem => List.mem_singleton.mp hmem ▸ List.mem_cons_self
      refine (hfirst.mono fun d _ hd => ?_).append (hrest.mono fun d _ hd => ?_)
      · exact hd.within (.refl _) (within_ofRun hhead fun _ => id)
      · exact hd.within hfades (within_ofRun (List.subset_cons_self h run) hfirst.echoes)

end Life

/-! ## The deeds of a connection -/

def Deed.isOf (onWrite listener : Nat) : Deed → Bool
  | applied i .. => i == onWrite
  | forwarded i .. => i == listener
  | _ => false

namespace Life

theorem freed_deeds (life : Life) (hwilling : life.page.wiring.Willing) {onWrite listener : Nat}
    (hport : ∀ relay, life.page.wiring.portCallbacks[onWrite]? ≠ some ⟨relay, true⟩)
    (hwindow : ∀ reaction, life.page.wiring.windowCallbacks[listener]? ≠ some ⟨reaction, true⟩)
    (run : List Happening) : (life.deeds run).filter (Deed.isOf onWrite listener) = [] := by
  have haccounts := life.accounts_playAll hwilling run
  refine List.filter_eq_nil_iff.mpr fun d hd hof => ?_
  have horigin := haccounts.deed d hd
  cases d with
  | applied i relay message w =>
      have hi : i = onWrite := beq_iff_eq.mp hof
      exact hport relay (hi ▸ horigin.1)
  | forwarded i relay e =>
      have hi : i = listener := beq_iff_eq.mp hof
      exact hwindow (.forward relay) (hi ▸ horigin.1)
  | fired => contradiction
  | changed => contradiction

theorem deeds_until_end {life : Life} {c : Connection} {onWrite listener : Nat}
    (hc : life.connection = some c) (hholds : life.page.wiring.Holds c onWrite listener)
    (hwilling : life.page.wiring.Willing) (run : List Happening) :
    (life.deeds run).filter (Deed.isOf onWrite listener) =
      (life.deeds (run.takeWhile fun h => !h.ends)).filter (Deed.isOf onWrite listener) := by
  induction run generalizing life with
  | nil => rfl
  | cons h run ih =>
      cases hends : h.ends with
      | false =>
          obtain ⟨hconnection, hwiring⟩ := life.play_quiet hends
          have hrest := ih (hconnection.trans hc) (hwiring ▸ hholds) (hwiring ▸ hwilling)
          rw [List.takeWhile_cons_of_pos (by simp [hends]), deeds, deeds, List.filter_append,
            List.filter_append, hrest]
      | true =>
          have hwiring := (life.play_end hends).2
          rw [hc] at hwiring
          have hclosed : (life.play h).page.wiring = life.page.wiring.closing c := hwiring
          have hdeeds : life.deeds (h :: run) = (life.play h).deeds run := by
            rw [deeds, life.deedsOf_end hends, List.nil_append]
          rw [List.takeWhile_cons_of_neg (by simp [hends]), hdeeds]
          refine freed_deeds _ ((life.fades_play h).willing hwilling) ?_ ?_ run
          · intro relay
            simp [hclosed, hholds.portCallbacks_closing, hholds.portAlive]
          · intro reaction
            simp [hclosed, hholds.windowCallbacks_closing, hholds.windowAlive]

end Life

/-! ## What is registered -/

/-- The callback on its port.  A plain function keeps no callback. -/
def Connection.subscription (c : Connection) (onWrite app : Nat) (name : String) : List Nat :=
  if c.storePort.value.isPort ∧ app = c.storePort.app ∧ name = c.storePort.name then [onWrite]
  else []

/-- The registrations of a connection that was opened on the wiring `w`, and may have ended. -/
structure Registered (w : Wiring) (c : Connection) (ended : Bool) (next : Wiring) : Prop where
  subscribe : next.called .subscribe =
    w.called .subscribe + if c.storePort.value.isPort then 1 else 0
  unsubscribe : next.called .unsubscribe =
    w.called .unsubscribe + if c.storePort.value.isPort ∧ ended then 1 else 0
  addEventListener : next.called .addEventListener = w.called .addEventListener + 1
  removeEventListener : next.called .removeEventListener =
    w.called .removeEventListener + if ended then 1 else 0
  subscribers : ∀ app name, next.subscribers app name =
    let subscription := c.subscription w.portCallbacks.length app name
    if ended then (w.subscribers app name).filter fun i => i ∉ subscription
    else w.subscribers app name ++ subscription
  listeners : next.listeners =
    if ended then w.listeners.filter fun i => i ≠ w.windowCallbacks.length
    else w.listeners ++ [w.windowCallbacks.length]

theorem Opened.registered {w next : Wiring} {c : Connection} (h : Opened w c next) :
    Registered w c false next := by
  have hcalled (call : PageCall) : next.called call = w.called call +
      if call = .addEventListener ∨ call = .subscribe ∧ c.storePort.value.isPort then 1 else 0 := by
    rw [h.wiring]
    exact w.called_joined c.relay c.storePort true call
  refine ⟨?_, ?_, ?_, ?_, fun app name => ?_, ?_⟩
  · simp [hcalled]
  · simp [hcalled]
  · simp [hcalled]
  · simp [hcalled]
  · rw [h.wiring]
    exact w.subscribers_joined c.relay c.storePort true app name
  · rw [h.wiring]
    exact congrArg (· ++ _) (w.listeners_joined c.relay c.storePort true)

theorem subscribers_unsubscribed {w : Wiring} {c : Connection} (hport : c.storePort.value.isPort)
    (onWrite app : Nat) (name : String) :
    (w.unsubscribed c.storePort onWrite).subscribers app name =
      (w.subscribers app name).filter fun i => i ∉ c.subscription onWrite app name := by
  refine List.filter_congr fun i _ => ?_
  by_cases hsame : app = c.storePort.app ∧ name = c.storePort.name
  · simp [Connection.subscription, hport, hsame]
  · have hother : ¬(app = c.storePort.app ∧ name = c.storePort.name ∧ i = onWrite) :=
      fun h => hsame ⟨h.1, h.2.1⟩
    simp [Connection.subscription, hsame, hother]

theorem Opened.registered_closing {w next : Wiring} {c : Connection} (h : Opened w c next)
    (hunsubscribe : next.NeverThrows .unsubscribe)
    (hremoveListener : next.NeverThrows .removeEventListener) :
    Registered w c true (next.closing c) := by
  obtain ⟨config, hfits⟩ := h.fits
  have hopen := h.registered
  have hholds := h.holds
  have hasked := hholds.unsubscribing_closing hfits.subscribe
  have hrefuses : next.thrownBy .unsubscribe = none := hunsubscribe _
  have hkeeps : next.thrownBy .removeEventListener = none := hremoveListener _
  refine ⟨?_, ?_, ?_, ?_, fun app name => ?_, ?_⟩
  · rw [hholds.called_closing (by decide)]
    exact hopen.subscribe
  · rw [hasked.1, hopen.unsubscribe]
    simp
  · rw [hholds.called_closing (by decide)]
    exact hopen.addEventListener
  · rw [hholds.called_closing (by decide)]
    exact congrArg (· + 1) hopen.removeEventListener
  · rw [hasked.2]
    by_cases hport : c.storePort.value.isPort
    · rw [if_pos ⟨hport, hrefuses⟩, subscribers_unsubscribed hport, hopen.subscribers]
      simp [List.filter_append]
    · have hnone : c.subscription w.portCallbacks.length app name = [] :=
        if_neg fun hmine => hport hmine.1
      have hall : (w.subscribers app name).filter (fun i => i ∉ ([] : List Nat)) =
          w.subscribers app name := List.filter_eq_self.mpr fun _ _ => rfl
      rw [if_neg fun hasked => hport hasked.1, hopen.subscribers]
      simp only [hnone, hall, Bool.false_eq_true, if_false, if_true, List.append_nil]
  · rw [hholds.listeners_closing, hopen.listeners]
    simp [hkeeps]

section

variable {w : Wiring} {life : Life} {c : Connection} (h : Opened w c life.page.wiring)
  (hc : life.connection = some c) (run : List Happening)
include h hc

theorem Opened.registered_playAll (hunsubscribe : life.page.wiring.NeverThrows .unsubscribe)
    (hremoveListener : life.page.wiring.NeverThrows .removeEventListener) :
    Registered w c (run.any Happening.ends) (life.playAll run).page.wiring := by
  rcases Life.playAll_cases hc run with ⟨hends, _, hwiring⟩ | ⟨hends, _, hwiring⟩
  · rw [hends, hwiring]
    exact h.registered
  · rw [hends, hwiring]
    exact h.registered_closing hunsubscribe hremoveListener

theorem Opened.callbacks_playAll {left : Connection}
    (hleft : (life.playAll run).connection = some left) :
    left.onWrite = (if run.any Happening.ends then none else some w.portCallbacks.length) ∧
      left.listener =
        (if run.any Happening.ends then none else some w.windowCallbacks.length) := by
  rcases Life.playAll_cases hc run with ⟨hends, hconnection, _⟩ | ⟨hends, hover, _⟩
  · have hsame : left = c := Option.some.inj (hleft.symm.trans hconnection)
    rw [hends, hsame]
    exact ⟨h.onWrite, h.listener⟩
  · rw [hends, ← hover left hleft]
    exact ⟨rfl, rfl⟩

end

/-! ## The whole life -/

def Wiring.Obliging (w : Wiring) : Prop :=
  ∀ call ∈ [PageCall.subscribe, .unsubscribe, .send, .addEventListener, .removeEventListener,
    .setTimeout], w.NeverThrows call

theorem Accounts.queued {P : Deed → Prop} {l l' : Ledger} {deeds before after : List Deed}
    {i : Nat} {relay : Relay} {message : Value} {w : Write Value} (h : Accounts P l deeds l')
    (hdeeds : deeds = before ++ .applied i relay message w :: after) :
    (deeds.filterMap Deed.fired? ++ l'.timers)[l.timers.length +
        (before.flatMap Deed.sets).length]? =
      some (.notice relay.changePort (.committed w.key w.value)) := by
  rw [← h.timers, hdeeds, List.flatMap_append, List.flatMap_cons]
  rw [List.getElem?_append_right (Nat.le_add_right _ _), Nat.add_sub_cancel_left,
    List.getElem?_append_right (Nat.le_refl _), Nat.sub_self]
  rfl

/--
Over a whole life the callbacks of a connection are registered once, and from the first
stop or drop on they are taken off again, once and for good; both are held or none is.
The books account for everything in between.  Of the deeds in them, those of the two
callbacks were all done before that point, for messages and events that came before it.
Every write of the connection has its place in the order of the timers, and the timer
sends its acknowledgement when it fires, whether the connection is still there or not.
-/
theorem connection_lifetime {opening : Opening} {page opened : Page} {c : Connection}
    (hopened : opening.act.run.run page = (.ok c, opened)) (hobliging : page.wiring.Obliging)
    (run : List Happening) :
    let start : Life := ⟨opened, some c⟩
    let life := start.playAll run
    let ended := run.any Happening.ends
    let active := run.takeWhile fun h => !h.ends
    let onWrite := page.portCallbacks.length
    let listener := page.windowCallbacks.length
    let origin (run : List Happening) := Deed.Origin opened.wiring (.ofRun run opened.ledger)
    Registered page.wiring c ended life.page.wiring ∧
      (∀ left, life.connection = some left →
        left.onWrite = (if ended then none else some onWrite) ∧
          left.listener = (if ended then none else some listener)) ∧
      Accounts (origin run) opened.ledger (start.deeds run) life.page.ledger ∧
      (start.deeds run).filter (Deed.isOf onWrite listener) =
        (start.deeds active).filter (Deed.isOf onWrite listener) ∧
      (∀ d ∈ start.deeds active, origin active d) ∧
      ∀ before after relay message w,
        start.deeds run = before ++ .applied onWrite relay message w :: after →
          let acknowledgement := Timer.notice c.relay.changePort (.committed w.key w.value)
          ((start.deeds run).filterMap Deed.fired? ++ life.page.timers)[
              opened.timers.length + (before.flatMap Deed.sets).length]? = some acknowledgement ∧
            (c.relay.changePort.value.isPort → (Deed.fired acknowledgement).sends =
              [(c.relay.changePort.name, .array [.string w.key, w.value.getD .null])]) := by
  intro start life ended active onWrite listener origin
  have hopen : Opened page.wiring c opened.wiring := opened_ok hopened
  obtain ⟨config, hfits⟩ := hopen.fits
  have hholds : opened.wiring.Holds c onWrite listener := hopen.holds
  have hnever {call : PageCall} (hcall : call ∈ [PageCall.subscribe, .unsubscribe, .send,
      .addEventListener, .removeEventListener, .setTimeout]) : opened.wiring.NeverThrows call := by
    intro n
    rw [hopen.thrownAt]
    exact hobliging call hcall n
  have hwilling : opened.wiring.Willing := ⟨hnever (by decide), hnever (by decide)⟩
  have hstart : start.connection = some c := rfl
  have haccounts (run : List Happening) :
      Accounts (origin run) opened.ledger (start.deeds run) (start.playAll run).page.ledger :=
    start.accounts_playAll hwilling run
  refine ⟨hopen.registered_playAll hstart run (hnever (by decide)) (hnever (by decide)),
    fun left hleft => hopen.callbacks_playAll hstart run hleft, haccounts run,
    Life.deeds_until_end hstart hholds hwilling run, (haccounts active).deed, ?_⟩
  intro before after relay message w hdeeds
  have hmem : .applied onWrite relay message w ∈ start.deeds run := by simp [hdeeds]
  have halive := ((haccounts run).deed _ hmem).1
  have hrelay : c.relay = relay := by
    rw [hholds.portAlive] at halive
    cases halive
    rfl
  exact ⟨hrelay ▸ (haccounts run).queued hdeeds, fun hport => Port.notes_port hport hfits.send _⟩

def stoppedEarly : List Happening :=
  [.message 0 "storeCache" (.array [.string "k", .string "v"]), .stop, .timer, .drop]

theorem acknowledged_after_stop :
    attachFirst.act.run.run (soloPage []) = (.ok firstConnection, attachedTo (soloPage [])) ∧
      (soloPage []).wiring.Obliging ∧
      let life := (Life.mk (attachedTo (soloPage [])) (some firstConnection)).playAll stoppedEarly
      Registered (soloPage []).wiring firstConnection true life.page.wiring ∧
        life.page.ledger.sent = [("onStoreChange", .array [.string "k", .string "v"])] := by
  have hopened : attachFirst.act.run.run (soloPage []) =
      (.ok firstConnection, attachedTo (soloPage [])) := rfl
  have hobliging : (soloPage []).wiring.Obliging := fun _ _ _ => rfl
  exact ⟨hopened, hobliging, (connection_lifetime hopened hobliging stoppedEarly).1, rfl⟩

end TabRelay.Bridge
