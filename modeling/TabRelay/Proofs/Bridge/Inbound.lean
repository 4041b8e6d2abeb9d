import TabRelay.Proofs.Bridge.Accounts

/-!
# The law of inbound events

An event is compared with the object that the window gives for the area when it is
asked, and asking may fail.  What a connection makes of an event depends on the page of
that moment alone: it sends one message, or shows one error because the port threw, or
does nothing.  It is as it was, and hears the next event.
-/

namespace TabRelay.Bridge

open TabRelay.Storage TabRelay.Web

/-! ## The object that the window gives -/

namespace Page

/-- Asked for the area, the window gives the object that the event is about. -/
def Gives (page : Page) (source : EventSource) (kind : AreaKind) : Prop :=
  source = .area kind ∧ page.thrownBy (getterOf kind) = none ∧ (page.entries kind).isSome

instance (page : Page) (source : EventSource) (kind : AreaKind) :
    Decidable (page.Gives source kind) :=
  inferInstanceAs (Decidable (_ ∧ _ ∧ _))

theorem not_gives_nothing (page : Page) (kind : AreaKind) : ¬page.Gives .nothing kind := by
  intro h
  cases h.1

theorem Gives.unique {page : Page} {source : EventSource} {kind other : AreaKind}
    (h : page.Gives source kind) (hother : page.Gives source other) : kind = other := by
  have hsame := h.1.symm.trans hother.1
  cases hsame
  rfl

theorem scheduleOf_calling (page : Page) {call other : PageCall} (h : call ≠ other) :
    (page.calling call).scheduleOf other = page.scheduleOf other := by
  rw [calling, scheduleOf_setSchedule, if_neg h]

theorem gives_calling (page : Page) (source : EventSource) :
    (page.calling (getterOf .localArea)).Gives source .sessionArea ↔
      page.Gives source .sessionArea := by
  have hschedule := page.scheduleOf_calling
    (show getterOf .localArea ≠ getterOf .sessionArea by decide)
  unfold Gives thrownBy
  rw [hschedule]
  rfl

end Page

theorem run_hasArea (kind : AreaKind) (page : Page) :
    (hasArea kind).run.run page = match page.thrownBy (getterOf kind) with
      | none => (.ok (page.entries kind).isSome, page.calling (getterOf kind))
      | some thrown => (.error thrown, page.calling (getterOf kind)) := by
  rw [hasArea, run_bind, run_attempt]
  cases page.thrownBy (getterOf kind) with
  | none => cases kind <;> rfl
  | some thrown => rfl

theorem run_isArea (source : EventSource) (kind : AreaKind) (page : Page) :
    (isArea source kind).run page =
      (decide (page.Gives source kind), page.calling (getterOf kind)) := by
  have hrun := run_hasArea kind page
  cases hthrown : page.thrownBy (getterOf kind) with
  | some thrown =>
      have hgives : ¬page.Gives source kind := fun h => by cases hthrown.symm.trans h.2.1
      rw [hthrown] at hrun
      rw [isArea, run_bind_of_run hrun, decide_eq_false hgives]
      rfl
  | none =>
      have hgives : page.Gives source kind ↔ source = .area kind ∧ (page.entries kind).isSome := by
        simp [Page.Gives, hthrown]
      rw [hthrown] at hrun
      rw [isArea, run_bind_of_run hrun]
      simp only [hgives]
      cases (page.entries kind).isSome with
      | false =>
          simp only [Bool.false_eq_true, and_false, decide_false]
          rfl
      | true =>
          simp only [and_true]
          rfl

/-- The local area comes first, but at most one of the two is the source. -/
theorem result_areaOf {page : Page} {source : EventSource} {kind : AreaKind} :
    page.result (areaOf source) = some kind ↔ page.Gives source kind := by
  by_cases hnothing : source = .nothing
  · subst hnothing
    constructor
    · intro hresult
      cases hresult
    · intro hgives
      exact absurd hgives (page.not_gives_nothing kind)
  · have hasked : page.result (areaOf source) =
        if page.Gives source .localArea then some .localArea
        else if page.Gives source .sessionArea then some .sessionArea else none := by
      unfold Page.result areaOf
      rw [if_neg hnothing, run_bind_of_run (run_isArea source .localArea page)]
      by_cases hlocal : page.Gives source .localArea
      · simp only [hlocal, decide_true, if_true]
        rfl
      · simp only [hlocal, decide_false, Bool.false_eq_true, if_false]
        rw [run_bind_of_run (run_isArea source .sessionArea _)]
        simp only [page.gives_calling]
        by_cases hsession : page.Gives source .sessionArea
        · simp only [hsession, decide_true, if_true]
          rfl
        · simp only [hsession, decide_false, Bool.false_eq_true, if_false]
          rfl
    rw [hasked]
    by_cases hlocal : page.Gives source .localArea
    · rw [if_pos hlocal]
      constructor
      · intro h
        cases h
        exact hlocal
      · intro h
        exact congrArg some (hlocal.unique h)
    · rw [if_neg hlocal]
      cases kind <;> simp [hlocal]

/-! ## Telling an application, or failing to -/

/-- What the port was told, and how often it was tried. -/
def Page.outbox (page : Page) : Schedule × List (String × Value) :=
  (page.scheduleOf .send, page.ledger.sent)

theorem keeps_outbox_attempt {call : PageCall} (hcall : call ≠ .send) :
    Keeps Page.outbox (attempt call).run := by
  refine .of_calling fun page => ?_
  unfold Page.outbox
  rw [page.scheduleOf_calling hcall]
  rfl

theorem outbox_apart_from_writes : ApartFromWrites Page.outbox where
  attempt _ hsend := keeps_outbox_attempt hsend
  record {entry} hentry page := by
    cases entry with
    | sent port message same => exact absurd rfl (hentry port message same)
    | _ => rfl
  setEntries _ kind _ := by cases kind <;> rfl
  timers _ _ := rfl
  emitted _ _ := rfl
  echo _ _ _ := rfl

def Page.failing (page : Page) (e : BridgeError) : Page :=
  ((page.calling .send).recorded
    (.mark (.note .error "failed to deliver storage change" [("err", e.message)]))).recorded
      (.console [e.toValue])

theorem ledger_failing (page : Page) (e : BridgeError) :
    (page.failing e).ledger = page.ledger.complaining e := by
  have hconsole : (page.failing e).ledger.console = page.ledger.console ++ [[e.toValue]] :=
    List.reverse_cons
  rw [Ledger.complaining, ← hconsole]
  rfl

theorem after_notify {port : Port} (hport : port.value.isPort)
    (hsend : port.value.property "send" = .ok .function) (change : Change Value) (page : Page) :
    page.after (notify port change) = match page.thrownBy .send with
      | none => (page.sending port (changeMessage change)).after (echo port.app)
      | some thrown => page.failing (.port port.name thrown) := by
  have hrun := run_sendToPort port (changeMessage change) page
  simp only [hsend, hport, if_true] at hrun
  cases hthrown : page.thrownBy .send with
  | none =>
      rw [hthrown] at hrun
      rw [notify, after_bind_of_run hrun]
      rfl
  | some thrown =>
      rw [hthrown] at hrun
      rw [notify, after_bind_of_run hrun]
      rfl

/-! ## One event -/

def WindowEvent.note (e : WindowEvent) : Value := .array [.ofText? e.key, .ofText? e.newText]

/-- What comes of an event that reaches the listener of a connection. -/
inductive Heard (page : Page) (relay : Relay) (e : WindowEvent) (next : Page) : Prop where
  | passed (hother : ¬page.Gives e.source relay.kind) (hledger : next.ledger = page.ledger)
      (hcalled : next.called .send = page.called .send)
  | told (told : Page) (hown : page.Gives e.source relay.kind)
      (hthrown : page.thrownBy .send = none)
      (htold : told.ledger = page.ledger.sending [(relay.changePort.name, e.note)])
      (hwiring : told.wiring = page.wiring)
      (hledger : next.ledger = (told.after (echo relay.changePort.app)).ledger)
      (hsent : next.ledger.sent = page.ledger.sent ++ [(relay.changePort.name, e.note)])
      (hcalled : next.called .send = page.called .send + 1)
  | refused (thrown : Value) (hown : page.Gives e.source relay.kind)
      (hthrown : page.thrownBy .send = some thrown)
      (hledger : next.ledger = page.ledger.complaining (.port relay.changePort.name thrown))
      (hcalled : next.called .send = page.called .send + 1)

theorem Page.scheduleOf_receiving (page : Page) (e : WindowEvent) :
    (page.receiving e).scheduleOf .send = page.scheduleOf .send := by
  have hkept (kind : AreaKind) : Keeps Page.outbox (attempt (getterOf kind)).run := by
    apply keeps_outbox_attempt
    cases kind <;> decide
  exact congrArg Prod.fst (Keeps.areaOf hkept e.source page)

theorem Page.called_answered (page : Page) (port : Port) (message : Value) :
    ((page.sending port message).after (echo port.app)).called .send = page.called .send + 1 := by
  have hkept := outbox_apart_from_writes.keeps_echo port.app (page.sending port message)
  have hschedule := congrArg (fun outbox => outbox.1.made) hkept
  refine hschedule.trans ?_
  exact page.called_calling .send .send

theorem Page.sent_answered (page : Page) (port : Port) (message : Value) :
    ((page.sending port message).after (echo port.app)).ledger.sent =
      page.ledger.sent ++ [(port.name, message)] := by
  have hkept := outbox_apart_from_writes.keeps_echo port.app (page.sending port message)
  refine (congrArg Prod.snd hkept).trans ?_
  exact congrArg Ledger.sent (page.ledger_sending port message)

theorem Heard.recorded {page next : Page} {relay : Relay} {e : WindowEvent}
    (h : Heard page relay e next) (m : Mark) : Heard page relay e (next.recorded (.mark m)) := by
  have hledger : (next.recorded (.mark m)).ledger = next.ledger := rfl
  have hcalled : (next.recorded (.mark m)).called .send = next.called .send := rfl
  cases h with
  | passed hother hsame hcount =>
      exact .passed hother (hledger.trans hsame) (hcalled.trans hcount)
  | told told hown hthrown htold hwiring hnext hsent hcount =>
      exact .told told hown hthrown htold hwiring (hledger.trans hnext)
        ((congrArg Ledger.sent hledger).trans hsent) (hcalled.trans hcount)
  | refused thrown hown hthrown hnext hcount =>
      exact .refused thrown hown hthrown (hledger.trans hnext) (hcalled.trans hcount)

theorem heard_of_own {page asked : Page} {relay : Relay} {e : WindowEvent}
    (hown : page.Gives e.source relay.kind) (hledger : asked.ledger = page.ledger)
    (hwiring : asked.wiring = page.wiring)
    (hschedule : asked.scheduleOf .send = page.scheduleOf .send)
    (hport : relay.changePort.value.isPort)
    (hsend : relay.changePort.value.property "send" = .ok .function) :
    Heard page relay e (asked.after (notify relay.changePort (.external e.key e.newText))) := by
  have hthrowing : asked.thrownBy .send = page.thrownBy .send :=
    congrArg Schedule.thrown hschedule
  have hcalled : asked.called .send = page.called .send := congrArg Schedule.made hschedule
  rw [after_notify hport hsend, hthrowing]
  cases hthrown : page.thrownBy .send with
  | none =>
      have hsent := asked.sent_answered relay.changePort e.note
      have hcount := asked.called_answered relay.changePort e.note
      have htold := asked.ledger_sending relay.changePort e.note
      rw [hledger] at hsent htold
      rw [hcalled] at hcount
      exact .told _ hown hthrown htold ((asked.wiring_sending _ _).trans hwiring) rfl hsent hcount
  | some thrown =>
      have hfailing := ledger_failing asked (.port relay.changePort.name thrown)
      have hcount := asked.called_calling .send .send
      rw [hledger] at hfailing
      rw [hcalled] at hcount
      exact .refused thrown hown hthrown hfailing hcount

theorem heard_of_alive {page : Page} {i : Nat} {relay : Relay}
    (halive : page.windowCallbacks[i]? = some ⟨.forward relay, true⟩)
    (hport : relay.changePort.value.isPort)
    (hsend : relay.changePort.value.property "send" = .ok .function) (e : WindowEvent) :
    Heard page relay e (page.after (callWindowCallback e i)) := by
  have hledger := page.ledger_receiving e
  have hschedule := page.scheduleOf_receiving e
  rw [after_callWindowCallback, halive]
  dsimp only
  rw [after_receive]
  apply Heard.recorded
  by_cases hown : page.Gives e.source relay.kind
  · rw [if_pos (result_areaOf.mpr hown)]
    apply Heard.recorded
    exact heard_of_own hown hledger (page.wiring_receiving e) hschedule hport hsend
  · rw [if_neg fun hsame => hown (result_areaOf.mp hsame)]
    exact .passed hown hledger (congrArg Schedule.made hschedule)

/-! ## A listener of the window -/

/-- Whoever listens on the window is a callback that was made. -/
def Wiring.Made (w : Wiring) : Prop := ∀ i ∈ w.listeners, i < w.windowCallbacks.length

theorem Wiring.Made.closing {w : Wiring} (h : w.Made) (c : Connection) : (w.closing c).Made := by
  obtain ⟨app, relay, store, onWrite, listener⟩ := c
  have hunplugging (w : Wiring) (h : w.Made) :
      (w.closing ⟨app, relay, store, onWrite, none⟩).Made := by
    cases onWrite with
    | none => exact h
    | some onWrite =>
        intro i hi
        simp only [Wiring.closing, Wiring.freeingPortCallback, Wiring.listeners_unsubscribing,
          Wiring.windowCallbacks_unsubscribing] at hi ⊢
        exact h i hi
  cases listener with
  | none => exact hunplugging w h
  | some listener =>
      apply hunplugging ((w.unlistening listener).freeingWindowCallback listener)
      intro i hi
      have hlistener : i ∈ w.listeners := by
        simp only [Wiring.freeingWindowCallback, Wiring.listeners_unlistening] at hi
        split at hi
        · exact hi
        · exact (List.mem_filter.mp hi).1
      simpa [Wiring.freeingWindowCallback] using h i hlistener

theorem opening_made {opening : Opening} {page last : Page}
    {result : Except BridgeError Connection} (h : page.wiring.Made)
    (hopened : opening.act.run.run page = (result, last)) : last.wiring.Made := by
  obtain ⟨app, config, hends⟩ := opening_ends hopened
  generalize last.wiring = next at hends
  cases hends with
  | missing => exact h
  | refused => exact h
  | deaf =>
      intro i hi
      have hmade := h i (by simpa using hi)
      simp only [Wiring.windowCallbacks_joined, List.length_append, List.length_singleton]
      omega
  | connected =>
      intro i hi
      have hcases : i ∈ page.wiring.listeners ∨ i = page.wiring.windowCallbacks.length := by
        simpa [Wiring.listening] using hi
      simp only [Wiring.listening, Wiring.windowCallbacks_joined, List.length_append,
        List.length_singleton]
      rcases hcases with hold | rfl
      · have hmade := h i hold
        omega
      · omega

theorem playAll_made {page : Page} (h : page.wiring.Made) (c : Connection)
    (run : List Happening) : ((Life.mk page (some c)).playAll run).page.wiring.Made := by
  have hstart : (Life.mk page (some c)).connection = some c := rfl
  rcases Life.playAll_cases hstart run with ⟨_, _, hwiring⟩ | ⟨_, _, hwiring⟩
  · rw [hwiring]
    exact h
  · rw [hwiring]
    exact h.closing c

/-- The pages to which openings, whatever comes of them, and connections lead from one on
which no one listens. -/
inductive Page.Reached : Page → Prop where
  | fresh {page : Page} (h : page.listeners = []) : Reached page
  | opened {opening : Opening} {page last : Page} {result : Except BridgeError Connection}
      (h : Reached page) (hopened : opening.act.run.run page = (result, last)) : Reached last
  | lived {page : Page} (h : Reached page) (c : Connection) (run : List Happening) :
      Reached ((Life.mk page (some c)).playAll run).page

theorem Page.Reached.made {page : Page} (h : page.Reached) : page.wiring.Made := by
  induction h with
  | @fresh page h =>
      intro i hi
      have hnone : page.wiring.listeners = [] := h
      rw [hnone] at hi
      contradiction
  | opened h hopened ih => exact opening_made ih hopened
  | lived h c run ih => exact playAll_made ih c run

/-- The connection is whole, its listener hears each event once, and it tells a port of
the page. -/
structure Listening (page : Page) (c : Connection) (onWrite listener : Nat) : Prop where
  holds : page.wiring.Holds c onWrite listener
  once : page.listeners.count listener = 1
  port : c.relay.changePort.value.isPort
  send : c.relay.changePort.value.property "send" = .ok .function

theorem after_raise {page : Page} {before after : List Nat} {i : Nat}
    (h : page.listeners = before ++ i :: after) (e : WindowEvent) :
    page.after (raise e) =
      ((page.after (before.forM (callWindowCallback e))).after (callWindowCallback e i)).after
        (after.forM (callWindowCallback e)) := by
  change page.after (page.listeners.forM (callWindowCallback e)) = _
  rw [h, after_forM_append]
  rfl

namespace Listening

variable {page next : Page} {c : Connection} {onWrite listener : Nat}

theorem of_wiring (h : Listening page c onWrite listener) (hwiring : next.wiring = page.wiring) :
    Listening next c onWrite listener where
  holds := hwiring ▸ h.holds
  once := (congrArg (fun w => w.listeners.count listener) hwiring).trans h.once
  port := h.port
  send := h.send

theorem listeners_split (h : Listening page c onWrite listener) :
    ∃ before after, page.listeners = before ++ listener :: after ∧
      listener ∉ before ∧ listener ∉ after := by
  obtain ⟨before, after, hsplit⟩ := List.append_of_mem h.holds.listening
  have hcount := h.once
  change page.listeners = _ at hsplit
  rw [hsplit, List.count_append, List.count_cons_self] at hcount
  refine ⟨before, after, hsplit, ?_, ?_⟩
  · apply List.count_eq_zero.mp
    omega
  · apply List.count_eq_zero.mp
    omega

theorem heard (h : Listening page c onWrite listener) (e : WindowEvent) :
    Heard page c.relay e (page.after (callWindowCallback e listener)) :=
  heard_of_alive h.holds.windowAlive h.port h.send e

end Listening

theorem listening_while_open {opening : Opening} {page opened : Page} {c : Connection}
    (hopened : opening.act.run.run page = (.ok c, opened))
    (hmade : page.wiring.Made)
    (hport : c.relay.changePort.value.isPort) {run : List Happening}
    (hquiet : run.any Happening.ends = false) :
    Listening ((Life.mk opened (some c)).playAll run).page c page.portCallbacks.length
      page.windowCallbacks.length := by
  have hopen := opened_while_quiet hopened hquiet
  obtain ⟨config, hfits⟩ := hopen.fits
  have hlisteners : ((Life.mk opened (some c)).playAll run).page.listeners =
      page.listeners ++ [page.windowCallbacks.length] := by
    refine (congrArg Wiring.listeners hopen.wiring).trans ?_
    simp [Wiring.listening, Page.wiring]
  refine ⟨hopen.holds, ?_, hport, hfits.send⟩
  have hfresh : page.windowCallbacks.length ∉ page.listeners := by
    intro hmem
    exact Nat.lt_irrefl _ (hmade _ hmem)
  rw [hlisteners, List.count_append, List.count_eq_zero.mpr hfresh]
  simp

/-! ## Moments -/

/-- A storage event, what the areas hold when it is raised, and what the calls throw then.
An area without entries is not there. -/
structure Moment where
  event : WindowEvent
  localEntries : Option Entries := some []
  sessionEntries : Option Entries := some []
  schedules : List (PageCall × Schedule) := []

namespace Page

def during (page : Page) (m : Moment) : Page :=
  { page with
    localEntries := m.localEntries
    sessionEntries := m.sessionEntries
    schedules := m.schedules }

def hear (page : Page) (m : Moment) : Page := (page.during m).after (raise m.event)

def hearAll (page : Page) (moments : List Moment) : Page := moments.foldl hear page

theorem hearAll_concat (page : Page) (moments : List Moment) (m : Moment) :
    page.hearAll (moments ++ [m]) = (page.hearAll moments).hear m :=
  List.foldl_append

theorem listeners_hear (page : Page) (m : Moment) : (page.hear m).listeners = page.listeners :=
  congrArg Wiring.listeners (keeps_raise m.event (page.during m))

end Page

section

variable {page : Page} {c : Connection} {onWrite listener : Nat}

theorem Listening.during (h : Listening page c onWrite listener) (m : Moment) :
    Listening (page.during m) c onWrite listener where
  holds := ⟨h.holds.port, h.holds.window, h.holds.portAlive, h.holds.windowAlive,
    h.holds.subscribed, h.holds.listening⟩
  once := h.once
  port := h.port
  send := h.send

theorem Listening.hear (h : Listening page c onWrite listener) (m : Moment) :
    Listening (page.hear m) c onWrite listener :=
  (h.during m).of_wiring (keeps_raise m.event _)

theorem Listening.hearAll (h : Listening page c onWrite listener) (moments : List Moment) :
    Listening (page.hearAll moments) c onWrite listener := by
  induction moments generalizing page with
  | nil => exact h
  | cons m moments ih => exact ih (h.hear m)

/-! ## The only listener of an application that does not answer -/

def Ledger.Silent (ledger : Ledger) (app : Nat) : Prop := ledger.echoes[app]?.getD [] = []

theorem after_echo_silent {app : Nat} (h : page.ledger.Silent app) :
    page.after (echo app) = page := by
  have hechoes : page.apps[app]?.map (·.echo) = page.ledger.echoes[app]? :=
    List.getElem?_map.symm
  rw [after_echo, hechoes]
  unfold Ledger.Silent at h
  cases hecho : page.ledger.echoes[app]? with
  | none => rfl
  | some messages =>
      rw [hecho] at h
      cases messages with
      | nil => rfl
      | cons message rest => contradiction

namespace Page

/-- What an event has a port told, on the page that it comes to. -/
def tells (page : Page) (relay : Relay) (e : WindowEvent) : List (String × Value) :=
  if page.Gives e.source relay.kind ∧ page.thrownBy .send = none then
    [(relay.changePort.name, e.note)]
  else []

def complains (page : Page) (relay : Relay) (e : WindowEvent) : List (List Value) :=
  if page.Gives e.source relay.kind then
    (page.thrownBy .send).toList.map fun thrown =>
      [(BridgeError.port relay.changePort.name thrown).toValue]
  else []

end Page

def Ledger.telling (ledger : Ledger) (notes : List (String × Value)) (lines : List (List Value)) :
    Ledger :=
  { ledger with sent := ledger.sent ++ notes, console := ledger.console ++ lines }

theorem Heard.ledger_silent {next : Page} {relay : Relay} {e : WindowEvent}
    (h : Heard page relay e next) (hsilent : page.ledger.Silent relay.changePort.app) :
    next.ledger = page.ledger.telling (page.tells relay e) (page.complains relay e) := by
  unfold Page.tells Page.complains Ledger.telling
  cases h with
  | passed hother hledger hcalled =>
      rw [hledger, if_neg hother, if_neg fun hboth => hother hboth.1]
      simp
  | told told hown hthrown htold hwiring hledger hsent hcalled =>
      have hquiet : told.ledger.Silent relay.changePort.app := by
        rw [htold]
        exact hsilent
      rw [hledger, after_echo_silent hquiet, htold, if_pos hown, if_pos ⟨hown, hthrown⟩, hthrown]
      simp [Ledger.sending]
  | refused thrown hown hthrown hledger hcalled =>
      rw [hledger, if_pos hown, hthrown]
      simp [Ledger.complaining]

end

/-- The events of the moments are told and complained about in their order, and nothing
else is done. -/
structure Relayed (page : Page) (relay : Relay) (moments : List Moment) (next : Page) : Prop where
  sent : next.ledger.sent =
    page.ledger.sent ++ moments.flatMap fun m => (page.during m).tells relay m.event
  console : next.ledger.console =
    page.ledger.console ++ moments.flatMap fun m => (page.during m).complains relay m.event
  timers : next.timers = page.timers
  echoes : next.ledger.echoes = page.ledger.echoes
  entries : next.entries = (moments.getLast?.elim page page.during).entries

theorem Relayed.cons {page heard next : Page} {relay : Relay} {m : Moment} {moments : List Moment}
    (hledger : heard.ledger = (page.during m).ledger.telling
      ((page.during m).tells relay m.event) ((page.during m).complains relay m.event))
    (h : Relayed heard relay moments next) : Relayed page relay (m :: moments) next := by
  have htells : ∀ m', (heard.during m').tells relay m'.event =
      (page.during m').tells relay m'.event := fun _ => rfl
  have hcomplains : ∀ m', (heard.during m').complains relay m'.event =
      (page.during m').complains relay m'.event := fun _ => rfl
  constructor
  · rw [h.sent, hledger, List.flatMap_cons, ← List.append_assoc]
    simp only [htells]
    rfl
  · rw [h.console, hledger, List.flatMap_cons, ← List.append_assoc]
    simp only [hcomplains]
    rfl
  · exact h.timers.trans (congrArg Ledger.timers hledger)
  · rw [h.echoes, hledger]
    rfl
  · rw [h.entries]
    cases moments with
    | nil => exact congrArg Ledger.entries hledger
    | cons m' rest =>
        rw [List.getLast?_cons_cons]
        cases hlast : (m' :: rest).getLast? with
        | none => cases List.getLast?_eq_none_iff.mp hlast
        | some last => rfl

theorem Listening.relayed {page : Page} {c : Connection} {onWrite listener : Nat}
    (h : Listening page c onWrite listener) (hsole : page.listeners = [listener])
    (hsilent : page.ledger.Silent c.relay.changePort.app) (moments : List Moment) :
    Relayed page c.relay moments (page.hearAll moments) := by
  induction moments generalizing page with
  | nil => exact ⟨by simp [Page.hearAll], by simp [Page.hearAll], rfl, rfl, rfl⟩
  | cons m moments ih =>
      have hraise : page.hear m = (page.during m).after (callWindowCallback m.event listener) :=
        after_raise (show (page.during m).listeners = [] ++ listener :: [] from hsole) m.event
      have hledger := ((h.during m).heard m.event).ledger_silent hsilent
      rw [← hraise] at hledger
      have hquiet : (page.hear m).ledger.Silent c.relay.changePort.app := by
        rw [hledger]
        exact hsilent
      exact .cons hledger (ih (h.hear m) ((page.listeners_hear m).trans hsole) hquiet)

/--
A connection hears every storage event, one by one, until it is stopped or dropped.  An event
that is about the object which the window then gives for the connection's area is sent to the
change port once, and at once.  When the port throws, one error is shown instead.  Any other
event does nothing.  The connection is whole after that, and what is told of the next event
depends on the page of its moment alone.
-/
theorem inbound_law {opening : Opening} {page opened : Page} {c : Connection}
    (hopened : opening.act.run.run page = (.ok c, opened))
    (hmade : page.wiring.Made)
    (hport : c.relay.changePort.value.isPort) {run : List Happening}
    (hquiet : run.any Happening.ends = false) (moments : List Moment) :
    let start := ((Life.mk opened (some c)).playAll run).page
    let next := start.hearAll moments
    let listener := page.windowCallbacks.length
    Listening next c page.portCallbacks.length listener ∧
      (∀ m, ∃ before after,
        next.listeners = before ++ listener :: after ∧ listener ∉ before ∧ listener ∉ after ∧
          let reached := (next.during m).after (before.forM (callWindowCallback m.event))
          let heard := reached.after (callWindowCallback m.event listener)
          Heard reached c.relay m.event heard ∧
            start.hearAll (moments ++ [m]) =
              heard.after (after.forM (callWindowCallback m.event))) ∧
      (start.listeners = [listener] → start.ledger.Silent c.relay.changePort.app →
        Relayed start c.relay moments next) := by
  have hstart := listening_while_open hopened hmade hport hquiet
  have hnext := hstart.hearAll moments
  refine ⟨hnext, fun m => ?_, fun hsole hsilent => hstart.relayed hsole hsilent moments⟩
  obtain ⟨before, after, hsplit, hbefore, hafter⟩ := (hnext.during m).listeners_split
  refine ⟨before, after, hsplit, hbefore, hafter, ?_, ?_⟩
  · have hreached : Keeps Page.wiring (before.forM (callWindowCallback m.event)) :=
      .forM (keeps_callWindowCallback m.event) before
    exact ((hnext.during m).of_wiring (hreached _)).heard m.event
  · rw [Page.hearAll_concat]
    exact after_raise hsplit m.event

/-- The session's area throws, the port throws, the object is not the window's, the local area
is not there, and at last it is cleared. -/
def soloMoments : List Moment :=
  [{ event := ⟨some "a", none, some "1", .area .localArea⟩
     schedules := [(.sessionStorage, .throwing .null none)] },
   { event := ⟨some "b", some "1", some "2", .area .localArea⟩
     schedules := [(.send, .throwing (.string "full") none)] },
   { event := ⟨some "c", none, some "3", .other⟩ },
   { event := ⟨some "d", some "4", none, .area .localArea⟩
     localEntries := none },
   { event := ⟨none, none, none, .area .localArea⟩ }]

theorem solo_events_are_told :
    let next := (attachedTo (soloPage [])).hearAll soloMoments
    Listening next firstConnection 0 0 ∧
      next.ledger.sent = [("onStoreChange", .array [.string "a", .string "1"]),
        ("onStoreChange", .array [.null, .null])] ∧
      next.ledger.console =
        [[.error "PortError" "Port \"onStoreChange\" rejected the call: JsValue(\"full\")"]] := by
  have hopened : attachFirst.act.run.run (soloPage []) =
      (.ok firstConnection, attachedTo (soloPage [])) := rfl
  have hmade : (soloPage []).wiring.Made := (Page.Reached.fresh rfl).made
  have hquiet : [].any Happening.ends = false := rfl
  obtain ⟨hlistening, -, hrelayed⟩ := inbound_law hopened hmade rfl hquiet soloMoments
  have htold := hrelayed rfl rfl
  exact ⟨hlistening, htold.sent.trans rfl, htold.console.trans rfl⟩

end TabRelay.Bridge
