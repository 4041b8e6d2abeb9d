import TabRelay.Proofs.Bridge.Closing
import TabRelay.Proofs.Bridge.Taking

/-!
# The books of a page

What callbacks, timers and other tabs do in a page is written down as a list of deeds, in
the order in which it happens.  The deeds account for everything: the entries of an area
are the old ones with the writes applied to them, the timers that were set fire in order,
and what is sent to a port is what the deeds send.
-/

namespace TabRelay.Bridge

open TabRelay.Storage TabRelay.Web

/-! ## Deeds -/

inductive Deed where
  | applied (callback : Nat) (relay : Relay) (message : Value) (w : Write Value)
  | forwarded (listener : Nat) (relay : Relay) (event : WindowEvent)
  | fired (timer : Timer)
  | changed (kind : AreaKind) (entries : Entries)

def Port.notes (port : Port) (message : Value) : List (String × Value) :=
  match port.value.property "send" with
  | .ok .function => if port.value.isPort then [(port.name, message)] else []
  | _ => []

theorem Port.notes_port {port : Port} (hport : port.value.isPort)
    (hsend : port.value.property "send" = .ok .function) (message : Value) :
    port.notes message = [(port.name, message)] := by
  simp only [notes, hsend, hport, if_true]

namespace Deed

def writes (kind : AreaKind) (entries : Entries) : Deed → Entries
  | applied _ relay _ w => if relay.kind = kind then entries.writing w else entries
  | changed other es => if other = kind then es else entries
  | _ => entries

def sets : Deed → List Timer
  | applied _ relay _ w => [.notice relay.changePort (.committed w.key w.value)]
  | _ => []

def fired? : Deed → Option Timer
  | fired timer => some timer
  | _ => none

def sends : Deed → List (String × Value)
  | forwarded _ relay event =>
      relay.changePort.notes (changeMessage (.external event.key event.newText))
  | fired (.notice port change) => port.notes (changeMessage change)
  | _ => []

end Deed

/-- The deeds, each of which is as `P` has it, account for the step from one ledger to the other. -/
structure Accounts (P : Deed → Prop) (ledger : Ledger) (deeds : List Deed) (next : Ledger) :
    Prop where
  deed : ∀ d ∈ deeds, P d
  contents : ∀ kind, next.contents kind = deeds.foldl (Deed.writes kind) (ledger.contents kind)
  timers : ledger.timers ++ deeds.flatMap Deed.sets = deeds.filterMap Deed.fired? ++ next.timers
  sent : next.sent = ledger.sent ++ deeds.flatMap Deed.sends
  echoes : ∀ message ∈ next.echoes.flatten, message ∈ ledger.echoes.flatten

namespace Accounts

variable {P Q : Deed → Prop} {l l' l'' : Ledger} {deeds deeds' : List Deed}

theorem nil (hcontents : ∀ kind, l'.contents kind = l.contents kind) (htimers : l'.timers = l.timers)
    (hsent : l'.sent = l.sent) (hechoes : l'.echoes = l.echoes) : Accounts P l [] l' where
  deed := nofun
  contents := hcontents
  timers := by simp [htimers]
  sent := by simp [hsent]
  echoes := by simp [hechoes]

theorem refl (l : Ledger) : Accounts P l [] l := nil (fun _ => rfl) rfl rfl rfl

theorem append (h : Accounts P l deeds l') (h' : Accounts P l' deeds' l'') :
    Accounts P l (deeds ++ deeds') l'' where
  deed d hd := (List.mem_append.mp hd).elim (h.deed d) (h'.deed d)
  contents kind := by rw [h'.contents, h.contents, List.foldl_append]
  timers := by
    rw [List.flatMap_append, ← List.append_assoc, h.timers, List.append_assoc, h'.timers,
      List.filterMap_append, List.append_assoc]
  sent := by rw [h'.sent, h.sent, List.flatMap_append, List.append_assoc]
  echoes message hmessage := h.echoes message (h'.echoes message hmessage)

theorem mono (h : Accounts P l deeds l') (hPQ : ∀ d ∈ deeds, P d → Q d) : Accounts Q l deeds l' :=
  { h with deed := fun d hd => hPQ d hd (h.deed d hd) }

end Accounts

/-! ## Taking messages -/

/-- Messages and timers go well, as far as the page is asked for them. -/
structure Wiring.Willing (w : Wiring) : Prop where
  setTimeout : w.NeverThrows .setTimeout
  send : w.NeverThrows .send

namespace Page

def taken (page : Page) (message : Value) (i : Nat) : List Deed :=
  match page.portCallbacks[i]? with
  | some ⟨relay, true⟩ =>
      match parseWrite message with
      | .ok w => if page.accepts w then [.applied i relay message w] else []
      | .error _ => []
  | _ => []

def takenAll (page : Page) (message : Value) : List Nat → List Deed
  | [] => []
  | i :: rest =>
      page.taken message i ++ (page.after (callPortCallback message i)).takenAll message rest

def emitting (page : Page) (message : Value) : Page :=
  { page with emitted := emit.emittedValues message ++ page.emitted }

def emission (page : Page) (app : Nat) (port : String) (message : Value) : List Deed :=
  (page.emitting message).takenAll message (page.subscribersOf app port)

def echoed (page : Page) (app : Nat) : List Deed :=
  match page.apps[app]?.map (·.echo) with
  | some (message :: rest) =>
      (page.modifyApp app fun a => { a with echo := rest }).emission app "storeCache" message
  | _ => []

end Page

structure Sources where
  messages : Value → Prop
  events : WindowEvent → Prop
  timers : Prop
  changes : AreaKind → Entries → Prop

/-- The deed comes from one of the sources, through a callback that is alive. -/
def Deed.Origin (w : Wiring) (s : Sources) : Deed → Prop
  | applied i relay message write =>
      w.portCallbacks[i]? = some ⟨relay, true⟩ ∧ Asks message write ∧ s.messages message
  | forwarded i relay e => w.windowCallbacks[i]? = some ⟨.forward relay, true⟩ ∧ s.events e
  | fired _ => s.timers
  | changed kind entries => s.changes kind entries

section

variable {page : Page} {s : Sources}

theorem accounts_taken (h : page.wiring.Willing) {message : Value} (hmessage : s.messages message)
    (i : Nat) :
    Accounts (Deed.Origin page.wiring s) page.ledger (page.taken message i)
      (page.after (callPortCallback message i)).ledger := by
  rw [after_callPortCallback, Page.taken]
  match halive : page.portCallbacks[i]? with
  | none => exact .refl _
  | some ⟨_, false⟩ => exact .refl _
  | some ⟨relay, true⟩ =>
      dsimp only
      cases hparsed : parseWrite message with
      | error e =>
          rw [ledger_of_malformed hparsed]
          exact .nil (fun _ => rfl) rfl rfl rfl
      | ok w =>
          dsimp only
          cases haccepts : page.accepts w with
          | false =>
              obtain ⟨e, hledger⟩ := ledger_of_refused hparsed haccepts relay
              rw [hledger]
              exact .nil (fun _ => rfl) rfl rfl rfl
          | true =>
              rw [ledger_of_accepted h.setTimeout hparsed haccepts]
              refine ⟨?_, fun kind => ?_, rfl, (List.append_nil _).symm, fun _ => id⟩
              · rintro _ (_ | _)
                · exact ⟨halive, parseWrite_ok_iff.mp hparsed, hmessage⟩
                · contradiction
              · refine (page.ledger.contents_withEntries relay.kind kind _).trans ?_
                by_cases hkind : relay.kind = kind
                · rw [if_pos hkind, ← hkind]
                  exact (if_pos rfl).symm
                · rw [if_neg hkind]
                  exact (if_neg hkind).symm

theorem accounts_takenAll (h : page.wiring.Willing) {message : Value}
    (hmessage : s.messages message) (callbacks : List Nat) :
    Accounts (Deed.Origin page.wiring s) page.ledger
      (page.takenAll message callbacks)
      (page.after (callbacks.forM (callPortCallback message))).ledger := by
  induction callbacks generalizing page with
  | nil => exact .refl _
  | cons i rest ih =>
      have hkept := keeps_callPortCallback message i page
      have hrest := ih (hkept ▸ h)
      rw [hkept] at hrest
      exact (accounts_taken h hmessage i).append hrest

theorem accounts_emission (h : page.wiring.Willing) (app : Nat) (port : String)
    {message : Value} (hmessage : s.messages message) :
    Accounts (Deed.Origin page.wiring s) page.ledger
      (page.emission app port message) (page.after (emit app port message)).ledger := by
  have hemitting : (page.emitting message).wiring.Willing := h
  exact accounts_takenAll hemitting hmessage (page.subscribersOf app port)

theorem echoes_modifyApp {app : Nat} (h : app < page.apps.length)
    (rest : List Value) : (page.modifyApp app fun a => { a with echo := rest }).ledger.echoes =
      page.ledger.echoes.set app rest := by
  refine List.ext_getElem? fun other => ?_
  simp only [Page.ledger, Page.modifyApp, List.getElem?_map, List.getElem?_modify,
    List.getElem?_set, List.length_map]
  by_cases hother : app = other
  · simp [hother, hother ▸ h]
  · simp [hother]

theorem accounts_reacting {P : Deed → Prop} {app : Nat} {message : Value} {rest : List Value}
    (hechoes : page.ledger.echoes[app]? = some (message :: rest)) :
    Accounts P page.ledger [] (page.modifyApp app fun a => { a with echo := rest }).ledger where
  deed := nofun
  contents _ := rfl
  timers := List.append_nil _
  sent := (List.append_nil _).symm
  echoes other hother := by
    have hlength : app < page.apps.length := by
      obtain ⟨h, _⟩ := List.getElem?_eq_some_iff.mp hechoes
      simpa [Page.ledger] using h
    rw [echoes_modifyApp hlength] at hother
    obtain ⟨messages, hmessages, hmem⟩ := List.mem_flatten.mp hother
    rcases List.mem_or_eq_of_mem_set hmessages with hmessages | rfl
    · exact List.mem_flatten_of_mem hmessages hmem
    · exact List.mem_flatten_of_mem (List.mem_of_getElem? hechoes) (List.mem_cons_of_mem _ hmem)

theorem accounts_echoed (h : page.wiring.Willing)
    (hechoes : ∀ message ∈ page.ledger.echoes.flatten, s.messages message) (app : Nat) :
    Accounts (Deed.Origin page.wiring s) page.ledger (page.echoed app)
      (page.after (echo app)).ledger := by
  unfold Page.echoed
  rw [after_echo]
  cases happ : page.apps[app]?.map (·.echo) with
  | none => exact .refl _
  | some reactions =>
      cases reactions with
      | nil => exact .refl _
      | cons message rest =>
          have hledger : page.ledger.echoes[app]? = some (message :: rest) :=
            List.getElem?_map.trans happ
          have hmessage : s.messages message := hechoes message
            (List.mem_flatten_of_mem (List.mem_of_getElem? hledger) List.mem_cons_self)
          have hwiring := page.wiring_modifyApp app (fun a => { a with echo := rest }) fun _ => rfl
          have hemission : Accounts (Deed.Origin _ s) _ _ _ :=
            accounts_emission (hwiring ▸ h) app "storeCache" hmessage
          rw [hwiring] at hemission
          exact (accounts_reacting hledger).append hemission

end

/-! ## Telling an application -/

def Ledger.sending (ledger : Ledger) (notes : List (String × Value)) : Ledger :=
  { ledger with sent := ledger.sent ++ notes }

namespace Page

def sending (page : Page) (port : Port) (message : Value) : Page :=
  (page.calling .send).recorded
    (.sent port.name message (sameObject? (page.calling .send) message))

def answered (page : Page) (port : Port) (message : Value) : List Deed :=
  match port.value.property "send" with
  | .ok .function => if port.value.isPort then (page.sending port message).echoed port.app else []
  | _ => []

theorem ledger_sending (page : Page) (port : Port) (message : Value) :
    (page.sending port message).ledger = page.ledger.sending [(port.name, message)] := by
  have hsent : (page.sending port message).ledger.sent =
      page.ledger.sent ++ [(port.name, message)] := List.reverse_cons
  rw [Ledger.sending, ← hsent]
  rfl

theorem wiring_sending (page : Page) (port : Port) (message : Value) :
    (page.sending port message).wiring = page.wiring :=
  page.wiring_calling rfl

end Page

section

variable {page : Page} {s : Sources}

theorem run_sendToPort (port : Port) (message : Value) (page : Page) :
    (sendToPort port message).run.run page = match port.value.property "send" with
      | .error thrown => (.error thrown, page)
      | .ok .function =>
          if port.value.isPort then
            match page.thrownBy .send with
            | none => (.ok (), (page.sending port message).after (echo port.app))
            | some thrown => (.error thrown, page.calling .send)
          else (.ok (), page)
      | .ok _ => (.error Value.typeError, page) := by
  simp only [sendToPort, callPort, PortMethod.name]
  cases port.value.property "send" with
  | error thrown => rfl
  | ok method =>
      cases method
      case function =>
        by_cases hport : port.value.isPort
        · simp only [hport, if_true, run_bind, run_attempt]
          cases page.thrownBy .send <;> rfl
        · simp only [hport]
          rfl
      all_goals rfl

theorem accounts_notify (h : page.wiring.Willing)
    (hechoes : ∀ message ∈ page.ledger.echoes.flatten, s.messages message) (port : Port)
    (change : Change Value) :
    Accounts (Deed.Origin page.wiring s)
      (page.ledger.sending (port.notes (changeMessage change)))
      (page.answered port (changeMessage change)) (page.after (notify port change)).ledger := by
  have hrun := run_sendToPort port (changeMessage change) page
  rw [h.send.thrownBy] at hrun
  unfold Port.notes Page.answered
  rw [notify]
  cases hmethod : port.value.property "send" with
  | error thrown =>
      rw [hmethod] at hrun
      rw [after_bind_of_run hrun]
      exact .nil (fun _ => rfl) rfl (List.append_nil _).symm rfl
  | ok method =>
      rw [hmethod] at hrun
      cases method
      case function =>
        by_cases hport : port.value.isPort
        · simp only [hport, if_true] at hrun ⊢
          have hsending := page.ledger_sending port (changeMessage change)
          have hwilling := (page.wiring_sending port (changeMessage change)).symm ▸ h
          have hechoed : Accounts (Deed.Origin _ s) _ _ _ :=
            accounts_echoed hwilling hechoes port.app
          rw [page.wiring_sending, hsending] at hechoed
          rw [after_bind_of_run hrun]
          exact hechoed
        · simp only [hport] at hrun ⊢
          rw [after_bind_of_run hrun]
          exact .nil (fun _ => rfl) rfl (List.append_nil _).symm rfl
      all_goals
        rw [after_bind_of_run hrun]
        exact .nil (fun _ => rfl) rfl (List.append_nil _).symm rfl

end

/-! ## Events of the window -/

theorem keeps_ledger_attempt (call : PageCall) : Keeps Page.ledger (attempt call).run :=
  .of_calling fun _ => rfl

namespace Page

def receiving (page : Page) (e : WindowEvent) : Page :=
  (page.after (areaOf e.source)).recorded (.mark (.enterReceive e.key))

def heard (page : Page) (e : WindowEvent) (i : Nat) : List Deed :=
  match page.windowCallbacks[i]? with
  | some ⟨.forward relay, true⟩ =>
      if page.result (areaOf e.source) = some relay.kind then
        .forwarded i relay e :: (page.receiving e).answered relay.changePort
          (changeMessage (.external e.key e.newText))
      else []
  | _ => []

def heardAll (page : Page) (e : WindowEvent) : List Nat → List Deed
  | [] => []
  | i :: rest => page.heard e i ++ (page.after (callWindowCallback e i)).heardAll e rest

theorem ledger_receiving (page : Page) (e : WindowEvent) :
    (page.receiving e).ledger = page.ledger :=
  Keeps.areaOf (fun _ => keeps_ledger_attempt _) e.source page

theorem wiring_receiving (page : Page) (e : WindowEvent) :
    (page.receiving e).wiring = page.wiring :=
  Keeps.areaOf keeps_getter e.source page

end Page

section

variable {page : Page} {s : Sources}

theorem accounts_forwarded {P : Deed → Prop} {i : Nat} {relay : Relay} {e : WindowEvent}
    (l : Ledger) (h : P (.forwarded i relay e)) : Accounts P l [.forwarded i relay e]
      (l.sending (relay.changePort.notes (changeMessage (.external e.key e.newText)))) where
  deed _ hd := List.mem_singleton.mp hd ▸ h
  contents _ := rfl
  timers := List.append_nil _
  sent := congrArg (l.sent ++ ·) (List.append_nil _).symm
  echoes _ := id

theorem after_receive (relay : Relay) (event : Event) (page : Page) :
    page.after (receive relay event) =
      let entered := page.recorded (.mark (.enterReceive event.key))
      (if event.area = some relay.kind then
        (entered.after (notify relay.changePort (.external event.key event.newText))).recorded
          (.mark .forwarded)
      else
        entered.recorded (.mark (.otherArea relay.kind.name
          (AreaKind.shownOption event.area)))).recorded (.mark .exitReceive) := by
  by_cases harea : event.area = some relay.kind
  · simp only [receive, harea, if_true]
    rfl
  · simp only [receive, harea, if_false]
    rfl

theorem ledger_receive (relay : Relay) (event : Event) (page : Page) :
    (page.after (receive relay event)).ledger =
      if event.area = some relay.kind then
        ((page.recorded (.mark (.enterReceive event.key))).after
          (notify relay.changePort (.external event.key event.newText))).ledger
      else page.ledger := by
  rw [after_receive]
  by_cases harea : event.area = some relay.kind
  · simp only [harea, if_true]
    rfl
  · simp only [harea, if_false]
    rfl

theorem after_callWindowCallback (e : WindowEvent) (i : Nat) (page : Page) :
    page.after (callWindowCallback e i) = match page.windowCallbacks[i]? with
      | some ⟨reaction, true⟩ =>
          let event : Event := ⟨e.key, e.oldText, e.newText, page.result (areaOf e.source)⟩
          match reaction with
          | .forward relay => (page.after (areaOf e.source)).after (receive relay event)
          | .note id => (page.after (areaOf e.source)).recorded (.heard id event)
      | _ => page.recorded (.uncaught Value.closureError) := by
  rw [callWindowCallback, after_get]
  rcases page.windowCallbacks[i]? with _ | ⟨_ | _, _ | _⟩ <;> rfl

theorem ledger_callWindowCallback {i : Nat} {relay : Relay}
    (halive : page.windowCallbacks[i]? = some ⟨.forward relay, true⟩) (e : WindowEvent) :
    (page.after (callWindowCallback e i)).ledger =
      if page.result (areaOf e.source) = some relay.kind then
        ((page.receiving e).after
          (notify relay.changePort (.external e.key e.newText))).ledger
      else (page.after (areaOf e.source)).ledger := by
  rw [after_callWindowCallback, halive]
  exact ledger_receive relay _ _

theorem ledger_callWindowCallback_other {i : Nat}
    (hother : ∀ relay, page.windowCallbacks[i]? ≠ some ⟨.forward relay, true⟩) (e : WindowEvent) :
    (page.after (callWindowCallback e i)).ledger = page.ledger := by
  rw [after_callWindowCallback]
  split
  · rename_i reaction halive
    cases reaction with
    | forward relay => exact absurd halive (hother relay)
    | note id => exact page.ledger_receiving e
  · rfl

theorem accounts_heard (h : page.wiring.Willing)
    (hechoes : ∀ message ∈ page.ledger.echoes.flatten, s.messages message) {e : WindowEvent}
    (hevent : s.events e) (i : Nat) :
    Accounts (Deed.Origin page.wiring s) page.ledger (page.heard e i)
      (page.after (callWindowCallback e i)).ledger := by
  unfold Page.heard
  split
  · rename_i relay halive
    have hwiring := page.wiring_receiving e
    have hledger := page.ledger_receiving e
    rw [ledger_callWindowCallback halive]
    split
    · have hanswered : Accounts (Deed.Origin _ s) _ _ _ :=
        accounts_notify (hwiring.symm ▸ h) (hledger.symm ▸ hechoes) relay.changePort
          (.external e.key e.newText)
      rw [hwiring, hledger] at hanswered
      exact (accounts_forwarded page.ledger ⟨halive, hevent⟩).append hanswered
    · have hasked : (page.after (areaOf e.source)).ledger = page.ledger := hledger
      rw [hasked]
      exact .refl _
  · rename_i hother
    rw [ledger_callWindowCallback_other hother]
    exact .refl _

theorem accounts_heardAll (h : page.wiring.Willing)
    (hechoes : ∀ message ∈ page.ledger.echoes.flatten, s.messages message) {e : WindowEvent}
    (hevent : s.events e) (listeners : List Nat) :
    Accounts (Deed.Origin page.wiring s) page.ledger (page.heardAll e listeners)
      (page.after (listeners.forM (callWindowCallback e))).ledger := by
  induction listeners generalizing page with
  | nil => exact .refl _
  | cons i rest ih =>
      have hkept := keeps_callWindowCallback e i page
      have hfirst := accounts_heard h hechoes hevent i
      have hrest := ih (hkept ▸ h) fun message hmessage =>
        hechoes message (hfirst.echoes message hmessage)
      rw [hkept] at hrest
      exact hfirst.append hrest

/-! ## Timers and other tabs -/

def Page.fires (page : Page) (timer : Timer) : List Deed :=
  .fired timer :: match timer with
    | .notice port change => page.answered port (changeMessage change)
    | .task _ => []

def Page.nextTimer (page : Page) : List Deed :=
  match page.timers with
  | [] => []
  | timer :: rest => { page with timers := rest }.fires timer

def Page.changing (page : Page) (kind : AreaKind) (change : TabChange) : List Deed :=
  match (page.entries kind).bind (change.effect kind) with
  | none => []
  | some (entries, e) =>
      let next := page.setEntries kind entries
      .changed kind entries :: next.heardAll e next.listeners

theorem accounts_fired {P : Deed → Prop} {l : Ledger} {timer : Timer} {rest : List Timer}
    (h : P (.fired timer)) (htimers : l.timers = timer :: rest) :
    Accounts P l [.fired timer] ({ l with timers := rest }.sending (Deed.fired timer).sends) where
  deed _ hd := List.mem_singleton.mp hd ▸ h
  contents _ := rfl
  timers := by rw [htimers]; exact List.append_nil _
  sent := congrArg (l.sent ++ ·) (List.append_nil _).symm
  echoes _ := id

theorem accounts_nextTimer (h : page.wiring.Willing) (hturn : s.timers)
    (hechoes : ∀ message ∈ page.ledger.echoes.flatten, s.messages message) :
    Accounts (Deed.Origin page.wiring s) page.ledger page.nextTimer
      (page.after (fireTimers 1)).ledger := by
  rw [after_fireTimers_one]
  unfold Page.nextTimer
  cases htimers : page.timers with
  | nil => exact .refl _
  | cons timer rest =>
      let firing : Page := { page with timers := rest }
      have hfired : Accounts (Deed.Origin page.wiring s) page.ledger
          [.fired timer] (firing.ledger.sending (Deed.fired timer).sends) :=
        accounts_fired hturn htimers
      cases timer with
      | notice port change =>
          have hwilling : firing.wiring.Willing := h
          exact hfired.append (accounts_notify hwilling hechoes port change)
      | task name =>
          refine hfired.append (.nil (fun _ => rfl) rfl ?_ rfl)
          exact (List.append_nil _).symm

theorem accounts_changing (h : page.wiring.Willing)
    (hechoes : ∀ message ∈ page.ledger.echoes.flatten, s.messages message) (kind : AreaKind)
    (change : TabChange)
    (hevents : ∀ entries next e, change.effect kind entries = some (next, e) →
      s.changes kind next ∧ s.events e) :
    Accounts (Deed.Origin page.wiring s) page.ledger (page.changing kind change)
      (page.after (changeArea kind change)).ledger := by
  rw [changeArea, after_get, Page.changing]
  cases hchange : (page.entries kind).bind (change.effect kind) with
  | none => exact .refl _
  | some effect =>
      obtain ⟨entries, e⟩ := effect
      obtain ⟨old, _, heffect⟩ := Option.bind_eq_some_iff.mp hchange
      have hwiring := wiring_setEntries page kind entries
      have hledger := page.ledger_setEntries kind entries
      have hchanged : Accounts (Deed.Origin page.wiring s) page.ledger
          [.changed kind entries] (page.setEntries kind entries).ledger := by
        rw [hledger]
        refine ⟨?_, fun other => page.ledger.contents_withEntries kind other entries,
          List.append_nil _, (List.append_nil _).symm, fun _ => id⟩
        rintro _ (_ | _)
        · exact (hevents old entries e heffect).1
        · contradiction
      have hheard : Accounts (Deed.Origin (page.setEntries kind entries).wiring s) _ _ _ :=
        accounts_heardAll (hwiring.symm ▸ h)
          (fun message hmessage => hechoes message (hchanged.echoes message hmessage))
          (hevents old entries e heffect).2 (page.setEntries kind entries).listeners
      rw [hwiring] at hheard
      exact hchanged.append hheard

end

end TabRelay.Bridge
