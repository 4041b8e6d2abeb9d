import TabRelay.Proofs.Bridge.Accounts

/-!
# The law of outbound messages

What a connection makes of a message depends on the message alone, and on whether the
storage throws.  Either one entry changes and one timer is set, whose firing sends the
key with the very value that was written; or nothing changes and one error is shown.
The connection is as it was, and takes the next message.
-/

namespace TabRelay.Bridge

open TabRelay.Storage TabRelay.Web

/-- The connection is whole on the page, and timers can be set. -/
structure Connected (page : Page) (c : Connection) (onWrite listener : Nat) : Prop where
  holds : page.wiring.Holds c onWrite listener
  send : c.relay.changePort.value.property "send" = .ok .function
  timeouts : page.wiring.NeverThrows .setTimeout

/-- The text is what the key has in the area now, and one timer tells of the value. -/
structure Took (page : Page) (c : Connection) (key : String) (value : Option Value)
    (text : Option String) (next : Page) : Prop where
  entry : ∀ other, (next.ledger.contents c.relay.kind).get? other =
    if key = other then text else (page.ledger.contents c.relay.kind).get? other
  elsewhere : ∀ kind, kind ≠ c.relay.kind → next.entries kind = page.entries kind
  timer : next.timers = page.timers ++ [.notice c.relay.changePort (.committed key value)]
  sent : next.ledger.sent = page.ledger.sent
  console : next.ledger.console = page.ledger.console
  fires : ∀ later : Page, later.wiring.Willing → c.relay.changePort.value.isPort →
    (later.after (fire (.notice c.relay.changePort (.committed key value)))).ledger.sent =
      later.ledger.sent ++
        [(c.relay.changePort.name, .array [.string key, value.getD .null])]

/-- Nothing is done but to show an error of this name. -/
structure Refused (page : Page) (name : String) (next : Page) : Prop where
  entries : next.entries = page.entries
  timers : next.timers = page.timers
  sent : next.ledger.sent = page.ledger.sent
  console : ∃ message, next.ledger.console = page.ledger.console ++ [[.error name message]]

theorem sends_answered {page : Page} (h : page.wiring.Willing) (port : Port)
    (change : Change Value) :
    (page.after (notify port change)).ledger.sent =
      page.ledger.sent ++ port.notes (changeMessage change) := by
  let s : Sources := ⟨fun _ => True, fun _ => False, False, fun _ _ => False⟩
  have haccounts : Accounts (Deed.Origin page.wiring s) _ _ _ :=
    accounts_notify h (fun _ _ => trivial) port change
  have hnone : (page.answered port (changeMessage change)).flatMap Deed.sends = [] := by
    refine List.flatMap_eq_nil_iff.mpr fun d hd => ?_
    have horigin := haccounts.deed d hd
    cases d with
    | applied => rfl
    | forwarded => exact horigin.2.elim
    | fired => exact horigin.elim
    | changed => rfl
  rw [haccounts.sent, hnone, List.append_nil]
  rfl

theorem refused_of_complaint {page next : Page} {e : BridgeError}
    (h : next.ledger = page.ledger.complaining e) : Refused page e.name next where
  entries := congrArg Ledger.entries h
  timers := congrArg Ledger.timers h
  sent := by rw [h]; rfl
  console := ⟨e.message, congrArg Ledger.console h⟩

section

variable {page : Page} {c : Connection} {onWrite listener : Nat} {message : Value}

theorem Connected.after_callback (h : Connected page c onWrite listener) (message : Value) :
    page.after (callPortCallback message onWrite) = page.after (takeMessage c.relay message) := by
  have halive : page.portCallbacks[onWrite]? = some ⟨c.relay, true⟩ := h.holds.portAlive
  rw [after_callPortCallback, halive]

theorem Connected.took (h : Connected page c onWrite listener) {w : Write Value}
    (hasks : Asks message w) (haccepts : page.accepts w) {text : Option String}
    (htext : ∀ (entries : Entries) other, (entries.writing w).get? other =
      if w.key = other then text else entries.get? other) :
    Took page c w.key w.value text (page.after (callPortCallback message onWrite)) := by
  have hledger := ledger_of_accepted h.timeouts (parseWrite_ok_iff.mpr hasks) haccepts c.relay
  rw [← h.after_callback] at hledger
  refine ⟨fun other => ?_, fun kind hkind => ?_, congrArg Ledger.timers hledger,
    by rw [hledger]; rfl, by rw [hledger]; rfl, fun later hlater hport => ?_⟩
  · rw [hledger]
    change ((page.ledger.withEntries _ _).contents _).get? other = _
    rw [Ledger.contents_withEntries, if_pos rfl]
    exact htext _ other
  · have hentries := congrFun (congrArg Ledger.entries hledger) kind
    exact hentries.trans (if_neg (Ne.symm hkind))
  · refine (sends_answered hlater c.relay.changePort (.committed w.key w.value)).trans ?_
    rw [Port.notes_port hport h.send]
    rfl

theorem Connected.refused (h : Connected page c onWrite listener) {w : Write Value}
    (hasks : Asks message w) (hrefused : page.accepts w = false) :
    Refused page "WriteError" (page.after (callPortCallback message onWrite)) := by
  obtain ⟨e, hledger⟩ := ledger_of_refused (parseWrite_ok_iff.mpr hasks) hrefused c.relay
  rw [h.after_callback]
  exact refused_of_complaint hledger

theorem Connected.malformed (h : Connected page c onWrite listener)
    (hnone : ∀ w, ¬Asks message w) :
    Refused page "PortError" (page.after (callPortCallback message onWrite)) := by
  rw [h.after_callback]
  cases hparsed : parseWrite message with
  | ok w => exact absurd (parseWrite_ok_iff.mp hparsed) (hnone w)
  | error e =>
      rw [← name_of_malformed hparsed]
      exact refused_of_complaint (ledger_of_malformed hparsed c.relay page)

theorem Connected.kept (h : Connected page c onWrite listener) (message : Value) :
    Connected (page.after (callPortCallback message onWrite)) c onWrite listener := by
  have hkept := keeps_callPortCallback message onWrite page
  exact ⟨hkept ▸ h.holds, h.send, hkept ▸ h.timeouts⟩

theorem after_emit {app : Nat} {port : String} {before after : List Nat} {i : Nat}
    (h : page.subscribersOf app port = before ++ i :: after) (message : Value) :
    page.after (emit app port message) =
      (((page.emitting message).after (before.forM (callPortCallback message))).after
        (callPortCallback message i)).after (after.forM (callPortCallback message)) := by
  change (page.emitting message).after ((page.subscribersOf app port).forM
    (callPortCallback message)) = _
  rw [h, after_forM_append]
  rfl

end

theorem connected_while_open {opening : Opening} {page opened : Page} {c : Connection}
    (hopened : opening.act.run.run page = (.ok c, opened))
    (htimeouts : page.wiring.NeverThrows .setTimeout) {run : List Happening}
    (hquiet : run.any Happening.ends = false) :
    Connected ((Life.mk opened (some c)).playAll run).page c page.portCallbacks.length
      page.windowCallbacks.length := by
  have hopen := opened_while_quiet hopened hquiet
  obtain ⟨config, hfits⟩ := hopen.fits
  refine ⟨hopen.holds, hfits.send, fun n => ?_⟩
  rw [hopen.thrownAt]
  exact htimeouts n

/--
What a connection does with any message that comes on its store port.  A key without a
value, or with null or undefined, removes the entry; any other value that has a text is
stored; and a timer is set that sends the key with the same value.  Every other message,
and a storage call that throws, changes nothing and shows one error.
-/
theorem outbound_law {page : Page} {c : Connection} {onWrite listener : Nat}
    (h : Connected page c onWrite listener) (message : Value) :
    let next := page.after (callPortCallback message onWrite)
    Connected next c onWrite listener ∧
      (∀ key, Asks message (.remove key) → page.thrownBy .removeItem = none →
        Took page c key none none next) ∧
      (∀ key value text, Asks message (.store key value) → page.thrownBy .setItem = none →
        value.stringify = .ok (some text) → Took page c key (some value) (some text) next) ∧
      (∀ key, Asks message (.remove key) → page.thrownBy .removeItem ≠ none →
        Refused page "WriteError" next) ∧
      (∀ key value, Asks message (.store key value) →
        page.thrownBy .setItem ≠ none ∨ (∀ text, value.stringify ≠ .ok (some text)) →
          Refused page "WriteError" next) ∧
      ((∀ w, ¬Asks message w) → Refused page "PortError" next) ∧
      ∀ before after,
        page.subscribersOf c.storePort.app c.storePort.name = before ++ onWrite :: after →
          let reached := (page.emitting message).after (before.forM (callPortCallback message))
          Connected reached c onWrite listener ∧
            page.after (emit c.storePort.app c.storePort.name message) =
              (reached.after (callPortCallback message onWrite)).after
                (after.forM (callPortCallback message)) := by
  refine ⟨h.kept message, fun key hasks hcall => ?_, fun key value text hasks hcall htext => ?_,
    fun key hasks hcall => ?_, fun key value hasks hfails => ?_, h.malformed,
    fun before after hsubscribers => ⟨?_, after_emit hsubscribers message⟩⟩
  · have haccepts : page.accepts (.remove key) := by
      rw [Page.accepts, Write.remove, hcall]
      rfl
    exact h.took hasks haccepts fun entries other => Entries.get?_remove key other entries
  · have hstored : Storable.stored value = .ok text := stored_ok_iff.mpr htext
    have haccepts : page.accepts (.store key value) := by
      simp [Page.accepts, Write.store, hstored, hcall]
    refine h.took hasks haccepts fun entries other => ?_
    simp only [Entries.writing, Write.store, hstored]
    exact Entries.get?_set key text other entries
  · refine h.refused hasks ?_
    simpa [Page.accepts, Write.remove, Option.isSome_iff_ne_none] using hcall
  · refine h.refused hasks ?_
    simp only [Page.accepts, Write.store]
    cases hstored : Storable.stored value with
    | error reason => rfl
    | ok text =>
        have hcall : page.thrownBy .setItem ≠ none :=
          hfails.resolve_right fun hnone => hnone text (stored_ok_iff.mp hstored)
        simpa [Option.isSome_iff_ne_none] using hcall
  · have hkept : ((page.emitting message).after (before.forM (callPortCallback message))).wiring =
        page.wiring := Keeps.forM (keeps_callPortCallback message) before _
    exact ⟨hkept ▸ h.holds, h.send, hkept ▸ h.timeouts⟩

theorem null_removes :
    let page := attachedTo (soloPage [])
    let next := page.after (callPortCallback (.array [.string "k", .null]) 0)
    Connected page firstConnection 0 0 ∧ Connected next firstConnection 0 0 ∧
      Took page firstConnection "k" none none next := by
  have hopened : attachFirst.act.run.run (soloPage []) =
      (.ok firstConnection, attachedTo (soloPage [])) := rfl
  have hquiet : [].any Happening.ends = false := rfl
  have hconnected : Connected (attachedTo (soloPage [])) firstConnection 0 0 :=
    connected_while_open hopened (fun _ => rfl) hquiet
  have hlaw := outbound_law hconnected (.array [.string "k", .null])
  exact ⟨hconnected, hlaw.1, hlaw.2.1 "k" (.removalOf (.inr rfl)) rfl⟩

end TabRelay.Bridge
