import TabRelay.Proofs.Session.Loans

/-!
# Each step of the machine has one of the effects

One lemma for each function that a step is made of says which effect it has, unless it
needs a cell that is held; `becomes_of_not_meets` puts them together.  In an orderly
machine no cell is held where one is needed.
-/

namespace TabRelay.Session

open TabRelay.Decoding TabRelay.Storage

variable {V : Type}

@[simp] theorem Script.next_name (script : Script V) : script.next.2.name = script.name := by
  unfold Script.next
  split <;> rfl

theorem Frame.isFreeing_of_isDisposing {frame : Frame V} (h : frame.isDisposing) :
    frame.isFreeing := by
  cases frame <;> first | rfl | contradiction

namespace Machine

theorem whenFree_of_free {m : Machine V} {cell : Cell} (h : m.isHeld cell = false)
    (next : Machine V) : m.whenFree cell next = next := by
  simp [whenFree, h]

theorem whenFree_of_unheld {m : Machine V} (h : m.Unheld) (cell : Cell) (next : Machine V) :
    m.whenFree cell next = next :=
  whenFree_of_free (h cell) next

theorem Unheld.push {m : Machine V} (h : m.Unheld) {frame : Frame V}
    (hframe : ¬ frame.isDisposing) : (m.push frame).Unheld := by
  intro cell
  cases frame <;> first | exact h cell | simp [Frame.isDisposing] at hframe

theorem Unheld.of_stack {m m' : Machine V} (h : m.Unheld) (hstack : m'.stack = m.stack) :
    m'.Unheld := by
  intro cell
  simpa [isHeld, hstack] using h cell

theorem tell_tells {m : Machine V} {listener : Listener} (hclear : ¬m.Meets (telling listener))
    (change : Change V) :
    ∃ frames, Tells m.system change listener (m.tell listener change).system frames ∧
      (m.tell listener change).stack = frames ++ m.stack ∧
      (m.tell listener change).control = .done .ok ∧
      (m.tell listener change).warnings = m.warnings := by
  cases listener with
  | log log =>
      have hfree : m.isHeld (.log log) = false := by simpa [telling] using hclear
      simp only [tell, recordChange, whenFree_of_free hfree]
      exact ⟨[], .toLog log, rfl, rfl, rfl⟩
  | none => exact ⟨[], .toNone, rfl, rfl, rfl⟩
  | script i =>
      cases hscript : m.system.scripts[i]? with
      | none =>
          simp only [tell, hscript]
          exact ⟨[], .toNoScript i, rfl, rfl, rfl⟩
      | some script =>
          simp only [tell, hscript]
          refine ⟨_, .toScript hscript, ?_, rfl, rfl⟩
          simp [runScript, answer, push, record, update]

theorem receive_receives {m : Machine V} {relay : Relay} {event : Event}
    (hclear : ¬m.Meets (m.receiving relay event)) :
    ∃ frames a, Receives m.system relay event (m.receive relay event).system frames a ∧
      (m.receive relay event).stack = frames ++ m.stack ∧
      (m.receive relay event).control = .done a ∧
      (m.receive relay event).warnings = m.warnings := by
  rw [receiving, meets_append, not_or, meets_briefly] at hclear
  obtain ⟨hfree, hclear⟩ := hclear
  simp only [receive, whenFree_of_free (Bool.eq_false_iff.mpr hfree)]
  split
  · rename_i harea
    rw [if_pos harea] at hclear
    let waiting := (m.mark (.enterReceive event.key)).push .forwarding
    have hwaiting : ¬waiting.Meets (telling relay.listener) := hclear
    obtain ⟨frames, htells, hstack, hcontrol, hwarnings⟩ :=
      tell_tells hwaiting (.external event.key event.newText)
    refine ⟨frames ++ [.forwarding], .ok, .forwards harea htells, ?_, hcontrol, hwarnings⟩
    rw [hstack, List.append_assoc]
    rfl
  · rename_i harea
    exact ⟨[], .bool false, .ignores harea, rfl, rfl, rfl⟩

theorem react_reacts {m : Machine V} {i : Nat} {event : Event}
    (hclear : ¬m.Meets (m.reacting event i)) :
    ∃ frames a, Reacts m.system i event (m.react i event).system frames a ∧
      (m.react i event).stack = frames ++ m.stack ∧
      (m.react i event).control = .done a ∧ (m.react i event).warnings = m.warnings := by
  cases hhandler : m.system.handlers[i]? with
  | none =>
      simp only [react, hhandler]
      exact ⟨[], .ok, .missing hhandler, rfl, rfl, rfl⟩
  | some handler =>
      cases hreaction : handler.reaction with
      | script script own =>
          simp only [react, hhandler, hreaction]
          refine ⟨_, .ok, .script hhandler hreaction, ?_, rfl, rfl⟩
          simp [runScript, answer, push, record, update]
      | forward relay =>
          simp only [react, hhandler, hreaction]
          simp only [reacting, hhandler, hreaction, meets_call] at hclear
          obtain ⟨frames, a, hreceives, h⟩ := receive_receives hclear
          exact ⟨frames, a, .forward hhandler hreaction hreceives, h⟩

theorem drain_drains {m : Machine V} {queue : Nat} (hclear : ¬m.Meets (m.draining queue))
    (started : Nat) :
    ∃ frames a, Drains m.system queue started (m.drain queue started).system frames a ∧
      (m.drain queue started).stack = frames ++ m.stack ∧
      (m.drain queue started).control = .done a ∧
      (m.drain queue started).warnings = m.warnings := by
  rw [draining, meets_append, not_or, meets_briefly] at hclear
  obtain ⟨hfree, hclear⟩ := hclear
  simp only [drain, whenFree_of_free (Bool.eq_false_iff.mpr hfree)]
  cases hqueue : m.system.queue queue with
  | nil => exact ⟨[], .count started, .done hqueue, rfl, rfl, rfl⟩
  | cons task tasks =>
      cases task with
      | notice listener change =>
          let waiting := (m.update (m.system.setQueue queue tasks)).push
            (.drain queue (started + 1))
          rw [hqueue] at hclear
          have hwaiting : ¬waiting.Meets (telling listener) := by
            rwa [meets_call] at hclear
          obtain ⟨frames, htells, hstack, hcontrol, hwarnings⟩ := tell_tells hwaiting change
          refine ⟨frames ++ [.drain queue (started + 1)], .ok, .notice hqueue htells, ?_,
            hcontrol, hwarnings⟩
          rw [List.append_assoc]
          exact hstack
      | script name steps => exact ⟨_, .ok, .script hqueue, rfl, rfl, rfl⟩

/-! ## Beginning a step -/

variable [Storable V]

theorem becomes_of_begins {m m' : Machine V} {step : Step V} {pushed : List (Frame V)}
    {a : Answer V} (hrun : m.control = .run step) (hbegins : Begins m step m'.system pushed a)
    (hstack : m'.stack = pushed ++ m.stack) (hcontrol : m'.control = .done a)
    (hwarnings : m'.warnings = m.warnings) : m.Becomes m' := by
  refine ⟨pushed, [], ?_, ?_, hwarnings⟩
  · rw [hcontrol]
    exact .begins hrun hbegins
  · rw [below_of_run hrun]
    exact hstack

theorem answers_becomes {m : Machine V} {step : Step V} (hrun : m.control = .run step)
    (a : Answer V) : m.Becomes (m.answer a) :=
  becomes_of_begins hrun (.answers step a) rfl rfl rfl

theorem withNamed_becomes {α : Type} {m : Machine V} {step : Step V}
    (hrun : m.control = .run step) {names : Keyed α} {id : String} {next : α → Machine V}
    (h : ∀ a, Keyed.lookup? id names = some a → m.Becomes (next a)) :
    m.Becomes (m.withNamed names id next) := by
  unfold withNamed
  split
  · exact answers_becomes hrun _
  · rename_i a ha
    exact h a ha

theorem withDecoded_becomes {α : Type} {m : Machine V} {step : Step V}
    (hrun : m.control = .run step) {decoded : Decoded α} {next : α → Machine V}
    (h : ∀ a, decoded = .ok a → m.Becomes (next a)) :
    m.Becomes (m.withDecoded decoded next) := by
  unfold withDecoded
  split
  · exact answers_becomes hrun _
  · exact h _ rfl

omit [Storable V] in
theorem nameStorage_eq (m : Machine V) (id : String) (h : Handle) :
    m.nameStorage id h =
      { m with
        system := m.system.nameStorage id h
        stack := m.dropsOldStorage id ++ m.stack
        control := .done .ok } := by
  cases hold : Keyed.lookup? id m.system.storageNames <;>
    simp [nameStorage, dropsOldStorage, hold, update, answer, push]

omit [Storable V] in
theorem nameRelay_eq (m : Machine V) (id : String) (relay : Relay) :
    m.nameRelay id relay =
      { m with
        system := m.system.nameRelay id relay
        stack := m.dropsOldRelay id ++ m.stack
        control := .done .ok } := by
  cases hold : Keyed.lookup? id m.system.relayNames <;>
    simp [nameRelay, dropsOldRelay, hold, update, answer, push]

theorem create_becomes {m : Machine V} {step : Step V} {id : String} {area : Area}
    (hrun : m.control = .run step) (hnew : step.newArea? = some (id, area)) :
    m.Becomes (m.create id area) := by
  simp only [create, nameStorage_eq]
  exact becomes_of_begins hrun (.creates hnew) rfl rfl rfl

omit [Storable V] in
theorem deliverRaised_eq (m : Machine V) (h : Handle) (raised : Option Event) :
    m.deliverRaised h raised =
      { m with
        stack := (raised.toList.map fun event =>
          .delivery event ((m.system.area h.area).recipients (some h.tab))) ++ m.stack
        control := .done .ok } := by
  cases raised <;> rfl

end Machine

namespace System

theorem takeSubscriptions_eq {s taken : System V} {own : List String}
    {subs : List Subscription} (h : s.takeSubscriptions own = (taken, subs)) :
    ∃ names, taken = { s with subscriptionNames := names } := by
  induction own generalizing s taken subs with
  | nil =>
      cases h
      exact ⟨s.subscriptionNames, rfl⟩
  | cons id own ih =>
      simp only [takeSubscriptions] at h
      split at h
      · exact ih h
      · cases htail : System.takeSubscriptions
            { s with subscriptionNames := Keyed.erase id s.subscriptionNames } own with
        | mk rest tail =>
            rw [htail] at h
            cases h
            obtain ⟨names, hnames⟩ := ih htail
            exact ⟨names, hnames⟩

theorem setArea_area (s : System V) (i : Nat) : s.setArea i (s.area i) = s := by
  have : s.areas.set i (s.areas.getD i default) = s.areas := by
    by_cases hi : i < s.areas.length
    · simp [List.getElem?_eq_getElem hi]
    · exact List.set_eq_of_length_le (Nat.le_of_not_lt hi)
  simp only [setArea, area, this]

theorem subscribers_setArea {s : System V} {i : Nat} {a : Area}
    (h : a.subscribers = (s.area i).subscribers) :
    ((s.setArea i a).area i).subscribers = (s.area i).subscribers := by
  simp only [setArea, area, List.getD_eq_getElem?_getD, List.getElem?_set_self'] at h ⊢
  cases hb : s.areas[i]? with
  | none => rfl
  | some b => simpa [hb] using h

end System

theorem area_perform (a : Area) (operation : Operation) :
    ∃ entries, (a.perform operation).area = { a with entries } := by
  cases operation with
  | set key text =>
      by_cases hfits : a.fits key text
      · refine ⟨Keyed.insert key text a.entries, ?_⟩
        by_cases hold : a.get? key = some text <;> simp [Area.perform, Area.set, hfits, hold]
      · exact ⟨a.entries, by simp [Area.perform, Area.set, hfits]⟩
  | remove key =>
      simp only [Area.perform, Area.remove]
      split <;> exact ⟨_, rfl⟩
  | clear =>
      simp only [Area.perform, Area.clear]
      split <;> exact ⟨_, rfl⟩
  | _ => exact ⟨a.entries, rfl⟩

theorem subscribers_perform (a : Area) (operation : Operation) :
    (a.perform operation).area.subscribers = a.subscribers := by
  obtain ⟨entries, harea⟩ := area_perform a operation
  rw [harea]

namespace Machine

def operated (m : Machine V) (h : Handle) (operation : Operation) : Machine V :=
  let outcome := (m.system.area h.area).perform operation
  { m with
    system := m.system.setArea h.area outcome.area
    stack := deliveries outcome h.tab ++ m.stack
    control := .done (replied outcome.reply) }

theorem deliverRaised_setArea (m : Machine V) (h : Handle) (operation : Operation)
    (outcome : Outcome Area) (houtcome : (m.system.area h.area).perform operation = outcome)
    (hreply : outcome.reply = .done) :
    (m.setArea h.area outcome.area).deliverRaised h outcome.raised = m.operated h operation := by
  have hsubscribers : ((m.system.setArea h.area outcome.area).area h.area).subscribers =
      outcome.area.subscribers := by
    rw [System.subscribers_setArea] <;> rw [← houtcome, subscribers_perform]
  simp only [deliverRaised_eq, operated, houtcome, hreply, deliveries, Area.recipients, setArea,
    update, hsubscribers, replied]

theorem isHeld_of_changing {m : Machine V} {h : Handle} {operation : Operation}
    (hclear : ¬m.Meets (m.changing h operation))
    (hallowed : operation.isBarred (m.system.faultsOf h) = false) :
    m.isHeld (.area h.area) = false := by
  simpa [meets_changing, hallowed] using hclear

theorem setText_eq {m : Machine V} {h : Handle} {key text : String}
    (hclear : ¬m.Meets (m.changing h (.set key text))) :
    m.setText h key text =
      if (Operation.set key text).isBarred (m.system.faultsOf h) then
        m.answer (.areaError (.injected .set))
      else m.operated h (.set key text) := by
  simp only [setText, Faults.check, Operation.isBarred, decide_eq_true_eq]
  split
  · rename_i e he
    split at he
    · cases he
      rw [if_pos (by assumption)]
    · contradiction
  · rename_i hok
    have hallowed : Call.set ∉ (m.system.faultsOf h).failing := fun hbarred => by
      simp [hbarred] at hok
    rw [if_neg hallowed,
      whenFree_of_free (isHeld_of_changing hclear (decide_eq_false hallowed))]
    cases hset : (m.system.area h.area).set key text with
    | error e =>
        simp [answer, replied, System.setArea_area, deliveries, operated, Area.perform, hset]
    | ok result =>
        exact deliverRaised_setArea m h (.set key text) ⟨result.1, result.2, .done⟩
          (by simp [Area.perform, hset]) rfl

theorem removeKey_eq {m : Machine V} {h : Handle} {key : String}
    (hclear : ¬m.Meets (m.changing h (.remove key))) :
    m.removeKey h key =
      if (Operation.remove key).isBarred (m.system.faultsOf h) then
        m.answer (.areaError (.injected .remove))
      else m.operated h (.remove key) := by
  simp only [removeKey, Faults.check, Operation.isBarred, decide_eq_true_eq]
  split
  · rename_i e he
    split at he
    · cases he
      rw [if_pos (by assumption)]
    · contradiction
  · rename_i hok
    have hallowed : Call.remove ∉ (m.system.faultsOf h).failing := fun hbarred => by
      simp [hbarred] at hok
    rw [if_neg hallowed,
      whenFree_of_free (isHeld_of_changing hclear (decide_eq_false hallowed))]
    exact deliverRaised_setArea m h (.remove key) _ rfl rfl

theorem clearArea_eq {m : Machine V} {h : Handle} (hclear : ¬m.Meets (m.changing h .clear)) :
    m.clearArea h = m.operated h .clear := by
  simp only [clearArea, whenFree_of_free (isHeld_of_changing hclear rfl)]
  exact deliverRaised_setArea m h .clear _ rfl rfl

theorem invocation?_of_run [Storable V] {m : Machine V} {step : Step V} {call : Invocation}
    (hrun : m.control = .run step) (hasked : step.asked? m.system = some call)
    (hbarred : call.operation.isBarred (m.system.faultsOf call.handle) = false) :
    m.invocation? = some call := by
  simp [invocation?, hrun, hasked, hbarred]

variable [Storable V]

omit [Storable V] in
theorem Awaits.not_isDisposing {m : Machine V} {h : Handle} {waiting : List (Frame V)}
    {step : Step V} (hwaiting : m.Awaits step h waiting) :
    ∀ frame ∈ waiting, ¬ frame.isDisposing := by
  cases hwaiting <;> simp [Frame.isDisposing]

theorem operated_becomes {m : Machine V} {step : Step V} {h : Handle} {operation : Operation}
    {waiting : List (Frame V)} (trace : List (Entry V)) (hrun : m.control = .run step)
    (hasked : step.asked? m.system = some ⟨h, operation⟩) (hwaiting : m.Awaits step h waiting)
    (htrace : trace.filter (·.isWarning) = m.warnings)
    (hbarred : operation.isBarred (m.system.faultsOf h) = false) :
    m.Becomes (operated { m with stack := waiting ++ m.stack, trace } h operation) := by
  have hcall : m.invocation? = some ⟨h, operation⟩ := invocation?_of_run hrun hasked hbarred
  refine becomes_of_begins hrun (.operates hcall hwaiting rfl) ?_ rfl htrace
  rw [List.append_assoc]
  rfl

theorem becomes_of_call {m next : Machine V} {step : Step V} {h : Handle} {operation : Operation}
    {waiting : List (Frame V)} {call : Call} (trace : List (Entry V))
    (hrun : m.control = .run step) (hasked : step.asked? m.system = some ⟨h, operation⟩)
    (hwaiting : m.Awaits step h waiting) (htrace : trace.filter (·.isWarning) = m.warnings)
    (hnext : next =
      if operation.isBarred (m.system.faultsOf h) then
        answer { m with stack := waiting ++ m.stack, trace } (.areaError (.injected call))
      else operated { m with stack := waiting ++ m.stack, trace } h operation) :
    m.Becomes next := by
  subst hnext
  split
  · exact becomes_of_begins hrun (.barred _ hasked hwaiting) rfl rfl htrace
  · rename_i hbarred
    exact operated_becomes trace hrun hasked hwaiting htrace (by simpa using hbarred)

omit [Storable V] in
theorem meets_changing_write (m : Machine V) (relay : Relay) (w : Write V)
    (stored : Option String) (h : Handle) (operation : Operation) :
    let waiting : Machine V :=
      { m with
        stack := [.writing relay w stored, .keep relay.handle.area] ++ m.stack
        trace := .mark (.enterWrite w.key w.isRemoval) :: m.trace }
    waiting.Meets (waiting.changing h operation) ↔ m.Meets (m.changing h operation) := by
  intro waiting
  rw [meets_changing, meets_changing]
  rfl

theorem write_eq {m : Machine V} {relay : Relay} {w : Write V} {operation : Operation}
    (hclear : ¬m.Meets (m.writing relay w)) (hoperation : operationFor? w = some operation) :
    ∃ stored call, m.write relay w =
      let next : Machine V :=
        { m with
          stack := [.writing relay w stored, .keep relay.handle.area] ++ m.stack
          trace := .mark (.enterWrite w.key w.isRemoval) :: m.trace }
      if operation.isBarred (m.system.faultsOf relay.handle) then
        next.answer (.areaError (.injected call))
      else next.operated relay.handle operation := by
  rw [writing, hoperation] at hclear
  have hwaits (stored : Option String) :=
    (m.meets_changing_write relay w stored relay.handle operation).not.mpr hclear
  unfold operationFor? at hoperation
  unfold write
  cases hvalue : w.value with
  | none =>
      simp only [hvalue, Option.some.injEq] at hoperation
      subst hoperation
      exact ⟨none, .remove, removeKey_eq (hwaits none)⟩
  | some value =>
      simp only [hvalue] at hoperation
      cases hstored : Storable.stored value with
      | error source => simp [hstored] at hoperation
      | ok text =>
          simp only [hstored, Option.some.injEq] at hoperation ⊢
          subst hoperation
          exact ⟨some text, .set, setText_eq (hwaits (some text))⟩

theorem write_of_no_text (m : Machine V) (relay : Relay) {w : Write V}
    (hoperation : operationFor? w = none) :
    ∃ source, m.write relay w =
      { m with
        stack := .keep relay.handle.area :: m.stack
        control := .done (.writeError (.encode w.key source))
        trace := .mark .exitWrite :: .mark (.enterWrite w.key w.isRemoval) :: m.trace } := by
  unfold operationFor? at hoperation
  unfold write
  cases hvalue : w.value with
  | none => simp [hvalue] at hoperation
  | some value =>
      simp only [hvalue] at hoperation
      cases hstored : Storable.stored value with
      | error source =>
          simp only [hstored]
          exact ⟨source, rfl⟩
      | ok text => simp [hstored] at hoperation

theorem advance_write {m : Machine V} {step : Step V} {id : String} {w : Write V} {relay : Relay}
    (hrun : m.control = .run step) (hwrite : step.relayWrite? = some (id, w))
    (hname : Keyed.lookup? id m.system.relayNames = some relay) : m.advance = m.write relay w := by
  simp only [Machine.advance, hrun]
  cases step with
  | write name w' =>
      cases hwrite
      simp only [begin, withRelay, withNamed, hname]
  | writeRequest name decoded =>
      cases decoded with
      | error e => contradiction
      | ok w' =>
          cases hwrite
          simp only [begin, withDecoded, withRelay, withNamed, hname]
  | _ => contradiction

theorem write_becomes {m : Machine V} {step : Step V} {id : String} {relay : Relay} {w : Write V}
    (hrun : m.control = .run step) (hclear : ¬m.Meets (m.writing relay w))
    (hwrite : step.relayWrite? = some (id, w))
    (hname : Keyed.lookup? id m.system.relayNames = some relay)
    (hasked : step.asked? m.system = (operationFor? w).map (⟨relay.handle, ·⟩)) :
    m.Becomes (m.write relay w) := by
  cases hoperation : operationFor? w with
  | none =>
      obtain ⟨source, heq⟩ := write_of_no_text m relay hoperation
      rw [heq]
      exact becomes_of_begins hrun (.failsToEncode source hwrite hname) rfl rfl rfl
  | some operation =>
      rw [hoperation] at hasked
      obtain ⟨stored, call, heq⟩ := write_eq hclear hoperation
      exact becomes_of_call (.mark (.enterWrite w.key w.isRemoval) :: m.trace) hrun hasked
        (.relayed stored hwrite hname rfl) rfl heq

theorem answerExcept_becomes {α : Type} {m : Machine V} {step : Step V}
    (hrun : m.control = .run step) (result : Except AreaError α) (f : α → Answer V) :
    m.Becomes (m.answerExcept result f) := by
  cases result <;> exact answers_becomes hrun _

theorem askArea_becomes {m : Machine V} {step : Step V} {h : Handle}
    (hrun : m.control = .run step) (hfree : m.isHeld (.area h.area) = false)
    (question : AreaQuestion) : m.Becomes (m.askArea h question) := by
  simp only [askArea, whenFree_of_free hfree]
  cases question with
  | length => exact answerExcept_becomes hrun _ _
  | isEmpty => exact answerExcept_becomes hrun _ _
  | keyAt index => exact answerExcept_becomes hrun _ _
  | get key => exact answerExcept_becomes hrun _ _
  | _ => exact answers_becomes hrun _

theorem snapshot_becomes {m : Machine V} {step : Step V} {relay : Relay}
    (hrun : m.control = .run step) (hfree : m.isHeld (.area relay.handle.area) = false) :
    m.Becomes (m.snapshot relay) := by
  simp only [snapshot, whenFree_of_free hfree]
  split <;> exact becomes_of_begins hrun (.answers step _) rfl rfl rfl

omit [Storable V] in
theorem register_eq {m : Machine V} {h : Handle} (hfree : m.isHeld (.area h.area) = false)
    (id : String) (reaction : Reaction V) :
    m.register h id reaction =
      { m with
        system := registered m.system h id reaction
        stack := dropsOldSubscription m.system id ++ m.stack
        control := .done .ok } := by
  simp only [register, whenFree_of_free hfree]
  rfl

omit [Storable V] in
theorem not_failing_of_check {faults : Faults} {call : Call} (h : faults.check call = .ok ()) :
    call ∉ faults.failing := by
  intro hfails
  simp [Faults.check, hfails] at h

omit [Storable V] in
theorem subscribing?_of_run {m : Machine V} {step : Step V} {h : Handle} {s : System V}
    (hrun : m.control = .run step) (hstep : step.subscribing? m.system = some h)
    (hfaults : s.faultsOf h = m.system.faultsOf h)
    (hallowed : (s.faultsOf h).check .subscribe = .ok ()) : m.subscribing? = some h := by
  have hfailing := not_failing_of_check (hfaults ▸ hallowed)
  simp [subscribing?, hrun, hstep, hfailing]

theorem subscribe_becomes {m : Machine V} {storage id : String} {steps : List (Step V)}
    {times : Option Nat} {own : List String}
    (hrun : m.control = .run (.subscribe storage id steps times own))
    (hclear : ¬m.Meets (m.beginning (.subscribe storage id steps times own))) :
    m.Becomes (m.subscribe storage id ⟨id, steps, times⟩ own) := by
  cases htake : m.system.takeSubscriptions own with
  | mk s subs =>
      simp only [subscribe, htake]
      split
      · exact becomes_of_begins hrun (.failsToSubscribe htake _) rfl rfl rfl
      · rename_i h hname
        obtain ⟨names, rfl⟩ := System.takeSubscriptions_eq htake
        split
        · exact becomes_of_begins hrun (.failsToSubscribe htake _) rfl rfl rfl
        · rename_i hallowed
          have hsubscribing := subscribing?_of_run hrun hname rfl hallowed
          have hfree : (m.update { m.system with subscriptionNames := names }).isHeld
              (.area h.area) = false := by
            simpa [beginning, hsubscribing] using hclear
          rw [register_eq hfree]
          exact becomes_of_begins hrun (.subscribes hsubscribing htake) rfl rfl rfl

/-! ### The families of steps -/

section Families

variable {m : Machine V} {step : Step V} (hrun : m.control = .run step)
  (hclear : ¬m.Meets (m.beginning step))

include hrun hclear

theorem begin_storages_becomes (hfamily : step.family = .storages) :
    m.Becomes (m.begin step) := by
  cases step with
  | new id kind => exact create_becomes hrun rfl
  | newWithQuota id kind quota => exact create_becomes hrun rfl
  | newWithEntries id kind entries => exact create_becomes hrun rfl
  | openTab id storage =>
      refine withNamed_becomes hrun fun h hname => ?_
      have hfree : m.isHeld (.area h.area) = false := by
        simpa [beginning, naming, hname] using hclear
      simp only [openTab, whenFree_of_free hfree, nameStorage_eq]
      exact becomes_of_begins hrun (.opensTab hname) rfl rfl rfl
  | sameTab id storage =>
      refine withNamed_becomes hrun fun h hname => ?_
      simp only [nameStorage_eq]
      exact becomes_of_begins hrun (.namesTab hname) rfl rfl rfl
  | dropStorage id =>
      refine withNamed_becomes hrun fun h hname => ?_
      exact becomes_of_begins hrun (.dropsTab hname) rfl rfl rfl
  | setFaults storage faults =>
      refine withNamed_becomes hrun fun h hname => ?_
      exact becomes_of_begins hrun (.setsFaults hname) rfl rfl rfl
  | _ => contradiction

theorem begin_entries_becomes (hfamily : step.family = .entries) : m.Becomes (m.begin step) := by
  have hkept {h : Handle} {operation : Operation} (hclear : ¬m.Meets (m.changing h operation)) :
      ¬(m.push (.keep h.area)).Meets ((m.push (.keep h.area)).changing h operation) :=
    (m.meets_changing_push rfl h operation).not.mpr hclear
  cases step with
  | askArea storage question =>
      refine withNamed_becomes hrun fun h hname => askArea_becomes hrun ?_ question
      simpa [beginning, naming, hname] using hclear
  | set storage key text =>
      refine withNamed_becomes hrun fun h hname => ?_
      simp only [beginning, naming, hname] at hclear
      have hasked : (Step.set storage key text).asked? m.system = some ⟨h, .set key text⟩ := by
        simp [Step.asked?, hname]
      exact becomes_of_call m.trace hrun hasked (.direct rfl) rfl (setText_eq (hkept hclear))
  | remove storage key =>
      refine withNamed_becomes hrun fun h hname => ?_
      simp only [beginning, naming, hname] at hclear
      have hasked : (Step.remove storage key).asked? m.system = some ⟨h, .remove key⟩ := by
        simp [Step.asked?, hname]
      exact becomes_of_call m.trace hrun hasked (.direct rfl) rfl (removeKey_eq (hkept hclear))
  | clear storage =>
      refine withNamed_becomes hrun fun h hname => ?_
      simp only [beginning, naming, hname] at hclear
      have hasked : (Step.clear storage).asked? m.system = some ⟨h, .clear⟩ := by
        simp [Step.asked?, hname]
      rw [clearArea_eq (hkept hclear)]
      exact operated_becomes m.trace hrun hasked (.direct rfl) rfl rfl
  | dispatch storage event =>
      refine withNamed_becomes hrun fun h hname => withDecoded_becomes hrun fun e he => ?_
      subst he
      have hfree : m.isHeld (.area h.area) = false := by
        simpa [beginning, naming, hname] using hclear
      rw [whenFree_of_free hfree]
      exact becomes_of_begins hrun (.dispatches hname) rfl rfl rfl
  | _ => contradiction

theorem begin_subscriptions_becomes (hfamily : step.family = .subscriptions) :
    m.Becomes (m.begin step) := by
  cases step with
  | subscribe storage id steps times own => exact subscribe_becomes hrun hclear
  | dropSubscription id =>
      refine withNamed_becomes hrun fun sub hname => ?_
      exact becomes_of_begins hrun (.dropsSubscription hname) rfl rfl rfl
  | showSubscription id =>
      exact withNamed_becomes hrun fun sub hname => answers_becomes hrun _
  | _ => contradiction

theorem begin_logs_becomes (hfamily : step.family = .logs) : m.Becomes (m.begin step) := by
  cases step with
  | newLog id => exact becomes_of_begins hrun (.createsLog id) rfl rfl rfl
  | pushToLog log change =>
      refine withDecoded_becomes hrun fun change hc => withNamed_becomes hrun fun log hname => ?_
      have hfree : m.isHeld (.log log) = false := by
        simpa [beginning, naming, hname, hc] using hclear
      simp only [setLog, whenFree_of_free hfree]
      exact becomes_of_begins hrun (.extendsLog rfl) rfl rfl rfl
  | notifyLog log change =>
      refine withDecoded_becomes hrun fun change hc => withNamed_becomes hrun fun log hname => ?_
      have hfree : m.isHeld (.log log) = false := by
        simpa [beginning, naming, hname, hc] using hclear
      simp only [recordChange, whenFree_of_free hfree]
      exact becomes_of_begins hrun (.extendsLog rfl) rfl rfl rfl
  | askLog log question =>
      refine withNamed_becomes hrun fun log hname => ?_
      have hfree : m.isHeld (.log log) = false := by
        simpa [beginning, naming, hname] using hclear
      simp only [askLog, whenFree_of_free hfree]
      cases question <;> exact answers_becomes hrun _
  | popFromLog log =>
      refine withNamed_becomes hrun fun log hname => ?_
      have hfree : m.isHeld (.log log) = false := by
        simpa [beginning, naming, hname] using hclear
      simp only [setLog, whenFree_of_free hfree]
      exact becomes_of_begins hrun (.shortensLog _ rfl (List.dropLast_prefix _)) rfl rfl rfl
  | drainLog log =>
      refine withNamed_becomes hrun fun log hname => ?_
      have hfree : m.isHeld (.log log) = false := by
        simpa [beginning, naming, hname] using hclear
      simp only [setLog, whenFree_of_free hfree]
      exact becomes_of_begins hrun (.shortensLog _ rfl List.nil_prefix) rfl rfl rfl
  | clearLog log =>
      refine withNamed_becomes hrun fun log hname => ?_
      have hfree : m.isHeld (.log log) = false := by
        simpa [beginning, naming, hname] using hclear
      simp only [setLog, whenFree_of_free hfree]
      exact becomes_of_begins hrun (.shortensLog _ rfl List.nil_prefix) rfl rfl rfl
  | _ => contradiction

theorem begin_queues_becomes (hfamily : step.family = .queues) : m.Becomes (m.begin step) := by
  cases step with
  | newQueue id => exact becomes_of_begins hrun (.createsQueue id) rfl rfl rfl
  | defer queue name steps =>
      refine withNamed_becomes hrun fun queue hname => ?_
      have hfree : m.isHeld (.queue queue) = false := by
        simpa [beginning, naming, hname] using hclear
      simp only [defer, whenFree_of_free hfree]
      exact becomes_of_begins hrun .defers rfl rfl rfl
  | runPending queue =>
      refine withNamed_becomes hrun fun queue hname => ?_
      simp only [beginning, naming, hname] at hclear
      obtain ⟨frames, a, hdrains, hstack, hcontrol, hwarnings⟩ := drain_drains hclear 0
      exact becomes_of_begins hrun (.startsDraining hdrains hname) hstack hcontrol hwarnings
  | askQueue queue question =>
      refine withNamed_becomes hrun fun queue hname => ?_
      have hfree : m.isHeld (.queue queue) = false := by
        simpa [beginning, naming, hname] using hclear
      simp only [askQueue, whenFree_of_free hfree]
      cases question <;> exact answers_becomes hrun _
  | _ => contradiction

omit hclear in
theorem begin_relays_becomes (hfamily : step.family = .relays) : m.Becomes (m.begin step) := by
  cases step with
  | relayToLog id storage queue log =>
      refine withNamed_becomes hrun fun log hlog => withNamed_becomes hrun fun h hname =>
        withNamed_becomes hrun fun queue hqueue => ?_
      rw [nameRelay_eq]
      refine becomes_of_begins hrun (.namesRelay ⟨_, hname⟩ ⟨_, hqueue⟩ ?_ (.inr rfl) rfl) rfl rfl
        rfl
      rintro _ ⟨⟩
      exact ⟨_, hlog⟩
  | relayToNone id storage queue =>
      refine withNamed_becomes hrun fun h hname => withNamed_becomes hrun fun queue hqueue => ?_
      rw [nameRelay_eq]
      exact becomes_of_begins hrun (.namesRelay ⟨_, hname⟩ ⟨_, hqueue⟩ nofun (.inr rfl) rfl) rfl
        rfl rfl
  | relayToScript id storage queue steps times =>
      refine withNamed_becomes hrun fun h hname => withNamed_becomes hrun fun queue hqueue => ?_
      simp only [System.addScript, nameRelay_eq]
      exact becomes_of_begins hrun (.namesRelay ⟨_, hname⟩ ⟨_, hqueue⟩ nofun (.inl rfl) rfl) rfl
        rfl rfl
  | sameRelay id relay =>
      refine withNamed_becomes hrun fun relay hname => ?_
      rw [nameRelay_eq]
      exact becomes_of_begins hrun (.renamesRelay hname) rfl rfl rfl
  | dropRelay id =>
      refine withNamed_becomes hrun fun relay hname => ?_
      exact becomes_of_begins hrun (.dropsRelay hname) rfl rfl rfl
  | _ => contradiction

theorem begin_relayed_becomes (hfamily : step.family = .relayed) : m.Becomes (m.begin step) := by
  cases step with
  | askRelay relay question =>
      refine withNamed_becomes hrun fun relay hname => ?_
      cases question with
      | kind => exact askArea_becomes hrun (by simpa [beginning, naming, hname] using hclear) _
      | get key => exact askArea_becomes hrun (by simpa [beginning, naming, hname] using hclear) _
      | logLength =>
          cases hlistener : relay.listener with
          | log log =>
              have hfree : m.isHeld (.log log) = false := by
                simpa [beginning, naming, hname, hlistener] using hclear
              simp only [askRelay, hlistener, whenFree_of_free hfree]
              exact answers_becomes hrun _
          | _ =>
              simp only [askRelay, hlistener]
              exact answers_becomes hrun _
  | snapshot relay =>
      refine withNamed_becomes hrun fun relay hname => snapshot_becomes hrun ?_
      simpa [beginning, naming, hname] using hclear
  | write relay w =>
      refine withNamed_becomes hrun fun relay hname => ?_
      simp only [beginning, naming, hname] at hclear
      exact write_becomes hrun hclear rfl hname (by simp [Step.asked?, hname])
  | writeRequest relay w =>
      refine withDecoded_becomes hrun fun w hw => withNamed_becomes hrun fun relay hname => ?_
      subst hw
      simp only [beginning, naming, hname] at hclear
      exact write_becomes hrun hclear rfl hname (by simp [Step.asked?, hname])
  | receive relay event =>
      refine withNamed_becomes hrun fun relay hname => withDecoded_becomes hrun fun event he => ?_
      subst he
      simp only [beginning, naming, hname] at hclear
      have hkept : ¬(m.push (.keep relay.handle.area)).Meets
          ((m.push (.keep relay.handle.area)).receiving relay event) := hclear
      obtain ⟨frames, a, hreceives, hstack, hcontrol, hwarnings⟩ := receive_receives hkept
      refine becomes_of_begins hrun (.receives hname hreceives) ?_ hcontrol hwarnings
      rw [List.append_assoc]
      exact hstack
  | listen relay id =>
      refine withNamed_becomes hrun fun relay hname => ?_
      unfold listen
      split
      · exact answers_becomes hrun _
      · rename_i hallowed
        have hsubscribing : m.subscribing? = some relay.handle :=
          subscribing?_of_run hrun (by simp [Step.subscribing?, hname]) rfl hallowed
        have hfree : m.isHeld (.area relay.handle.area) = false := by
          simpa [beginning, hsubscribing] using hclear
        rw [register_eq hfree]
        exact becomes_of_begins hrun (.listens hsubscribing hname) rfl rfl rfl
  | _ => contradiction

theorem begin_becomes : m.Becomes (m.begin step) := by
  cases hfamily : step.family with
  | storages => exact begin_storages_becomes hrun hclear hfamily
  | entries => exact begin_entries_becomes hrun hclear hfamily
  | subscriptions => exact begin_subscriptions_becomes hrun hclear hfamily
  | logs => exact begin_logs_becomes hrun hclear hfamily
  | queues => exact begin_queues_becomes hrun hclear hfamily
  | relays => exact begin_relays_becomes hrun hfamily
  | relayed => exact begin_relayed_becomes hrun hclear hfamily

end Families

/-! ## After an answer -/

omit [Storable V] in
theorem isDisposing_of_held {m : Machine V} {cell : Cell} (h : m.isHeld cell) :
    ∃ frame ∈ m.stack, frame.isDisposing := by
  simp only [isHeld, List.any_eq_true] at h
  obtain ⟨frame, hframe, hcell⟩ := h
  refine ⟨frame, hframe, ?_⟩
  cases frame <;> first | rfl | simp at hcell

omit [Storable V] in
theorem unheld_of_no_disposing {m : Machine V} (h : ∀ frame ∈ m.stack, ¬ frame.isDisposing) :
    m.Unheld := by
  intro cell
  by_contra hheld
  obtain ⟨frame, hframe, hdisposing⟩ := isDisposing_of_held (by simpa using hheld)
  exact h frame hframe hdisposing

omit [Storable V] in
theorem Orderly.no_disposing {m : Machine V} (h : m.Orderly) {frame : Frame V}
    {rest : List (Frame V)} (hstack : m.stack = frame :: rest) (hframe : ¬ frame.isFreeing) :
    ∀ f ∈ rest, ¬ f.isDisposing := by
  intro f hf hdisposing
  have hfreeing := h.freeing
  rw [hstack, List.pairwise_cons] at hfreeing
  exact hframe (hfreeing.1 f hf hdisposing)

theorem becomes_of_continues {m m' : Machine V} {b : Answer V} {top : Frame V}
    {pushed rest : List (Frame V)} {control : Control V} (hdone : m.control = .done b)
    (hstack : m.stack = top :: rest) (hcontinues : Continues m top b m'.system pushed control [])
    (hpushed : m'.stack = pushed ++ rest) (hcontrol : m'.control = control)
    (hwarnings : m'.warnings = m.warnings) : m.Becomes m' := by
  refine ⟨pushed, [], ?_, ?_, hwarnings⟩
  · rw [hcontrol]
    exact .continues hdone hstack hcontinues
  · rw [below_of_done hdone hstack]
    exact hpushed

theorem becomes_of_frees {m m' : Machine V} {b : Answer V} {top : Frame V}
    {pushed rest : List (Frame V)} (hdone : m.control = .done b) (hstack : m.stack = top :: rest)
    (hfreeing : top.isFreeing) (hfrees : Frees m top m'.system pushed)
    (hpushed : m'.stack = pushed ++ rest) (hcontrol : m'.control = m.control)
    (hwarnings : m'.warnings = m.warnings) : m.Becomes m' := by
  refine ⟨pushed, [], ?_, ?_, hwarnings⟩
  · rw [hcontrol]
    exact .frees hdone hstack hfreeing hfrees
  · rw [below_of_done hdone hstack]
    exact hpushed

theorem reap_becomes {m : Machine V} {frame : Frame V} {rest : List (Frame V)} {b : Answer V}
    {i : Nat} (hdone : m.control = .done b) (hstack : m.stack = frame :: rest)
    (hfreeing : frame.isFreeing) (hmore : ¬ frame.hasMore)
    (hkeeps : ∀ j, frame.keeps j = true ↔ i = j) :
    m.Becomes (reap { m with stack := rest } i) := by
  have hbeneath := beneath_of_done hdone hstack
  unfold reap
  split
  · rename_i halive
    refine becomes_of_frees hdone hstack hfreeing (.pops hmore ?_) rfl rfl rfl
    intro j hj
    rw [hbeneath, ← (hkeeps j).mp hj]
    exact halive
  · rename_i hdead
    have hdead : m.beneath.isAlive i = false := by
      rw [hbeneath]
      exact Bool.eq_false_iff.mpr hdead
    exact becomes_of_frees hdone hstack hfreeing (.reaps ((hkeeps i).mpr rfl) hdead) rfl rfl rfl

theorem free_becomes {m : Machine V} {i : Nat} {left : List Nat} {rest : List (Frame V)}
    {b : Answer V} (hdone : m.control = .done b) (hstack : m.stack = .release (i :: left) :: rest) :
    m.Becomes (free (push { m with stack := rest } (.release left)) i) := by
  have hbeneath := beneath_of_done hdone hstack
  unfold free
  split
  · exact becomes_of_frees hdone hstack rfl (.letsGo i left) rfl rfl rfl
  · rename_i hreferred
    split
    · exact becomes_of_frees hdone hstack rfl (.letsGo i left) rfl rfl rfl
    · rename_i handler hhandler
      have hunreferred : m.beneath.isReferred i = false := by
        rw [hbeneath]
        exact Bool.eq_false_iff.mpr hreferred
      have hfrees : Frees m (.release (i :: left))
          (m.system.setHandler i { handler with freed := true })
          [handler.reaction.owned, .release left] := .frees hunreferred hhandler
      cases hreaction : handler.reaction with
      | script script own =>
          rw [hreaction] at hfrees
          exact becomes_of_frees hdone hstack rfl hfrees rfl rfl rfl
      | forward relay =>
          rw [hreaction] at hfrees
          exact becomes_of_frees hdone hstack rfl hfrees rfl rfl rfl

theorem detach_becomes {m : Machine V} {sub : Subscription} {left : List Subscription}
    {rest : List (Frame V)} {b : Answer V} (hdone : m.control = .done b)
    (hstack : m.stack = .drop (sub :: left) :: rest) :
    m.Becomes (detach (push { m with stack := rest } (.drop left)) sub) := by
  have hbeneath := beneath_of_done hdone hstack
  have hheld : isHeld (push { m with stack := rest } (.drop left)) (.area sub.area) =
      m.isHeld (.area sub.area) := by
    simp [isHeld, push, hstack]
  have halive : isAlive (push { m with stack := rest } (.drop left)) sub.area =
      m.beneath.isAlive sub.area := by
    rw [hbeneath]
    rfl
  have hleft (h : m.beneath.isAlive sub.area = false ∨ m.isHeld (.area sub.area) ∨
      (m.system.area sub.area).subscriber? sub.id = none) :
      m.Becomes (push { m with stack := rest } (.drop left)) :=
    becomes_of_frees hdone hstack rfl (.leaves h) rfl rfl rfl
  unfold detach
  rw [halive, hheld]
  split
  · rename_i hskips
    refine hleft ?_
    simp only [Bool.or_eq_true, Bool.not_eq_true'] at hskips
    exact hskips.imp_right .inl
  · rename_i hgoes
    simp only [Bool.or_eq_true, Bool.not_eq_true', not_or, Bool.not_eq_false,
      Bool.not_eq_true] at hgoes
    dsimp only
    split
    · rename_i hmissing
      exact hleft (.inr (.inr hmissing))
    · rename_i subscriber hfound
      exact becomes_of_frees hdone hstack rfl (.detaches hgoes.1 hgoes.2 hfound) rfl rfl rfl

theorem visit_becomes {m : Machine V} {event : Event} {i : Nat} {left : List Nat}
    {rest : List (Frame V)} {b : Answer V} (hdone : m.control = .done b)
    (hstack : m.stack = .delivery event (i :: left) :: rest)
    (hclear : ¬m.Meets (m.beneath.visiting event i)) :
    m.Becomes (visit { m with stack := rest } event i left) := by
  have hbelow := below_of_done hdone hstack
  have hbeneath := beneath_of_done hdone hstack
  have hsame : isRunning { m with stack := rest } i = m.isRunning i := by
    simp [isRunning, hstack]
  simp only [visit]
  rw [hsame]
  split
  · rename_i hr
    refine ⟨_, _, .continues hdone hstack (.skips b hr), ?_, rfl⟩
    rw [hbelow]
    rfl
  · rename_i hr
    let called := (push { m with stack := rest } (.delivery event left)).push (.turn i)
    have hcalled : ∀ cell, called.isHeld cell = m.isHeld cell := fun cell =>
      ((isHeld_push _ rfl cell).trans (isHeld_push _ rfl cell)).trans
        (isHeld_of_stack hstack rfl cell)
    have hclear : ¬called.Meets (called.reacting event i) := by
      rw [visiting, hbeneath, hsame, if_neg hr] at hclear
      rwa [meets_of_isHeld m hcalled]
    obtain ⟨frames, a, hreacts, hs, hcontrol, hwarnings⟩ := react_reacts hclear
    refine becomes_of_continues hdone hstack (.calls b (by simpa using hr) hreacts) ?_ hcontrol
      hwarnings
    rw [hs, List.append_assoc]
    rfl

theorem finishWrite_becomes {m : Machine V} {relay : Relay} {w : Write V} {stored : Option String}
    {rest : List (Frame V)} {b : Answer V} (hdone : m.control = .done b)
    (hstack : m.stack = .writing relay w stored :: rest) (hclear : ¬m.Meets m.touches) :
    m.Becomes (finishWrite { m with stack := rest } relay w stored b) := by
  unfold finishWrite
  split
  · exact becomes_of_continues hdone hstack (.writeFails _ relay w stored) rfl rfl rfl
  · rename_i hb
    have hfree : isHeld { m with stack := rest } (.queue relay.queue) = false := by
      rw [isHeld_of_stack hstack rfl]
      cases b with
      | areaError e => exact absurd rfl (hb e)
      | _ => simpa [touches, hdone, hstack] using hclear
    have hmarked (mark : Mark) :
        (Machine.mark { m with stack := rest } mark).isHeld (.queue relay.queue) = false := hfree
    simp only [whenFree_of_free (hmarked _)]
    refine becomes_of_continues hdone hstack (.writeEnds relay w stored hb) rfl rfl ?_
    cases stored <;> rfl

theorem becomes_of_rests {m : Machine V} (hrest : ∀ step, m.control ≠ .run step)
    (hbelow : m.below = m.stack) : m.Becomes m :=
  ⟨[], [], .rests hrest hbelow, hbelow.symm, rfl⟩

theorem resume_becomes {m : Machine V} {b : Answer V} (hclear : ¬m.Meets m.touches)
    (hdone : m.control = .done b) : m.Becomes (m.resume b) := by
  unfold resume
  cases hstack : m.stack with
  | nil => exact becomes_of_rests (by simp [hdone]) (by simp [below, hdone, hstack])
  | cons frame rest =>
      have hpops (hfreeing : frame.isFreeing) (hmore : ¬ frame.hasMore)
          (hkeeps : ∀ i, ¬ frame.keeps i) : m.Becomes { m with stack := rest } :=
        becomes_of_frees hdone hstack hfreeing (.pops hmore fun i hi => absurd hi (hkeeps i))
          rfl rfl rfl
      cases frame with
      | script runner left =>
          cases left with
          | nil => exact becomes_of_continues hdone hstack (.finishes b rfl) rfl rfl rfl
          | cons step left =>
              exact becomes_of_continues hdone hstack (.runsStep b runner step left) rfl rfl rfl
      | nested runner step =>
          exact becomes_of_continues hdone hstack (.finishes b rfl) rfl rfl rfl
      | delivery event left =>
          cases left with
          | nil => exact becomes_of_continues hdone hstack (.finishes b rfl) rfl rfl rfl
          | cons i left =>
              refine visit_becomes hdone hstack ?_
              simpa only [touches, hdone, hstack] using hclear
      | turn i =>
          exact becomes_of_continues hdone hstack (.endsTurn b i) rfl hdone rfl
      | keep area =>
          exact reap_becomes hdone hstack rfl (by simp [Frame.hasMore]) (by simp [Frame.keeps])
      | held cell =>
          cases cell with
          | area i =>
              exact reap_becomes hdone hstack rfl (by simp [Frame.hasMore]) (by simp [Frame.keeps])
          | queue i => exact hpops rfl (by simp [Frame.hasMore]) (by simp [Frame.keeps])
          | log i => exact hpops rfl (by simp [Frame.hasMore]) (by simp [Frame.keeps])
      | release left =>
          cases left with
          | nil => exact hpops rfl (by simp [Frame.hasMore]) (by simp [Frame.keeps])
          | cons i left => exact free_becomes hdone hstack
      | drop left =>
          cases left with
          | nil => exact hpops rfl (by simp [Frame.hasMore]) (by simp [Frame.keeps])
          | cons sub left => exact detach_becomes hdone hstack
      | writing relay w stored =>
          exact finishWrite_becomes hdone hstack hclear
      | forwarding => exact becomes_of_continues hdone hstack (.forwarded b) rfl rfl rfl
      | drain queue started =>
          have htouches : m.touches = m.draining queue := by simp [touches, hdone, hstack]
          rw [htouches, ← meets_of_isHeld m (isHeld_of_stack hstack rfl)] at hclear
          obtain ⟨frames, a, hdrains, hs, hcontrol, hwarnings⟩ := drain_drains hclear started
          exact becomes_of_continues hdone hstack (.drains b hdrains) hs hcontrol hwarnings

/-- A step that needs nothing that is held has one of the effects. -/
theorem becomes_of_not_meets {m : Machine V} (hclear : ¬m.Meets m.touches) :
    m.Becomes m.advance := by
  unfold advance
  cases hcontrol : m.control with
  | run step => exact begin_becomes hcontrol (by simpa only [touches, hcontrol] using hclear)
  | done b => exact resume_becomes hclear hcontrol
  | conflict cell => exact becomes_of_rests (by simp [hcontrol]) (by simp [below, hcontrol])

theorem Orderly.not_meets {m : Machine V} (h : m.Orderly) : ¬m.Meets m.touches := by
  have hunheld (hfree : ∀ frame ∈ m.stack, ¬frame.isDisposing) : ¬m.Meets m.touches := by
    rintro ⟨loan, -, hheld⟩
    rw [unheld_of_no_disposing hfree] at hheld
    contradiction
  cases hcontrol : m.control with
  | run step => exact hunheld (h.running step hcontrol)
  | conflict cell => simp [touches, hcontrol]
  | done answer =>
      cases hstack : m.stack with
      | nil => simp [touches, hcontrol, hstack]
      | cons frame rest =>
          by_cases hfreeing : frame.isFreeing
          · exact not_meets_of_isFreeing hcontrol hstack hfreeing
          · apply hunheld
            rw [hstack]
            intro below hbelow
            rcases List.mem_cons.mp hbelow with rfl | hbelow
            · exact fun hdisposing => hfreeing (Frame.isFreeing_of_isDisposing hdisposing)
            · exact h.no_disposing hstack hfreeing below hbelow

theorem advance_becomes {m : Machine V} (horderly : m.Orderly) : m.Becomes m.advance :=
  becomes_of_not_meets horderly.not_meets

end Machine

end TabRelay.Session
