import TabRelay.Proofs.Session.Awaiting
import TabRelay.Proofs.Session.Committing

/-!
# Sessions without scripts

In an ordinary session no script is a handler, a task or a listener: handlers
forward events to relays, and queues hold notices of writes.  Then no step begins
before the one before it is over, and what a log is told of other tabs is what
the handlers that are visited forward to it.
-/

namespace TabRelay.Session

open TabRelay.Storage

variable {V : Type}

/-! ## Ordinary steps -/

/-- The step brings no script into the session, and it tells nobody of a change itself. -/
def Step.isOrdinary : Step V → Bool
  | .subscribe .. | .defer .. | .relayToScript .. => false
  | .pushToLog .. | .notifyLog .. | .receive .. => false
  | _ => true

namespace Frame

def isScripted : Frame V → Bool
  | .script _ _ | .nested _ _ => true
  | _ => false

def allows : Frame V → Frame V → Bool
  | .delivery _ _, below => below.isPassing
  | .writing _ _ _, below => below.isFreeing
  | .drain _ _, _ | .drop _, _ => false
  | _, _ => true

end Frame

def Task.isCommit : Task V → Bool
  | .notice _ change => change.isCommitted
  | .script _ _ => false

structure Scriptless (s : System V) : Prop where
  handlers : ∀ handler ∈ s.handlers, ∃ relay, handler.reaction = .forward relay ∧
    relay.handle.area < s.areas.length ∧ s.Reaches relay
  tasks : ∀ queue, ∀ task ∈ s.queue queue, task.isCommit
  scripts : s.scripts = []

def System.forwards (s : System V) (log : Nat) (visit : Event × Nat) : List (Change V) :=
  match s.handlers[visit.2]? with
  | some ⟨.forward relay, _⟩ =>
      if relay.listener = .log log ∧ visit.1.area = some (s.area relay.handle.area).kind then
        [.external visit.1.key visit.1.newText]
      else []
  | _ => []

theorem Scriptless.forward {s : System V} (h : Scriptless s) {i : Nat} {handler : Handler V}
    (hhandler : s.handlers[i]? = some handler) :
    ∃ relay, handler.reaction = .forward relay ∧ relay.handle.area < s.areas.length ∧
      s.Reaches relay :=
  h.handlers handler (List.mem_of_getElem? hhandler)

theorem Tells.of_scriptless {s s' : System V} {change : Change V} {listener : Listener}
    {frames : List (Frame V)} (h : Tells s change listener s' frames) (hscripts : s.scripts = []) :
    frames = [] ∧ s'.scripts = [] ∧ s'.queues = s.queues := by
  cases h with
  | toLog log => exact ⟨rfl, hscripts, rfl⟩
  | toNone => exact ⟨rfl, hscripts, rfl⟩
  | toNoScript i => exact ⟨rfl, hscripts, rfl⟩
  | toScript hscript => simp [hscripts] at hscript

theorem Receives.of_scriptless {s s' : System V} {relay : Relay} {event : Event}
    {frames : List (Frame V)} {a : Answer V} (h : Receives s relay event s' frames a)
    (hscripts : s.scripts = []) :
    (frames = [] ∨ frames = [.forwarding]) ∧ s'.scripts = [] ∧ s'.queues = s.queues := by
  cases h with
  | forwards harea htells =>
      obtain ⟨rfl, hrest⟩ := htells.of_scriptless hscripts
      exact ⟨.inr rfl, hrest⟩
  | ignores harea => exact ⟨.inl rfl, hscripts, rfl⟩

theorem Receives.told {s s' : System V} {relay : Relay} {event : Event} {frames : List (Frame V)}
    {a : Answer V} (h : Receives s relay event s' frames a) (hscripts : s.scripts = [])
    (hreaches : s.Reaches relay) (log : Nat) :
    (s'.log log).drop (s.log log).length =
      if relay.listener = .log log ∧ event.area = some (s.area relay.handle.area).kind then
        [.external event.key event.newText]
      else [] := by
  have hquiet (hlistener : relay.listener ≠ .log log) :
      (s.log log).drop (s.log log).length =
        if relay.listener = .log log ∧ event.area = some (s.area relay.handle.area).kind then
          [Change.external event.key event.newText]
        else [] := by
    rw [if_neg (fun h => hlistener h.1), List.drop_length]
  cases h with
  | ignores harea => rw [if_neg (fun h => harea h.2), List.drop_length]
  | forwards harea htells =>
      generalize hlistener : relay.listener = listener at htells hquiet ⊢
      cases htells with
      | toLog l =>
          have hl := hreaches.log l hlistener
          have htold := Machine.drop_pushToLog s l log (.external event.key event.newText)
          simp only [hl, and_true] at htold
          simp only [Listener.log.injEq, harea, and_true]
          exact htold
      | toNone => exact hquiet nofun
      | toNoScript i => exact hquiet nofun
      | toScript hscript => simp [hscripts] at hscript

theorem Reacts.of_scriptless {s s' : System V} {i : Nat} {event : Event}
    {frames : List (Frame V)} {a : Answer V} (h : Reacts s i event s' frames a)
    (hscriptless : Scriptless s) :
    (frames = [] ∨ frames = [.forwarding]) ∧ s'.handlers = s.handlers ∧ s'.scripts = [] ∧
      s'.queues = s.queues := by
  cases h with
  | missing hhandler => exact ⟨.inl rfl, rfl, hscriptless.scripts, rfl⟩
  | script hhandler hreaction =>
      obtain ⟨relay, hforward, -⟩ := hscriptless.forward hhandler
      rw [hreaction] at hforward
      contradiction
  | forward hhandler hreaction hreceives =>
      obtain ⟨hframes, hscripts, hqueues⟩ := hreceives.of_scriptless hscriptless.scripts
      obtain ⟨logs, scripts, rfl⟩ := hreceives.eq
      exact ⟨hframes, rfl, hscripts, hqueues⟩

theorem Drains.of_scriptless {s s' : System V} {queue started : Nat} {frames : List (Frame V)}
    {a : Answer V} (h : Drains s queue started s' frames a) (hscriptless : Scriptless s) :
    (frames = [] ∨ frames = [.drain queue (started + 1)]) ∧ s'.handlers = s.handlers ∧
      s'.scripts = [] ∧ ∀ q, ∀ task ∈ s'.queue q, task.isCommit := by
  cases h with
  | done hqueue => exact ⟨.inl rfl, rfl, hscriptless.scripts, hscriptless.tasks⟩
  | @notice listener change tasks s' frames hqueue htells =>
      obtain ⟨rfl, hscripts, hqueues⟩ := htells.of_scriptless hscriptless.scripts
      obtain ⟨logs, scripts, rfl⟩ := htells.eq
      refine ⟨.inr rfl, rfl, hscripts, ?_⟩
      intro q task htask
      simp only [System.queue, System.setQueue, Machine.getD_set] at htask
      split at htask
      · exact hscriptless.tasks queue task (hqueue ▸ List.mem_cons_of_mem _ htask)
      · exact hscriptless.tasks q task htask
  | @script name steps tasks hqueue =>
      have hcommit := hscriptless.tasks queue (.script name steps) (hqueue ▸ List.mem_cons_self)
      contradiction

structure Tidy (frames : List (Frame V)) : Prop where
  order : frames.Pairwise fun above below => above.allows below
  unscripted : ∀ frame ∈ frames, ¬ frame.isScripted

theorem Tidy.tail {top : Frame V} {rest : List (Frame V)} (h : Tidy (top :: rest)) : Tidy rest :=
  ⟨(List.pairwise_cons.mp h.order).2, fun frame hframe =>
    h.unscripted frame (List.mem_cons_of_mem _ hframe)⟩

theorem Tidy.append {frames rest : List (Frame V)} (h : Tidy frames) (hrest : Tidy rest)
    (hallows : ∀ above ∈ frames, ∀ below ∈ rest, above.allows below) : Tidy (frames ++ rest) where
  order := List.pairwise_append.mpr ⟨h.order, hrest.order, hallows⟩
  unscripted := by
    intro frame hframe
    rcases List.mem_append.mp hframe with hframe | hframe
    · exact h.unscripted frame hframe
    · exact hrest.unscripted frame hframe

theorem tidy_singleton {frame : Frame V} (h : frame.isScripted = false) : Tidy [frame] :=
  ⟨List.pairwise_singleton _ _, by simpa using h⟩

theorem tidy_of_keeps {frames : List (Frame V)} (h : ∀ frame ∈ frames, ∃ area, frame = .keep area) :
    Tidy frames where
  order := by
    refine List.pairwise_of_forall_mem_list fun above habove below _ => ?_
    obtain ⟨area, rfl⟩ := h above habove
    rfl
  unscripted := by
    intro frame hframe
    obtain ⟨area, rfl⟩ := h frame hframe
    simp [Frame.isScripted]

theorem Tidy.rest_eq_nil {top : Frame V} {rest : List (Frame V)} (h : Tidy (top :: rest))
    (hnone : ∀ below, ¬ top.allows below) : rest = [] := by
  cases rest with
  | nil => rfl
  | cons below rest =>
      exact absurd ((List.pairwise_cons.mp h.order).1 below List.mem_cons_self) (hnone below)

namespace Machine

def isOrdinary (m : Machine V) : Bool :=
  match m.control with
  | .run step => step.isOrdinary
  | _ => true

variable [Storable V]

/-! ## What is kept of the system -/

theorem Effect.handlers {m : Machine V} {s : System V} {pushed : List (Frame V)}
    {control : Control V} {warned : List (Entry V)} (h : Effect m s pushed control warned)
    (hordinary : m.isOrdinary) (hscriptless : Scriptless m.system) :
    s.handlers = m.system.handlers ∨
      (∃ p ∈ m.system.relayNames, s.handlers = m.system.handlers ++ [⟨.forward p.2, false⟩]) ∨
      ∃ i handler, m.system.handlers[i]? = some handler ∧
        s.handlers = m.system.handlers.set i { handler with freed := true } := by
  cases h with
  | rests hrest hbelow => exact .inl rfl
  | @begins step s pushed a hrun hbegins =>
      have hstep : step.isOrdinary := by simpa [isOrdinary, hrun] using hordinary
      cases hbegins with
      | listens hsubscribing hname =>
          exact .inr (.inl ⟨_, Keyed.mem_of_lookup? hname, rfl⟩)
      | subscribes hsubscribing htake => contradiction
      | failsToSubscribe htake => contradiction
      | receives hname hreceives => contradiction
      | startsDraining hdrains => exact .inl (hdrains.of_scriptless hscriptless).2.1
      | _ => exact .inl rfl
  | continues hdone hstack hcontinues =>
      cases hcontinues with
      | calls b hrunning hreacts => exact .inl (hreacts.of_scriptless hscriptless).2.1
      | drains b hdrains => exact .inl (hdrains.of_scriptless hscriptless).2.1
      | _ => exact .inl rfl
  | frees hdone hstack hfreeing hfrees =>
      cases hfrees with
      | @frees i left handler hreferred hhandler => exact .inr (.inr ⟨i, handler, hhandler, rfl⟩)
      | _ => exact .inl rfl

theorem Effect.reaction {m : Machine V} {s : System V} {pushed : List (Frame V)}
    {control : Control V} {warned : List (Entry V)} (h : Effect m s pushed control warned)
    (hordinary : m.isOrdinary) (hscriptless : Scriptless m.system) {i : Nat}
    {handler : Handler V} (hhandler : m.system.handlers[i]? = some handler) :
    ∃ kept, s.handlers[i]? = some kept ∧ kept.reaction = handler.reaction := by
  have hi := (List.getElem?_eq_some_iff.mp hhandler).1
  rcases h.handlers hordinary hscriptless with heq | ⟨p, hp, heq⟩ | ⟨j, freed, hfreed, heq⟩
  · exact ⟨handler, heq ▸ hhandler, rfl⟩
  · exact ⟨handler, by rw [heq, List.getElem?_append_left hi, hhandler], rfl⟩
  · by_cases hij : j = i
    · subst hij
      rw [hhandler] at hfreed
      cases hfreed
      exact ⟨{ handler with freed := true }, by rw [heq, List.getElem?_set_self hi], rfl⟩
    · exact ⟨handler, by rw [heq, List.getElem?_set_ne hij, hhandler], rfl⟩

theorem Effect.scripts {m : Machine V} {s : System V} {pushed : List (Frame V)}
    {control : Control V} {warned : List (Entry V)} (h : Effect m s pushed control warned)
    (hordinary : m.isOrdinary) (hscriptless : Scriptless m.system) : s.scripts = [] := by
  have hscripts := hscriptless.scripts
  cases h with
  | rests hrest hbelow => exact hscripts
  | @begins step s pushed a hrun hbegins =>
      have hstep : step.isOrdinary := by simpa [isOrdinary, hrun] using hordinary
      cases hbegins with
      | namesRelay hhandle hqueue hlog hmakes =>
          rcases hmakes with hmakes | rfl
          · cases step <;> contradiction
          · exact hscripts
      | startsDraining hdrains => exact (hdrains.of_scriptless hscriptless).2.2.1
      | subscribes hsubscribing htake => contradiction
      | failsToSubscribe htake => contradiction
      | receives hname hreceives => contradiction
      | _ => exact hscripts
  | continues hdone hstack hcontinues =>
      cases hcontinues with
      | calls b hrunning hreacts => exact (hreacts.of_scriptless hscriptless).2.2.1
      | drains b hdrains => exact (hdrains.of_scriptless hscriptless).2.2.1
      | _ => exact hscripts
  | frees hdone hstack hfreeing hfrees => cases hfrees <;> exact hscripts

theorem Effect.tasks {m : Machine V} {s : System V} {pushed : List (Frame V)}
    {control : Control V} {warned : List (Entry V)} (h : Effect m s pushed control warned)
    (hordinary : m.isOrdinary) (hscriptless : Scriptless m.system) :
    ∀ queue, ∀ task ∈ s.queue queue, task.isCommit := by
  have htasks := hscriptless.tasks
  cases h with
  | rests hrest hbelow => exact htasks
  | @begins step s pushed a hrun hbegins =>
      have hstep : step.isOrdinary := by simpa [isOrdinary, hrun] using hordinary
      cases hbegins with
      | createsQueue id =>
          intro queue task htask
          simp only [System.queue, System.addQueue, getD_append_nil] at htask
          exact htasks queue task htask
      | startsDraining hdrains => exact (hdrains.of_scriptless hscriptless).2.2.2
      | subscribes hsubscribing htake => contradiction
      | failsToSubscribe htake => contradiction
      | receives hname hreceives => contradiction
      | defers => contradiction
      | _ => exact htasks
  | continues hdone hstack hcontinues =>
      cases hcontinues with
      | calls b hrunning hreacts =>
          intro queue task htask
          rw [System.queue, (hreacts.of_scriptless hscriptless).2.2.2] at htask
          exact htasks queue task htask
      | drains b hdrains => exact (hdrains.of_scriptless hscriptless).2.2.2
      | writeEnds relay w stored hb =>
          intro queue task htask
          rw [System.queue, queue_defer] at htask
          rcases List.mem_append.mp htask with htask | htask
          · exact htasks queue task htask
          · split at htask
            · rw [List.mem_singleton.mp htask]
              rfl
            · contradiction
      | _ => exact htasks
  | frees hdone hstack hfreeing hfrees => cases hfrees <;> exact htasks

theorem Effect.scriptless {m : Machine V} {s : System V} {pushed : List (Frame V)}
    {control : Control V} {warned : List (Entry V)} (h : Effect m s pushed control warned)
    (hordinary : m.isOrdinary) (hscriptless : Scriptless m.system) (hgrounded : Grounded m.system)
    (haddressed : Addressed m.system m.stack) : Scriptless s where
  handlers := by
    have hareas := h.alters.length_le
    obtain ⟨hlogs, hqueues⟩ := h.posts.length_le
    have hkept {handler : Handler V} (hmem : handler ∈ m.system.handlers) :
        ∃ relay, handler.reaction = .forward relay ∧ relay.handle.area < s.areas.length ∧
          s.Reaches relay := by
      obtain ⟨relay, hforward, harea, hreaches⟩ := hscriptless.handlers handler hmem
      exact ⟨relay, hforward, Nat.lt_of_lt_of_le harea hareas, hreaches.mono hlogs hqueues⟩
    intro handler hmem
    rcases h.handlers hordinary hscriptless with heq | ⟨p, hp, heq⟩ | ⟨i, old, hold, heq⟩
    · exact hkept (heq ▸ hmem)
    · rw [heq] at hmem
      rcases List.mem_append.mp hmem with hmem | hmem
      · exact hkept hmem
      · rw [List.mem_singleton.mp hmem]
        exact ⟨p.2, rfl, Nat.lt_of_lt_of_le (hgrounded.relays p hp) hareas,
          (haddressed.relays p hp).mono hlogs hqueues⟩
    · rw [heq] at hmem
      rcases List.mem_or_eq_of_mem_set hmem with hmem | rfl
      · exact hkept hmem
      · obtain ⟨relay, hforward, hreaches⟩ := hkept (List.mem_of_getElem? hold)
        exact ⟨relay, hforward, hreaches⟩
  tasks := h.tasks hordinary hscriptless
  scripts := h.scripts hordinary hscriptless

/-! ## What is kept of the stack -/

omit [Storable V] in
theorem Awaits.tidy {m : Machine V} {step : Step V} {h : Handle} {waiting : List (Frame V)}
    (hwaiting : m.Awaits step h waiting) :
    Tidy waiting ∧ ∀ frame ∈ waiting, frame.isPassing := by
  cases hwaiting with
  | reads hdirect => exact ⟨⟨.nil, by simp⟩, by simp⟩
  | direct hdirect => exact ⟨tidy_singleton rfl, by simp [Frame.isPassing, Frame.isFreeing]⟩
  | relayed stored hwrite hname hhandle =>
      refine ⟨⟨?_, ?_⟩, ?_⟩ <;>
        simp [Frame.allows, Frame.isScripted, Frame.isPassing, Frame.isFreeing]

theorem Begins.tidy {m : Machine V} {step : Step V} {s : System V} {pushed : List (Frame V)}
    {a : Answer V} (h : Begins m step s pushed a) (hstep : step.isOrdinary)
    (hscriptless : Scriptless m.system) : Tidy pushed := by
  have hstorage (id : String) : Tidy (m.dropsOldStorage id) := by
    refine tidy_of_keeps fun frame hframe => ?_
    obtain ⟨h, -, rfl⟩ := List.mem_map.mp hframe
    exact ⟨h.area, rfl⟩
  have hrelay (id : String) : Tidy (m.dropsOldRelay id) := by
    refine tidy_of_keeps fun frame hframe => ?_
    obtain ⟨relay, -, rfl⟩ := List.mem_map.mp hframe
    exact ⟨relay.handle.area, rfl⟩
  have hdelivery (event : Event) (left : List Nat) {waiting : List (Frame V)}
      (htidy : Tidy waiting) (hpassing : ∀ frame ∈ waiting, frame.isPassing) :
      Tidy (.delivery event left :: waiting) :=
    (tidy_singleton rfl).append htidy (by simpa [Frame.allows] using hpassing)
  cases h with
  | @operates _ call waiting outcome hcall hwaiting houtcome =>
      obtain ⟨htidy, hpassing⟩ := hwaiting.tidy
      cases hraised : outcome.raised with
      | none => simpa [deliveries, hraised] using htidy
      | some event => simpa [deliveries, hraised] using hdelivery event _ htidy hpassing
  | barred e hasked hwaiting => exact hwaiting.tidy.1
  | dispatches hname =>
      exact hdelivery _ _ (tidy_singleton rfl) (by simp [Frame.isPassing, Frame.isFreeing])
  | startsDraining hdrains =>
      rcases (hdrains.of_scriptless hscriptless).1 with rfl | rfl
      · exact ⟨.nil, by simp⟩
      · exact tidy_singleton rfl
  | subscribes hsubscribing htake => contradiction
  | failsToSubscribe htake => contradiction
  | receives hname hreceives => contradiction
  | creates hnew => exact hstorage _
  | opensTab hname => exact hstorage _
  | namesTab hname => exact hstorage _
  | namesRelay hhandle hqueue hlog hmakes => exact hrelay _
  | renamesRelay hname => exact hrelay _
  | listens hsubscribing hname => exact tidy_singleton rfl
  | dropsTab hname => exact tidy_singleton rfl
  | dropsSubscription hname => exact tidy_singleton rfl
  | dropsRelay hname => exact tidy_singleton rfl
  | failsToEncode source hwrite hname => exact tidy_singleton rfl
  | _ => exact ⟨.nil, by simp⟩

omit [Storable V] in
theorem Continues.tidy {m : Machine V} {top : Frame V} {b : Answer V} {s : System V}
    {pushed rest : List (Frame V)} {control : Control V} {warned : List (Entry V)}
    (h : Continues m top b s pushed control warned) (hscriptless : Scriptless m.system)
    (htidy : Tidy (top :: rest)) :
    Tidy (pushed ++ rest) ∧ ∀ step, control ≠ .run step := by
  have hrest := htidy.tail
  have hbelow := (List.pairwise_cons.mp htidy.order).1
  cases h with
  | runsStep b runner step left =>
      exact absurd rfl (htidy.unscripted _ List.mem_cons_self)
  | @skips b event i left hrunning =>
      exact ⟨(tidy_singleton rfl).append hrest (by simpa [Frame.allows] using hbelow), nofun⟩
  | @calls b a event i left s frames hrunning hreacts =>
      have hdelivery : Tidy (.delivery event left :: rest) :=
        (tidy_singleton rfl).append hrest (by simpa [Frame.allows] using hbelow)
      have hturn : Tidy (.turn i :: .delivery event left :: rest) :=
        (tidy_singleton rfl).append hdelivery (by simp [Frame.allows])
      refine ⟨?_, nofun⟩
      rw [List.append_assoc]
      rcases (hreacts.of_scriptless hscriptless).1 with rfl | rfl
      · exact hturn
      · exact (tidy_singleton rfl).append hturn (by simp [Frame.allows])
  | endsTurn b i => exact ⟨(tidy_singleton rfl).append hrest (by simp [Frame.allows]), nofun⟩
  | drains b hdrains =>
      cases htidy.rest_eq_nil (by simp [Frame.allows])
      rw [List.append_nil]
      refine ⟨?_, nofun⟩
      rcases (hdrains.of_scriptless hscriptless).1 with rfl | rfl
      · exact ⟨.nil, by simp⟩
      · exact tidy_singleton rfl
  | _ => exact ⟨hrest, nofun⟩

omit [Storable V] in
theorem Frees.tidy {m : Machine V} {top : Frame V} {s : System V} {pushed rest : List (Frame V)}
    (h : Frees m top s pushed) (hscriptless : Scriptless m.system) (htidy : Tidy (top :: rest)) :
    Tidy (pushed ++ rest) := by
  have hrest := htidy.tail
  have hrelease (left : List Nat) : Tidy (.release left :: rest) :=
    (tidy_singleton rfl).append hrest (by simp [Frame.allows])
  cases h with
  | pops hmore halive => exact hrest
  | reaps hkeeps hdead => exact hrelease _
  | letsGo i left => exact hrelease left
  | @frees i left handler hreferred hhandler =>
      obtain ⟨relay, hforward, -⟩ := hscriptless.forward hhandler
      rw [hforward]
      exact (tidy_singleton rfl).append (hrelease left) (by simp [Reaction.owned, Frame.allows])
  | leaves hleaves =>
      cases htidy.rest_eq_nil (by simp [Frame.allows])
      exact tidy_singleton rfl
  | detaches halive hheld hfound =>
      cases htidy.rest_eq_nil (by simp [Frame.allows])
      refine ⟨?_, ?_⟩ <;> simp [Frame.allows, Frame.isScripted]

/-! ## Every ordinary course -/

omit [Storable V] in
structure Ordinary (m : Machine V) : Prop where
  grounded : Grounded m.system
  addressed : Addressed m.system m.stack
  scriptless : Scriptless m.system
  tidy : Tidy m.stack
  idle : ∀ step, m.control = .run step → m.stack = []

theorem Ordinary.advance {m : Machine V} (h : m.Ordinary) (horderly : m.Orderly)
    (hordinary : m.isOrdinary) : m.advance.Ordinary := by
  obtain ⟨pushed, warned, heffect, hstack, -⟩ := advance_becomes horderly
  have htidy : Tidy (pushed ++ m.below) ∧ ∀ step, m.advance.control ≠ .run step := by
    have hold := h.tidy
    generalize m.advance.system = s at heffect
    generalize m.advance.control = control at heffect
    cases heffect with
    | rests hrest hbelow => exact ⟨hbelow ▸ hold, hrest⟩
    | @begins step s pushed a hrun hbegins =>
        have hstep : step.isOrdinary := by simpa [isOrdinary, hrun] using hordinary
        rw [below_of_run hrun, h.idle step hrun, List.append_nil]
        exact ⟨hbegins.tidy hstep h.scriptless, nofun⟩
    | continues hdone htop hcontinues =>
        rw [below_of_done hdone htop]
        rw [htop] at hold
        exact hcontinues.tidy h.scriptless hold
    | frees hdone htop hfreeing hfrees =>
        rw [below_of_done hdone htop]
        rw [htop] at hold
        exact ⟨hfrees.tidy h.scriptless hold, by simp [hdone]⟩
  refine ⟨heffect.grounded h.grounded, ?_, ?_, ?_, fun step hrun => absurd hrun (htidy.2 step)⟩
  · rw [hstack]
    exact heffect.addressed h.addressed
  · exact heffect.scriptless hordinary h.scriptless h.grounded h.addressed
  · rw [hstack]
    exact htidy.1

omit [Storable V] in
theorem ordinary_idle : (idle : Machine V).Ordinary where
  grounded := ⟨by simp [idle], by simp [idle], by simp [idle]⟩
  addressed := by
    refine ⟨by simp [idle], by simp [idle], by simp [idle], by simp [idle], ?_⟩
    simp [idle, System.queue]
  scriptless := ⟨by simp [idle], by simp [idle, System.queue], rfl⟩
  tidy := ⟨.nil, by simp [idle]⟩
  idle := nofun

/-! ## What a log is told -/

omit [Storable V] in
theorem forwards_eq {s : System V} (log : Nat) (visit : Event × Nat) {handler : Handler V}
    {relay : Relay} (hhandler : s.handlers[visit.2]? = some handler)
    (hforward : handler.reaction = .forward relay) :
    s.forwards log visit =
      if relay.listener = .log log ∧ visit.1.area = some (s.area relay.handle.area).kind then
        [.external visit.1.key visit.1.newText]
      else [] := by
  cases handler
  simp only at hforward
  simp only [System.forwards, hhandler, hforward]

theorem Effect.forwards {m : Machine V} {s : System V} {pushed : List (Frame V)}
    {control : Control V} {warned : List (Entry V)} (h : Effect m s pushed control warned)
    (hordinary : m.isOrdinary) (hscriptless : Scriptless m.system) {log : Nat}
    {visit : Event × Nat} (hlives : m.system.Lives visit.2) :
    s.forwards log visit = m.system.forwards log visit := by
  obtain ⟨handler, hhandler, -⟩ := hlives
  obtain ⟨relay, hforward, harea, -⟩ := hscriptless.forward hhandler
  obtain ⟨kept, hkept, hsame⟩ := h.reaction hordinary hscriptless hhandler
  rw [forwards_eq log visit hhandler hforward, forwards_eq log visit hkept (hsame.trans hforward),
    h.alters.kind harea]

omit [Storable V] in
theorem Ordinary.not_running {m : Machine V} (h : m.Ordinary) {event : Event} {left : List Nat}
    {rest : List (Frame V)} (hstack : m.stack = .delivery event left :: rest) (i : Nat) :
    m.isRunning i = false := by
  have htidy := h.tidy
  rw [hstack] at htidy
  rw [Bool.eq_false_iff]
  intro hrunning
  rw [isRunning_iff, hstack] at hrunning
  obtain ⟨frame, hframe, hturn⟩ := List.mem_filterMap.mp hrunning
  rcases List.mem_cons.mp hframe with rfl | hframe
  · contradiction
  · have hpassing := (List.pairwise_cons.mp htidy.order).1 frame hframe
    cases frame <;> simp [Frame.turn?, Frame.allows, Frame.isPassing, Frame.isFreeing] at hturn hpassing

omit [Storable V] in
theorem isUnrelayed_of_ordinary {m : Machine V} (h : m.isOrdinary) : m.isUnrelayed = false := by
  unfold isOrdinary at h
  unfold isUnrelayed
  split <;> first | rfl | skip
  rename_i step hrun
  simp only [hrun] at h
  cases step <;> first | rfl | contradiction

theorem Ordinary.arriving_of_visit {m : Machine V} (h : m.Ordinary) (horderly : m.Orderly)
    {event : Event} {i : Nat} (hvisiting : m.visiting? = some (event, i)) (log : Nat) :
    m.arriving log = m.system.forwards log (event, i) := by
  obtain ⟨b, left, rest, hdone, hstack⟩ := visiting?_eq_some hvisiting
  obtain ⟨pushed, warned, heffect, -⟩ := advance_becomes horderly
  have hrunning := h.not_running hstack i
  have hrelayed : m.isUnrelayed = false := by simp [isUnrelayed, hdone]
  simp only [arriving, hrelayed, Bool.false_eq_true, if_false]
  generalize m.advance.system = s at heffect ⊢
  generalize m.advance.control = control at heffect
  rcases heffect.of_done hdone hstack with hcontinues | ⟨hfreeing, -⟩
  · cases hcontinues with
    | finishes b hspent => contradiction
    | skips b hskipped => simp [hrunning] at hskipped
    | calls b hcalled hreacts =>
        cases hreacts with
        | missing hhandler => simp [System.forwards, hhandler]
        | script hhandler hreaction =>
            obtain ⟨relay, hforward, -⟩ := h.scriptless.forward hhandler
            rw [hreaction] at hforward
            contradiction
        | @forward handler relay s frames a hhandler hreaction hreceives =>
            obtain ⟨relay', hforward, -, hreaches⟩ := h.scriptless.forward hhandler
            rw [hreaction] at hforward
            cases hforward
            rw [forwards_eq log (event, i) hhandler hreaction]
            exact hreceives.told h.scriptless.scripts hreaches log
  · contradiction

theorem Ordinary.arriving_of_no_visit {m : Machine V} (h : m.Ordinary) (horderly : m.Orderly)
    (hordinary : m.isOrdinary) (hvisiting : m.visiting? = none) (log : Nat) :
    ∀ change ∈ m.arriving log, change.isCommitted ∧ m.isDraining := by
  obtain ⟨pushed, warned, heffect, -⟩ := advance_becomes horderly
  have hposts := heffect.posts
  have hrelayed := isUnrelayed_of_ordinary hordinary
  have hquiet {l : List (Change V)} (hnone : l.drop (m.system.log log).length = []) :
      ∀ change ∈ l.drop (m.system.log log).length, change.isCommitted ∧ m.isDraining := by
    simp [hnone]
  have hsame : (m.system.logs.getD log []).drop (m.system.log log).length = [] :=
    List.drop_length
  simp only [arriving, hrelayed, Bool.false_eq_true, if_false]
  generalize hlogs : m.advance.system.logs = logs at hposts
  generalize m.advance.system.queues = queues at hposts
  generalize m.succeeding m.advance.control = done at hposts
  have hlog : m.advance.system.log log = logs.getD log [] := by rw [System.log, hlogs]
  rw [hlog]
  cases hposts with
  | opensLog => exact hquiet (by rw [getD_append_nil, hsame])
  | @shortens l changes hedits hshorter =>
      refine hquiet ?_
      simp only [System.setLog, getD_set]
      split
      · rename_i hl
        exact List.drop_eq_nil_of_le (hl.1 ▸ hshorter.length_le)
      · exact hsame
  | lengthens hunrelayed l change => simp [hrelayed] at hunrelayed
  | forwards htakes l key newText =>
      unfold takesEvent at htakes
      split at htakes
      · rename_i hrun
        simp [isOrdinary, hrun, Step.isOrdinary] at hordinary
      · rename_i hdone hstack
        simp [visiting?, hdone, hstack] at hvisiting
      · contradiction
  | @notifies q l change tasks hdraining hqueue =>
      have hcommit : change.isCommitted :=
        h.scriptless.tasks q (.notice (.log l) change) (hqueue ▸ List.mem_cons_self)
      rw [drop_pushToLog]
      split
      · simpa [hdraining] using hcommit
      · simp
  | _ => exact hquiet hsame

theorem lives_of_awaited {m : Machine V} (hcustody : Custody m.system m.stack)
    {visit : Event × Nat} (hvisit : visit ∈ m.sending ++ awaited m.stack) :
    m.system.Lives visit.2 := by
  rcases List.mem_append.mp hvisit with hvisit | hvisit
  · unfold sending at hvisit
    split at hvisit
    · contradiction
    · obtain ⟨s, hs, rfl⟩ := List.mem_map.mp hvisit
      exact hcustody.subscribed _ (System.mem_subscribed (List.mem_filter.mp hs).1)
  · obtain ⟨frame, hframe, hvisit⟩ := List.mem_flatMap.mp hvisit
    refine hcustody.mentioned frame hframe visit.2 ?_
    cases frame with
    | delivery event left =>
        obtain ⟨i, hi, rfl⟩ := List.mem_map.mp hvisit
        exact hi
    | _ => contradiction

omit [Storable V] in
theorem filter_external_forwards (s : System V) (log : Nat) (visit : Event × Nat) :
    (s.forwards log visit).filter (!·.isCommitted) = s.forwards log visit := by
  unfold System.forwards
  split
  · split <;> rfl
  · rfl

omit [Storable V] in
/-- What the log is still to be told of the events that were raised. -/
def inTransit (m : Machine V) (log : Nat) : List (Change V) :=
  (awaited m.stack).flatMap (m.system.forwards log)

/-- What the log is told of other tabs and what it is still to be told is what it was to be
told and what the events that are raised make it to be told. -/
theorem Ordinary.forwards {m : Machine V} (h : m.Ordinary) (horderly : m.Orderly)
    (hordinary : m.isOrdinary) (hcustody : Custody m.system m.stack) (log : Nat) :
    (m.arriving log).filter (!·.isCommitted) ++ m.advance.inTransit log =
      m.sending.flatMap (m.system.forwards log) ++ m.inTransit log := by
  obtain ⟨pushed, warned, heffect, -⟩ := advance_becomes horderly
  have hawaits := horderly.awaits
  have hkept : m.advance.inTransit log =
      (awaited m.advance.stack).flatMap (m.system.forwards log) := by
    refine List.flatMap_congr fun visit hvisit => ?_
    refine heffect.forwards hordinary h.scriptless (lives_of_awaited hcustody ?_)
    rw [← hawaits]
    exact List.mem_append_right _ hvisit
  have htold : (m.arriving log).filter (!·.isCommitted) =
      m.visiting?.toList.flatMap (m.system.forwards log) := by
    cases hvisiting : m.visiting? with
    | none =>
        refine List.filter_eq_nil_iff.mpr fun change hchange => ?_
        simp [(h.arriving_of_no_visit horderly hordinary hvisiting log change hchange).1]
    | some visit =>
        rw [h.arriving_of_visit horderly hvisiting, filter_external_forwards]
        simp
  rw [hkept, htold, ← List.flatMap_append, hawaits, List.flatMap_append, inTransit]

omit [Storable V] in
theorem inTransit_of_idle {m : Machine V} (hstack : m.stack = []) (log : Nat) :
    m.inTransit log = [] := by
  rw [inTransit, hstack]
  rfl

omit [Storable V] in
theorem Ordinary.inTransit_of_run {m : Machine V} (h : m.Ordinary) {step : Step V}
    (hrun : m.control = .run step) (log : Nat) : m.inTransit log = [] :=
  inTransit_of_idle (h.idle step hrun) log

theorem Ordinary.inTransit_of_draining {m : Machine V} (h : m.Ordinary) (horderly : m.Orderly)
    (hdraining : m.isDraining) (log : Nat) : m.advance.inTransit log = [] := by
  have hawaits := horderly.awaits
  have hnone : m.sending = [] ∧ awaited m.stack = [] := by
    unfold isDraining at hdraining
    split at hdraining
    · rename_i hrun
      refine ⟨by simp [sending, raising?, invocation?, hrun, Step.asked?], ?_⟩
      rw [h.idle _ hrun]
      rfl
    · rename_i hdone hstack
      have htidy := h.tidy
      rw [hstack] at htidy ⊢
      cases htidy.rest_eq_nil (by simp [Frame.allows])
      exact ⟨by simp [sending, raising?, hdone], rfl⟩
    · contradiction
  rw [hnone.1, hnone.2] at hawaits
  rw [inTransit, (List.append_eq_nil_iff.mp hawaits).2]
  rfl

theorem Ordinary.arriving_split {m : Machine V} (h : m.Ordinary) (horderly : m.Orderly)
    (hordinary : m.isOrdinary) (log : Nat) :
    m.arriving log ++ m.advance.inTransit log =
      (m.arriving log).filter (!·.isCommitted) ++ m.advance.inTransit log ++
        (m.arriving log).filter (·.isCommitted) := by
  cases hvisiting : m.visiting? with
  | some visit =>
      have hexternal := filter_external_forwards m.system log visit
      rw [← h.arriving_of_visit horderly hvisiting] at hexternal
      have hnone : (m.arriving log).filter (·.isCommitted) = [] := by
        rw [← hexternal, List.filter_filter]
        simp
      rw [hexternal, hnone, List.append_nil]
  | none =>
      have hcommitted := h.arriving_of_no_visit horderly hordinary hvisiting log
      cases harriving : m.arriving log with
      | nil => simp
      | cons change changes =>
          rw [harriving] at hcommitted
          have hdraining := (hcommitted change List.mem_cons_self).2
          have hall : (change :: changes).filter (·.isCommitted) = change :: changes :=
            List.filter_eq_self.mpr fun x hx => (hcommitted x hx).1
          have hnone : (change :: changes).filter (!·.isCommitted) = [] :=
            List.filter_eq_nil_iff.mpr fun x hx => by simp [(hcommitted x hx).1]
          rw [h.inTransit_of_draining horderly hdraining, hall, hnone, List.append_nil]
          rfl

theorem inTransit_begin (m : Machine V) (step : Step V) (log : Nat) :
    (m.play (.begin step)).inTransit log = m.inTransit log := by
  rw [inTransit, awaited_begin, system_begin, inTransit]

theorem inTransit_decide (m : Machine V) (left : List (Step V)) (log : Nat) :
    (m.play (.decide left)).inTransit log = m.inTransit log := by
  rw [inTransit, awaited_decide, system_decide, inTransit]

theorem ordinary_playAll (moves : List (Move V))
    (hordinary : ∀ m ∈ Machine.idle.history moves, m.isOrdinary) :
    (Machine.idle.playAll moves).Ordinary := by
  have hcourse : (∀ m ∈ Machine.idle.history moves, m.isOrdinary) →
      (Machine.idle.playAll moves).Ordinary := by
    apply orderly_induction (P := fun past m => (∀ x ∈ past, x.isOrdinary) → m.Ordinary)
    · exact fun _ => ordinary_idle
    · intro past m step h hstack hpast
      obtain ⟨hgrounded, haddressed, hscriptless, -, -⟩ := h hpast
      rw [hstack] at haddressed
      exact ⟨hgrounded, haddressed, hscriptless, ⟨.nil, by simp [start]⟩, fun _ _ => rfl⟩
    · intro past m runner old left stack h hstack hpast
      have hscript := (h hpast).tidy.unscripted (.script runner old) (hstack ▸ List.mem_cons_self)
      exact absurd rfl hscript
    · intro past m horderly h hpast
      exact (h fun x hx => hpast x (List.mem_append_left _ hx)).advance horderly
        (hpast m (List.mem_append_right _ List.mem_cons_self))
  exact hcourse hordinary

end Machine

end TabRelay.Session
