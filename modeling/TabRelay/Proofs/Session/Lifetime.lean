import TabRelay.Proofs.Session.Custody

/-!
# How long an area lives

An area is kept by names, by handlers that forward for a relay and by frames.
What keeps an area after a step stands for something that kept it before, unless
the step created the area.  So an area that is gone does not come back.
-/

namespace TabRelay.Session

open TabRelay.Decoding TabRelay.Storage

variable {V : Type}

namespace System

def Names (s : System V) (i : Nat) : Prop :=
  (∃ p ∈ s.storageNames, p.2.area = i) ∨ ∃ p ∈ s.relayNames, p.2.handle.area = i

theorem names_of_storage {s : System V} {id : String} {h : Handle}
    (hname : Keyed.lookup? id s.storageNames = some h) : s.Names h.area :=
  .inl ⟨_, Keyed.mem_of_lookup? hname, rfl⟩

theorem names_of_relay {s : System V} {id : String} {relay : Relay}
    (hname : Keyed.lookup? id s.relayNames = some relay) : s.Names relay.handle.area :=
  .inr ⟨_, Keyed.mem_of_lookup? hname, rfl⟩

end System

theorem Frame.not_keeps_of_isWork {frame : Frame V} {i : Nat} (h : frame.isWork) :
    ¬ frame.keeps i := by
  cases frame <;> simp_all [isWork, keeps]

theorem Reacts.handlerKeeps {s s' : System V} {j : Nat} {event : Event} {frames : List (Frame V)}
    {a : Answer V} (h : Reacts s j event s' frames a) {i : Nat} {handler : Handler V}
    (hmem : handler ∈ s'.handlers) (hkeeps : handler.keeps i) : handler ∈ s.handlers := by
  cases h with
  | missing hhandler => exact hmem
  | script hhandler hreaction =>
      rcases List.mem_or_eq_of_mem_set hmem with hold | rfl
      · exact hold
      · simp [Handler.keeps, Reaction.keeps] at hkeeps
  | forward hhandler hreaction hreceives =>
      obtain ⟨logs, scripts, rfl⟩ := hreceives.eq
      exact hmem

namespace Machine

theorem isAlive_iff {m : Machine V} {i : Nat} :
    m.isAlive i ↔ m.system.Names i ∨ (∃ handler ∈ m.system.handlers, handler.keeps i) ∨
      ∃ frame ∈ m.stack, frame.keeps i := by
  simp only [isAlive, System.Names, Bool.or_eq_true, List.any_eq_true, decide_eq_true_eq]
  constructor
  · rintro (((h | h) | h) | h)
    · exact .inl (.inl h)
    · exact .inl (.inr h)
    · exact .inr (.inl h)
    · exact .inr (.inr h)
  · rintro ((h | h) | h | h)
    · exact .inl (.inl (.inl h))
    · exact .inl (.inl (.inr h))
    · exact .inl (.inr h)
    · exact .inr h

/-! ## What a step keeps -/

variable [Storable V]

theorem Begins.names {m : Machine V} {step : Step V} {s : System V} {pushed : List (Frame V)}
    {a : Answer V} (h : Begins m step s pushed a) {i : Nat} (hnames : s.Names i) :
    m.system.Names i ∨ i = m.system.areas.length := by
  rcases hnames with ⟨p, hp, rfl⟩ | ⟨p, hp, rfl⟩
  · rcases h.storageNames p hp with ⟨q, hq, harea⟩ | ⟨harea, -⟩
    · exact .inl (.inl ⟨q, hq, harea⟩)
    · exact .inr harea
  · rcases h.relayNames p hp with ⟨q, hq, hrelay⟩ | ⟨⟨q, hq, hhandle⟩, -⟩
    · exact .inl (.inr ⟨q, hq, by rw [hrelay]⟩)
    · exact .inl (.inl ⟨q, hq, by rw [hhandle]⟩)

theorem Begins.handlerKeeps {m : Machine V} {step : Step V} {s : System V}
    {pushed : List (Frame V)} {a : Answer V} (h : Begins m step s pushed a) {i : Nat}
    {handler : Handler V} (hmem : handler ∈ s.handlers) (hkeeps : handler.keeps i) :
    handler ∈ m.system.handlers ∨ m.system.Names i := by
  cases h with
  | subscribes hsubscribing htake =>
      obtain ⟨names, rfl⟩ := System.takeSubscriptions_eq htake
      rcases List.mem_append.mp hmem with hold | hnew
      · exact .inl hold
      · rw [List.mem_singleton.mp hnew] at hkeeps
        simp [Handler.keeps, Reaction.keeps] at hkeeps
  | listens hsubscribing hname =>
      rcases List.mem_append.mp hmem with hold | hnew
      · exact .inl hold
      · rw [List.mem_singleton.mp hnew] at hkeeps
        simp only [Handler.keeps, Reaction.keeps, Bool.not_false, Bool.true_and,
          decide_eq_true_eq] at hkeeps
        exact .inr (hkeeps ▸ System.names_of_relay hname)
  | failsToSubscribe htake =>
      obtain ⟨names, rfl⟩ := System.takeSubscriptions_eq htake
      exact .inl hmem
  | startsDraining hdrains =>
      obtain ⟨queues, logs, scripts, rfl⟩ := hdrains.eq
      exact .inl hmem
  | receives hname hreceives =>
      obtain ⟨logs, scripts, rfl⟩ := hreceives.eq
      exact .inl hmem
  | _ => exact .inl hmem

theorem Awaits.keeps {m : Machine V} {step : Step V} {call : Invocation}
    {waiting : List (Frame V)} (h : m.Awaits step call.handle waiting)
    (hasked : step.asked? m.system = some call) {frame : Frame V} (hframe : frame ∈ waiting)
    {i : Nat} (hkeeps : frame.keeps i) : m.system.Names i := by
  have hnames : m.system.Names call.handle.area := by
    rcases asked?_named hasked with ⟨p, hp, hhandle⟩ | ⟨p, hp, hhandle⟩
    · exact .inl ⟨p, hp, by rw [hhandle]⟩
    · exact .inr ⟨p, hp, by rw [hhandle]⟩
  cases h with
  | reads hdirect => contradiction
  | direct hdirect =>
      rw [List.mem_singleton.mp hframe] at hkeeps
      exact of_decide_eq_true hkeeps ▸ hnames
  | relayed stored hwrite hname hhandle =>
      simp only [List.mem_cons, List.not_mem_nil, or_false] at hframe
      rcases hframe with rfl | rfl
      · contradiction
      · rw [hhandle] at hkeeps
        exact of_decide_eq_true hkeeps ▸ hnames

theorem Begins.frameKeeps {m : Machine V} {step : Step V} {s : System V}
    {pushed : List (Frame V)} {a : Answer V} (h : Begins m step s pushed a)
    (hrun : m.control = .run step) {frame : Frame V} (hframe : frame ∈ pushed) {i : Nat}
    (hkeeps : frame.keeps i) : m.system.Names i := by
  have hkept {h : Handle} (hnames : m.system.Names h.area) (heq : frame = .keep h.area) :
      m.system.Names i := by
    rw [heq] at hkeeps
    exact of_decide_eq_true hkeeps ▸ hnames
  cases h with
  | creates hnew =>
      obtain ⟨old, hold, rfl⟩ := List.mem_map.mp hframe
      exact hkept (System.names_of_storage (Option.mem_toList.mp hold)) rfl
  | opensTab hname =>
      obtain ⟨old, hold, rfl⟩ := List.mem_map.mp hframe
      exact hkept (System.names_of_storage (Option.mem_toList.mp hold)) rfl
  | namesTab hname =>
      obtain ⟨old, hold, rfl⟩ := List.mem_map.mp hframe
      exact hkept (System.names_of_storage (Option.mem_toList.mp hold)) rfl
  | dropsTab hname => exact hkept (System.names_of_storage hname) (List.mem_singleton.mp hframe)
  | operates hcall hwaiting houtcome =>
      obtain ⟨step', hrun', hasked, -⟩ := invocation?_eq_some hcall
      cases hrun.symm.trans hrun'
      rcases List.mem_append.mp hframe with hframe | hframe
      · obtain ⟨event, rfl⟩ := mem_deliveries hframe
        contradiction
      · exact hwaiting.keeps hasked hframe hkeeps
  | barred e hasked hwaiting => exact hwaiting.keeps hasked hframe hkeeps
  | dispatches hname =>
      simp only [List.mem_cons, List.not_mem_nil, or_false] at hframe
      rcases hframe with rfl | rfl
      · contradiction
      · exact hkept (System.names_of_storage hname) rfl
  | startsDraining hdrains =>
      exact absurd hkeeps (Frame.not_keeps_of_isWork (hdrains.isWork frame hframe))
  | namesRelay hhandle hqueue hlog hscripts =>
      obtain ⟨old, hold, rfl⟩ := List.mem_map.mp hframe
      exact hkept (System.names_of_relay (Option.mem_toList.mp hold)) rfl
  | renamesRelay hname =>
      obtain ⟨old, hold, rfl⟩ := List.mem_map.mp hframe
      exact hkept (System.names_of_relay (Option.mem_toList.mp hold)) rfl
  | dropsRelay hname => exact hkept (System.names_of_relay hname) (List.mem_singleton.mp hframe)
  | failsToEncode source hwrite hname =>
      exact hkept (System.names_of_relay hname) (List.mem_singleton.mp hframe)
  | receives hname hreceives =>
      rcases List.mem_append.mp hframe with hframe | hframe
      · exact absurd hkeeps (Frame.not_keeps_of_isWork (hreceives.isWork frame hframe))
      · exact hkept (System.names_of_relay hname) (List.mem_singleton.mp hframe)
  | _ =>
      simp only [dropsOldSubscription, List.mem_singleton, List.not_mem_nil] at hframe
      all_goals
        rw [hframe] at hkeeps
        contradiction

omit [Storable V] in
theorem Continues.keeps {m : Machine V} {top : Frame V} {b : Answer V} {s : System V}
    {pushed : List (Frame V)} {control : Control V} {warned : List (Entry V)}
    (h : Continues m top b s pushed control warned) {i : Nat} :
    (∀ handler ∈ s.handlers, handler.keeps i → handler ∈ m.system.handlers) ∧
      ∀ frame ∈ pushed, ¬ frame.keeps i := by
  cases h with
  | calls b hrunning hreacts =>
      constructor
      · intro handler hmem hkeeps
        exact hreacts.handlerKeeps hmem hkeeps
      · intro frame hframe
        rcases List.mem_append.mp hframe with hframe | hframe
        · exact Frame.not_keeps_of_isWork (hreacts.isWork frame hframe)
        · simp only [List.mem_cons, List.not_mem_nil, or_false] at hframe
          rcases hframe with rfl | rfl <;> simp [Frame.keeps]
  | drains b hdrains =>
      have hwork := hdrains.isWork
      obtain ⟨queues, logs, scripts, rfl⟩ := hdrains.eq
      constructor
      · exact fun handler hmem _ => hmem
      · exact fun frame hframe => Frame.not_keeps_of_isWork (hwork frame hframe)
  | _ =>
      constructor
      · exact fun handler hmem _ => hmem
      · simp [Frame.keeps]

omit [Storable V] in
theorem Frees.keeps {m : Machine V} {top : Frame V} {s : System V} {pushed rest : List (Frame V)}
    (h : Frees m top s pushed) (hstack : m.stack = top :: rest) (hbelow : m.below = rest)
    (hlives : ∀ j ∈ top.mentions, m.system.Lives j) {i : Nat} :
    (∀ handler ∈ s.handlers, handler.keeps i → handler ∈ m.system.handlers) ∧
      ∀ frame ∈ pushed, frame.keeps i → m.isAlive i := by
  have hbeneath (halive : m.beneath.isAlive i) : m.isAlive i := by
    rcases isAlive_iff.mp halive with hnames | hhandler | ⟨frame, hframe, hkeeps⟩
    · exact isAlive_iff.mpr (.inl hnames)
    · exact isAlive_iff.mpr (.inr (.inl hhandler))
    · simp only [beneath, hbelow] at hframe
      have hmem : frame ∈ m.stack := by
        rw [hstack]
        exact List.mem_cons_of_mem _ hframe
      exact isAlive_iff.mpr (.inr (.inr ⟨frame, hmem, hkeeps⟩))
  cases h with
  | @frees j left handler hreferred hhandler =>
      constructor
      · intro other hmem hkeeps
        rcases List.mem_or_eq_of_mem_set hmem with hold | rfl
        · exact hold
        · simp [Handler.keeps] at hkeeps
      · intro frame hframe hkeeps
        obtain ⟨found, hfound, hfreed⟩ := hlives j List.mem_cons_self
        rw [hhandler] at hfound
        cases hfound
        simp only [List.mem_cons, List.not_mem_nil, or_false] at hframe
        rcases hframe with rfl | rfl
        · refine isAlive_iff.mpr (.inr (.inl ⟨handler, List.mem_of_getElem? hhandler, ?_⟩))
          rw [Handler.keeps, hfreed]
          cases hreaction : handler.reaction with
          | script script own => simp [hreaction, Reaction.owned, Frame.keeps] at hkeeps
          | forward relay =>
              simpa [hreaction, Reaction.owned, Frame.keeps, Reaction.keeps] using hkeeps
        · simp [Frame.keeps] at hkeeps
  | detaches halive hheld hfound =>
      constructor
      · exact fun handler hmem _ => hmem
      · intro frame hframe hkeeps
        simp only [List.mem_cons, List.not_mem_nil, or_false] at hframe
        rcases hframe with rfl | rfl | rfl
        · contradiction
        · simp only [Frame.keeps, Cell.area.injEq, decide_eq_true_eq] at hkeeps
          exact hbeneath (hkeeps ▸ halive)
        · contradiction
  | _ =>
      constructor
      · exact fun handler hmem _ => hmem
      · simp [Frame.keeps]

theorem Effect.alive {m m' : Machine V} {pushed : List (Frame V)} {control : Control V}
    {warned : List (Entry V)} (h : Effect m m'.system pushed control warned)
    (hstack : m'.stack = pushed ++ m.below) (hcustody : Custody m.system m.stack) {i : Nat}
    (halive : m'.isAlive i) : m.isAlive i ∨ i = m.system.areas.length := by
  have hbelow : ∀ frame ∈ m.below, frame.keeps i → m.isAlive i := by
    intro frame hframe hkeeps
    refine isAlive_iff.mpr (.inr (.inr ⟨frame, ?_, hkeeps⟩))
    unfold below at hframe
    split at hframe
    · exact List.mem_of_mem_tail hframe
    · exact hframe
  have hnames (hsame : SameNames m.system m'.system) (hnames : m'.system.Names i) :
      m.isAlive i := by
    simp only [System.Names, hsame.storages, hsame.relays] at hnames
    exact isAlive_iff.mpr (.inl hnames)
  have hhandlers {handler : Handler V} (hmem : handler ∈ m.system.handlers)
      (hkeeps : handler.keeps i) : m.isAlive i :=
    isAlive_iff.mpr (.inr (.inl ⟨handler, hmem, hkeeps⟩))
  generalize hsystem : m'.system = s at h hnames
  have hkept := isAlive_iff.mp halive
  rw [hsystem, hstack] at hkept
  cases h with
  | rests hrest hbelow' =>
      rcases hkept with hkept | ⟨handler, hmem, hkeeps⟩ | ⟨frame, hframe, hkeeps⟩
      · exact .inl (isAlive_iff.mpr (.inl hkept))
      · exact .inl (hhandlers hmem hkeeps)
      · exact .inl (hbelow frame hframe hkeeps)
  | begins hrun hbegins =>
      rcases hkept with hkept | ⟨handler, hmem, hkeeps⟩ | ⟨frame, hframe, hkeeps⟩
      · exact (hbegins.names hkept).imp_left fun h => isAlive_iff.mpr (.inl h)
      · rcases hbegins.handlerKeeps hmem hkeeps with hmem | hnamed
        · exact .inl (hhandlers hmem hkeeps)
        · exact .inl (isAlive_iff.mpr (.inl hnamed))
      · rcases List.mem_append.mp hframe with hframe | hframe
        · exact .inl (isAlive_iff.mpr (.inl (hbegins.frameKeeps hrun hframe hkeeps)))
        · exact .inl (hbelow frame hframe hkeeps)
  | continues hdone htop hcontinues =>
      obtain ⟨hold, hpushed⟩ := hcontinues.keeps (i := i)
      rcases hkept with hkept | ⟨handler, hmem, hkeeps⟩ | ⟨frame, hframe, hkeeps⟩
      · exact .inl (hnames hcontinues.names hkept)
      · exact .inl (hhandlers (hold handler hmem hkeeps) hkeeps)
      · rcases List.mem_append.mp hframe with hframe | hframe
        · exact absurd hkeeps (hpushed frame hframe)
        · exact .inl (hbelow frame hframe hkeeps)
  | @frees b top rest s pushed hdone htop hfreeing hfrees =>
      have hlives : ∀ j ∈ top.mentions, m.system.Lives j :=
        hcustody.mentioned top (htop ▸ List.mem_cons_self)
      obtain ⟨hold, hpushed⟩ := hfrees.keeps htop (below_of_done hdone htop) hlives (i := i)
      rcases hkept with hkept | ⟨handler, hmem, hkeeps⟩ | ⟨frame, hframe, hkeeps⟩
      · exact .inl (hnames hfrees.names hkept)
      · exact .inl (hhandlers (hold handler hmem hkeeps) hkeeps)
      · rcases List.mem_append.mp hframe with hframe | hframe
        · exact .inl (hpushed frame hframe hkeeps)
        · exact .inl (hbelow frame hframe hkeeps)

end Machine

end TabRelay.Session
