import TabRelay.Proofs.Session.Following
import TabRelay.Session.Draft

/-!
# Bystanders

Subscriptions that merely record are taken out and dropped anywhere in a session,
also while handlers run.  As long as no area lives only for them, nothing else
can tell: the session goes through the same without them.
-/

namespace TabRelay.Session

open TabRelay.Storage

variable {V : Type}

/-! ## Numbers -/

/-- What has a number: a handler, a subscription to an area, a log or a queue. -/
inductive Number where
  | handler (n : Nat)
  | subscription (area id : Nat)
  | log (n : Nat)
  | queue (n : Nat)
  deriving DecidableEq, Repr

def System.Given (s : System V) : Number → Prop
  | .handler n => n < s.handlers.length
  | .subscription i id => id < (s.area i).nextSubscriber
  | .log n => n < s.logs.length
  | .queue n => n < s.queues.length

def Registration.numbers (r : Registration) : List Number :=
  [.handler r.subscriber.handler, .subscription r.area r.subscriber.id]

namespace Machine

def makes (s : System V) : Step V → List Number
  | .newLog _ => [.log s.logs.length]
  | .newQueue _ => [.queue s.queues.length]
  | _ => []

/-- The numbers that are given when the step begins. -/
def gives (s : System V) (step : Step V) : List Number :=
  (start s step).registering?.toList.flatMap Registration.numbers ++ makes s step

theorem registering?_start {m : Machine V} {step : Step V} (hrun : m.control = .run step) :
    (start m.system step).registering? = m.registering? := by
  simp only [registering?, subscribing?, hrun]
  rfl

theorem gives_eq {m : Machine V} {step : Step V} (hrun : m.control = .run step) :
    gives m.system step =
      m.registering?.toList.flatMap Registration.numbers ++ makes m.system step := by
  rw [gives, registering?_start hrun]

variable [Storable V]

theorem Orderly.given_advance {m : Machine V} (h : m.Orderly) {number : Number}
    (hgiven : m.system.Given number) : m.advance.system.Given number := by
  obtain ⟨pushed, warned, heffect, -⟩ := advance_becomes h
  obtain ⟨hlogs, hqueues⟩ := heffect.posts.length_le
  cases number with
  | handler n => exact Nat.lt_of_lt_of_le hgiven heffect.handlers_length_le
  | subscription i id => exact Nat.lt_of_lt_of_le hgiven (heffect.alters.nextSubscriber_le i)
  | log n => exact Nat.lt_of_lt_of_le hgiven hlogs
  | queue n => exact Nat.lt_of_lt_of_le hgiven hqueues

theorem given_playAll (past later : List (Move V)) {number : Number}
    (hgiven : (idle.playAll past).system.Given number) :
    ((idle.playAll past).playAll later).system.Given number := by
  induction later using List.reverseRecOn with
  | nil => exact hgiven
  | append_singleton later move ih =>
      rw [playAll_append, playAll_cons, playAll_nil]
      cases move with
      | begin step => rwa [system_begin]
      | decide left => rwa [system_decide]
      | advance =>
          rw [← playAll_append] at ih ⊢
          exact (orderly_playAll _).given_advance ih

theorem given_of_gives {past : List (Move V)} {step : Step V}
    (hrun : (idle.playAll past).control = .run step) {number : Number}
    (hgives : number ∈ gives (idle.playAll past).system step) :
    ¬ (idle.playAll past).system.Given number ∧
      (idle.playAll past).advance.system.Given number := by
  rw [gives_eq hrun] at hgives
  rcases List.mem_append.mp hgives with hregisters | hmakes
  · obtain ⟨r, hr, hnumber⟩ := List.mem_flatMap.mp hregisters
    obtain ⟨hid, hidNext, hhandler, hhandlerNext⟩ :=
      (orderly_playAll past).numbers (grounded_playAll past) (Option.mem_toList.mp hr)
    rcases List.mem_pair.mp hnumber with rfl | rfl
    · exact ⟨fun hgiven => absurd hgiven (by simp [System.Given, hhandler]), hhandlerNext⟩
    · exact ⟨fun hgiven => absurd hgiven (by simp [System.Given, hid]), hidNext⟩
  · have hadvance : (idle.playAll past).advance = (idle.playAll past).begin step := by
      rw [Machine.advance, hrun]
    rw [hadvance]
    cases step with
    | newLog id =>
        rw [List.mem_singleton.mp hmakes]
        simp [System.Given, begin, nameLog, System.addLog, answer, update]
    | newQueue id =>
        rw [List.mem_singleton.mp hmakes]
        simp [System.Given, begin, nameQueue, System.addQueue, answer, update]
    | _ => contradiction

/-! ## Occasions -/

theorem Ready.chosen {scripts : Bool} {m : Machine V} (h : m.Ready scripts) (step : Step V) :
    (m.playAll (m.choosing (some step))).control = .run step ∧
      (m.playAll (m.choosing (some step))).system = m.system := by
  obtain ⟨a, hdone⟩ := h.done
  rcases h.stack with hstack | ⟨-, runner, rest, hstack⟩
  · rw [choosing_of_stack_nil hstack]
    have hbegun : m.playAll ((some step).toList.map .begin) = .start m.system step :=
      play_begin_of_ready hdone hstack step
    rw [hbegun]
    exact ⟨rfl, rfl⟩
  · rw [choosing_of_stack_cons hstack]
    have hbegun : m.playAll [.decide (some step).toList, .advance] = { m with
        stack := .nested runner step.name :: .script runner [] :: rest
        control := .run step } := advance_decided hdone hstack step
    rw [hbegun]
    exact ⟨rfl, rfl⟩

section

variable {scripts : Bool} {chooses : Step V → Prop} {P : Machine V → Prop}

theorem Steady.given_responded (h : Steady scripts chooses P) {m : Machine V} (hm : P m)
    (hready : m.Ready scripts) {step : Step V} (hchooses : chooses step) {number : Number}
    (hgives : number ∈ gives m.system step) :
    ¬ m.system.Given number ∧ (m.responded scripts (some step)).system.Given number := by
  obtain ⟨hrun, hsystem⟩ := hready.chosen step
  have hchosen : P (m.playAll (m.choosing (some step))) :=
    h.chosen hm hready (by simpa using hchooses)
  obtain ⟨n, -, hwaits, hearlier⟩ := h.exists_waits hchosen
  rw [h.responded hchosen hwaits hearlier]
  obtain ⟨past, hpast⟩ := h.reached _ hchosen
  rw [hpast] at hrun hsystem hwaits ⊢
  rw [← hsystem] at hgives ⊢
  obtain ⟨hnew, hgiven⟩ := given_of_gives hrun hgives
  refine ⟨hnew, ?_⟩
  cases n with
  | zero =>
      obtain ⟨⟨a, hdone⟩, -⟩ := waits_iff.mp hwaits
      rw [advances_zero, hrun] at hdone
      contradiction
  | succ n =>
      have hlater : ((idle.playAll past).advances (n + 1)).play (.decide []) =
          (idle.playAll (past ++ [.advance])).playAll (List.replicate n .advance ++ [.decide []]) := by
        simp only [playAll_append, playAll_cons, playAll_nil, advances_succ]
        rfl
      rw [hlater]
      refine given_playAll _ _ ?_
      rw [playAll_append]
      exact hgiven

theorem Steady.occasions_apart (h : Steady scripts chooses P) {m : Machine V} (hm : P m)
    (hready : m.Ready scripts) {choices : List (Option (Step V))}
    (hchoices : ∀ step, some step ∈ choices → chooses step) :
    (∀ x ∈ m.occasions scripts choices, ∀ number,
        m.system.Given number → x.1.system.Given number) ∧
      (m.occasions scripts choices).Pairwise fun x y =>
        (gives x.1.system x.2).Disjoint (gives y.1.system y.2) := by
  induction choices generalizing m with
  | nil => exact ⟨by simp [occasions], .nil⟩
  | cons choice choices ih =>
      obtain ⟨hnext, hwaits⟩ := h.kept hm hready fun step hstep =>
        hchoices step (hstep ▸ List.mem_cons_self)
      have hrest : ∀ step, some step ∈ choices → chooses step := fun step hstep =>
        hchoices step (List.mem_cons_of_mem _ hstep)
      obtain ⟨hgiven, hapart⟩ := ih hnext hwaits hrest
      have hkept {number : Number} (hnumber : m.system.Given number) :
          (m.responded scripts choice).system.Given number := by
        obtain ⟨past, rfl⟩ := h.reached m hm
        exact given_playAll _ _ hnumber
      have hlater : ∀ x ∈ (m.responded scripts choice).occasions scripts choices, ∀ number,
          m.system.Given number → x.1.system.Given number := fun x hx number hnumber =>
        hgiven x hx number (hkept hnumber)
      cases choice with
      | none => exact ⟨hlater, hapart⟩
      | some step =>
          have hchooses := hchoices step List.mem_cons_self
          refine ⟨List.forall_mem_cons.mpr ⟨fun _ hnumber => hnumber, hlater⟩,
            List.pairwise_cons.mpr ⟨fun y hy number hx hy' => ?_, hapart⟩⟩
          have hnumber := hgiven y hy number (h.given_responded hm hready hchooses hx).2
          obtain ⟨hkind, hready', hmem⟩ := h.mem_occasions hnext hwaits hrest y hy
          exact (h.given_responded hkind hready' (hrest y.2 hmem) hy').1 hnumber

end

end Machine

/-! ## What is extra -/

/-- Names and numbers are left out, and nothing else. -/
def View.leavingOut (extra : Space → String → Bool) (numbers : List Number) : View where
  keys := fun _ => true
  names := fun space id => !extra space id
  handlers := fun n => .handler n ∉ numbers
  subscriptions := fun i id => .subscription i id ∉ numbers
  logs := fun n => .log n ∉ numbers
  queues := fun n => .queue n ∉ numbers
  calls := true

/-- The step makes, takes out or drops a relay, a log, a queue or a subscription that is extra,
and does nothing else. -/
def Step.isExtra (extra : Space → String → Bool) (step : Step V) : Bool :=
  (View.leavingOut extra []).hides step

def withoutExtra (extra : Space → String → Bool) (choices : List (Option (Step V))) :
    List (Option (Step V)) :=
  (View.leavingOut extra []).choices choices

namespace Machine

variable [Storable V] {extra : Space → String → Bool} {choices : List (Option (Step V))}

def extraNumbers (extra : Space → String → Bool) (choices : List (Option (Step V))) :
    List Number :=
  (idle.occasions true choices).flatMap fun x =>
    if x.2.isExtra extra then gives x.1.system x.2 else []

def besides (extra : Space → String → Bool) (choices : List (Option (Step V))) : View :=
  .leavingOut extra (extraNumbers extra choices)

/-- What is extra is named by no other step, handlers do not look at the number of subscribers,
and no area lives only for what is extra. -/
structure Unobtrusive (extra : Space → String → Bool) (choices : List (Option (Step V))) :
    Prop where
  names : ∀ step, some step ∈ choices → ¬ step.isExtra extra →
    ∀ named ∈ step.mentions, ¬ extra named.1 named.2
  counts : ∀ x ∈ idle.occasions true choices, x.2.countsSubscribers → x.1.stack = []
  unaided : ∀ past, past <+: idle.led true choices →
    (besides extra choices).Unaided (idle.playAll past)

theorem steady_all : Steady true (fun _ : Step V => True)
    fun m => ∃ moves, m = idle.playAll moves where
  reached := fun _ h => h
  goes := fun _ _ _ _ _ _ _ => rfl
  play := by
    rintro m move ⟨moves, rfl⟩ -
    exact ⟨moves ++ [move], by simp⟩

theorem mem_extraNumbers {x : Machine V × Step V} (hx : x ∈ idle.occasions true choices)
    (hextra : x.2.isExtra extra) {number : Number} (hgives : number ∈ gives x.1.system x.2) :
    number ∈ extraNumbers extra choices :=
  List.mem_flatMap.mpr ⟨x, hx, by rwa [if_pos hextra]⟩

theorem not_mem_extraNumbers {x : Machine V × Step V} (hx : x ∈ idle.occasions true choices)
    (hextra : ¬ x.2.isExtra extra) {number : Number} (hgives : number ∈ gives x.1.system x.2) :
    number ∉ extraNumbers extra choices := by
  intro hnumber
  obtain ⟨y, hy, hgives'⟩ := List.mem_flatMap.mp hnumber
  have hother : y.2.isExtra extra := by
    by_contra hother
    rw [if_neg hother] at hgives'
    contradiction
  rw [if_pos hother] at hgives'
  have hne : x ≠ y := by
    rintro rfl
    exact hextra hother
  have hsymm : Std.Symm fun x y : Machine V × Step V =>
      (gives x.1.system x.2).Disjoint (gives y.1.system y.2) :=
    ⟨fun _ _ hdisjoint => hdisjoint.symm⟩
  have hchoices : ∀ step, some step ∈ choices → True := fun _ _ => trivial
  obtain ⟨-, hapart⟩ := steady_all.occasions_apart ⟨[], rfl⟩ (ready_idle true) hchoices
  exact hapart.forall hx hy hne hgives hgives'

omit [Storable V] in
theorem registering_mem_gives {s : System V} {step : Step V} {handle : Handle}
    (hsubscribing : step.subscribing? s = some handle)
    (hallowed : .subscribe ∉ (s.faultsOf handle).failing) :
    .handler s.handlers.length ∈ gives s step ∧
      .subscription handle.area (s.area handle.area).nextSubscriber ∈ gives s step := by
  have hregistering : (start s step).registering? = some ⟨handle.area,
      (s.area handle.area).nextSubscriber, handle.tab, s.handlers.length⟩ := by
    simp [registering?, subscribing?, start, hsubscribing, hallowed]
  rw [gives, hregistering]
  exact ⟨List.mem_append_left _ (by simp [Registration.numbers]),
    List.mem_append_left _ (by simp [Registration.numbers])⟩

omit [Storable V] in
theorem log_mem_gives (s : System V) (id : String) :
    .log s.logs.length ∈ gives s (.newLog id) :=
  List.mem_append_right _ (List.mem_singleton.mpr rfl)

omit [Storable V] in
theorem queue_mem_gives (s : System V) (id : String) :
    .queue s.queues.length ∈ gives s (.newQueue id) :=
  List.mem_append_right _ (List.mem_singleton.mpr rfl)

theorem hides_besides {x : Machine V × Step V} (hx : x ∈ idle.occasions true choices)
    (hextra : x.2.isExtra extra) : (besides extra choices).Hides x.1.system x.2 := by
  obtain ⟨m, step⟩ := x
  have hunseen {number : Number} (hgives : number ∈ gives m.system step) :
      ¬ decide (number ∉ extraNumbers extra choices) := fun hseen =>
    of_decide_eq_true hseen (mem_extraNumbers hx hextra hgives)
  refine ⟨hextra, fun handle hsubscribing hallowed => ?_, ?_, ?_⟩
  · obtain ⟨hhandler, hid⟩ := registering_mem_gives hsubscribing hallowed
    exact ⟨hunseen hhandler, hunseen hid⟩
  · rintro id rfl
    exact hunseen (log_mem_gives m.system id)
  · rintro id rfl
    exact hunseen (queue_mem_gives m.system id)

theorem suits_besides {x : Machine V × Step V} (hx : x ∈ idle.occasions true choices)
    (hextra : ¬ x.2.isExtra extra)
    (hnames : ∀ named ∈ x.2.mentions, ¬ extra named.1 named.2)
    (hcounts : ¬ x.2.countsSubscribers) : Suits (besides extra choices) x.1.system x.2 := by
  obtain ⟨m, step⟩ := x
  have hseen {number : Number} (hgives : number ∈ gives m.system step) :
      decide (number ∉ extraNumbers extra choices) :=
    decide_eq_true (not_mem_extraNumbers hx hextra hgives)
  exact
    { names := fun named hnamed => by
        simpa [besides, View.leavingOut] using hnames named hnamed
      counts := by simpa using hcounts
      reads := fun _ _ => rfl
      changes := fun _ _ => rfl
      quota := .inl fun _ => rfl
      registers := fun handle hsubscribing hallowed => by
        obtain ⟨hhandler, hid⟩ := registering_mem_gives hsubscribing hallowed
        exact ⟨hseen hhandler, hseen hid⟩
      log := by
        rintro id rfl
        exact hseen (log_mem_gives m.system id)
      queue := by
        rintro id rfl
        exact hseen (queue_mem_gives m.system id) }

theorem Unobtrusive.divides (h : Unobtrusive extra choices) :
    Divides (besides extra choices) true (idle : Machine V) choices where
  whole := fun _ _ => rfl
  calm := fun past hpast => ⟨h.unaided past hpast, .inl fun _ => rfl⟩
  hides := fun x hx hextra => hides_besides hx hextra
  suits := by
    intro x hx hextra hcounts
    have hmem := steady_all.mem_occasions (m := idle) ⟨[], rfl⟩ (ready_idle true)
      (fun _ _ => trivial) x hx
    exact suits_besides hx hextra (h.names x.2 hmem.2.2 hextra) hcounts
  counts := h.counts

/-! ## The session without what is extra -/

end Machine

/-- Of marks only warnings are looked at. -/
def Entry.isReported : Entry V → Bool
  | .mark noted => (Entry.mark noted : Entry V).isWarning
  | _ => true

namespace Machine

variable [Storable V] {extra : Space → String → Bool} {choices : List (Option (Step V))}

theorem seesEntry_besides :
    (besides extra choices).seesEntry = (Entry.isReported : Entry V → Bool) := by
  funext entry
  cases entry with
  | heard name event =>
      exact View.about_of_all (v := besides extra choices) (fun _ => rfl) event.key
  | told name change =>
      exact View.about_of_all (v := besides extra choices) (fun _ => rfl) change.key?
  | _ => rfl

theorem Unobtrusive.follows (h : Unobtrusive extra choices) {past : List (Option (Step V))}
    (hpast : past <+: choices) :
    Paired (besides extra choices) true (fun m => ∃ moves, m = idle.playAll moves)
        (idle.playAll (idle.led true past))
        (idle.playAll (idle.led true (withoutExtra extra past))) ∧
      (idle.exchanges Entry.isReported true (withoutExtra extra past)).map (·.outcome) =
        ((idle.exchanges Entry.isReported true past).filter fun x =>
          !x.choice.any (·.isExtra extra)).map (·.outcome) ∧
      ∀ x ∈ idle.exchanges Entry.isReported true past, x.choice.any (·.isExtra extra) →
        ∀ entry ∈ x.said, entry.isNested := by
  obtain ⟨later, rfl⟩ := hpast
  obtain ⟨hpaired, hsame, hothers⟩ := (paired_idle (besides extra (past ++ later)) true
    ⟨[], rfl⟩).follows_led steady_all (fun _ _ => trivial) (fun _ _ => trivial)
      h.divides.of_append
  rw [seesEntry_besides] at hsame hothers
  exact ⟨hpaired, hsame, fun x hx hextra => (hothers x hx hextra).1⟩

/-- Subscriptions, relays, logs and queues that merely record go unnoticed: without them each
choice is answered and heard of as before, and after each of them all areas, logs and queues hold
the same. -/
theorem extra_goes_unnoticed (h : Unobtrusive extra choices) :
    (idle.exchanges Entry.isReported true (withoutExtra extra choices)).map (·.outcome) =
        ((idle.exchanges Entry.isReported true choices).filter fun x =>
          !x.choice.any (·.isExtra extra)).map (·.outcome) ∧
      (∀ x ∈ idle.exchanges Entry.isReported true choices, x.choice.any (·.isExtra extra) →
        ∀ entry ∈ x.said, entry.isNested) ∧
      ∀ past, past <+: choices →
        let m := idle.playAll (idle.led true past)
        let p := idle.playAll (idle.led true (withoutExtra extra past))
        m.Ready true ∧ p.Ready true ∧
          p.system = (besides extra choices).system m.system ∧
          (∀ i, (p.system.area i).entries = (m.system.area i).entries) ∧
          (∀ id, ¬ extra .log id →
            (Keyed.lookup? id p.system.logNames).map p.system.log =
              (Keyed.lookup? id m.system.logNames).map m.system.log) ∧
          ∀ id, ¬ extra .queue id →
            (Keyed.lookup? id p.system.queueNames).map p.system.queue =
              (Keyed.lookup? id m.system.queueNames).map fun queue =>
                (m.system.queue queue).map (besides extra choices).task := by
  obtain ⟨-, hsame, hothers⟩ := h.follows (List.prefix_refl choices)
  refine ⟨hsame, hothers, fun past hpast => ?_⟩
  intro m p
  obtain ⟨hpaired, -⟩ := h.follows hpast
  have hsystem : p.system = (besides extra choices).system m.system := hpaired.system
  refine ⟨hpaired.ready.1, hpaired.ready.2, hsystem, fun i => ?_, fun id hid => ?_,
    fun id hid => ?_⟩
  · rw [hsystem, View.system_area]
    exact View.entries_of_all (fun _ => rfl) _
  · have hname : (besides extra choices).names .log id := by
      simpa [besides, View.leavingOut] using hid
    have hlookup : Keyed.lookup? id p.system.logNames =
        (Keyed.lookup? id m.system.logNames).map (rank (besides extra choices).logs) := by
      rw [hsystem]
      exact View.lookup?_named hname _
    rw [hlookup, Option.map_map]
    refine Option.map_congr fun log hlog => ?_
    rw [Function.comp, hsystem, View.system_log (hpaired.closed.seesLog hname hlog)]
    exact View.log_of_all (fun _ => rfl) _
  · have hname : (besides extra choices).names .queue id := by
      simpa [besides, View.leavingOut] using hid
    have hlookup : Keyed.lookup? id p.system.queueNames =
        (Keyed.lookup? id m.system.queueNames).map (rank (besides extra choices).queues) := by
      rw [hsystem]
      exact View.lookup?_named hname _
    rw [hlookup, Option.map_map]
    refine Option.map_congr fun queue hqueue => ?_
    rw [Function.comp, hsystem, View.system_queue (hpaired.closed.seesQueue hname hqueue)]

/-! ### Areas with a storage name -/

end Machine

def Reaction.handle? : Reaction V → Option Handle
  | .script _ _ => none
  | .forward relay => some relay.handle

def System.stores (s : System V) (i : Nat) : Bool := s.storageNames.any fun p => p.2.area = i

def System.isStored (s : System V) : Bool :=
  s.relayNames.all (fun p => s.stores p.2.handle.area) &&
    s.handlers.all fun handler => handler.reaction.handle?.all fun handle => s.stores handle.area

theorem View.unaided_of_isStored {v : View} {m : Machine V} (h : m.system.isStored) :
    v.Unaided m := by
  simp only [System.isStored, Bool.and_eq_true, List.all_eq_true] at h
  have hstored {i : Nat} (hi : m.system.stores i) : v.Kept m i := by
    obtain ⟨p, hp, harea⟩ := List.any_eq_true.mp hi
    exact .storage hp (of_decide_eq_true harea)
  intro i halive
  rcases Machine.isAlive_iff.mp halive with (⟨p, hp, hi⟩ | ⟨p, hp, hi⟩) | ⟨handler, hhandler, hi⟩ |
    ⟨frame, hframe, hi⟩
  · exact .storage hp hi
  · exact hstored (hi ▸ h.1 p hp)
  · have hhandle := h.2 handler hhandler
    simp only [Handler.keeps, Bool.and_eq_true] at hi
    cases hreaction : handler.reaction with
    | script script own => simp [hreaction, Reaction.keeps] at hi
    | forward relay =>
        simp only [hreaction, Reaction.keeps, decide_eq_true_eq] at hi
        simp only [hreaction, Reaction.handle?, Option.all_some] at hhandle
        exact hstored (hi.2 ▸ hhandle)
  · exact .frame hframe hi

namespace Machine

variable [Storable V]

/-- All along the areas of relays and of handlers have storage names. -/
def storedAlong (m : Machine V) : List (Move V) → Bool
  | [] => m.system.isStored
  | move :: moves => m.system.isStored && (m.play move).storedAlong moves

theorem isStored_along {m : Machine V} {past moves : List (Move V)}
    (h : m.storedAlong moves) (hpast : past <+: moves) : (m.playAll past).system.isStored := by
  induction past generalizing m moves with
  | nil =>
      cases moves with
      | nil => exact h
      | cons move moves => exact (Bool.and_eq_true_iff.mp h).1
  | cons move past ih =>
      obtain ⟨later, rfl⟩ := hpast
      exact ih (Bool.and_eq_true_iff.mp h).2 (List.prefix_append past later)

theorem unobtrusive_of_storedAlong {extra : Space → String → Bool}
    {choices : List (Option (Step V))}
    (hnames : ∀ choice ∈ choices, ∀ step ∈ choice, ¬ step.isExtra extra →
      ∀ named ∈ step.mentions, ¬ extra named.1 named.2)
    (hcounts : ∀ x ∈ idle.occasions true choices, x.2.countsSubscribers → x.1.stack.isEmpty)
    (hstored : idle.storedAlong (idle.led true choices)) : Unobtrusive extra choices where
  names := fun step hstep => hnames (some step) hstep step rfl
  counts := fun x hx hcounts' => List.isEmpty_iff.mp (hcounts x hx hcounts')
  unaided := fun _ hpast => View.unaided_of_isStored (isStored_along hstored hpast)

theorem listener_goes_unnoticed :
    let extra : Space → String → Bool := fun _ id => id = "extra"
    let choices : List (Option (Step Draft)) :=
      [some (.new "a" .localArea), some (.openTab "b" "a"), some (.newLog "extra"),
        some (.newQueue "extra"), some (.relayToLog "extra" "b" "extra" "extra"),
        some (.listen "extra" "extra"), some (.subscribe "b" "s" [] none []),
        some (.set "a" "k" "1"), some (.dropSubscription "extra"), some (.set "b" "k" "2"), none,
        some (.askArea "a" .subscriberCount)]
    Unobtrusive extra choices ∧
      (idle.exchanges Entry.isReported true (withoutExtra extra choices)).map (·.outcome) =
        ((idle.exchanges Entry.isReported true choices).filter fun x =>
          !x.choice.any (·.isExtra extra)).map (·.outcome) := by
  intro extra choices
  have h : Unobtrusive extra choices := unobtrusive_of_storedAlong (by decide) (by decide) (by decide)
  exact ⟨h, (extra_goes_unnoticed h).1⟩

/-- The handler of a relay that listens keeps its area.  Without it the area is gone with its
last name, and with its subscriber the subscription that this one owns. -/
theorem listener_keeps_area :
    let opening : List (Option (Step Draft)) :=
      [some (.new "a" .localArea), some (.new "b" .sessionArea), some (.openTab "c" "b"),
        some (.newLog "l"), some (.newQueue "q"), some (.relayToLog "r" "a" "q" "l"),
        some (.subscribe "c" "s" [] none []), some (.subscribe "a" "t" [] none ["s"])]
    let closing : List (Option (Step Draft)) :=
      [some (.dropRelay "r"), some (.dropStorage "a"), some (.set "b" "k" "v"), none]
    (idle.exchanges Entry.isReported true (opening ++ closing)).flatMap (·.said) = [] ∧
      (idle.exchanges Entry.isReported true
        (opening ++ some (.listen "r" "x") :: closing)).flatMap (·.said) =
          [.heard "s" ⟨some "k", none, some "v", some .sessionArea⟩] := by
  decide

end Machine

end TabRelay.Session
