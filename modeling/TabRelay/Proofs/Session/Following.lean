import TabRelay.Proofs.Session.Lockstep

/-!
# What is seen of a session

A session is led by choices.  When those that are not seen are left out, what is
seen of it goes through the same: after each choice that is left the same is told
and answered, and what is seen of the one session is all of the other.
-/

namespace TabRelay.Session

open TabRelay.Storage

variable {V : Type}

def Entry.isNested : Entry V → Bool
  | .nested .. => true
  | _ => false

namespace View

variable (v : View)

def hidesChoice (choice : Option (Step V)) : Bool := choice.any v.hides

def choices (choices : List (Option (Step V))) : List (Option (Step V)) :=
  (choices.filter fun choice => !v.hidesChoice choice).map (·.map v.step)

end View

namespace Machine

variable {v : View} {before : List (Entry V) × List (Entry V)} {m p : Machine V}

/-! ## Until the machines wait -/

/-- No area lives only for what is not seen, and what is heard unseen is at most recorded. -/
structure Calm (v : View) (m : Machine V) : Prop where
  unaided : v.Unaided m
  quiet : v.Quiet m

theorem InStep.answer?_eq (h : InStep v before m p) : p.answer? = m.answer? := by
  unfold answer?
  rw [h.control, h.stack]
  cases m.stack with
  | nil => cases m.control <;> rfl
  | cons frame rest => rfl

variable [Storable V] {scripts : Bool} {chooses : Step V → Prop} {P : Machine V → Prop}

theorem InStep.decide (h : InStep v before m p) :
    InStep v before (m.play (.decide [])) (p.play (.decide [])) := by
  cases hstack : m.stack with
  | nil =>
      have hnone : p.stack = [] := by rw [h.stack, hstack]; rfl
      simpa only [play, hstack, hnone] using h
  | cons top rest =>
      obtain ⟨-, hstack', hpopped⟩ := h.toShows.pop hstack
      cases top with
      | script runner left =>
          have hpush := hpopped.push (f := .script runner []) rfl
          simp only [play, hstack, hstack', View.frame]
          exact ⟨⟨⟨hpush.system, hpush.stack, hpush.closed, hpush.frames⟩, hpush.said⟩, h.control⟩
      | _ =>
          simp only [play, hstack, hstack', View.frame]
          exact h

theorem Joined.settles (hsteady : Steady scripts chooses P)
    (hwhole : scripts → ∀ key, v.keys key) {n : Nat} (h : Joined v before m p) (hm : P m)
    (hp : P p) (hcalm : ∀ k ≤ n, Calm v (m.advances k)) (hwaits : (m.advances n).waits scripts)
    (hearlier : ∀ k < n, ¬ (m.advances k).waits scripts) :
    ∃ j, InStep v before (m.advances n) (p.advances j) ∧ (p.advances j).waits scripts ∧
      ∀ k < j, ¬ (p.advances k).waits scripts := by
  induction n generalizing m p with
  | zero =>
      have hinStep := h.inStep_of_waits hwhole hwaits
      refine ⟨0, hinStep, ?_, by simp⟩
      exact (hinStep.waits_eq scripts).trans hwaits
  | succ n ih =>
      have hnow : ¬ m.waits scripts := hearlier 0 n.succ_pos
      have hfirst := hcalm 0 (Nat.zero_le _)
      have hsecond := hcalm 1 (Nat.succ_le_succ (Nat.zero_le _))
      obtain ⟨hstays, hjoined⟩ := h.advance (hsteady.sound hm) hfirst.unaided hsecond.unaided
        hfirst.quiet (hsteady.done hm hnow) (hsteady.goes m hm) hnow
      have hrest {q : Machine V} (hjoined : Joined v before m.advance q) (hq : P q) :=
        ih hjoined (hsteady.advance m hm) hq
          (fun k hk => hcalm (k + 1) (Nat.succ_le_succ hk)) hwaits
          fun k hk => hearlier (k + 1) (Nat.succ_lt_succ hk)
      rcases hjoined with halone | htogether
      · exact hrest halone hp
      · obtain ⟨j, hinStep, hlast, hbefore⟩ := hrest htogether (hsteady.advance p hp)
        refine ⟨j + 1, hinStep, hlast, fun k hk => ?_⟩
        cases k with
        | zero => exact hstays
        | succ k => exact hbefore k (Nat.lt_of_succ_lt_succ hk)

theorem Apart.settles (hsteady : Steady scripts chooses P)
    (hwhole : scripts → ∀ key, v.keys key) {n : Nat} {above rest : List (Frame V)}
    (h : Apart v above rest m p) (hbase : isBase scripts rest) (hm : P m)
    (hdone : ∃ a, m.control = .done a) (hcalm : ∀ k ≤ n, Calm v (m.advances k))
    (hwaits : (m.advances n).waits scripts)
    (hearlier : ∀ k < n, ¬ (m.advances k).waits scripts) :
    (m.advances n).stack = rest ∧ Shown v (m.advances n) p ∧
      ∃ since, v.said (m.advances n).trace = since ++ v.said m.trace ∧
        (∀ entry ∈ since, entry.isNested) ∧
          ((∀ frame ∈ above, ¬ frame.isNested) → since = []) := by
  -- On the number of advances of the first machine; the second one does not move at all.
  induction n generalizing m above with
  | zero =>
      cases above with
      | nil =>
          have hstack : m.stack = rest := h.stack
          have hshown := h.shown
          rw [← hstack] at hshown
          exact ⟨hstack, hshown, [], rfl, by simp, fun _ => rfl⟩
      | cons top above =>
          exfalso
          have hnow := (waits_iff.mp hwaits).2
          rw [advances_zero, h.stack, List.cons_append] at hnow
          rcases h.aside top List.mem_cons_self with hnested | haside
          · cases top <;> contradiction
          · rw [haside.not_base hwhole] at hnow
            contradiction
  | succ n ih =>
      have hnow : ¬ m.waits scripts := hearlier 0 n.succ_pos
      obtain ⟨a, hdone⟩ := hdone
      cases above with
      | nil =>
          refine absurd (waits_iff.mpr ⟨⟨a, hdone⟩, ?_⟩) hnow
          rwa [show m.stack = rest from h.stack]
      | cons top above =>
          have hfirst := hcalm 0 (Nat.zero_le _)
          obtain ⟨pushed, hpushed, hapart, hdoneNext, hsaid⟩ := h.resumes (hsteady.sound hm)
            hfirst.unaided hfirst.quiet hdone
          obtain ⟨hstack, hshown, since, hsince, hnested, hnone⟩ := ih hapart
            (hsteady.advance m hm) hdoneNext
            (fun k hk => hcalm (k + 1) (Nat.succ_le_succ hk)) hwaits
            fun k hk => hearlier (k + 1) (Nat.succ_lt_succ hk)
          refine ⟨hstack, hshown, since ++ top.outcome a, ?_, ?_, fun hunnested => ?_⟩
          · rw [advances_succ, hsince, hsaid, List.append_assoc]
          · refine List.forall_mem_append.mpr ⟨hnested, ?_⟩
            cases top <;> simp [Frame.outcome, Entry.isNested]
          · obtain ⟨htop, habove⟩ := List.forall_mem_cons.mp hunnested
            have hmore : ∀ frame ∈ pushed, ¬ frame.isNested := fun frame hframe =>
              (hpushed frame hframe).unnested
            rw [hnone (List.forall_mem_append.mpr ⟨hmore, habove⟩),
              Frame.outcome_of_unnested htop, List.append_nil]

/-! ## One choice -/

structure Divides (v : View) (scripts : Bool) (m : Machine V)
    (choices : List (Option (Step V))) : Prop where
  whole : scripts → ∀ key, v.keys key
  calm : ∀ past, past <+: m.led scripts choices → Calm v (m.playAll past)
  hides : ∀ x ∈ m.occasions scripts choices, v.hides x.2 → v.Hides x.1.system x.2
  suits : ∀ x ∈ m.occasions scripts choices, ¬ v.hides x.2 → ¬ x.2.countsSubscribers →
    Suits v x.1.system x.2
  counts : ∀ x ∈ m.occasions scripts choices, x.2.countsSubscribers → x.1.stack = []

theorem Divides.of_append {first second : List (Option (Step V))}
    (h : Divides v scripts m (first ++ second)) : Divides v scripts m first := by
  have hmem : ∀ x ∈ m.occasions scripts first, x ∈ m.occasions scripts (first ++ second) := by
    rw [occasions_append]
    exact fun x hx => List.mem_append_left _ hx
  refine ⟨h.whole, fun past hpast => h.calm past (hpast.trans ?_),
    fun x hx => h.hides x (hmem x hx), fun x hx => h.suits x (hmem x hx),
    fun x hx => h.counts x (hmem x hx)⟩
  rw [led_append]
  exact List.prefix_append _ _

theorem Divides.rest {choice : Option (Step V)} {choices : List (Option (Step V))}
    (h : Divides v scripts m (choice :: choices)) :
    Divides v scripts (m.responded scripts choice) choices := by
  have hmem : ∀ x ∈ (m.responded scripts choice).occasions scripts choices,
      x ∈ m.occasions scripts (choice :: choices) := fun x hx => List.mem_append_right _ hx
  refine ⟨h.whole, fun past hpast => ?_, fun x hx => h.hides x (hmem x hx),
    fun x hx => h.suits x (hmem x hx), fun x hx => h.counts x (hmem x hx)⟩
  have hplayed : (m.responded scripts choice).playAll past =
      m.playAll (m.responding scripts choice ++ past) := by
    rw [playAll_append, responded]
  rw [hplayed]
  exact h.calm _ ((List.prefix_append_right_inj _).mpr hpast)

theorem Divides.calm_advances {choice : Option (Step V)} (h : Divides v scripts m [choice])
    (hsteady : Steady scripts chooses P) (hchosen : P (m.playAll (m.choosing choice))) {n : Nat}
    (hwaits : ((m.playAll (m.choosing choice)).advances n).waits scripts)
    (hearlier : ∀ k < n, ¬ ((m.playAll (m.choosing choice)).advances k).waits scripts) :
    ∀ k ≤ n, Calm v ((m.playAll (m.choosing choice)).advances k) := by
  intro k hk
  have hcalm := h.calm (m.choosing choice ++ List.replicate k .advance) (by
    have hmore : List.replicate k (.advance : Move V) ++ List.replicate (n - k) .advance =
        List.replicate n .advance := by
      rw [List.replicate_append_replicate]
      congr 1
      omega
    simp only [led, responding, hsteady.untilWaits hchosen hwaits hearlier, List.append_nil,
      ← hmore, List.append_assoc]
    simp)
  simpa only [playAll_append, advances] using hcalm

theorem InStep.responded {choice choice' : Option (Step V)} (hsteady : Steady scripts chooses P)
    (hdivides : Divides v scripts m [choice])
    (h : InStep v before (m.playAll (m.choosing choice)) (p.playAll (p.choosing choice')))
    (hsuits : ∀ step, (m.playAll (m.choosing choice)).control = .run step →
      Suits v (m.playAll (m.choosing choice)).system step)
    (hm : P (m.playAll (m.choosing choice))) (hp : P (p.playAll (p.choosing choice'))) :
    InStep v before (m.responded scripts choice) (p.responded scripts choice') := by
  obtain ⟨n, -, hwaits, hearlier⟩ := hsteady.exists_waits hm
  obtain ⟨j, hinStep, hwaits', hearlier'⟩ := (Joined.inStep h hsuits).settles hsteady
    hdivides.whole hm hp (hdivides.calm_advances hsteady hm hwaits hearlier) hwaits hearlier
  rw [hsteady.responded hm hwaits hearlier, hsteady.responded hp hwaits' hearlier']
  exact hinStep.decide

/-! ### The moves of a choice -/

omit [Storable V] in
theorem choosing_of_stack_nil (hstack : m.stack = []) (choice : Option (Step V)) :
    m.choosing choice = choice.toList.map .begin := by
  simp [choosing, hstack]

omit [Storable V] in
theorem choosing_of_stack_cons {top : Frame V} {rest : List (Frame V)}
    (hstack : m.stack = top :: rest) (choice : Option (Step V)) :
    m.choosing choice = [.decide choice.toList, .advance] := by
  simp [choosing, hstack]

theorem play_begin_of_ready {a : Answer V} (hdone : m.control = .done a) (hstack : m.stack = [])
    (step : Step V) : m.play (.begin step) = .start m.system step := by
  simp [play, answer?, hstack, hdone]

theorem advance_decided {a : Answer V} (hdone : m.control = .done a) {runner : String}
    {left : List (Step V)} {rest : List (Frame V)} (hstack : m.stack = .script runner left :: rest)
    (step : Step V) :
    (m.play (.decide [step])).advance =
      { m with
        stack := .nested runner step.name :: .script runner [] :: rest
        control := .run step } := by
  simp only [play, hstack, Machine.advance, hdone, resume, push]

omit [Storable V] in
theorem name_step (step : Step V) : (v.step step).name = step.name := by
  cases step <;> rfl

theorem begin_of_counts {step : Step V} (hcounts : step.countsSubscribers) (hfree : m.Unheld) :
    ∃ a, m.begin step = m.answer a := by
  cases step with
  | askArea storage question =>
      simp only [begin, withStorage, withNamed]
      cases Keyed.lookup? storage m.system.storageNames with
      | none => exact ⟨_, rfl⟩
      | some handle =>
          simp only [askArea, whenFree_of_unheld hfree]
          cases question <;> first | exact ⟨_, rfl⟩ | contradiction
  | showSubscription id =>
      simp only [begin, withNamed]
      cases Keyed.lookup? id m.system.subscriptionNames with
      | none => exact ⟨_, rfl⟩
      | some sub => exact ⟨_, rfl⟩
  | _ => contradiction

omit [Storable V] in
theorem counts_step (step : Step V) :
    (v.step step).countsSubscribers = step.countsSubscribers := by
  cases step <;> rfl

omit [Storable V] in
theorem step_of_counts {step : Step V} (hcounts : step.countsSubscribers) : v.step step = step := by
  cases step <;> first | rfl | contradiction

theorem responded_of_counts (hsteady : Steady scripts chooses P) (hm : P m) {step : Step V}
    (hchooses : chooses step) (hcounts : step.countsSubscribers) {a : Answer V}
    (hdone : m.control = .done a) (hstack : m.stack = []) :
    ∃ b, m.responded scripts (some step) = (start m.system step).answer b := by
  have hchosen : m.playAll (m.choosing (some step)) = .start m.system step := by
    rw [choosing_of_stack_nil hstack]
    exact play_begin_of_ready hdone hstack step
  have hready : m.Ready scripts := ⟨⟨a, hdone⟩, .inl hstack⟩
  have hkept : P (m.playAll (m.choosing (some step))) :=
    hsteady.chosen hm hready (by simpa using hchooses)
  obtain ⟨b, hb⟩ := begin_of_counts (m := start m.system step) hcounts fun cell => rfl
  have hadvance : (start m.system step).advances 1 = (start m.system step).answer b := hb
  refine ⟨b, ?_⟩
  rw [hsteady.responded (n := 1) hkept, hchosen, hadvance]
  · rfl
  · rw [hchosen, hadvance]
    exact waits_iff.mpr ⟨⟨b, rfl⟩, rfl⟩
  · intro k hk
    rw [Nat.lt_one_iff.mp hk, hchosen]
    simp [waits, start]

/-! ### Choices that are seen -/

theorem InStep.chosen (h : Shown v m p) {a b : Answer V} (hdone : m.control = .done a)
    (hdone' : p.control = .done b) (hstack : m.stack = []) (step : Step V) :
    m.playAll (m.choosing (some step)) = .start m.system step ∧
      InStep v ([], []) (m.playAll (m.choosing (some step)))
        (p.playAll (p.choosing (some (v.step step)))) := by
  have hstack' : p.stack = [] := by rw [h.stack, hstack]; rfl
  have hchosen (q : Machine V) {c : Answer V} (hq : q.control = .done c) (hempty : q.stack = [])
      (step : Step V) : q.playAll (q.choosing (some step)) = .start q.system step := by
    rw [choosing_of_stack_nil hempty]
    exact play_begin_of_ready hq hempty step
  rw [hchosen m hdone hstack, hchosen p hdone' hstack']
  exact ⟨rfl, ⟨⟨h.system, rfl, h.closed, by simp [start]⟩, [], rfl, rfl⟩, rfl⟩

theorem InStep.decided (h : Shown v m p) {a b : Answer V} (hdone : m.control = .done a)
    (hdone' : p.control = .done b) {runner : String} {rest : List (Frame V)}
    (hstack : m.stack = .script runner [] :: rest) (choice : Option (Step V)) :
    ((m.playAll (m.choosing choice)).system = m.system ∧
      ∀ step, (m.playAll (m.choosing choice)).control = .run step → choice = some step) ∧
      InStep v (v.said m.trace, v.said p.trace) (m.playAll (m.choosing choice))
        (p.playAll (p.choosing (choice.map v.step))) := by
  have hshows : Shows v (v.said m.trace, v.said p.trace) m p := ⟨h, [], rfl, rfl⟩
  obtain ⟨-, hstack', hpopped⟩ := hshows.pop hstack
  rw [choosing_of_stack_cons hstack, choosing_of_stack_cons hstack']
  cases choice with
  | none =>
      have hover (q : Machine V) {c : Answer V} (hq : q.control = .done c)
          {below : List (Frame V)} (hbelow : q.stack = .script runner [] :: below) :
          q.playAll [.decide [], .advance] =
            ({ q with stack := below } : Machine V).answer .ok := by
        simp only [playAll_cons, playAll_nil, play, hbelow, Machine.advance, hq, resume]
      rw [Option.map_none, Option.toList_none, hover m hdone hstack, hover p hdone' hstack']
      exact ⟨⟨rfl, by simp [answer]⟩, hpopped.answer .ok⟩
  | some step =>
      have hbegins (q : Machine V) {c : Answer V} (hq : q.control = .done c)
          {below : List (Frame V)} (hbelow : q.stack = .script runner [] :: below)
          (step : Step V) : q.playAll [.decide [step], .advance] =
            { q with
              stack := .nested runner step.name :: .script runner [] :: below
              control := .run step } := advance_decided hq hbelow step
      rw [Option.map_some, Option.toList_some, Option.toList_some, hbegins m hdone hstack,
        hbegins p hdone' hstack', name_step]
      have hpush := (hpopped.push (f := .script runner []) rfl).push
        (f := .nested runner step.name) rfl
      refine ⟨⟨rfl, fun other hrun => ?_⟩, ⟨⟨?_, hpush.said⟩, rfl⟩⟩
      · cases hrun
        rfl
      · exact ⟨hpush.system, hpush.stack, hpush.closed, hpush.frames⟩

omit [Storable V] in
theorem InStep.told_eq {earlier earlier' : List (Entry V)}
    (h : InStep v (v.said earlier, v.said earlier') m p) :
    told v.seesEntry earlier' p.trace = told v.seesEntry earlier m.trace := by
  obtain ⟨since, hwhole, hpart⟩ := h.said
  rw [Machine.told_eq hwhole, Machine.told_eq hpart]

theorem responded_none (hsteady : Steady scripts chooses P) (hm : P m) {a : Answer V}
    (hdone : m.control = .done a) (hstack : m.stack = []) : m.responded scripts none = m := by
  have hnone : m.playAll (m.choosing none) = m := by
    rw [choosing_of_stack_nil hstack]
    rfl
  have hwaits : m.waits scripts := Ready.waits ⟨⟨a, hdone⟩, .inl hstack⟩
  rw [hsteady.responded (n := 0) (hnone.symm ▸ hm) (by rwa [hnone]) (by simp), hnone]
  simp [play, hstack]

/-- Two machines of one kind that wait, the second one being what is seen of the first. -/
structure Paired (v : View) (scripts : Bool) (P : Machine V → Prop) (m p : Machine V) : Prop
    extends Shown v m p where
  kind : P m ∧ P p
  ready : m.Ready scripts ∧ p.Ready scripts

omit [Storable V] in
theorem chooses_map {choice : Option (Step V)}
    (hview : ∀ step, chooses step → chooses (v.step step))
    (hchooses : ∀ step, choice = some step → chooses step) :
    ∀ step, choice.map v.step = some step → chooses step := by
  intro step hstep
  obtain ⟨old, hold, rfl⟩ := Option.map_eq_some_iff.mp hstep
  exact hview old (hchooses old hold)

theorem Paired.of_shown (h : Paired v scripts P m p) (hsteady : Steady scripts chooses P)
    (hview : ∀ step, chooses step → chooses (v.step step)) {choice : Option (Step V)}
    (hchooses : ∀ step, choice = some step → chooses step)
    (hshown : Shown v (m.responded scripts choice) (p.responded scripts (choice.map v.step))) :
    Paired v scripts P (m.responded scripts choice) (p.responded scripts (choice.map v.step)) := by
  obtain ⟨hkind, hwaits⟩ := hsteady.kept h.kind.1 h.ready.1 hchooses
  obtain ⟨hkind', hwaits'⟩ := hsteady.kept h.kind.2 h.ready.2 (chooses_map hview hchooses)
  exact ⟨hshown, ⟨hkind, hkind'⟩, ⟨hwaits, hwaits'⟩⟩

theorem Paired.counts (h : Paired v scripts P m p) (hsteady : Steady scripts chooses P)
    (hstack : m.stack = []) {step : Step V} (hchooses : chooses step)
    (hcounts : step.countsSubscribers) :
    Shown v (m.responded scripts (some step)) (p.responded scripts (some (v.step step))) ∧
      (p.exchange v.seesEntry scripts (some (v.step step))).outcome =
        (m.exchange v.seesEntry scripts (some step)).outcome := by
  have hstack' : p.stack = [] := by rw [h.stack, hstack]; rfl
  obtain ⟨a, hdone⟩ := h.ready.1.done
  obtain ⟨b, hdone'⟩ := h.ready.2.done
  obtain ⟨c, hc⟩ := responded_of_counts hsteady h.kind.1 hchooses hcounts hdone hstack
  obtain ⟨d, hd⟩ := responded_of_counts hsteady h.kind.2 hchooses hcounts hdone' hstack'
  rw [step_of_counts hcounts]
  constructor
  · rw [hc, hd]
    exact ⟨h.system, rfl, h.closed, by simp [start, answer]⟩
  · simp [exchange, hstack, hstack', Exchange.outcome, hcounts, hc, hd, told, start, answer]

theorem Paired.follows (h : Paired v scripts P m p) (hsteady : Steady scripts chooses P)
    (hview : ∀ step, chooses step → chooses (v.step step)) {choice : Option (Step V)}
    (hchooses : ∀ step, choice = some step → chooses step)
    (hdivides : Divides v scripts m [choice]) (hseen : ¬ v.hidesChoice choice) :
    Paired v scripts P (m.responded scripts choice) (p.responded scripts (choice.map v.step)) ∧
      (p.exchange v.seesEntry scripts (choice.map v.step)).outcome =
        (m.exchange v.seesEntry scripts choice).outcome := by
  obtain ⟨hm, hp⟩ := h.kind
  obtain ⟨hready, hready'⟩ := h.ready
  obtain ⟨a, hdone⟩ := hready.done
  obtain ⟨b, hdone'⟩ := hready'.done
  have hchosen := hsteady.chosen hm hready hchooses
  have hchosen' := hsteady.chosen hp hready' (chooses_map hview hchooses)
  have hpaired := h.of_shown hsteady hview hchooses
  have hoccasion {step : Step V} (hstep : choice = some step) :
      (m, step) ∈ m.occasions scripts [choice] := by simp [occasions, hstep]
  have hsuits {step : Step V} (hstep : choice = some step) (hcounts : ¬ step.countsSubscribers) :
      Suits v m.system step := by
    refine hdivides.suits _ (hoccasion hstep) (fun hhides => hseen ?_) hcounts
    rw [hstep]
    exact hhides
  rcases hready.stack with hstack | ⟨-, runner, rest, hstack⟩
  · have hstack' : p.stack = [] := by rw [h.stack, hstack]; rfl
    cases choice with
    | none =>
        have hshown : Shown v (m.responded scripts none) (p.responded scripts none) := by
          rw [responded_none hsteady hm hdone hstack, responded_none hsteady hp hdone' hstack']
          exact h.toShown
        exact ⟨hpaired hshown,
          by simp [exchange, hstack, hstack', Exchange.outcome]⟩
    | some step =>
        by_cases hcounts : step.countsSubscribers
        · obtain ⟨hshown, hsame⟩ := h.counts hsteady hstack (hchooses step rfl) hcounts
          exact ⟨hpaired hshown, hsame⟩
        · obtain ⟨hstart, hinStep⟩ := InStep.chosen h.toShown hdone hdone' hstack step
          have hresponded : InStep v (v.said [], v.said []) (m.responded scripts (some step))
              (p.responded scripts (some (v.step step))) := by
            refine hinStep.responded hsteady hdivides ?_ hchosen hchosen'
            rw [hstart]
            rintro other ⟨⟩
            exact hsuits rfl hcounts
          refine ⟨hpaired hresponded.toShown, ?_⟩
          simp only [Option.map_some, exchange, hstack, hstack', hresponded.told_eq,
            hresponded.answer?_eq, Exchange.outcome, Option.any_some, counts_step]
  · have hstack' : p.stack = .script runner [] :: rest.map v.frame := by rw [h.stack, hstack]; rfl
    obtain ⟨⟨hsystem, hruns⟩, hinStep⟩ := InStep.decided h.toShown hdone hdone' hstack choice
    have hnever {step : Step V} (hstep : choice = some step) : ¬ step.countsSubscribers := by
      intro hcounts
      have hempty := hdivides.counts _ (hoccasion hstep) hcounts
      simp [hstack] at hempty
    have hresponded := hinStep.responded hsteady hdivides
      (fun step hrun => hsystem.symm ▸ hsuits (hruns step hrun) (hnever (hruns step hrun)))
      hchosen hchosen'
    refine ⟨hpaired hresponded.toShown, ?_⟩
    have hcounts : (choice.map v.step).any (·.countsSubscribers) =
        choice.any (·.countsSubscribers) := by
      cases choice <;> simp [counts_step]
    simp only [exchange, hstack, hstack', hresponded.told_eq, hresponded.answer?_eq,
      Exchange.outcome, hcounts]

/-! ### Choices that are not seen -/

theorem Apart.responded {step : Step V} {above rest : List (Frame V)}
    (h : Apart v above rest (m.playAll (m.choosing (some step))) p)
    (hsteady : Steady scripts chooses P) (hchosen : P (m.playAll (m.choosing (some step))))
    (hdivides : Divides v scripts m [some step])
    (hrun : (m.playAll (m.choosing (some step))).control = .run step)
    (hhides : v.Hides (m.playAll (m.choosing (some step))).system step)
    (hrest : rest = [] ∨ scripts ∧ ∃ runner below, rest = .script runner [] :: below) :
    Shown v (m.responded scripts (some step)) p ∧
      ∃ since, v.said (m.responded scripts (some step)).trace =
        since ++ v.said (m.playAll (m.choosing (some step))).trace ∧
          (∀ entry ∈ since, entry.isNested) ∧
            ((∀ frame ∈ above, ¬ frame.isNested) → since = []) := by
  have hbase : isBase scripts rest := by
    rcases hrest with rfl | ⟨hscripts, runner, below, rfl⟩
    · rfl
    · exact hscripts
  obtain ⟨n, -, hwaits, hearlier⟩ := hsteady.exists_waits hchosen
  have hcalm := hdivides.calm_advances hsteady hchosen hwaits hearlier
  have hresponded := hsteady.responded hchosen hwaits hearlier
  generalize m.playAll (m.choosing (some step)) = begun at *
  cases n with
  | zero =>
      obtain ⟨⟨b, hb⟩, -⟩ := waits_iff.mp hwaits
      rw [advances_zero, hrun] at hb
      contradiction
  | succ n =>
      have hfirst := hcalm 0 (Nat.zero_le _)
      obtain ⟨pushed, hpushed, hnext, hdoneNext, hsaid⟩ := h.begins (hsteady.sound hchosen)
        hfirst.unaided hrun hhides
      obtain ⟨hstack, hshown, since, hsince, hnested, hnone⟩ := hnext.settles hsteady hdivides.whole
        hbase (hsteady.advance _ hchosen) hdoneNext
        (fun k hk => hcalm (k + 1) (Nat.succ_le_succ hk)) hwaits
        fun k hk => hearlier (k + 1) (Nat.succ_lt_succ hk)
      have hstackNext : (begun.advances (n + 1)).stack = rest := hstack
      have hleft : (begun.advances (n + 1)).play (.decide []) = begun.advances (n + 1) := by
        rcases hrest with rfl | ⟨-, runner, below, rfl⟩
        · simp only [play, hstackNext]
        · simp only [play, hstackNext]
          rw [← hstackNext]
      rw [hresponded, hleft]
      refine ⟨hshown, since, hsince.trans (congrArg (since ++ ·) hsaid), hnested,
        fun habove => hnone (List.forall_mem_append.mpr ⟨fun frame hframe => ?_, habove⟩)⟩
      exact (hpushed frame hframe).unnested

theorem Paired.ignores (h : Paired v scripts P m p) (hsteady : Steady scripts chooses P)
    {step : Step V} (hchooses : chooses step) (hdivides : Divides v scripts m [some step])
    (hhides : v.hides step) :
    Paired v scripts P (m.responded scripts (some step)) p ∧
      (∀ entry ∈ (m.exchange v.seesEntry scripts (some step)).said, entry.isNested) ∧
        (m.stack = [] → (m.exchange v.seesEntry scripts (some step)).said = []) := by
  obtain ⟨hm, hp⟩ := h.kind
  obtain ⟨hready, hready'⟩ := h.ready
  obtain ⟨a, hdone⟩ := hready.done
  have hchosen : P (m.playAll (m.choosing (some step))) :=
    hsteady.chosen hm hready (by simpa using hchooses)
  have hkept : P (m.responded scripts (some step)) ∧
      (m.responded scripts (some step)).Ready scripts :=
    hsteady.kept hm hready (by simpa using hchooses)
  have hhidden : v.Hides m.system step := hdivides.hides (m, step) (by simp [occasions]) hhides
  have hpaired (hshown : Shown v (m.responded scripts (some step)) p) :
      Paired v scripts P (m.responded scripts (some step)) p :=
    ⟨hshown, ⟨hkept.1, hp⟩, ⟨hkept.2, hready'⟩⟩
  rcases hready.stack with hstack | ⟨hscripts, runner, rest, hstack⟩
  · have hbegun : m.playAll (m.choosing (some step)) = .start m.system step := by
      rw [choosing_of_stack_nil hstack]
      exact play_begin_of_ready hdone hstack step
    have hapart : Apart v [] [] (m.playAll (m.choosing (some step))) p := by
      rw [hbegun]
      refine ⟨rfl, by simp, h.system, ?_, h.closed, by simp⟩
      rw [h.stack, hstack]
    obtain ⟨hshown, since, hsince, hnested, hnone⟩ := hapart.responded hsteady hchosen hdivides
      (by rw [hbegun]; rfl) (by rw [hbegun]; exact hhidden) (.inl rfl)
    have htold : told v.seesEntry [] (m.responded scripts (some step)).trace = since := by
      refine told_eq (hsince.trans ?_)
      rw [hbegun]
      rfl
    refine ⟨hpaired hshown, ?_⟩
    simp only [exchange, hstack, htold]
    exact ⟨hnested, fun _ => hnone (by simp)⟩
  · have hbegun : m.playAll (m.choosing (some step)) = { m with
        stack := .nested runner step.name :: .script runner [] :: rest
        control := .run step } := by
      rw [choosing_of_stack_cons hstack]
      exact advance_decided hdone hstack step
    have hapart : Apart v [.nested runner step.name] (.script runner [] :: rest)
        (m.playAll (m.choosing (some step))) p := by
      rw [hbegun]
      refine ⟨rfl, by simp [Frame.isNested], h.system, ?_, h.closed, ?_⟩
      · rw [h.stack, hstack]
      · rw [← hstack]
        exact h.frames
    obtain ⟨hshown, since, hsince, hnested, hnone⟩ := hapart.responded hsteady hchosen hdivides
      (by rw [hbegun]) (by rw [hbegun]; exact hhidden) (.inr ⟨hscripts, runner, rest, rfl⟩)
    have htold : told v.seesEntry m.trace (m.responded scripts (some step)).trace = since := by
      refine told_eq (hsince.trans ?_)
      rw [hbegun]
      rfl
    refine ⟨hpaired hshown, ?_⟩
    simp only [exchange, hstack, htold]
    exact ⟨hnested, by simp⟩

/-! ## Choices one after another -/

/-- What is seen of a session goes through the choices that are seen, and nothing is told when
the others are made, but in scripts that they are answered. -/
theorem Paired.follows_led (h : Paired v scripts P m p) (hsteady : Steady scripts chooses P)
    (hview : ∀ step, chooses step → chooses (v.step step)) {choices : List (Option (Step V))}
    (hchooses : ∀ step, some step ∈ choices → chooses step)
    (hdivides : Divides v scripts m choices) :
    Paired v scripts P (m.playAll (m.led scripts choices))
        (p.playAll (p.led scripts (v.choices choices))) ∧
      (p.exchanges v.seesEntry scripts (v.choices choices)).map (·.outcome) =
        ((m.exchanges v.seesEntry scripts choices).filter fun x =>
          !v.hidesChoice x.choice).map (·.outcome) ∧
      ∀ x ∈ m.exchanges v.seesEntry scripts choices, v.hidesChoice x.choice →
        (∀ entry ∈ x.said, entry.isNested) ∧ (scripts = false → x.said = []) := by
  induction choices generalizing m p with
  | nil => exact ⟨h, rfl, by simp [exchanges]⟩
  | cons choice choices ih =>
      have hfirst : ∀ step, choice = some step → chooses step := fun step hstep =>
        hchooses step (hstep ▸ List.mem_cons_self)
      have hrest : ∀ step, some step ∈ choices → chooses step := fun step hstep =>
        hchooses step (List.mem_cons_of_mem _ hstep)
      have hchoice : (m.exchange v.seesEntry scripts choice).choice = choice := by
        unfold exchange
        dsimp only
        split <;> rfl
      have hnow : Divides v scripts m [choice] := Divides.of_append hdivides
      simp only [led, exchanges, playAll_append, List.filter_cons, hchoice, List.forall_mem_cons]
      by_cases hhides : v.hidesChoice choice
      · obtain ⟨step, rfl, hstep⟩ : ∃ step, choice = some step ∧ v.hides step := by
          cases choice with
          | none => contradiction
          | some step => exact ⟨step, rfl, hhides⟩
        obtain ⟨hpaired, hnested, hnone⟩ := h.ignores hsteady (hfirst step rfl) hnow hstep
        obtain ⟨hend, hsame, hothers⟩ := ih hpaired hrest hdivides.rest
        have hleft : v.choices (some step :: choices) = v.choices choices := by
          simp [View.choices, hhides]
        have hidle (hscripts : scripts = false) : m.stack = [] :=
          h.ready.1.stack.resolve_right fun hbusy => by simp [hscripts] at hbusy
        rw [hleft]
        refine ⟨hend, ?_, fun _ => ⟨hnested, fun hscripts => hnone (hidle hscripts)⟩, hothers⟩
        simpa [hhides] using hsame
      · obtain ⟨hpaired, hexchange⟩ := h.follows hsteady hview hfirst hnow hhides
        obtain ⟨hend, hsame, hothers⟩ := ih hpaired hrest hdivides.rest
        have hleft : v.choices (choice :: choices) = choice.map v.step :: v.choices choices := by
          simp [View.choices, hhides]
        rw [hleft, led, exchanges, playAll_append, List.map_cons, hexchange, hsame]
        refine ⟨hend, ?_, fun h => absurd h hhides, hothers⟩
        simp [hhides]

/-! ## From the beginning -/

omit [Storable V] in
theorem ready_idle (scripts : Bool) : (idle : Machine V).Ready scripts := ⟨⟨.ok, rfl⟩, .inl rfl⟩

omit [Storable V] in
theorem shown_idle (v : View) : Shown v (idle : Machine V) idle where
  system := rfl
  stack := rfl
  closed :=
    { subscribers := fun i t ht => by
        simp [idle, System.area, default, instInhabitedArea.default] at ht
      handlers := by simp [idle]
      tasks := by simp [idle, System.queue]
      subscriptions := by simp [idle]
      logNames := by simp [idle]
      queueNames := by simp [idle]
      relays := by simp [idle] }
  frames := by simp [idle]

omit [Storable V] in
theorem paired_idle (v : View) (scripts : Bool) (hidle : P idle) : Paired v scripts P idle idle :=
  ⟨shown_idle v, ⟨hidle, hidle⟩, ⟨ready_idle scripts, ready_idle scripts⟩⟩

end Machine

end TabRelay.Session
