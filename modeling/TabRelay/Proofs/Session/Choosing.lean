import TabRelay.Proofs.Session.Effort
import TabRelay.Proofs.Session.Showing

/-!
# Sessions that are led by choices

A session waits for its driver when it is idle, and if its scripts choose as well
also whenever a script can go on.  A choice is a step or, for a script, that it is
over.  `led` plays a list of choices, one after another, and advances in between
until the session waits again.  It always comes to that.
-/

namespace TabRelay.Session

variable {V : Type}

/-- Nothing is left, or a script is to go on and chooses how. -/
def isBase (scripts : Bool) : List (Frame V) → Bool
  | [] => true
  | .script _ _ :: _ => scripts
  | _ => false

namespace Machine

def waits (scripts : Bool) (m : Machine V) : Bool :=
  match m.control with
  | .done _ => isBase scripts m.stack
  | _ => false

def effort (m : Machine V) : Nat :=
  m.work + if m.isBeginning then 12 + 6 * m.system.breadth else 0

def choosing (m : Machine V) (choice : Option (Step V)) : List (Move V) :=
  if m.stack.isEmpty then choice.toList.map .begin else [.decide choice.toList, .advance]

variable [Storable V]

def untilWaits (scripts : Bool) : Nat → Machine V → Nat
  | 0, _ => 0
  | fuel + 1, m => if m.waits scripts then 0 else untilWaits scripts fuel m.advance + 1

/-- The choice, and all that the machine does until it waits again.  A script is left with no
steps of its own. -/
def responding (scripts : Bool) (m : Machine V) (choice : Option (Step V)) : List (Move V) :=
  let chosen := m.playAll (m.choosing choice)
  m.choosing choice ++ List.replicate (untilWaits scripts chosen.effort chosen) .advance ++
    [.decide []]

def responded (scripts : Bool) (m : Machine V) (choice : Option (Step V)) : Machine V :=
  m.playAll (m.responding scripts choice)

/-- The moves of the machine when these choices are made, one after another. -/
def led (scripts : Bool) (m : Machine V) : List (Option (Step V)) → List (Move V)
  | [] => []
  | choice :: choices =>
      m.responding scripts choice ++ (m.responded scripts choice).led scripts choices

def occasions (scripts : Bool) (m : Machine V) :
    List (Option (Step V)) → List (Machine V × Step V)
  | [] => []
  | choice :: choices =>
      choice.toList.map (m, ·) ++ (m.responded scripts choice).occasions scripts choices

theorem led_append (scripts : Bool) (m : Machine V) (first second : List (Option (Step V))) :
    m.led scripts (first ++ second) =
      m.led scripts first ++ (m.playAll (m.led scripts first)).led scripts second := by
  induction first generalizing m with
  | nil => rfl
  | cons choice first ih =>
      rw [List.cons_append, led, led, ih, playAll_append, List.append_assoc, responded]

theorem occasions_append (scripts : Bool) (m : Machine V)
    (first second : List (Option (Step V))) :
    m.occasions scripts (first ++ second) =
      m.occasions scripts first ++ (m.playAll (m.led scripts first)).occasions scripts second := by
  induction first generalizing m with
  | nil => rfl
  | cons choice first ih =>
      rw [List.cons_append, occasions, occasions, led, ih, playAll_append, List.append_assoc,
        responded]

/-! ## The machine comes to wait -/

omit [Storable V] in
theorem waits_iff {scripts : Bool} {m : Machine V} :
    m.waits scripts ↔ (∃ a, m.control = .done a) ∧ isBase scripts m.stack := by
  unfold waits
  split <;> simp_all

def Goes (scripts : Bool) (m : Machine V) : Prop :=
  ∀ runner step left rest, m.stack = .script runner (step :: left) :: rest → scripts

omit [Storable V] in
theorem Continues.done {m : Machine V} {top : Frame V} {b : Answer V} {s : System V}
    {pushed : List (Frame V)} {control : Control V} {warned : List (Entry V)}
    (h : Continues m top b s pushed control warned) :
    (∃ a, control = .done a) ∨ ∃ runner step left, top = .script runner (step :: left) := by
  cases h with
  | runsStep b runner step left => exact .inr ⟨runner, step, left, rfl⟩
  | _ => exact .inl ⟨_, rfl⟩

omit [Storable V] in
theorem settled?_of_not_waits {scripts : Bool} {m : Machine V} (h : ¬ m.waits scripts) :
    m.settled? 0 = none := by
  cases hcontrol : m.control with
  | done a =>
      refine settled?_of_lt (List.length_pos_iff.mpr fun hstack => h ?_)
      exact waits_iff.mpr ⟨⟨a, hcontrol⟩, by simp [hstack, isBase]⟩
  | _ => simp [settled?, hcontrol]

theorem Orderly.done_of_not_waits {m : Machine V} (h : m.Orderly) (hstops : ¬ m.Stops)
    {scripts : Bool} (hgoes : m.Goes scripts) (hwaits : ¬ m.waits scripts) :
    ∃ a, m.advance.control = .done a := by
  obtain ⟨pushed, warned, heffect, -⟩ := advance_becomes h
  cases hcontrol : m.control with
  | conflict cell => exact absurd ⟨cell, hcontrol⟩ hstops
  | run step =>
      obtain ⟨a, hdone, -⟩ := heffect.of_run hcontrol
      exact ⟨a, hdone⟩
  | done b =>
      cases hstack : m.stack with
      | nil => exact absurd (waits_iff.mpr ⟨⟨b, hcontrol⟩, by simp [hstack, isBase]⟩) hwaits
      | cons top rest =>
          rcases heffect.of_done hcontrol hstack with hcontinues | ⟨-, -, hdone⟩
          · rcases hcontinues.done with hdone | ⟨runner, step, left, rfl⟩
            · exact hdone
            · refine absurd (waits_iff.mpr ⟨⟨b, hcontrol⟩, ?_⟩) hwaits
              simpa [hstack, isBase] using hgoes runner step left rest hstack
          · exact ⟨b, hdone⟩

theorem untilWaits_eq {scripts : Bool} {fuel n : Nat} {m : Machine V}
    (hwaits : (m.advances n).waits scripts)
    (hearlier : ∀ k < n, ¬ (m.advances k).waits scripts) (hfuel : n ≤ fuel) :
    untilWaits scripts fuel m = n := by
  induction fuel generalizing m n with
  | zero => exact (Nat.le_zero.mp hfuel).symm
  | succ fuel ih =>
      cases n with
      | zero =>
          have hnow : m.waits scripts := hwaits
          simp [untilWaits, hnow]
      | succ n =>
          have hnow : ¬ m.waits scripts := hearlier 0 (Nat.zero_lt_succ n)
          have hrest := ih (m := m.advance) hwaits
            (fun k hk => hearlier (k + 1) (Nat.succ_lt_succ hk)) (Nat.le_of_succ_le_succ hfuel)
          simp only [untilWaits, hnow, Bool.false_eq_true, if_false, hrest]

/-! ## What is told in between -/

/-- What of the later trace is new, the latest first. -/
def told (sees : Entry V → Bool) (earlier later : List (Entry V)) : List (Entry V) :=
  (later.filter sees).take ((later.filter sees).length - (earlier.filter sees).length)

omit [Storable V] in
theorem told_eq {sees : Entry V → Bool} {earlier later since : List (Entry V)}
    (h : later.filter sees = since ++ earlier.filter sees) : told sees earlier later = since := by
  simp [told, h]

end Machine

/-- A choice, what is told until the session waits again, and the answer of the step that began
when nothing was in progress, once it is there. -/
structure Exchange (V : Type) where
  choice : Option (Step V)
  said : List (Entry V)
  answer : Option (Answer V)

/-- Answers that count subscribers or tell an id are left out. -/
def Exchange.outcome (x : Exchange V) : List (Entry V) × Option (Answer V) :=
  (x.said, if x.choice.any (·.countsSubscribers) then none else x.answer)

namespace Machine

variable [Storable V]

/-- Of what is told only some kinds of entries are looked at.  A step that begins when nothing
is in progress has a trace of its own. -/
def exchange (sees : Entry V → Bool) (scripts : Bool) (m : Machine V)
    (choice : Option (Step V)) : Exchange V :=
  let after := m.responded scripts choice
  match m.stack, choice with
  | [], none => ⟨none, [], none⟩
  | [], some step => ⟨some step, told sees [] after.trace, after.answer?⟩
  | _ :: _, choice => ⟨choice, told sees m.trace after.trace, after.answer?⟩

def exchanges (sees : Entry V → Bool) (scripts : Bool) (m : Machine V) :
    List (Option (Step V)) → List (Exchange V)
  | [] => []
  | choice :: choices =>
      m.exchange sees scripts choice ::
        (m.responded scripts choice).exchanges sees scripts choices

/-! ## Machines of one kind -/

omit [Storable V] in
/-- The machine waits, and a script that is to go on has no steps of its own left. -/
structure Ready (scripts : Bool) (m : Machine V) : Prop where
  done : ∃ a, m.control = .done a
  stack : m.stack = [] ∨ scripts ∧ ∃ runner rest, m.stack = .script runner [] :: rest

omit [Storable V] in
theorem Ready.waits {scripts : Bool} {m : Machine V} (h : m.Ready scripts) : m.waits scripts := by
  refine waits_iff.mpr ⟨h.done, ?_⟩
  rcases h.stack with hstack | ⟨hscripts, runner, rest, hstack⟩
  · simp [hstack, isBase]
  · simpa [hstack, isBase] using hscripts

theorem ready_of_waits {scripts : Bool} {m : Machine V} (h : m.waits scripts) :
    (m.play (.decide [])).Ready scripts := by
  obtain ⟨⟨a, hdone⟩, hbase⟩ := waits_iff.mp h
  cases hstack : m.stack with
  | nil =>
      have hsame : m.play (.decide []) = m := by simp [play, hstack]
      exact hsame.symm ▸ ⟨⟨a, hdone⟩, .inl hstack⟩
  | cons top rest =>
      rw [hstack] at hbase
      cases top with
      | script runner left =>
          have hsame : m.play (.decide []) = { m with stack := .script runner [] :: rest } := by
            simp only [play, hstack]
          exact hsame.symm ▸ ⟨⟨a, hdone⟩, .inr ⟨hbase, runner, rest, rfl⟩⟩
      | _ => contradiction

def Allowed (scripts : Bool) (chooses : Step V → Prop) : Move V → Prop
  | .begin step => chooses step
  | .decide left => ∀ step ∈ left, scripts ∧ chooses step
  | .advance => True

/-- Machines of this kind are reached in sessions, and steps are left only in scripts that
choose.  Moves that are allowed lead to others of this kind. -/
structure Steady (scripts : Bool) (chooses : Step V → Prop) (P : Machine V → Prop) : Prop where
  reached : ∀ m, P m → ∃ moves, m = idle.playAll moves
  goes : ∀ m, P m → m.Goes scripts
  play : ∀ m move, P m → Allowed scripts chooses move → P (m.play move)

namespace Steady

variable {scripts : Bool} {chooses : Step V → Prop} {P : Machine V → Prop}

theorem sound (h : Steady scripts chooses P) {m : Machine V} (hm : P m) : m.Sound := by
  obtain ⟨moves, rfl⟩ := h.reached m hm
  exact sound_playAll moves

theorem advance (h : Steady scripts chooses P) (m : Machine V) (hm : P m) : P m.advance :=
  h.play m .advance hm trivial

theorem playAll (h : Steady scripts chooses P) {m : Machine V} (hm : P m) {moves : List (Move V)}
    (hallowed : ∀ move ∈ moves, Allowed scripts chooses move) : P (m.playAll moves) := by
  induction moves generalizing m with
  | nil => exact hm
  | cons move moves ih =>
      obtain ⟨hfirst, hrest⟩ := List.forall_mem_cons.mp hallowed
      exact ih (h.play m move hm hfirst) hrest

theorem advances (h : Steady scripts chooses P) {m : Machine V} (hm : P m) (n : Nat) :
    P (m.advances n) :=
  h.playAll hm fun move hmove => by
    rw [List.eq_of_mem_replicate hmove]
    trivial

theorem done (h : Steady scripts chooses P) {m : Machine V} (hm : P m)
    (hwaits : ¬ m.waits scripts) : ∃ a, m.advance.control = .done a := by
  obtain ⟨moves, rfl⟩ := h.reached m hm
  exact (orderly_playAll moves).done_of_not_waits (never_stops moves) (h.goes _ hm) hwaits

theorem effort_lt (h : Steady scripts chooses P) {m : Machine V} (hm : P m)
    (hwaits : ¬ m.waits scripts) : m.advance.effort < m.effort := by
  obtain ⟨a, hdone⟩ := h.done hm hwaits
  obtain ⟨moves, rfl⟩ := h.reached m hm
  have hwork := ((orderly_playAll moves).work_advance (never_stops moves)
    (custody_playAll moves) (settled?_of_not_waits hwaits)).1
  have hbegun : (idle.playAll moves).advance.isBeginning = false := by
    simp [isBeginning, hdone]
  simp only [effort, hbegun, Bool.false_eq_true, if_false] at hwork ⊢
  omega

theorem exists_waits (h : Steady scripts chooses P) {m : Machine V} (hm : P m) :
    ∃ n ≤ m.effort, (m.advances n).waits scripts ∧ ∀ k < n, ¬ (m.advances k).waits scripts := by
  induction heffort : m.effort using Nat.strongRecOn generalizing m with
  | ind effort ih =>
      by_cases hwaits : m.waits scripts
      · exact ⟨0, Nat.zero_le _, hwaits, by simp⟩
      · have hless := h.effort_lt hm hwaits
        obtain ⟨n, hn, hlast, hearlier⟩ := ih _ (heffort ▸ hless) (h.advance m hm) rfl
        refine ⟨n + 1, by omega, hlast, fun k hk => ?_⟩
        cases k with
        | zero => exact hwaits
        | succ k => exact hearlier k (Nat.lt_of_succ_lt_succ hk)

theorem untilWaits (h : Steady scripts chooses P) {m : Machine V} (hm : P m) {n : Nat}
    (hwaits : (m.advances n).waits scripts)
    (hearlier : ∀ k < n, ¬ (m.advances k).waits scripts) :
    Machine.untilWaits scripts m.effort m = n := by
  obtain ⟨least, hle, hleast, hbefore⟩ := h.exists_waits hm
  have hsame : least = n := by
    rcases Nat.lt_trichotomy least n with hlt | heq | hlt
    · exact absurd hleast (hearlier least hlt)
    · exact heq
    · exact absurd hwaits (hbefore n hlt)
  exact untilWaits_eq hwaits hearlier (hsame ▸ hle)

/-- After a choice the machine advances until it waits, and then its script decides nothing. -/
theorem responded (h : Steady scripts chooses P) {m : Machine V} {choice : Option (Step V)}
    (hchosen : P (m.playAll (m.choosing choice))) {n : Nat}
    (hwaits : ((m.playAll (m.choosing choice)).advances n).waits scripts)
    (hearlier : ∀ k < n, ¬ ((m.playAll (m.choosing choice)).advances k).waits scripts) :
    m.responded scripts choice =
      ((m.playAll (m.choosing choice)).advances n).play (.decide []) := by
  simp only [Machine.responded, responding, h.untilWaits hchosen hwaits hearlier, playAll_append,
    Machine.advances]
  rfl

omit [Storable V] in
theorem allowed_choosing {m : Machine V} (hready : m.Ready scripts) {choice : Option (Step V)}
    (hchoice : ∀ step, choice = some step → chooses step) :
    ∀ move ∈ m.choosing choice, Allowed scripts chooses move := by
  unfold choosing
  split
  · intro move hmove
    obtain ⟨step, hstep, rfl⟩ := List.mem_map.mp hmove
    exact hchoice step (Option.mem_toList.mp hstep)
  · rename_i hstack
    have hscripts : scripts := by
      rcases hready.stack with hempty | ⟨hscripts, -⟩
      · exact absurd (by simp [hempty]) hstack
      · exact hscripts
    refine List.forall_mem_cons.mpr ⟨fun step hstep => ⟨hscripts, ?_⟩, by simp [Allowed]⟩
    exact hchoice step (Option.mem_toList.mp hstep)

theorem allowed_responding {m : Machine V} (hready : m.Ready scripts) {choice : Option (Step V)}
    (hchoice : ∀ step, choice = some step → chooses step) :
    ∀ move ∈ m.responding scripts choice, Allowed scripts chooses move := by
  intro move hmove
  simp only [responding, List.mem_append, List.mem_singleton] at hmove
  rcases hmove with (hmove | hmove) | rfl
  · exact allowed_choosing hready hchoice move hmove
  · rw [List.eq_of_mem_replicate hmove]
    trivial
  · simp [Allowed]

theorem chosen (h : Steady scripts chooses P) {m : Machine V} (hm : P m) (hready : m.Ready scripts)
    {choice : Option (Step V)} (hchoice : ∀ step, choice = some step → chooses step) :
    P (m.playAll (m.choosing choice)) :=
  h.playAll hm (allowed_choosing hready hchoice)

theorem kept (h : Steady scripts chooses P) {m : Machine V} (hm : P m) (hready : m.Ready scripts)
    {choice : Option (Step V)} (hchoice : ∀ step, choice = some step → chooses step) :
    P (m.responded scripts choice) ∧ (m.responded scripts choice).Ready scripts := by
  refine ⟨h.playAll hm (allowed_responding hready hchoice), ?_⟩
  have hchosen := h.chosen hm hready hchoice
  obtain ⟨n, -, hwaits, hearlier⟩ := h.exists_waits hchosen
  rw [h.responded hchosen hwaits hearlier]
  exact ready_of_waits hwaits

theorem led (h : Steady scripts chooses P) {m : Machine V} (hm : P m) (hready : m.Ready scripts)
    {choices : List (Option (Step V))} (hchoices : ∀ step, some step ∈ choices → chooses step) :
    (m.playAll (m.led scripts choices)).Ready scripts ∧
      ∀ move ∈ m.led scripts choices, Allowed scripts chooses move := by
  induction choices generalizing m with
  | nil => exact ⟨hready, by simp [Machine.led]⟩
  | cons choice choices ih =>
      have hchoice : ∀ step, choice = some step → chooses step := fun step hstep =>
        hchoices step (hstep ▸ List.mem_cons_self)
      obtain ⟨hnext, hwaits⟩ := h.kept hm hready hchoice
      obtain ⟨hlast, hallowed⟩ := ih hnext hwaits fun step hstep =>
        hchoices step (List.mem_cons_of_mem _ hstep)
      rw [Machine.led, playAll_append]
      exact ⟨hlast, List.forall_mem_append.mpr ⟨allowed_responding hready hchoice, hallowed⟩⟩

theorem kept_past (h : Steady scripts chooses P) {m : Machine V} (hm : P m)
    (hready : m.Ready scripts) {choices : List (Option (Step V))}
    (hchoices : ∀ step, some step ∈ choices → chooses step) {past : List (Move V)}
    (hpast : past <+: m.led scripts choices) : P (m.playAll past) :=
  h.playAll hm fun move hmove => (h.led hm hready hchoices).2 move (hpast.subset hmove)

theorem mem_occasions (h : Steady scripts chooses P) {m : Machine V} (hm : P m)
    (hready : m.Ready scripts) {choices : List (Option (Step V))}
    (hchoices : ∀ step, some step ∈ choices → chooses step) :
    ∀ x ∈ m.occasions scripts choices, P x.1 ∧ x.1.Ready scripts ∧ some x.2 ∈ choices := by
  induction choices generalizing m with
  | nil => simp [occasions]
  | cons choice choices ih =>
      obtain ⟨hnext, hwaits⟩ := h.kept hm hready fun step hstep =>
        hchoices step (hstep ▸ List.mem_cons_self)
      refine List.forall_mem_append.mpr ⟨fun x hx => ?_, fun x hx => ?_⟩
      · obtain ⟨step, hstep, rfl⟩ := List.mem_map.mp hx
        exact ⟨hm, hready, Option.mem_toList.mp hstep ▸ List.mem_cons_self⟩
      · obtain ⟨hkind, hready, hmem⟩ := ih hnext hwaits
          (fun step hstep => hchoices step (List.mem_cons_of_mem _ hstep)) x hx
        exact ⟨hkind, hready, List.mem_cons_of_mem _ hmem⟩

end Steady

end Machine

end TabRelay.Session
