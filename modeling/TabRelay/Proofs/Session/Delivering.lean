import TabRelay.Proofs.Session.Custody
import TabRelay.Proofs.Session.Returning
import TabRelay.Session.Draft

/-!
# How an event is delivered

The audience of an event is fixed when the event is raised: the subscribers of
the other tabs, or of all tabs.  Whatever the handlers do, the delivery visits
the audience in order and nobody else.  A handler that is on the call stack is
passed over with a warning, every other one is called.
-/

namespace TabRelay.Session

open TabRelay.Storage

variable {V : Type}

def Frame.turn? : Frame V → Option Nat
  | .turn i => some i
  | _ => none

def turns (frames : List (Frame V)) : List Nat := frames.filterMap (·.turn?)

namespace Machine

def visiting? (m : Machine V) : Option (Event × Nat) :=
  match m.control, m.stack with
  | .done _, .delivery event (i :: _) :: _ => some (event, i)
  | _, _ => none

/-- The event that the step raises, with the area and the tab that is not told of it. -/
def raising? [Storable V] (m : Machine V) : Option (Event × Nat × Option Nat) :=
  match m.control with
  | .run (.dispatch storage (.ok event)) =>
      (Keyed.lookup? storage m.system.storageNames).map fun h => (event, h.area, none)
  | .run _ =>
      m.invocation?.bind fun call =>
        ((m.system.area call.handle.area).perform call.operation).raised.map fun event =>
          (event, call.handle.area, some call.handle.tab)
  | _ => none

/-- The subscribers that are not of the tab, in the order in which they subscribed. -/
def audience (m : Machine V) (area : Nat) (writer : Option Nat) : List Subscriber :=
  (m.system.area area).subscribers.filter fun s => writer ≠ some s.tab

/-! ## One step of a delivery -/

theorem isRunning_iff {m : Machine V} {i : Nat} : m.isRunning i ↔ i ∈ turns m.stack := by
  simp only [isRunning, turns, List.any_eq_true, List.mem_filterMap]
  constructor
  · rintro ⟨frame, hframe, hi⟩
    refine ⟨frame, hframe, ?_⟩
    cases frame <;> simp_all [Frame.turn?]
  · rintro ⟨frame, hframe, hi⟩
    refine ⟨frame, hframe, ?_⟩
    cases frame <;> simp_all [Frame.turn?]

theorem turns_append (first second : List (Frame V)) :
    turns (first ++ second) = turns first ++ turns second :=
  List.filterMap_append

theorem turns_of_isWork {frames : List (Frame V)} (h : ∀ frame ∈ frames, frame.isWork) :
    turns frames = [] := by
  refine List.filterMap_eq_nil_iff.mpr ?_
  intro frame hframe
  have hwork := h frame hframe
  cases frame <;> first | rfl | simp [Frame.isWork] at hwork

theorem turns_below_suffix (m : Machine V) : turns m.below <:+ turns m.stack :=
  m.below_suffix.filterMap _

theorem Begins.turns [Storable V] {m : Machine V} {step : Step V} {s : System V}
    {pushed : List (Frame V)} {a : Answer V} (h : Begins m step s pushed a) :
    Session.turns pushed = [] := by
  refine List.filterMap_eq_nil_iff.mpr ?_
  intro frame hframe
  rcases h.mentions frame hframe with hnone | ⟨event, left, rfl, -⟩
  · cases frame <;> first | rfl | simp [Frame.mentions] at hnone
  · rfl

theorem Frees.turns {m : Machine V} {top : Frame V} {s : System V} {pushed : List (Frame V)}
    (h : Frees m top s pushed) : Session.turns pushed = [] := by
  refine List.filterMap_eq_nil_iff.mpr ?_
  intro frame hframe
  have hfreeing := h.isFreeing frame hframe
  cases frame <;> first | rfl | simp [Frame.isFreeing] at hfreeing

theorem Effect.quiet [Storable V] {m : Machine V} {s : System V} {pushed : List (Frame V)}
    {control : Control V} {warned : List (Entry V)} (h : Effect m s pushed control warned)
    (hvisiting : m.visiting? = none) : Session.turns pushed = [] ∧ warned = [] := by
  cases h with
  | rests hrest hbelow => exact ⟨rfl, rfl⟩
  | begins hrun hbegins => exact ⟨hbegins.turns, rfl⟩
  | frees hdone hstack hfreeing hfrees => exact ⟨hfrees.turns, rfl⟩
  | continues hdone hstack hcontinues =>
      cases hcontinues with
      | skips b hrunning => simp [visiting?, hdone, hstack] at hvisiting
      | calls b hrunning hreacts => simp [visiting?, hdone, hstack] at hvisiting
      | drains b hdrains => exact ⟨turns_of_isWork hdrains.isWork, rfl⟩
      | _ => exact ⟨rfl, rfl⟩

theorem visiting?_eq_some {m : Machine V} {event : Event} {i : Nat}
    (h : m.visiting? = some (event, i)) :
    ∃ b left rest, m.control = .done b ∧ m.stack = .delivery event (i :: left) :: rest := by
  unfold visiting? at h
  split at h
  · rename_i b event i left rest hdone hstack
    cases h
    exact ⟨b, left, rest, hdone, hstack⟩
  · contradiction

/-- A visit passes over a handler that is running, with a warning, and calls any other. -/
structure VisitLaw [Storable V] (m : Machine V) : Prop where
  once : (turns m.stack).Nodup
  skipped : ∀ event i, m.visiting? = some (event, i) → i ∈ turns m.stack →
    m.advance.system = m.system ∧ turns m.advance.stack = turns m.stack ∧
      m.advance.warnings = .mark (.reentered event.key) :: m.warnings
  called : ∀ event i, m.visiting? = some (event, i) → i ∉ turns m.stack →
    m.system.Lives i ∧ turns m.advance.stack = i :: turns m.stack ∧
      m.advance.warnings = m.warnings ∧
      ∃ left rest, m.stack = .delivery event (i :: left) :: rest ∧
        m.advance = { m with stack := .turn i :: .delivery event left :: rest }.react i event
  quiet : m.visiting? = none →
    turns m.advance.stack <:+ turns m.stack ∧ m.advance.warnings = m.warnings

variable [Storable V]

theorem advance_visit {m : Machine V} {b : Answer V} {event : Event} {i : Nat} {left : List Nat}
    {rest : List (Frame V)} (hdone : m.control = .done b)
    (hstack : m.stack = .delivery event (i :: left) :: rest) :
    m.advance =
      if m.isRunning i then
        ({ m with stack := .delivery event left :: rest }.mark (.reentered event.key)).answer .ok
      else { m with stack := .turn i :: .delivery event left :: rest }.react i event := by
  have hrunning : isRunning { m with stack := rest } i = m.isRunning i := by
    simp [isRunning, hstack]
  rw [hdone] at hrunning
  simp only [advance, hdone, resume, hstack, visit, hrunning]
  rfl

theorem visitLaw {m : Machine V} (horderly : m.Orderly) (hcustody : Custody m.system m.stack)
    (honce : (turns m.stack).Nodup) : m.VisitLaw where
  once := honce
  skipped := by
    intro event i hvisiting hi
    obtain ⟨b, left, rest, hdone, hstack⟩ := visiting?_eq_some hvisiting
    rw [advance_visit hdone hstack, if_pos (isRunning_iff.mpr hi)]
    refine ⟨rfl, ?_, rfl⟩
    rw [hstack]
    rfl
  called := by
    intro event i hvisiting hi
    obtain ⟨b, left, rest, hdone, hstack⟩ := visiting?_eq_some hvisiting
    have hfree : Unheld { m with stack := .turn i :: .delivery event left :: rest } := by
      refine unheld_of_no_disposing ?_
      have hrest := horderly.no_disposing hstack (by simp [Frame.isFreeing])
      simpa [Frame.isDisposing] using hrest
    obtain ⟨frames, a, hreacts, hframes, -, hwarnings⟩ := react_reacts (hfree.not_meets _)
    have hadvance : m.advance =
        { m with stack := .turn i :: .delivery event left :: rest }.react i event := by
      rw [advance_visit hdone hstack, if_neg (fun hrunning => hi (isRunning_iff.mp hrunning))]
    refine ⟨?_, ?_, ?_, left, rest, hstack, hadvance⟩
    · exact hcustody.mentioned _ (hstack ▸ List.mem_cons_self) i List.mem_cons_self
    · rw [hadvance, hframes, hstack, turns_append, turns_of_isWork hreacts.isWork]
      rfl
    · rw [hadvance, hwarnings]
      rfl
  quiet := by
    intro hvisiting
    obtain ⟨pushed, warned, heffect, hstack, hwarnings⟩ := advance_becomes horderly
    obtain ⟨hpushed, rfl⟩ := heffect.quiet hvisiting
    refine ⟨?_, hwarnings⟩
    rw [hstack, turns_append, hpushed]
    exact m.turns_below_suffix

theorem VisitLaw.advance {m : Machine V} (h : m.VisitLaw) : (turns m.advance.stack).Nodup := by
  cases hvisiting : m.visiting? with
  | none => exact h.once.sublist (h.quiet hvisiting).1.sublist
  | some visit =>
      obtain ⟨event, i⟩ := visit
      by_cases hi : i ∈ turns m.stack
      · rw [(h.skipped event i hvisiting hi).2.1]
        exact h.once
      · rw [(h.called event i hvisiting hi).2.1]
        exact List.nodup_cons.mpr ⟨hi, h.once⟩

theorem visitLaw_playAll (moves : List (Move V)) : (idle.playAll moves).VisitLaw := by
  have honce : Custody (idle.playAll moves).system (idle.playAll moves).stack ∧
      (turns (idle.playAll moves).stack).Nodup := by
    apply orderly_induction (P := fun _ m => Custody m.system m.stack ∧ (turns m.stack).Nodup)
    · exact ⟨custody_playAll [], List.nodup_nil⟩
    · rintro past m step ⟨hcustody, honce⟩ hstack
      rw [hstack] at hcustody
      exact ⟨hcustody, List.nodup_nil⟩
    · rintro past m runner old left stack ⟨hcustody, honce⟩ hstack
      rw [hstack] at hcustody honce
      exact ⟨hcustody.decide, honce⟩
    · rintro past m horderly ⟨hcustody, honce⟩
      exact ⟨horderly.custody hcustody, (visitLaw horderly hcustody honce).advance⟩
  exact visitLaw (orderly_playAll moves) honce.1 honce.2

/-! ## A whole delivery -/

/-- The visits that are made from a stack of so many frames and one more, until the
stack is lower than that. -/
def visits (m : Machine V) (depth : Nat) : List (Move V) → List (Event × Nat)
  | [] => []
  | move :: moves =>
      if m.stack.length ≤ depth then []
      else
        (match move with
          | .advance => if m.stack.length = depth + 1 then m.visiting?.toList else []
          | _ => []) ++ (m.play move).visits depth moves

def comesDown (m : Machine V) (depth : Nat) : List (Move V) → Bool
  | [] => m.stack.length ≤ depth
  | move :: moves => m.stack.length ≤ depth || (m.play move).comesDown depth moves

def Delivering (m : Machine V) (base : List (Frame V)) (event : Event) (left : List Nat) : Prop :=
  ∃ above, m.stack = above ++ .delivery event left :: base

omit [Storable V] in
theorem Delivering.lt {m : Machine V} {base : List (Frame V)} {event : Event} {left : List Nat}
    (h : m.Delivering base event left) : base.length < m.stack.length := by
  obtain ⟨above, hstack⟩ := h
  rw [hstack, List.length_append, List.length_cons]
  omega

theorem Delivering.advance {m : Machine V} {base : List (Frame V)} {event : Event}
    {left : List Nat} (h : m.Delivering base event left) (horderly : m.Orderly) :
    (∃ i left', left = i :: left' ∧ m.stack.length = base.length + 1 ∧
        m.visiting? = some (event, i) ∧ m.advance.Delivering base event left') ∨
      (left = [] ∧ m.visiting? = none ∧ m.advance.stack = base) ∨
      ((m.stack.length = base.length + 1 → m.visiting? = none) ∧
        m.advance.Delivering base event left) := by
  obtain ⟨above, hstack⟩ := h
  obtain ⟨pushed, warned, heffect, hpushed, -⟩ := advance_becomes horderly
  cases hcontrol : m.control with
  | done b =>
      have hbelow : m.below = m.stack.tail := by simp [below, hcontrol]
      rw [hbelow, hstack] at hpushed
      cases above with
      | nil =>
          cases left with
          | nil =>
              refine .inr (.inl ⟨rfl, by simp [visiting?, hcontrol, hstack], ?_⟩)
              simp [Machine.advance, hcontrol, resume, hstack, answer]
          | cons i left =>
              obtain ⟨above, rfl⟩ := heffect.of_visit hcontrol hstack
              refine .inl ⟨i, left, rfl, by simp [hstack], by simp [visiting?, hcontrol, hstack],
                above, ?_⟩
              rw [hpushed]
              simp
      | cons frame above =>
          refine .inr (.inr ⟨?_, pushed ++ above, ?_⟩)
          · intro hlength
            simp only [hstack, List.length_append, List.length_cons] at hlength
            omega
          · rw [hpushed]
            simp
  | _ =>
      have hbelow : m.below = m.stack := by simp [below, hcontrol]
      refine .inr (.inr ⟨fun _ => by simp [visiting?, hcontrol], pushed ++ above, ?_⟩)
      rw [hpushed, hbelow, hstack, List.append_assoc]

theorem Delivering.decide {m : Machine V} {base : List (Frame V)} {event : Event}
    {left : List Nat} (h : m.Delivering base event left) (steps : List (Step V)) :
    (m.play (.decide steps)).Delivering base event left := by
  obtain ⟨above, hstack⟩ := h
  simp only [play]
  split
  · rename_i runner old rest hscript
    rw [hscript] at hstack
    cases above with
    | nil => simp at hstack
    | cons frame above =>
        exact ⟨.script runner steps :: above, congrArg _ (List.cons.inj hstack).2⟩
  · exact ⟨above, hstack⟩

theorem visits_of_le {m : Machine V} {depth : Nat} (h : m.stack.length ≤ depth)
    (moves : List (Move V)) : m.visits depth moves = [] := by
  cases moves with
  | nil => rfl
  | cons move moves => simp only [visits, if_pos h]

theorem Delivering.visits {m : Machine V} {base : List (Frame V)} {event : Event}
    {left : List Nat} (h : m.Delivering base event left) (horderly : m.Orderly)
    (moves : List (Move V)) :
    ∃ rest, m.visits base.length moves ++ rest.map (event, ·) = left.map (event, ·) ∧
      (m.comesDown base.length moves → rest = []) := by
  induction moves generalizing m left with
  | nil =>
      refine ⟨left, rfl, ?_⟩
      have hlt := h.lt
      simp only [comesDown, decide_eq_true_eq]
      omega
  | cons move moves ih =>
      have hlt : ¬ m.stack.length ≤ base.length := Nat.not_le.mpr h.lt
      simp only [Machine.visits, comesDown, hlt, if_false, decide_false, Bool.false_or]
      cases move with
      | begin step =>
          have hsame : m.play (.begin step) = m := by
            simp only [play]
            split
            · rename_i b hb
              have hstack := (answer?_eq_some hb).1
              simp [hstack] at hlt
            · rfl
          rw [hsame]
          exact ih h horderly
      | decide steps => exact ih (h.decide steps) (horderly.play (.decide steps))
      | advance =>
          rcases h.advance horderly with
            ⟨i, left', rfl, hlength, hvisiting, hnext⟩ | ⟨rfl, hvisiting, hstack⟩ | ⟨hquiet, hnext⟩
          · obtain ⟨rest, hrest, hend⟩ := ih hnext horderly.advance
            refine ⟨rest, ?_, hend⟩
            simp only [hlength, if_true, hvisiting, Option.toList_some, List.map_cons, ← hrest]
            rfl
          · refine ⟨[], ?_, fun _ => rfl⟩
            have hnone : (m.play .advance).visits base.length moves = [] :=
              visits_of_le (by simp [play, hstack]) moves
            simp [hvisiting, hnone]
          · obtain ⟨rest, hrest, hend⟩ := ih hnext horderly.advance
            refine ⟨rest, ?_, hend⟩
            have hnone : (if m.stack.length = base.length + 1 then m.visiting?.toList else []) =
                [] := by
              split
              · rename_i hlength
                rw [hquiet hlength]
                rfl
              · rfl
            rw [hnone]
            exact hrest

theorem audience_nodup (moves : List (Move V)) (area : Nat) (writer : Option Nat) :
    (((idle.playAll moves).audience area writer).map (·.handler)).Nodup := by
  have hall := (custody_playAll moves).apart.sublist (List.sublist_append_right _ _)
  generalize idle.playAll moves = m at hall ⊢
  refine List.Nodup.sublist (List.Sublist.map _ List.filter_sublist) ?_
  simp only [System.area, List.getD_eq_getElem?_getD]
  cases harea : m.system.areas[area]? with
  | none => exact List.nodup_nil
  | some found => exact (List.nodup_flatMap.mp hall).1 found (List.mem_of_getElem? harea)

theorem Orderly.raises {m : Machine V} (h : m.Orderly) {event : Event} {area : Nat}
    {writer : Option Nat} (hraising : m.raising? = some (event, area, writer)) :
    ∃ waiting, (∀ frame ∈ waiting, frame.isPassing) ∧
      m.advance.stack =
        .delivery event ((m.audience area writer).map (·.handler)) :: waiting ++ m.stack := by
  unfold raising? at hraising
  split at hraising
  · rename_i storage event' hrun
    obtain ⟨handle, hname, hsame⟩ := Option.map_eq_some_iff.mp hraising
    cases hsame
    have hfree := unheld_of_no_disposing (h.running _ hrun)
    refine ⟨[.keep handle.area], by simp [Frame.isPassing, Frame.isFreeing], ?_⟩
    simp only [Machine.advance, hrun, begin, withStorage, withNamed, hname, withDecoded,
      whenFree_of_unheld hfree]
    rfl
  · obtain ⟨call, hcall, hmap⟩ := Option.bind_eq_some_iff.mp hraising
    obtain ⟨raised, hraised, hsame⟩ := Option.map_eq_some_iff.mp hmap
    cases hsame
    obtain ⟨step, waiting, trace, hrun, hasked, hwaiting, hadvance⟩ := h.operates hcall
    refine ⟨waiting, ?_, ?_⟩
    · cases hwaiting <;> simp [Frame.isPassing, Frame.isFreeing]
    · rw [hadvance]
      simp only [operated, deliveries, hraised, Area.recipients, subscribers_perform]
      rfl
  · contradiction

theorem Orderly.raising {m : Machine V} (h : m.Orderly) {event : Event} {area : Nat}
    {writer : Option Nat} (hraising : m.raising? = some (event, area, writer)) :
    ∃ base, m.advance.stack =
      .delivery event ((m.audience area writer).map (·.handler)) :: base := by
  obtain ⟨waiting, -, hstack⟩ := h.raises hraising
  exact ⟨waiting ++ m.stack, hstack⟩

/--
At a visit the handler is called with the event, unless it is running.  An event
that is raised goes to its audience: the visits that its delivery has made and
those that it has left are always the whole, and none is left when it is over.
-/
theorem delivery_law (before later : List (Move V)) :
    (idle.playAll before).VisitLaw ∧
      ∀ event area writer, (idle.playAll before).raising? = some (event, area, writer) →
        (((idle.playAll before).audience area writer).map (·.handler)).Nodup ∧
        ∃ left : List Nat,
          (idle.playAll before).advance.visits
              ((idle.playAll before).advance.stack.length - 1) later ++ left.map (event, ·) =
            ((idle.playAll before).audience area writer).map (fun s => (event, s.handler)) ∧
          ((idle.playAll before).advance.comesDown
            ((idle.playAll before).advance.stack.length - 1) later → left = []) := by
  refine ⟨visitLaw_playAll before, ?_⟩
  intro event area writer hraising
  have horderly := orderly_playAll before
  refine ⟨audience_nodup before area writer, ?_⟩
  generalize idle.playAll before = m at hraising horderly ⊢
  obtain ⟨base, hstack⟩ := horderly.raising hraising
  have hdelivering : m.advance.Delivering base event
      ((m.audience area writer).map (·.handler)) := ⟨[], hstack⟩
  obtain ⟨left, hvisits, hend⟩ := hdelivering.visits horderly.advance later
  have hdepth : m.advance.stack.length - 1 = base.length := by simp [hstack]
  rw [hdepth]
  refine ⟨left, ?_, hend⟩
  rw [hvisits, List.map_map]
  rfl

/-- Two tabs write whenever the other one does; the first of them is about to write. -/
def echo : List (Move Draft) :=
  [.begin (.new "a" .localArea), .advance, .begin (.openTab "b" "a"), .advance,
    .begin (.subscribe "b" "s" [.set "b" "k" "2"] none []), .advance, .advance, .advance,
    .begin (.subscribe "a" "t" [.set "a" "k" "3"] none []), .advance, .advance, .advance,
    .begin (.set "a" "k" "1")]

theorem echo_is_delivered :
    (idle.playAll echo).audience 0 (some 0) = [⟨0, 1, 0⟩] ∧
      (idle.playAll echo).advance.visits ((idle.playAll echo).advance.stack.length - 1)
          (List.replicate 24 .advance) =
        [(⟨some "k", none, some "1", some .localArea⟩, 0)] := by
  have haudience : (idle.playAll echo).audience 0 (some 0) = [⟨0, 1, 0⟩] := by decide
  have hraising : (idle.playAll echo).raising? =
      some (⟨some "k", none, some "1", some .localArea⟩, 0, some 0) := by decide
  have hend : (idle.playAll echo).advance.comesDown
      ((idle.playAll echo).advance.stack.length - 1) (List.replicate 24 .advance) := by decide
  obtain ⟨-, left, hvisits, hnone⟩ :=
    (delivery_law echo (List.replicate 24 .advance)).2 _ _ _ hraising
  rw [hnone hend, haudience] at hvisits
  exact ⟨haudience, by simpa using hvisits⟩

end Machine

end TabRelay.Session
