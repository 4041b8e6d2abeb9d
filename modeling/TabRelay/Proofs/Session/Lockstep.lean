import TabRelay.Proofs.Session.Choosing
import TabRelay.Proofs.Session.Hiding

/-!
# Two sessions side by side

A machine and what is seen of it go from one choice to the next.  They advance
together, but for handlers that are not seen and subscriptions that are not seen:
then the first one advances alone until it comes back to the frame that both have.
-/

namespace TabRelay.Session

open TabRelay.Storage

variable {V : Type}

namespace Machine

/-! ## Machines that come together again -/

/-- The first machine is at work above a frame that both have, and it will go on there: an event
is delivered, or subscriptions are dropped. -/
structure Digresses (v : View) (before : List (Entry V) × List (Entry V))
    (above rest : List (Frame V)) (m p : Machine V) : Prop extends Apart v above rest m p where
  unnested : ∀ frame ∈ above, ¬ frame.isNested
  said : ∃ since, v.said m.trace = since ++ before.1 ∧ v.said p.trace = since ++ before.2
  done : (∃ a, m.control = .done a) ∧ ∃ a, p.control = .done a
  returns : (∃ event left below, rest = .delivery event left :: below) ∨
    (∃ left below, rest = .drop left :: below) ∧ (∀ frame ∈ above, frame.isFreeing) ∧
      p.control = v.control m.control

/-- The machines do the same next, or the first one comes back to that. -/
inductive Joined (v : View) (before : List (Entry V) × List (Entry V)) (m p : Machine V) : Prop
  | inStep (h : InStep v before m p) (hsuits : ∀ step, m.control = .run step →
      Suits v m.system step)
  | digresses {above rest : List (Frame V)} (h : Digresses v before above rest m p)

section

variable {v : View} {before : List (Entry V) × List (Entry V)} {m p : Machine V}

theorem Digresses.shows {rest : List (Frame V)} (h : Digresses v before [] rest m p) :
    Shows v before m p := by
  have hstack : m.stack = rest := h.stack
  have hshown := h.shown
  rw [← hstack] at hshown
  exact ⟨hshown, h.said⟩

variable [Storable V]

omit [Storable V] in
theorem isBase_map {scripts : Bool} (frames : List (Frame V)) :
    isBase scripts (frames.map v.frame) = isBase scripts frames := by
  cases frames with
  | nil => rfl
  | cons frame rest => cases frame <;> rfl

omit [Storable V] in
theorem InStep.waits_eq (h : InStep v before m p) (scripts : Bool) :
    p.waits scripts = m.waits scripts := by
  have hbase : isBase scripts p.stack = isBase scripts m.stack := by rw [h.stack, isBase_map]
  unfold waits
  rw [h.control, hbase]
  cases m.control <;> rfl

omit [Storable V] in
theorem Aside.not_base {scripts : Bool} {frame : Frame V} (h : Aside v p frame)
    (hwhole : scripts → ∀ key, v.keys key) (rest : List (Frame V)) :
    isBase scripts (frame :: rest) = false := by
  cases h with
  | script name hkey => exact Bool.eq_false_iff.mpr fun hscripts => hkey (hwhole hscripts _)
  | _ => rfl

omit [Storable V] in
theorem Aside.unnested {frame : Frame V} (h : Aside v p frame) : ¬ frame.isNested := by
  cases h <;> simp [Frame.isNested]

theorem Shows.turns_aside (h : Shows v before m p) (hsound : m.Sound) {a : Answer V}
    (hdone : m.control = .done a) (hdone' : ∃ b, p.control = .done b) {event : Event} {i : Nat}
    {left : List Nat} {rest : List (Frame V)}
    (hstack : m.stack = .delivery event (i :: left) :: rest) (hunseen : ¬ v.handlers i) :
    ∃ above, Digresses v before above (.delivery event left :: rest) m.advance p := by
  obtain ⟨habout, hstack', hpopped⟩ := h.pop hstack
  let x : Machine V := { m with stack := rest }
  have hfree : x.Unheld :=
    unheld_of_no_disposing (hsound.orderly.no_disposing hstack (by simp [Frame.isFreeing]))
  have hidle : x.isRunning i → v.calls = false := by
    intro hrunning
    obtain ⟨frame, hframe, hturn⟩ := List.any_eq_true.mp hrunning
    have hseen := hpopped.frames frame hframe
    cases frame with
    | turn j => exact absurd (of_decide_eq_true hturn ▸ hseen) hunseen
    | _ => simp at hturn
  obtain ⟨pushed, hpushed, hmute⟩ := mute_visit (m := x) hfree h.closed
    (.inl hunseen) hidle left
  have hadvance : m.advance = x.visit event i left := by
    rw [Machine.advance, hdone]
    simp only [Machine.resume, hstack, x]
  have hnumbers : v.numbers (i :: left) = v.numbers left := by simp [View.numbers, hunseen]
  have haside : ∀ frame ∈ pushed, Aside v p frame := by
    have hturn : Aside v p (.turn i : Frame V) := .turn fun j hj hseen => by
      rw [List.mem_singleton.mp hj] at hseen
      exact absurd hseen hunseen
    rcases hpushed with rfl | rfl | rfl | ⟨hunheard, -⟩
    · simp
    · simpa using hturn
    · simpa using ⟨Aside.forwarding, hturn⟩
    · exact absurd habout hunheard
  rw [hadvance]
  refine ⟨pushed, ⟨?_, fun frame hframe => .inr (haside frame hframe), ?_⟩, ?_, ?_,
    ⟨hmute.done, hdone'⟩, .inl ⟨event, left, rest, rfl⟩⟩
  · rw [hmute.stack, List.append_assoc]
    rfl
  · refine ⟨h.system.trans hmute.system.symm, ?_, hmute.closed h.closed, ?_⟩
    · rw [hstack']
      simp only [List.map_cons, View.frame, hnumbers]
    · exact List.forall_mem_cons.mpr ⟨habout, hpopped.frames⟩
  · exact fun frame hframe => (haside frame hframe).unnested
  · rw [hmute.said]
    exact h.said

theorem InStep.drops_aside (h : InStep v before m p) (hunaided : v.Unaided m) {a : Answer V}
    (hdone : m.control = .done a) {sub : Subscription} {left : List Subscription}
    {rest : List (Frame V)} (hstack : m.stack = .drop (sub :: left) :: rest)
    (hunseen : ¬ v.seesSubscription sub) :
    ∃ above, Digresses v before above (.drop left :: rest) m.advance p := by
  obtain ⟨-, hstack', hpopped⟩ := h.toShows.pop hstack
  let x : Machine V := { m with stack := .drop left :: rest }
  have hadvance : m.advance = x.detach sub := by
    rw [Machine.advance, hdone]
    simp only [Machine.resume, hstack, Machine.push, x]
  have howned : v.owned (sub :: left) = v.owned left := by simp [View.owned, hunseen]
  have hstack'' : p.stack = (Frame.drop left :: rest).map v.frame := by
    rw [hstack']
    simp only [List.map_cons, View.frame, howned]
  have hshown : Shown v x p :=
    ⟨h.system, hstack'', h.closed, List.forall_mem_cons.mpr ⟨rfl, hpopped.frames⟩⟩
  have hlives : x.isAlive sub.area → p.isAlive sub.area := by
    intro halive
    have hkeeps (frame : Frame V) (hkeeps : frame.keeps sub.area) :
        frame ∈ x.stack ↔ frame ∈ m.stack := by
      simp only [x, hstack, List.mem_cons]
      cases frame <;> simp_all [Frame.keeps]
    refine hshown.isAlive_of_kept ((hunaided sub.area ?_).of_stack rfl fun frame hframe hkeep =>
      (hkeeps frame hkeep).mpr hframe)
    rw [isAlive_iff] at halive ⊢
    refine halive.imp id (Or.imp id ?_)
    rintro ⟨frame, hframe, hkeep⟩
    exact ⟨frame, (hkeeps frame hkeep).mp hframe, hkeep⟩
  obtain ⟨pushed, hmute, hpushed⟩ := mute_detach (m := x) hdone h.closed hunseen hlives
  have hcontrol : (x.detach sub).control = m.control := control_detach x sub
  rw [hadvance]
  refine ⟨pushed, ⟨hmute.stack, fun frame hframe => .inr (hpushed frame hframe).1, ?_⟩, ?_, ?_,
    ⟨hmute.done, ⟨a, by rw [h.control, hdone]; rfl⟩⟩,
    .inr ⟨⟨left, rest, rfl⟩, fun frame hframe => (hpushed frame hframe).2, ?_⟩⟩
  · exact ⟨h.system.trans hmute.system.symm, hstack'', hmute.closed h.closed, hshown.frames⟩
  · exact fun frame hframe => (hpushed frame hframe).1.unnested
  · rw [hmute.said]
    exact h.said
  · rw [hcontrol]
    exact h.control

/-! ## One advance -/

theorem advance_frees {m : Machine V} (horderly : m.Orderly) {a : Answer V}
    (hdone : m.control = .done a) {top : Frame V} {rest pushed : List (Frame V)}
    (hstack : m.stack = top :: rest) (hfreeing : top.isFreeing)
    (hpushed : m.advance.stack = pushed ++ rest) :
    (∀ frame ∈ pushed, frame.isFreeing) ∧ m.advance.control = .done a := by
  obtain ⟨frames, warned, heffect, hframes, -⟩ := advance_becomes horderly
  have hbelow : m.below = rest := by simp [below, hdone, hstack]
  rw [hbelow] at hframes
  have hsame : pushed = frames := List.append_cancel_right (hpushed.symm.trans hframes)
  rcases heffect.of_done hdone hstack with hcontinues | ⟨-, hfrees, hcontrol⟩
  · exact absurd hfreeing hcontinues.inOrder.1
  · exact ⟨hsame ▸ hfrees.isFreeing, hcontrol⟩

theorem Digresses.advance {top : Frame V} {above rest : List (Frame V)}
    (h : Digresses v before (top :: above) rest m p) (hsound : m.Sound) (hunaided : v.Unaided m)
    (hquiet : v.Quiet m) : ∃ above, Digresses v before above rest m.advance p := by
  obtain ⟨⟨a, hdone⟩, hdone'⟩ := h.done
  obtain ⟨htop, habove⟩ := List.forall_mem_cons.mp h.unnested
  obtain ⟨pushed, hpushed, hapart, hdoneNext, hsaid⟩ :=
    h.toApart.resumes hsound hunaided hquiet hdone
  have hstack : m.stack = top :: (above ++ rest) := h.stack
  have hsame : v.said m.advance.trace = v.said m.trace := by
    rw [hsaid, Frame.outcome_of_unnested htop, List.nil_append]
  refine ⟨pushed ++ above, hapart, ?_, hsame ▸ h.said, ⟨hdoneNext, hdone'⟩, ?_⟩
  · exact List.forall_mem_append.mpr ⟨fun frame hframe => (hpushed frame hframe).unnested, habove⟩
  · refine h.returns.imp id fun ⟨hdrop, hfreeing, hcontrol⟩ => ⟨hdrop, ?_⟩
    obtain ⟨htopFrees, haboveFrees⟩ := List.forall_mem_cons.mp hfreeing
    have hstackNext : m.advance.stack = pushed ++ (above ++ rest) := by
      rw [hapart.stack, List.append_assoc]
    obtain ⟨hpushedFrees, hsameControl⟩ := advance_frees hsound.orderly hdone hstack htopFrees
      hstackNext
    refine ⟨List.forall_mem_append.mpr ⟨hpushedFrees, haboveFrees⟩, ?_⟩
    rw [hsameControl, hcontrol, hdone]

omit [Storable V] in
theorem suits_of_done {a : Answer V} (hdone : m.control = .done a) :
    ∀ step, m.control = .run step → Suits v m.system step := by
  simp [hdone]

theorem Shows.joins (h : Shows v before m p) (hsound : m.Sound) {a : Answer V}
    (hdone : m.control = .done a) (hdone' : ∃ b, p.control = .done b)
    (hadvance : ∃ a, m.advance.control = .done a) {event : Event} {left : List Nat}
    {rest : List (Frame V)} (hstack : m.stack = .delivery event left :: rest) :
    Joined v before m.advance p ∨ Joined v before m.advance p.advance := by
  obtain ⟨b, hb⟩ := hadvance
  by_cases hvisits : ∀ i more, left = i :: more → v.handlers i
  · obtain ⟨c, hc⟩ := hdone'
    exact .inr (.inStep (h.delivers hsound hdone hc hstack hvisits) (suits_of_done hb))
  · push Not at hvisits
    obtain ⟨i, more, rfl, hunseen⟩ := hvisits
    obtain ⟨above, hdigresses⟩ := h.turns_aside hsound hdone hdone' hstack hunseen
    exact .inl (.digresses hdigresses)

/-- Machines in step advance together, but for a handler or a subscription that is not seen. -/
theorem InStep.joins (h : InStep v before m p) (hsound : m.Sound) (hunaided : v.Unaided m)
    (hnext : v.Unaided m.advance) (hadvance : ∃ a, m.advance.control = .done a) {scripts : Bool}
    (hgoes : m.Goes scripts) (hwaits : ¬ m.waits scripts)
    (hsuits : ∀ step, m.control = .run step → Suits v m.system step) :
    Joined v before m.advance p ∨ Joined v before m.advance p.advance := by
  obtain ⟨b, hb⟩ := hadvance
  cases hcontrol : m.control with
  | run step =>
      exact .inr (.inStep (h.begins hsound hcontrol (hsuits step hcontrol)) (suits_of_done hb))
  | conflict cell =>
      rw [Machine.advance, hcontrol] at hb
      simp [hcontrol] at hb
  | done a =>
      have hdone' : ∃ b, p.control = .done b := ⟨a, by rw [h.control, hcontrol]; rfl⟩
      cases hstack : m.stack with
      | nil => exact absurd (waits_iff.mpr ⟨⟨a, hcontrol⟩, by simp [hstack, isBase]⟩) hwaits
      | cons top rest =>
          by_cases hdrops : ∀ sub left, top = .drop (sub :: left) → v.seesSubscription sub
          · by_cases hvisits : ∀ event i left, top = .delivery event (i :: left) → v.handlers i
            · refine .inr (.inStep (h.resumes hsound hunaided hnext hcontrol hstack ?_ hvisits
                hdrops) (suits_of_done hb))
              rintro runner step left rfl
              refine hwaits (waits_iff.mpr ⟨⟨a, hcontrol⟩, ?_⟩)
              simpa [hstack, isBase] using hgoes runner step left rest hstack
            · push Not at hvisits
              obtain ⟨event, i, left, rfl, -⟩ := hvisits
              exact h.toShows.joins hsound hcontrol hdone' ⟨b, hb⟩ hstack
          · push Not at hdrops
            obtain ⟨sub, left, rfl, hunseen⟩ := hdrops
            obtain ⟨above, hdigresses⟩ := h.drops_aside hunaided hcontrol hstack hunseen
            exact .inl (.digresses hdigresses)

theorem Joined.advance (h : Joined v before m p) (hsound : m.Sound)
    (hunaided : v.Unaided m) (hnext : v.Unaided m.advance) (hquiet : v.Quiet m)
    (hadvance : ∃ a, m.advance.control = .done a) {scripts : Bool} (hgoes : m.Goes scripts)
    (hwaits : ¬ m.waits scripts) :
    ¬ p.waits scripts ∧ (Joined v before m.advance p ∨ Joined v before m.advance p.advance) := by
  cases h with
  | inStep h hsuits' =>
      refine ⟨?_, h.joins hsound hunaided hnext hadvance hgoes hwaits hsuits'⟩
      rw [h.waits_eq]
      exact hwaits
  | @digresses above rest h =>
      have hstays : ¬ p.waits scripts := by
        intro hwaits'
        have hbase := (waits_iff.mp hwaits').2
        rw [h.shown.stack, isBase_map] at hbase
        rcases h.returns with ⟨event, left, below, rfl⟩ | ⟨⟨left, below, rfl⟩, -⟩ <;> contradiction
      refine ⟨hstays, ?_⟩
      obtain ⟨⟨a, hdone⟩, hdone'⟩ := h.done
      cases above with
      | cons top above =>
          obtain ⟨above, hdigresses⟩ := h.advance hsound hunaided hquiet
          exact .inl (.digresses hdigresses)
      | nil =>
          have hstack : m.stack = rest := h.stack
          rcases h.returns with ⟨event, left, below, hrest⟩ | ⟨-, -, hcontrol⟩
          · exact h.shows.joins hsound hdone hdone' hadvance (hstack.trans hrest)
          · have hinStep : InStep v before m p := ⟨h.shows, hcontrol⟩
            exact hinStep.joins hsound hunaided hnext hadvance hgoes hwaits (suits_of_done hdone)

omit [Storable V] in
theorem Joined.inStep_of_waits (h : Joined v before m p) {scripts : Bool}
    (hwhole : scripts → ∀ key, v.keys key) (hwaits : m.waits scripts) : InStep v before m p := by
  cases h with
  | inStep h => exact h
  | @digresses above rest h =>
      exfalso
      have hbase := (waits_iff.mp hwaits).2
      rw [h.stack] at hbase
      cases above with
      | nil =>
          rcases h.returns with ⟨event, left, below, rfl⟩ | ⟨⟨left, below, rfl⟩, -⟩ <;> contradiction
      | cons top above =>
          have haside := (h.aside top List.mem_cons_self).resolve_left
            (h.unnested top List.mem_cons_self)
          rw [List.cons_append, haside.not_base hwhole] at hbase
          contradiction

end

end Machine

end TabRelay.Session
