import TabRelay.Proofs.Session.Advance

/-!
# The stack of a session is orderly

Work starts to let go of something at most as the last thing, and freeing pushes
frames that only free something.  So nothing but freeing goes on until what was
let go is gone, and every advance of a session has one of the effects.
-/

namespace TabRelay.Session

open TabRelay.Decoding TabRelay.Storage

variable {V : Type}

/-! ## The frames that are pushed -/

def Frame.isWork : Frame V → Bool
  | .script _ _ | .forwarding | .drain _ _ => true
  | _ => false

theorem Tells.isWork {s s' : System V} {change : Change V} {listener : Listener}
    {frames : List (Frame V)} (h : Tells s change listener s' frames) :
    ∀ frame ∈ frames, frame.isWork := by
  cases h <;> simp [Frame.isWork]

theorem Receives.isWork {s s' : System V} {relay : Relay} {event : Event}
    {frames : List (Frame V)} {a : Answer V} (h : Receives s relay event s' frames a) :
    ∀ frame ∈ frames, frame.isWork := by
  cases h with
  | forwards harea htells => simpa [Frame.isWork, or_imp, forall_and] using htells.isWork
  | ignores harea => simp

theorem Reacts.isWork {s s' : System V} {i : Nat} {event : Event} {frames : List (Frame V)}
    {a : Answer V} (h : Reacts s i event s' frames a) : ∀ frame ∈ frames, frame.isWork := by
  cases h with
  | missing => simp
  | script => simp [Frame.isWork]
  | forward hhandler hreaction hreceives => exact hreceives.isWork

theorem Drains.isWork {s s' : System V} {queue started : Nat} {frames : List (Frame V)}
    {a : Answer V} (h : Drains s queue started s' frames a) : ∀ frame ∈ frames, frame.isWork := by
  cases h with
  | done => simp
  | notice hqueue htells => simpa [Frame.isWork, or_imp, forall_and] using htells.isWork
  | script => simp [Frame.isWork]

theorem Frame.not_isDisposing_of_isWork {frame : Frame V} (h : frame.isWork) :
    ¬ frame.isDisposing := by
  cases frame <;> simp_all [isWork, isDisposing]

theorem Reaction.isFreeing_owned (reaction : Reaction V) : reaction.owned.isFreeing := by
  cases reaction <;> rfl

theorem mem_deliveries {outcome : Outcome Area} {tab : Nat} {frame : Frame V}
    (h : frame ∈ deliveries outcome tab) :
    ∃ event, frame = .delivery event (outcome.area.recipients (some tab)) := by
  simp only [deliveries, List.mem_map] at h
  obtain ⟨event, -, rfl⟩ := h
  exact ⟨event, rfl⟩

namespace Machine

/-- As the stack of an orderly machine. -/
def InOrder (frames : List (Frame V)) : Prop :=
  frames.Pairwise fun above below => below.isDisposing → above.isFreeing

theorem inOrder_of_no_disposing {frames : List (Frame V)}
    (h : ∀ frame ∈ frames, ¬ frame.isDisposing) : InOrder frames := by
  refine List.pairwise_of_forall_mem_list ?_
  intro above _ below hbelow hdisposing
  exact absurd hdisposing (h below hbelow)

theorem InOrder.append {frames rest : List (Frame V)} (h : InOrder frames)
    (hrest : ∀ frame ∈ rest, ¬ frame.isDisposing) : InOrder (frames ++ rest) := by
  refine List.pairwise_append.mpr ⟨h, inOrder_of_no_disposing hrest, ?_⟩
  intro above _ below hbelow hdisposing
  exact absurd hdisposing (hrest below hbelow)

theorem Begins.inOrder [Storable V] {m : Machine V} {step : Step V} {s : System V}
    {pushed : List (Frame V)} {a : Answer V} (h : Begins m step s pushed a) :
    InOrder pushed := by
  cases h with
  | operates hcall hwaiting houtcome =>
      refine inOrder_of_no_disposing ?_
      intro frame hframe
      rcases List.mem_append.mp hframe with hframe | hframe
      · obtain ⟨event, rfl⟩ := mem_deliveries hframe
        simp [Frame.isDisposing]
      · exact hwaiting.not_isDisposing frame hframe
  | barred e hasked hwaiting => exact inOrder_of_no_disposing hwaiting.not_isDisposing
  | startsDraining hdrains =>
      refine inOrder_of_no_disposing ?_
      exact fun frame hframe => Frame.not_isDisposing_of_isWork (hdrains.isWork frame hframe)
  | receives hname hreceives =>
      refine inOrder_of_no_disposing ?_
      intro frame hframe
      rcases List.mem_append.mp hframe with hframe | hframe
      · exact Frame.not_isDisposing_of_isWork (hreceives.isWork frame hframe)
      · simp_all [Frame.isDisposing]
  | subscribes hsubscribing htake => exact List.pairwise_singleton _ _
  | failsToSubscribe htake => exact List.pairwise_singleton _ _
  | listens hsubscribing hname => exact List.pairwise_singleton _ _
  | dropsSubscription hname => exact List.pairwise_singleton _ _
  | _ =>
      refine inOrder_of_no_disposing ?_
      simp [Frame.isDisposing, dropsOldStorage, dropsOldRelay]

theorem Continues.inOrder {m : Machine V} {top : Frame V} {b : Answer V} {s : System V}
    {pushed : List (Frame V)} {control : Control V} {warned : List (Entry V)}
    (h : Continues m top b s pushed control warned) :
    ¬ top.isFreeing ∧ InOrder pushed ∧
      ∀ step, control = .run step → ∀ frame ∈ pushed, ¬ frame.isDisposing := by
  cases h with
  | finishes b hspent =>
      refine ⟨?_, .nil, by simp⟩
      cases top <;> simp_all [Frame.isSpent, Frame.isFreeing]
  | calls b hrunning hreacts =>
      refine ⟨by simp [Frame.isFreeing], inOrder_of_no_disposing ?_, by simp⟩
      intro frame hframe
      rcases List.mem_append.mp hframe with hframe | hframe
      · exact Frame.not_isDisposing_of_isWork (hreacts.isWork frame hframe)
      · simp only [List.mem_cons, List.not_mem_nil, or_false] at hframe
        rcases hframe with rfl | rfl <;> simp [Frame.isDisposing]
  | drains b hdrains =>
      refine ⟨by simp [Frame.isFreeing], inOrder_of_no_disposing ?_, by simp⟩
      exact fun frame hframe => Frame.not_isDisposing_of_isWork (hdrains.isWork frame hframe)
  | _ => simp [Frame.isFreeing, Frame.isDisposing, InOrder]

theorem Frees.isFreeing {m : Machine V} {top : Frame V} {s : System V} {pushed : List (Frame V)}
    (h : Frees m top s pushed) : ∀ frame ∈ pushed, frame.isFreeing := by
  cases h with
  | frees hreferred hhandler =>
      rintro frame hframe
      simp only [List.mem_cons, List.not_mem_nil, or_false] at hframe
      rcases hframe with rfl | rfl
      · exact Reaction.isFreeing_owned _
      · rfl
  | _ => simp [Frame.isFreeing]

/-! ## Order is kept -/

theorem orderly_of_no_disposing {m : Machine V} (h : ∀ frame ∈ m.stack, ¬ frame.isDisposing) :
    m.Orderly where
  freeing := inOrder_of_no_disposing h
  running := fun _ _ => h

theorem Orderly.decide {m : Machine V} (h : m.Orderly) {runner : String}
    {old left : List (Step V)} {stack : List (Frame V)}
    (hstack : m.stack = .script runner old :: stack) :
    Orderly { m with stack := .script runner left :: stack } := by
  refine orderly_of_no_disposing ?_
  intro frame hframe
  rcases List.mem_cons.mp hframe with rfl | hframe
  · simp [Frame.isDisposing]
  · exact h.no_disposing hstack (by simp [Frame.isFreeing]) frame hframe

variable [Storable V]

/-- What stands on part of the stack stays orderly, and the part stays as it is. -/
theorem Becomes.orderly {m m' : Machine V} (h : m.Becomes m') {top base : List (Frame V)}
    (hstack : m.stack = top ++ base) (horderly : Orderly { m with stack := top })
    (hmore : ∀ b, m.control = .done b → top = [] → base = []) :
    ∃ top', m'.stack = top' ++ base ∧ Orderly { m' with stack := top' } := by
  obtain ⟨pushed, warned, heffect, hpushed, -⟩ := h
  have hsplit {b : Answer V} {frame : Frame V} {rest : List (Frame V)}
      (hdone : m.control = .done b) (hframe : m.stack = frame :: rest) :
      ∃ left, top = frame :: left ∧ rest = left ++ base := by
    cases top with
    | nil => simp [hstack, hmore b hdone rfl] at hframe
    | cons frame' left =>
        rw [hstack, List.cons_append, List.cons.injEq] at hframe
        exact ⟨left, by rw [hframe.1], hframe.2.symm⟩
  generalize m'.system = s at heffect
  generalize m'.control = control at heffect ⊢
  cases heffect with
  | rests hrest hbelow =>
      exact ⟨top, by rw [hpushed, hbelow, hstack, List.nil_append], horderly.freeing,
        fun step hrun => absurd hrun (hrest step)⟩
  | begins hrun hbegins =>
      refine ⟨pushed ++ top, by rw [hpushed, below_of_run hrun, hstack, List.append_assoc], ?_, ?_⟩
      · exact hbegins.inOrder.append (horderly.running _ hrun)
      · simp
  | continues hdone hframe hcontinues =>
      obtain ⟨left, rfl, rfl⟩ := hsplit hdone hframe
      obtain ⟨htop, hfirst, hrunning⟩ := hcontinues.inOrder
      have hleft : ∀ frame ∈ left, ¬ frame.isDisposing := horderly.no_disposing rfl htop
      refine ⟨pushed ++ left, by rw [hpushed, below_of_done hdone hframe, List.append_assoc],
        hfirst.append hleft, ?_⟩
      intro step hrun frame hmem
      rcases List.mem_append.mp hmem with hmem | hmem
      · exact hrunning step hrun frame hmem
      · exact hleft frame hmem
  | frees hdone hframe hfreeing hfrees =>
      obtain ⟨left, rfl, rfl⟩ := hsplit hdone hframe
      refine ⟨pushed ++ left, by rw [hpushed, below_of_done hdone hframe, List.append_assoc], ?_,
        fun step hrun => by simp [hdone] at hrun⟩
      refine List.pairwise_append.mpr ⟨?_, (List.pairwise_cons.mp horderly.freeing).2, ?_⟩
      · refine List.pairwise_of_forall_mem_list ?_
        exact fun above habove _ _ _ => hfrees.isFreeing above habove
      · exact fun above habove _ _ _ => hfrees.isFreeing above habove

theorem Orderly.advance {m : Machine V} (h : m.Orderly) : m.advance.Orderly := by
  obtain ⟨stack, hstack, horderly⟩ :=
    (advance_becomes h).orderly (List.append_nil m.stack).symm h fun _ _ _ => rfl
  rw [List.append_nil] at hstack
  rwa [← hstack] at horderly

theorem Orderly.play {m : Machine V} (h : m.Orderly) (move : Move V) : (m.play move).Orderly := by
  cases move with
  | begin step =>
      simp only [Machine.play]
      split
      · exact orderly_of_no_disposing (by simp [start])
      · exact h
  | decide left =>
      simp only [Machine.play]
      split
      · rename_i runner old stack hstack
        exact h.decide hstack
      · exact h
  | advance => exact h.advance

theorem Orderly.playAll {m : Machine V} (h : m.Orderly) (moves : List (Move V)) :
    (m.playAll moves).Orderly := by
  induction moves generalizing m with
  | nil => exact h
  | cons move moves ih => exact ih (h.play move)

theorem orderly_playAll (moves : List (Move V)) : (idle.playAll moves).Orderly :=
  Orderly.playAll (orderly_of_no_disposing (by simp [idle])) moves

/-- `course_induction` with machines that are orderly when they advance. -/
theorem orderly_induction {P : List (Machine V) → Machine V → Prop} (hidle : P [] idle)
    (hbegin : ∀ past m step, P past m → m.stack = [] → P past (.start m.system step))
    (hdecide : ∀ past m runner old left stack, P past m →
      m.stack = .script runner old :: stack →
      P past { m with stack := .script runner left :: stack })
    (hadvance : ∀ past m, m.Orderly → P past m → P (past ++ [m]) m.advance)
    (moves : List (Move V)) : P (idle.history moves) (idle.playAll moves) := by
  have h : (idle.playAll moves).Orderly ∧ P (idle.history moves) (idle.playAll moves) := by
    apply course_induction (P := fun past m => m.Orderly ∧ P past m)
    · exact ⟨orderly_of_no_disposing (by simp [idle]), hidle⟩
    · rintro past m step ⟨-, hm⟩ hstack
      exact ⟨orderly_of_no_disposing (by simp [start]), hbegin past m step hm hstack⟩
    · rintro past m runner old left stack ⟨horderly, hm⟩ hstack
      exact ⟨horderly.decide hstack, hdecide past m runner old left stack hm hstack⟩
    · rintro past m ⟨horderly, hm⟩
      exact ⟨horderly.advance, hadvance past m horderly hm⟩
  exact h.2

theorem system_induction {P : System V → Prop} (hempty : P {})
    (heffect : ∀ (m : Machine V) s pushed control warned,
      Effect m s pushed control warned → P m.system → P s)
    (moves : List (Move V)) : P (idle.playAll moves).system := by
  apply orderly_induction (P := fun _ m => P m.system)
  · exact hempty
  · exact fun past m step hm hstack => hm
  · exact fun past m runner old left stack hm hstack => hm
  · intro past m horderly hm
    obtain ⟨pushed, warned, h, -⟩ := advance_becomes horderly
    exact heffect _ _ _ _ _ h hm

/-! ## What the topmost frame does -/

theorem Effect.of_done {m : Machine V} {s : System V} {pushed : List (Frame V)}
    {control : Control V} {warned : List (Entry V)} {b : Answer V} {top : Frame V}
    {rest : List (Frame V)} (h : Effect m s pushed control warned) (hdone : m.control = .done b)
    (hstack : m.stack = top :: rest) :
    Continues m top b s pushed control warned ∨
      top.isFreeing ∧ Frees m top s pushed ∧ control = .done b := by
  cases h with
  | rests hrest hbelow =>
      rw [below_of_done hdone hstack, hstack] at hbelow
      simp at hbelow
  | begins hrun hbegins =>
      rw [hdone] at hrun
      contradiction
  | continues hdone' hstack' hcontinues =>
      rw [hdone] at hdone'
      rw [hstack] at hstack'
      cases hdone'
      cases hstack'
      exact .inl hcontinues
  | frees hdone' hstack' hfreeing hfrees =>
      rw [hstack] at hstack'
      cases hstack'
      exact .inr ⟨hfreeing, hfrees, hdone⟩

theorem Effect.of_run {m : Machine V} {s : System V} {pushed : List (Frame V)}
    {control : Control V} {warned : List (Entry V)} {step : Step V}
    (h : Effect m s pushed control warned) (hrun : m.control = .run step) :
    ∃ a, control = .done a ∧ Begins m step s pushed a := by
  cases h with
  | rests hrest hbelow => exact absurd hrun (hrest step)
  | begins hrun' hbegins =>
      rw [hrun] at hrun'
      cases hrun'
      exact ⟨_, rfl, hbegins⟩
  | continues hdone hstack hcontinues => simp [hdone] at hrun
  | frees hdone hstack hfreeing hfrees => simp [hdone] at hrun

theorem Effect.of_visit {m : Machine V} {s : System V} {pushed : List (Frame V)}
    {control : Control V} {warned : List (Entry V)} {b : Answer V} {event : Event} {i : Nat}
    {left : List Nat} {rest : List (Frame V)} (h : Effect m s pushed control warned)
    (hdone : m.control = .done b) (hstack : m.stack = .delivery event (i :: left) :: rest) :
    ∃ above, pushed = above ++ [.delivery event left] := by
  rcases h.of_done hdone hstack with hcontinues | ⟨hfreeing, -⟩
  · cases hcontinues with
    | finishes b hspent => contradiction
    | skips b hrunning => exact ⟨[], rfl⟩
    | calls b hrunning hreacts => exact ⟨_, (List.append_assoc _ [_] [_]).symm⟩
  · contradiction

end Machine

end TabRelay.Session
