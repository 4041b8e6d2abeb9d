import TabRelay.Proofs.Session.Order
import TabRelay.Proofs.Session.Stopping

/-!
# No cell is borrowed in vain

The machine stops where what it touches would meet a loan, and nowhere else.  In a session
in which handlers do nothing when they are freed but to drop what they own, this does not
come about: everything is given back before anything is called, but for the area that a
handler was detached from.  While that handler and what it owned are freed, cells are only
tried.
-/

namespace TabRelay.Session

open TabRelay.Decoding TabRelay.Storage

variable {V : Type}

namespace Machine

/-! ## The loans of a session -/

theorem lends_work {frames : List (Frame V)} (h : ∀ frame ∈ frames, frame.isWork) :
    ∀ frame ∈ frames, frame.loan? = none := by
  intro frame hframe
  have hwork := h frame hframe
  cases frame with
  | held cell => contradiction
  | _ => rfl

theorem lends_nothing {frames : List (Frame V)} (h : ∀ frame ∈ frames, frame.loan? = none) :
    frames.filterMap Frame.loan? = [] :=
  List.filterMap_eq_nil_iff.mpr h

theorem Awaits.lends {m : Machine V} {step : Step V} {h : Handle} {waiting : List (Frame V)}
    (hwaiting : m.Awaits step h waiting) : ∀ frame ∈ waiting, frame.loan? = none := by
  cases hwaiting <;> simp [Frame.loan?]

theorem Continues.lends {m : Machine V} {top : Frame V} {b : Answer V} {s : System V}
    {pushed : List (Frame V)} {control : Control V} {warned : List (Entry V)}
    (h : Continues m top b s pushed control warned) : ∀ frame ∈ pushed, frame.loan? = none := by
  cases h with
  | calls b hrunning hreacts =>
      intro frame hframe
      rcases List.mem_append.mp hframe with hframe | hframe
      · exact lends_work hreacts.isWork frame hframe
      · simp only [List.mem_cons, List.not_mem_nil, or_false] at hframe
        rcases hframe with rfl | rfl <;> rfl
  | drains b hdrains => exact lends_work hdrains.isWork
  | _ => simp [Frame.loan?]

theorem loans_cons {m : Machine V} {frame : Frame V} {rest : List (Frame V)}
    (hstack : m.stack = frame :: rest) :
    m.loans = frame.loan?.toList ++ rest.filterMap Frame.loan? := by
  unfold loans
  rw [hstack, List.filterMap_cons]
  cases frame.loan? <;> rfl

theorem lends_of_no_disposing {frames : List (Frame V)}
    (h : ∀ frame ∈ frames, ¬frame.isDisposing) : ∀ frame ∈ frames, frame.loan? = none := by
  intro frame hframe
  have hframe := h frame hframe
  cases frame with
  | held cell => exact absurd rfl hframe
  | _ => rfl

theorem cell_ne_of_unheld {m : Machine V} {cell : Cell} (h : m.isHeld cell = false) :
    ∀ loan ∈ m.loans, loan.cell ≠ cell := by
  intro loan hloan hcell
  have hheld := (mem_loans hloan).1
  rw [hcell, h] at hheld
  contradiction

theorem replay_detaching_of_leaves {m : Machine V} {lent : List Loan} {sub : Subscription}
    (h : m.isAlive sub.area = false ∨ m.isHeld (.area sub.area) ∨
      (m.system.area sub.area).subscriber? sub.id = none) :
    replay lent m.loans (m.detaching sub) = some m.loans := by
  unfold detaching
  cases halive : m.isAlive sub.area with
  | false => rfl
  | true =>
      cases hheld : m.isHeld (.area sub.area) with
      | true =>
          have hloan : (m.loans.any fun loan => loan.cell = .area sub.area) = true :=
            List.any_eq_true.mpr ⟨_, mem_loans_of_isHeld hheld, by simp⟩
          simp [Touch.apply, hloan]
      | false =>
          have hmissing : (m.system.area sub.area).subscriber? sub.id = none := by
            simpa [halive, hheld] using h
          simp only [hmissing, Bool.not_true, Bool.false_eq_true, if_false]
          exact replay_briefly (cell_ne_of_unheld hheld) _

theorem replay_detaching_of_detaches {m : Machine V} {lent : List Loan} {sub : Subscription}
    {subscriber : Subscriber} (halive : m.isAlive sub.area) (hheld : m.isHeld (.area sub.area) = false)
    (hfound : (m.system.area sub.area).subscriber? sub.id = some subscriber) :
    replay lent m.loans (m.detaching sub) =
      some (⟨.area sub.area, .exclusive⟩ :: m.loans) := by
  have hfree : m.loans.any (Loan.conflicts ⟨.area sub.area, .exclusive⟩) = false := by
    apply List.any_eq_false.mpr
    intro loan hloan
    simp [Loan.conflicts, Ne.symm (cell_ne_of_unheld hheld loan hloan)]
  simp [detaching, halive, hheld, hfound, Touch.apply, hfree]

theorem cell_of_refused {m : Machine V} {sub : Subscription} {cell : Cell}
    (h : .refused cell ∈ m.detaching sub) : cell = .area sub.area := by
  unfold detaching at h
  cases halive : m.isAlive sub.area with
  | false => simp [halive] at h
  | true =>
      cases hheld : m.isHeld (.area sub.area) with
      | true => simpa [halive, hheld] using h
      | false =>
          cases hfound : (m.system.area sub.area).subscriber? sub.id <;>
            simp [halive, hheld, hfound, briefly] at h

variable [Storable V]

theorem Begins.lends {m : Machine V} {step : Step V} {s : System V} {pushed : List (Frame V)}
    {a : Answer V} (h : Begins m step s pushed a) : ∀ frame ∈ pushed, frame.loan? = none := by
  cases h with
  | operates hcall hwaiting houtcome =>
      intro frame hframe
      rcases List.mem_append.mp hframe with hframe | hframe
      · obtain ⟨event, rfl⟩ := mem_deliveries hframe
        rfl
      · exact hwaiting.lends frame hframe
  | barred e hasked hwaiting => exact hwaiting.lends
  | startsDraining hdrains => exact lends_work hdrains.isWork
  | receives hname hreceives =>
      intro frame hframe
      rcases List.mem_append.mp hframe with hframe | hframe
      · exact lends_work hreceives.isWork frame hframe
      · cases List.mem_singleton.mp hframe
        rfl
  | _ => simp [Frame.loan?, dropsOldStorage, dropsOldRelay, dropsOldSubscription]

theorem Frees.replay_touches {m : Machine V} {lent : List Loan} {answer : Answer V}
    {frame : Frame V} {rest pushed : List (Frame V)} {s : System V} (hdone : m.control = .done answer)
    (hstack : m.stack = frame :: rest) (hfreeing : frame.isFreeing)
    (h : Frees m frame s pushed) :
    replay lent m.loans m.touches = some ((pushed ++ rest).filterMap Frame.loan?) := by
  have hbeneath : m.beneath.loans = rest.filterMap Frame.loan? := by
    rw [beneath_of_done hdone hstack]
    rfl
  have hloans := loans_cons hstack
  rw [← hbeneath] at hloans
  rw [List.filterMap_append, ← hbeneath]
  cases h with
  | pops hmore halive =>
      cases frame with
      | keep i => simp [touches, hdone, hstack, hloans, Frame.loan?]
      | held cell => simp [touches, hdone, hstack, hloans, Frame.loan?, Touch.apply]
      | release left => simp [touches, hdone, hstack, hloans, Frame.loan?]
      | drop left =>
          cases left with
          | nil => simp [touches, hdone, hstack, hloans, Frame.loan?]
          | cons sub left => exact absurd rfl hmore
      | _ => contradiction
  | reaps hkeeps hdead =>
      cases frame with
      | keep i => simp [touches, hdone, hstack, hloans, Frame.loan?]
      | held cell => simp [touches, hdone, hstack, hloans, Frame.loan?, Touch.apply]
      | _ => contradiction
  | letsGo i left => simp [touches, hdone, hstack, hloans, Frame.loan?]
  | @frees i left handler hreferred hhandler =>
      have hpushed : [handler.reaction.owned, .release left].filterMap Frame.loan? = [] := by
        cases handler.reaction <;> rfl
      rw [hpushed]
      simp [touches, hdone, hstack, hloans, Frame.loan?]
  | @leaves sub left hleaves =>
      have hheld := isHeld_of_stack hstack rfl (.area sub.area)
      rw [← hheld, ← beneath_of_done hdone hstack] at hleaves
      have htouches : m.touches = m.beneath.detaching sub := by simp [touches, hdone, hstack]
      rw [htouches, hloans]
      exact replay_detaching_of_leaves hleaves
  | @detaches sub left subscriber halive hheld hfound =>
      rw [← isHeld_of_stack hstack rfl, ← beneath_of_done hdone hstack] at hheld
      have htouches : m.touches = m.beneath.detaching sub := by simp [touches, hdone, hstack]
      rw [htouches, hloans]
      exact replay_detaching_of_detaches halive hheld hfound

/-- Unless it is freeing something, the machine has borrowed nothing but what is lent. -/
structure Owes (m : Machine V) (lent : List Loan) : Prop where
  running : ∀ step, m.control = .run step → m.loans = lent
  working : ∀ b frame rest, m.control = .done b → m.stack = frame :: rest → ¬frame.isFreeing →
    m.loans = lent

omit [Storable V] in
theorem replay_of_settled {m : Machine V} {touches : List Touch} (hclear : ¬m.Meets touches)
    (hsettled : Settled touches) : replay m.loans m.loans touches = some m.loans := by
  apply hsettled.replay_eq
  intro loan hloan other hother hcell
  exact hclear ⟨loan, hloan, hcell ▸ (mem_loans hother).1⟩

theorem replay_touches {m : Machine V} {lent : List Loan} (hclear : ¬m.Meets m.touches)
    (howes : m.Owes lent) : replay lent m.loans m.touches = some m.advance.loans := by
  obtain ⟨pushed, warned, heffect, hstack, -⟩ := becomes_of_not_meets hclear
  have hloans : m.advance.loans = (pushed ++ m.below).filterMap Frame.loan? :=
    congrArg (List.filterMap Frame.loan?) hstack
  rw [hloans]
  generalize m.advance.system = s at heffect
  generalize m.advance.control = control at heffect
  cases heffect with
  | rests hrest hbelow =>
      have htouches : m.touches = [] := by
        unfold touches
        cases hcontrol : m.control with
        | run step => exact absurd hcontrol (hrest step)
        | done answer =>
            rw [below, hcontrol] at hbelow
            cases hempty : m.stack with
            | nil => rfl
            | cons frame rest => simp [hempty] at hbelow
        | conflict cell => rfl
      rw [htouches, hbelow]
      rfl
  | @begins step _ _ _ hrun hbegins =>
      have htouches : m.touches = m.beginning step := by
        unfold touches
        rw [hrun]
      rw [List.filterMap_append, lends_nothing hbegins.lends, below_of_run hrun,
        ← howes.running step hrun]
      rw [htouches] at hclear ⊢
      exact replay_of_settled hclear (m.settled_beginning step)
  | @continues b top rest _ _ _ _ hdone htop hcontinues =>
      obtain ⟨hframe, -, -⟩ := hcontinues.inOrder
      have htopless : top.loan? = none := by
        cases top with
        | held cell => exact absurd rfl hframe
        | _ => rfl
      have hrest : m.loans = rest.filterMap Frame.loan? := by
        rw [loans_cons htop, htopless]
        rfl
      rw [List.filterMap_append, lends_nothing hcontinues.lends, below_of_done hdone htop,
        List.nil_append, ← hrest, ← howes.working b top rest hdone htop hframe]
      exact replay_of_settled hclear (settled_touches hdone htop hframe)
  | frees hdone htop hfreeing hfrees =>
      rw [below_of_done hdone htop]
      exact hfrees.replay_touches hdone htop hfreeing

omit [Storable V] in
theorem Orderly.owes {m : Machine V} (h : m.Orderly) : m.Owes [] where
  running step hrun := lends_nothing (lends_of_no_disposing (h.running step hrun))
  working b frame rest hdone hstack hframe := by
    rw [loans_cons hstack, lends_nothing (lends_of_no_disposing (h.no_disposing hstack hframe))]
    cases frame with
    | held cell => exact absurd rfl hframe
    | _ => rfl

theorem Orderly.replay_touches {m : Machine V} (h : m.Orderly) :
    replay [] m.loans m.touches = some m.advance.loans :=
  Machine.replay_touches h.not_meets h.owes

theorem drop_of_refused {m : Machine V} {cell : Cell} (h : .refused cell ∈ m.touches) :
    ∃ sub left rest, m.stack = .drop (sub :: left) :: rest ∧ cell = .area sub.area := by
  cases hcontrol : m.control with
  | run step =>
      have htouches : m.touches = m.beginning step := by simp [touches, hcontrol]
      rw [htouches] at h
      exact absurd h ((m.settled_beginning step).not_refused cell)
  | conflict busy => simp [touches, hcontrol] at h
  | done answer =>
      cases hstack : m.stack with
      | nil => simp [touches, hcontrol, hstack] at h
      | cons frame rest =>
          by_cases hfreeing : frame.isFreeing
          · cases frame with
            | drop left =>
                cases left with
                | nil => simp [touches, hcontrol, hstack] at h
                | cons sub left =>
                    have htouches : m.touches = m.beneath.detaching sub := by
                      simp [touches, hcontrol, hstack]
                    rw [htouches] at h
                    exact ⟨sub, left, rest, rfl, cell_of_refused h⟩
            | _ => simp [touches, hcontrol, hstack, Frame.isFreeing] at h hfreeing
          · exact absurd h ((settled_touches hcontrol hstack hfreeing).not_refused cell)

theorem Orderly.goes_on {m : Machine V} (h : m.Orderly) (hgoes : ¬m.Stops) :
    ¬m.advance.Stops := by
  have hnew : ∀ step, m.control = .run step →
      m.isHeld (.area m.system.areas.length) = false := by
    intro step hrun
    exact unheld_of_no_disposing (h.running step hrun) _
  rw [stops_advance hnew]
  exact not_or.mpr ⟨hgoes, h.not_meets⟩

/-! ## Whole courses -/

theorem never_stops (moves : List (Move V)) : ¬(idle.playAll moves).Stops := by
  apply orderly_induction (P := fun _ m => ¬m.Stops)
  · rintro ⟨cell, hcell⟩
    contradiction
  · rintro past m step hm hstack ⟨cell, hcell⟩
    contradiction
  · exact fun past m runner old left stack hm hstack => hm
  · exact fun past m horderly hm => horderly.goes_on hm

theorem replay_history (moves : List (Move V)) :
    replay [] [] ((idle.history moves).flatMap touches) = some (idle.playAll moves).loans := by
  apply orderly_induction (P := fun past m => replay [] [] (past.flatMap touches) = some m.loans)
  · rfl
  · intro past m step hm hstack
    rw [hm, loans, hstack]
    rfl
  · intro past m runner old left stack hm hstack
    rw [hm, loans, hstack]
    rfl
  · intro past m horderly hm
    rw [List.flatMap_append, replay_append, hm, List.flatMap_singleton]
    exact horderly.replay_touches

end Machine

open Machine in
/--
Whatever handlers, tasks and listeners do, in whatever order and however deeply nested: no
borrow conflicts with a loan, nothing is borrowed when a handler, a task or a listener is
called, and the machine never needs a cell that is in use.  Only the drop of a subscription
may find its area in use, and lets it be.  A handler that is freed drops the subscriptions
or the relay that it owns.
-/
theorem no_borrow_conflicts [Storable V] (moves : List (Move V)) :
    let touches := (idle.history moves).flatMap Machine.touches
    replay [] [] touches = some (idle.playAll moves).loans ∧
      (∀ before touch after, touches = before ++ touch :: after →
        ∃ loans, replay [] [] before = some loans ∧
          (∀ loan, touch = .borrow loan → ∀ other ∈ loans, loan.conflicts other = false) ∧
          (touch = .call → loans = [])) ∧
      (∀ m ∈ idle.history moves, ∀ cell, .refused cell ∈ m.touches →
        ∃ sub left rest, m.stack = .drop (sub :: left) :: rest ∧ cell = .area sub.area) ∧
      ∀ cell, (idle.playAll moves).control ≠ .conflict cell := by
  have hreplay := replay_history moves
  refine ⟨hreplay, ?_, fun m _ cell => drop_of_refused, ?_⟩
  · intro before touch after hsplit
    rw [hsplit] at hreplay
    obtain ⟨loans, next, hloans, hnext⟩ := apply_of_replay hreplay
    refine ⟨loans, hloans, ?_, ?_⟩
    · rintro loan rfl
      exact no_conflict_of_apply hnext
    · rintro rfl
      exact only_lent_of_apply hnext
  · intro cell hcell
    exact never_stops moves ⟨cell, hcell⟩

end TabRelay.Session
