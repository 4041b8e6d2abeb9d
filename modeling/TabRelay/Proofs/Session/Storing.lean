import TabRelay.Proofs.Session.Ending
import TabRelay.Proofs.Session.Hearing
import TabRelay.Proofs.Session.Quota

/-!
# How a write goes on

A write that its area has taken tells the handlers, queues its notice and lets the
area go.  One that fails goes back to its caller with the error.
-/

namespace TabRelay.Session

open TabRelay.Storage

variable {V : Type}

namespace Machine

variable [Storable V]

/-! ## A write that its area has taken -/

/-- What is still to do of a write: the handlers are told, the notice is queued, and the
area is let go. -/
inductive Underway (spared : Nat → Prop) (s : System V) (relay : Relay) (w : Write V)
    (base : List (Frame V)) (m : Machine V) : Prop where
  | delivering (above : List (Frame V)) (event : Event) (left : List Nat) (stored : Option String)
      (hstack : m.stack = above ++ .delivery event left ::
        .writing relay w stored :: .keep relay.handle.area :: base)
      (habove : ∀ frame ∈ above, frame.isCall (· ∈ s.subscribed))
      (hleft : ∀ i ∈ left, i ∈ s.subscribed ∧ Spares spared s i)
      (hsame : Recorded spared s m.system)
  | stored (stored : Option String) (hdone : m.control = .done .ok)
      (hstack : m.stack = .writing relay w stored :: .keep relay.handle.area :: base)
      (hsame : Recorded spared s m.system)
  | queued (hdone : m.control = .done .ok) (hstack : m.stack = .keep relay.handle.area :: base)
      (hsame : Recorded spared
        (s.defer relay.queue (.notice relay.listener (.committed w.key w.value))) m.system)
  | returned (hdone : m.control = .done .ok) (hstack : m.stack = base)
      (hsame : Recorded spared
        (s.defer relay.queue (.notice relay.listener (.committed w.key w.value))) m.system)

theorem advance_stored {m : Machine V} (horderly : m.Orderly) {relay : Relay} {w : Write V}
    {stored : Option String} {rest : List (Frame V)} (hdone : m.control = .done .ok)
    (hstack : m.stack = .writing relay w stored :: rest) :
    m.advance.system =
        m.system.defer relay.queue (.notice relay.listener (.committed w.key w.value)) ∧
      m.advance.stack = rest ∧ m.advance.control = .done .ok := by
  have hfree : ∀ frame ∈ rest, ¬frame.isDisposing :=
    horderly.no_disposing hstack (by simp [Frame.isFreeing])
  simp only [Machine.advance, hdone, resume, hstack, finishWrite]
  rw [whenFree_of_unheld (unheld_of_no_disposing hfree)]
  exact ⟨rfl, rfl, rfl⟩

theorem Underway.advance {m : Machine V} {spared : Nat → Prop} {s : System V} {relay : Relay}
    {w : Write V} {base : List (Frame V)} (h : Underway spared s relay w base m)
    (horderly : m.Orderly) (hnamed : ∃ p ∈ s.relayNames, p.2 = relay)
    (hunsettled : m.settled? base.length = none)
    (hrecords : m.onlyRecords ∧ ∀ log, m.recordsIn? = some log → ¬spared log) :
    Underway spared s relay w base m.advance := by
  obtain ⟨pushed, warned, heffect, hpushed, -⟩ := advance_becomes horderly
  -- A write goes through its three stages in turn, and stays at the first one as long as the
  -- handlers of other tabs run.
  cases h with
  | delivering above event left stored hstack habove hleft hsame =>
      cases hcontrol : m.control with
      | run step =>
          have hfree : m.Unheld := unheld_of_no_disposing (horderly.running step hcontrol)
          obtain ⟨hnext, hframes⟩ := advance_records hfree hcontrol hrecords.1 hrecords.2
          exact .delivering above event left stored (hframes.trans hstack) habove hleft
            (hsame.trans hnext)
      | conflict cell =>
          have hrests : m.advance = m := by rw [Machine.advance, hcontrol]
          rw [hrests]
          exact .delivering above event left stored hstack habove hleft hsame
      | done b =>
          cases above with
          | cons frame above =>
              have hbelow := below_of_done hcontrol hstack
              obtain ⟨hsystem, hcalls⟩ := heffect.of_isCall hcontrol hstack
                (habove frame List.mem_cons_self) fun i hi => hsame.subscribed ▸ hi
              refine .delivering (pushed ++ above) event left stored ?_ ?_ hleft (hsystem ▸ hsame)
              · rw [hpushed, hbelow]
                exact (List.append_assoc ..).symm
              · intro f hf
                rcases List.mem_append.mp hf with hf | hf
                · exact hcalls f hf
                · exact habove f (List.mem_cons_of_mem _ hf)
          | nil =>
              have hbelow := below_of_done hcontrol hstack
              cases left with
              | nil =>
                  have hends : m.advance = { m with
                      stack := .writing relay w stored :: .keep relay.handle.area :: base
                      control := .done .ok } := by
                    simp [Machine.advance, hcontrol, resume, hstack, answer]
                  rw [hends]
                  exact .stored stored rfl rfl hsame
              | cons i left =>
                  obtain ⟨hi, hspares⟩ := hleft i List.mem_cons_self
                  obtain ⟨hnext, above, rfl, hcalls⟩ := heffect.of_recording_visit hcontrol hstack
                    hi (hsame.spares hspares)
                  refine .delivering above event left stored ?_ hcalls
                    (fun j hj => hleft j (List.mem_cons_of_mem _ hj)) (hsame.trans hnext)
                  rw [hpushed, hbelow, List.append_assoc]
                  rfl
  | stored stored hdone hstack hsame =>
      obtain ⟨hsystem, hframes, hcontrol⟩ := advance_stored horderly hdone hstack
      exact .queued hcontrol hframes (hsystem ▸ hsame.defer _ _)
  | queued hdone hstack hsame =>
      have hkept := advance_keep (h := relay.handle) (.inr ?_) hdone hstack
      · rw [hkept]
        exact .returned hdone rfl hsame
      · obtain ⟨p, hp, rfl⟩ := hnamed
        have hrelays : m.system.relayNames = s.relayNames := hsame.relays
        exact ⟨p, hrelays ▸ hp, rfl⟩
  | returned hdone hstack hsame => simp [settled?, hdone, hstack] at hunsettled

theorem play_eq {m : Machine V} {depth : Nat} (hunsettled : m.settled? depth = none)
    (htop : ∀ runner left rest, m.stack ≠ .script runner left :: rest) {move : Move V}
    (hmove : move ≠ .advance) : m.play move = m := by
  cases move with
  | advance => contradiction
  | begin step => exact play_begin_of_unsettled hunsettled step
  | decide left =>
      simp only [play]

theorem Underway.play {m : Machine V} {spared : Nat → Prop} {s : System V} {relay : Relay}
    {w : Write V} {base : List (Frame V)} (h : Underway spared s relay w base m)
    (horderly : m.Orderly) (hnamed : ∃ p ∈ s.relayNames, p.2 = relay)
    (hunsettled : m.settled? base.length = none) (move : Move V)
    (hrecords : move = .advance →
      m.onlyRecords ∧ ∀ log, m.recordsIn? = some log → ¬spared log) :
    Underway spared s relay w base (m.play move) := by
  cases move with
  | advance => exact h.advance horderly hnamed hunsettled (hrecords rfl)
  | begin step =>
      rw [play_begin_of_unsettled hunsettled]
      exact h
  | decide steps =>
      simp only [Machine.play]
      split
      · rename_i runner old rest hscript
        cases h with
        | delivering above event left stored hstack habove hleft hsame =>
            rw [hscript] at hstack
            cases above with
            | nil => simp at hstack
            | cons frame above =>
                refine .delivering (.script runner steps :: above) event left stored
                  (congrArg _ (List.cons.inj hstack).2) ?_ hleft hsame
                refine List.forall_mem_cons.mpr ⟨trivial, fun f hf => ?_⟩
                exact habove f (List.mem_cons_of_mem _ hf)
        | stored stored hdone hstack hsame => simp [hstack] at hscript
        | queued hdone hstack hsame => simp [hstack] at hscript
        | returned hdone hstack hsame => simp [settled?, hdone, hstack] at hunsettled
      · exact h

omit [Storable V] in
theorem Underway.settled {m : Machine V} {spared : Nat → Prop} {s : System V} {relay : Relay}
    {w : Write V} {base : List (Frame V)} {a : Answer V} (h : Underway spared s relay w base m)
    (hsettled : m.settled? base.length = some a) :
    a = .ok ∧ Recorded spared
      (s.defer relay.queue (.notice relay.listener (.committed w.key w.value))) m.system := by
  obtain ⟨hcontrol, hlength⟩ := settled?_eq_some hsettled
  cases h with
  | delivering above event left stored hstack habove hleft hsame =>
      simp only [hstack, List.length_append, List.length_cons] at hlength
      omega
  | stored stored hdone hstack hsame =>
      simp only [hstack, List.length_cons] at hlength
      omega
  | queued hdone hstack hsame =>
      simp only [hstack, List.length_cons] at hlength
      omega
  | returned hdone hstack hsame =>
      rw [hdone] at hcontrol
      cases hcontrol
      exact ⟨rfl, hsame⟩

/-! ## A write that fails -/

inductive GoesBack (m : Machine V) (relay : Relay) (e : WriteError AreaError)
    (x : Machine V) : Prop where
  | refused (w : Write V) (stored : Option String) (source : AreaError)
      (herror : e = .storage w.key source) (hdone : x.control = .done (.areaError source))
      (hstack : x.stack = .writing relay w stored :: .keep relay.handle.area :: m.stack)
      (hsystem : x.system = m.system)
  | told (hdone : x.control = .done (.writeError e))
      (hstack : x.stack = .keep relay.handle.area :: m.stack) (hsystem : x.system = m.system)
  | returned (hdone : x.control = .done (.writeError e)) (hstack : x.stack = m.stack)
      (hsystem : x.system = m.system)

theorem GoesBack.advance {m x : Machine V} {relay : Relay} {e : WriteError AreaError}
    (h : GoesBack m relay e x) (hnamed : ∃ p ∈ m.system.relayNames, p.2 = relay)
    (hunsettled : x.settled? m.stack.length = none) :
    GoesBack m relay e x.advance ∧ x.advance.stack.length < x.stack.length := by
  cases h with
  | refused w stored source herror hdone hstack hsystem =>
      obtain ⟨hsame, hframes, hcontrol⟩ := advance_writing_refused hdone hstack
      refine ⟨.told (herror ▸ hcontrol) hframes (hsame.trans hsystem), ?_⟩
      simp [hframes, hstack]
  | told hdone hstack hsystem =>
      obtain ⟨p, hp, rfl⟩ := hnamed
      have hkept := advance_keep (h := p.2.handle) (.inr ⟨p, hsystem ▸ hp, rfl⟩) hdone hstack
      rw [hkept]
      exact ⟨.returned hdone rfl hsystem, by simp [hstack]⟩
  | returned hdone hstack hsystem => simp [settled?, hdone, hstack] at hunsettled

theorem GoesBack.play {m x : Machine V} {relay : Relay} {e : WriteError AreaError}
    (h : GoesBack m relay e x) (hnamed : ∃ p ∈ m.system.relayNames, p.2 = relay)
    (hunsettled : x.settled? m.stack.length = none) (move : Move V) :
    GoesBack m relay e (x.play move) := by
  by_cases hmove : move = .advance
  · rw [hmove]
    exact (h.advance hnamed hunsettled).1
  · rw [play_eq hunsettled ?_ hmove]
    · exact h
    · intro runner left rest hscript
      cases h with
      | refused w stored source herror hdone hstack hsystem => simp [hstack] at hscript
      | told hdone hstack hsystem => simp [hstack] at hscript
      | returned hdone hstack hsystem => simp [settled?, hdone, hstack] at hunsettled

omit [Storable V] in
theorem GoesBack.system {m x : Machine V} {relay : Relay} {e : WriteError AreaError}
    (h : GoesBack m relay e x) : x.system = m.system := by
  cases h <;> assumption

omit [Storable V] in
theorem GoesBack.visiting? {m x : Machine V} {relay : Relay} {e : WriteError AreaError}
    (h : GoesBack m relay e x) (hunsettled : x.settled? m.stack.length = none) :
    x.visiting? = none := by
  cases h with
  | refused w stored source herror hdone hstack hsystem => simp [Machine.visiting?, hdone, hstack]
  | told hdone hstack hsystem => simp [Machine.visiting?, hdone, hstack]
  | returned hdone hstack hsystem => simp [settled?, hdone, hstack] at hunsettled

omit [Storable V] in
theorem GoesBack.settled {m x : Machine V} {relay : Relay} {e : WriteError AreaError}
    {a : Answer V} (h : GoesBack m relay e x) (hsettled : x.settled? m.stack.length = some a) :
    a = .writeError e ∧ x.stack = m.stack := by
  obtain ⟨hcontrol, hlength⟩ := settled?_eq_some hsettled
  cases h with
  | refused w stored source herror hdone hstack hsystem =>
      simp only [hstack, List.length_cons] at hlength
      omega
  | told hdone hstack hsystem =>
      simp only [hstack, List.length_cons] at hlength
      omega
  | returned hdone hstack hsystem =>
      rw [hdone] at hcontrol
      cases hcontrol
      exact ⟨rfl, hstack⟩

end Machine

end TabRelay.Session
