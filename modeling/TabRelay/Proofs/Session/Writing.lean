import TabRelay.Proofs.Session.Replica

/-!
# Writes in progress

Between the moment in which an area does a write and the moment in which the write
returns, its notice is in no queue.  It is then on the stack, below the delivery to
the other tabs.  A write that its area has refused stands on top of the stack, and
its notice is not to come.
-/

namespace TabRelay.Session

open TabRelay.Storage

variable {V : Type}

def Frame.notice? (log : Nat) : Frame V → Option (Change V)
  | .writing relay w _ => noticeOf? log (relay, w, .ok)
  | _ => none

def promised (log : Nat) (frames : List (Frame V)) : List (Change V) :=
  frames.filterMap (·.notice? log)

theorem promised_append (log : Nat) (first second : List (Frame V)) :
    promised log (first ++ second) = promised log first ++ promised log second :=
  List.filterMap_append

theorem promised_cons (log : Nat) (top : Frame V) (rest : List (Frame V)) :
    promised log (top :: rest) = (top.notice? log).toList ++ promised log rest := by
  cases hnotice : top.notice? log <;> simp [promised, hnotice]

theorem promised_eq_nil {log : Nat} {frames : List (Frame V)}
    (h : ∀ relay w stored, .writing relay w stored ∉ frames) : promised log frames = [] := by
  refine List.filterMap_eq_nil_iff.mpr fun frame hframe => ?_
  cases frame with
  | writing relay w stored => exact absurd hframe (h relay w stored)
  | _ => rfl

theorem promised_tail {log : Nat} {frames : List (Frame V)} (h : promised log frames = []) :
    promised log frames.tail = [] :=
  List.filterMap_eq_nil_iff.mpr fun frame hframe =>
    List.filterMap_eq_nil_iff.mp h frame (List.mem_of_mem_tail hframe)

theorem promised_of_isFreeing {log : Nat} {frames : List (Frame V)}
    (h : ∀ frame ∈ frames, frame.isFreeing) : promised log frames = [] :=
  promised_eq_nil fun relay w stored hmem => by simpa [Frame.isFreeing] using h _ hmem

theorem promised_of_top {log : Nat} {top : Frame V} {rest : List (Frame V)}
    (htop : ∀ relay w stored, top ≠ .writing relay w stored) :
    promised log (top :: rest) = promised log rest := by
  cases top with
  | writing relay w stored => exact absurd rfl (htop relay w stored)
  | _ => rfl

theorem promised_deliveries (log : Nat) (outcome : Outcome Area) (tab : Nat) :
    promised log (deliveries outcome tab : List (Frame V)) = [] :=
  promised_eq_nil fun relay w stored hmem => by
    obtain ⟨event, hevent⟩ := mem_deliveries hmem
    contradiction

namespace Machine

/-- The notices of the writes in progress that their area has done. -/
def inFlight (m : Machine V) (log : Nat) : List (Change V) :=
  match m.control with
  | .done (.areaError _) => []
  | _ => promised log m.stack

def Failing (m : Machine V) (log : Nat) : Prop :=
  ∀ e, m.control = .done (.areaError e) → promised log m.stack.tail = []

theorem inFlight_of_idle {m : Machine V} (hstack : m.stack = []) (log : Nat) :
    m.inFlight log = [] := by
  rw [inFlight, hstack]
  split <;> rfl

theorem inFlight_of_ne {m : Machine V} (h : ∀ e, m.control ≠ .done (.areaError e)) (log : Nat) :
    m.inFlight log = promised log m.stack := by
  rw [inFlight]
  split
  · rename_i e hcontrol
    exact absurd hcontrol (h e)
  · rfl

theorem Failing.keeps {m m' : Machine V} {log : Nat} (h : m.Failing log)
    (htop : promised log m.stack = promised log m.stack.tail)
    (hstack : promised log m'.stack = promised log m.stack.tail)
    (herror : ∀ e, m'.control = .done (.areaError e) → m.control = .done (.areaError e)) :
    m'.inFlight log = m.inFlight log ∧ m'.Failing log := by
  have hinFlight : m.inFlight log = promised log m.stack.tail := by
    rw [inFlight]
    split
    · rename_i e hcontrol
      exact (h e hcontrol).symm
    · exact htop
  refine ⟨?_, ?_⟩
  · rw [hinFlight, inFlight]
    split
    · rename_i e hcontrol
      exact (h e (herror e hcontrol)).symm
    · exact hstack
  · intro e hcontrol
    exact promised_tail (hstack.trans (h e (herror e hcontrol)))

variable [Storable V]

def entering? (m : Machine V) (log : Nat) : Option (Change V) :=
  match m.control with
  | .run step =>
      step.relayWrite?.bind fun (id, w) =>
        (Keyed.lookup? id m.system.relayNames).bind fun relay =>
          if (m.achieving? relay.handle).isSome then noticeOf? log (relay, w, .ok) else none
  | _ => none

/-! ## What a step does to the writes in progress -/

theorem Begins.promised {m : Machine V} {step : Step V} {s : System V} {pushed : List (Frame V)}
    {a : Answer V} (h : Begins m step s pushed a) (hcall : m.invocation? = none) (log : Nat) :
    Session.promised log pushed = [] ∨
      Session.promised log pushed.tail = [] ∧ ∃ e, a = .areaError e := by
  cases h with
  | operates hsome => simp [hcall] at hsome
  | barred e hasked hwaiting =>
      refine .inr ⟨?_, e, rfl⟩
      cases hwaiting <;> rfl
  | startsDraining hdrains =>
      exact .inl (promised_eq_nil fun _ _ _ => not_writing_of_isWork hdrains.isWork)
  | receives hname hreceives =>
      refine .inl ?_
      rw [promised_append, promised_eq_nil fun _ _ _ => not_writing_of_isWork hreceives.isWork]
      rfl
  | _ =>
      refine .inl (promised_eq_nil fun relay w stored hmem => ?_)
      simp [dropsOldStorage, dropsOldRelay, dropsOldSubscription] at hmem

theorem Awaits.entering {m : Machine V} {step : Step V} {call : Invocation}
    {waiting : List (Frame V)} (h : m.Awaits step call.handle waiting)
    (hrun : m.control = .run step) (hcall : m.invocation? = some call) (log : Nat) :
    (m.entering? log).toList =
      if ((m.system.area call.handle.area).perform call.operation).reply = .done then
        promised log waiting
      else [] := by
  cases h with
  | reads hdirect => simp [entering?, hrun, hdirect, promised]
  | direct hdirect => simp [entering?, hrun, hdirect, promised, Frame.notice?]
  | relayed stored hwrite hname hhandle =>
      have hachieving : (m.achieving? call.handle).isSome =
          decide (((m.system.area call.handle.area).perform call.operation).reply = .done) := by
        simp only [achieving?, hcall, Option.filter_some, true_and, Option.isSome_map]
        split <;> simp_all
      simp only [entering?, hrun, hwrite, Option.bind_some, hname, hhandle, hachieving,
        decide_eq_true_eq]
      split
      · rw [promised_cons]
        exact (List.append_nil _).symm
      · rfl

theorem Orderly.opens {m : Machine V} (h : m.Orderly) {call : Invocation}
    (hcall : m.invocation? = some call) (hstack : m.stack = []) (log : Nat) :
    m.advance.inFlight log = (m.entering? log).toList ∧ m.advance.Failing log := by
  obtain ⟨step, waiting, trace, hrun, hasked, hwaiting, hadvance⟩ := h.operates hcall
  have hentering := hwaiting.entering hrun hcall log
  have hreply {write : String × Write V} (hwrite : step.relayWrite? = some write) :=
    reply_of_change (m.system.area call.handle.area) (change_of_relayWrite hwrite hasked)
  generalize houtcome : (m.system.area call.handle.area).perform call.operation = outcome at *
  have hframes : m.advance.stack = deliveries outcome call.handle.tab ++ waiting := by
    rw [hadvance, operated, houtcome, hstack, List.append_nil]
  have hcontrol : m.advance.control = .done (replied outcome.reply) := by
    rw [hadvance, operated, houtcome]
  by_cases hdone : outcome.reply = .done
  · have hok : ∀ e, m.advance.control ≠ .done (.areaError e) := by simp [hcontrol, hdone, replied]
    refine ⟨?_, fun e he => absurd he (hok e)⟩
    rw [inFlight_of_ne hok, hframes, promised_append, promised_deliveries, hentering, if_pos hdone]
    rfl
  · have hquiet : outcome.raised = none := by
      by_contra hraised
      obtain ⟨event, hevent⟩ := Option.ne_none_iff_exists'.mp hraised
      exact hdone (houtcome ▸ reply_of_raised (houtcome ▸ hevent))
    have hstack' : m.advance.stack = waiting := by
      rw [hframes, deliveries, hquiet]
      rfl
    rw [hentering, if_neg hdone]
    refine ⟨?_, ?_⟩
    · rw [inFlight, hstack', hcontrol]
      cases hwaiting with
      | reads hdirect => split <;> rfl
      | direct hdirect => split <;> rfl
      | relayed stored hwrite hname hhandle =>
          obtain ⟨e, hrefused⟩ := (hreply hwrite).resolve_left hdone
          rw [hrefused]
          rfl
    · intro e he
      rw [hstack']
      cases hwaiting <;> rfl

omit [Storable V] in
theorem Continues.keeps_writes {m : Machine V} {top : Frame V} {b : Answer V} {s : System V}
    {pushed : List (Frame V)} {control : Control V} {warned : List (Entry V)}
    (h : Continues m top b s pushed control warned)
    (htop : ∀ relay w stored, top ≠ .writing relay w stored) :
    ∀ e, control = .done (.areaError e) → b = .areaError e := by
  intro e hcontrol
  cases h with
  | endsTurn b i => simpa using hcontrol
  | calls b hrunning hreacts =>
      cases hreacts with
      | forward hhandler hreaction hreceives => cases hreceives <;> simp at hcontrol
      | _ => simp at hcontrol
  | drains b hdrains => cases hdrains <;> simp at hcontrol
  | writeFails e relay w stored => exact absurd rfl (htop relay w stored)
  | writeEnds relay w stored hb => exact absurd rfl (htop relay w stored)
  | _ => simp at hcontrol

theorem Orderly.closes {m : Machine V} (h : m.Orderly) {log : Nat} (hfailing : m.Failing log)
    {b : Answer V} {relay : Relay} {w : Write V} {stored : Option String}
    {rest : List (Frame V)} (hdone : m.control = .done b)
    (hstack : m.stack = .writing relay w stored :: rest) :
    queued log [m] ++ m.advance.inFlight log = m.inFlight log ∧ m.advance.Failing log := by
  obtain ⟨pushed, warned, heffect, hadvance, -⟩ := advance_becomes h
  rw [below_of_done hdone hstack] at hadvance
  rw [queued_singleton]
  rcases heffect.of_done hdone hstack with hcontinues | ⟨hfreeing, -⟩
  · generalize hcontrol : m.advance.control = control at hcontinues ⊢
    generalize m.advance.system = s at hcontinues
    cases hcontinues with
    | finishes b hspent => contradiction
    | writeFails e relay w stored =>
        have hnone : promised log rest = [] := by simpa [hstack] using hfailing e hdone
        have hok : ∀ e, m.advance.control ≠ .done (.areaError e) := by simp [hcontrol]
        refine ⟨?_, fun e he => absurd he (hok e)⟩
        rw [inFlight_of_ne hok, hadvance]
        simp [succeeding, hdone, hstack, inFlight, hnone]
    | writeEnds relay w stored hb =>
        have hok : ∀ e, m.advance.control ≠ .done (.areaError e) := by simp [hcontrol]
        have hok' : ∀ e, m.control ≠ .done (.areaError e) := by simpa [hdone] using hb
        refine ⟨?_, fun e he => absurd he (hok e)⟩
        rw [inFlight_of_ne hok, inFlight_of_ne hok', hadvance, hstack, promised_cons]
        simp only [succeeding, hdone, hstack, Frame.notice?, List.nil_append]
        cases hnotice : noticeOf? log (relay, w, .ok) <;> simp [hnotice]
  · contradiction

theorem Failing.passes {m : Machine V} {log : Nat} (hfailing : m.Failing log) {b : Answer V}
    {top : Frame V} {pushed rest : List (Frame V)} (hdone : m.control = .done b)
    (hstack : m.stack = top :: rest) (htop : ∀ relay w stored, top ≠ .writing relay w stored)
    (hadvance : m.advance.stack = pushed ++ rest) (hpushed : Session.promised log pushed = [])
    (herror : ∀ e, m.advance.control = .done (.areaError e) → b = .areaError e) :
    queued log [m] ++ m.advance.inFlight log = m.inFlight log ++ (m.entering? log).toList ∧
      m.advance.Failing log := by
  have hentering : m.entering? log = none := by simp [entering?, hdone]
  have hnone : queued log [m] = [] := by
    rw [queued_singleton, succeeding_eq_none hstack htop]
    rfl
  rw [hentering, Option.toList_none, List.append_nil, hnone, List.nil_append]
  refine hfailing.keeps ?_ ?_ ?_
  · rw [hstack]
    exact promised_of_top htop
  · rw [hadvance, promised_append, hpushed, hstack]
    rfl
  · intro e he
    rw [hdone, herror e he]

theorem Ordinary.begins_write {m : Machine V} (h : m.Ordinary) (horderly : m.Orderly)
    {step : Step V} (hrun : m.control = .run step) {pushed : List (Frame V)} {a : Answer V}
    {s : System V} (hbegins : Begins m step s pushed a) (hcontrol : m.advance.control = .done a)
    (hadvance : m.advance.stack = pushed ++ m.below) (log : Nat) :
    queued log [m] ++ m.advance.inFlight log = m.inFlight log ++ (m.entering? log).toList ∧
      m.advance.Failing log := by
  have hidle := h.idle step hrun
  have hnone : queued log [m] = [] := by simp [queued_singleton, succeeding, hrun]
  rw [hnone, inFlight_of_idle hidle, List.nil_append, List.nil_append]
  cases hcall : m.invocation? with
  | some call => exact horderly.opens hcall hidle log
  | none =>
      have hentering : m.entering? log = none := by simp [entering?, hrun, achieving?, hcall]
      rw [below_of_run hrun, hidle, List.append_nil] at hadvance
      rw [hentering, Option.toList_none]
      rcases hbegins.promised hcall log with hpushed | ⟨htail, e, rfl⟩
      · refine ⟨?_, fun e he => by rw [hadvance]; exact promised_tail hpushed⟩
        rw [inFlight, hadvance]
        split <;> first | rfl | exact hpushed
      · exact ⟨by rw [inFlight, hcontrol], fun e he => by rw [hadvance]; exact htail⟩

/-- The notices of writes that return and of those in progress afterwards are of the writes
in progress and of the one that begins. -/
theorem Ordinary.writes {m : Machine V} (h : m.Ordinary) (horderly : m.Orderly) {log : Nat}
    (hfailing : m.Failing log) :
    queued log [m] ++ m.advance.inFlight log = m.inFlight log ++ (m.entering? log).toList ∧
      m.advance.Failing log := by
  obtain ⟨pushed, warned, heffect, hadvance, -⟩ := advance_becomes horderly
  generalize m.advance.system = s at heffect
  generalize hnext : m.advance.control = control at heffect
  cases heffect with
  | rests hrest hbelow =>
      have hentering : m.entering? log = none := by
        unfold entering?
        split
        · rename_i step hrun
          exact absurd hrun (hrest step)
        · rfl
      rw [List.nil_append, hbelow] at hadvance
      rw [queued_singleton, hnext, succeeding_of_rests hbelow, hentering, Option.toList_none,
        Option.toList_none, List.append_nil, inFlight, inFlight, hnext, hadvance]
      exact ⟨rfl, fun e he => by rw [hadvance]; exact hfailing e (hnext ▸ he)⟩
  | begins hrun hbegins => exact h.begins_write horderly hrun hbegins hnext hadvance log
  | @continues b top rest s pushed control warned hdone hstack hcontinues =>
      by_cases htop : ∃ relay w stored, top = .writing relay w stored
      · obtain ⟨relay, w, stored, rfl⟩ := htop
        have hentering : m.entering? log = none := by simp [entering?, hdone]
        rw [hentering, Option.toList_none, List.append_nil]
        exact horderly.closes hfailing hdone hstack
      · simp only [not_exists] at htop
        rw [below_of_done hdone hstack] at hadvance
        have hpushed : Session.promised log pushed = [] :=
          promised_eq_nil fun _ _ _ => hcontinues.not_writing
        exact hfailing.passes hdone hstack htop hadvance hpushed fun e he =>
          hcontinues.keeps_writes htop e (hnext ▸ he)
  | @frees b top rest s pushed hdone hstack hfreeing hfrees =>
      have htop : ∀ relay w stored, top ≠ .writing relay w stored := by
        rintro relay w stored rfl
        contradiction
      rw [below_of_done hdone hstack] at hadvance
      refine hfailing.passes hdone hstack htop hadvance (promised_of_isFreeing hfrees.isFreeing) ?_
      intro e he
      rw [hnext, hdone] at he
      exact Control.done.inj he

/-! ## Moves that do not advance -/

theorem writes_begin (m : Machine V) (step : Step V) (log : Nat) :
    (m.play (.begin step)).inFlight log = m.inFlight log ∧
      (m.Failing log → (m.play (.begin step)).Failing log) := by
  simp only [play]
  split
  · rename_i a ha
    rw [inFlight_of_idle (answer?_eq_some ha).1]
    exact ⟨rfl, fun _ e he => by simp [start] at he⟩
  · exact ⟨rfl, id⟩

theorem writes_decide (m : Machine V) (left : List (Step V)) (log : Nat) :
    (m.play (.decide left)).inFlight log = m.inFlight log ∧
      (m.Failing log → (m.play (.decide left)).Failing log) := by
  simp only [play]
  split
  · rename_i runner old rest hstack
    refine ⟨?_, fun h e he => ?_⟩
    · rw [inFlight, inFlight, hstack]
      rfl
    · have htail := h e he
      rwa [hstack] at htail
  · exact ⟨rfl, id⟩

end Machine

end TabRelay.Session
