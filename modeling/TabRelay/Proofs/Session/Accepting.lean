import Mathlib.Data.List.Infix
import TabRelay.Proofs.Session.Committing
import TabRelay.Proofs.Session.Ending
import TabRelay.Session.Draft

/-!
# One notice for each write that is answered with success

A write is called when its step begins, and it has returned when the machine is back
to the frames on which the step began, with an answer.  The notices that a log was
told, followed by those that wait in the queue, are those of the writes that have
returned with success, in the order in which they returned.
-/

namespace TabRelay.Session

open TabRelay.Storage

variable {V : Type}

/-! ## Calls of writes -/

/-- A write that a relay was asked for when so many frames were waiting. -/
structure WriteCall (V : Type) where
  depth : Nat
  relay : Relay
  write : Write V

/-- The answer, if the machine has come back to the caller. -/
def WriteCall.answer? (call : WriteCall V) (m : Machine V) :
    Option (Relay × Write V × Answer V) :=
  (m.settled? call.depth).map (call.relay, call.write, ·)

namespace Machine

def writeCall? (m : Machine V) : Option (WriteCall V) :=
  match m.control with
  | .run step =>
      step.relayWrite?.bind fun (id, w) =>
        (Keyed.lookup? id m.system.relayNames).map (⟨m.stack.length, ·, w⟩)
  | _ => none

theorem writeCall?_eq_some {m : Machine V} {call : WriteCall V} (h : m.writeCall? = some call) :
    ∃ step id, m.control = .run step ∧ step.relayWrite? = some (id, call.write) ∧
      Keyed.lookup? id m.system.relayNames = some call.relay ∧ call.depth = m.stack.length := by
  unfold writeCall? at h
  split at h
  · rename_i step hrun
    obtain ⟨⟨id, w⟩, hwrite, h⟩ := Option.bind_eq_some_iff.mp h
    obtain ⟨relay, hname, rfl⟩ := Option.map_eq_some_iff.mp h
    exact ⟨step, id, hrun, hwrite, hname, rfl⟩
  · contradiction

def calling (m : Machine V) : Move V → List (WriteCall V)
  | .advance => m.writeCall?.toList
  | _ => []

variable [Storable V]

/-- The writes that return with the last of the moves. -/
def returning (m : Machine V) : List (Move V) → List (Relay × Write V × Answer V)
  | [] => []
  | move :: moves =>
      (m.play move).returning moves ++
        (m.calling move).filterMap fun call =>
          ((m.play move).arrival? call.depth moves).map (call.relay, call.write, ·)

/-- The notices of the writes that have returned with success, in the order in which they
returned. -/
def accepted (log : Nat) (moves : List (Move V)) : List (Change V) :=
  moves.inits.flatMap fun earlier => (idle.returning earlier).filterMap (noticeOf? log)

def unreturned (m : Machine V) : List (Move V) → List (WriteCall V)
  | [] => []
  | move :: moves =>
      (m.play move).unreturned moves ++
        (m.calling move).filter fun call => ((m.play move).returned? call.depth moves).isNone

/-- A write returns when its step ends, and with the answer of the step. -/
theorem mem_returning {m : Machine V} {moves : List (Move V)} {relay : Relay} {w : Write V}
    {a : Answer V} : (relay, w, a) ∈ m.returning moves ↔
      ∃ earlier later, moves = earlier ++ .advance :: later ∧
        (∃ depth, (m.playAll earlier).writeCall? = some ⟨depth, relay, w⟩) ∧
        (m.playAll earlier).Ends later a := by
  induction moves generalizing m with
  | nil => simp [returning]
  | cons move moves ih =>
      simp only [returning, List.mem_append, ih, List.mem_filterMap, Option.map_eq_some_iff,
        arrival?_eq_some]
      constructor
      · rintro (⟨earlier, later, rfl, hcall⟩ | ⟨call, hcall, b, hends, heq⟩)
        · exact ⟨move :: earlier, later, rfl, hcall⟩
        · cases heq
          cases move with
          | advance =>
              have hcalled := Option.mem_toList.mp hcall
              obtain ⟨-, -, -, -, -, hdepth⟩ := writeCall?_eq_some hcalled
              rw [hdepth] at hends
              exact ⟨[], moves, rfl, ⟨_, hcalled⟩, hends⟩
          | begin step => contradiction
          | decide left => contradiction
      · rintro ⟨earlier, later, hmoves, ⟨depth, hcall⟩, hends⟩
        cases earlier with
        | nil =>
            cases hmoves
            obtain ⟨-, -, -, -, -, hdepth⟩ := writeCall?_eq_some hcall
            refine .inr ⟨_, Option.mem_toList.mpr hcall, a, ?_, rfl⟩
            rw [hdepth]
            exact hends
        | cons first earlier =>
            cases hmoves
            exact .inl ⟨earlier, later, rfl, ⟨depth, hcall⟩, hends⟩

theorem returning_append_singleton (m : Machine V) (moves : List (Move V)) (move : Move V) :
    m.returning (moves ++ [move]) =
      ((m.playAll moves).calling move ++ m.unreturned moves).filterMap
        (·.answer? ((m.playAll moves).play move)) := by
  induction moves generalizing m with
  | nil => simp [returning, unreturned, arrival?, WriteCall.answer?]
  | cons first moves ih =>
      simp only [List.cons_append, returning, unreturned, playAll_cons, ih,
        arrival?_append_singleton, List.filterMap_append, List.append_assoc]
      refine congrArg _ (congrArg _ ?_)
      rw [List.filterMap_filter]
      refine List.filterMap_congr fun call _ => ?_
      cases (m.play first).returned? call.depth moves <;> rfl

theorem unreturned_append_singleton (m : Machine V) (moves : List (Move V)) (move : Move V) :
    m.unreturned (moves ++ [move]) =
      ((m.playAll moves).calling move ++ m.unreturned moves).filter
        fun call => (((m.playAll moves).play move).settled? call.depth).isNone := by
  induction moves generalizing m with
  | nil => simp [unreturned, returned?]
  | cons first moves ih =>
      simp only [List.cons_append, unreturned, playAll_cons, ih, returned?_append_singleton,
        List.filter_append, List.append_assoc, List.filter_filter, Option.isNone_or]
      refine congrArg _ (congrArg _ (List.filter_congr fun call _ => ?_))
      exact Bool.and_comm _ _

theorem accepted_append_singleton (log : Nat) (moves : List (Move V)) (move : Move V) :
    accepted log (moves ++ [move]) =
      accepted log moves ++ (idle.returning (moves ++ [move])).filterMap (noticeOf? log) := by
  simp [accepted, List.inits_append]

end Machine

/-! ## Calls that wait in the stack -/

inductive Waiting : List (Frame V) → List (WriteCall V) → Prop where
  | nil : Waiting [] []
  | write {frames : List (Frame V)} {calls : List (WriteCall V)} (relay : Relay) (w : Write V)
      (stored : Option String) (area : Nat) (h : Waiting frames calls) :
      Waiting (.writing relay w stored :: .keep area :: frames)
        (⟨frames.length, relay, w⟩ :: calls)
  | other {frame : Frame V} {frames : List (Frame V)} {calls : List (WriteCall V)}
      (hframe : ∀ relay w stored, frame ≠ .writing relay w stored) (h : Waiting frames calls) :
      Waiting (frame :: frames) calls

theorem Waiting.append {pushed frames : List (Frame V)} {calls : List (WriteCall V)}
    (h : Waiting frames calls) (hpushed : ∀ relay w stored, .writing relay w stored ∉ pushed) :
    Waiting (pushed ++ frames) calls := by
  induction pushed with
  | nil => exact h
  | cons frame pushed ih =>
      refine .other (fun relay w stored hframe => ?_)
        (ih fun relay w stored hmem => hpushed relay w stored (List.mem_cons_of_mem _ hmem))
      exact hpushed relay w stored (hframe ▸ List.mem_cons_self)

theorem Waiting.depth_lt {frames : List (Frame V)} {calls : List (WriteCall V)}
    (h : Waiting frames calls) : ∀ call ∈ calls, call.depth < frames.length := by
  induction h with
  | nil => simp
  | write relay w stored area h ih =>
      refine List.forall_mem_cons.mpr ⟨?_, fun call hcall => ?_⟩
      · simp only [List.length_cons]
        omega
      · have hlt := ih call hcall
        simp only [List.length_cons]
        omega
  | other hframe h ih => exact fun call hcall => Nat.lt_succ_of_lt (ih call hcall)

theorem Waiting.of_other {frame : Frame V} {frames : List (Frame V)} {calls : List (WriteCall V)}
    (h : Waiting (frame :: frames) calls)
    (hframe : ∀ relay w stored, frame ≠ .writing relay w stored) : Waiting frames calls := by
  cases h with
  | write relay w stored area h => exact absurd rfl (hframe relay w stored)
  | other _ h => exact h

theorem not_writing_of_isFreeing {frames : List (Frame V)} (h : ∀ frame ∈ frames, frame.isFreeing)
    (relay : Relay) (w : Write V) (stored : Option String) :
    .writing relay w stored ∉ frames :=
  fun hmem => by simpa [Frame.isFreeing] using h _ hmem

namespace Machine

/-- Every call waits in the stack, but for one whose answer is on its way to the caller. -/
inductive Standing (m : Machine V) :
    List (WriteCall V) → Option (Relay × Write V × Answer V) → Prop where
  | waiting {calls : List (WriteCall V)} (hwaits : Waiting m.stack calls) : Standing m calls none
  | answered (call : WriteCall V) {calls : List (WriteCall V)} {a : Answer V}
      (above : List (Frame V)) {base : List (Frame V)} (hdone : m.control = .done a)
      (hstack : m.stack = above ++ base) (hfreeing : ∀ frame ∈ above, frame.isFreeing)
      (hmore : above ≠ []) (hdepth : base.length = call.depth) (hwaits : Waiting base calls) :
      Standing m (call :: calls) (some (call.relay, call.write, a))

theorem Standing.unsettled {m : Machine V} {calls : List (WriteCall V)}
    {closing : Option (Relay × Write V × Answer V)} (h : m.Standing calls closing) :
    ∀ call ∈ calls, m.settled? call.depth = none := by
  cases h with
  | waiting hwaits => exact fun call hcall => settled?_of_lt (hwaits.depth_lt call hcall)
  | answered call above hdone hstack hfreeing hmore hdepth hwaits =>
      have hlength := List.length_pos_of_ne_nil hmore
      refine List.forall_mem_cons.mpr ⟨settled?_of_lt ?_, fun call hcall => settled?_of_lt ?_⟩
      · rw [hstack, List.length_append]
        omega
      · have hlt := hwaits.depth_lt call hcall
        rw [hstack, List.length_append]
        omega

def closingNotices (log : Nat) (closing : Option (Relay × Write V × Answer V)) : List (Change V) :=
  closing.toList.filterMap (noticeOf? log)

inductive Proceeds (log : Nat) (m m' : Machine V) (calls : List (WriteCall V))
    (closing : Option (Relay × Write V × Answer V)) (queued : List (Change V)) : Prop where
  | stays (closing' : Option (Relay × Write V × Answer V)) (h : m'.Standing calls closing')
      (htold : closingNotices log closing ++ queued = closingNotices log closing')
      (hlogs : closing'.isSome → m'.system.logs = m.system.logs)
  | returns {call : WriteCall V} {left : List (WriteCall V)} {a : Answer V}
      (hcalls : calls = call :: left) (hsettled : m'.settled? call.depth = some a)
      (h : m'.Standing left none) (hclosing : closing = some (call.relay, call.write, a))
      (hqueued : queued = [])

theorem Frees.logs {m : Machine V} {top : Frame V} {s : System V} {pushed : List (Frame V)}
    (h : Frees m top s pushed) : s.logs = m.system.logs := by
  cases h <;> rfl

theorem Proceeds.accounts {log : Nat} {m m' : Machine V} {calls : List (WriteCall V)}
    {closing : Option (Relay × Write V × Answer V)} {queued : List (Change V)}
    (h : Proceeds log m m' calls closing queued) :
    ∃ closing', m'.Standing (calls.filter fun call => (m'.settled? call.depth).isNone) closing' ∧
      closingNotices log closing ++ queued =
        (calls.filterMap (·.answer? m')).filterMap (noticeOf? log) ++
          closingNotices log closing' ∧
      (closing'.isSome → m'.system.logs = m.system.logs) := by
  have hopen {calls : List (WriteCall V)} {closing : Option (Relay × Write V × Answer V)}
      (h : m'.Standing calls closing) :
      calls.filter (fun call => (m'.settled? call.depth).isNone) = calls ∧
        calls.filterMap (·.answer? m') = [] := by
    refine ⟨List.filter_eq_self.mpr fun call hcall => ?_,
      List.filterMap_eq_nil_iff.mpr fun call hcall => ?_⟩
    · rw [h.unsettled call hcall]
      rfl
    · rw [WriteCall.answer?, h.unsettled call hcall]
      rfl
  cases h with
  | stays closing' h htold hlogs =>
      obtain ⟨hleft, hnone⟩ := hopen h
      refine ⟨closing', hleft.symm ▸ h, ?_, hlogs⟩
      rw [hnone, htold]
      rfl
  | @returns call left a hcalls hsettled h hclosing hqueued =>
      obtain ⟨hleft, hnone⟩ := hopen h
      subst hcalls hclosing hqueued
      refine ⟨none, ?_, ?_, by simp⟩
      · rw [List.filter_cons_of_neg (by simp [hsettled]), hleft]
        exact h
      · rw [List.filterMap_cons, hnone]
        simp [WriteCall.answer?, hsettled, closingNotices]

variable [Storable V]

theorem Orderly.opens_write {m : Machine V} (h : m.Orderly) {call : WriteCall V}
    (hcall : m.writeCall? = some call) :
    (∃ e, m.advance.system = m.system ∧ m.advance.control = .done (.writeError e) ∧
      m.advance.stack = .keep call.relay.handle.area :: m.stack) ∨
    ∃ frames stored, (∀ relay w stored, .writing relay w stored ∉ frames) ∧
      m.advance.stack = frames ++ .writing call.relay call.write stored ::
        .keep call.relay.handle.area :: m.stack := by
  obtain ⟨step, id, hrun, hwrite, hname, -⟩ := writeCall?_eq_some hcall
  have hadvance := advance_write hrun hwrite hname
  have hfree : m.Unheld := unheld_of_no_disposing (h.running step hrun)
  cases hoperation : operationFor? call.write with
  | none =>
      obtain ⟨source, heq⟩ := write_of_no_text m call.relay hoperation
      rw [hadvance, heq]
      exact .inl ⟨_, rfl, rfl, rfl⟩
  | some operation =>
      obtain ⟨stored, barred, heq⟩ := write_eq (hfree.not_meets _) hoperation
      rw [hadvance, heq]
      refine .inr ?_
      dsimp only
      split
      · exact ⟨[], stored, by simp, rfl⟩
      · refine ⟨deliveries _ call.relay.handle.tab, stored, fun relay w stored hmem => ?_, rfl⟩
        obtain ⟨event, hevent⟩ := mem_deliveries hmem
        contradiction

theorem Begins.not_writing {m : Machine V} {step : Step V} {s : System V} {pushed : List (Frame V)}
    {a : Answer V} (h : Begins m step s pushed a) (hrun : m.control = .run step)
    (hcall : m.writeCall? = none) (relay : Relay) (w : Write V) (stored : Option String) :
    .writing relay w stored ∉ pushed := by
  have hawaits {handle : Handle} {waiting : List (Frame V)} (h : m.Awaits step handle waiting) :
      .writing relay w stored ∉ waiting := by
    cases h with
    | relayed stored hwrite hname hhandle => simp [writeCall?, hrun, hwrite, hname] at hcall
    | _ => simp
  intro hmem
  cases h with
  | operates _ hwaiting houtcome =>
      rcases List.mem_append.mp hmem with hmem | hmem
      · obtain ⟨event, hevent⟩ := mem_deliveries hmem
        contradiction
      · exact hawaits hwaiting hmem
  | barred e hasked hwaiting => exact hawaits hwaiting hmem
  | startsDraining hdrains => exact not_writing_of_isWork hdrains.isWork hmem
  | receives hname hreceives =>
      rcases List.mem_append.mp hmem with hmem | hmem
      · exact not_writing_of_isWork hreceives.isWork hmem
      · simp at hmem
  | _ => simp [dropsOldStorage, dropsOldRelay, dropsOldSubscription] at hmem

theorem queued_of_run {m : Machine V} {step : Step V} (hrun : m.control = .run step) (log : Nat) :
    queued log [m] = [] := by
  simp [queued_singleton, succeeding, hrun]

theorem queued_of_top {m : Machine V} {top : Frame V} {rest : List (Frame V)}
    (hstack : m.stack = top :: rest) (htop : ∀ relay w stored, top ≠ .writing relay w stored)
    (log : Nat) : queued log [m] = [] := by
  rw [queued_singleton, succeeding_eq_none hstack htop]
  rfl

theorem Standing.advance_run {m : Machine V} {calls : List (WriteCall V)} (horderly : m.Orderly)
    (hwaits : Waiting m.stack calls) {step : Step V} (hrun : m.control = .run step) (log : Nat) :
    Proceeds log m m.advance (m.calling .advance ++ calls) none (queued log [m]) := by
  have hqueued := queued_of_run hrun log
  cases hcall : m.writeCall? with
  | none =>
      obtain ⟨pushed, warned, heffect, hstack, -⟩ := advance_becomes horderly
      obtain ⟨a, -, hbegins⟩ := heffect.of_run hrun
      rw [below_of_run hrun] at hstack
      refine .stays none (.waiting ?_) (by rw [hqueued]; rfl) (by simp)
      rw [hstack, calling, hcall]
      exact hwaits.append (hbegins.not_writing hrun hcall)
  | some call =>
      obtain ⟨-, -, -, -, -, hdepth⟩ := writeCall?_eq_some hcall
      rcases horderly.opens_write hcall with
        ⟨e, hsystem, hcontrol, hstack⟩ | ⟨frames, stored, hframes, hstack⟩
      · refine .stays (some (call.relay, call.write, .writeError e)) ?_
          (by rw [hqueued]; rfl) fun _ => congrArg System.logs hsystem
        rw [calling, hcall]
        exact .answered call [_] hcontrol hstack (by simp [Frame.isFreeing])
          (List.cons_ne_nil _ _) hdepth.symm hwaits
      · refine .stays none (.waiting ?_) (by rw [hqueued]; rfl) (by simp)
        rw [hstack, calling, hcall]
        have hwrites := hwaits.write call.relay call.write stored call.relay.handle.area
        rw [← hdepth] at hwrites
        exact hwrites.append hframes

theorem Standing.advance_writing {m : Machine V} {calls : List (WriteCall V)}
    (horderly : m.Orderly) {b : Answer V} {relay : Relay} {w : Write V} {stored : Option String}
    {rest : List (Frame V)} (hdone : m.control = .done b)
    (hstack : m.stack = .writing relay w stored :: rest) (hwaits : Waiting m.stack calls)
    (log : Nat) : Proceeds log m m.advance calls none (queued log [m]) := by
  obtain ⟨pushed, warned, heffect, hadvance, -⟩ := advance_becomes horderly
  rw [below_of_done hdone hstack] at hadvance
  rw [hstack] at hwaits
  rcases heffect.of_done hdone hstack with hcontinues | ⟨hfreeing, -⟩
  · cases hwaits with
    | other hframe => exact absurd rfl (hframe relay w stored)
    | @write base calls _ _ _ area hwaits =>
        have hanswered {a : Answer V} (hpushed : pushed = []) (hnext : m.advance.control = .done a) :
            m.advance.Standing (⟨base.length, relay, w⟩ :: calls) (some (relay, w, a)) := by
          rw [hpushed] at hadvance
          exact .answered ⟨base.length, relay, w⟩ [.keep area] hnext hadvance
            (by simp [Frame.isFreeing]) (List.cons_ne_nil _ _) rfl hwaits
        generalize hsystem : m.advance.system = s at hcontinues
        generalize hnext : m.advance.control = control at hcontinues
        cases hcontinues with
        | finishes b hspent => contradiction
        | writeFails e =>
            refine .stays _ (hanswered rfl hnext) ?_ fun _ => congrArg System.logs hsystem
            simp [queued_singleton, succeeding, hdone, hstack, hnext, closingNotices, noticeOf?]
        | writeEnds _ _ _ hb =>
            refine .stays _ (hanswered rfl hnext) ?_ fun _ => by rw [hsystem]; rfl
            rw [queued_singleton, hnext]
            simp only [succeeding, hdone, hstack]
            rfl
  · contradiction

theorem Standing.advance_waiting {m : Machine V} {calls : List (WriteCall V)}
    (horderly : m.Orderly) {b : Answer V} {top : Frame V} {rest : List (Frame V)}
    (hdone : m.control = .done b) (hstack : m.stack = top :: rest)
    (htop : ∀ relay w stored, top ≠ .writing relay w stored) (hwaits : Waiting m.stack calls)
    (log : Nat) : Proceeds log m m.advance calls none (queued log [m]) := by
  obtain ⟨pushed, warned, heffect, hadvance, -⟩ := advance_becomes horderly
  rw [below_of_done hdone hstack] at hadvance
  rw [hstack] at hwaits
  refine .stays none (.waiting ?_) (by rw [queued_of_top hstack htop]; rfl) (by simp)
  rw [hadvance]
  refine (hwaits.of_other htop).append ?_
  rcases heffect.of_done hdone hstack with hcontinues | ⟨-, hfrees, -⟩
  · exact fun relay w stored => hcontinues.not_writing
  · exact not_writing_of_isFreeing hfrees.isFreeing

theorem Standing.advance_answered {m : Machine V} {call : WriteCall V}
    {calls : List (WriteCall V)} (horderly : m.Orderly) {a : Answer V}
    {above base : List (Frame V)} (hdone : m.control = .done a) (hstack : m.stack = above ++ base)
    (hfreeing : ∀ frame ∈ above, frame.isFreeing) (hmore : above ≠ [])
    (hdepth : base.length = call.depth) (hwaits : Waiting base calls) (log : Nat) :
    Proceeds log m m.advance (call :: calls) (some (call.relay, call.write, a))
      (queued log [m]) := by
  obtain ⟨top, above, rfl⟩ := List.exists_cons_of_ne_nil hmore
  obtain ⟨pushed, warned, heffect, hadvance, -⟩ := advance_becomes horderly
  have htop := hfreeing top List.mem_cons_self
  rw [List.cons_append] at hstack
  have hqueued : queued log [m] = [] :=
    queued_of_top hstack (fun relay w stored heq => by simp [heq, Frame.isFreeing] at htop) log
  rw [below_of_done hdone hstack] at hadvance
  rcases heffect.of_done hdone hstack with hcontinues | ⟨-, hfrees, hcontrol⟩
  · exact absurd htop hcontinues.inOrder.1
  · have hall : ∀ frame ∈ pushed ++ above, frame.isFreeing := by
      intro frame hframe
      rcases List.mem_append.mp hframe with hframe | hframe
      · exact hfrees.isFreeing frame hframe
      · exact hfreeing frame (List.mem_cons_of_mem _ hframe)
    rw [← List.append_assoc] at hadvance
    by_cases hlast : pushed ++ above = []
    · rw [hlast] at hadvance
      refine .returns rfl ?_ (.waiting (hadvance ▸ hwaits)) rfl hqueued
      simp [settled?, hcontrol, hadvance, hdepth]
    · refine .stays _ (.answered call _ hcontrol hadvance hall hlast hdepth hwaits) ?_ fun _ => hfrees.logs
      rw [hqueued, List.append_nil]

theorem Standing.rests {m : Machine V} {calls : List (WriteCall V)}
    {closing : Option (Relay × Write V × Answer V)} (h : m.Standing calls closing)
    (hrests : m.advance = m) (hqueued : m.succeeding m.control = none) (log : Nat) :
    Proceeds log m m.advance calls closing (queued log [m]) := by
  rw [queued_singleton, hrests, hqueued]
  exact .stays _ h (List.append_nil _) fun _ => rfl

theorem Standing.advance {m : Machine V} {calls : List (WriteCall V)}
    {closing : Option (Relay × Write V × Answer V)} (h : m.Standing calls closing)
    (horderly : m.Orderly) (log : Nat) :
    Proceeds log m m.advance (m.calling .advance ++ calls) closing (queued log [m]) := by
  have hcalling (hrun : ∀ step, m.control ≠ .run step) : m.calling .advance = [] := by
    cases hcontrol : m.control with
    | run step => exact absurd hcontrol (hrun step)
    | done b => simp [calling, writeCall?, hcontrol]
    | conflict cell => simp [calling, writeCall?, hcontrol]
  cases h with
  | answered call above hdone hstack hfreeing hmore hdepth hwaits =>
      rw [hcalling (by simp [hdone]), List.nil_append]
      exact advance_answered horderly hdone hstack hfreeing hmore hdepth hwaits log
  | waiting hwaits =>
      cases hcontrol : m.control with
      | run step => exact advance_run horderly hwaits hcontrol log
      | conflict cell =>
          rw [hcalling (by simp [hcontrol]), List.nil_append]
          refine rests (.waiting hwaits) (by rw [Machine.advance, hcontrol]) ?_ log
          simp [succeeding, hcontrol]
      | done b =>
          rw [hcalling (by simp [hcontrol]), List.nil_append]
          cases hstack : m.stack with
          | nil =>
              refine rests (.waiting hwaits) ?_ ?_ log
              · simp only [Machine.advance, hcontrol, resume, hstack]
              · simp [succeeding, hstack]
          | cons top rest =>
              by_cases htop : ∃ relay w stored, top = .writing relay w stored
              · obtain ⟨relay, w, stored, rfl⟩ := htop
                exact advance_writing horderly hcontrol hstack hwaits log
              · simp only [not_exists] at htop
                exact advance_waiting horderly hcontrol hstack htop hwaits log

theorem Standing.play {m : Machine V} {calls : List (WriteCall V)}
    {closing : Option (Relay × Write V × Answer V)} (h : m.Standing calls closing)
    (horderly : m.Orderly) (log : Nat) (move : Move V) :
    Proceeds log m (m.play move) (m.calling move ++ calls) closing
      (queued log (m.history [move])) := by
  have hstays {m' : Machine V} (h : m'.Standing calls closing) (hlogs : m'.system = m.system) :
      Proceeds log m m' calls closing [] :=
    .stays _ h (List.append_nil _) fun _ => congrArg System.logs hlogs
  cases move with
  | advance => exact h.advance horderly log
  | begin step =>
      refine hstays ?_ (system_begin m step)
      simp only [Machine.play]
      split
      · rename_i a ha
        obtain ⟨hstack, -⟩ := answer?_eq_some ha
        cases h with
        | waiting hwaits =>
            rw [hstack] at hwaits
            exact .waiting hwaits
        | answered call above hdone hframes hfreeing hmore hdepth hwaits =>
            rw [hstack] at hframes
            exact absurd (List.append_eq_nil_iff.mp hframes.symm).1 hmore
      · exact h
  | decide left =>
      refine hstays ?_ (system_decide m left)
      simp only [Machine.play]
      split
      · rename_i runner old rest hstack
        cases h with
        | waiting hwaits =>
            rw [hstack] at hwaits
            exact .waiting (.other (by simp) (hwaits.of_other (by simp)))
        | answered call above hdone hframes hfreeing hmore hdepth hwaits =>
            obtain ⟨top, above, rfl⟩ := List.exists_cons_of_ne_nil hmore
            rw [hstack] at hframes
            cases hframes
            simpa [Frame.isFreeing] using hfreeing _ List.mem_cons_self
      · exact h

/-! ## Where a step begins or is answered -/

/-- A step begins next, or has just been answered. -/
def AtCall (moves : List (Move V)) : Prop :=
  (∃ step, (idle.playAll moves).control = .run step) ∨
    ∃ earlier later step a, moves = earlier ++ .advance :: later ∧
      (idle.playAll earlier).control = .run step ∧ (idle.playAll earlier).Ends later a

def Called (m : Machine V) : Prop :=
  ∀ step, m.control = .run step →
    m.stack = [] ∨ ∃ runner name rest, m.stack = .nested runner name :: rest

theorem called_playAll (moves : List (Move V)) : (idle.playAll moves).Called := by
  apply orderly_induction (P := fun _ m => m.Called)
  · simp [Called, idle]
  · exact fun past m step h hstack next hnext => .inl rfl
  · intro past m runner old left stack h hstack step hrun
    have hcalled := h step hrun
    simp [hstack] at hcalled
  · intro past m horderly h step hrun
    obtain ⟨pushed, warned, heffect, hstack, -⟩ := advance_becomes horderly
    rw [hrun] at heffect
    generalize m.advance.system = s at heffect
    generalize hcontrol : Control.run step = control at heffect
    cases heffect with
    | rests hrest hbelow => exact absurd hcontrol.symm (hrest step)
    | begins hrun hbegins => contradiction
    | frees hdone hstack hfreeing hfrees => simp [hdone] at hcontrol
    | continues hdone htop hcontinues =>
        cases hcontinues with
        | runsStep b runner next left => exact .inr ⟨_, _, _, hstack⟩
        | _ => contradiction

theorem EndsFrom.stack_eq {m : Machine V} {base : List (Frame V)} {a : Answer V}
    {later : List (Move V)} (h : m.EndsFrom base.length a later) (horderly : m.Orderly)
    (hbase : base = [] ∨ ∃ runner name rest, base = .nested runner name :: rest)
    (hsuffix : base <:+ m.stack) :
    (m.playAll later).stack = base ∧ (m.playAll later).control = .done a := by
  have hkeeps : ∀ (x : Machine V) (move : Move V), x.Orderly ∧ base <:+ x.stack →
      x.settled? base.length = none → (move = .advance → True) →
        (x.play move).Orderly ∧ base <:+ (x.play move).stack := by
    rintro x move ⟨horderly, hsuffix⟩ hunsettled -
    refine ⟨horderly.play move, ?_⟩
    cases move with
    | begin step => rwa [play_begin_of_unsettled hunsettled]
    | decide left =>
        simp only [Machine.play]
        split
        · rename_i runner old rest hstack
          rw [hstack] at hsuffix
          rcases List.suffix_cons_iff.mp hsuffix with heq | hrest
          · rcases hbase with rfl | ⟨_, _, _, rfl⟩ <;> simp at heq
          · exact hrest.trans (List.suffix_cons _ _)
        · exact hsuffix
    | advance =>
        obtain ⟨pushed, warned, heffect, hstack, -⟩ := advance_becomes horderly
        have hbelow : base <:+ x.below := by
          rcases x.below_eq with hsame | ⟨b, hdone, htail⟩
          · rwa [hsame]
          · rw [htail]
            cases hframes : x.stack with
            | nil => simp [settled?, hdone, hframes] at hunsettled
            | cons top rest =>
                rw [hframes] at hsuffix
                rcases List.suffix_cons_iff.mp hsuffix with heq | hrest
                · simp [settled?, hdone, hframes, heq] at hunsettled
                · exact hrest
        change base <:+ x.advance.stack
        rw [hstack]
        exact hbelow.trans (List.suffix_append _ _)
  obtain ⟨⟨-, hsuffix⟩, hsettled, -⟩ :=
    h.keeps (P := fun x => x.Orderly ∧ base <:+ x.stack) (R := fun _ => True) hkeeps (by simp)
      ⟨horderly, hsuffix⟩
  obtain ⟨hcontrol, hlength⟩ := settled?_eq_some hsettled
  exact ⟨(hsuffix.eq_of_length (Nat.le_antisymm hsuffix.length_le hlength)).symm, hcontrol⟩

theorem AtCall.closing_eq_none {moves : List (Move V)} (h : AtCall moves)
    {calls : List (WriteCall V)} {closing : Option (Relay × Write V × Answer V)}
    (hstanding : (idle.playAll moves).Standing calls closing) : closing = none := by
  cases hstanding with
  | waiting hwaits => rfl
  | answered call above hdone hstack hfreeing hmore hdepth hwaits =>
      obtain ⟨top, above, rfl⟩ := List.exists_cons_of_ne_nil hmore
      have htop := hfreeing top List.mem_cons_self
      rcases h with ⟨step, hrun⟩ | ⟨earlier, later, step, a, rfl, hrun, hends⟩
      · simp [hrun] at hdone
      · have hcalled := called_playAll earlier step hrun
        have horderly := orderly_playAll earlier
        obtain ⟨pushed, warned, -, hframes, -⟩ := advance_becomes horderly
        rw [below_of_run hrun] at hframes
        rw [playAll_append, playAll_cons] at hstack
        have hbase := (EndsFrom.stack_eq hends horderly.advance hcalled
          (hframes ▸ List.suffix_append _ _)).1
        change (((idle.playAll earlier).play .advance).playAll later).stack = _ at hbase
        rw [hbase] at hstack
        rcases hcalled with hnil | ⟨runner, name, rest, hnested⟩
        · simp [hnil] at hstack
        · rw [hnested] at hstack
          cases hstack
          simp [Frame.isFreeing] at htop

/-! ## Every course -/

theorem delivered_of_logs {m : Machine V} (h : m.advance.system.logs = m.system.logs) (log : Nat) :
    delivered log [m] = [] := by
  have hnone : m.arriving log = [] := by
    simp only [arriving, System.log, h, List.drop_length, ite_self]
  simp [delivered, hnone]

/-- The notices of the queue are those of the writes that have returned and of one whose answer
is on its way. -/
theorem accounts_playAll (moves : List (Move V)) (queue log : Nat)
    (hshared : ∀ m ∈ idle.history moves, ∀ p ∈ m.system.relayNames,
      p.2.listener = .log log → p.2.queue = queue) :
    ∃ closing, (idle.playAll moves).Standing (idle.unreturned moves) closing ∧
      queued log (idle.history moves) = accepted log moves ++ closingNotices log closing ∧
      delivered log (idle.history moves) <+: accepted log moves := by
  induction moves using List.reverseRecOn with
  | nil => exact ⟨none, .waiting .nil, rfl, List.prefix_rfl⟩
  | append_singleton moves move ih =>
      have hledger := ledger_playAll (moves ++ [move]) queue log hshared
      rw [history_append] at hshared
      obtain ⟨closing, hstanding, hqueued, hdelivered⟩ :=
        ih fun m hm => hshared m (List.mem_append_left _ hm)
      obtain ⟨closing', hnext, htold, hlogs⟩ :=
        (hstanding.play (orderly_playAll moves) log move).accounts
      have hsum : queued log (idle.history (moves ++ [move])) =
          accepted log (moves ++ [move]) ++ closingNotices log closing' := by
        rw [history_append, queued_append, hqueued, List.append_assoc, htold,
          accepted_append_singleton, returning_append_singleton, List.append_assoc]
      refine ⟨closing', ?_, hsum, ?_⟩
      · rw [unreturned_append_singleton, playAll_append]
        exact hnext
      · cases closing' with
        | none =>
            refine ⟨noticesFor log ((idle.playAll (moves ++ [move])).system.queue queue), ?_⟩
            rw [hledger.balanced, hsum]
            exact List.append_nil _
        | some answered =>
            have hquiet : delivered log ((idle.playAll moves).history [move]) = [] := by
              cases move with
              | advance => exact delivered_of_logs (hlogs rfl) log
              | begin step => rfl
              | decide left => rfl
            rw [history_append, delivered_append, hquiet, List.append_nil,
              accepted_append_singleton]
            exact hdelivered.trans (List.prefix_append _ _)

/--
If all relays that tell the log share the queue, no notice of a write is told before
the write has returned.  Whenever a step begins or has just been answered, the
notices of writes that the log was told, followed by those left in the queue, are
those of the writes that were answered with success, in the order of their return.
-/
theorem commits_follow_writes (moves : List (Move V)) (queue log : Nat)
    (hshared : ∀ m ∈ idle.history moves, ∀ p ∈ m.system.relayNames,
      p.2.listener = .log log → p.2.queue = queue) :
    delivered log (idle.history moves) <+: accepted log moves ∧
      (AtCall moves →
        delivered log (idle.history moves) ++
            noticesFor log ((idle.playAll moves).system.queue queue) =
          accepted log moves) := by
  obtain ⟨closing, hstanding, hqueued, hdelivered⟩ := accounts_playAll moves queue log hshared
  refine ⟨hdelivered, fun hcall => ?_⟩
  have hbalanced := (ledger_playAll moves queue log hshared).balanced
  rw [hcall.closing_eq_none hstanding] at hqueued
  exact hbalanced.trans (hqueued.trans (List.append_nil _))

/-- A write is called whose handler in the other tab writes as well and drains the queue, after
a write of what has no text. -/
def calledWrite : List (Move Draft) :=
  [.begin (.newWithEntries "a" .localArea [("j", "1"), ("k", "2")]), .advance,
    .begin (.openTab "b" "a"), .advance,
    .begin (.newLog "l"), .advance, .begin (.newQueue "q"), .advance,
    .begin (.relayToLog "r" "a" "q" "l"), .advance,
    .begin (.relayToLog "s" "b" "q" "l"), .advance,
    .begin (.subscribe "b" "h" [.write "s" (.remove "j"), .runPending "q"] none []),
    .advance, .advance, .advance,
    .begin (.write "r" (.store "x" (.unencodable "no text"))), .advance, .advance, .advance,
    .begin (.write "r" (.remove "k"))]

def nestedWrites : List (Move Draft) := calledWrite ++ .advance :: List.replicate 18 .advance

theorem nested_writes_are_committed :
    (∀ m ∈ idle.history nestedWrites, ∀ p ∈ m.system.relayNames,
      p.2.listener = .log 0 → p.2.queue = 0) ∧ AtCall nestedWrites ∧
    delivered 0 (idle.history nestedWrites) = [.committed "j" none] ∧
    noticesFor 0 ((idle.playAll nestedWrites).system.queue 0) = [.committed "k" none] ∧
    accepted 0 nestedWrites = [.committed "j" none, .committed "k" none] := by
  have hshared : ∀ m ∈ idle.history nestedWrites, ∀ p ∈ m.system.relayNames,
      p.2.listener = .log 0 → p.2.queue = 0 := by decide
  have hcall : AtCall nestedWrites :=
    .inr ⟨calledWrite, List.replicate 18 .advance, .write "r" (.remove "k"), .ok, rfl, rfl,
      by decide⟩
  have hdelivered : delivered 0 (idle.history nestedWrites) = [.committed "j" none] := by decide
  have hleft : noticesFor 0 ((idle.playAll nestedWrites).system.queue 0) =
      [.committed "k" none] := by decide
  have haccepted := (commits_follow_writes nestedWrites 0 0 hshared).2 hcall
  rw [hdelivered, hleft] at haccepted
  exact ⟨hshared, hcall, hdelivered, hleft, haccepted.symm⟩

end Machine

end TabRelay.Session
