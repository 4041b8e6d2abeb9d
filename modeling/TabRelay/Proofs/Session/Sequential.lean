import TabRelay.Proofs.Session.Grounded
import TabRelay.Proofs.Session.Returning
import TabRelay.Session.Draft

/-!
# An area is one sequential map

The calls to an area are put in the order in which they are made, a call before
those of the handlers that it starts.  Fed with them one after another, a plain
map has the entries of the area at every moment, and it tells the answer and the
event of every call, whichever tab makes it.
-/

namespace TabRelay.Session

open TabRelay.Storage

variable {V : Type}

/-! ## What happens to an area -/

inductive Happening where
  | opened (area : PlainArea)
  | called (operation : Operation)

def Happening.apply (area : Option PlainArea) : Happening → Option PlainArea
  | .opened area => some area
  | .called operation => area.map fun a => (a.perform operation).area

namespace Step

def opens? : Step V → Option PlainArea
  | .new _ kind => some ⟨kind, none, .empty⟩
  | .newWithQuota _ kind quota => some ⟨kind, some quota, .empty⟩
  | .newWithEntries _ kind entries => some ⟨kind, none, .ofPairs entries⟩
  | _ => none

theorem opens?_eq (step : Step V) : step.opens? = step.newArea?.map fun new => new.2.plain := by
  cases step with
  | new id kind => simp [opens?, newArea?, Area.plain, PlainMap.ofEntries_nil]
  | newWithQuota id kind quota => simp [opens?, newArea?, Area.plain, PlainMap.ofEntries_nil]
  | newWithEntries id kind entries =>
      simp [opens?, newArea?, Area.plain, PlainMap.ofEntries_ofPairs]
  | _ => rfl

def reported (step : Step V) (reply : Reply) : Answer V :=
  match step.relayWrite?, reply with
  | some (_, w), .refused e => .writeError (.storage w.key e)
  | _, reply => replied reply

end Step

def Frame.event? : Frame V → Option Event
  | .delivery event _ => some event
  | _ => none

namespace Machine

variable [Storable V]

def happening? (m : Machine V) (i : Nat) : Option Happening :=
  match m.control with
  | .run step =>
      match step.opens? with
      | some area => if m.system.areas.length = i then some (.opened area) else none
      | none =>
          (m.invocation?.filter (·.handle.area = i)).map fun call => .called call.operation
  | _ => none

/-- What the happenings of a session make of an area, one after another. -/
def plainArea (past : List (Machine V)) (i : Nat) : Option PlainArea :=
  (past.filterMap (·.happening? i)).foldl Happening.apply none

def raised (m : Machine V) : List Event :=
  match m.control with
  | .run _ =>
      (m.advance.stack.take (m.advance.stack.length - m.stack.length)).filterMap (·.event?)
  | _ => []

def reported (m : Machine V) (reply : Reply) : Answer V :=
  match m.control with
  | .run step => step.reported reply
  | _ => replied reply

/-! ## One step -/

omit [Storable V] in
theorem map_plain_setArea {s : System V} {i : Nat} {changed : Area}
    (hsame : changed.plain = (s.area i).plain) (j : Nat) :
    (s.setArea i changed).areas[j]?.map Area.plain = s.areas[j]?.map Area.plain := by
  simp only [System.setArea, List.getElem?_set, System.area, List.getD_eq_getElem?_getD] at hsame ⊢
  split
  · rename_i hij
    subst hij
    split
    · rename_i hi
      simp [hi] at hsame ⊢
      exact hsame
    · rename_i hi
      simp [hi]
  · rfl

theorem Alters.plain {m : Machine V} {areas : List Area} (h : m.Alters areas)
    (hnew : ∀ step, m.control = .run step → step.newArea? = none) (hcall : m.invocation? = none)
    (i : Nat) : areas[i]?.map Area.plain = m.system.areas[i]?.map Area.plain := by
  cases h with
  | keeps => rfl
  | creates hrun hnew' =>
      rw [hnew _ hrun] at hnew'
      contradiction
  | operates hcall' =>
      rw [hcall] at hcall'
      contradiction
  | retabs j tabs =>
      apply map_plain_setArea
      rfl
  | subscribes hsubscribing =>
      apply map_plain_setArea
      rfl
  | reaps hdone hdead =>
      apply map_plain_setArea
      rfl
  | detaches hdone hstack hheld halive =>
      apply map_plain_setArea
      rfl

omit [Storable V] in
theorem map_plain_perform {s : System V} (hgrounded : Grounded s) {j : Nat}
    (operation : Operation) (i : Nat) :
    (s.setArea j ((s.area j).perform operation).area).areas[i]?.map Area.plain =
      if j = i then (s.areas[i]?.map Area.plain).map fun a => (a.perform operation).area
      else s.areas[i]?.map Area.plain := by
  simp only [System.setArea, List.getElem?_set]
  split
  · rename_i hij
    subst hij
    have hrefines := Area.perform_refines (hgrounded.sorted_area j) operation
    cases harea : s.areas[j]? with
    | none =>
        have hlength := List.getElem?_eq_none_iff.mp harea
        rw [if_neg (by omega)]
        rfl
    | some area =>
        have hlength : j < s.areas.length := (List.getElem?_eq_some_iff.mp harea).1
        have hsame : s.area j = area := by simp [System.area, harea]
        rw [hsame] at hrefines
        rw [if_pos hlength, hsame]
        exact congrArg some hrefines.area
  · rfl

theorem Orderly.plain {m : Machine V} (h : m.Orderly) (hgrounded : Grounded m.system) (i : Nat) :
    m.advance.system.areas[i]?.map Area.plain =
      (m.happening? i).toList.foldl Happening.apply (m.system.areas[i]?.map Area.plain) := by
  have hquiet (hnew : ∀ step, m.control = .run step → step.newArea? = none)
      (hcall : m.invocation? = none) (hnothing : m.happening? i = none) :
      m.advance.system.areas[i]?.map Area.plain =
        (m.happening? i).toList.foldl Happening.apply (m.system.areas[i]?.map Area.plain) := by
    rw [hnothing]
    exact h.alters.plain hnew hcall i
  cases hcontrol : m.control with
  | run step =>
      have hopens := step.opens?_eq
      cases hnew : step.newArea? with
      | some new =>
          simp only [hnew, Option.map_some] at hopens
          rw [advance_creates hcontrol hnew]
          simp only [happening?, hcontrol, hopens]
          by_cases hi : m.system.areas.length = i
          · subst hi
            simp [Happening.apply]
          · simp only [hi, if_false, Option.toList_none, List.foldl_nil]
            rcases lt_or_gt_of_ne hi with hi | hi
            · rw [List.getElem?_eq_none (by simp; omega), List.getElem?_eq_none (by omega)]
            · rw [List.getElem?_append_left hi]
      | none =>
          simp only [hnew, Option.map_none] at hopens
          cases hcall : m.invocation? with
          | none =>
              refine hquiet ?_ hcall ?_
              · intro step' hrun
                rw [hcontrol] at hrun
                cases hrun
                exact hnew
              · simp [happening?, hcontrol, hopens, hcall]
          | some call =>
              obtain ⟨step', waiting, trace, hrun, hasked, hwaiting, hadvance⟩ := h.operates hcall
              rw [hadvance]
              refine (map_plain_perform hgrounded call.operation i).trans ?_
              simp only [happening?, hcontrol, hopens, hcall]
              by_cases hi : call.handle.area = i
              · simp only [Option.filter_some, hi, decide_true, if_true, Option.map_some,
                  Option.toList_some, List.foldl_cons, List.foldl_nil, Happening.apply]
              · simp [Option.filter_some, hi]
  | done b =>
      refine hquiet (by simp [hcontrol]) (by simp [invocation?, hcontrol]) ?_
      simp [happening?, hcontrol]
  | conflict cell =>
      refine hquiet (by simp [hcontrol]) (by simp [invocation?, hcontrol]) ?_
      simp [happening?, hcontrol]

theorem plainArea_append (past : List (Machine V)) (m : Machine V) (i : Nat) :
    plainArea (past ++ [m]) i =
      (m.happening? i).toList.foldl Happening.apply (plainArea past i) := by
  simp only [plainArea, List.filterMap_append, List.foldl_append]
  congr 1

theorem plain_playAll (moves : List (Move V)) (i : Nat) :
    (idle.playAll moves).system.areas[i]?.map Area.plain =
      plainArea (idle.history moves) i := by
  have h : Grounded (idle.playAll moves).system ∧
      (idle.playAll moves).system.areas[i]?.map Area.plain =
        plainArea (idle.history moves) i := by
    apply orderly_induction (P := fun past m => Grounded m.system ∧
      m.system.areas[i]?.map Area.plain = plainArea past i)
    · exact ⟨⟨by simp [idle], by simp [idle], by simp [idle]⟩, rfl⟩
    · exact fun past m step hm hstack => hm
    · exact fun past m runner old left stack hm hstack => hm
    · rintro past m horderly ⟨hgrounded, hplain⟩
      refine ⟨?_, ?_⟩
      · obtain ⟨pushed, warned, heffect, -⟩ := advance_becomes horderly
        exact heffect.grounded hgrounded
      · rw [plainArea_append, ← hplain]
        exact horderly.plain hgrounded i
  exact h.2

/-! ## Answers and events -/

omit [Storable V] in
theorem reply_of_raised {area : Area} {operation : Operation} {event : Event}
    (h : (area.perform operation).raised = some event) :
    (area.perform operation).reply = .done := by
  cases operation with
  | set key text =>
      simp only [Area.perform] at h ⊢
      split at h
      · rfl
      · contradiction
  | remove key => rfl
  | clear => rfl
  | _ => contradiction

omit [Storable V] in
theorem reply_of_change (area : Area) {operation : Operation}
    (h : ∃ key text, operation = .set key text ∨ operation = .remove key) :
    (area.perform operation).reply = .done ∨
      ∃ e, (area.perform operation).reply = .refused e := by
  obtain ⟨key, text, rfl | rfl⟩ := h
  · simp only [Area.perform]
    split
    · exact .inl rfl
    · exact .inr ⟨_, rfl⟩
  · exact .inl rfl

theorem operationFor?_eq_some {w : Write V} {operation : Operation}
    (h : operationFor? w = some operation) :
    ∃ key text, operation = .set key text ∨ operation = .remove key := by
  unfold operationFor? at h
  split at h
  · exact ⟨_, "", .inr (Option.some.inj h).symm⟩
  · split at h
    · contradiction
    · exact ⟨_, _, .inl (Option.some.inj h).symm⟩

theorem change_of_relayWrite {s : System V} {step : Step V} {call : Invocation}
    {write : String × Write V} (hwrite : step.relayWrite? = some write)
    (hasked : step.asked? s = some call) :
    ∃ key text, call.operation = .set key text ∨ call.operation = .remove key := by
  cases step with
  | write relay w =>
      obtain ⟨r, hname, hmap⟩ := Option.bind_eq_some_iff.mp hasked
      obtain ⟨operation, hoperation, rfl⟩ := Option.map_eq_some_iff.mp hmap
      exact operationFor?_eq_some hoperation
  | writeRequest relay decoded =>
      cases decoded with
      | error e => contradiction
      | ok w =>
          obtain ⟨r, hname, hmap⟩ := Option.bind_eq_some_iff.mp hasked
          obtain ⟨operation, hoperation, rfl⟩ := Option.map_eq_some_iff.mp hmap
          exact operationFor?_eq_some hoperation
  | _ => contradiction

theorem Awaits.passed {m : Machine V} {step : Step V} {call : Invocation}
    {waiting : List (Frame V)} (h : m.Awaits step call.handle waiting)
    (hasked : step.asked? m.system = some call) (area : Area) :
    (∀ frame ∈ waiting, frame.isPassing) ∧
      passedThrough waiting (replied (area.perform call.operation).reply) =
        step.reported (area.perform call.operation).reply := by
  cases h with
  | reads hdirect => exact ⟨by simp, by simp [passedThrough, Step.reported, hdirect]⟩
  | direct hdirect =>
      refine ⟨by simp [Frame.isPassing, Frame.isFreeing], ?_⟩
      simp [passedThrough, Frame.passed, Step.reported, hdirect]
  | relayed stored hwrite hname hhandle =>
      refine ⟨by simp [Frame.isPassing, Frame.isFreeing], ?_⟩
      rcases reply_of_change area (change_of_relayWrite hwrite hasked) with
        hreply | ⟨e, hreply⟩
      · simp [passedThrough, Frame.passed, Step.reported, hwrite, hreply, replied]
      · simp [passedThrough, Frame.passed, Step.reported, hwrite, hreply, replied]

omit [Storable V] in
theorem filterMap_event?_deliveries (outcome : Outcome Area) (tab : Nat) :
    (deliveries outcome tab : List (Frame V)).filterMap (·.event?) = outcome.raised.toList := by
  cases h : outcome.raised <;> simp [deliveries, h, Frame.event?]

omit [Storable V] in
theorem filterMap_event?_of_isPassing {frames : List (Frame V)}
    (h : ∀ frame ∈ frames, frame.isPassing) : frames.filterMap (·.event?) = [] := by
  refine List.filterMap_eq_nil_iff.mpr ?_
  intro frame hframe
  have hpassing := h frame hframe
  cases frame <;> first | rfl | simp [Frame.isPassing, Frame.isFreeing] at hpassing

theorem Orderly.raised {m : Machine V} (h : m.Orderly) {call : Invocation}
    (hcall : m.invocation? = some call) :
    m.raised =
      ((m.system.area call.handle.area).perform call.operation).raised.toList := by
  obtain ⟨step, waiting, trace, hrun, hasked, hwaiting, hadvance⟩ := h.operates hcall
  have hpassing := (hwaiting.passed hasked default).1
  simp only [Machine.raised, hrun, hadvance, operated]
  rw [← List.append_assoc, List.length_append, Nat.add_sub_cancel, List.take_left',
    List.filterMap_append, filterMap_event?_deliveries, filterMap_event?_of_isPassing hpassing,
    List.append_nil]
  rfl

theorem Orderly.due {m : Machine V} (h : m.Orderly) {call : Invocation}
    (hcall : m.invocation? = some call) :
    m.advance.Due m.stack
      (m.reported ((m.system.area call.handle.area).perform call.operation).reply) := by
  obtain ⟨step, waiting, trace, hrun, hasked, hwaiting, hadvance⟩ := h.operates hcall
  obtain ⟨hpassing, hpassed⟩ := hwaiting.passed hasked (m.system.area call.handle.area)
  simp only [reported, hrun]
  rw [hadvance]
  cases hraised : ((m.system.area call.handle.area).perform call.operation).raised with
  | none =>
      refine .under _ waiting rfl ?_ hpassing hpassed
      simp [operated, deliveries, hraised]
  | some event =>
      rw [reply_of_raised hraised] at hpassed ⊢
      let outcome := (m.system.area call.handle.area).perform call.operation
      refine .waiting [] event (outcome.area.recipients (some call.handle.tab)) waiting ?_
        hpassing hpassed
      simp only [operated, deliveries, hraised]
      rfl

omit [Storable V] in
theorem isAlive_of_named {m : Machine V} {h : Handle}
    (hnamed : (∃ p ∈ m.system.storageNames, p.2 = h) ∨
      ∃ p ∈ m.system.relayNames, p.2.handle = h) : m.isAlive h.area := by
  rcases hnamed with ⟨p, hp, rfl⟩ | ⟨p, hp, rfl⟩
  · have hany : m.system.storageNames.any (fun q => q.2.area = p.2.area) :=
      List.any_eq_true.mpr ⟨p, hp, by simp⟩
    simp [isAlive, hany]
  · have hany : m.system.relayNames.any (fun q => q.2.handle.area = p.2.handle.area) :=
      List.any_eq_true.mpr ⟨p, hp, by simp⟩
    simp [isAlive, hany]

theorem advance_keep {m : Machine V} {h : Handle} {b : Answer V} {rest : List (Frame V)}
    (hnamed : (∃ p ∈ m.system.storageNames, p.2 = h) ∨
      ∃ p ∈ m.system.relayNames, p.2.handle = h)
    (hdone : m.control = .done b) (hstack : m.stack = .keep h.area :: rest) :
    m.advance = { m with stack := rest } := by
  have halive : isAlive { m with stack := rest } h.area := isAlive_of_named hnamed
  rw [hdone] at halive
  simp [advance, hdone, resume, hstack, reap, halive]

theorem settled?_keep {m : Machine V} {h : Handle} {b : Answer V} {rest : List (Frame V)}
    (hnamed : (∃ p ∈ m.system.storageNames, p.2 = h) ∨
      ∃ p ∈ m.system.relayNames, p.2.handle = h)
    (hdone : m.control = .done b) (hstack : m.stack = .keep h.area :: rest) :
    m.advance.settled? rest.length = some b := by
  rw [advance_keep hnamed hdone hstack]
  simp [settled?, hdone]

theorem advance_writing {m : Machine V} (horderly : m.Orderly) {b : Answer V} {relay : Relay}
    {w : Write V} {stored : Option String} {rest : List (Frame V)} (hdone : m.control = .done b)
    (hstack : m.stack = .writing relay w stored :: rest) :
    (∃ a, m.advance.control = .done a) ∧ m.advance.stack = rest ∧
      m.advance.system.storageNames = m.system.storageNames ∧
      m.advance.system.relayNames = m.system.relayNames := by
  obtain ⟨pushed, warned, heffect, hpushed, -⟩ := advance_becomes horderly
  have hbelow := below_of_done hdone hstack
  have hcontrol := (heffect.of_passing hdone hstack rfl).1
  rw [hbelow] at hpushed
  generalize m.advance.system = s at heffect ⊢
  generalize m.advance.control = control at heffect hcontrol ⊢
  cases heffect with
  | rests hrest hsame =>
      rw [hbelow, hstack] at hsame
      simp at hsame
  | begins hrun hbegins =>
      rw [hdone] at hrun
      contradiction
  | continues hdone' hstack' hcontinues =>
      rw [hstack] at hstack'
      cases hstack'
      have hnames := hcontinues.names
      cases hcontinues with
      | finishes b hspent => contradiction
      | writeFails e relay w stored =>
          exact ⟨⟨_, hcontrol⟩, hpushed, hnames.storages, hnames.relays⟩
      | writeEnds relay w stored hb =>
          exact ⟨⟨_, hcontrol⟩, hpushed, hnames.storages, hnames.relays⟩
  | frees hdone' hstack' hfreeing hfrees =>
      rw [hstack] at hstack'
      cases hstack'
      contradiction

theorem Orderly.answered {m : Machine V} (h : m.Orderly) {call : Invocation}
    (hcall : m.invocation? = some call) (hquiet : m.raised = []) :
    (m.answered? [.advance, .advance]).isSome := by
  obtain ⟨step, waiting, trace, hrun, hasked, hwaiting, hadvance⟩ := h.operates hcall
  have hnone : ((m.system.area call.handle.area).perform call.operation).raised = none := by
    simpa [h.raised hcall] using hquiet
  have hstack : m.advance.stack = waiting ++ m.stack := by
    rw [hadvance]
    simp [operated, deliveries, hnone]
  have hdone : ∃ b, m.advance.control = .done b := ⟨_, congrArg Machine.control hadvance⟩
  have hnamed : (∃ p ∈ m.advance.system.storageNames, p.2 = call.handle) ∨
      ∃ p ∈ m.advance.system.relayNames, p.2.handle = call.handle := by
    rw [hadvance]
    exact asked?_named hasked
  have hnext := h.advance
  simp only [answered?]
  generalize m.advance = next at hstack hdone hnamed hnext ⊢
  obtain ⟨b, hb⟩ := hdone
  cases hwaiting with
  | reads hdirect =>
      have hsettled : next.settled? m.stack.length = some b := by simp [settled?, hb, hstack]
      rw [returned?_of_settled hsettled]
      rfl
  | direct hdirect =>
      have hkeep : next.stack = .keep call.handle.area :: m.stack := hstack
      have hunsettled : next.settled? m.stack.length = none := by
        refine settled?_of_lt ?_
        simp only [hkeep, List.length_cons]
        omega
      rw [returned?_advance hunsettled, returned?_of_settled (settled?_keep hnamed hb hkeep)]
      rfl
  | @relayed id relay w stored hwrite hname hhandle =>
      have hwriting : next.stack =
          .writing relay w stored :: .keep relay.handle.area :: m.stack := hstack
      have hunsettled : next.settled? m.stack.length = none := by
        refine settled?_of_lt ?_
        simp only [hwriting, List.length_cons]
        omega
      obtain ⟨⟨a, ha⟩, hkeep, hstorages, hrelays⟩ := advance_writing hnext hb hwriting
      have hunsettled' : next.advance.settled? m.stack.length = none := by
        refine settled?_of_lt ?_
        simp only [hkeep, List.length_cons]
        omega
      rw [← hstorages, ← hrelays, ← hhandle] at hnamed
      rw [returned?_advance hunsettled, returned?_advance hunsettled',
        returned?_of_settled (settled?_keep hnamed ha hkeep)]
      rfl

/--
The entries of an area are at every moment those of a plain map that is fed with
the calls so far.  The map tells the events of the next call and its answer,
which comes at once if no handler is to hear of the call.
-/
theorem operations_are_sequential (before later : List (Move V)) (i : Nat) :
    (idle.playAll before).system.areas[i]?.map Area.plain = plainArea (idle.history before) i ∧
      ∀ call, (idle.playAll before).invocation? = some call → call.handle.area = i →
        ∃ plain, plainArea (idle.history before) i = some plain ∧
          (idle.playAll before).raised = (plain.perform call.operation).raised.toList ∧
          ((idle.playAll before).raised = [] →
            ((idle.playAll before).answered? [.advance, .advance]).isSome) ∧
          ∀ a, (idle.playAll before).answered? later = some a →
            a = (idle.playAll before).reported (plain.perform call.operation).reply.inWord := by
  have hplain := plain_playAll before i
  refine ⟨hplain, ?_⟩
  intro call hcall hi
  have horderly := orderly_playAll before
  have hgrounded := grounded_playAll before
  generalize idle.playAll before = m at hplain hcall horderly hgrounded ⊢
  have hlength : i < m.system.areas.length := hi ▸ hgrounded.called hcall
  have harea : m.system.areas[i]? = some (m.system.area call.handle.area) := by
    simp [System.area, hi, hlength]
  have hrefines := Area.perform_refines (hgrounded.sorted_area call.handle.area) call.operation
  refine ⟨(m.system.area call.handle.area).plain, ?_, ?_, ?_, ?_⟩
  · rw [← hplain, harea]
    rfl
  · rw [horderly.raised hcall, hrefines.raised]
  · exact horderly.answered hcall
  · intro a ha
    rw [← hrefines.reply]
    exact (horderly.due hcall).returned horderly.advance later ha

def writeBack : List (Move Draft) :=
  [.begin (.newWithQuota "a" .localArea 3), .advance, .begin (.openTab "b" "a"), .advance,
    .begin (.subscribe "b" "s" [.set "b" "k" "22"] (some 1) []), .advance, .advance, .advance,
    .begin (.set "a" "k" "1"), .advance, .advance, .advance]

theorem write_back_is_sequential :
    ∃ plain, plainArea (idle.history writeBack) 0 = some plain ∧
      (idle.playAll writeBack).raised = (plain.perform (.set "k" "22")).raised.toList ∧
      Answer.ok =
        (idle.playAll writeBack).reported (plain.perform (.set "k" "22")).reply.inWord := by
  have hcall : (idle.playAll writeBack).invocation? = some ⟨⟨0, 1⟩, .set "k" "22"⟩ := by decide
  have hreturns : (idle.playAll writeBack).answered? (List.replicate 9 .advance) = some .ok := by
    decide
  obtain ⟨plain, hplain, hraised, -, hanswer⟩ :=
    (operations_are_sequential writeBack (List.replicate 9 .advance) 0).2 _ hcall rfl
  exact ⟨plain, hplain, hraised, hanswer .ok hreturns⟩

end Machine

end TabRelay.Session
