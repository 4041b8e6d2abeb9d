import TabRelay.Proofs.Session.Writing
import TabRelay.Session.Draft

/-!
# When the last notice about a key is right

Notices of other tabs come to a log at once, and those of the writes of its own tab
only when a queue is drained.  So a change by another tab may be told before an
older write, which then has the last word.  Unless a change to a key has overtaken a
write to it in this way, the last notice about the key says what the area has.
-/

namespace TabRelay

/-- Without a key a notice is about every key. -/
def isAbout (key : String) (told : Option String) : Bool := told.all (· = key)

def Change.said {V : Type} [Storable V] : Change V → Except String (Option String)
  | .committed _ none => .ok none
  | .committed _ (some value) => (Storable.stored value).map some
  | .external none _ => .ok none
  | .external (some _) newText => .ok newText

namespace Session

open TabRelay.Storage

variable {V : Type}

namespace Machine

variable [Storable V]

/-! ## All notices in one line -/

/-- The notices in the log and those to come, in the order in which they were caused but
for changes that overtake writes. -/
def line (m : Machine V) (queue log : Nat) : List (Change V) :=
  m.system.log log ++ m.inTransit log ++ noticesFor log (m.system.queue queue) ++ m.inFlight log

omit [Storable V] in
theorem line_of_idle {m : Machine V} (hstack : m.stack = []) (queue log : Nat) :
    m.line queue log = m.system.log log ++ noticesFor log (m.system.queue queue) := by
  rw [line, inTransit_of_idle hstack, inFlight_of_idle hstack, List.append_nil, List.append_nil]

/-- Changes by other tabs join the line before the writes that have not returned yet. -/
theorem Ordinary.line_advance {m : Machine V} (h : m.Ordinary) (horderly : m.Orderly)
    (hordinary : m.isOrdinary) (hcustody : Custody m.system m.stack) {queue log : Nat}
    (hshared : m.Shared queue log) (hfailing : m.Failing log) (hedits : m.editsLog = false) :
    m.advance.line queue log =
      m.system.log log ++ (m.sending.flatMap (m.system.forwards log) ++ m.inTransit log) ++
        noticesFor log (m.system.queue queue) ++ (m.inFlight log ++ (m.entering? log).toList) := by
  have hexternal := h.forwards horderly hordinary hcustody log
  have hcommitted := horderly.delivered h.addressed hshared
  have hwrites := (h.writes horderly hfailing).1
  have hdelivered : delivered log [m] = (m.arriving log).filter (·.isCommitted) :=
    List.append_nil _
  rw [hdelivered] at hcommitted
  have hsplit : (m.arriving log ++ m.advance.inTransit log) ++
      noticesFor log (m.advance.system.queue queue) =
      (m.sending.flatMap (m.system.forwards log) ++ m.inTransit log) ++
        (noticesFor log (m.system.queue queue) ++ queued log [m]) := by
    rw [← hexternal, hcommitted, h.arriving_split horderly hordinary, List.append_assoc]
  calc m.advance.line queue log
    _ = m.system.log log ++ ((m.arriving log ++ m.advance.inTransit log) ++
          noticesFor log (m.advance.system.queue queue)) ++ m.advance.inFlight log := by
        rw [line, horderly.extends_log hordinary hedits]
        simp only [List.append_assoc]
    _ = m.system.log log ++ (m.sending.flatMap (m.system.forwards log) ++ m.inTransit log) ++
          noticesFor log (m.system.queue queue) ++ (queued log [m] ++ m.advance.inFlight log) := by
        rw [hsplit]
        simp only [List.append_assoc]
    _ = _ := by rw [hwrites]

/-! ## The write that an area does next -/

omit [Storable V] in
theorem noticeOf?_eq_some {log : Nat} {relay : Relay} {w : Write V} {change : Change V}
    (h : noticeOf? log (relay, w, .ok) = some change) :
    relay.listener = .log log ∧ change = .committed w.key w.value := by
  simpa [noticeOf?, eq_comm] using h

theorem operationFor?_of_asked {m : Machine V} {step : Step V} {id : String} {w : Write V}
    {relay : Relay} {call : Invocation} (hwrite : step.relayWrite? = some (id, w))
    (hname : Keyed.lookup? id m.system.relayNames = some relay)
    (hasked : step.asked? m.system = some call) : operationFor? w = some call.operation := by
  cases step with
  | write name w' =>
      cases hwrite
      simp only [Step.asked?, hname, Option.bind_some] at hasked
      obtain ⟨operation, hoperation, rfl⟩ := Option.map_eq_some_iff.mp hasked
      exact hoperation
  | writeRequest name decoded =>
      cases decoded with
      | error e => contradiction
      | ok w' =>
          cases hwrite
          simp only [Step.asked?, hname, Option.bind_some] at hasked
          obtain ⟨operation, hoperation, rfl⟩ := Option.map_eq_some_iff.mp hasked
          exact hoperation
  | _ => contradiction

theorem operationFor?_eq {w : Write V} {operation : Operation}
    (h : operationFor? w = some operation) :
    w.value = none ∧ operation = .remove w.key ∨
      ∃ value text, w.value = some value ∧ Storable.stored value = .ok text ∧
        operation = .set w.key text := by
  unfold operationFor? at h
  split at h
  · rename_i hvalue
    exact .inl ⟨hvalue, (Option.some.inj h).symm⟩
  · rename_i value hvalue
    split at h
    · contradiction
    · rename_i text htext
      exact .inr ⟨value, text, hvalue, htext, (Option.some.inj h).symm⟩

theorem entering?_eq_some {m : Machine V} {log : Nat} {change : Change V}
    (h : m.entering? log = some change) :
    ∃ p ∈ m.system.relayNames, p.2.listener = .log log ∧ ∃ w operation,
      change = .committed w.key w.value ∧ operationFor? w = some operation ∧
        m.achieving? p.2.handle = some operation := by
  unfold entering? at h
  split at h
  · rename_i step hrun
    obtain ⟨⟨id, w⟩, hwrite, hbind⟩ := Option.bind_eq_some_iff.mp h
    obtain ⟨relay, hname, hsome⟩ := Option.bind_eq_some_iff.mp hbind
    obtain ⟨hachieves, hnotice⟩ := Option.ite_none_right_eq_some.mp hsome
    obtain ⟨operation, hachieving⟩ := Option.isSome_iff_exists.mp hachieves
    obtain ⟨hlog, rfl⟩ := noticeOf?_eq_some hnotice
    refine ⟨_, Keyed.mem_of_lookup? hname, hlog, w, operation, rfl, ?_, hachieving⟩
    obtain ⟨call, hfilter, rfl⟩ := Option.map_eq_some_iff.mp hachieving
    obtain ⟨step', hrun', hasked, -⟩ :=
      invocation?_eq_some (Option.filter_eq_some_iff.mp hfilter).1
    rw [hrun] at hrun'
    cases hrun'
    exact operationFor?_of_asked hwrite hname hasked
  · contradiction

/-! ## The last notice about a key -/

/-- The last notice about the key, if there is one, says that the key has the text. -/
def LastSays (key : String) (changes : List (Change V)) (text : Option String) : Prop :=
  ∀ change, (changes.filter (isAbout key ·.key?)).getLast? = some change → change.said = .ok text

def LastCommits (key : String) (changes : List (Change V)) : Prop :=
  ∃ change, (changes.filter (isAbout key ·.key?)).getLast? = some change ∧ change.isCommitted

omit [Storable V] in
theorem filter_insert_other {key : String} {first second sent : List (Change V)}
    (hother : ∀ change ∈ sent, isAbout key change.key? = false) :
    (first ++ sent ++ second).filter (isAbout key ·.key?) =
      (first ++ second).filter (isAbout key ·.key?) := by
  have hnone : sent.filter (isAbout key ·.key?) = [] :=
    List.filter_eq_nil_iff.mpr fun change hchange => by simp [hother change hchange]
  simp only [List.filter_append, hnone, List.append_nil]

omit [Storable V] in
theorem getLast?_insert {key : String} (first sent : List (Change V)) {second : List (Change V)}
    (hsome : ∃ change ∈ second, isAbout key change.key?) :
    ((first ++ sent ++ second).filter (isAbout key ·.key?)).getLast? =
      (second.filter (isAbout key ·.key?)).getLast? := by
  obtain ⟨change, hmem, habout⟩ := hsome
  have hne : second.filter (isAbout key ·.key?) ≠ [] :=
    List.ne_nil_of_mem (List.mem_filter.mpr ⟨hmem, habout⟩)
  rw [List.filter_append, List.getLast?_append_of_ne_nil _ hne]

theorem LastSays.insert_other {key : String} {first second sent : List (Change V)}
    {text : Option String} (h : LastSays key (first ++ second) text)
    (hother : ∀ change ∈ sent, isAbout key change.key? = false) :
    LastSays key (first ++ sent ++ second) text := by
  rw [LastSays, filter_insert_other hother]
  exact h

theorem LastSays.insert_before {key : String} {first second sent : List (Change V)}
    {text : Option String} (h : LastSays key (first ++ second) text)
    (hsome : ∃ change ∈ second, isAbout key change.key?) :
    LastSays key (first ++ sent ++ second) text := by
  have hlast := getLast?_insert first [] hsome
  rw [List.append_nil] at hlast
  rw [LastSays, getLast?_insert first sent hsome, ← hlast]
  exact h

omit [Storable V] in
theorem LastCommits.insert_other {key : String} {first second sent : List (Change V)}
    (h : LastCommits key (first ++ second))
    (hother : ∀ change ∈ sent, isAbout key change.key? = false) :
    LastCommits key (first ++ sent ++ second) := by
  rw [LastCommits, filter_insert_other hother]
  exact h

omit [Storable V] in
theorem lastCommits_of_pending {key : String} {first second : List (Change V)}
    (hcommitted : ∀ change ∈ second, change.isCommitted)
    (hsome : ∃ change ∈ second, isAbout key change.key?) : LastCommits key (first ++ second) := by
  have hlast := getLast?_insert first [] hsome
  rw [List.append_nil] at hlast
  obtain ⟨other, hmem, habout⟩ := hsome
  have hne : second.filter (isAbout key ·.key?) ≠ [] :=
    List.ne_nil_of_mem (List.mem_filter.mpr ⟨hmem, habout⟩)
  refine ⟨_, hlast.trans (List.getLast?_eq_some_getLast hne), ?_⟩
  exact hcommitted _ (List.mem_filter.mp (List.getLast_mem hne)).1

theorem lastSays_of_sent {key : String} {first second sent : List (Change V)}
    {text : Option String} (hsent : ∀ change ∈ sent, change.said = .ok text)
    (hsome : ∃ change ∈ sent, isAbout key change.key?)
    (hother : ∀ change ∈ second, isAbout key change.key? = false) :
    LastSays key (first ++ sent ++ second) text := by
  have hnone : second.filter (isAbout key ·.key?) = [] :=
    List.filter_eq_nil_iff.mpr fun change hchange => by simp [hother change hchange]
  intro change hlast
  obtain ⟨other, hmem, habout⟩ := hsome
  have hne : sent.filter (isAbout key ·.key?) ≠ [] :=
    List.ne_nil_of_mem (List.mem_filter.mpr ⟨hmem, habout⟩)
  rw [List.filter_append, List.filter_append, hnone, List.append_nil,
    List.getLast?_append_of_ne_nil _ hne] at hlast
  exact hsent change (List.mem_filter.mp (List.mem_of_getLast? hlast)).1

theorem LastSays.write {key : String} {changes : List (Change V)} {w : Write V}
    {operation : Operation} {entries : Keyed String} (hsorted : Keyed.Sorted entries)
    (hoperation : operationFor? w = some operation)
    (h : w.key ≠ key → LastSays key changes (Keyed.lookup? key entries)) :
    LastSays key (changes ++ [.committed w.key w.value])
      (Keyed.lookup? key (operation.applyTo entries)) := by
  have hlookup : ∃ text, (Change.committed w.key w.value).said = .ok text ∧
      Keyed.lookup? key (operation.applyTo entries) =
        if w.key = key then text else Keyed.lookup? key entries := by
    rcases operationFor?_eq hoperation with ⟨hvalue, rfl⟩ | ⟨value, text, hvalue, htext, rfl⟩
    · exact ⟨none, by rw [hvalue]; rfl, Keyed.lookup?_erase hsorted w.key key⟩
    · exact ⟨some text, by rw [hvalue, Change.said, htext]; rfl,
        Keyed.lookup?_insert w.key text entries key⟩
  obtain ⟨text, hsaid, hlookup⟩ := hlookup
  rw [hlookup, ← List.append_nil (changes ++ _)]
  split
  · rename_i hkey
    refine lastSays_of_sent (by simpa using hsaid) ⟨_, List.mem_singleton_self _, ?_⟩ (by simp)
    simp [isAbout, Change.key?, hkey]
  · rename_i hkey
    refine LastSays.insert_other ?_ (by simp [isAbout, Change.key?, hkey])
    rw [List.append_nil]
    exact h hkey

theorem LastSays.change {key : String} {first second sent : List (Change V)}
    {told newText : Option String} {entries : Keyed String} (hsorted : Keyed.Sorted entries)
    (hsame : ∀ change ∈ sent, change = .external told newText) (hsome : sent ≠ [])
    (h : isAbout key told = false → LastSays key (first ++ second) (Keyed.lookup? key entries))
    (hclear : isAbout key told → ∀ change ∈ second, isAbout key change.key? = false) :
    LastSays key (first ++ sent ++ second) (Keyed.lookup? key (retold told newText entries)) := by
  rw [lookup?_retold hsorted]
  by_cases habout : isAbout key told
  · refine lastSays_of_sent ?_ ?_ (hclear habout)
    · intro change hchange
      rw [hsame change hchange]
      cases told with
      | none => rfl
      | some other =>
          obtain rfl : other = key := by simpa [isAbout] using habout
          rw [if_pos rfl]
          rfl
    · obtain ⟨change, rest, rfl⟩ := List.exists_cons_of_ne_nil hsome
      refine ⟨change, List.mem_cons_self, ?_⟩
      rw [hsame change List.mem_cons_self]
      exact habout
  · have hother : told ≠ some key ∧ told ≠ none := by
      cases told <;> simp_all [isAbout]
    rw [if_neg hother.1, if_neg hother.2]
    refine (h (by simpa using habout)).insert_other fun change hchange => ?_
    rw [hsame change hchange]
    simpa [Change.key?] using habout

def Agrees (relay : Relay) (log : Nat) (key : String) (m : Machine V) : Prop :=
  LastSays key (m.line relay.queue log)
    (Keyed.lookup? key (m.system.area relay.handle.area).entries)

def changesEntry (m : Machine V) (area : Nat) (key : String) : Bool :=
  (m.advance.system.area area).get? key ≠ (m.system.area area).get? key

/-- Whether a change to the key has overtaken a write to it after the next step.  This begins
when another tab changes the entry while a notice of a write to the key is in the queue.  It
ends when the tab writes the key, or another tab does something about it and no such notice
is in the queue. -/
def overtakes (relay : Relay) (log : Nat) (key : String) (overtaken : Bool) (m : Machine V) :
    Bool :=
  match m.entering? log with
  | some change => overtaken && !isAbout key change.key?
  | none =>
      if (m.changing? relay.handle.area).any (isAbout key ·.key) then
        (noticesFor log (m.system.queue relay.queue)).any (isAbout key ·.key?) &&
          (overtaken || m.changesEntry relay.handle.area key)
      else overtaken

def overtaken (relay : Relay) (log : Nat) (key : String) (during : List (Machine V)) : Bool :=
  during.foldl (overtakes relay log key) false

/-! ## One step -/

theorem origin_of_achieving {m : Machine V} {handle : Handle} {operation : Operation}
    (h : m.achieving? handle = some operation) {event : Event} {area : Nat} {writer : Option Nat}
    (hraising : m.raising? = some (event, area, writer)) :
    area = handle.area ∧ writer = some handle.tab := by
  obtain ⟨call, hfilter, -⟩ := Option.map_eq_some_iff.mp h
  obtain ⟨hcall, hown⟩ := Option.filter_eq_some_iff.mp hfilter
  rw [raising?_of_call hcall] at hraising
  obtain ⟨raised, -, hsame⟩ := Option.map_eq_some_iff.mp hraising
  cases hsame
  have hhandle : call.handle = handle := (of_decide_eq_true hown).1
  rw [hhandle]
  exact ⟨rfl, rfl⟩

theorem owed_of_achieving {log : Nat} {past : List (Machine V)} {m : Machine V} {relay : Relay}
    (hsole : ∀ p ∈ listenings past, p.2.listener = .log log → p.2.handle = relay.handle)
    (hoccurring : m.raising? = m.occurring? past) {operation : Operation}
    (hachieving : m.achieving? relay.handle = some operation) : owed log past m = [] := by
  rw [owed, ← hoccurring]
  split
  · rfl
  · rename_i event area writer hraising
    obtain ⟨rfl, rfl⟩ := origin_of_achieving hachieving hraising
    refine List.filterMap_eq_nil_iff.mpr fun p hp => if_neg ?_
    rintro ⟨-, hlog, -, htab, -⟩
    rw [hsole p hp hlog] at htab
    exact htab rfl

/-- What is known of the last notice about the key, by whether a change has overtaken a write. -/
structure Tracks (relay : Relay) (log : Nat) (key : String) (overtaken : Bool) (m : Machine V) :
    Prop where
  agrees : overtaken = false → Agrees relay log key m
  commits : overtaken = true → LastCommits key (m.line relay.queue log)

theorem Tracks.of_line {relay : Relay} {log : Nat} {key : String} {flag : Bool}
    {m m' : Machine V} (h : Tracks relay log key flag m)
    (hline : m'.line relay.queue log = m.line relay.queue log) (hsystem : m'.system = m.system) :
    Tracks relay log key flag m' := by
  refine ⟨fun hfresh => ?_, fun hovertaken => hline ▸ h.commits hovertaken⟩
  rw [Agrees, hline, hsystem]
  exact h.agrees hfresh

omit [Storable V] in
theorem isCommitted_of_mem_noticesFor {log : Nat} {tasks : List (Task V)} {change : Change V}
    (h : change ∈ noticesFor log tasks) : change.isCommitted := by
  obtain ⟨task, -, htask⟩ := List.mem_filterMap.mp h
  cases task with
  | script name steps => contradiction
  | notice listener other =>
      cases listener with
      | log l =>
          obtain ⟨hfor, hsame⟩ := Option.ite_none_right_eq_some.mp htask
          cases hsame
          exact hfor.2
      | none => contradiction
      | script i => contradiction

theorem Tracks.hears {relay : Relay} {log : Nat} {key : String} {flag : Bool} {m m' : Machine V}
    {event : Event} {sent pending : List (Change V)} (h : Tracks relay log key flag m)
    (hline : m.line relay.queue log = m.system.log log ++ pending)
    (hpending : ∀ change ∈ pending, change.isCommitted)
    (hnext : m'.line relay.queue log = m.system.log log ++ sent ++ pending)
    (hsorted : Keyed.Sorted (m.system.area relay.handle.area).entries)
    (hsame : ∀ change ∈ sent, change = .external event.key event.newText) (hsome : sent ≠ [])
    (hentries : (m'.system.area relay.handle.area).entries =
      retold event.key event.newText (m.system.area relay.handle.area).entries) :
    Tracks relay log key
      (if isAbout key event.key then
        pending.any (isAbout key ·.key?) &&
          (flag || decide ((m'.system.area relay.handle.area).get? key ≠
            (m.system.area relay.handle.area).get? key))
      else flag) m' := by
  have hagrees (hnone : isAbout key event.key = false → flag = false)
      (hlast : isAbout key event.key → ∀ change ∈ pending, isAbout key change.key? = false) :
      Agrees relay log key m' := by
    rw [Agrees, hnext, hentries]
    refine LastSays.change hsorted hsame hsome (fun hother => ?_) hlast
    rw [← hline]
    exact h.agrees (hnone hother)
  by_cases habout : isAbout key event.key
  · rw [if_pos habout]
    by_cases hbehind : ∃ change ∈ pending, isAbout key change.key?
    · rw [List.any_eq_true.mpr hbehind, Bool.true_and]
      refine ⟨fun hflag => ?_, fun _ => ?_⟩
      · obtain ⟨hfresh, hentry⟩ := Bool.or_eq_false_iff.mp hflag
        have hbefore := h.agrees hfresh
        rw [Agrees, hline] at hbefore
        rw [Agrees, hnext]
        have hkept := not_not.mp (of_decide_eq_false hentry)
        rw [Area.get?, Area.get?] at hkept
        rw [hkept]
        exact hbefore.insert_before hbehind
      · rw [hnext]
        exact lastCommits_of_pending hpending hbehind
    · have hother : ∀ change ∈ pending, isAbout key change.key? = false := by
        simpa using hbehind
      rw [List.any_eq_false.mpr fun change hchange => by simp [hother change hchange],
        Bool.false_and]
      exact ⟨fun _ => hagrees (by simp [habout]) fun _ => hother, by simp⟩
  · rw [if_neg habout]
    refine ⟨fun hfresh => hagrees (fun _ => hfresh) fun hyes => absurd hyes habout, fun hflag => ?_⟩
    rw [hnext]
    refine LastCommits.insert_other (hline ▸ h.commits hflag) fun change hchange => ?_
    rw [hsame change hchange]
    simpa [Change.key?] using habout

theorem Tracks.writes {relay : Relay} {log : Nat} {key : String} {flag : Bool} {m m' : Machine V}
    {w : Write V} {operation : Operation} (h : Tracks relay log key flag m)
    (hsorted : Keyed.Sorted (m.system.area relay.handle.area).entries)
    (hoperation : operationFor? w = some operation)
    (hline : m'.line relay.queue log = m.line relay.queue log ++ [.committed w.key w.value])
    (hentries : (m'.system.area relay.handle.area).entries =
      operation.applyTo (m.system.area relay.handle.area).entries) :
    Tracks relay log key (flag && !decide (w.key = key)) m' := by
  refine ⟨fun hfresh => ?_, fun hovertaken => ?_⟩
  · rw [Agrees, hline, hentries]
    refine LastSays.write hsorted hoperation fun hkey => h.agrees ?_
    simpa [hkey] using hfresh
  · obtain ⟨hcommits, hkey⟩ := Bool.and_eq_true_iff.mp hovertaken
    rw [hline, ← List.append_nil (m.line relay.queue log ++ _)]
    refine LastCommits.insert_other ?_ (by simpa [isAbout, Change.key?] using hkey)
    rw [List.append_nil]
    exact h.commits hcommits

theorem Tracks.advance {moves : List (Move V)} {relay : Relay} {log : Nat} {key : String}
    {sub : Subscription} {flag : Bool}
    (h : Tracks relay log key flag (Machine.idle.playAll moves))
    (hordinary : ∀ m ∈ Machine.idle.history moves, m.isOrdinary)
    (hnext : (Machine.idle.playAll moves).isOrdinary)
    (hlistening : (sub, relay) ∈ listenings (Machine.idle.history moves))
    (hkept : sub ∉ dropped (Machine.idle.history moves)) (hlog : relay.listener = .log log)
    (hsole : ∀ p ∈ listenings (Machine.idle.history moves), p.2.listener = .log log →
      p.2.handle = relay.handle)
    (hnames : ∀ p ∈ (Machine.idle.playAll moves).system.relayNames, p.2.listener = .log log →
      p.2.handle = relay.handle)
    (hshared : (Machine.idle.playAll moves).Shared relay.queue log)
    (hedits : (Machine.idle.playAll moves).editsLog = false)
    (hdispatch : (Machine.idle.playAll moves).raising?.map (·.2) ≠
      some (relay.handle.area, none))
    (hrelayed : ((Machine.idle.playAll moves).achieving? relay.handle).isSome →
      ((Machine.idle.playAll moves).entering? log).isSome)
    (hfailing : (Machine.idle.playAll moves).Failing log) :
    Tracks relay log key (overtakes relay log key flag (Machine.idle.playAll moves))
      (Machine.idle.playAll moves).advance := by
  have hmachine := ordinary_playAll moves hordinary
  have horderly := orderly_playAll moves
  have hline := hmachine.line_advance horderly hnext (custody_playAll moves) hshared hfailing hedits
  rw [sending_forwards moves hordinary log] at hline
  have hoccurring := raising?_eq_occurring? moves
  have haffects := affects_playAll moves hordinary hlistening hkept hlog
    (fun p hp hplog => congrArg Handle.area (hsole p hp hplog)) hdispatch
  generalize Machine.idle.history moves = past at *
  generalize Machine.idle.playAll moves = m at *
  have hsorted := hmachine.grounded.sorted_area relay.handle.area
  have hquiet {step : Step V} (hrun : m.control = .run step) :
      m.inTransit log = [] ∧ m.inFlight log = [] ∧
        m.line relay.queue log = m.system.log log ++ noticesFor log (m.system.queue relay.queue) := by
    have hidle := hmachine.idle step hrun
    exact ⟨inTransit_of_idle hidle log, inFlight_of_idle hidle log, line_of_idle hidle _ log⟩
  have hnowrite (hachieving : m.achieving? relay.handle = none) : m.entering? log = none := by
    by_contra hsome
    obtain ⟨change, hentering⟩ := Option.ne_none_iff_exists'.mp hsome
    obtain ⟨p, hp, hplog, w, operation, -, -, hwrites⟩ := entering?_eq_some hentering
    rw [hnames p hp hplog, hachieving] at hwrites
    contradiction
  cases haffects with
  | spares hachieving hchanging hentries howed =>
      have hentering := hnowrite hachieving
      have hflag : overtakes relay log key flag m = flag := by
        simp [overtakes, hentering, hchanging]
      rw [howed, hentering, List.nil_append, Option.toList_none, List.append_nil] at hline
      rw [hflag]
      refine ⟨fun hfresh => ?_, fun hovertaken => hline ▸ h.commits hovertaken⟩
      rw [Agrees, hline, hentries]
      exact h.agrees hfresh
  | writes hrun hachieving hentries =>
      obtain ⟨change, hentering⟩ := Option.isSome_iff_exists.mp (hrelayed (by simp [hachieving]))
      obtain ⟨p, hp, hplog, w, operation, rfl, hoperation, hwrites⟩ := entering?_eq_some hentering
      rw [hnames p hp hplog, hachieving] at hwrites
      cases hwrites
      obtain ⟨hnone, hnone', hbefore⟩ := hquiet hrun
      have hflag : overtakes relay log key flag m = (flag && !decide (w.key = key)) := by
        simp [overtakes, hentering, isAbout, Change.key?]
      rw [owed_of_achieving hsole hoccurring hachieving, hentering, hnone, hnone',
        List.append_nil, List.append_nil, ← hbefore] at hline
      rw [hflag]
      exact h.writes hsorted hoperation hline hentries
  | @hears step event hrun hachieving hchanging hentries hsome howed =>
      have hentering := hnowrite hachieving
      obtain ⟨hnone, hnone', hbefore⟩ := hquiet hrun
      rw [hentering, hnone, hnone', Option.toList_none, List.append_nil, List.append_nil,
        List.append_nil] at hline
      have hhears := h.hears hbefore
        (fun change hchange => isCommitted_of_mem_noticesFor hchange) hline hsorted howed hsome
        hentries
      simpa only [overtakes, hentering, hchanging, Option.any_some, changesEntry] using hhears

/-! ## Every course -/

theorem shared_playAll (moves : List (Move V)) {queue log : Nat}
    (hnames : ∀ m ∈ Machine.idle.history moves, ∀ p ∈ m.system.relayNames,
      p.2.listener = .log log → p.2.queue = queue) :
    (Machine.idle.playAll moves).Shared queue log := by
  revert hnames
  apply orderly_induction (P := fun past m =>
    (∀ x ∈ past, ∀ p ∈ x.system.relayNames, p.2.listener = .log log → p.2.queue = queue) →
      m.Shared queue log)
  · exact fun _ => (ledger_idle queue log).shared
  · exact fun past m step h hstack hpast => ⟨by simp [start], (h hpast).others⟩
  · intro past m runner old left stack h hstack hpast
    refine ⟨fun relay w stored hmem => (h hpast).writing relay w stored ?_, (h hpast).others⟩
    simpa [hstack] using hmem
  · intro past m horderly h hpast
    have hbefore := h fun x hx => hpast x (List.mem_append_left _ hx)
    exact horderly.shared hbefore (hpast m (List.mem_append_right _ List.mem_cons_self))

/--
In an ordinary session a tab has one relay for a log, whose queue and area are not
shared with other relays that tell the log.  It listens, and what the tab does
with the area it does through the relay.  When no step is in progress and no notice
is left in the queue, the last notice about a key says what the area has, unless
another tab changed the entry when a notice of a write to the key was still in the
queue, and since then the tab has not written the key, and no event about it has come
when no such notice was in the queue.  Then the last notice is of a write.
-/
theorem last_notice_agrees (before later : List (Move V)) (sub : Subscription) (relay : Relay)
    (log : Nat) (key : String)
    (hordinary : ∀ m ∈ Machine.idle.history (before ++ later), m.isOrdinary)
    (hlistening : (sub, relay) ∈ listenings (Machine.idle.history before))
    (hkept : sub ∉ dropped (Machine.idle.history (before ++ later)))
    (hlog : relay.listener = .log log)
    (hsole : ∀ m ∈ Machine.idle.history (before ++ later), ∀ p ∈ m.system.relayNames,
      p.2.listener = .log log → p.2.handle = relay.handle ∧ p.2.queue = relay.queue)
    (hedits : ∀ x ∈ (Machine.idle.playAll before).history later, x.editsLog = false)
    (hdispatch : ∀ x ∈ (Machine.idle.playAll before).history later,
      x.raising?.map (·.2) ≠ some (relay.handle.area, none))
    (hrelayed : ∀ x ∈ (Machine.idle.playAll before).history later,
      (x.achieving? relay.handle).isSome → (x.entering? log).isSome)
    (hstart : (Machine.idle.playAll before).stack = [] ∧
      (Machine.idle.playAll before).system.log log = [] ∧
      noticesFor log ((Machine.idle.playAll before).system.queue relay.queue) = [])
    (hend : (Machine.idle.playAll (before ++ later)).stack = [] ∧
      noticesFor log ((Machine.idle.playAll (before ++ later)).system.queue relay.queue) = []) :
    (overtaken relay log key ((Machine.idle.playAll before).history later) = false →
      LastSays key ((Machine.idle.playAll (before ++ later)).system.log log)
        (((Machine.idle.playAll (before ++ later)).system.area relay.handle.area).get? key)) ∧
    (overtaken relay log key ((Machine.idle.playAll before).history later) = true →
      LastCommits key ((Machine.idle.playAll (before ++ later)).system.log log)) := by
  have hcourse := later_induction before
    (Q := fun m => m.isOrdinary ∧ m.dropping? ≠ some sub ∧ ∀ p ∈ m.system.relayNames,
      p.2.listener = .log log → p.2.handle = relay.handle ∧ p.2.queue = relay.queue)
    (R := fun m => m.editsLog = false ∧
      m.raising?.map (·.2) ≠ some (relay.handle.area, none) ∧
        ((m.achieving? relay.handle).isSome → (m.entering? log).isSome))
    (P := fun during m => m.Failing log ∧
      Tracks relay log key (overtaken relay log key during) m)
    ?_ ?_ ?_ ?_ later ?_ ?_
  · obtain ⟨hagrees, hcommits⟩ := hcourse.2
    rw [Agrees, line_of_idle hend.1, hend.2, List.append_nil] at hagrees
    rw [line_of_idle hend.1, hend.2, List.append_nil] at hcommits
    exact ⟨hagrees, hcommits⟩
  · refine ⟨fun e he => by rw [hstart.1]; rfl, fun _ => ?_, by simp [overtaken]⟩
    rw [Agrees, line_of_idle hstart.1, hstart.2.1, hstart.2.2]
    simp [LastSays]
  · rintro during m step ⟨hfailing, h⟩
    exact ⟨(writes_begin m step log).2 hfailing, h.of_line
      (by rw [line, line, inTransit_begin, system_begin, (writes_begin m step log).1])
      (system_begin m step)⟩
  · rintro during m left ⟨hfailing, h⟩
    exact ⟨(writes_decide m left log).2 hfailing, h.of_line
      (by rw [line, line, inTransit_decide, system_decide, (writes_decide m left log).1])
      (system_decide m left)⟩
  · rintro later during hpast ⟨hnext, -, hnames⟩ ⟨hunedited, hdispatched, hthrough⟩ ⟨hfailing, h⟩
    have hpastOrdinary := fun m hm => (hpast m hm).1
    have hmachine := ordinary_playAll (before ++ later) hpastOrdinary
    refine ⟨(hmachine.writes (orderly_playAll _) hfailing).2, ?_⟩
    rw [overtaken, List.foldl_append]
    refine Tracks.advance h hpastOrdinary hnext (mem_listenings_of_before hlistening)
      (not_mem_dropped.mpr fun m hm => (hpast m hm).2.1) hlog ?_
      (fun p hp hplog => (hnames p hp hplog).1) ?_ hunedited hdispatched hthrough hfailing
    · intro p hp hplog
      obtain ⟨m, hm, q, hq, hsame⟩ := named_of_mem_listenings hp
      rw [← hsame] at hplog ⊢
      exact ((hpast m hm).2.2 q hq hplog).1
    · exact shared_playAll _ fun m hm p hp hplog => ((hpast m hm).2.2 p hp hplog).2
  · exact fun m hm => ⟨hordinary m hm, not_mem_dropped.mp hkept m hm, hsole m hm⟩
  · exact fun m hm => ⟨hedits m hm, hdispatch m hm, hrelayed m hm⟩

def relayedTabs : List (Move Draft) :=
  inTurn [(.new "a" .localArea, 1), (.openTab "b" "a", 1), (.newLog "l", 1), (.newLog "m", 1),
    (.newQueue "q", 1), (.newQueue "p", 1), (.relayToLog "r" "a" "q" "l", 1),
    (.relayToLog "s" "b" "p" "m", 1), (.listen "r" "x", 2), (.listen "s" "y", 2)]

/-- The other tab removes the key before the queue is drained, and the tab writes it again. -/
def rewrittenKey : List (Move Draft) :=
  inTurn [(.write "r" (.store "k" (.json (.bool true))), 9), (.write "s" (.remove "k"), 9),
    (.write "r" (.store "k" (.json (.bool true))), 9), (.runPending "q", 3), (.runPending "p", 2)]

theorem rewritten_key_agrees :
    let m := Machine.idle.playAll (relayedTabs ++ rewrittenKey)
    m.system.log 0 = [.external (some "k") none, .committed "k" (some (.json (.bool true))),
      .committed "k" (some (.json (.bool true)))] ∧
    (m.system.area 0).get? "k" = some "true" ∧
    overtaken ⟨⟨0, 0⟩, 0, .log 0⟩ 0 "k" ((Machine.idle.playAll relayedTabs).history rewrittenKey) =
      false ∧
    LastSays "k" (m.system.log 0) ((m.system.area 0).get? "k") := by
  have hfresh : overtaken ⟨⟨0, 0⟩, 0, .log 0⟩ 0 "k"
      ((Machine.idle.playAll relayedTabs).history rewrittenKey) = false := by decide +kernel
  refine ⟨by decide +kernel, by decide +kernel, hfresh, ?_⟩
  exact (last_notice_agrees relayedTabs rewrittenKey ⟨0, 0⟩ ⟨⟨0, 0⟩, 0, .log 0⟩ 0 "k"
    (by decide +kernel) (by decide +kernel) (by decide +kernel) rfl (by decide +kernel)
    (by decide +kernel) (by decide +kernel) (by decide +kernel) (by decide +kernel)
    (by decide +kernel)).1 hfresh

/-- The other tab removes the key before the queue is drained. -/
def overtakenWrite : List (Move Draft) :=
  inTurn [(.write "r" (.store "k" (.json (.bool true))), 9), (.write "s" (.remove "k"), 9),
    (.runPending "q", 2), (.runPending "p", 2)]

theorem overtaken_write_is_told_last :
    let m := Machine.idle.playAll (relayedTabs ++ overtakenWrite)
    m.answer? = some (.count 1) ∧ m.system.queues.map List.length = [0, 0] ∧
      m.system.log 0 = [.external (some "k") none, .committed "k" (some (.json (.bool true)))] ∧
      ¬ LastSays "k" (m.system.log 0) ((m.system.area 0).get? "k") := by
  intro m
  have hlog : m.system.log 0 =
      [.external (some "k") none, .committed "k" (some (.json (.bool true)))] := by decide +kernel
  have htext : (m.system.area 0).get? "k" = none := by decide +kernel
  refine ⟨by decide +kernel, by decide +kernel, hlog, fun hlast => ?_⟩
  rw [hlog, htext] at hlast
  have hsaid := hlast (.committed "k" (some (.json (.bool true)))) rfl
  contradiction

end Machine

end Session

end TabRelay
