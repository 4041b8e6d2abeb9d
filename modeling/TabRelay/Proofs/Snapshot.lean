import TabRelay.Proofs.Text.Keyed
import TabRelay.Snapshot

/-!
# Reading a snapshot from any service

A service answers each query with a value, with nothing or with an error, and its
answers need not agree: there may be fewer keys than the length says, a key may be
at several indices, and a text may be missing.  A reading asks for the length, makes
room for so many entries and then asks index by index.  It ends with the first query
that fails, and without an answer if there is no room.
-/

namespace TabRelay

inductive Query where
  | length
  | key (index : Nat)
  | get (key : String)
  deriving DecidableEq, Repr

namespace Service

variable {ε : Type}

/-- Queries are recorded.  A reading gives a result or an error, or it ends without either. -/
abbrev Reading (ε : Type) := ExceptT ε (OptionT (StateM (List Query)))

def recorded {α : Type} (query : Query) (answer : Except ε α) : Reading ε α :=
  ExceptT.mk do
    modify (· ++ [query])
    return answer

def recording (service : Service (Except ε)) : Service (Reading ε) where
  length := recorded .length service.length
  key index := recorded (.key index) (service.key index)
  get key := recorded (.get key) (service.get key)

def reserve (memory : Memory) (count : Nat) : Reading ε Unit :=
  if memory.holds count then pure () else ExceptT.lift failure

def reading (memory : Memory) (service : Service (Except ε)) :
    Option (Except ε Snapshot) × List Query :=
  (Snapshot.readReserving (reserve memory) service.recording).run.run.run []

variable (service : Service (Except ε))

@[simp] theorem recording_length :
    service.recording.length = recorded .length service.length := rfl

@[simp] theorem recording_key (index : Nat) :
    service.recording.key index = recorded (.key index) (service.key index) := rfl

@[simp] theorem recording_get (key : String) :
    service.recording.get key = recorded (.get key) (service.get key) := rfl

/-! ## What is asked, and what is found -/

def errorOf? {α : Type} : Except ε α → Option ε
  | .error e => some e
  | .ok _ => none

def failure? : Query → Option ε
  | .length => errorOf? service.length
  | .key index => errorOf? (service.key index)
  | .get key => errorOf? (service.get key)

def queriesAt (index : Nat) : List Query :=
  .key index :: match service.key index with
    | .ok (some key) => [.get key]
    | _ => []

def queriesFrom (index count : Nat) : List Query :=
  (List.range' index count).flatMap service.queriesAt

def queries : List Query :=
  .length :: match service.length with
    | .ok count => service.queriesFrom 0 count
    | .error _ => []

def untilFailure : List Query → List Query
  | [] => []
  | query :: rest =>
      match service.failure? query with
      | none => query :: untilFailure rest
      | some _ => [query]

def entryAt? (index : Nat) : Option (String × String) :=
  match service.key index with
  | .ok (some key) => match service.get key with
    | .ok (some text) => some (key, text)
    | _ => none
  | _ => none

def foundFrom (index count : Nat) : List (String × String) :=
  (List.range' index count).filterMap service.entryAt?

theorem entryAt?_eq_some_iff {index : Nat} {key text : String} :
    service.entryAt? index = some (key, text) ↔
      service.key index = .ok (some key) ∧ service.get key = .ok (some text) := by
  constructor
  · intro h
    unfold entryAt? at h
    split at h
    · rename_i hkey
      split at h
      · rename_i hget
        cases h
        exact ⟨hkey, hget⟩
      · contradiction
    · contradiction
  · rintro ⟨hkey, hget⟩
    simp only [entryAt?, hkey, hget]

theorem mem_foundFrom_iff {index count : Nat} {key text : String} :
    (key, text) ∈ service.foundFrom index count ↔
      ∃ i, index ≤ i ∧ i < index + count ∧
        service.key i = .ok (some key) ∧ service.get key = .ok (some text) := by
  simp only [foundFrom, List.mem_filterMap, List.mem_range'_1, entryAt?_eq_some_iff, and_assoc]

theorem errorOf?_eq_none_iff {α : Type} {answer : Except ε α} :
    errorOf? answer = none ↔ ∃ a, answer = .ok a := by
  cases answer <;> simp [errorOf?]

theorem queriesAt_sound_iff {index : Nat} :
    (∀ query ∈ service.queriesAt index, service.failure? query = none) ↔
      ∃ key?, service.key index = .ok key? ∧
        ∀ key, key? = some key → ∃ text?, service.get key = .ok text? := by
  rw [queriesAt, List.forall_mem_cons, failure?, errorOf?_eq_none_iff]
  rcases service.key index with e | _ | key
  · simp
  · simp
  · simp [failure?, errorOf?_eq_none_iff]

theorem queries_sound_iff :
    (∀ query ∈ service.queries, service.failure? query = none) ↔
      ∃ count, service.length = .ok count ∧
        ∀ index < count, ∃ key?, service.key index = .ok key? ∧
          ∀ key, key? = some key → ∃ text?, service.get key = .ok text? := by
  rw [queries, List.forall_mem_cons, failure?, errorOf?_eq_none_iff]
  cases service.length with
  | error e => simp
  | ok count =>
      simp only [Except.ok.injEq, exists_eq', true_and, exists_eq_left', queriesFrom,
        List.mem_flatMap, List.mem_range'_1, ← queriesAt_sound_iff]
      constructor
      · exact fun h index hindex query hquery =>
          h query ⟨index, ⟨Nat.zero_le _, by omega⟩, hquery⟩
      · rintro h query ⟨index, ⟨-, hindex⟩, hquery⟩
        exact h index (by omega) query hquery

@[simp] theorem untilFailure_nil : service.untilFailure [] = [] := rfl

theorem untilFailure_cons_of_none {query : Query} (h : service.failure? query = none)
    (rest : List Query) :
    service.untilFailure (query :: rest) = query :: service.untilFailure rest := by
  rw [untilFailure, h]

theorem untilFailure_cons_of_some {query : Query} {e : ε} (h : service.failure? query = some e)
    (rest : List Query) : service.untilFailure (query :: rest) = [query] := by
  rw [untilFailure, h]

theorem untilFailure_eq_self {asked : List Query}
    (h : ∀ query ∈ asked, service.failure? query = none) : service.untilFailure asked = asked := by
  induction asked with
  | nil => rfl
  | cons query asked ih =>
      rw [service.untilFailure_cons_of_none (h query List.mem_cons_self),
        ih fun q hq => h q (List.mem_cons_of_mem _ hq)]

theorem untilFailure_of_failure {before after : List Query} {query : Query} {e : ε}
    (hbefore : ∀ q ∈ before, service.failure? q = none) (hquery : service.failure? query = some e) :
    service.untilFailure (before ++ query :: after) = before ++ [query] := by
  induction before with
  | nil => exact service.untilFailure_cons_of_some hquery after
  | cons q before ih =>
      rw [List.cons_append, service.untilFailure_cons_of_none (hbefore q List.mem_cons_self),
        ih fun p hp => hbefore p (List.mem_cons_of_mem _ hp), List.cons_append]

/-! ## What a reading does -/

theorem run_recorded_bind {α β : Type} (query : Query) (answer : Except ε α)
    (next : α → Reading ε β) (made : List Query) :
    (recorded query answer >>= next).run.run.run made =
      match answer with
      | .error e => (some (.error e), made ++ [query])
      | .ok a => (next a).run.run.run (made ++ [query]) := by
  cases answer <;> rfl

theorem run_reserve_bind {α : Type} (memory : Memory) (count : Nat) (next : Unit → Reading ε α)
    (made : List Query) :
    (reserve memory count >>= next).run.run.run made =
      if memory.holds count then (next ()).run.run.run made else (none, made) := by
  unfold reserve
  split <;> rfl

/-- The outcome of asking all these queries: the first failure, if there is one. -/
def outcome (asked : List Query) (entries : Snapshot) : Except ε Snapshot :=
  match asked.findSome? service.failure? with
  | some e => .error e
  | none => .ok entries

@[simp] theorem outcome_nil (entries : Snapshot) : service.outcome [] entries = .ok entries := rfl

theorem outcome_cons_of_none {query : Query} (h : service.failure? query = none)
    (rest : List Query) (entries : Snapshot) :
    service.outcome (query :: rest) entries = service.outcome rest entries := by
  rw [outcome, List.findSome?_cons, h]
  rfl

theorem outcome_cons_of_some {query : Query} {e : ε} (h : service.failure? query = some e)
    (rest : List Query) (entries : Snapshot) :
    service.outcome (query :: rest) entries = .error e := by
  rw [outcome, List.findSome?_cons, h]

def setAll (entries : Snapshot) (pairs : List (String × String)) : Snapshot :=
  pairs.foldl (fun entries (key, text) => Keyed.insert key text entries) entries

theorem foundFrom_succ (index count : Nat) :
    service.foundFrom index (count + 1) =
      (service.entryAt? index).toList ++ service.foundFrom (index + 1) count := by
  rw [foundFrom, List.range'_succ, List.filterMap_cons]
  cases service.entryAt? index <;> rfl

theorem queriesFrom_succ (index count : Nat) :
    service.queriesFrom index (count + 1) =
      service.queriesAt index ++ service.queriesFrom (index + 1) count :=
  rfl

theorem run_collect (index count : Nat) (entries : Snapshot) (made : List Query) :
    (Snapshot.collect service.recording index count entries).run.run.run made =
      (some (service.outcome (service.queriesFrom index count)
          (setAll entries (service.foundFrom index count))),
        made ++ service.untilFailure (service.queriesFrom index count)) := by
  induction count generalizing index entries made with
  | zero =>
      simp only [queriesFrom, List.range'_zero, List.flatMap_nil, untilFailure_nil, outcome_nil,
        List.append_nil]
      rfl
  | succ count ih =>
      rw [queriesFrom_succ, foundFrom_succ, queriesAt, entryAt?, Snapshot.collect, recording_key,
        run_recorded_bind]
      rcases hkey : service.key index with e | _ | key
      · have hfail : service.failure? (.key index) = some e := by rw [failure?, hkey]; rfl
        simp only [List.cons_append, service.outcome_cons_of_some hfail,
          service.untilFailure_cons_of_some hfail]
      · have hpass : service.failure? (.key index) = none := by rw [failure?, hkey]; rfl
        simp only [List.cons_append, List.nil_append, Option.toList_none,
          service.outcome_cons_of_none hpass, service.untilFailure_cons_of_none hpass]
        rw [ih, List.append_assoc]
        rfl
      · have hpass : service.failure? (.key index) = none := by rw [failure?, hkey]; rfl
        simp only [List.cons_append, List.nil_append, service.outcome_cons_of_none hpass,
          service.untilFailure_cons_of_none hpass, recording_get, run_recorded_bind]
        rcases hget : service.get key with e | _ | text
        · have hfail : service.failure? (.get key) = some e := by rw [failure?, hget]; rfl
          simp only [service.outcome_cons_of_some hfail, service.untilFailure_cons_of_some hfail,
            List.append_assoc, List.cons_append, List.nil_append]
        all_goals
          have hpass : service.failure? (.get key) = none := by rw [failure?, hget]; rfl
          simp only [service.outcome_cons_of_none hpass, service.untilFailure_cons_of_none hpass]
          rw [ih, List.append_assoc, List.append_assoc]
          rfl

def found : List (String × String) :=
  match service.length with
  | .ok count => service.foundFrom 0 count
  | .error _ => []

def hasRoom (memory : Memory) : Prop := ∀ count, service.length = .ok count → memory.holds count

theorem reading_of_room {memory : Memory} (h : service.hasRoom memory) :
    service.reading memory =
      (some (service.outcome service.queries (Keyed.ofPairs service.found)),
        service.untilFailure service.queries) := by
  rw [reading, Snapshot.readReserving, recording_length, run_recorded_bind, queries, found]
  cases hlength : service.length with
  | error e =>
      have hfail : service.failure? .length = some e := by rw [failure?, hlength]; rfl
      rw [service.untilFailure_cons_of_some hfail, service.outcome_cons_of_some hfail]
      rfl
  | ok count =>
      have hpass : service.failure? .length = none := by rw [failure?, hlength]; rfl
      simp only [run_reserve_bind, if_pos (h count hlength), run_collect,
        service.untilFailure_cons_of_none hpass, service.outcome_cons_of_none hpass]
      rfl

theorem reading_of_no_room {memory : Memory} {count : Nat} (hlength : service.length = .ok count)
    (hroom : memory.holds count = false) : service.reading memory = (none, [.length]) := by
  rw [reading, Snapshot.readReserving, recording_length, run_recorded_bind, hlength]
  simp only [run_reserve_bind, hroom]
  rfl

theorem outcome_eq_ok_iff {asked : List Query} {entries read : Snapshot} :
    service.outcome asked entries = .ok read ↔
      (∀ query ∈ asked, service.failure? query = none) ∧ entries = read := by
  rw [← List.findSome?_eq_none_iff, outcome]
  cases asked.findSome? service.failure? <;> simp

theorem outcome_eq_error_iff {asked : List Query} {entries : Snapshot} {e : ε} :
    service.outcome asked entries = .error e ↔
      ∃ before query after, asked = before ++ query :: after ∧
        service.failure? query = some e ∧ ∀ q ∈ before, service.failure? q = none := by
  rw [← List.findSome?_eq_some_iff, outcome]
  cases asked.findSome? service.failure? <;> simp

theorem mem_found_iff {key text : String} :
    (key, text) ∈ service.found ↔
      ∃ count index, service.length = .ok count ∧ index < count ∧
        service.key index = .ok (some key) ∧ service.get key = .ok (some text) := by
  rw [found]
  cases service.length with
  | error e => simp
  | ok count => simp [mem_foundFrom_iff]

theorem found_functional {p q : String × String} (hp : p ∈ service.found) (hq : q ∈ service.found)
    (hkey : p.1 = q.1) : p.2 = q.2 := by
  obtain ⟨-, -, -, -, -, hptext⟩ := service.mem_found_iff.mp hp
  obtain ⟨-, -, -, -, -, hqtext⟩ := service.mem_found_iff.mp hq
  rw [hkey, hqtext] at hptext
  exact (Option.some.inj (Except.ok.inj hptext)).symm

theorem hasRoom_or (memory : Memory) : service.hasRoom memory ∨
    ∃ count, service.length = .ok count ∧ memory.holds count = false := by
  by_cases h : service.hasRoom memory
  · exact .inl h
  · exact .inr (by simpa [hasRoom] using h)

/-- A reading gives the texts of all the keys it is told, unless a query fails: it then gives
that query's error, and asks nothing after it.  Without room for the entries it gives neither,
and asks for the length only. -/
theorem read_until_failure (memory : Memory) :
    ∃ answer asked, service.reading memory = (answer, asked) ∧
      ((∃ entries, answer = some (.ok entries)) ↔
        ∃ count, service.length = .ok count ∧ memory.holds count ∧
          ∀ index < count, ∃ key?, service.key index = .ok key? ∧
            ∀ key, key? = some key → ∃ text?, service.get key = .ok text?) ∧
      (∀ entries, answer = some (.ok entries) →
        asked = service.queries ∧ Keyed.Sorted entries ∧
        ∀ key text, Keyed.lookup? key entries = some text ↔
          ∃ count index, service.length = .ok count ∧ index < count ∧
            service.key index = .ok (some key) ∧ service.get key = .ok (some text)) ∧
      (∀ e, answer = some (.error e) ↔
        service.hasRoom memory ∧
        ∃ before query after, service.queries = before ++ query :: after ∧
          service.failure? query = some e ∧ (∀ q ∈ before, service.failure? q = none) ∧
          asked = before ++ [query]) ∧
      (answer = none ↔ ∃ count, service.length = .ok count ∧ memory.holds count = false) ∧
      (answer = none → asked = [.length]) := by
  rcases service.hasRoom_or memory with hroom | ⟨count, hlength, hroom⟩
  · refine ⟨_, _, service.reading_of_room hroom, ?_, fun entries hread => ?_, fun e => ?_, ?_,
      by simp⟩
    · simp only [Option.some.injEq, outcome_eq_ok_iff, exists_and_left, exists_eq', and_true,
        queries_sound_iff]
      refine exists_congr fun count => and_congr_right fun hlength => ?_
      exact (and_iff_right (hroom count hlength)).symm
    · obtain ⟨hsound, rfl⟩ := service.outcome_eq_ok_iff.mp (Option.some.inj hread)
      refine ⟨service.untilFailure_eq_self hsound, Keyed.sorted_ofPairs _, fun key text => ?_⟩
      rw [Keyed.lookup?_ofPairs_eq_some_iff fun p hp q hq => service.found_functional hp hq,
        mem_found_iff]
    · rw [Option.some.injEq, outcome_eq_error_iff, and_iff_right hroom]
      constructor
      · rintro ⟨before, query, after, hqueries, hquery, hbefore⟩
        refine ⟨before, query, after, hqueries, hquery, hbefore, ?_⟩
        rw [hqueries]
        exact service.untilFailure_of_failure hbefore hquery
      · rintro ⟨before, query, after, hqueries, hquery, hbefore, -⟩
        exact ⟨before, query, after, hqueries, hquery, hbefore⟩
    · simp only [reduceCtorEq, false_iff, not_exists, not_and, Bool.not_eq_false]
      exact hroom
  · refine ⟨_, _, service.reading_of_no_room hlength hroom, ?_, by simp, ?_, ?_, by simp⟩
    · simp [hlength, hroom]
    · intro e
      simp only [reduceCtorEq, false_iff, not_and]
      intro hholds
      simp [hholds count hlength] at hroom
    · simp [hlength, hroom]

/-- A service that says it has more keys than any table holds, and has none. -/
def overstated : Service (Except String) where
  length := .ok (Nat.pow 2 32 - 1)
  key _ := .ok none
  get _ := .ok none

/-- No query fails, and the reading ends without an answer, in a page and where words have 64
bits and a block has no more than 256 GiB. -/
theorem overstated_length_has_no_answer :
    (∃ count, overstated.length = .ok count ∧
      ∀ index < count, overstated.key index = .ok none) ∧
    overstated.reading .page = (none, [.length]) ∧
    overstated.reading ⟨8, Nat.pow 2 38⟩ = (none, [.length]) :=
  ⟨⟨Nat.pow 2 32 - 1, rfl, fun _ _ => rfl⟩, overstated.reading_of_no_room rfl (by decide),
    overstated.reading_of_no_room rfl (by decide)⟩

end Service

end TabRelay
