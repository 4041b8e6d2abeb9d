import TabRelay.Proofs.Session.Forwarding
import TabRelay.Proofs.Session.Observing

/-!
# A copy of an area kept by notices

A tab that listens and then reads a snapshot can keep a copy of the area: it makes
its own changes in the copy as well, and it makes those of other tabs as its log
tells them.  When no step is in progress the copy is what a new snapshot reads.
-/

namespace TabRelay

open TabRelay.Storage

/-! ## Snapshots are exact -/

theorem Snapshot.collect_eq {items : Keyed String} (h : Keyed.Sorted items)
    {service : Service (Except AreaError)}
    (hkey : ∀ index, service.key index = .ok (items[index]?.map (·.1)))
    (hget : ∀ key, service.get key = .ok (Keyed.lookup? key items))
    (count index : Nat) (hcount : index + count = items.length) :
    collect service index count (items.take index) = .ok items := by
  induction count generalizing index with
  | zero =>
      rw [List.take_of_length_le (by omega)]
      rfl
  | succ count ih =>
      have hindex : index < items.length := by omega
      have hlast : ∀ p ∈ items.take index, p.1 < items[index].1 := by
        intro p hp
        obtain ⟨j, hj, rfl⟩ := List.mem_take_iff_getElem.mp hp
        exact List.pairwise_iff_getElem.mp h j index _ hindex (by omega)
      have hnext : Keyed.insert items[index].1 items[index].2 (items.take index) =
          items.take (index + 1) := by
        rw [Keyed.insert_last _ hlast]
        exact List.take_append_getElem hindex
      have hlookup : Keyed.lookup? items[index].1 items = some items[index].2 :=
        Keyed.lookup?_of_mem h (List.getElem_mem hindex)
      simp only [collect, hkey, hget, List.getElem?_eq_getElem hindex, Option.map_some, hlookup,
        hnext, bind, Except.bind]
      exact ih (index + 1) (by omega)

theorem Snapshot.read_eq {items : Keyed String} (h : Keyed.Sorted items)
    {service : Service (Except AreaError)} (hlength : service.length = .ok items.length)
    (hkey : ∀ index, service.key index = .ok (items[index]?.map (·.1)))
    (hget : ∀ key, service.get key = .ok (Keyed.lookup? key items)) :
    read service = .ok items := by
  rw [read, readReserving, hlength]
  exact collect_eq h hkey hget items.length 0 (Nat.zero_add _)

namespace Session

variable {V : Type}

namespace Machine

theorem snapshot_eq {m : Machine V} {h : Handle} (hfaults : m.system.faultsOf h = {})
    (hsorted : Keyed.Sorted (m.system.area h.area).entries)
    (hsize : (m.system.area h.area).entries.length < 2 ^ 32) :
    Snapshot.read (m.service h) = .ok (m.system.area h.area).entries := by
  have hlength : (m.system.area h.area).length = (m.system.area h.area).entries.length :=
    Nat.mod_eq_of_lt hsize
  have hservice := service_reads hfaults
  refine Snapshot.read_eq hsorted ?_ (fun index => ?_) fun key => ?_
  · rw [hservice, ← hlength]
  · rw [hservice]
    rfl
  · rw [hservice]
    rfl

end Machine

end Session

/-! ## The copy -/

/-- The copy after a notice.  The tab has made its own writes in the copy already. -/
def Change.applyTo {V : Type} (copy : Snapshot) : Change V → Snapshot
  | .committed _ _ => copy
  | .external key newText => retold key newText copy

namespace Session

variable {V : Type}

theorem foldl_applyTo_filter (changes : List (Change V)) (copy : Snapshot) :
    (changes.filter (!·.isCommitted)).foldl Change.applyTo copy =
      changes.foldl Change.applyTo copy := by
  induction changes generalizing copy with
  | nil => rfl
  | cons change changes ih =>
      cases change with
      | committed key value => exact ih copy
      | external key newText => exact ih (retold key newText copy)

theorem foldl_applyTo_same {copy : Snapshot} (h : Keyed.Sorted copy) {key newText : Option String}
    {changes : List (Change V)} (hsame : ∀ change ∈ changes, change = .external key newText) :
    changes.foldl Change.applyTo (retold key newText copy) = retold key newText copy := by
  induction changes with
  | nil => rfl
  | cons change changes ih =>
      cases hsame change List.mem_cons_self
      have hrest := ih fun change hchange => hsame change (List.mem_cons_of_mem _ hchange)
      rw [List.foldl_cons, Change.applyTo, retold_retold h, hrest]

theorem foldl_applyTo_all {copy : Snapshot} (h : Keyed.Sorted copy) {key newText : Option String}
    {changes : List (Change V)} (hsome : changes ≠ [])
    (hsame : ∀ change ∈ changes, change = .external key newText) :
    changes.foldl Change.applyTo copy = retold key newText copy := by
  obtain ⟨change, rest, rfl⟩ := List.exists_cons_of_ne_nil hsome
  cases hsame change List.mem_cons_self
  exact foldl_applyTo_same h fun change hchange => hsame change (List.mem_cons_of_mem _ hchange)

namespace Machine

variable [Storable V]

/-- The operation that the next step makes through the handle, if the area does it. -/
def achieving? (handle : Handle) (m : Machine V) : Option Operation :=
  (m.invocation?.filter fun call => call.handle = handle ∧
    ((m.system.area call.handle.area).perform call.operation).reply = .done).map (·.operation)

/-- The copy after the next step: the tab makes its own operation, and then what its log
is told. -/
def mirror (handle : Handle) (log : Nat) (copy : Snapshot) (m : Machine V) : Snapshot :=
  (m.arriving log).foldl Change.applyTo
    (match m.achieving? handle with
    | none => copy
    | some operation => operation.applyTo copy)

theorem Orderly.achieves {m : Machine V} (h : m.Orderly) (hgrounded : Grounded m.system)
    {handle : Handle} {operation : Operation} (hachieving : m.achieving? handle = some operation) :
    (m.advance.system.area handle.area).entries =
      operation.applyTo (m.system.area handle.area).entries := by
  obtain ⟨call, hfilter, rfl⟩ := Option.map_eq_some_iff.mp hachieving
  obtain ⟨hcall, hown⟩ := Option.filter_eq_some_iff.mp hfilter
  obtain ⟨rfl, hdone⟩ : call.handle = handle ∧
      ((m.system.area call.handle.area).perform call.operation).reply = .done := by
    simpa using hown
  obtain ⟨step, waiting, trace, hrun, hasked, hwaiting, hadvance⟩ := h.operates hcall
  have hsystem : m.advance.system = m.system.setArea call.handle.area
      ((m.system.area call.handle.area).perform call.operation).area := by
    rw [hadvance]
    rfl
  rw [hsystem, System.area_setArea_self _ (hgrounded.called hcall)]
  exact Area.applyTo_of_done hdone

theorem achieving?_of_changing {m : Machine V} {handle : Handle} {event : Event}
    (hraising : m.raising? = some (event, handle.area, some handle.tab)) :
    ∃ operation, m.achieving? handle = some operation := by
  unfold raising? at hraising
  split at hraising
  · obtain ⟨h, hname, hsame⟩ := Option.map_eq_some_iff.mp hraising
    simp at hsame
  · obtain ⟨call, hcall, hmap⟩ := Option.bind_eq_some_iff.mp hraising
    obtain ⟨raised, hraised, hsame⟩ := Option.map_eq_some_iff.mp hmap
    obtain ⟨rfl, htab⟩ : raised = event ∧ call.handle.area = handle.area ∧
        call.handle.tab = handle.tab := by simpa using hsame
    have hhandle : call.handle = handle := by
      cases hcase : call.handle
      cases handle
      simpa [hcase] using htab
    subst hhandle
    exact ⟨call.operation, by simp [achieving?, hcall, Option.filter, reply_of_raised hraised]⟩
  · contradiction

theorem run_of_achieving {m : Machine V} {handle : Handle} {operation : Operation}
    (hachieving : m.achieving? handle = some operation) : ∃ step, m.control = .run step := by
  obtain ⟨call, hfilter, -⟩ := Option.map_eq_some_iff.mp hachieving
  obtain ⟨step, hrun, -⟩ := invocation?_eq_some (Option.filter_eq_some_iff.mp hfilter).1
  exact ⟨step, hrun⟩

/-! ## What is owed for a change -/

theorem changing?_eq_some_iff {m : Machine V} {area : Nat} {event : Event} :
    m.changing? area = some event ↔ ∃ tab, m.raising? = some (event, area, some tab) := by
  unfold changing?
  split
  · rename_i raised i tab hraising
    simp only [hraising, Option.ite_none_right_eq_some, Option.some.injEq, Prod.mk.injEq,
      exists_and_left, exists_eq', and_true]
    exact and_comm
  · rename_i hnone
    simp only [reduceCtorEq, false_iff, not_exists]
    exact fun tab hraising => hnone _ _ _ hraising

theorem kind_of_changing {m : Machine V} {event : Event} {area tab : Nat}
    (hraising : m.raising? = some (event, area, some tab)) :
    event.area = some (m.system.area area).kind := by
  unfold raising? at hraising
  split at hraising
  · obtain ⟨h, hname, hsame⟩ := Option.map_eq_some_iff.mp hraising
    simp at hsame
  · obtain ⟨call, hcall, hmap⟩ := Option.bind_eq_some_iff.mp hraising
    obtain ⟨raised, hraised, hsame⟩ := Option.map_eq_some_iff.mp hmap
    cases hsame
    exact (Area.entries_of_raised hraised).2.2
  · contradiction

theorem owed_same (log : Nat) {past : List (Machine V)} {m : Machine V} {event : Event}
    {origin : Nat × Option Nat} (h : m.occurring? past = some (event, origin)) :
    ∀ change ∈ owed log past m, change = .external event.key event.newText := by
  intro change hchange
  obtain ⟨area, writer⟩ := origin
  rw [owed, h] at hchange
  obtain ⟨⟨sub, relay⟩, -, hnotice⟩ := List.mem_filterMap.mp hchange
  simp only [Option.ite_none_right_eq_some, Option.some.injEq] at hnotice
  exact hnotice.2.symm

theorem owed_of_quiet {log i : Nat} {past : List (Machine V)} {m : Machine V}
    (hoccurring : m.raising? = m.occurring? past)
    (hone : ∀ p ∈ listenings past, p.2.listener = .log log → p.2.handle.area = i)
    (hdispatch : m.raising?.map (·.2) ≠ some (i, none)) (hchanging : m.changing? i = none) :
    owed log past m = [] := by
  rw [owed, ← hoccurring]
  split
  · rfl
  · rename_i event area writer hraising
    refine List.filterMap_eq_nil_iff.mpr fun p hp => if_neg ?_
    rintro ⟨-, hlog, harea, -⟩
    obtain rfl : area = i := harea.symm.trans (hone p hp hlog)
    cases writer with
    | none => exact hdispatch (by rw [hraising]; rfl)
    | some tab =>
        rw [changing?_eq_some_iff.mpr ⟨tab, hraising⟩] at hchanging
        contradiction

theorem owed_ne_nil {log tab : Nat} {past : List (Machine V)} {m : Machine V} {event : Event}
    {sub : Subscription} {relay : Relay}
    (hoccurs : m.occurring? past = some (event, relay.handle.area, some tab))
    (hlistening : (sub, relay) ∈ listenings past) (hkept : sub ∉ dropped past)
    (hlog : relay.listener = .log log) (htab : tab ≠ relay.handle.tab)
    (hkind : event.area = (plainArea past relay.handle.area).map (·.kind)) :
    owed log past m ≠ [] := by
  rw [owed, hoccurs]
  refine List.ne_nil_of_mem (List.mem_filterMap.mpr ⟨(sub, relay), hlistening, if_pos ?_⟩)
  exact ⟨hkept, hlog, rfl, by simpa using htab, hkind⟩

theorem area_lt_of_listening {moves : List (Move V)}
    (hordinary : ∀ m ∈ Machine.idle.history moves, m.isOrdinary) {sub : Subscription}
    {relay : Relay} (hlistening : (sub, relay) ∈ listenings (Machine.idle.history moves)) :
    relay.handle.area < (Machine.idle.playAll moves).system.areas.length := by
  have hmachine := ordinary_playAll moves hordinary
  have hlistens := listens_playAll moves hordinary
  obtain ⟨i, hi, heq⟩ := List.mem_iff_getElem.mp hlistening
  obtain ⟨handler, hhandler, hforward⟩ := (hlistens.get (hlistens.length_eq ▸ hi) hi).handler
  rw [List.get_eq_getElem, heq] at hforward
  obtain ⟨relay', hforward', harea, -⟩ := hmachine.scriptless.forward hhandler
  rw [hforward] at hforward'
  cases hforward'
  exact harea

omit [Storable V] in
theorem not_mem_dropped {past : List (Machine V)} {sub : Subscription} :
    sub ∉ dropped past ↔ ∀ m ∈ past, m.dropping? ≠ some sub := by
  simp [dropped]

theorem mem_listenings_of_before {before later : List (Move V)} {p : Subscription × Relay}
    (h : p ∈ listenings (Machine.idle.history before)) :
    p ∈ listenings (Machine.idle.history (before ++ later)) := by
  rw [history_append, listenings, List.filterMap_append]
  exact List.mem_append_left _ h

/-- What a step does to the area of a relay, and what the log of the relay is owed for it. -/
inductive Affects (relay : Relay) (log : Nat) (past : List (Machine V)) (m : Machine V) : Prop
  | spares (hachieving : m.achieving? relay.handle = none)
      (hchanging : m.changing? relay.handle.area = none)
      (hentries : (m.advance.system.area relay.handle.area).entries =
        (m.system.area relay.handle.area).entries)
      (howed : owed log past m = [])
  | writes {step : Step V} {operation : Operation} (hrun : m.control = .run step)
      (hachieving : m.achieving? relay.handle = some operation)
      (hentries : (m.advance.system.area relay.handle.area).entries =
        operation.applyTo (m.system.area relay.handle.area).entries)
      (howed : (owed log past m).foldl Change.applyTo
          (m.advance.system.area relay.handle.area).entries =
        (m.advance.system.area relay.handle.area).entries)
  | hears {step : Step V} {event : Event} (hrun : m.control = .run step)
      (hachieving : m.achieving? relay.handle = none)
      (hchanging : m.changing? relay.handle.area = some event)
      (hentries : (m.advance.system.area relay.handle.area).entries =
        retold event.key event.newText (m.system.area relay.handle.area).entries)
      (hsome : owed log past m ≠ [])
      (howed : ∀ change ∈ owed log past m, change = .external event.key event.newText)

theorem affects_playAll (moves : List (Move V)) {relay : Relay} {log : Nat} {sub : Subscription}
    (hordinary : ∀ m ∈ Machine.idle.history moves, m.isOrdinary)
    (hlistening : (sub, relay) ∈ listenings (Machine.idle.history moves))
    (hkept : sub ∉ dropped (Machine.idle.history moves)) (hlog : relay.listener = .log log)
    (hone : ∀ p ∈ listenings (Machine.idle.history moves), p.2.listener = .log log →
      p.2.handle.area = relay.handle.area)
    (hdispatch : (Machine.idle.playAll moves).raising?.map (·.2) ≠
      some (relay.handle.area, none)) :
    Affects relay log (Machine.idle.history moves) (Machine.idle.playAll moves) := by
  have hgrounded := (ordinary_playAll moves hordinary).grounded
  have horderly := orderly_playAll moves
  have hoccurring := raising?_eq_occurring? moves
  have hplain := fun i => plainArea_of_lt moves (i := i)
  have harea := area_lt_of_listening hordinary hlistening
  generalize Machine.idle.history moves = past at *
  generalize Machine.idle.playAll moves = m at *
  have hreplays := horderly.replays hgrounded harea
  have howns {operation : Operation} (hachieving : m.achieving? relay.handle = some operation) :=
    horderly.achieves hgrounded hachieving
  cases hchanging : m.changing? relay.handle.area with
  | none =>
      rw [hchanging] at hreplays
      have howed := owed_of_quiet hoccurring hone hdispatch hchanging
      cases hachieving : m.achieving? relay.handle with
      | none => exact .spares hachieving hchanging hreplays.symm howed
      | some operation =>
          obtain ⟨step, hrun⟩ := run_of_achieving hachieving
          refine .writes hrun hachieving (howns hachieving) ?_
          rw [howed]
          rfl
  | some event =>
      obtain ⟨tab, hraising⟩ := changing?_eq_some_iff.mp hchanging
      obtain ⟨step, hrun⟩ := run_of_raising hraising
      have hoccurs := hoccurring.symm.trans hraising
      have hentries : (m.advance.system.area relay.handle.area).entries =
          retold event.key event.newText (m.system.area relay.handle.area).entries := by
        rw [hchanging] at hreplays
        exact hreplays.2.symm
      cases hachieving : m.achieving? relay.handle with
      | some operation =>
          refine .writes hrun hachieving (howns hachieving) ?_
          rw [hentries]
          exact foldl_applyTo_same (hgrounded.sorted_area _) (owed_same log hoccurs)
      | none =>
          have htab : tab ≠ relay.handle.tab := by
            rintro rfl
            obtain ⟨operation, hsome⟩ := achieving?_of_changing hraising
            rw [hachieving] at hsome
            contradiction
          have hkind : event.area = (plainArea past relay.handle.area).map (·.kind) := by
            rw [hplain _ harea]
            exact kind_of_changing hraising
          exact .hears hrun hachieving hchanging hentries
            (owed_ne_nil hoccurs hlistening hkept hlog htab hkind) (owed_same log hoccurs)

/-! ## The copy follows the area -/

def Follows (relay : Relay) (log : Nat) (copy : Snapshot) (m : Machine V) : Prop :=
  (m.inTransit log).foldl Change.applyTo copy = (m.system.area relay.handle.area).entries

theorem Follows.mirror {moves : List (Move V)} {relay : Relay} {log : Nat} {copy : Snapshot}
    {sub : Subscription} (h : Follows relay log copy (Machine.idle.playAll moves))
    (hordinary : ∀ m ∈ Machine.idle.history moves, m.isOrdinary)
    (hnext : (Machine.idle.playAll moves).isOrdinary)
    (hlistening : (sub, relay) ∈ listenings (Machine.idle.history moves))
    (hkept : sub ∉ dropped (Machine.idle.history moves)) (hlog : relay.listener = .log log)
    (hone : ∀ p ∈ listenings (Machine.idle.history moves), p.2.listener = .log log →
      p.2.handle.area = relay.handle.area)
    (hdispatch : (Machine.idle.playAll moves).raising?.map (·.2) ≠
      some (relay.handle.area, none)) :
    Follows relay log (mirror relay.handle log copy (Machine.idle.playAll moves))
      (Machine.idle.playAll moves).advance := by
  have hmachine := ordinary_playAll moves hordinary
  have hstep := hmachine.forwards (orderly_playAll moves) hnext (custody_playAll moves) log
  rw [sending_forwards moves hordinary log] at hstep
  have haffects := affects_playAll moves hordinary hlistening hkept hlog hone hdispatch
  generalize Machine.idle.history moves = past at *
  generalize Machine.idle.playAll moves = m at *
  have hquiet {step : Step V} (hrun : m.control = .run step) :
      m.inTransit log = [] ∧ copy = (m.system.area relay.handle.area).entries := by
    have hnone := hmachine.inTransit_of_run hrun log
    refine ⟨hnone, ?_⟩
    simpa [Follows, hnone] using h
  rw [Follows, Machine.mirror, ← foldl_applyTo_filter (m.arriving log), ← List.foldl_append,
    hstep, List.foldl_append]
  cases haffects with
  | spares hachieving hchanging hentries howed =>
      rw [hachieving, howed, hentries]
      exact h
  | writes hrun hachieving hentries howed =>
      obtain ⟨hnone, rfl⟩ := hquiet hrun
      rw [hachieving, hnone]
      simp only [← hentries]
      exact howed
  | hears hrun hachieving hchanging hentries hsome howed =>
      obtain ⟨hnone, rfl⟩ := hquiet hrun
      rw [hachieving, hnone, hentries]
      exact foldl_applyTo_all (hmachine.grounded.sorted_area _) hsome howed

def mirrored (handle : Handle) (log : Nat) (copy : Snapshot) (during : List (Machine V)) :
    Snapshot :=
  during.foldl (mirror handle log) copy

theorem follows_playAll (before later : List (Move V)) {relay : Relay} {log : Nat}
    {copy : Snapshot} {sub : Subscription}
    (hordinary : ∀ m ∈ Machine.idle.history (before ++ later), m.isOrdinary)
    (hlistening : (sub, relay) ∈ listenings (Machine.idle.history before))
    (hkept : sub ∉ dropped (Machine.idle.history (before ++ later)))
    (hlog : relay.listener = .log log)
    (hone : ∀ p ∈ listenings (Machine.idle.history (before ++ later)),
      p.2.listener = .log log → p.2.handle.area = relay.handle.area)
    (hdispatch : ∀ x ∈ (Machine.idle.playAll before).history later,
      x.raising?.map (·.2) ≠ some (relay.handle.area, none))
    (hcopy : Follows relay log copy (Machine.idle.playAll before)) :
    Follows relay log
      (mirrored relay.handle log copy ((Machine.idle.playAll before).history later))
      (Machine.idle.playAll (before ++ later)) := by
  refine later_induction before (P := fun during m =>
      Follows relay log (mirrored relay.handle log copy during) m)
    (Q := fun m => m.isOrdinary ∧ m.dropping? ≠ some sub ∧
      ∀ p, m.listening? = some p → p.2.listener = .log log → p.2.handle.area = relay.handle.area)
    hcopy ?_ ?_ ?_ later ?_ hdispatch
  · intro during m step h
    rwa [Follows, inTransit_begin, system_begin]
  · intro during m left h
    rwa [Follows, inTransit_decide, system_decide]
  · intro later during hpast hnext hdispatched h
    have hmirror := h.mirror (fun m hm => (hpast m hm).1) hnext.1
      (mem_listenings_of_before hlistening) (not_mem_dropped.mpr fun m hm => (hpast m hm).2.1) hlog
      (fun p hp => by
        obtain ⟨m, hm, hlistening⟩ := List.mem_filterMap.mp hp
        exact (hpast m hm).2.2 p hlistening) hdispatched
    simpa [mirrored] using hmirror
  · intro m hm
    refine ⟨hordinary m hm, not_mem_dropped.mp hkept m hm, ?_⟩
    exact fun p hp => hone p (List.mem_filterMap.mpr ⟨m, hm, hp⟩)

/--
In an ordinary session a tab listens and reads a snapshot of its area.  If from
then on it makes in this copy each of its operations that the area does, and each
change that its log is told, while the subscription is alive, the copy is what a
snapshot reads whenever no step is in progress.
-/
theorem copy_follows_area (before later : List (Move V)) (sub : Subscription) (relay : Relay)
    (log : Nat) (hordinary : ∀ m ∈ Machine.idle.history (before ++ later), m.isOrdinary)
    (hlistening : (sub, relay) ∈ listenings (Machine.idle.history before))
    (hkept : sub ∉ dropped (Machine.idle.history (before ++ later)))
    (hlog : relay.listener = .log log)
    (hone : ∀ p ∈ listenings (Machine.idle.history (before ++ later)),
      p.2.listener = .log log → p.2.handle.area = relay.handle.area)
    (hdispatch : ∀ x ∈ (Machine.idle.playAll before).history later,
      x.raising?.map (·.2) ≠ some (relay.handle.area, none))
    (hread : ∀ m ∈ [Machine.idle.playAll before, Machine.idle.playAll (before ++ later)],
      m.stack = [] ∧ m.system.faultsOf relay.handle = {} ∧
        (m.system.area relay.handle.area).entries.length < 2 ^ 32) :
    ∃ copy, Snapshot.read ((Machine.idle.playAll before).service relay.handle) = .ok copy ∧
      Snapshot.read ((Machine.idle.playAll (before ++ later)).service relay.handle) =
        .ok (mirrored relay.handle log copy ((Machine.idle.playAll before).history later)) := by
  obtain ⟨hstart, hstartFaults, hstartSize⟩ := hread _ List.mem_cons_self
  obtain ⟨hend, hendFaults, hendSize⟩ := hread _ (List.mem_cons_of_mem _ List.mem_cons_self)
  have hcopy : Follows relay log
      ((Machine.idle.playAll before).system.area relay.handle.area).entries
      (Machine.idle.playAll before) := by
    rw [Follows, inTransit_of_idle hstart]
    rfl
  have hfollows := follows_playAll before later hordinary hlistening hkept hlog hone hdispatch hcopy
  rw [Follows, inTransit_of_idle hend, List.foldl_nil] at hfollows
  have hsorted (moves : List (Move V)) := (grounded_playAll moves).sorted_area relay.handle.area
  refine ⟨_, snapshot_eq hstartFaults (hsorted before) hstartSize, ?_⟩
  rw [snapshot_eq hendFaults (hsorted _) hendSize, ← hfollows]

def copiedArea : List (Move Draft) :=
  inTurn [(.newWithQuota "a" .localArea 4, 1), (.openTab "b" "a", 1), (.newLog "l", 1),
    (.newQueue "q", 1), (.relayToLog "r" "a" "q" "l", 1), (.set "b" "k" "1", 3),
    (.listen "r" "s", 2)]

def copiedChanges : List (Move Draft) :=
  inTurn [(.set "b" "j" "2", 8), (.set "a" "k" "3", 3), (.remove "b" "j", 8), (.clear "a", 3),
    (.set "b" "key" "long", 8)]

theorem copy_follows_two_tabs :
    ∃ copy, Snapshot.read ((Machine.idle.playAll copiedArea).service ⟨0, 0⟩) = .ok copy ∧
      Snapshot.read ((Machine.idle.playAll (copiedArea ++ copiedChanges)).service ⟨0, 0⟩) =
        .ok (mirrored ⟨0, 0⟩ 0 copy ((Machine.idle.playAll copiedArea).history copiedChanges)) :=
  copy_follows_area copiedArea copiedChanges ⟨0, 0⟩ ⟨⟨0, 0⟩, 0, .log 0⟩ 0 (by decide)
    (by decide) (by decide) rfl (by decide) (by decide) (by decide)

end Machine

end Session

end TabRelay
