import TabRelay.Proofs.Bridge.Closing
import TabRelay.Proofs.Bridge.Taking
import TabRelay.Proofs.Web.Object

/-!
# What is read of an area

Reading an area asks for the number of its keys, for each key and for its text.
Unless one of these calls throws, what was read has the text of every stored key.
An application is started with it, and it is handed out on demand, always as the
same object.
-/

namespace TabRelay.Bridge

open TabRelay.Storage TabRelay.Web

variable {α β ε : Type}

/-! ## What reading leaves as it is -/

def Trace.flags? : Trace → Option Value
  | init _ flags => some flags
  | _ => none

/-- What reading depends on, and the flags of the programs that were started. -/
structure Setting where
  entries : AreaKind → Option Entries
  thrownAt : PageCall → Nat → Option Value
  hasWindow : Bool
  hasDocument : Bool
  flags : List Value

namespace Setting

def NeverThrows (s : Setting) (call : PageCall) : Prop := ∀ n, s.thrownAt call n = none

structure Readable (s : Setting) : Prop where
  length : s.NeverThrows .length
  key : s.NeverThrows .key
  getItem : s.NeverThrows .getItem

structure Open (s : Setting) (kind : AreaKind) : Prop extends s.Readable where
  window : s.hasWindow
  getter : s.NeverThrows (getterOf kind)

structure Ready (s : Setting) (kind : AreaKind) : Prop extends s.Open kind where
  document : s.hasDocument
  init : s.NeverThrows .init

end Setting

namespace Page

def flags (page : Page) : List Value := (page.trace.filterMap Trace.flags?).reverse

def setting (page : Page) : Setting where
  entries := page.entries
  thrownAt call := (page.scheduleOf call).thrownAt
  hasWindow := page.hasWindow
  hasDocument := page.hasDocument
  flags := page.flags

theorem setting_calling (page : Page) (call : PageCall) :
    (page.calling call).setting = page.setting := by
  have hentries : (page.calling call).entries = page.entries := by
    funext kind
    cases kind <;> rfl
  simp only [setting, hentries, thrownAt_calling]
  rfl

end Page

theorem keeps_setting_attempt (call : PageCall) : Keeps Page.setting (attempt call).run :=
  .of_calling fun page => page.setting_calling call

theorem keeps_setting_mark (m : Mark) : Keeps Page.setting (mark m) := fun _ => rfl

theorem Keeps.entries {x : Act α} (h : Keeps Page.setting x) {page : Page} {kind : AreaKind}
    {entries : Entries} (hentries : page.entries kind = some entries) :
    (page.after x).entries kind = some entries :=
  (congrFun (congrArg Setting.entries (h page)) kind).trans hentries

theorem keeps_setting_needArea (kind : AreaKind) : Keeps Page.setting (needArea kind).run :=
  .needArea (keeps_setting_attempt _)

theorem keeps_setting_readSnapshot (kind : AreaKind) :
    Keeps Page.setting (readSnapshot kind).run :=
  .readSnapshot (fun _ => keeps_setting_attempt _) keeps_setting_mark kind

/-! ## What an act returns -/

/-- The act returns nothing but `a`, and it does return if the page is as `P` has it. -/
structure Yields (P : Setting → Prop) (page : Page) (x : ExceptT ε Act α) (a : α) : Prop where
  value : ∀ b, page.result x.run = .ok b → b = a
  returns : P page.setting → page.result x.run = .ok a

namespace Yields

variable {P Q : Setting → Prop} {page : Page} {x : ExceptT ε Act α} {a : α} {b : β}

theorem of_run {next : Page} (h : x.run.run page = (.ok a, next)) : Yields P page x a := by
  have hresult : page.result x.run = .ok a := congrArg Prod.fst h
  refine ⟨?_, fun _ => hresult⟩
  intro b hb
  rw [hresult] at hb
  exact (Except.ok.inj hb).symm

theorem mono (h : Yields P page x a) (hPQ : ∀ s, Q s → P s) : Yields Q page x a :=
  ⟨h.value, fun hQ => h.returns (hPQ _ hQ)⟩

theorem bind {f : α → ExceptT ε Act β} (h : Yields P page x a) (hkeeps : Keeps Page.setting x.run)
    (hf : Yields P (page.after x.run) (f a) b) : Yields P page (x >>= f) b := by
  have hrun : page.result (x >>= f).run = match page.result x.run with
      | .ok a => (page.after x.run).result (f a).run
      | .error e => .error e := by
    change ((x >>= f).run.run page).1 = _
    rw [run_bind]
    change _ = match (x.run.run page).1 with
      | .ok a => ((f a).run.run (x.run.run page).2).1
      | .error e => .error e
    obtain ⟨result, next⟩ := x.run.run page
    cases result <;> rfl
  constructor
  · intro c hc
    rw [hrun] at hc
    cases hresult : page.result x.run with
    | error e => simp [hresult] at hc
    | ok a' =>
        obtain rfl := h.value a' hresult
        rw [hresult] at hc
        exact hf.value c hc
  · intro hP
    rw [hrun, h.returns hP]
    exact hf.returns ((hkeeps page).symm ▸ hP)

theorem adapt {δ : Type} (h : Yields P page x a) (f : ε → δ) : Yields P page (x.adapt f) a := by
  have hrun : page.result (x.adapt f).run = (page.result x.run).mapError f := rfl
  constructor
  · intro b hb
    rw [hrun] at hb
    cases hresult : page.result x.run with
    | error e => simp [hresult, Except.mapError] at hb
    | ok a' =>
        rw [hresult] at hb
        exact h.value b (hresult.trans (congrArg Except.ok (Except.ok.inj hb)))
  · intro hP
    rw [hrun, h.returns hP]
    rfl

end Yields

theorem yields_attempt (call : PageCall) (page : Page) :
    Yields (·.NeverThrows call) page (attempt call) () := by
  refine ⟨fun _ _ => rfl, ?_⟩
  intro hnever
  have hthrown : page.thrownBy call = none := hnever _
  change ((attempt call).run.run page).1 = _
  rw [run_attempt, hthrown]

/-! ## Reading the entries -/

section

variable {P : Setting → Prop} {page : Page} {kind : AreaKind} {entries : Entries}

theorem yields_call (hentries : page.entries kind = some entries) (call : PageCall)
    (g : Entries → α) :
    Yields (·.NeverThrows call) page
      (do attempt call; return g (← entriesOf kind) : Throwing α) (g entries) := by
  refine (yields_attempt call page).bind (keeps_setting_attempt call) ?_
  have hsame := (keeps_setting_attempt call).entries hentries
  generalize page.after (attempt call).run = next at hsame
  have hrun : (do return g (← entriesOf kind) : Throwing α).run.run next =
      (.ok (g ((next.entries kind).getD [])), next) := rfl
  rw [hsame] at hrun
  exact .of_run hrun

def Entries.readInto (entries : Entries) (s : Snapshot) (entry : String × String) : Snapshot :=
  Keyed.insert entry.1 ((entries.get? entry.1).getD "") s

theorem Entries.get?_isSome {entry : String × String} (h : entry ∈ entries) :
    ∃ text, entries.get? entry.1 = some text := by
  have hfound : (entries.find? fun other => other.1 = entry.1).isSome :=
    List.find?_isSome.mpr ⟨entry, h, by simp⟩
  obtain ⟨other, hother⟩ := Option.isSome_iff_exists.mp hfound
  exact ⟨other.2, by simp [get?, hother]⟩

theorem yields_collect (count index : Nat) (page : Page)
    (hentries : page.entries kind = some entries) (hcount : index + count ≤ entries.length)
    (s : Snapshot) :
    Yields (·.Readable) page (Snapshot.collect (areaService kind) index count s)
      (((entries.drop index).take count).foldl entries.readInto s) := by
  induction count generalizing index page s with
  | zero => exact .of_run rfl
  | succ count ih =>
      have hindex : index < entries.length := by omega
      have hfirst : (entries.drop index).take (count + 1) =
          entries[index] :: (entries.drop (index + 1)).take count := by
        rw [List.drop_eq_getElem_cons hindex, List.take_succ_cons]
      obtain ⟨text, htext⟩ := Entries.get?_isSome (List.getElem_mem hindex)
      have hkey : Yields (·.Readable) page (storageKey kind index) (some entries[index].1) := by
        have h := yields_call hentries .key fun es => es[index]?.map (·.1)
        rw [List.getElem?_eq_getElem hindex] at h
        exact h.mono fun _ hs => hs.key
      have hkept : Keeps Page.setting (storageKey kind index).run :=
        .storageKey (fun _ => keeps_setting_attempt _) kind index
      have hnext := hkept.entries hentries
      refine hkey.bind hkept ?_
      generalize page.after (storageKey kind index).run = next at hnext
      have hget : Yields (·.Readable) next (storageGet kind entries[index].1) (some text) := by
        have h := yields_call hnext .getItem fun es => es.get? entries[index].1
        rw [htext] at h
        exact h.mono fun _ hs => hs.getItem
      have hkept : Keeps Page.setting (storageGet kind entries[index].1).run :=
        .storageGet (fun _ => keeps_setting_attempt _) kind _
      refine hget.bind hkept ?_
      rw [hfirst, List.foldl_cons, Entries.readInto, htext]
      exact ih (index + 1) _ (hkept.entries hnext) (by omega) _

def Entries.snapshot (entries : Entries) : Snapshot := entries.foldl entries.readInto []

theorem yields_read (hentries : page.entries kind = some entries) :
    Yields (·.Readable) page (Snapshot.read (areaService kind)) entries.snapshot := by
  have hlength : Yields (·.Readable) page (storageLength kind) entries.length :=
    (yields_call hentries .length List.length).mono fun _ hs => hs.length
  have hkept : Keeps Page.setting (storageLength kind).run :=
    .storageLength (fun _ => keeps_setting_attempt _) kind
  refine hlength.bind hkept ?_
  have hcollect := yields_collect entries.length 0 _ (hkept.entries hentries) (by omega) []
  rw [List.drop_zero, List.take_length] at hcollect
  exact hcollect

theorem result_readSnapshot (kind : AreaKind) (page : Page) :
    page.result (readSnapshot kind).run =
      (Page.result (page.recorded (.mark (.enterRead kind.name)))
        (Snapshot.read (areaService kind)).run).mapError BridgeError.storage := by
  generalize hmarked : page.recorded (.mark (.enterRead kind.name)) = marked
  have hmark : (mark (.enterRead kind.name)).run page = ((), marked) := by rw [← hmarked]; rfl
  rw [Page.result, readSnapshot, ExceptT.run_mk, run_bind_of_run hmark]
  obtain ⟨result, next, hrun⟩ : ∃ result next,
      (Snapshot.read (areaService kind)).run.run marked = (result, next) := ⟨_, _, rfl⟩
  rw [run_bind_of_run hrun]
  have hresult : marked.result (Snapshot.read (areaService kind)).run = result :=
    congrArg Prod.fst hrun
  rw [hresult]
  cases result <;> rfl

theorem yields_readSnapshot (hentries : page.entries kind = some entries) :
    Yields (·.Readable) page (readSnapshot kind) entries.snapshot := by
  have hread : Yields (·.Readable) (page.recorded (.mark (.enterRead kind.name)))
      (Snapshot.read (areaService kind)) entries.snapshot :=
    yields_read ((keeps_setting_mark _).entries hentries)
  have hresult := (hread.adapt BridgeError.storage)
  exact ⟨fun s hs => hresult.value s ((result_readSnapshot kind page).symm.trans hs),
    fun hP => (result_readSnapshot kind page).trans (hresult.returns hP)⟩

theorem yields_needArea (hentries : page.entries kind = some entries) :
    Yields (·.NeverThrows (getterOf kind)) page (needArea kind) () := by
  have hasked : Yields (·.NeverThrows (getterOf kind)) page (hasArea kind) true := by
    refine (yields_attempt _ page).bind (keeps_setting_attempt _) ?_
    have hsame := (keeps_setting_attempt (getterOf kind)).entries hentries
    generalize page.after (attempt (getterOf kind)).run = next at hsame
    have hrun : (do return ((← get).entries kind).isSome : Throwing Bool).run.run next =
        (.ok (next.entries kind).isSome, next) := rfl
    rw [hsame] at hrun
    exact .of_run hrun
  exact (hasked.adapt _).bind (.run_adapt (.hasArea (keeps_setting_attempt _)) _) (.of_run rfl)

theorem yields_needWindow (page : Page) : Yields (·.hasWindow) page needWindow () := by
  refine ⟨fun _ _ => rfl, ?_⟩
  intro hwindow
  have hpage : page.hasWindow = true := hwindow
  change (needWindow.run.run page).1 = _
  rw [needWindow, run_bind, run_get]
  simp only [hpage]
  rfl

theorem yields_entry {act : Bridging α} {a : α} (name : String)
    (h : Yields P (page.entered name) act a) : Yields P page (entry name act) a :=
  ⟨h.value, h.returns⟩

end

/-! ## The object -/

namespace Entries

variable (entries : Entries)

theorem sorted_foldl_readInto {s : Snapshot} (h : Keyed.Sorted s) (read : Entries) :
    Keyed.Sorted (read.foldl entries.readInto s) := by
  induction read generalizing s with
  | nil => exact h
  | cons entry rest ih => exact ih (Keyed.sorted_insert h _ _)

theorem lookup?_foldl_readInto (s : Snapshot) (read : Entries) (key : String) :
    Keyed.lookup? key (read.foldl entries.readInto s) =
      if key ∈ read.map (·.1) then some ((entries.get? key).getD "") else Keyed.lookup? key s := by
  induction read generalizing s with
  | nil => rfl
  | cons entry rest ih =>
      rw [List.foldl_cons, ih, readInto, Keyed.lookup?_insert]
      by_cases hrest : key ∈ rest.map (·.1)
      · simp [hrest]
      · by_cases hkey : entry.1 = key
        · simp [hkey]
        · simp [hrest, hkey, Ne.symm hkey]

theorem lookup?_snapshot (key : String) :
    Keyed.lookup? key entries.snapshot = entries.get? key := by
  rw [snapshot, lookup?_foldl_readInto]
  split
  · rename_i hmem
    obtain ⟨entry, hentry, rfl⟩ := List.mem_map.mp hmem
    obtain ⟨text, htext⟩ := get?_isSome hentry
    rw [htext, Option.getD_some]
  · rename_i hnot
    have hnone : entries.find? (fun entry => entry.1 = key) = none := by
      rw [List.find?_eq_none]
      intro entry hentry hkey
      exact hnot (List.mem_map.mpr ⟨entry, hentry, by simpa using hkey⟩)
    rw [get?, hnone]
    rfl

end Entries

/-- The fields are the stored entries, each once and with its text, but for the entry
under `__proto__`. -/
structure Carries (fields : List (String × Value)) (entries : Entries) : Prop where
  once : (fields.map (·.1)).Nodup
  field : ∀ key value, (key, value) ∈ fields ↔
    ∃ text, entries.get? key = some text ∧ key ≠ "__proto__" ∧ value = .string text

def IsExactly (fields : List (String × Value)) (entries : Entries) : Prop :=
  ∀ key value, (key, value) ∈ fields ↔ ∃ text, entries.get? key = some text ∧ value = .string text

theorem Carries.isExactly_iff {fields : List (String × Value)} {entries : Entries}
    (h : Carries fields entries) : IsExactly fields entries ↔ entries.get? "__proto__" = none := by
  constructor
  · intro hexact
    cases hproto : entries.get? "__proto__" with
    | none => rfl
    | some text =>
        have hmem := (hexact "__proto__" (.string text)).mpr ⟨text, hproto, rfl⟩
        obtain ⟨_, _, hname, _⟩ := (h.field _ _).mp hmem
        exact absurd rfl hname
  · intro hproto key value
    rw [h.field]
    constructor
    · rintro ⟨text, hkey, -, hvalue⟩
      exact ⟨text, hkey, hvalue⟩
    · rintro ⟨text, hkey, hvalue⟩
      refine ⟨text, hkey, ?_, hvalue⟩
      rintro rfl
      rw [hproto] at hkey
      contradiction

theorem carries_snapshot (entries : Entries) :
    Carries (Value.ofSnapshot entries.snapshot).fields entries := by
  have hsorted : Keyed.Sorted entries.snapshot :=
    entries.sorted_foldl_readInto Keyed.sorted_nil entries
  obtain ⟨honce, hfield⟩ := Value.mem_fields_ofSnapshot hsorted
  refine ⟨honce, ?_⟩
  intro key value
  rw [hfield, entries.lookup?_snapshot]

/-! ## Handing it out -/

section

variable {page : Page} {kind : AreaKind} {entries : Entries}

theorem yields_snapshot {c : Connection} (hkind : c.relay.kind = kind)
    (hentries : page.entries kind = some entries) :
    Yields (·.Readable) page (snapshot c) (Value.ofSnapshot entries.snapshot) := by
  subst hkind
  have hread : Yields (·.Readable) (page.entered "StorageBridge::snapshot")
      (readSnapshot c.relay.kind) entries.snapshot := yields_readSnapshot hentries
  exact yields_entry _ (hread.bind (keeps_setting_readSnapshot _) (.of_run rfl))

theorem yields_allState (hentries : page.entries .localArea = some entries) :
    Yields (·.Open .localArea) page allState (Value.ofSnapshot entries.snapshot) := by
  refine yields_entry _ ?_
  have hentered : (page.entered "allState").entries .localArea = some entries := hentries
  generalize page.entered "allState" = next at hentered
  have hwindow := (Keeps.needWindow).entries hentered
  have harea := (keeps_setting_needArea .localArea).entries hwindow
  refine ((yields_needWindow next).mono fun _ hs => hs.window).bind .needWindow ?_
  refine ((yields_needArea hwindow).mono fun _ hs => hs.getter).bind (keeps_setting_needArea _) ?_
  exact ((yields_readSnapshot harea).mono fun _ hs => hs.toReadable).bind
    (keeps_setting_readSnapshot _) (.of_run rfl)

end

/-! ## Starting a program -/

/-- The act starts no program, or one with these flags.  It does start one if the page is as `P`
has it. -/
structure Launches (P : Setting → Prop) (page : Page) (x : ExceptT ε Act α) (v : Value) : Prop where
  flags : (page.after x.run).flags = page.flags ∨ (page.after x.run).flags = page.flags ++ [v]
  launched : P page.setting → (page.after x.run).flags = page.flags ++ [v]

theorem Launches.mono {P Q : Setting → Prop} {page : Page} {x : ExceptT ε Act α} {v : Value}
    (h : Launches P page x v) (hPQ : ∀ s, Q s → P s) : Launches Q page x v :=
  ⟨h.flags, fun hQ => h.launched (hPQ _ hQ)⟩

theorem Launches.bind {P : Setting → Prop} {page : Page} {x : ExceptT ε Act α} {a : α} {v : Value}
    {f : α → ExceptT ε Act β} (h : Yields P page x a) (hkeeps : Keeps Page.setting x.run)
    (hf : Launches P (page.after x.run) (f a) v) : Launches P page (x >>= f) v := by
  have hflags : (page.after x.run).flags = page.flags := congrArg Setting.flags (hkeeps page)
  have hafter : page.after (x >>= f).run = match page.result x.run with
      | .ok a => (page.after x.run).after (f a).run
      | .error _ => page.after x.run := by
    change ((x >>= f).run.run page).2 = _
    rw [run_bind]
    change _ = match (x.run.run page).1 with
      | .ok a => ((f a).run.run (x.run.run page).2).2
      | .error _ => (x.run.run page).2
    obtain ⟨result, next⟩ := x.run.run page
    cases result <;> rfl
  constructor
  · rw [hafter]
    cases hresult : page.result x.run with
    | error e => exact .inl hflags
    | ok a' =>
        obtain rfl := h.value a' hresult
        rw [← hflags]
        exact hf.flags
  · intro hP
    rw [hafter, h.returns hP, ← hflags]
    exact hf.launched ((hkeeps page).symm ▸ hP)

theorem keeps_flags_attempt (call : PageCall) : Keeps Page.flags (attempt call).run :=
  fun page => congrArg Setting.flags (keeps_setting_attempt call page)

theorem keeps_flags_subscribePort (port : Port) (callback : Nat) :
    Keeps Page.flags (subscribePort port callback).run := by
  unfold subscribePort callPort
  split
  · exact .run_throw _
  · split
    · exact .run_bind (keeps_flags_attempt _) fun _ => .run_bind (.run_lift fun _ => rfl)
        fun _ _ => rfl
    · exact .run_pure ()
  · exact .run_throw _

theorem keeps_flags_listen (reaction : Reaction) : Keeps Page.flags (listen reaction).run := by
  intro page
  have hmade : (liftM (addWindowCallback reaction) : Throwing Nat).run.run page =
      (.ok page.windowCallbacks.length,
        { page with windowCallbacks := page.windowCallbacks ++ [⟨reaction, true⟩] }) := rfl
  change ((listen reaction).run.run page).2.flags = page.flags
  simp only [listen, addListener, run_bind, run_tryCatch, run_attempt, hmade]
  cases Page.thrownBy { page with windowCallbacks := page.windowCallbacks ++ [⟨reaction, true⟩] }
    .addEventListener <;> rfl

theorem keeps_flags_connect (app : Nat) (config : Config) :
    Keeps Page.flags (connect app config).run := by
  intro page
  change ((connect app config).run.run page).2.flags = page.flags
  cases hchange : page.findPort app config.changePort .send with
  | error e => simp only [connect, run_bind, run_get, run_except, hchange]
  | ok changePort =>
      cases hstore : page.findPort app config.storePort .subscribe with
      | error e => simp only [connect, run_bind, run_get, run_except, hchange, hstore]
      | ok store =>
          rw [run_connect hchange hstore]
          obtain ⟨result, next, hrun⟩ : ∃ result next,
              (subscribePort store page.portCallbacks.length).run.run
                (page.withPortCallback ⟨config.area, changePort⟩) = (result, next) :=
            ⟨_, _, rfl⟩
          have hkept := (keeps_flags_subscribePort _ _).of_run hrun
          have hnext : next.flags = page.flags := hkept
          rw [hrun]
          cases result with
          | error thrown => exact hnext
          | ok _ =>
              obtain ⟨result, last, hrun⟩ : ∃ result last,
                  (listen (.forward ⟨config.area, changePort⟩)).run.run next = (result, last) :=
                ⟨_, _, rfl⟩
              have hlast : last.flags = next.flags := (keeps_flags_listen _).of_run hrun
              dsimp only
              rw [hrun]
              cases result <;> exact hlast.trans hnext

theorem launches_launch {page : Page} (node v : Value) {rest : Nat → Bridging α}
    (hrest : ∀ app, Keeps Page.flags (rest app).run) :
    Launches (·.NeverThrows .init) page (launch node v >>= rest) v := by
  have hrun := run_attempt .init page
  have hfails (thrown : Value) (hthrown : page.thrownBy .init = some thrown) :
      (page.after (launch node v >>= rest).run).flags = page.flags := by
    change ((launch node v >>= rest).run.run page).2.flags = _
    rw [hthrown] at hrun
    simp only [launch, run_bind, run_adapt, hrun]
    rfl
  have hstarts (hthrown : page.thrownBy .init = none) :
      (page.after (launch node v >>= rest).run).flags = page.flags ++ [v] := by
    change ((launch node v >>= rest).run.run page).2.flags = _
    rw [hthrown] at hrun
    simp only [launch, run_bind, run_adapt, hrun]
    refine (hrest _ _).trans ?_
    exact List.reverse_cons
  constructor
  · cases hthrown : page.thrownBy .init with
    | none => exact .inr (hstarts hthrown)
    | some thrown => exact .inl (hfails thrown hthrown)
  · intro hnever
    exact hstarts (hnever _)

theorem Launches.entry {P : Setting → Prop} {page : Page} {act : Bridging α} {v : Value}
    (name : String) (h : Launches P (page.entered name) act v) :
    Launches P page (entry name act) v :=
  ⟨h.flags, h.launched⟩

theorem yields_mountNode (id : String) (page : Page) :
    Yields (·.hasDocument) page (mountNode id)
      (if page.nodes.contains id then .element id else .null) := by
  have hresult : page.result (mountNode id).run =
      if page.hasDocument then .ok (if page.nodes.contains id then .element id else .null)
      else .error .noDocument := by
    change ((mountNode id).run.run page).1 = _
    rw [mountNode, run_bind, run_get]
    dsimp only
    cases page.hasDocument with
    | false => rfl
    | true => cases page.nodes.contains id <;> rfl
  constructor
  · intro node hnode
    rw [hresult] at hnode
    split at hnode
    · exact (Except.ok.inj hnode).symm
    · contradiction
  · intro hdocument
    rw [hresult]
    exact if_pos hdocument

theorem launches_start {page : Page} {config : Value} {c : Config} {entries : Entries}
    (hconfig : Config.ofValue config = .ok c) (hentries : page.entries c.area = some entries) :
    Launches (·.Ready c.area) page (start config) (Value.ofSnapshot entries.snapshot) := by
  refine Launches.entry _ ?_
  have hentered : (page.entered "StorageBridge::start").entries c.area = some entries := hentries
  generalize page.entered "StorageBridge::start" = next at hentered
  have hread : (readConfig config).run.run next = (.ok c, next) := by
    change ((Config.ofValue config).mapError BridgeError.config, next) = _
    rw [hconfig]
    rfl
  refine .bind (.of_run hread) (.readConfig config) ?_
  have hwindow := (Keeps.needWindow).entries hentered
  refine .bind ((yields_needWindow next).mono fun _ hs => hs.window) .needWindow ?_
  have harea := (keeps_setting_needArea c.area).entries hwindow
  refine .bind ((yields_needArea hwindow).mono fun _ hs => hs.getter)
    (keeps_setting_needArea _) ?_
  refine .bind ((yields_readSnapshot harea).mono fun _ hs => hs.toReadable)
    (keeps_setting_readSnapshot _) ?_
  refine .bind ((yields_mountNode c.node _).mono fun _ hs => hs.document)
    (.mountNode keeps_setting_mark _) ?_
  exact (launches_launch _ _ fun app => .run_bind (.run_lift fun _ => rfl)
    fun _ => keeps_flags_connect app c).mono fun _ hs => hs.init

/--
Whatever an area holds, the flags that a program is started with, a snapshot and the state
of the local area are one object.  It has every stored text under its key and nothing else,
but no entry under `__proto__`: it is the area exactly if there is none.
-/
theorem entries_are_handed_out (page : Page) {kind : AreaKind} {entries : Entries}
    (hentries : page.entries kind = some entries) :
    ∃ fields, Carries fields entries ∧
      (IsExactly fields entries ↔ entries.get? "__proto__" = none) ∧
      (∀ c : Connection, c.relay.kind = kind →
        Yields (·.Readable) page (snapshot c) (.object fields)) ∧
      (kind = .localArea → Yields (·.Open kind) page allState (.object fields)) ∧
      ∀ config c, Config.ofValue config = .ok c → c.area = kind →
        Launches (·.Ready kind) page (start config) (.object fields) := by
  have hcarries := carries_snapshot entries
  refine ⟨_, hcarries, hcarries.isExactly_iff, ?_, ?_, ?_⟩
  · exact fun c hkind => yields_snapshot hkind hentries
  · rintro rfl
    exact yields_allState hentries
  · rintro config c hconfig rfl
    exact launches_start hconfig hentries

def pageWith (entries : Entries) : Page := { localEntries := some entries }

theorem inherited_names_are_handed_out :
    ∃ fields, IsExactly fields [("toString", "t"), ("10", "a"), ("9", "")] ∧
      (pageWith [("toString", "t"), ("10", "a"), ("9", "")]).result allState.run =
        .ok (.object fields) ∧
      ((pageWith [("toString", "t"), ("10", "a"), ("9", "")]).after (start .undefined).run).flags =
        [.object fields] := by
  have hentries : (pageWith [("toString", "t"), ("10", "a"), ("9", "")]).entries .localArea =
      some [("toString", "t"), ("10", "a"), ("9", "")] := rfl
  obtain ⟨fields, -, hexactly, -, hall, hstart⟩ := entries_are_handed_out _ hentries
  have hready : (pageWith [("toString", "t"), ("10", "a"), ("9", "")]).setting.Ready .localArea :=
    ⟨⟨⟨fun _ => rfl, fun _ => rfl, fun _ => rfl⟩, rfl, fun _ => rfl⟩, rfl, fun _ => rfl⟩
  exact ⟨fields, hexactly.mpr (by decide), (hall rfl).returns hready.toOpen,
    (hstart .undefined {} rfl rfl).launched hready⟩

/-- An entry whose name sets the prototype of an object is in none of the three. -/
theorem prototype_entry_is_lost :
    (pageWith [("__proto__", "x")]).result allState.run = .ok (.object []) ∧
      (pageWith [("__proto__", "x")]).result (snapshot firstConnection).run = .ok (.object []) ∧
      ((pageWith [("__proto__", "x")]).after (start .undefined).run).flags = [.object []] ∧
      ¬ IsExactly [] [("__proto__", "x")] := by
  refine ⟨rfl, rfl, rfl, ?_⟩
  intro hexactly
  have hmem := (hexactly "__proto__" (.string "x")).mpr ⟨"x", rfl, rfl⟩
  contradiction

end TabRelay.Bridge
