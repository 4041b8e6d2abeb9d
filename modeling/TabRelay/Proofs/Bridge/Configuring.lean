import TabRelay.Decoding.Forms
import TabRelay.Proofs.Bridge.Closing
import TabRelay.Proofs.Text.Keyed

/-!
# What is accepted as a configuration

A page gives its configuration as an object, which may also be decoded as a JSON
value.  Both accept what `Configures` says of the four fields.  A field of another
name is refused in a JSON value only: in a page nobody looks at it.
-/

namespace TabRelay

open TabRelay.Decimal TabRelay.Storage

/-! ## JSON values in a page -/

def Json.Number.toBinary64 : Json.Number → Binary64
  | .int n => .ofInt n
  | .float x => x

mutual

/-- The plain value of a page is the JSON value.  An object lists its fields in any
order. -/
inductive IsJson : Web.Value → Json.Value → Prop where
  | null : IsJson .null .null
  | bool (b : Bool) : IsJson (.bool b) (.bool b)
  | number (n : Json.Number) : IsJson (.number n.toBinary64) (.number n)
  | string (s : String) : IsJson (.string s) (.string s)
  | array {items : List Web.Value} {values : List Json.Value} (h : AreJson items values) :
      IsJson (.array items) (.array values)
  | object {fields : List (String × Web.Value)} {pairs : List (String × Json.Value)}
      {sorted : Keyed Json.Value} (h : HaveJson fields pairs) (hperm : pairs.Perm sorted)
      (hsorted : sorted.Sorted) : IsJson (.object fields) (.object sorted)

inductive AreJson : List Web.Value → List Json.Value → Prop where
  | nil : AreJson [] []
  | cons {item : Web.Value} {value : Json.Value} {items : List Web.Value}
      {values : List Json.Value} (h : IsJson item value) (hrest : AreJson items values) :
      AreJson (item :: items) (value :: values)

inductive HaveJson : List (String × Web.Value) → List (String × Json.Value) → Prop where
  | nil : HaveJson [] []
  | cons {key : String} {content : Web.Value} {value : Json.Value}
      {fields : List (String × Web.Value)} {pairs : List (String × Json.Value)}
      (h : IsJson content value) (hrest : HaveJson fields pairs) :
      HaveJson ((key, content) :: fields) ((key, value) :: pairs)

end

theorem IsJson.isNullish_iff {content : Web.Value} {value : Json.Value} (h : IsJson content value) :
    content.isNullish ↔ value = .null := by
  cases h <;> simp [Web.Value.isNullish]

inductive FoundAlike : Option (String × Web.Value) → Option Json.Value → Prop where
  | missing : FoundAlike none none
  | found {key : String} {content : Web.Value} {value : Json.Value} (h : IsJson content value) :
      FoundAlike (some (key, content)) (some value)

theorem HaveJson.find?_alike {fields : List (String × Web.Value)}
    {pairs : List (String × Json.Value)} (h : HaveJson fields pairs) (name : String) :
    FoundAlike (fields.find? fun field => field.1 = name) (Keyed.lookup? name pairs) := by
  induction fields generalizing pairs with
  | nil =>
      cases h
      exact .missing
  | cons field rest ih =>
      cases h with
      | @cons key content value _ pairs h hrest =>
          by_cases hkey : key = name
          · simpa [Keyed.lookup?, hkey] using .found h
          · simpa [Keyed.lookup?, hkey] using ih hrest

/-! ## The four fields -/

namespace Bridge

open TabRelay.Decoding

def FieldIs {α : Type} (reads : Json.Value → α → Prop) (before : α) (found : Option Json.Value)
    (a : α) : Prop :=
  match found with
  | none => a = before
  | some value => reads value a

@[simp] theorem fieldIs_none {α : Type} {reads : Json.Value → α → Prop} {before a : α} :
    FieldIs reads before none a ↔ a = before := Iff.rfl

@[simp] theorem fieldIs_some {α : Type} {reads : Json.Value → α → Prop} {before a : α}
    {value : Json.Value} : FieldIs reads before (some value) a ↔ reads value a := Iff.rfl

def IsText (value : Json.Value) (s : String) : Prop := value = .string s

inductive NamesArea : Json.Value → AreaKind → Prop where
  | name (kind : AreaKind) : NamesArea (.string kind.name) kind
  | field (kind : AreaKind) : NamesArea (.object [(kind.name, .null)]) kind

/-- With these fields the configuration `before` becomes `c`. -/
structure Configures (before : Config) (found : String → Option Json.Value) (c : Config) :
    Prop where
  node : FieldIs IsText before.node (found "node") c.node
  storePort : FieldIs IsText before.storePort (found "storePort") c.storePort
  changePort : FieldIs IsText before.changePort (found "changePort") c.changePort
  area : FieldIs NamesArea before.area (found "area") c.area

/-! ## JSON values -/

theorem decodeString_ok_iff {value : Json.Value} {s : String} :
    decodeString .value (Json.Document.ofValue value) = .ok s ↔ IsText value s := by
  constructor
  · intro h
    cases value with
    | string t =>
        cases h
        rfl
    | number n => cases n <;> contradiction
    | _ => contradiction
  · rintro rfl
    rfl

theorem decodeVariant_area (name : String) (content : Option Json.Document) :
    areaChoice.decodeVariant .value name content = match AreaKind.ofName? name with
      | some kind => plainVariant kind .value content
      | none => refuse (.unknownVariant name ["local", "session"]) := by
  unfold AreaKind.ofName?
  split_ifs with hlocal hsession
  · subst hlocal
    rfl
  · subst hsession
    rfl
  · simp [Choice.decodeVariant, areaChoice, Ne.symm hlocal, Ne.symm hsession]

theorem ofName?_eq_some_iff {name : String} {kind : AreaKind} :
    AreaKind.ofName? name = some kind ↔ name = kind.name := by
  constructor
  · intro h
    unfold AreaKind.ofName? at h
    split_ifs at h with hlocal hsession <;> cases h <;> assumption
  · rintro rfl
    exact AreaKind.ofName?_name kind

theorem plainVariant_ok_iff {kind named : AreaKind} {content : Json.Value} :
    plainVariant named .value (some (Json.Document.ofValue content)) = .ok kind ↔
      named = kind ∧ content = .null := by
  cases content with
  | null => simp [plainVariant, Json.Document.ofValue, decodeNull, Except.map]
  | number n =>
      cases n <;>
        simp [plainVariant, Json.Document.ofValue, decodeNull, mismatch, refuse, Except.map]
  | _ => simp [plainVariant, Json.Document.ofValue, decodeNull, mismatch, refuse, Except.map]

theorem decodeArea_ok_iff {value : Json.Value} {kind : AreaKind} :
    decodeArea .value (Json.Document.ofValue value) = .ok kind ↔ NamesArea value kind := by
  constructor
  · intro h
    match value with
    | .string name =>
        change areaChoice.decodeVariant .value name none = .ok kind at h
        rw [decodeVariant_area] at h
        split at h
        · rename_i named hname
          cases h
          rw [ofName?_eq_some_iff.mp hname]
          exact .name kind
        · contradiction
    | .object [(name, content)] =>
        change areaChoice.decodeVariant .value name
          (some (Json.Document.ofValue content)) = .ok kind at h
        rw [decodeVariant_area] at h
        split at h
        · rename_i named hname
          obtain ⟨rfl, rfl⟩ := plainVariant_ok_iff.mp h
          rw [ofName?_eq_some_iff.mp hname]
          exact .field named
        · contradiction
    | .object [] => contradiction
    | .object (_ :: _ :: _) => contradiction
    | .number (.int _) => contradiction
    | .number (.float _) => contradiction
    | .null => contradiction
    | .bool _ => contradiction
    | .array _ => contradiction
  · intro h
    cases h <;> cases kind <;> rfl

theorem decodeFields_ok_iff {σ α : Type} {shape : Shape σ} {name : String} {decode : Decoder α}
    {set : α → σ → σ} (hfind : shape.find? name = some (.of name decode set)) {source : Source}
    {value : Json.Value} {seen : List String} (hnew : name ∉ seen)
    {rest : List (String × Json.Value)} {record result : σ} :
    shape.decodeFields source (Json.Document.ofFields ((name, value) :: rest)) seen record =
        .ok result ↔
      ∃ a, decode source (Json.Document.ofValue value) = .ok a ∧
        shape.decodeFields source (Json.Document.ofFields rest) (name :: seen) (set a record) =
          .ok result := by
  rw [Json.Document.ofFields, Shape.decodeFields]
  cases hdecode : decode source (Json.Document.ofValue value) <;>
    simp [liftFault, hfind, hnew, Field.of, hdecode, Except.map, bind, Except.bind]

theorem decodeFields_unknown {σ : Type} {shape : Shape σ} {name : String}
    (hfind : shape.find? name = none) (hclosed : shape.closed) (source : Source)
    (value : Json.Value) (rest : List (String × Json.Value)) (seen : List String) (record : σ) :
    shape.decodeFields source (Json.Document.ofFields ((name, value) :: rest)) seen record =
      refuse (.unknownField name shape.names) := by
  rw [Json.Document.ofFields, Shape.decodeFields]
  simp [liftFault, hfind, hclosed, bind, Except.bind]

/-! ## The fields of a configuration -/

theorem configures_iff {before c : Config} {found : String → Option Json.Value} :
    Configures before found c ↔
      FieldIs IsText before.node (found "node") c.node ∧
        FieldIs IsText before.storePort (found "storePort") c.storePort ∧
        FieldIs IsText before.changePort (found "changePort") c.changePort ∧
        FieldIs NamesArea before.area (found "area") c.area :=
  ⟨fun ⟨hnode, hstore, hchange, harea⟩ => ⟨hnode, hstore, hchange, harea⟩,
    fun ⟨hnode, hstore, hchange, harea⟩ => ⟨hnode, hstore, hchange, harea⟩⟩

theorem configures_nothing_iff {before c : Config} :
    Configures before (fun _ => none) c ↔ before = c := by
  constructor
  · rintro ⟨hnode, hstore, hchange, harea⟩
    obtain ⟨node, storePort, changePort, area⟩ := c
    cases hnode
    cases hstore
    cases hchange
    cases harea
    rfl
  · rintro rfl
    exact ⟨rfl, rfl, rfl, rfl⟩

theorem find?_eq_none_of_not_mem {key : String} (h : key ∉ configShape.names) :
    configShape.find? key = none := by
  rw [Shape.find?, List.find?_eq_none]
  intro field hfield hkey
  exact h (List.mem_map.mpr ⟨field, hfield, by simpa using hkey⟩)

theorem decodeConfigFields_ok_iff {fields : List (String × Json.Value)} {seen : List String}
    {before c : Config} (hnodup : (fields.map (·.1)).Nodup)
    (hseen : ∀ name ∈ seen, name ∉ fields.map (·.1)) :
    configShape.decodeFields .value (Json.Document.ofFields fields) seen before = .ok c ↔
      (∀ p ∈ fields, p.1 ∈ configShape.names) ∧
        Configures before (fun name => Keyed.lookup? name fields) c := by
  induction fields generalizing seen before with
  | nil =>
      have hdone : configShape.decodeFields .value (Json.Document.ofFields []) seen before =
          .ok before := rfl
      have hnothing : Configures before (fun _ => none) c ↔ before = c := configures_nothing_iff
      simpa [hdone, Keyed.lookup?] using hnothing.symm
  | cons field rest ih =>
      obtain ⟨key, value⟩ := field
      obtain ⟨hnew, hrest⟩ := List.nodup_cons.mp hnodup
      have hunseen : key ∉ seen := fun hmem => hseen key hmem List.mem_cons_self
      have hseen : ∀ name ∈ key :: seen, name ∉ rest.map (·.1) := by
        intro name hname
        rcases List.mem_cons.mp hname with rfl | hname
        · exact hnew
        · exact fun hmem => hseen name hname (List.mem_cons_of_mem _ hmem)
      have hnone : Keyed.lookup? key rest = none := Keyed.lookup?_eq_none_iff.mpr hnew
      by_cases hknown : key ∈ configShape.names
      · have hnames : key = "node" ∨ key = "storePort" ∨ key = "changePort" ∨ key = "area" := by
          simpa [Shape.names, configShape, Field.of] using hknown
        rw [List.forall_mem_cons, and_iff_right hknown]
        rcases hnames with rfl | rfl | rfl | rfl <;>
          rw [decodeFields_ok_iff rfl hunseen] <;>
          simp [decodeString_ok_iff, decodeArea_ok_iff, ih hrest hseen, configures_iff,
            Keyed.lookup?, hnone, and_assoc, and_left_comm, and_comm]
      · have hrefused := decodeFields_unknown (find?_eq_none_of_not_mem hknown) rfl .value value
          rest seen before
        rw [hrefused, List.forall_mem_cons]
        constructor
        · intro hok
          cases hok
        · exact fun hall => absurd hall.1.1 hknown

theorem decodeConfig_ok_iff {fields : Keyed Json.Value} (h : fields.Sorted) {c : Config} :
    Decoding.ofValue decodeConfig (.object fields) = .ok c ↔
      (∀ p ∈ fields, p.1 ∈ configShape.names) ∧
        Configures {} (fun name => Keyed.lookup? name fields) c := by
  have hunseen : ∀ name ∈ [], name ∉ fields.map (·.1) := nofun
  rw [← decodeConfigFields_ok_iff h.nodup_keys hunseen, Decoding.ofValue, Json.Document.ofValue,
    decodeConfig, Shape.decode, Shape.decodeObject]
  change (configShape.decodeFields .value _ [] {} >>= _) = _ ↔ _
  cases configShape.decodeFields .value (Json.Document.ofFields fields) [] {} <;>
    simp [bind, Except.bind, liftFault, Json.Document.checkEnding]

/-! ## Objects of a page -/

theorem readString_ok_iff {content : Web.Value} {value : Json.Value} (h : IsJson content value)
    {s : String} : readString content = .ok s ↔ IsText value s := by
  cases h <;> simp [readString, invalidType, IsText]

theorem readAreaName_ok_iff {name : String} {kind : AreaKind} :
    readAreaName name = .ok kind ↔ name = kind.name := by
  rw [← ofName?_eq_some_iff, readAreaName]
  cases AreaKind.ofName? name <;> simp

theorem readArea_array (items : List Web.Value) (kind : AreaKind) :
    readArea (.array items) ≠ .ok kind := by
  match items with
  | [] => nofun
  | [item] => nofun
  | _ :: _ :: _ => nofun

theorem readArea_single_ok_iff {name : String} {content : Web.Value} {kind : AreaKind} :
    readArea (.object [(name, content)]) = .ok kind ↔ name = kind.name ∧ content.isNullish := by
  have hread : readArea (.object [(name, content)]) = (do
      let kind ← readAreaName name
      if content.isNullish then .ok kind else invalidType content "unit") := rfl
  rw [hread, ← readAreaName_ok_iff]
  cases readAreaName name with
  | error e => simp [bind, Except.bind]
  | ok named =>
      cases content.isNullish <;> simp [bind, Except.bind, invalidType]

theorem readArea_ok_iff {content : Web.Value} {value : Json.Value} (h : IsJson content value)
    {kind : AreaKind} : readArea content = .ok kind ↔ NamesArea value kind := by
  cases h with
  | string s =>
      rw [readArea, readAreaName_ok_iff]
      constructor
      · rintro rfl
        exact .name kind
      · rintro ⟨⟩
        rfl
  | array hitems => exact ⟨fun h => absurd h (readArea_array _ _), nofun⟩
  | object hfields hperm hsorted =>
      cases hfields with
      | nil =>
          rw [List.nil_perm.mp hperm]
          exact ⟨nofun, nofun⟩
      | cons hfirst hrest =>
          cases hrest with
          | nil =>
              rw [← List.singleton_perm.mp hperm, readArea_single_ok_iff, hfirst.isNullish_iff]
              constructor
              · rintro ⟨rfl, rfl⟩
                exact .field kind
              · rintro ⟨⟩
                exact ⟨rfl, rfl⟩
          | cons hsecond hrest =>
              refine ⟨nofun, fun hnames => ?_⟩
              cases hnames
              exact absurd hperm.length_eq (by simp)
  | null => exact ⟨nofun, nofun⟩
  | bool b => exact ⟨nofun, nofun⟩
  | number n => exact ⟨nofun, nofun⟩

theorem readField_ok_iff {α : Type} {v : Web.Value} {name : String}
    {read : Web.Value → Except String α} {reads : Json.Value → α → Prop} {found : Option Json.Value}
    (hfound : FoundAlike (v.fields.find? fun field => field.1 = name) found)
    (hread : ∀ {content value}, IsJson content value →
      ∀ {a}, read content = .ok a ↔ reads value a)
    {default a : α} : readField v name read default = .ok a ↔ FieldIs reads default found a := by
  rw [readField]
  generalize v.fields.find? (fun field => field.1 = name) = entry at hfound ⊢
  cases hfound with
  | missing => exact ⟨fun h => (Except.ok.inj h).symm, fun h => congrArg Except.ok h.symm⟩
  | found h => exact hread h

theorem bind_ok_iff {ε α β : Type} {x : Except ε α} {f : α → Except ε β} {b : β} :
    x >>= f = .ok b ↔ ∃ a, x = .ok a ∧ f a = .ok b := by
  cases x <;> simp [bind, Except.bind]

theorem readFields_ok_iff (v : Web.Value) (c : Config) :
    readFields v = .ok c ↔
      readField v "node" readString ({} : Config).node = .ok c.node ∧
        readField v "storePort" readString ({} : Config).storePort = .ok c.storePort ∧
        readField v "changePort" readString ({} : Config).changePort = .ok c.changePort ∧
        readField v "area" readArea ({} : Config).area = .ok c.area := by
  simp only [readFields, bind_ok_iff, Except.ok.injEq]
  constructor
  · rintro ⟨node, hnode, storePort, hstore, changePort, hchange, area, harea, rfl⟩
    exact ⟨hnode, hstore, hchange, harea⟩
  · rintro ⟨hnode, hstore, hchange, harea⟩
    exact ⟨_, hnode, _, hstore, _, hchange, _, harea, rfl⟩

theorem configOfValue_ok_iff {fields : List (String × Web.Value)} {json : Keyed Json.Value}
    (h : IsJson (.object fields) (.object json)) {c : Config} :
    Config.ofValue (.object fields) = .ok c ↔
      Configures {} (fun name => Keyed.lookup? name json) c := by
  cases h with
  | object hfields hperm hsorted =>
      have hfound (name : String) : FoundAlike ((Web.Value.object fields).fields.find? fun field =>
          field.1 = name) (Keyed.lookup? name json) := by
        rw [← Keyed.lookup?_of_perm hperm hsorted]
        exact hfields.find?_alike name
      rw [configures_iff, ← readField_ok_iff (hfound "node") readString_ok_iff,
        ← readField_ok_iff (hfound "storePort") readString_ok_iff,
        ← readField_ok_iff (hfound "changePort") readString_ok_iff,
        ← readField_ok_iff (hfound "area") readArea_ok_iff]
      rw [← readFields_ok_iff]
      change (readFields (.object fields)).mapError _ = .ok c ↔ _
      cases readFields (.object fields) <;> simp [Except.mapError]

/-! ## Fields of other names -/

def IsKnown (field : String × Json.Value) : Prop := field.1 ∈ configShape.names

instance : DecidablePred IsKnown := fun field => inferInstanceAs (Decidable (field.1 ∈ _))

theorem lookup?_filter_isKnown (json : Keyed Json.Value) {name : String}
    (h : name ∈ configShape.names) :
    Keyed.lookup? name (json.filter IsKnown) = Keyed.lookup? name json := by
  induction json with
  | nil => rfl
  | cons field rest ih =>
      obtain ⟨key, value⟩ := field
      by_cases hkey : key = name
      · subst hkey
        have hknown : IsKnown (key, value) := h
        simp [hknown, Keyed.lookup?]
      · by_cases hknown : IsKnown (key, value) <;>
          simp [hknown, Keyed.lookup?, hkey, ih]

theorem decodeConfig_filter_ok_iff {json : Keyed Json.Value} (h : json.Sorted) {c : Config} :
    Decoding.ofValue decodeConfig (.object (json.filter IsKnown)) = .ok c ↔
      Configures {} (fun name => Keyed.lookup? name json) c := by
  have hknown : ∀ p ∈ json.filter IsKnown, p.1 ∈ configShape.names := by
    intro p hp
    exact of_decide_eq_true (List.mem_filter.mp hp).2
  rw [decodeConfig_ok_iff (h.sublist List.filter_sublist), and_iff_right hknown]
  simp only [configures_iff]
  rw [lookup?_filter_isKnown json (by decide), lookup?_filter_isKnown json (by decide),
    lookup?_filter_isKnown json (by decide), lookup?_filter_isKnown json (by decide)]

/-! ## Opening with a configuration that is refused -/

def Page.leaving (page : Page) (name : String) : Page :=
  (page.entered name).recorded (.mark (.exit "js_entry"))

theorem run_readConfig (config : Web.Value) (page : Page) :
    (readConfig config).run.run page =
      ((Config.ofValue config).mapError BridgeError.config, page) := rfl

theorem opening_refused {config : Web.Value} {reason : String}
    (h : Config.ofValue config = .error reason) (page : Page) :
    (start config).run.run page =
        (.error (.config reason), page.leaving "StorageBridge::start") ∧
      ∀ app, (attach app config).run.run page =
        (.error (.config reason), page.leaving "StorageBridge::attach") := by
  constructor
  · rw [start, run_entry, run_bind, run_readConfig, h]
    rfl
  · intro app
    rw [attach, run_entry, run_bind, run_readConfig, h]
    rfl

/--
An object of a page is accepted as a configuration exactly if the JSON object is that
has its fields of the four known names only, and as the same one.  So a page and a JSON
value come to the same, unless there is another name and the known fields are accepted:
then the JSON value is refused and the page's object is not.  A refusal ends an opening
before anything is asked of the page.
-/
theorem unknown_names_are_not_noticed {fields : List (String × Web.Value)}
    {json : Keyed Json.Value} (h : IsJson (.object fields) (.object json)) :
    (∀ c, Config.ofValue (.object fields) = .ok c ↔
        Decoding.ofValue decodeConfig (.object (json.filter IsKnown)) = .ok c) ∧
      (∀ c, Decoding.ofValue decodeConfig (.object json) = .ok c ↔
        (∀ field ∈ json, IsKnown field) ∧ Config.ofValue (.object fields) = .ok c) ∧
      ((∀ c, Config.ofValue (.object fields) = .ok c ↔
          Decoding.ofValue decodeConfig (.object json) = .ok c) ↔
        (∀ field ∈ json, IsKnown field) ∨ ∀ c, Config.ofValue (.object fields) ≠ .ok c) ∧
      ∀ reason, Config.ofValue (.object fields) = .error reason → ∀ page : Page,
        (start (.object fields)).run.run page =
            (.error (.config reason), page.leaving "StorageBridge::start") ∧
          ∀ app, (attach app (.object fields)).run.run page =
            (.error (.config reason), page.leaving "StorageBridge::attach") := by
  have hsorted : json.Sorted := by
    cases h
    assumption
  have hjson (c : Config) : Decoding.ofValue decodeConfig (.object json) = .ok c ↔
      (∀ field ∈ json, IsKnown field) ∧ Config.ofValue (.object fields) = .ok c := by
    rw [configOfValue_ok_iff h]
    exact decodeConfig_ok_iff hsorted
  refine ⟨fun c => ?_, hjson, ?_, fun reason hrefused => opening_refused hrefused⟩
  · rw [configOfValue_ok_iff h, decodeConfig_filter_ok_iff hsorted]
  · simp only [hjson]
    by_cases hknown : ∀ field ∈ json, IsKnown field
    · exact ⟨fun _ => .inl hknown, fun _ c => (and_iff_right hknown).symm⟩
    · constructor
      · exact fun hsame => .inr fun c hc => hknown ((hsame c).mp hc).1
      · rintro (hall | hnone)
        · exact absurd hall hknown
        · exact fun c => ⟨fun hc => absurd hc (hnone c), fun hc => absurd hc.1 hknown⟩

theorem unknown_name_beside_a_known_one :
    Config.ofValue (.object [("storePort", .string "save"), ("arae", .null)]) =
        .ok { storePort := "save" } ∧
      ¬ ∀ c, Config.ofValue (.object [("storePort", .string "save"), ("arae", .null)]) = .ok c ↔
        Decoding.ofValue decodeConfig (.object [("arae", .null), ("storePort", .string "save")]) =
          .ok c := by
  have h : IsJson (.object [("storePort", .string "save"), ("arae", .null)])
      (.object [("arae", .null), ("storePort", .string "save")]) :=
    .object (.cons (.string "save") (.cons .null .nil)) (.swap ..)
      (Keyed.sorted_pair (by decide) _ _)
  have haccepted : Config.ofValue (.object [("storePort", .string "save"), ("arae", .null)]) =
      .ok { storePort := "save" } := rfl
  refine ⟨haccepted, fun hsame => ?_⟩
  rcases (unknown_names_are_not_noticed h).2.2.1.mp hsame with hknown | hnone
  · exact absurd (hknown ("arae", .null) List.mem_cons_self) (by decide)
  · exact hnone _ haccepted

/-- A misspelt name is refused in a JSON value; a page's program starts with it. -/
theorem misspelt_name_is_not_noticed :
    IsJson (.object [("storeport", .string "save")]) (.object [("storeport", .string "save")]) ∧
      Decoding.ofValue decodeConfig (.object [("storeport", .string "save")]) =
        .error (.refused (.unknownField "storeport" ["node", "storePort", "changePort", "area"])) ∧
      Config.ofValue (.object [("storeport", .string "save")]) = .ok {} ∧
      ∃ c, ({} : Page).result (start (.object [("storeport", .string "save")])).run = .ok c :=
  ⟨.object (.cons (.string "save") .nil) (.refl _) (List.pairwise_singleton _ _), rfl, rfl, _, rfl⟩

end Bridge

end TabRelay
