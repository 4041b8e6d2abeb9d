import TabRelay.Proofs.Bridge.Reading

/-!
# The stages of an opening

An opening goes through up to eleven stages.  Whether a stage fails, which calls it makes and
what it does to the page is read off the page, the configuration and the ports of the
application, before the first stage is entered.
-/

namespace TabRelay.Bridge

open TabRelay.Storage TabRelay.Web

variable {α β : Type}

/-! ## What is seen of a page -/

def Trace.isMark : Trace → Bool
  | mark _ => true
  | _ => false

/-- What an opening depends on, how often each call was made, and what happened. -/
structure Surface where
  hasWindow : Bool
  hasDocument : Bool
  nodes : List String
  entries : AreaKind → Option Entries
  program : AppSpec
  thrownAt : PageCall → Nat → Option Value
  called : PageCall → Nat
  effects : List Trace

def Surface.having (s : Surface) (calls : List PageCall) (effects : List Trace) : Surface :=
  { s with
    called := fun call => s.called call + calls.count call
    effects := s.effects ++ effects }

@[simp] theorem Surface.having_nil (s : Surface) : s.having [] [] = s := by
  simp [having]

theorem Surface.having_having (s : Surface) (calls later : List PageCall)
    (effects more : List Trace) :
    (s.having calls effects).having later more = s.having (calls ++ later) (effects ++ more) := by
  simp [having, List.count_append, Nat.add_assoc]

namespace Page

/-- All that is noticed but for the marks, the first first. -/
def effects (page : Page) : List Trace := (page.trace.filter fun entry => !entry.isMark).reverse

def surface (page : Page) : Surface where
  hasWindow := page.hasWindow
  hasDocument := page.hasDocument
  nodes := page.nodes
  entries := page.entries
  program := page.program
  thrownAt call := (page.scheduleOf call).thrownAt
  called := page.called
  effects := page.effects

theorem surface_same (page : Page) : page.surface = page.surface.having [] [] :=
  (Surface.having_nil _).symm

theorem surface_calling (page : Page) (call : PageCall) :
    (page.calling call).surface = page.surface.having [call] [] := by
  have hcalled : (page.calling call).called =
      fun other => page.called other + [call].count other := by
    funext other
    rw [called_calling]
    by_cases hcall : call = other <;> simp [hcall]
  have hentries : (page.calling call).entries = page.entries := by
    funext kind
    cases kind <;> rfl
  simp only [surface, hcalled, hentries, thrownAt_calling, Surface.having, List.append_nil]
  rfl

theorem entries_calling (page : Page) (call : PageCall) :
    (page.calling call).entries = page.entries :=
  congrArg Surface.entries (page.surface_calling call)

theorem surface_calling_of {page q : Page} {calls : List PageCall} {effects : List Trace}
    (h : page.surface = q.surface.having calls effects) (call : PageCall) :
    (page.calling call).surface = q.surface.having (calls ++ [call]) effects := by
  rw [surface_calling, h, Surface.having_having, List.append_nil]

theorem thrownBy_of_surface {page q : Page} {calls : List PageCall} {effects : List Trace}
    (h : page.surface = q.surface.having calls effects) (call : PageCall) :
    page.thrownBy call = (q.scheduleOf call).thrownAt (q.called call + calls.count call) := by
  have hthrownAt := congrFun (congrArg Surface.thrownAt h) call
  have hcalled := congrFun (congrArg Surface.called h) call
  exact (congrFun hthrownAt _).trans (congrArg (q.scheduleOf call).thrownAt hcalled)

theorem surface_recorded (page : Page) {entry : Trace} (h : entry.isMark = false) :
    (page.recorded entry).surface = page.surface.having [] [entry] := by
  have heffects : (page.recorded entry).effects = page.effects ++ [entry] := by
    simp [effects, recorded, h]
  exact congrArg (fun effects => { page.surface with effects }) heffects

@[simp] theorem surface_recorded_mark (page : Page) (m : Mark) :
    (page.recorded (.mark m)).surface = page.surface := rfl

end Page

/-! ## Reading the entries -/

namespace Page

def readingFrom (page : Page) (index : Nat) : Nat → List PageCall × Option Value
  | 0 => ([], none)
  | count + 1 =>
      match (page.scheduleOf .key).thrownAt (page.called .key + index) with
      | some thrown => ([.key], some thrown)
      | none =>
          match (page.scheduleOf .getItem).thrownAt (page.called .getItem + index) with
          | some thrown => ([.key, .getItem], some thrown)
          | none =>
              let (calls, thrown) := page.readingFrom (index + 1) count
              (.key :: .getItem :: calls, thrown)

def reading (page : Page) (count : Nat) : List PageCall × Option Value :=
  match page.thrownBy .length with
  | some thrown => ([.length], some thrown)
  | none =>
      let (calls, thrown) := page.readingFrom 0 count
      (.length :: calls, thrown)

end Page

/-! ## Stages -/

inductive Stage where
  | config
  | window
  | storage
  | snapshot
  | document
  | init
  | ports
  | changePort
  | storePort
  | subscribe
  | listen
  deriving DecidableEq, Repr

def Page.portsOf (page : Page) (app : Nat) : Value :=
  (page.apps[app]?.map (·.ports)).getD .undefined

structure Situation where
  page : Page
  given : Value
  ports : Value

namespace Situation

variable (s : Situation)

def config : Config := (Config.ofValue s.given).toOption.getD {}

def entries : Entries := (s.page.entries s.config.area).getD []

def node : Value :=
  if s.page.nodes.contains s.config.node then .element s.config.node else .null

def flags : Value := Value.ofSnapshot s.entries.snapshot

def hasPort (name : String) (method : PortMethod) : Bool :=
  match s.ports.property name with
  | .ok port => port.isObject && Page.findPort.hasMethod method port
  | .error _ => false

def port (name : String) : Value :=
  match s.ports.property name with
  | .ok port => port
  | .error _ => .undefined

/-- The error with which a stage fails.  A mount node that is missing is no failure. -/
def failure? : Stage → Option BridgeError
  | .config =>
      match Config.ofValue s.given with
      | .error reason => some (.config reason)
      | .ok _ => none
  | .window => if s.page.hasWindow then none else some .noWindow
  | .storage =>
      match s.page.thrownBy (getterOf s.config.area) with
      | some thrown => some (.storage thrown)
      | none =>
          if (s.page.entries s.config.area).isSome then none
          else some (.storageUnavailable s.config.area)
  | .snapshot => (s.page.reading s.entries.length).2.map .storage
  | .document => if s.page.hasDocument then none else some .noDocument
  | .init => (s.page.thrownBy .init).map .init
  | .ports => if s.ports.isObject then none else some .noPorts
  | .changePort =>
      if s.hasPort s.config.changePort .send then none
      else some (.missingPort s.config.changePort .send)
  | .storePort =>
      if s.hasPort s.config.storePort .subscribe then none
      else some (.missingPort s.config.storePort .subscribe)
  | .subscribe =>
      if (s.port s.config.storePort).isPort then
        (s.page.thrownBy .subscribe).map (.port s.config.storePort)
      else none
  | .listen => (s.page.thrownBy .addEventListener).map .storage

def calls : Stage → List PageCall
  | .storage => [getterOf s.config.area]
  | .snapshot => (s.page.reading s.entries.length).1
  | .init => [.init]
  | .subscribe => if (s.port s.config.storePort).isPort then [.subscribe] else []
  | .listen => [.addEventListener]
  | _ => []

def effects : Stage → List Trace
  | .init => [.init s.node s.flags]
  | .subscribe =>
      if (s.port s.config.storePort).isPort then [.subscribed s.config.storePort] else []
  | .listen => [.listening]
  | _ => []

end Situation

/-! ## The stage that a call belongs to -/

def PageCall.stage? : PageCall → Option Stage
  | .localStorage | .sessionStorage => some .storage
  | .length | .key | .getItem => some .snapshot
  | .init => some .init
  | .subscribe => some .subscribe
  | .addEventListener => some .listen
  | _ => none

theorem stage?_getterOf (kind : AreaKind) : (getterOf kind).stage? = some .storage := by
  cases kind <;> rfl

theorem Page.stage?_of_mem_readingFrom {page : Page} {call : PageCall} (count index : Nat)
    (h : call ∈ (page.readingFrom index count).1) : call.stage? = some .snapshot := by
  induction count generalizing index with
  | zero => cases h
  | succ count ih =>
      unfold readingFrom at h
      split at h
      · obtain rfl := List.mem_singleton.mp h
        rfl
      · split at h
        · rcases List.mem_pair.mp h with rfl | rfl <;> rfl
        · simp only [List.mem_cons] at h
          obtain rfl | rfl | hrest := h
          · rfl
          · rfl
          · exact ih _ hrest

theorem Page.stage?_of_mem_reading {page : Page} {call : PageCall} {count : Nat}
    (h : call ∈ (page.reading count).1) : call.stage? = some .snapshot := by
  unfold reading at h
  split at h
  · obtain rfl := List.mem_singleton.mp h
    rfl
  · obtain rfl | hrest := List.mem_cons.mp h
    · rfl
    · exact stage?_of_mem_readingFrom _ _ hrest

namespace Situation

variable {s : Situation} {call : PageCall} {stage : Stage} {stages : List Stage}

theorem stage?_of_mem_calls (h : call ∈ s.calls stage) : call.stage? = some stage := by
  cases stage with
  | storage =>
      obtain rfl := List.mem_singleton.mp h
      exact stage?_getterOf _
  | snapshot => exact Page.stage?_of_mem_reading h
  | init | listen =>
      obtain rfl := List.mem_singleton.mp h
      rfl
  | subscribe =>
      simp only [calls] at h
      split at h
      · obtain rfl := List.mem_singleton.mp h
        rfl
      · cases h
  | _ => cases h

theorem not_mem_calls (h : call.stage? = some stage) (hnew : stage ∉ stages) :
    call ∉ stages.flatMap s.calls := by
  intro hmem
  obtain ⟨other, hother, hcall⟩ := List.mem_flatMap.mp hmem
  obtain rfl : stage = other := Option.some.inj (h.symm.trans (stage?_of_mem_calls hcall))
  exact hnew hother

end Situation

/-! ## Going through a stage -/

/-- The page when some stages were reached and some were passed. -/
def Stands (s : Situation) (reached passed : List Stage) (page : Page) : Prop :=
  page.surface = s.page.surface.having (reached.flatMap s.calls) (passed.flatMap s.effects)

/-- The act is the stage: it fails as the stage does, or else returns `b`. -/
inductive Does (s : Situation) (stage : Stage) (page : Page) (x : Bridging β) (b : β) : Prop where
  | failed {e : BridgeError} {next : Page} (hfails : s.failure? stage = some e)
      (hrun : x.run.run page = (.error e, next))
      (hnext : next.surface = page.surface.having (s.calls stage) [])
  | passed {next : Page} (hpasses : s.failure? stage = none)
      (hrun : x.run.run page = (.ok b, next))
      (hnext : next.surface = page.surface.having (s.calls stage) (s.effects stage))

namespace Stands

variable {s : Situation} {reached passed : List Stage} {page next : Page}

theorem failing (h : Stands s reached passed page) {stage : Stage}
    (hnext : next.surface = page.surface.having (s.calls stage) []) :
    Stands s (reached ++ [stage]) passed next := by
  rw [Stands, hnext, h, Surface.having_having]
  simp

theorem passing (h : Stands s reached passed page) {stage : Stage}
    (hnext : next.surface = page.surface.having (s.calls stage) (s.effects stage)) :
    Stands s (reached ++ [stage]) (passed ++ [stage]) next := by
  rw [Stands, hnext, h, Surface.having_having]
  simp

section

variable (h : Stands s reached passed page)
include h

theorem hasWindow : page.hasWindow = s.page.hasWindow := congrArg Surface.hasWindow h

theorem hasDocument : page.hasDocument = s.page.hasDocument := congrArg Surface.hasDocument h

theorem nodes : page.nodes = s.page.nodes := congrArg Surface.nodes h

theorem program : page.program = s.page.program := congrArg Surface.program h

theorem entries : page.entries = s.page.entries := congrArg Surface.entries h

theorem called (call : PageCall) :
    page.called call = s.page.called call + (reached.flatMap s.calls).count call :=
  congrFun (congrArg Surface.called h) call

theorem thrownBy {call : PageCall} {stage : Stage} (hcall : call.stage? = some stage)
    (hnew : stage ∉ reached) : page.thrownBy call = s.page.thrownBy call := by
  have hnone := List.count_eq_zero.mpr (Situation.not_mem_calls (s := s) hcall hnew)
  rw [Page.thrownBy_of_surface h, hnone]
  rfl

end

end Stands

end TabRelay.Bridge
