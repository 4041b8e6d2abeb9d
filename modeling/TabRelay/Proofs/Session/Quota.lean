import TabRelay.Proofs.Session.Sequential
import TabRelay.Proofs.Storage.Bytes

/-!
# Quotas

An area that was made with a quota is within it at every moment, whichever tab
and handler writes.  A write that would exceed the quota is refused, and nothing
else happens; every other write is taken.  What is removed frees its bytes.
-/

namespace TabRelay.Session

open TabRelay.Storage

variable {V : Type}

namespace System

def map (s : System V) (i : Nat) : PlainMap := (s.area i).plain.map

theorem getElem?_areas {s : System V} {i : Nat} (hi : i < s.areas.length) :
    s.areas[i]? = some (s.area i) := by
  simp [area, hi]

end System

namespace Machine

variable [Storable V]

/-! ## What a write may come to -/

/-- The area takes the write.  The answer follows at once unless handlers are to
hear of it. -/
structure Takes (m : Machine V) (i : Nat) (key text : String) : Prop where
  stored : m.advance.system.map i = (m.system.map i).set key text
  answer : ∀ later a, m.answered? later = some a → a = .ok
  quiet : m.raised = [] → (m.answered? [.advance, .advance]).isSome

/-- In so many steps the machine comes back to the frames with the answer, and the
system is as it was all the time. -/
structure ComesBack (m : Machine V) (n : Nat) (base : List (Frame V)) (a : Answer V) : Prop where
  meanwhile : ∀ passed ∈ m.history (List.replicate n .advance), passed.system = m.system
  system : (m.playAll (List.replicate n .advance)).system = m.system
  stack : (m.playAll (List.replicate n .advance)).stack = base
  control : (m.playAll (List.replicate n .advance)).control = .done a

structure Refuses (m : Machine V) (key : String) (quota : Nat) : Prop where
  quiet : m.raised = []
  answers : ∃ n ≤ 3, m.ComesBack n m.stack (m.reported (.refused (.quotaExceeded key quota)))

/-- What holds of an area with a quota, and of the next call to it. -/
structure KeepsQuota (m : Machine V) (i quota : Nat) : Prop where
  within : (m.system.area i).plain.Within quota
  replaced : ∀ key,
    replacedBytes key (m.system.area i).entries ≤ usedBytes (m.system.area i).entries
  takes : ∀ h key text, m.invocation? = some ⟨h, .set key text⟩ → h.area = i →
    ((m.system.map i).set key text).bytes ≤ quota → m.Takes i key text
  refuses : ∀ h key text, m.invocation? = some ⟨h, .set key text⟩ → h.area = i →
    ¬ ((m.system.map i).set key text).bytes ≤ quota → m.Refuses key quota
  rewrites : ∀ h key text old, m.invocation? = some ⟨h, .set key text⟩ → h.area = i →
    (m.system.map i).get? key = some old → text.utf8ByteSize ≤ old.utf8ByteSize →
    m.Takes i key text
  removes : ∀ h key, m.invocation? = some ⟨h, .remove key⟩ → h.area = i →
    m.advance.system.map i = (m.system.map i).erase key ∧
      ∀ old, (m.system.map i).get? key = some old →
        (m.advance.system.map i).bytes + entryBytes key old = (m.system.map i).bytes
  clears : ∀ h, m.invocation? = some ⟨h, .clear⟩ → h.area = i →
    m.advance.system.map i = .empty ∧ (m.advance.system.map i).bytes = 0

/-! ## The area is within its quota -/

theorem Orderly.within {m : Machine V} (h : m.Orderly) (hgrounded : Grounded m.system)
    {i quota : Nat} (hi : i < m.system.areas.length)
    (hwithin : (m.system.area i).plain.Within quota) :
    (m.advance.system.area i).plain.Within quota := by
  have hplain := h.plain hgrounded i
  rw [System.getElem?_areas (hi.trans_le h.alters.length_le), System.getElem?_areas hi] at hplain
  cases hnext : m.happening? i with
  | none =>
      have hsame : (m.advance.system.area i).plain = (m.system.area i).plain := by
        simpa [hnext] using hplain
      rw [hsame]
      exact hwithin
  | some happening =>
      simp only [hnext, Option.toList_some, List.foldl_cons, List.foldl_nil,
        Option.map_some] at hplain
      cases happening with
      | opened area =>
          unfold happening? at hnext
          split at hnext
          · split at hnext
            · split at hnext
              · omega
              · contradiction
            · simp at hnext
          · contradiction
      | called operation =>
          rw [Option.some.inj hplain]
          exact hwithin.perform operation

theorem within_playAll (before later : List (Move V)) {id : String} {kind : AreaKind}
    {quota : Nat}
    (hmade : (idle.playAll before).control = .run (.newWithQuota id kind quota)) :
    (idle.playAll before).system.areas.length <
        (idle.playAll (before ++ .advance :: later)).system.areas.length ∧
      ((idle.playAll (before ++ .advance :: later)).system.area
        (idle.playAll before).system.areas.length).plain.Within quota := by
  set i := (idle.playAll before).system.areas.length with hi
  have hnew := advance_creates hmade rfl
  have hstart : i < (idle.playAll (before ++ [.advance])).system.areas.length ∧
      ((idle.playAll (before ++ [.advance])).system.area i).plain.Within quota := by
    have hadvance : idle.playAll (before ++ [.advance]) = (idle.playAll before).advance :=
      playAll_append ..
    rw [hadvance, hnew, System.area, hnew]
    refine ⟨by simp [hi], ?_⟩
    simp only [hi, List.getD_eq_getElem?_getD, List.getElem?_concat_length, Option.getD_some]
    refine ⟨rfl, ?_⟩
    simp only [Area.plain, PlainMap.ofEntries_nil, PlainMap.bytes_empty, Nat.zero_le]
  have h := later_induction (before ++ [.advance]) (Q := fun _ => True) (R := fun _ => True)
    (P := fun _ m => i < m.system.areas.length ∧ (m.system.area i).plain.Within quota) hstart
    (fun _ m step hm => by rwa [system_begin]) (fun _ m left hm => by rwa [system_decide])
    (fun later _ _ _ _ hm =>
      ⟨hm.1.trans_le (orderly_playAll _).alters.length_le,
        (orderly_playAll _).within (grounded_playAll _) hm.1 hm.2⟩)
    later (fun _ _ => trivial) (fun _ _ => trivial)
  simpa using h

/-! ## Coming back with a refusal -/

theorem ComesBack.here {m : Machine V} {a : Answer V} (hdone : m.control = .done a) :
    m.ComesBack 0 m.stack a :=
  ⟨by simp, rfl, rfl, hdone⟩

theorem ComesBack.step {m : Machine V} {n : Nat} {base : List (Frame V)} {a : Answer V}
    (h : m.advance.ComesBack n base a) (hsame : m.advance.system = m.system) :
    m.ComesBack (n + 1) base a where
  meanwhile := by
    intro passed hpassed
    rcases List.mem_cons.mp hpassed with rfl | hpassed
    · rfl
    · exact (h.meanwhile passed hpassed).trans hsame
  system := h.system.trans hsame
  stack := h.stack
  control := h.control

theorem ComesBack.keep {m : Machine V} {h : Handle} {a : Answer V} {base : List (Frame V)}
    (hnamed : (∃ p ∈ m.system.storageNames, p.2 = h) ∨
      ∃ p ∈ m.system.relayNames, p.2.handle = h)
    (hdone : m.control = .done a) (hstack : m.stack = .keep h.area :: base) :
    m.ComesBack 1 base a := by
  have hadvance := advance_keep hnamed hdone hstack
  have hbase : m.advance.stack = base := by rw [hadvance]
  rw [← hbase]
  exact (ComesBack.here (by rw [hadvance, hdone])).step (by rw [hadvance])

theorem advance_writing_refused {m : Machine V} {e : AreaError} {relay : Relay} {w : Write V}
    {stored : Option String} {rest : List (Frame V)} (hdone : m.control = .done (.areaError e))
    (hstack : m.stack = .writing relay w stored :: rest) :
    m.advance.system = m.system ∧ m.advance.stack = rest ∧
      m.advance.control = .done (.writeError (.storage w.key e)) := by
  simp [advance, hdone, resume, hstack, finishWrite, mark, record, answer]

theorem Awaits.comesBack {m : Machine V} {step : Step V} {h : Handle}
    {waiting : List (Frame V)} (hwaiting : m.Awaits step h waiting) {next : Machine V}
    (hnamed : (∃ p ∈ next.system.storageNames, p.2 = h) ∨
      ∃ p ∈ next.system.relayNames, p.2.handle = h) {e : AreaError}
    (hdone : next.control = .done (.areaError e)) (hstack : next.stack = waiting ++ m.stack) :
    ∃ n ≤ 2, next.ComesBack n m.stack (step.reported (.refused e)) := by
  cases hwaiting with
  | reads hdirect =>
      have hreported : step.reported (.refused e) = .areaError e := by
        simp only [Step.reported, hdirect, replied]
      have hbase : next.stack = m.stack := hstack
      rw [← hbase, hreported]
      exact ⟨0, by omega, .here hdone⟩
  | direct hdirect =>
      have hreported : step.reported (.refused e) = .areaError e := by
        simp only [Step.reported, hdirect, replied]
      rw [hreported]
      exact ⟨1, by omega, .keep hnamed hdone hstack⟩
  | @relayed id relay w stored hwrite hname hhandle =>
      have hreported : step.reported (.refused e) = .writeError (.storage w.key e) := by
        simp only [Step.reported, hwrite]
      rw [hreported]
      obtain ⟨hsystem, hrest, htold⟩ := advance_writing_refused hdone hstack
      rw [← hhandle, ← hsystem] at hnamed
      exact ⟨2, by omega, (ComesBack.keep hnamed htold hrest).step hsystem⟩

/-! ## Calls to the area -/

theorem Orderly.map_advance {m : Machine V} (h : m.Orderly) (hgrounded : Grounded m.system)
    {call : Invocation} (hcall : m.invocation? = some call) :
    m.advance.system.map call.handle.area =
      ((m.system.area call.handle.area).plain.perform call.operation).area.map := by
  obtain ⟨step, waiting, trace, hrun, hasked, hwaiting, hadvance⟩ := h.operates hcall
  have hsame : (m.advance.system.area call.handle.area) =
      ((m.system.area call.handle.area).perform call.operation).area := by
    rw [hadvance]
    exact System.area_setArea_self _ (hgrounded.called hcall)
  have hrefines := Area.perform_refines (hgrounded.sorted_area call.handle.area) call.operation
  rw [System.map, hsame, hrefines.area]

theorem Orderly.takes {m : Machine V} (h : m.Orderly) (hgrounded : Grounded m.system)
    {handle : Handle} {key text : String} {quota : Nat}
    (hcall : m.invocation? = some ⟨handle, .set key text⟩)
    (hquota : (m.system.area handle.area).plain.quota = some quota)
    (hfits : ((m.system.map handle.area).set key text).bytes ≤ quota) :
    m.Takes handle.area key text where
  stored := by
    rw [h.map_advance hgrounded hcall]
    rw [PlainArea.perform_set_of_fits hquota hfits]
    rfl
  answer later a ha := by
    have hreply : ((m.system.area handle.area).perform (.set key text)).reply = .done := by
      have hrefines := Area.perform_refines (hgrounded.sorted_area handle.area) (.set key text)
      rw [hrefines.reply, PlainArea.perform_set_of_fits hquota hfits]
      rfl
    have hanswer := (h.due hcall).returned h.advance later ha
    rw [hanswer, hreply]
    unfold reported
    split
    · unfold Step.reported
      split <;> simp_all [replied]
    · rfl
  quiet := h.answered hcall

theorem Orderly.refuses {m : Machine V} (h : m.Orderly) (hgrounded : Grounded m.system)
    {handle : Handle} {key text : String} {quota : Nat}
    (hcall : m.invocation? = some ⟨handle, .set key text⟩)
    (hquota : (m.system.area handle.area).quota = some quota)
    (hexceeds : ¬ ((m.system.map handle.area).set key text).bytes ≤ quota) :
    m.Refuses key quota := by
  have hrefused : (m.system.area handle.area).perform (.set key text) =
      ⟨m.system.area handle.area, none, .refused (.quotaExceeded key quota)⟩ := by
    have hneeded := Area.neededBytes_eq (hgrounded.sorted_area handle.area) key text
    have hfits : (m.system.area handle.area).fits key text = false := by
      simp only [Area.fits, hquota, hneeded]
      exact decide_eq_false hexceeds
    simp [Area.perform, Area.set, hfits, hquota]
  refine ⟨by rw [h.raised hcall, hrefused]; rfl, ?_⟩
  obtain ⟨step, waiting, trace, hrun, hasked, hwaiting, hadvance⟩ := h.operates hcall
  have hsystem : m.advance.system = m.system := by
    simp only [hadvance, operated, hrefused, System.setArea_area]
  have hdone : m.advance.control = .done (.areaError (.quotaExceeded key quota)) := by
    simp only [hadvance, operated, hrefused, replied]
  have hstack : m.advance.stack = waiting ++ m.stack := by
    simp [hadvance, operated, hrefused, deliveries]
  have hreported : m.reported (.refused (.quotaExceeded key quota)) =
      step.reported (.refused (.quotaExceeded key quota)) := by
    simp only [reported, hrun]
  obtain ⟨n, hn, hback⟩ :=
    hwaiting.comesBack (by rw [hsystem]; exact asked?_named hasked) hdone hstack
  rw [hreported]
  exact ⟨n + 1, by omega, hback.step hsystem⟩

theorem Orderly.keepsQuota {m : Machine V} (h : m.Orderly) (hgrounded : Grounded m.system)
    {i quota : Nat} (hwithin : (m.system.area i).plain.Within quota) : m.KeepsQuota i quota where
  within := hwithin
  replaced key := replacedBytes_le key _
  takes := by
    rintro handle key text hcall rfl hfits
    exact h.takes hgrounded hcall hwithin.quota hfits
  refuses := by
    rintro handle key text hcall rfl hexceeds
    exact h.refuses hgrounded hcall hwithin.quota hexceeds
  rewrites := by
    rintro handle key text old hcall rfl hold hshort
    have hfits := (PlainMap.bytes_set_le hold hshort).trans hwithin.bytes
    exact h.takes hgrounded hcall hwithin.quota hfits
  removes := by
    rintro handle key hcall rfl
    have hmap : m.advance.system.map handle.area = (m.system.map handle.area).erase key :=
      h.map_advance hgrounded hcall
    refine ⟨hmap, ?_⟩
    intro old hold
    rw [hmap, PlainMap.bytes_erase hold]
  clears := by
    rintro handle hcall rfl
    have hmap : m.advance.system.map handle.area = .empty := h.map_advance hgrounded hcall
    exact ⟨hmap, by rw [hmap, PlainMap.bytes_empty]⟩

/--
From the step that makes an area with a quota on, whatever tabs and handlers do:
the area is within its quota, and a write to it is taken exactly if the map with
the new text is.
-/
theorem quota_is_kept (before later : List (Move V)) {id : String} {kind : AreaKind} {quota : Nat}
    (hmade : (idle.playAll before).control = .run (.newWithQuota id kind quota)) :
    (idle.playAll (before ++ .advance :: later)).KeepsQuota
      (idle.playAll before).system.areas.length quota :=
  (orderly_playAll _).keepsQuota (grounded_playAll _) (within_playAll before later hmade).2

/-- The handler of the second tab writes one byte too many, and then just enough. -/
def boundaryWrites : List (Move Draft) :=
  [.begin (.openTab "b" "a"), .advance,
    .begin (.subscribe "b" "s" [.set "b" "k" "333", .set "b" "k" "22"] none []),
    .advance, .advance, .advance, .begin (.set "a" "k" "1"), .advance, .advance, .advance]

theorem boundary_writes_keep_quota :
    Refuses (idle.playAll ([.begin (.newWithQuota "a" .localArea 3)] ++ .advance :: boundaryWrites))
        "k" 3 ∧
      Takes (idle.playAll ([.begin (.newWithQuota "a" .localArea 3)] ++
        .advance :: (boundaryWrites ++ List.replicate 4 .advance))) 0 "k" "22" := by
  have hmade : (idle.playAll [.begin (.newWithQuota "a" .localArea 3)] : Machine Draft).control =
      .run (.newWithQuota "a" .localArea 3) := rfl
  have hfirst := quota_is_kept [.begin (.newWithQuota "a" .localArea 3)] boundaryWrites hmade
  have hsecond := quota_is_kept [.begin (.newWithQuota "a" .localArea 3)]
    (boundaryWrites ++ List.replicate 4 .advance) hmade
  refine ⟨hfirst.refuses ⟨0, 1⟩ "k" "333" (by decide) rfl ?_,
    hsecond.takes ⟨0, 1⟩ "k" "22" (by decide) rfl ?_⟩
  · decide
  · decide

end Machine

end TabRelay.Session
