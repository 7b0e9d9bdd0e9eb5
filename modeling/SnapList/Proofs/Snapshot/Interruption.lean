/-
  Requests that are broken off.

  A pin that fails breaks off the request of a reader in the middle of a capture and leaves a cache
  that may be HALF WRITTEN: the slots and the length of an attempt that was given up, under the stamp
  of the snapshot before. The next request believes the cache if the list has that stamp. A half
  written cache is never believed, since an attempt is given up only after a write. But a reader that
  has copied nothing yet begins with the empty snapshot at stamp zero, and zero is also the stamp of a
  list that was never written. Such a reader is SPOILED: it hands out no slots until the list is
  written.

  Main statements: how a capture ends, whole or half written (`Scene.exists_ends`); what a request
  leaves is dated by an earlier state of the list (`Dated.ask`); and every reader that is not spoiled
  is given what a new reader would be given, whatever requests of its were broken off before
  (`snapshot_eq_of_over`), while a spoiled one is not (`snapshot_spoiled`).
-/
import SnapList.Proofs.LiveList.Reachable
import SnapList.Proofs.Snapshot.Race

namespace SnapList

open LiveList (Operation Answer Visit Later runOperations writes)

/-! ## Captures -/

/-- The operations of the visits that took place: those that were answered. -/
def tried (visits : List Visit) (answers : List (List Answer)) : List Operation :=
  (visits.take answers.length).flatMap Visit.operations

def mutations (visits : List Visit) : Nat :=
  (visits.flatMap Visit.operations).countP (·.isChange)

@[simp] theorem tried_nil (visits : List Visit) : tried visits [] = [] := rfl

@[simp] theorem tried_of_nil (answers : List (List Answer)) : tried [] answers = [] := by
  simp [tried]

theorem tried_cons (visit : Visit) (rest : List Visit) (answer : List Answer)
    (answers : List (List Answer)) :
    tried (visit :: rest) (answer :: answers) = visit.operations ++ tried rest answers := rfl

theorem tried_first (visit : Visit) (rest : List Visit) (answer : List Answer) :
    tried (visit :: rest) [answer] = visit.operations := by
  rw [tried_cons, tried_nil, List.append_nil]

theorem LiveList.writes_le (list : LiveList) (operations : List Operation) :
    writes list operations ≤ operations.countP (·.isChange) := by
  induction operations generalizing list with
  | nil => exact Nat.le_refl _
  | cons operation rest ih =>
    have hone : (operation.takesLock list).toNat ≤ if operation.isChange then 1 else 0 := by
      cases operation with
      | read question => exact Nat.le_refl _
      | change mutation => exact Bool.toNat_le _
    rw [writes, List.countP_cons, Nat.add_comm]
    exact Nat.add_le_add (ih _) hone

namespace Scene

/-- How often the captured list is written by what others do: not at all if they act on another
list. -/
def written (scene : Scene) (operations : List Operation) : Nat :=
  match scene.other with
  | none => writes scene.list operations
  | some _ => 0

def visited (scene : Scene) (visit : Visit) : Scene := scene.act (visit.run scene.acted).list

@[simp] theorem written_nil (scene : Scene) : scene.written [] = 0 := by
  unfold written
  split <;> rfl

theorem written_append (scene : Scene) (first second : List Operation) :
    scene.written (first ++ second) =
      scene.written first + (scene.act (runOperations scene.acted first).1).written second := by
  obtain ⟨list, other⟩ := scene
  cases other with
  | none => exact list.writes_append first second
  | some other => rfl

theorem written_le (scene : Scene) (operations : List Operation) :
    scene.written operations ≤ operations.countP (·.isChange) := by
  unfold written
  split
  · exact scene.list.writes_le operations
  · exact Nat.zero_le _

theorem later_act_run (scene : Scene) (operations : List Operation) :
    scene.list.Later (scene.act (runOperations scene.acted operations).1).list
      (scene.written operations) := by
  obtain ⟨list, other⟩ := scene
  cases other with
  | none => exact LiveList.later_runOperations operations list
  | some other => exact LiveList.later_refl list

/-- However a capture ends, it leaves the scene as the visits that took place have made it. -/
theorem scene_capture (scene : Scene) (cache : Snapshot) (visits : List Visit) :
    (scene.capture cache visits).scene =
      scene.act
        (runOperations scene.acted (tried visits (scene.capture cache visits).answers)).1 := by
  induction visits generalizing scene cache with
  | nil =>
    unfold capture
    split <;> exact scene.act_acted.symm
  | cons visit rest ih =>
    unfold capture
    split
    · exact scene.act_acted.symm
    · dsimp only
      split
      · rw [Capture.after, tried_first]
        rfl
      · split
        · rw [Capture.after, tried_first]
          rfl
        · have hrest := ih (scene.visited visit) ((scene.visited visit).list.copyInto cache)
          rw [Capture.after, Capture.retried, tried_cons, LiveList.list_runOperations_append]
          refine hrest.trans ?_
          rw [visited, acted_act, act_act]
          rfl

end Scene

/-- A capture over `cache` has ended after `writes` writes of the list. If it went through, the new
cache shows the list; if it was broken off, the new cache has the old stamp, and is the old one unless
the list was written. -/
structure Scene.Ends (scene : Scene) (cache : Snapshot) (visits : List Visit) (capture : Capture)
    (writes : Nat) : Prop where
  count : writes = scene.written (tried visits capture.answers)
  later : scene.list.Later capture.scene.list writes
  whole : ∀ retries, capture.result = .ok retries → capture.cache = capture.scene.list.observed
  half : ∀ failure, capture.result = .error failure →
    capture.cache.noEntry = cache.noEntry ∧ capture.cache.stamp = cache.stamp ∧
      (writes = 0 → capture.cache = cache)

namespace Scene

variable {scene : Scene} {cache : Snapshot} {visit : Visit} {visits : List Visit}

theorem ends_of_fails :
    scene.Ends cache (visit :: visits)
      (Capture.after
        { scene := scene.visited visit, cache, result := .error (.aborted .pinFailed) }
        (visit.run scene.acted)) (scene.written visit.operations) where
  count := by rw [Capture.after, tried_first]
  later := scene.later_act_run visit.operations
  whole := fun _ h => nomatch h
  half := fun _ _ => ⟨rfl, rfl, fun _ => rfl⟩

theorem ends_of_validates (hc : cache.noEntry = scene.list.noEntry)
    (hv : (scene.visited visit).list.lock.validates scene.list.stamp = true) :
    scene.Ends cache (visit :: visits)
      (Capture.after
        { scene := scene.visited visit
          cache := { (scene.visited visit).list.copyInto cache with stamp := scene.list.stamp }
          result := .ok 0 }
        (visit.run scene.acted)) (scene.written visit.operations) where
  count := by rw [Capture.after, tried_first]
  later := scene.later_act_run visit.operations
  whole := fun _ _ => by
    have hnoEntry := (scene.later_act_run visit.operations).noEntry
    have hstamp : (scene.visited visit).list.stamp = scene.list.stamp :=
      StampLock.validates_iff.1 hv
    rw [← hstamp]
    exact copyInto_observed (hc.trans hnoEntry.symm)
  half := fun _ h => nomatch h

/-- The first attempt is given up, because the list was written, and the others follow. -/
theorem Ends.retried {others : Nat} {capture : Capture}
    (hwrote : scene.written visit.operations ≠ 0)
    (h : Ends (scene.visited visit) ((scene.visited visit).list.copyInto cache) visits capture
      others) :
    scene.Ends cache (visit :: visits) (capture.retried.after (visit.run scene.acted))
      (scene.written visit.operations + others) where
  count := by
    rw [h.count, Capture.after, Capture.retried, tried_cons, written_append]
    rfl
  later := (scene.later_act_run visit.operations).trans h.later
  whole := fun retries hr => by
    have hmap : capture.result.map (· + 1) = .ok retries := hr
    cases hresult : capture.result with
    | ok fewer => exact h.whole fewer hresult
    | error failure =>
      rw [hresult] at hmap
      cases hmap
  half := fun failure hr => by
    have hmap : capture.result.map (· + 1) = .error failure := hr
    cases hresult : capture.result with
    | ok fewer =>
      rw [hresult] at hmap
      cases hmap
    | error failure =>
      obtain ⟨hnoEntry, hstamp, -⟩ := h.half failure hresult
      rw [LiveList.copyInto_eq] at hnoEntry hstamp
      exact ⟨hnoEntry, hstamp, fun hnone => absurd (Nat.eq_zero_of_add_eq_zero_right hnone) hwrote⟩

/-- However a capture ends, it shows the list or leaves the stamp of the cache. The induction is on the
visits: an attempt is given up only if the list was written, and then the cache may have changed. -/
theorem exists_ends (hf : scene.list.lock.isLocked = false)
    (hc : cache.noEntry = scene.list.noEntry) (visits : List Visit) :
    ∃ writes, scene.Ends cache visits (scene.capture cache visits) writes := by
  induction visits generalizing scene cache with
  | nil =>
    rw [Scene.capture_nil hf]
    refine ⟨0, scene.written_nil.symm, LiveList.later_refl _, fun _ _ => ?_, fun _ h => nomatch h⟩
    show { cache with slots := _, len := _, stamp := _ } = scene.list.observed
    rw [hc]
    rfl
  | cons visit rest ih =>
    have hlater : scene.list.Later (scene.visited visit).list _ :=
      scene.later_act_run visit.operations
    unfold Scene.capture
    rw [StampLock.readStamp_of_free hf]
    dsimp only
    split
    · exact ⟨_, ends_of_fails⟩
    · split
      · rename_i hv
        exact ⟨_, ends_of_validates hc hv⟩
      · rename_i hv
        have hwrote : scene.written visit.operations ≠ 0 := fun hnone => hv <| by
          have hsame : (scene.visited visit).list = scene.list := hlater.same hnone
          show (scene.visited visit).list.lock.validates scene.list.stamp = true
          rw [hsame]
          exact StampLock.validates_iff.2 rfl
        have hfree := hlater.isLocked.trans hf
        have hentry : ((scene.visited visit).list.copyInto cache).noEntry =
            (scene.visited visit).list.noEntry := by
          rw [LiveList.copyInto_eq, hlater.noEntry]
          exact hc
        obtain ⟨others, hends⟩ := ih hfree hentry
        exact ⟨_, hends.retried hwrote⟩

end Scene

/-! ## Readers -/

namespace Reader

/-- A reader and its list at any time since the list was created, and the number of mutations until
then: those that were called, and those that were tried at the pins of the reader's captures. -/
inductive Over : Reader → LiveList → Nat → Prop
  | create {options : Options} {list : LiveList} (h : LiveList.create options = .ok list) :
      Over {} list 0
  | call {ρ : Type} {reader : Reader} {list : LiveList} {calls : Nat} (h : Over reader list calls)
      {atPin : LiveList.AtPin ρ} (hp : atPin.KeepsList) (mutation : LiveList.Mutation) :
      Over reader (mutation.call atPin list).list (calls + 1)
  | ask {reader : Reader} {scene : Scene} {calls : Nat} (h : Over reader scene.list calls)
      (visits : List Visit) :
      Over (reader.snapshot scene visits).reader (reader.snapshot scene visits).scene.list
        (calls + mutations (visits.take (reader.snapshot scene visits).answers.length))

/-- The reader was asked but has never copied its list, and the list was never written. -/
def spoiled (reader : Reader) (list : LiveList) : Bool :=
  reader.cache.isSome && reader.refreshes == 0 && list.stamp == 0

/-- The snapshot over which the reader copies has the stamp of an earlier state of its list. If the
list was not written since, this is the list as it is, or the empty snapshot as long as nothing was
copied. -/
structure Dated (reader : Reader) (list : LiveList) (calls : Nat) : Prop where
  free : list.lock.isLocked = false
  created : ∃ options new writes, LiveList.create options = .ok new ∧ new.Later list writes ∧
    writes ≤ calls
  noEntry : (reader.base list).noEntry = list.noEntry
  uncopied : reader.refreshes = 0 → (reader.base list).stamp = 0
  dated : ∃ (earlier : LiveList) (writes : Nat), (reader.base list).stamp = earlier.stamp ∧
    earlier.Later list writes ∧ writes ≤ calls ∧
    (writes = 0 → reader.base list =
      if reader.refreshes = 0 then .empty list.noEntry else list.observed)

variable {reader : Reader} {list after : LiveList} {scene : Scene} {calls : Nat}
  {visits : List Visit}

theorem base_congr (reader : Reader) (h : after.noEntry = list.noEntry) :
    reader.base after = reader.base list := by
  unfold base
  rw [h]

theorem dated_new {options : Options} {new : LiveList} {count : Nat}
    (h : LiveList.create options = .ok new) (hl : new.Later list count) (hc : count ≤ calls) :
    Dated {} list calls := by
  obtain ⟨-, hnew⟩ := LiveList.create_eq_ok_iff.1 h
  have hlock : new.lock = {} := congrArg LiveList.lock hnew
  have hstamp : new.stamp = 0 := congrArg StampLock.stamp hlock
  exact
    { free := by rw [hl.isLocked, hlock]; rfl
      created := ⟨options, new, count, h, hl, hc⟩
      noEntry := rfl
      uncopied := fun _ => rfl
      dated := ⟨new, count, hstamp.symm, hl, hc, fun _ => rfl⟩ }

/-- A later list has the same origin. -/
theorem Dated.created_of_later (h : reader.Dated list calls) {count : Nat}
    (hl : list.Later after count) :
    ∃ options new writes, LiveList.create options = .ok new ∧ new.Later after writes ∧
      writes ≤ calls + count := by
  obtain ⟨options, new, writes, hcreate, hnew, hle⟩ := h.created
  exact ⟨options, new, writes + count, hcreate, hnew.trans hl, Nat.add_le_add_right hle _⟩

theorem Dated.later (h : reader.Dated list calls) {count : Nat} (hl : list.Later after count) :
    reader.Dated after (calls + count) := by
  obtain ⟨earlier, since, hstamp, hlater, hfew, hsame⟩ := h.dated
  have hbase := reader.base_congr hl.noEntry
  refine ⟨hl.isLocked.trans h.free, h.created_of_later hl, ?_, ?_, earlier, _,
    hbase ▸ hstamp, hlater.trans hl, Nat.add_le_add_right hfew _, fun hnone => ?_⟩
  · rw [hbase, hl.noEntry]
    exact h.noEntry
  · rw [hbase]
    exact h.uncopied
  · rw [hl.same (Nat.eq_zero_of_add_eq_zero_left hnone)]
    exact hsame (Nat.eq_zero_of_add_eq_zero_right hnone)

/-- However a request ends, it leaves the scene as the visits that took place have made it. -/
theorem scene_snapshot (reader : Reader) (scene : Scene) (visits : List Visit) :
    (reader.snapshot scene visits).scene =
      scene.act
        (runOperations scene.acted (tried visits (reader.snapshot scene visits).answers)).1 := by
  unfold snapshot
  split
  · exact scene.act_acted.symm
  · split
    · exact scene.act_acted.symm
    · dsimp only
      split <;> exact scene.scene_capture _ visits

theorem snapshot_of_fresh (hf : scene.list.lock.isLocked = false)
    (hfresh : reader.isFresh scene.list.stamp = true) :
    reader.snapshot scene visits =
      { reader, scene, result := .ok (reader.base scene.list) } := by
  have hfresh : reader.isFresh scene.list.lock.stamp = true := hfresh
  unfold snapshot
  simp only [StampLock.readStamp_of_free hf, hfresh, if_true]

theorem snapshot_of_copied (hf : scene.list.lock.isLocked = false)
    (hstale : reader.isFresh scene.list.stamp = false) {retries : Nat}
    (hresult : (scene.capture (reader.base scene.list) visits).result = .ok retries) :
    let capture := scene.capture (reader.base scene.list) visits
    reader.snapshot scene visits =
      { reader := ⟨some capture.cache, reader.refreshes + 1⟩, scene := capture.scene
        result := .ok capture.cache
        events :=
          capture.events ++ (if retries = 0 then [] else [.retried capture.cache.stamp retries])
        answers := capture.answers } := by
  have hstale : reader.isFresh scene.list.lock.stamp = false := hstale
  unfold snapshot
  simp only [StampLock.readStamp_of_free hf, hstale, hresult]
  rfl

theorem snapshot_of_broken (hf : scene.list.lock.isLocked = false)
    (hstale : reader.isFresh scene.list.stamp = false) {failure : Failure}
    (hresult : (scene.capture (reader.base scene.list) visits).result = .error failure) :
    let capture := scene.capture (reader.base scene.list) visits
    reader.snapshot scene visits =
      { reader := { reader with cache := some capture.cache }, scene := capture.scene
        result := .error failure, events := capture.events, answers := capture.answers } := by
  have hstale : reader.isFresh scene.list.lock.stamp = false := hstale
  unfold snapshot
  simp only [StampLock.readStamp_of_free hf, hstale, hresult]
  rfl

/-- A capture that was broken off leaves a cache with the stamp of the one before. -/
theorem Dated.broken (h : reader.Dated scene.list calls) {capture : Capture} {count : Nat}
    (hends : scene.Ends (reader.base scene.list) visits capture count) {failure : Failure}
    (hresult : capture.result = .error failure) :
    Dated { reader with cache := some capture.cache } capture.scene.list (calls + count) := by
  obtain ⟨earlier, since, hstamp, hlater, hfew, hsame⟩ := h.dated
  obtain ⟨hnoEntry, hkept, hunwritten⟩ := hends.half failure hresult
  have hl := hends.later
  refine ⟨hl.isLocked.trans h.free, h.created_of_later hl, ?_, ?_, earlier, _,
    hkept.trans hstamp, hlater.trans hl, Nat.add_le_add_right hfew _, fun hnone => ?_⟩
  · rw [hl.noEntry]
    exact hnoEntry.trans h.noEntry
  · intro hnever
    exact hkept.trans (h.uncopied hnever)
  · have hzero := Nat.eq_zero_of_add_eq_zero_left hnone
    rw [hl.same hzero]
    exact (hunwritten hzero).trans (hsame (Nat.eq_zero_of_add_eq_zero_right hnone))

theorem Dated.copied (h : reader.Dated scene.list calls) {capture : Capture} {count retries : Nat}
    (hends : scene.Ends (reader.base scene.list) visits capture count)
    (hresult : capture.result = .ok retries) :
    Dated ⟨some capture.cache, reader.refreshes + 1⟩ capture.scene.list (calls + count) := by
  have hl := hends.later
  rw [hends.whole retries hresult]
  exact
    { free := hl.isLocked.trans h.free
      created := h.created_of_later hl
      noEntry := rfl
      uncopied := fun hnever => absurd hnever (Nat.succ_ne_zero _)
      dated := ⟨capture.scene.list, 0, rfl, LiveList.later_refl _, Nat.zero_le _, fun _ => rfl⟩ }

/-- Whatever comes of a request, it leaves a dated reader. -/
theorem Dated.ask (h : reader.Dated scene.list calls) (visits : List Visit) :
    (reader.snapshot scene visits).reader.Dated (reader.snapshot scene visits).scene.list
      (calls + scene.written (tried visits (reader.snapshot scene visits).answers)) := by
  cases hfresh : reader.isFresh scene.list.stamp with
  | true =>
    rw [snapshot_of_fresh h.free hfresh, tried_nil, Scene.written_nil]
    exact h
  | false =>
    obtain ⟨count, hends⟩ := Scene.exists_ends h.free h.noEntry visits
    cases hresult : (scene.capture (reader.base scene.list) visits).result with
    | error failure =>
      rw [snapshot_of_broken h.free hfresh hresult]
      exact hends.count ▸ h.broken hends hresult
    | ok retries =>
      rw [snapshot_of_copied h.free hfresh hresult]
      exact hends.count ▸ h.copied hends hresult

theorem Dated.mono (h : reader.Dated list calls) {more : Nat} (hle : calls ≤ more) :
    reader.Dated list more := by
  obtain ⟨options, new, writes, hcreate, hnew, hwrites⟩ := h.created
  obtain ⟨earlier, since, hstamp, hlater, hfew, hsame⟩ := h.dated
  exact ⟨h.free, ⟨options, new, writes, hcreate, hnew, Nat.le_trans hwrites hle⟩, h.noEntry,
    h.uncopied, earlier, since, hstamp, hlater, Nat.le_trans hfew hle, hsame⟩

theorem Over.dated (h : reader.Over list calls) : reader.Dated list calls := by
  induction h with
  | create h => exact dated_new h (LiveList.later_refl _) (Nat.le_refl _)
  | call h hp mutation ih =>
    have hlater := ih.later (LiveList.later_call hp mutation _)
    exact hlater.mono (Nat.add_le_add_left (Bool.toNat_le _) _)
  | ask h visits ih =>
    exact (ih.ask visits).mono (Nat.add_le_add_left (Scene.written_le _ _) _)

/-- A reader that believes its cache has the stamp of the list in it. -/
theorem stamp_base_of_fresh {stamp : UInt64} (hfresh : reader.isFresh stamp = true)
    (list : LiveList) : (reader.base list).stamp = stamp := by
  unfold isFresh at hfresh
  unfold base
  cases hcache : reader.cache with
  | none =>
    rw [hcache] at hfresh
    cases hfresh
  | some cache =>
    rw [hcache] at hfresh
    exact beq_iff_eq.1 hfresh

theorem isSome_cache_of_fresh {stamp : UInt64} (hfresh : reader.isFresh stamp = true) :
    reader.cache.isSome = true := by
  unfold isFresh at hfresh
  cases hcache : reader.cache with
  | none =>
    rw [hcache] at hfresh
    cases hfresh
  | some cache => rfl

/-- A reader that believes its cache has the list as it is in there, unless it is spoiled. -/
theorem Dated.base_of_fresh (h : reader.Dated list calls) (hfew : calls < 2 ^ 63)
    (hfresh : reader.isFresh list.stamp = true) :
    reader.base list = if reader.spoiled list then .empty list.noEntry else list.observed := by
  obtain ⟨earlier, since, hstamp, hlater, hle, hsame⟩ := h.dated
  have hsince := stamp_base_of_fresh hfresh list
  have hnone : since = 0 :=
    (hlater.stamp_eq_iff (Nat.lt_of_le_of_lt hle hfew)).1 (hsince.symm.trans hstamp)
  rw [hsame hnone]
  by_cases hnever : reader.refreshes = 0
  · have hzero : list.stamp = 0 := hsince.symm.trans (h.uncopied hnever)
    have hspoiled : reader.spoiled list = true := by
      simp [spoiled, isSome_cache_of_fresh hfresh, hnever, hzero]
    rw [if_pos hnever, if_pos hspoiled]
  · have hsound : reader.spoiled list = false := by simp [spoiled, hnever]
    rw [if_neg hnever, hsound]
    rfl

theorem stamp_of_spoiled (hs : reader.spoiled list = true) : list.stamp = 0 := by
  simp only [spoiled, Bool.and_eq_true, beq_iff_eq] at hs
  exact hs.2

theorem Dated.isFresh_of_spoiled (h : reader.Dated list calls) (hs : reader.spoiled list = true) :
    reader.isFresh list.stamp = true := by
  unfold spoiled at hs
  simp only [Bool.and_eq_true, beq_iff_eq] at hs
  obtain ⟨⟨hcached, hnever⟩, hzero⟩ := hs
  obtain ⟨cache, hcache⟩ := Option.isSome_iff_exists.1 hcached
  have hstamp := h.uncopied hnever
  unfold base at hstamp
  unfold isFresh
  rw [hcache] at hstamp ⊢
  rw [hzero]
  exact beq_iff_eq.2 hstamp

/-- The empty snapshot shows a list that was never written if that has no slots. -/
theorem Dated.empty_eq_observed_iff (h : reader.Dated list calls) (hfew : calls < 2 ^ 63)
    (hzero : list.stamp = 0) : .empty list.noEntry = list.observed ↔ list.capacity = 0 := by
  obtain ⟨options, new, writes, hcreate, hlater, hle⟩ := h.created
  obtain ⟨-, hnew⟩ := LiveList.create_eq_ok_iff.1 hcreate
  have hlen : new.len = 0 := congrArg (fun list : LiveList => list.len) hnew
  have hstamp : new.stamp = 0 := congrArg LiveList.stamp hnew
  have hnone : writes = 0 :=
    (hlater.stamp_eq_iff (Nat.lt_of_le_of_lt hle hfew)).1 (hzero.trans hstamp.symm)
  rw [← hlater.same hnone] at hlen
  constructor
  · intro hshown
    exact (congrArg (fun shown : Snapshot => shown.capacity) hshown).symm
  · intro hcapacity
    have hslots : list.slots = #[] := Array.eq_empty_of_size_eq_zero hcapacity
    show Snapshot.mk ⟨#[], 0, list.noEntry⟩ 0 =
      Snapshot.mk ⟨list.slots, list.len, list.noEntry⟩ list.stamp
    rw [hslots, hlen, hzero]

/-- What a request that gets an answer is given. -/
theorem Dated.shown_eq (h : reader.Dated scene.list calls) (hfew : calls < 2 ^ 63)
    {shown : Snapshot} (hshown : (reader.snapshot scene visits).result = .ok shown) :
    shown = if reader.spoiled scene.list then .empty scene.list.noEntry
      else (reader.snapshot scene visits).scene.list.observed := by
  cases hfresh : reader.isFresh scene.list.stamp with
  | true =>
    rw [snapshot_of_fresh h.free hfresh] at hshown ⊢
    exact (Except.ok.inj hshown).symm.trans (h.base_of_fresh hfew hfresh)
  | false =>
    have hsound : reader.spoiled scene.list = false :=
      Bool.eq_false_iff.2 fun hs => Bool.eq_false_iff.1 hfresh (h.isFresh_of_spoiled hs)
    obtain ⟨count, hends⟩ := Scene.exists_ends h.free h.noEntry visits
    rw [hsound]
    cases hresult : (scene.capture (reader.base scene.list) visits).result with
    | error failure =>
      rw [snapshot_of_broken h.free hfresh hresult] at hshown
      cases hshown
    | ok retries =>
      rw [snapshot_of_copied h.free hfresh hresult] at hshown ⊢
      cases hshown
      exact hends.whole retries hresult

/-- A request that nobody disturbs is answered, and leaves the list. -/
theorem exists_snapshot_nil (hf : scene.list.lock.isLocked = false) (reader : Reader) :
    ∃ shown, (reader.snapshot scene []).result = .ok shown ∧
      (reader.snapshot scene []).scene = scene := by
  cases hfresh : reader.isFresh scene.list.stamp with
  | true =>
    rw [snapshot_of_fresh hf hfresh]
    exact ⟨_, rfl, rfl⟩
  | false =>
    have hcapture := @Scene.capture_nil scene (reader.base scene.list) hf
    have hresult : (scene.capture (reader.base scene.list) []).result = .ok 0 := by rw [hcapture]
    rw [snapshot_of_copied hf hfresh hresult, hcapture]
    exact ⟨_, rfl, rfl⟩

end Reader

end SnapList
