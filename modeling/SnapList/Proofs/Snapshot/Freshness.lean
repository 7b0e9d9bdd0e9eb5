/-
  When a reader copies its list.

  To a reader matter the writes of its list and its requests, those that were answered and those that
  were broken off. A copy is DUE if the reader was not answered before, or if its list was written
  since. The tally of a reader counts the requests that were answered when a copy was due, from what
  happened alone: it knows nothing of stamps. One thing does not fit: to break off a request leaves a
  copy due, but not if nothing was copied and the list never written. Then the reader takes for a copy
  what it has been left with.

  Main statements: that is the only way in which a reader without a copy comes to think that none is
  due (`due_eq_false_iff`), and the tally knows of every reader how often it has copied its list and
  whether it will copy it when it is asked next (`Counted.later`, `Counted.ask`), because fewer than
  2^63 writes never bring back a stamp.
-/
import Mathlib.Data.List.Induction
import SnapList.Proofs.Snapshot.Interruption

namespace SnapList

open LiveList (Visit)

/-- The snapshot and the list agree in all slots and in the stamp, and so in every answer. -/
structure Snapshot.Shows (snapshot : Snapshot) (list : LiveList) : Prop where
  stamp : snapshot.stamp = list.stamp
  len : snapshot.len = list.len
  noEntry : snapshot.noEntry = list.noEntry
  slots : snapshot.slots = list.slots
  get : ∀ index, snapshot.get index = list.get index
  indexOf : ∀ value, snapshot.indexOf value = list.indexOf value
  display : snapshot.display = list.display
  find : ∀ query, snapshot.find query = list.find query

theorem LiveList.shows_observed (list : LiveList) : list.observed.Shows list :=
  ⟨rfl, rfl, rfl, rfl, fun _ => rfl, fun _ => rfl, rfl, fun _ => rfl⟩

theorem Snapshot.Shows.eq_observed {snapshot : Snapshot} {list : LiveList}
    (h : snapshot.Shows list) : snapshot = list.observed := by
  obtain ⟨⟨slots, len, noEntry⟩, stamp⟩ := snapshot
  obtain ⟨hstamp, hlen, hnoEntry, hslots, -⟩ := h
  cases hstamp
  cases hlen
  cases hnoEntry
  cases hslots
  rfl

/-! ## What has happened -/

/-- What matters to the readers of some lists; lists and readers are numbered. -/
inductive Happening where
  /-- A mutation of the list took the lock. -/
  | wrote (list : Nat)
  /-- The reader was asked for its snapshot and has answered. -/
  | asked (reader : Nat)
  /-- The reader was asked for its snapshot, and the request was broken off. -/
  | broken (reader : Nat)
  deriving DecidableEq

def Happening.writes (list count : Nat) : List Happening := List.replicate count (.wrote list)

/-- Whether a reader has to copy its list when it is asked next, how often it had to, and whether the
list was ever written. -/
structure Tally where
  due : Bool := true
  copies : Nat := 0
  written : Bool := false

def Tally.next (reader list : Nat) (tally : Tally) : Happening → Tally
  | .wrote other => if other = list then { tally with due := true, written := true } else tally
  | .asked other =>
    if other = reader then { tally with due := false, copies := tally.copies + tally.due.toNat }
    else tally
  | .broken other =>
    if other = reader then
      { tally with due := tally.due && (tally.copies != 0 || tally.written) }
    else tally

/-- The tally of a reader of one list after all that has happened. -/
def tally (reader list : Nat) (history : List Happening) : Tally :=
  history.foldl (Tally.next reader list) {}

def Tally.wrote (tally : Tally) (count : Nat) : Tally :=
  if count = 0 then tally else { tally with due := true, written := true }

variable {reader list : Nat} {history : List Happening}

theorem tally_snoc (reader list : Nat) (history : List Happening) (happening : Happening) :
    tally reader list (history ++ [happening]) =
      (tally reader list history).next reader list happening := by
  unfold tally
  rw [List.foldl_append]
  rfl

theorem count_writes (history : List Happening) (other count list : Nat) :
    (history ++ Happening.writes other count).count (.wrote list) =
      history.count (.wrote list) + if other = list then count else 0 := by
  rw [List.count_append, Happening.writes, List.count_replicate]
  by_cases h : other = list <;> simp [h]

theorem tally_writes (reader list other : Nat) (history : List Happening) (count : Nat) :
    tally reader list (history ++ Happening.writes other count) =
      (tally reader list history).wrote (if other = list then count else 0) := by
  unfold Happening.writes
  induction count with
  | zero => simp [Tally.wrote]
  | succ count ih =>
    rw [List.replicate_succ', ← List.append_assoc, tally_snoc, ih]
    by_cases h : other = list
    · simp only [Tally.next, Tally.wrote, h, if_true, Nat.succ_ne_zero, if_false]
      split <;> rfl
    · simp [Tally.next, Tally.wrote, h]

theorem written_iff : (tally reader list history).written = true ↔ .wrote list ∈ history := by
  induction history using List.reverseRecOn with
  | nil => simp [tally]
  | append_singleton history happening ih =>
    rw [tally_snoc, List.mem_append, List.mem_singleton, ← ih]
    cases happening with
    | wrote other =>
      by_cases e : other = list
      · simp [Tally.next, e]
      · simp [Tally.next, e, Ne.symm e]
    | asked other =>
      simp only [Tally.next, reduceCtorEq, or_false]
      split <;> rfl
    | broken other =>
      simp only [Tally.next, reduceCtorEq, or_false]
      split <;> rfl

theorem tally_of_new (ha : .asked reader ∉ history) (hb : .broken reader ∉ history) :
    (tally reader list history).due = true ∧ (tally reader list history).copies = 0 := by
  induction history using List.reverseRecOn with
  | nil => exact ⟨rfl, rfl⟩
  | append_singleton history happening ih =>
    rw [List.mem_append, List.mem_singleton, not_or] at ha hb
    obtain ⟨hdue, hcopies⟩ := ih ha.1 hb.1
    rw [tally_snoc]
    cases happening with
    | wrote other =>
      simp only [Tally.next]
      split
      · exact ⟨rfl, hcopies⟩
      · exact ⟨hdue, hcopies⟩
    | asked other =>
      have hother : other ≠ reader := fun e => ha.2 (congrArg Happening.asked e.symm)
      simp only [Tally.next, if_neg hother]
      exact ⟨hdue, hcopies⟩
    | broken other =>
      have hother : other ≠ reader := fun e => hb.2 (congrArg Happening.broken e.symm)
      simp only [Tally.next, if_neg hother]
      exact ⟨hdue, hcopies⟩

/-- A reader that has copied nothing thinks that no copy is due only after a request that was broken
off, and as long as its list was never written. -/
theorem due_eq_false_iff (h : (tally reader list history).copies = 0) :
    (tally reader list history).due = false ↔
      .broken reader ∈ history ∧ .wrote list ∉ history := by
  induction history using List.reverseRecOn with
  | nil => simp [tally]
  | append_singleton history happening ih =>
    have hwritten : (tally reader list history).written = true ↔ .wrote list ∈ history := written_iff
    rw [tally_snoc] at h ⊢
    simp only [List.mem_append, List.mem_singleton]
    cases happening with
    | wrote other =>
      simp only [Tally.next] at h ⊢
      by_cases e : other = list
      · simp [e]
      · rw [if_neg e] at h ⊢
        simpa [Ne.symm e] using ih h
    | asked other =>
      simp only [Tally.next] at h ⊢
      by_cases e : other = reader
      · rw [if_pos e] at h ⊢
        obtain ⟨hcopies, hdue⟩ := Nat.add_eq_zero_iff.1 h
        have hfalse : (tally reader list history).due = false := by
          cases hd : (tally reader list history).due with
          | false => rfl
          | true =>
            rw [hd] at hdue
            cases hdue
        simpa using (ih hcopies).1 hfalse
      · rw [if_neg e] at h ⊢
        simpa using ih h
    | broken other =>
      simp only [Tally.next] at h ⊢
      by_cases e : other = reader
      · rw [if_pos e] at h ⊢
        have hcopies : (tally reader list history).copies = 0 := h
        have hbefore := ih hcopies
        rw [← hwritten] at hbefore ⊢
        simp only [hcopies, e, bne_self_eq_false, Bool.false_or, Bool.and_eq_false_iff, reduceCtorEq,
          or_true, or_false, true_and, Bool.not_eq_true]
        constructor
        · rintro (hdue | hnever)
          · simpa using (hbefore.1 hdue).2
          · exact hnever
        · exact Or.inr
      · rw [if_neg e] at h ⊢
        simpa [Ne.symm e] using ih h

/-! ## One reader -/

/-- What has happened with the request that reader `number` was asked. -/
def Reading.told (reading : Reading) (number : Nat) : Happening :=
  match reading.result with
  | .ok _ => .asked number
  | .error _ => .broken number

namespace Reader

/-- The tally knows how often the reader has copied its list, and whether it believes its cache. -/
structure Counted (reader : Reader) (list : LiveList) (tally : Tally) : Prop where
  copies : reader.refreshes = tally.copies
  due : reader.isFresh list.stamp = !tally.due
  unused : reader.cache = none → tally.copies = 0

variable {reader : Reader} {list after : LiveList} {scene : Scene} {tally : Tally}
  {calls count number own : Nat} {visits : List Visit}

theorem counted_new (hdue : tally.due = true) (hcopies : tally.copies = 0) :
    Counted {} list tally := by
  refine ⟨hcopies.symm, ?_, fun _ => hcopies⟩
  rw [hdue]
  rfl

/-- After a write no reader of the list believes its cache: fewer than 2^63 writes never bring back a
stamp. -/
theorem Counted.later (h : reader.Counted list tally) (hd : reader.Dated list calls)
    (hl : list.Later after count) (hfew : calls + count < 2 ^ 63) :
    reader.Counted after (tally.wrote count) := by
  unfold Tally.wrote
  split
  · rename_i hnone
    rw [hl.same hnone]
    exact h
  · rename_i hsome
    refine ⟨h.copies, Bool.eq_false_iff.2 fun hfresh => hsome ?_, h.unused⟩
    obtain ⟨earlier, since, hstamp, hlater, hle, -⟩ := hd.dated
    have hsame : after.stamp = earlier.stamp := by
      rw [← stamp_base_of_fresh hfresh list, hstamp]
    have hnone := ((hlater.trans hl).stamp_eq_iff (by omega)).1 hsame
    omega

theorem Counted.due_of_fresh (h : reader.Counted list tally)
    (hfresh : reader.isFresh list.stamp = true) : tally.due = false := by
  have hdue := h.due
  rw [hfresh] at hdue
  simpa using hdue.symm

theorem Counted.due_of_stale (h : reader.Counted list tally)
    (hstale : reader.isFresh list.stamp = false) : tally.due = true := by
  have hdue := h.due
  rw [hstale] at hdue
  simpa using hdue.symm

/-- A request that a reader answers from its cache changes nothing. -/
theorem Counted.ask_of_fresh (h : reader.Counted scene.list tally)
    (hfresh : reader.isFresh scene.list.stamp = true) :
    reader.Counted scene.list
      ((tally.wrote (scene.written (tried visits []))).next number own (.asked number)) := by
  have hdue := h.due_of_fresh hfresh
  have hnext : tally.next number own (.asked number) = tally := by
    obtain ⟨due, copies, written⟩ := tally
    cases hdue
    simp [Tally.next]
  rw [tried_nil, Scene.written_nil]
  show reader.Counted scene.list (tally.next number own (.asked number))
  rw [hnext]
  exact h

/-- Writes leave a copy due, and copy nothing. -/
theorem wrote_of_due (hdue : tally.due = true) (count : Nat) :
    (tally.wrote count).due = true ∧ (tally.wrote count).copies = tally.copies := by
  unfold Tally.wrote
  split
  · exact ⟨hdue, rfl⟩
  · exact ⟨rfl, rfl⟩

theorem Counted.copied (h : reader.Counted scene.list tally) {capture : Capture}
    (hends : scene.Ends (reader.base scene.list) visits capture count) {retries : Nat}
    (hresult : capture.result = .ok retries)
    (hstale : reader.isFresh scene.list.stamp = false) :
    Counted ⟨some capture.cache, reader.refreshes + 1⟩ capture.scene.list
      ((tally.wrote count).next number own (.asked number)) := by
  obtain ⟨hdue, hcopies⟩ := wrote_of_due (h.due_of_stale hstale) count
  have hnext : (tally.wrote count).next number own (.asked number) =
      { tally.wrote count with due := false, copies := tally.copies + 1 } := by
    simp [Tally.next, hdue, hcopies]
  rw [hnext, hends.whole retries hresult]
  refine ⟨congrArg (· + 1) h.copies, beq_self_eq_true _, fun hnone => ?_⟩
  cases hnone

/-- A capture that is broken off leaves a cache that is not believed, unless nothing was copied yet and
the list was never written. -/
theorem Counted.broken (h : reader.Counted scene.list tally) (hd : reader.Dated scene.list calls)
    {capture : Capture} (hends : scene.Ends (reader.base scene.list) visits capture count)
    {failure : Failure} (hresult : capture.result = .error failure)
    (hstale : reader.isFresh scene.list.stamp = false) (hfew : calls + count < 2 ^ 63)
    (hwritten : (tally.wrote count).written = true ↔ capture.scene.list.stamp ≠ 0) :
    Counted { reader with cache := some capture.cache } capture.scene.list
      ((tally.wrote count).next number own (.broken number)) := by
  obtain ⟨hdue, hsame⟩ := wrote_of_due (h.due_of_stale hstale) count
  obtain ⟨-, hkept, -⟩ := hends.half failure hresult
  have hnext : (tally.wrote count).next number own (.broken number) =
      { tally.wrote count with due := tally.copies != 0 || (tally.wrote count).written } := by
    simp [Tally.next, hdue, hsame]
  rw [hnext]
  refine ⟨h.copies.trans hsame.symm, ?_, fun hnone => ?_⟩
  · show (capture.cache.stamp == capture.scene.list.stamp) =
      !(tally.copies != 0 || (tally.wrote count).written)
    by_cases hcopies : tally.copies = 0
    · have hzero : capture.cache.stamp = 0 :=
        hkept.trans (hd.uncopied (h.copies.trans hcopies))
      rw [hzero, hcopies, bne_self_eq_false, Bool.false_or, Bool.eq_iff_iff, beq_iff_eq,
        Bool.not_eq_true', ← Bool.not_eq_true, hwritten, not_not]
      exact eq_comm
    · -- The reader has a cache, and it was not believed before, so the list has been written since.
      have hsome : (tally.copies != 0) = true := bne_iff_ne.2 hcopies
      rw [hsome, Bool.true_or, Bool.not_true]
      refine beq_false_of_ne fun hsame => ?_
      obtain ⟨earlier, since, hstamp, hlater, hle, -⟩ := hd.dated
      have hback : capture.scene.list.stamp = earlier.stamp := by
        rw [← hsame, hkept, hstamp]
      have hnone := ((hlater.trans hends.later).stamp_eq_iff (by omega)).1 hback
      have hunwritten := hends.later.same (Nat.eq_zero_of_add_eq_zero_left hnone)
      rw [hunwritten, ← hstamp] at hback
      unfold isFresh at hstale
      unfold base at hback
      cases hcache : reader.cache with
      | none => exact hcopies (h.unused hcache)
      | some cache =>
        rw [hcache] at hstale hback
        exact beq_eq_false_iff_ne.1 hstale hback.symm
  · cases hnone

/-- However a request ends, the tally knows of the reader what there is to know. -/
theorem Counted.ask (h : reader.Counted scene.list tally) (hd : reader.Dated scene.list calls)
    {reading : Reading} (hreading : reader.snapshot scene visits = reading) (number own : Nat)
    (hfew : calls + scene.written (tried visits reading.answers) < 2 ^ 63)
    (hwritten : (tally.wrote (scene.written (tried visits reading.answers))).written = true ↔
      reading.scene.list.stamp ≠ 0) :
    reading.reader.Counted reading.scene.list
      ((tally.wrote (scene.written (tried visits reading.answers))).next number own
        (reading.told number)) := by
  cases hfresh : reader.isFresh scene.list.stamp with
  | true =>
    rw [snapshot_of_fresh hd.free hfresh] at hreading
    subst hreading
    exact h.ask_of_fresh hfresh
  | false =>
    obtain ⟨others, hends⟩ := Scene.exists_ends hd.free hd.noEntry visits
    obtain rfl := hends.count
    cases hresult : (scene.capture (reader.base scene.list) visits).result with
    | error failure =>
      rw [snapshot_of_broken hd.free hfresh hresult] at hreading
      subst hreading
      exact h.broken hd hends hresult hfresh hfew hwritten
    | ok retries =>
      rw [snapshot_of_copied hd.free hfresh hresult] at hreading
      subst hreading
      exact h.copied hends hresult hfresh

/-- The tally knows of a reader whether it is spoiled. -/
theorem Counted.spoiled_eq (h : reader.Counted list tally) (hd : reader.Dated list calls) :
    reader.spoiled list = (!tally.due && tally.copies == 0) := by
  rw [← h.due, ← h.copies, Bool.eq_iff_iff]
  constructor
  · intro hs
    rw [hd.isFresh_of_spoiled hs, Bool.true_and]
    simp only [spoiled, Bool.and_eq_true] at hs
    exact hs.1.2
  · intro hs
    obtain ⟨hfresh, hnever⟩ := Bool.and_eq_true_iff.1 hs
    have hstamp := stamp_base_of_fresh hfresh list
    rw [hd.uncopied (beq_iff_eq.1 hnever)] at hstamp
    simp [spoiled, isSome_cache_of_fresh hfresh, beq_iff_eq.1 hnever, ← hstamp]

/-- What a spoiled reader hands out has no slots at all, which is right only of a list that has none. -/
theorem Dated.shows_iff (h : reader.Dated list calls) (hfew : calls < 2 ^ 63) :
    Snapshot.Shows (if reader.spoiled list then .empty list.noEntry else list.observed) list ↔
      reader.spoiled list = false ∨ list.capacity = 0 := by
  cases hs : reader.spoiled list with
  | false => exact iff_of_true (LiveList.shows_observed list) (Or.inl rfl)
  | true =>
    rw [if_pos rfl, ← h.empty_eq_observed_iff hfew (stamp_of_spoiled hs)]
    constructor
    · exact fun hshows => Or.inr hshows.eq_observed
    · intro hright
      rw [hright.resolve_left Bool.noConfusion]
      exact LiveList.shows_observed list

end Reader

end SnapList
