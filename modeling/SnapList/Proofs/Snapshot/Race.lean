/-
  A capture that is raced by writes.

  Others act on the list while it is captured, one GROUP of operations at the pin of each
  attempt. An attempt is given up if its group holds a mutation, however the mutation ends, and
  goes through if its group only reads or if no group is left. So a capture lets in the groups up
  to the first QUIET one and takes the list as these have left it.

  Main statement: a snapshot and a reader's snapshot of a raced list are one whole state of it,
  the one in which the call leaves it (`snapshot_of_race`).
-/
import SnapList.Proofs.LiveList.Later
import SnapList.Snapshot.Reader

namespace SnapList

open LiveList (Operation Answer Visit)

namespace LiveList

/-- The snapshot that shows a list as it is. -/
def observed (list : LiveList) : Snapshot := { list.toContents with stamp := list.stamp }

/-! ## Groups of operations -/

def Operation.isChange : Operation → Bool
  | .read _ => false
  | .change _ => true

/-- An unchecked write keeps its promise. -/
def Operation.Keeps (list : LiveList) : Operation → Prop
  | .read _ => True
  | .change mutation => mutation.promised list = .ok ()

/-- Of some operations, each keeps its promise when its turn comes. -/
def Kept (list : LiveList) : List Operation → Prop
  | [] => True
  | operation :: rest => operation.Keeps list ∧ Kept (operation.run list).list rest

/-- No operation of a group is a mutation. -/
def quiet (group : List Operation) : Bool := group.all fun operation => !operation.isChange

/-- A visit of one group of operations, which does not make its pin fail. -/
def visit (group : List Operation) : Visit := ⟨group, false⟩

/-- The number of groups before the first quiet one. -/
def retries (groups : List (List Operation)) : Nat := groups.findIdx quiet

/-- The groups that a capture lets in. -/
def admitted (groups : List (List Operation)) : List (List Operation) :=
  groups.take (retries groups + 1)

/-- How groups of operations went: the list after them, the answers of each, what was reported. -/
structure Course where
  list : LiveList
  answers : List (List Answer) := []
  events : List Event := []

def course (list : LiveList) : List (List Operation) → Course
  | [] => { list }
  | group :: rest =>
    let (after, answers, events) := runOperations list group
    let next := after.course rest
    { list := next.list, answers := answers :: next.answers, events := events ++ next.events }

variable {list : LiveList}

theorem kept_append {first second : List Operation} :
    list.Kept (first ++ second) ↔
      list.Kept first ∧ (runOperations list first).1.Kept second := by
  induction first generalizing list with
  | nil => simp [Kept, runOperations]
  | cons operation rest ih => simp [Kept, runOperations, ih, and_assoc]

theorem writes_of_kept {operations : List Operation} (hf : list.lock.isLocked = false)
    (hk : list.Kept operations) : writes list operations = operations.countP (·.isChange) := by
  induction operations generalizing list with
  | nil => rfl
  | cons operation rest ih =>
    obtain ⟨hkeeps, hrest⟩ := hk
    have hfree := (operation.later_run list).isLocked.trans hf
    rw [writes, ih hfree hrest, List.countP_cons, Nat.add_comm]
    cases operation with
    | read question => rfl
    | change mutation =>
      have ht : mutation.takesLock list = true := Mutation.takesLock_iff.2 ⟨hkeeps, hf⟩
      simp [Operation.takesLock, ht, Operation.isChange]

theorem countP_eq_zero_iff_quiet {group : List Operation} :
    group.countP (·.isChange) = 0 ↔ quiet group = true := by
  simp [quiet]

theorem retries_cons (group : List Operation) (rest : List (List Operation)) :
    retries (group :: rest) = if quiet group then 0 else retries rest + 1 := by
  unfold retries
  rw [List.findIdx_cons]
  cases quiet group <;> rfl

theorem admitted_cons (group : List Operation) (rest : List (List Operation)) :
    admitted (group :: rest) = group :: if quiet group then [] else admitted rest := by
  unfold admitted
  rw [retries_cons, List.take_succ_cons]
  cases quiet group <;> rfl

theorem isLocked_course (groups : List (List Operation)) :
    (list.course groups).list.lock.isLocked = list.lock.isLocked := by
  induction groups generalizing list with
  | nil => rfl
  | cons group rest ih => exact ih.trans (later_runOperations group list).isLocked

end LiveList

open LiveList (quiet visit retries admitted runOperations)

/-! ## Captures -/

theorem StampLock.readStamp_of_free {lock : StampLock} (h : lock.isLocked = false) :
    lock.readStamp = .ok lock.stamp := by
  unfold StampLock.readStamp
  rw [h]
  rfl

/-- A copy of a list over a snapshot with the same element for "no entry". -/
theorem copyInto_observed {list : LiveList} {cache : Snapshot} (h : cache.noEntry = list.noEntry) :
    { list.copyInto cache with stamp := list.stamp } = list.observed := by
  rw [LiveList.copyInto_eq]
  unfold LiveList.observed
  rw [h]

/-- One attempt: it goes through if the group at its pin leaves the stamp. -/
theorem Scene.capture_cons {list : LiveList} {cache : Snapshot} (group : List Operation)
    (visits : List Visit) (hf : list.lock.isLocked = false) :
    Scene.capture { list } cache (visit group :: visits) =
      let after := (runOperations list group).1
      Capture.after
        (if after.stamp = list.stamp then
          { scene := { list := after }
            cache := { after.copyInto cache with stamp := list.stamp }
            result := .ok 0 }
        else (Scene.capture { list := after } (after.copyInto cache) visits).retried)
        ((visit group).run list) := by
  have hread : ({ list } : Scene).list.lock.readStamp = .ok list.stamp :=
    StampLock.readStamp_of_free hf
  have hrun : ((visit group).run list).list = (runOperations list group).1 := rfl
  have hfails : ((visit group).run list).fails = false := rfl
  have hact : Scene.act { list } ((visit group).run list).list =
      { list := (runOperations list group).1 } := rfl
  rw [Scene.capture, hread]
  simp only [Scene.acted, Option.getD_none, hact, hfails]
  by_cases h : (runOperations list group).1.stamp = list.stamp
  · have hv : (runOperations list group).1.lock.validates list.stamp = true :=
      StampLock.validates_iff.2 h
    rw [if_pos h, hv]
    rfl
  · have hv : (runOperations list group).1.lock.validates list.stamp = false :=
      Bool.eq_false_iff.2 fun hv => h (StampLock.validates_iff.1 hv)
    rw [if_neg h, hv]
    rfl

/-- A raced capture shows the list after the groups that it lets in, whatever it is written over.
The induction is on the groups: one that writes leaves a list with another stamp, and the capture
starts again with a copy in its cache that has the same element for "no entry". -/
theorem Scene.capture_of_race {groups : List (List Operation)} {list : LiveList}
    {cache : Snapshot} (hf : list.lock.isLocked = false)
    (hkept : list.Kept (admitted groups).flatten)
    (hfew : groups.flatten.countP (·.isChange) < 2 ^ 63) (hc : cache.noEntry = list.noEntry) :
    Scene.capture { list } cache (groups.map visit) =
      let course := list.course (admitted groups)
      { scene := { list := course.list }
        cache := course.list.observed
        result := .ok (retries groups)
        events := course.events
        answers := course.answers } := by
  induction groups generalizing list cache with
  | nil =>
    show Scene.capture { list } cache [] = _
    rw [Scene.capture_nil hf]
    unfold LiveList.observed
    rw [hc]
    rfl
  | cons group rest ih =>
    rw [LiveList.admitted_cons, List.flatten_cons, LiveList.kept_append] at hkept
    rw [List.flatten_cons, List.countP_append] at hfew
    obtain ⟨hgroup, hrest⟩ := hkept
    have hlater := LiveList.later_runOperations group list
    rw [LiveList.writes_of_kept hf hgroup] at hlater
    have hstamp := (hlater.stamp_eq_iff (by omega)).trans LiveList.countP_eq_zero_iff_quiet
    rw [List.map_cons, Scene.capture_cons group _ hf, LiveList.admitted_cons, LiveList.retries_cons]
    by_cases hq : quiet group = true
    · have hsame : (runOperations list group).1 = list :=
        hlater.same (LiveList.countP_eq_zero_iff_quiet.2 hq)
      have hcache : { (runOperations list group).1.copyInto cache with stamp := list.stamp } =
          (runOperations list group).1.observed := by
        rw [hsame]
        exact copyInto_observed hc
      simp only [if_pos hq, if_pos (hstamp.2 hq), hcache]
      rfl
    · rw [if_neg hq] at hrest
      have hfree := hlater.isLocked.trans hf
      have hentry : ((runOperations list group).1.copyInto cache).noEntry =
          (runOperations list group).1.noEntry := by
        rw [LiveList.copyInto_eq, hlater.noEntry]
        exact hc
      have hnext := ih hfree hrest (by omega) hentry
      simp only [if_neg hq, if_neg (fun h => hq (hstamp.1 h)), hnext]
      rfl

/-- Whoever captures a list while others write to it is given one whole state of it, in which
also the call leaves it. Every group before the first quiet one costs one attempt, the groups up
to that one take place once each and in order, and no later group takes place. -/
theorem snapshot_of_race {list : LiveList} {groups : List (List Operation)} {reader : Reader}
    (hf : list.lock.isLocked = false) (hkept : list.Kept (admitted groups).flatten)
    (hfew : groups.flatten.countP (·.isChange) < 2 ^ 63)
    (hstale : ∀ cache, reader.cache = some cache →
      cache.noEntry = list.noEntry ∧ cache.stamp ≠ list.stamp) :
    let course := list.course (admitted groups)
    course.list.lock.isLocked = false ∧
      Scene.toSnapshot { list } (groups.map visit) =
        { scene := { list := course.list }
          cache := course.list.observed
          result := .ok (retries groups)
          events := course.events
          answers := course.answers } ∧
      reader.snapshot { list } (groups.map visit) =
        { reader := ⟨some course.list.observed, reader.refreshes + 1⟩
          scene := { list := course.list }
          result := .ok course.list.observed
          events := course.events ++
            if retries groups = 0 then [] else [.retried course.list.stamp (retries groups)]
          answers := course.answers } := by
  have hcapture : ∀ cache : Snapshot, cache.noEntry = list.noEntry → _ :=
    fun cache hc => Scene.capture_of_race hf hkept hfew hc
  have hread : ({ list } : Scene).list.lock.readStamp = .ok list.stamp :=
    StampLock.readStamp_of_free hf
  have hbase : (reader.base list).noEntry = list.noEntry := by
    unfold Reader.base
    cases hcache : reader.cache with
    | none => rfl
    | some cache => exact (hstale cache hcache).1
  have hold : reader.isFresh list.stamp = false := by
    unfold Reader.isFresh
    cases hcache : reader.cache with
    | none => rfl
    | some cache => exact beq_false_of_ne (hstale cache hcache).2
  refine ⟨(LiveList.isLocked_course _).trans hf, hcapture _ rfl, ?_⟩
  unfold Reader.snapshot
  simp only [hread, hold, hcapture _ hbase]
  rfl

/-- A list that is full after one more element. -/
def halfFull : LiveList := { slots := #[5, -1], len := 1, noEntry := -1, lock := ⟨2⟩ }

/-- A reader that was last here when the list had another buffer. -/
def lagging : Reader :=
  { cache := some { slots := #[-1], len := 0, noEntry := -1, stamp := 0 }, refreshes := 1 }

/-- A write that makes the list grow, a write that is refused, a group that only reads, and a
write that comes too late. -/
def rounds : List (List Operation) :=
  [[.change (.extend [6, 7])], [.read .display, .change (.set 9 0)], [.read (.indexOf 7)],
    [.change .clear]]

/-- Two attempts are given up, and the third shows the list as it is by then. -/
theorem snapshot_rounds :
    lagging.snapshot { list := halfFull } (rounds.map visit) =
      let course := halfFull.course (rounds.take 3)
      { reader := ⟨some { slots := #[5, 6, 7, -1], len := 3, noEntry := -1, stamp := 6 }, 2⟩
        scene := { list := course.list }
        result := .ok { slots := #[5, 6, 7, -1], len := 3, noEntry := -1, stamp := 6 }
        events := [.grown 2 4, .retried 6 2]
        answers := course.answers } := by
  have hstale : ∀ cache, lagging.cache = some cache →
      cache.noEntry = halfFull.noEntry ∧ cache.stamp ≠ halfFull.stamp := by
    rintro _ ⟨⟩
    exact ⟨rfl, by decide⟩
  obtain ⟨-, -, hread⟩ := @snapshot_of_race halfFull rounds lagging rfl
    ⟨rfl, trivial, rfl, trivial, trivial⟩ (by decide) hstale
  exact hread.trans rfl

end SnapList
