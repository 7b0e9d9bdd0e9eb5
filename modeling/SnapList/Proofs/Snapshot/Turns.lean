/-
  Readers over a whole session.

  The HISTORY of a session says which mutations took the lock of which list, and which requests of
  which readers were answered or broken off, in order. What others write while a list is captured comes
  before the answer to the capture. A session is SETTLED if its history is true of it: it tells how
  often each list was written, and of each reader what its tally makes of it.

  Main statement: in every session with fewer than 2^63 writes for each list, whatever captures were
  raced or broken off, a reader has copied its list once for each time that a copy was due, and one
  that is asked hands out its list as it is at that moment, unless its only requests so far were broken
  off and its list was never written (`readers_stay_current`).
-/
import SnapList.Proofs.Snapshot.Freshness
import SnapList.Session

namespace SnapList

open LiveList (Answer Visit runOperations)

namespace Session

/-- The writes of list `number` by those visits that took place. -/
def disturbances (number : Nat) (list : LiveList) (visits : List Visit)
    (answers : List (List Answer)) : List Happening :=
  Happening.writes number (LiveList.writes list (tried visits answers))

/-- What a command makes happen that matters to readers. -/
def happenings (session : Session) (number : Nat) (command : Command) : List Happening :=
  match session.lists[number]? with
  | none => []
  | some list =>
    match command with
    | .operate operation => Happening.writes number (operation.takesLock list).toNat
    | .nested outer _ _ => Happening.writes number (outer.takesLock list).toNat
    | .readerSnapshot reader _ => [.asked reader]
    | .raceSnapshot none visits =>
      disturbances number list visits (session.toSnapshot number list visits).2.answers
    | .raceSnapshot (some reader) visits =>
      match session.read? reader number visits with
      | none => []
      | some (_, reading) =>
        disturbances number list visits reading.answers ++ [reading.told reader]
    | _ => []

def after? (session : Session) (commands : List (Nat × Command)) : Option Session :=
  (session.run? commands).map fun turns => (turns.getLast?.map Turn.session).getD session

def history (session : Session) : List (Nat × Command) → List Happening
  | [] => []
  | (number, command) :: rest =>
    session.happenings number command ++
      match session.step? number command with
      | none => []
      | some turn => turn.session.history rest

/-- The history tells of each list how often it was written since it was created, and of each reader
what its tally makes of it. -/
structure Settled (session : Session) (history : List Happening) : Prop where
  created : ∀ (number : Nat) (list : LiveList), session.lists[number]? = some list →
    ∃ options new, LiveList.create options = .ok new ∧
      new.Later list (history.count (.wrote number))
  known : ∀ reader : Nat, .asked reader ∈ history ∨ .broken reader ∈ history →
    reader < session.readers.size
  current : ∀ (reader number : Nat) (kept : Reader),
    session.readers[reader]? = some (number, kept) →
    ∃ list, session.lists[number]? = some list ∧
      kept.Dated list (history.count (.wrote number)) ∧
      kept.Counted list (tally reader number history)

variable {session after : Session} {history : List Happening} {number own place reader count : Nat}
  {list acted left : LiveList} {kept : Reader} {scene : Scene} {reading : Reading}
  {visits : List Visit}

/-! ## The lists of a session -/

theorem setList_self (hl : session.lists[number]? = some list) :
    session.setList number list = session := by
  have hlists : session.lists.setIfInBounds number list = session.lists := by
    refine Array.ext_getElem? fun other => ?_
    rw [Array.getElem?_setIfInBounds]
    by_cases h : number = other
    · subst h
      obtain ⟨hlt, -⟩ := Array.getElem?_eq_some_iff.1 hl
      rw [if_pos rfl, if_pos hlt, hl]
    · rw [if_neg h]
  unfold setList
  rw [hlists]

theorem getElem?_setList (hl : session.lists[number]? = some list) (other : Nat) :
    (session.setList number left).lists[other]? =
      if number = other then some left else session.lists[other]? := by
  obtain ⟨hlt, -⟩ := Array.getElem?_eq_some_iff.1 hl
  unfold setList
  rw [Array.getElem?_setIfInBounds]
  by_cases h : number = other
  · rw [if_pos h, if_pos h, if_pos hlt]
  · rw [if_neg h, if_neg h]

/-- A scene shows the list that is captured and the one on which others act, and what they leave is
all that changes in the session. -/
theorem scene?_spec (hs : session.scene? own place = some scene) (left : LiveList)
    (operations : List LiveList.Operation) :
    session.lists[own]? = some scene.list ∧ session.lists[place]? = some scene.acted ∧
      session.setScene own place (scene.act left) = session.setList place left ∧
      (session.setList place left).lists[own]? = some (scene.act left).list ∧
      scene.written operations =
        if place = own then LiveList.writes scene.acted operations else 0 := by
  obtain ⟨list, hl, hs⟩ := Option.bind_eq_some_iff.1 hs
  split at hs
  · rename_i h
    cases hs
    subst h
    refine ⟨hl, hl, ?_, ?_, (if_pos rfl).symm⟩
    · show (session.setList place left).setList place left = session.setList place left
      refine setList_self ?_
      rw [getElem?_setList hl, if_pos rfl]
    · rw [getElem?_setList hl, if_pos rfl]
      rfl
  · rename_i h
    obtain ⟨other, ho, hs⟩ := Option.bind_eq_some_iff.1 hs
    cases hs
    refine ⟨hl, ho, ?_, ?_, (if_neg h).symm⟩
    · show (session.setList own list).setList place left = session.setList place left
      rw [setList_self hl]
    · rw [getElem?_setList ho, if_neg h]
      exact hl

theorem exists_scene? (hl : session.lists[own]? = some list)
    (hplace : place < session.lists.size) :
    ∃ scene, session.scene? own place = some scene ∧ scene.list = list := by
  unfold scene?
  rw [hl]
  by_cases h : place = own
  · exact ⟨{ list }, if_pos h, rfl⟩
  · refine ⟨{ list, other := some session.lists[place] }, ?_, rfl⟩
    rw [Array.getElem?_eq_getElem hplace]
    exact if_neg h

/-! ## One turn -/

theorem free_create {options : Options} (h : LiveList.create options = .ok list) :
    list.lock.isLocked = false := by
  obtain ⟨-, rfl⟩ := LiveList.create_eq_ok_iff.1 h
  rfl

theorem Settled.free (h : session.Settled history) (hl : session.lists[number]? = some list) :
    list.lock.isLocked = false := by
  obtain ⟨options, new, hcreate, hlater⟩ := h.created number list hl
  exact hlater.isLocked.trans (free_create hcreate)

/-- Only a list that was never written has the stamp zero. -/
theorem Settled.stamp_ne_zero_iff (h : session.Settled history)
    (hl : session.lists[number]? = some list) (hfew : history.count (.wrote number) < 2 ^ 63) :
    list.stamp ≠ 0 ↔ .wrote number ∈ history := by
  obtain ⟨options, new, hcreate, hlater⟩ := h.created number list hl
  obtain ⟨-, hnew⟩ := LiveList.create_eq_ok_iff.1 hcreate
  have hzero : new.stamp = 0 := congrArg LiveList.stamp hnew
  have hstamp := hlater.stamp_eq_iff hfew
  rw [hzero, List.count_eq_zero] at hstamp
  rw [Ne, hstamp, not_not]

/-- After some writes of one list: a copy of it is due for every one of its readers. -/
theorem Settled.writes (h : session.Settled history) (hl : session.lists[number]? = some list)
    (hlater : list.Later left count)
    (hfew : ∀ other, (history ++ Happening.writes number count).count (.wrote other) < 2 ^ 63) :
    (session.setList number left).Settled (history ++ Happening.writes number count) := by
  refine ⟨fun other found hfound => ?_, fun reader hr => ?_, fun reader own kept hr => ?_⟩
  · rw [getElem?_setList hl] at hfound
    rw [count_writes]
    by_cases e : number = other
    · subst e
      rw [if_pos rfl] at hfound ⊢
      cases hfound
      obtain ⟨options, new, hcreate, hnew⟩ := h.created number list hl
      exact ⟨options, new, hcreate, hnew.trans hlater⟩
    · rw [if_neg e] at hfound ⊢
      exact h.created other found hfound
  · refine h.known reader ?_
    simpa [Happening.writes] using hr
  · obtain ⟨read, hread, hdated, hcounted⟩ := h.current reader own kept hr
    have hbound := hfew own
    rw [getElem?_setList hl]
    rw [count_writes] at hbound ⊢
    rw [tally_writes]
    by_cases e : number = own
    · subst e
      obtain rfl : list = read := Option.some.inj (hl.symm.trans hread)
      rw [if_pos rfl] at hbound
      simp only [if_true]
      exact ⟨left, rfl, hdated.later hlater, hcounted.later hdated hlater hbound⟩
    · simp only [if_neg e]
      exact ⟨read, hread, hdated, hcounted⟩

/-- A new reader has copied nothing, and nobody has asked it. -/
theorem Settled.openReader (h : session.Settled history)
    (hl : session.lists[number]? = some list) :
    Settled { session with readers := session.readers.push (number, {}) } history := by
  refine ⟨h.created, fun reader hr => ?_, fun reader own kept hr => ?_⟩
  · rw [Array.size_push]
    exact Nat.lt_succ_of_lt (h.known reader hr)
  · rw [Array.getElem?_push] at hr
    split at hr
    · rename_i e
      cases hr
      have hasked : .asked reader ∉ history := fun ha =>
        Nat.lt_irrefl _ (e ▸ h.known reader (Or.inl ha))
      have hbroken : .broken reader ∉ history := fun hb =>
        Nat.lt_irrefl _ (e ▸ h.known reader (Or.inr hb))
      obtain ⟨hdue, hcopies⟩ := tally_of_new hasked hbroken
      obtain ⟨options, new, hcreate, hlater⟩ := h.created number list hl
      exact ⟨list, hl, Reader.dated_new hcreate hlater (Nat.le_refl _),
        Reader.counted_new hdue hcopies⟩
    · exact h.current reader own kept hr

/-- A reader was asked, and is now `kept`. -/
theorem Settled.setReader (h : session.Settled history) {before : Reader} {happening : Happening}
    (hhappening : happening = .asked reader ∨ happening = .broken reader)
    (hr : session.readers[reader]? = some (own, before))
    (hl : session.lists[own]? = some list) (hdated : kept.Dated list (history.count (.wrote own)))
    (hcounted : kept.Counted list ((tally reader own history).next reader own happening)) :
    Settled { session with readers := session.readers.setIfInBounds reader (own, kept) }
      (history ++ [happening]) := by
  obtain ⟨hlt, -⟩ := Array.getElem?_eq_some_iff.1 hr
  have hcount : ∀ other, (history ++ [happening]).count (.wrote other) =
      history.count (.wrote other) := by
    intro other
    rcases hhappening with rfl | rfl <;> simp
  refine ⟨fun other found hfound => ?_, fun other ho => ?_, fun other number found ho => ?_⟩
  · rw [hcount]
    exact h.created other found hfound
  · rw [Array.size_setIfInBounds]
    by_cases e : other = reader
    · exact e ▸ hlt
    · refine h.known other ?_
      rcases hhappening with rfl | rfl <;> simpa [e] using ho
  · rw [Array.getElem?_setIfInBounds] at ho
    rw [hcount, tally_snoc]
    by_cases e : reader = other
    · subst e
      rw [if_pos rfl, if_pos hlt] at ho
      cases ho
      exact ⟨list, hl, hdated, hcounted⟩
    · rw [if_neg e] at ho
      have hother : (tally other number history).next other number happening =
          tally other number history := by
        rcases hhappening with rfl | rfl <;> exact if_neg e
      rw [hother]
      exact h.current other number found ho

theorem told_eq (reading : Reading) (reader : Nat) :
    reading.told reader = .asked reader ∨ reading.told reader = .broken reader := by
  unfold Reading.told
  split
  · exact Or.inl rfl
  · exact Or.inr rfl

theorem read?_eq (hr : session.readers[reader]? = some (own, kept))
    (hs : session.scene? own place = some scene) (visits : List Visit) :
    session.read? reader place visits =
      some
        ({ session.setScene own place (kept.snapshot scene visits).scene with
            readers := session.readers.setIfInBounds reader
              (own, (kept.snapshot scene visits).reader) },
          kept.snapshot scene visits) := by
  unfold Session.read?
  rw [hr]
  show (session.scene? own place).bind _ = _
  rw [hs]
  rfl

theorem exists_of_read? (h : session.read? reader place visits = some (after, reading)) :
    ∃ own before scene, session.readers[reader]? = some (own, before) ∧
      session.scene? own place = some scene ∧ before.snapshot scene visits = reading ∧
      after =
        { session.setScene own place reading.scene with
          readers := session.readers.setIfInBounds reader (own, reading.reader) } := by
  obtain ⟨⟨own, before⟩, hr, h⟩ := Option.bind_eq_some_iff.1 h
  obtain ⟨scene, hs, h⟩ := Option.bind_eq_some_iff.1 h
  cases h
  exact ⟨own, before, scene, hr, hs, rfl, rfl⟩

/-- Whatever comes of the request of a reader, and whoever writes meanwhile, the session stays
settled. -/
theorem Settled.read? (h : session.Settled history)
    (hread : session.read? reader place visits = some (after, reading))
    (hacted : session.lists[place]? = some acted)
    (hfew : ∀ other, (history ++ disturbances place acted visits reading.answers).count
      (.wrote other) < 2 ^ 63) :
    after.Settled
      (history ++ disturbances place acted visits reading.answers ++ [reading.told reader]) := by
  obtain ⟨own, before, scene, hr, hs, hreading, rfl⟩ := exists_of_read? hread
  obtain ⟨hl, hplace, hset, hleft, hwritten⟩ := scene?_spec hs
    (runOperations scene.acted (tried visits reading.answers)).1 (tried visits reading.answers)
  obtain rfl : acted = scene.acted := Option.some.inj (hacted.symm.trans hplace)
  obtain ⟨read, hown, hdated, hcounted⟩ := h.current reader own before hr
  obtain rfl : scene.list = read := Option.some.inj (hl.symm.trans hown)
  have hscene := before.scene_snapshot scene visits
  have hasked := hdated.ask visits
  rw [hreading] at hscene hasked
  have hmiddle : (session.setList place _).Settled
      (history ++ disturbances place scene.acted visits reading.answers) :=
    h.writes hacted (LiveList.later_runOperations _ _) hfew
  have hcount := count_writes history place
    (LiveList.writes scene.acted (tried visits reading.answers)) own
  have htally := tally_writes reader own place history
    (LiveList.writes scene.acted (tried visits reading.answers))
  rw [← hwritten] at hcount htally
  rw [← hscene] at hset hleft
  rw [hset]
  have hbound := hfew own
  unfold disturbances at hbound ⊢
  rw [hcount] at hbound
  refine hmiddle.setReader (told_eq reading reader) hr hleft ?_ ?_
  · unfold disturbances
    rw [hcount]
    exact hasked
  · unfold disturbances
    rw [htally]
    refine hcounted.ask hdated hreading reader own hbound ?_
    rw [← htally, written_iff]
    exact (hmiddle.stamp_ne_zero_iff hleft (hfew own)).symm

theorem Settled.keep (h : session.Settled history) (snapshot : Snapshot) :
    (session.keep snapshot).Settled history :=
  ⟨h.created, h.known, h.current⟩

theorem Settled.toSnapshot (h : session.Settled history) (hl : session.lists[number]? = some list)
    (visits : List Visit)
    (hfew : ∀ other, (history ++ disturbances number list visits
      (session.toSnapshot number list visits).2.answers).count (.wrote other) < 2 ^ 63) :
    (session.toSnapshot number list visits).1.Settled
      (history ++ disturbances number list visits
        (session.toSnapshot number list visits).2.answers) := by
  have hscene := Scene.scene_capture { list } (.empty list.noEntry) visits
  have hlater := LiveList.later_runOperations
    (tried visits (session.toSnapshot number list visits).2.answers) list
  show (session.setList number (Scene.capture { list } (.empty list.noEntry) visits).scene.list).Settled
    _
  rw [hscene]
  exact h.writes hl hlater hfew

theorem lists_of_step? {command : Command} {turn : Turn}
    (hturn : session.step? number command = some turn) :
    ∃ list, session.lists[number]? = some list := by
  cases hl : session.lists[number]? with
  | none =>
    unfold step? at hturn
    rw [hl] at hturn
    cases hturn
  | some list => exact ⟨list, rfl⟩

/-- A reader that is asked while nobody writes has its answer. -/
theorem Settled.told_of_unvisited (h : session.Settled history)
    (hread : session.read? reader place [] = some (after, reading)) :
    ∃ shown, reading.result = .ok shown := by
  obtain ⟨own, before, scene, hr, hs, rfl, -⟩ := exists_of_read? hread
  obtain ⟨hl, -⟩ := scene?_spec hs scene.acted []
  obtain ⟨shown, hshown, -⟩ := Reader.exists_snapshot_nil (h.free hl) before
  exact ⟨shown, hshown⟩

theorem Settled.read?_nil (h : session.Settled history)
    (hread : session.read? reader place [] = some (after, reading))
    (hacted : session.lists[place]? = some acted)
    (hfew : ∀ other, history.count (.wrote other) < 2 ^ 63) :
    after.Settled (history ++ [.asked reader]) := by
  obtain ⟨shown, hshown⟩ := h.told_of_unvisited hread
  have hnobody : disturbances place acted [] reading.answers = [] := by
    simp [disturbances, Happening.writes, LiveList.writes]
  have htold : reading.told reader = .asked reader := by
    unfold Reading.told
    rw [hshown]
  have hafter := h.read? hread hacted
  rw [hnobody, htold, List.append_nil] at hafter
  exact hafter hfew

theorem Settled.step (h : session.Settled history) {command : Command}
    (hfew : ∀ other, (history ++ session.happenings number command).count (.wrote other) < 2 ^ 63)
    {turn : Turn} (hturn : session.step? number command = some turn) :
    turn.session.Settled (history ++ session.happenings number command) := by
  obtain ⟨list, hl⟩ := lists_of_step? hturn
  unfold happenings at hfew ⊢
  unfold step? at hturn
  rw [hl, Option.bind_eq_bind, Option.bind_some] at hturn
  rw [hl] at hfew ⊢
  have hsame : session.Settled (history ++ []) := by rwa [List.append_nil]
  cases command with
  | operate operation =>
    cases hturn
    exact h.writes hl (operation.later_run list) hfew
  | nested outer pin inner =>
    cases hturn
    exact h.writes hl (LiveList.later_call (inner.keepsList_atPin pin) outer list) hfew
  | takeSnapshot =>
    have hcapture : Scene.capture { list } (.empty list.noEntry) [] = _ :=
      Scene.capture_nil (h.free hl)
    simp only [Session.toSnapshot, Scene.toSnapshot, hcapture, setList_self hl] at hturn
    cases hturn
    exact hsame.keep _
  | openReader =>
    cases hturn
    exact hsame.openReader hl
  | readerList reader =>
    obtain ⟨_, -, hturn⟩ := Option.bind_eq_some_iff.1 hturn
    cases hturn
    exact hsame
  | readerSnapshot reader keep =>
    obtain ⟨⟨after, reading⟩, hread, hturn⟩ := Option.bind_eq_some_iff.1 hturn
    obtain ⟨shown, hshown⟩ := h.told_of_unvisited hread
    have hasked := h.read?_nil hread hl fun other => by simpa using hfew other
    simp only [hshown] at hturn
    cases hturn
    show Settled (if keep then after.keep shown else after) _
    split
    · exact hasked.keep shown
    · exact hasked
  | raceSnapshot reader visits =>
    cases reader with
    | none =>
      cases hturn
      exact h.toSnapshot hl visits hfew
    | some reader =>
      obtain ⟨⟨after, reading⟩, hread, hturn⟩ := Option.bind_eq_some_iff.1 hturn
      cases hturn
      simp only [hread, ← List.append_assoc] at hfew ⊢
      refine h.read? hread hl fun other => ?_
      have hall := hfew other
      rw [List.count_append] at hall
      omega
  | ask snapshot question =>
    obtain ⟨_, -, hturn⟩ := Option.bind_eq_some_iff.1 hturn
    cases hturn
    exact hsame
  | compare first second =>
    obtain ⟨_, -, hturn⟩ := Option.bind_eq_some_iff.1 hturn
    obtain ⟨_, -, hturn⟩ := Option.bind_eq_some_iff.1 hturn
    cases hturn
    exact hsame
  | cloneSnapshot snapshot =>
    obtain ⟨copied, -, hturn⟩ := Option.bind_eq_some_iff.1 hturn
    cases hturn
    exact hsame.keep copied

/-! ## Whole runs -/

theorem create_of_run {creation : Creation} (h : creation.run = .ok list) :
    LiveList.create creation.options = .ok list := by
  unfold Creation.run LiveList.insist at h
  cases hc : LiveList.create creation.options with
  | ok made =>
    rw [hc] at h
    have hmade : made = list := by
      split at h <;> exact Except.ok.inj h
    rw [hmade]
  | error reason =>
    rw [hc] at h
    split at h <;> cases h

theorem exists_create_of_mapM {creations : List Creation} {lists : List LiveList}
    (h : creations.mapM Creation.run = .ok lists) (hmem : list ∈ lists) :
    ∃ options, LiveList.create options = .ok list := by
  induction creations generalizing lists with
  | nil =>
    cases h
    cases hmem
  | cons creation rest ih =>
    rw [List.mapM_cons] at h
    cases hfirst : creation.run with
    | error failure =>
      rw [hfirst] at h
      cases h
    | ok first =>
      cases hothers : rest.mapM Creation.run with
      | error failure =>
        rw [hfirst, hothers] at h
        cases h
      | ok others =>
        rw [hfirst, hothers] at h
        cases h
        rcases List.mem_cons.1 hmem with rfl | hmem
        · exact ⟨_, create_of_run hfirst⟩
        · exact ih hothers hmem

theorem exists_create_of_start? {creations : List Creation} (h : start? creations = some session)
    (hl : session.lists[number]? = some list) : ∃ options, LiveList.create options = .ok list := by
  unfold start? at h
  cases hlists : creations.mapM Creation.run with
  | error failure =>
    rw [hlists] at h
    cases h
  | ok lists =>
    rw [hlists] at h
    cases h
    rw [List.getElem?_toArray] at hl
    exact exists_create_of_mapM hlists (List.mem_of_getElem? hl)

theorem settled_start {creations : List Creation} (h : start? creations = some session) :
    session.Settled [] := by
  have hreaders : session.readers = #[] := by
    unfold start? at h
    split at h <;> cases h
    rfl
  refine ⟨fun number list hl => ?_, fun reader hr => ?_, fun reader number kept hr => ?_⟩
  · obtain ⟨options, hcreate⟩ := exists_create_of_start? h hl
    exact ⟨options, list, hcreate, LiveList.later_refl list⟩
  · rcases hr with hr | hr <;> cases hr
  · rw [hreaders] at hr
    cases hr

theorem after?_cons (session : Session) (number : Nat) (command : Command)
    (rest : List (Nat × Command)) :
    session.after? ((number, command) :: rest) =
      (session.step? number command).bind fun turn => turn.session.after? rest := by
  unfold after?
  rw [run?]
  cases session.step? number command with
  | none => rfl
  | some turn =>
    simp only [Option.bind_eq_bind, Option.bind_some]
    cases turn.session.run? rest with
    | none => rfl
    | some turns =>
      show some (((turn :: turns).getLast?.map Turn.session).getD session) =
        some ((turns.getLast?.map Turn.session).getD turn.session)
      rw [List.getLast?_cons]
      cases turns.getLast? <;> rfl

theorem history_snoc {commands : List (Nat × Command)} {last : Session}
    (hlast : session.after? commands = some last) (number : Nat) (command : Command) :
    session.history (commands ++ [(number, command)]) =
      session.history commands ++ last.happenings number command := by
  induction commands generalizing session with
  | nil =>
    obtain rfl : session = last := Option.some.inj hlast
    have hone : session.history [(number, command)] = session.happenings number command := by
      rw [Session.history]
      split <;> exact List.append_nil _
    exact hone
  | cons entry rest ih =>
    obtain ⟨first, before⟩ := entry
    rw [after?_cons] at hlast
    obtain ⟨turn, hturn, hrest⟩ := Option.bind_eq_some_iff.1 hlast
    rw [List.cons_append, Session.history, Session.history, hturn]
    simp only [ih hrest, List.append_assoc]

theorem Settled.run {commands : List (Nat × Command)} {last : Session}
    (h : session.Settled history)
    (hfew : ∀ list, (history ++ session.history commands).count (.wrote list) < 2 ^ 63)
    (hlast : session.after? commands = some last) :
    last.Settled (history ++ session.history commands) := by
  induction commands generalizing session history with
  | nil =>
    cases hlast
    simpa [Session.history] using h
  | cons entry rest ih =>
    obtain ⟨number, command⟩ := entry
    rw [after?_cons] at hlast
    obtain ⟨turn, hturn, hrest⟩ := Option.bind_eq_some_iff.1 hlast
    have hsplit : session.history ((number, command) :: rest) =
        session.happenings number command ++ turn.session.history rest := by
      rw [Session.history, hturn]
    rw [hsplit, ← List.append_assoc] at hfew ⊢
    have hone : ∀ list,
        (history ++ session.happenings number command).count (.wrote list) < 2 ^ 63 := by
      intro list
      have hall := hfew list
      rw [List.count_append] at hall
      omega
    exact ih (h.step hone hturn) hfew hrest

theorem settled_of_run {creations : List Creation} {commands : List (Nat × Command)}
    {start : Session} (hstart : start? creations = some start)
    (hrun : start.after? commands = some session)
    (hfew : ∀ list, (start.history commands).count (.wrote list) < 2 ^ 63) :
    session.Settled (start.history commands) :=
  (settled_start hstart).run hfew hrun

/-! ## What readers hand out -/

/-- A spoiled reader is one that was never answered by a copy, was broken off, and has a list that was
never written. -/
theorem Settled.spoiled_iff (h : session.Settled history)
    (hr : session.readers[reader]? = some (number, kept))
    (hl : session.lists[number]? = some list) :
    kept.spoiled list = true ↔
      kept.refreshes = 0 ∧ .broken reader ∈ history ∧ .wrote number ∉ history := by
  obtain ⟨read, hread, hdated, hcounted⟩ := h.current reader number kept hr
  obtain rfl : list = read := Option.some.inj (hl.symm.trans hread)
  rw [hcounted.spoiled_eq hdated, hcounted.copies, Bool.and_eq_true, beq_iff_eq,
    Bool.not_eq_true', and_comm]
  exact and_congr_right fun hnever => due_eq_false_iff hnever

/-- A request that is answered, whoever wrote meanwhile, shows the list as it leaves it, and counts the
copies. -/
theorem Settled.shown_of_read? (h : session.Settled history)
    (hr : session.readers[reader]? = some (number, kept))
    (hl : session.lists[number]? = some list) (hfew : history.count (.wrote number) < 2 ^ 63)
    (hread : session.read? reader place visits = some (after, reading)) {shown : Snapshot}
    (hshown : reading.result = .ok shown) :
    ∃ left, after.lists[number]? = some left ∧
      shown = if kept.spoiled list then .empty list.noEntry else left.observed := by
  obtain ⟨own, before, scene, hbefore, hs, rfl, rfl⟩ := exists_of_read? hread
  cases hr.symm.trans hbefore
  obtain ⟨read, hown, hdated, -⟩ := h.current reader number kept hr
  have hscene := kept.scene_snapshot scene visits
  obtain ⟨hlist, -, hset, hleft, -⟩ := scene?_spec hs
    (runOperations scene.acted (tried visits (kept.snapshot scene visits).answers)).1 []
  rw [← hscene] at hset hleft
  cases hown.symm.trans hlist
  cases hl.symm.trans hlist
  refine ⟨(kept.snapshot scene visits).scene.list, ?_, hdated.shown_eq hfew hshown⟩
  rw [hset]
  exact hleft

theorem readers_of_read? (hr : session.readers[reader]? = some (number, kept))
    (hread : session.read? reader place visits = some (after, reading)) :
    after.readers[reader]? = some (number, reading.reader) := by
  obtain ⟨own, before, scene, hbefore, -, -, rfl⟩ := exists_of_read? hread
  cases hr.symm.trans hbefore
  obtain ⟨hlt, -⟩ := Array.getElem?_eq_some_iff.1 hr
  exact Array.getElem?_setIfInBounds_self_of_lt hlt

theorem Settled.refreshes_eq (h : session.Settled history)
    (hr : session.readers[reader]? = some (number, kept)) :
    session.refreshes reader = some (tally reader number history).copies := by
  obtain ⟨list, -, -, hcounted⟩ := h.current reader number kept hr
  unfold refreshes
  rw [hr, Option.map_some, hcounted.copies]

theorem Settled.exists_read? (h : session.Settled history)
    (hr : session.readers[reader]? = some (number, kept)) (hplace : place < session.lists.size) :
    ∃ after reading shown, session.read? reader place [] = some (after, reading) ∧
      reading.result = .ok shown ∧ after.lists = session.lists := by
  obtain ⟨list, hl, -, -⟩ := h.current reader number kept hr
  obtain ⟨scene, hs, -⟩ := exists_scene? hl hplace
  obtain ⟨hlist, hacted, hset, -, -⟩ := scene?_spec hs scene.acted []
  obtain ⟨shown, hshown, hscene⟩ := Reader.exists_snapshot_nil (h.free hlist) kept
  rw [scene.act_acted, setList_self hacted] at hset
  refine ⟨_, _, shown, read?_eq hr hs [], hshown, ?_⟩
  show (session.setScene number place (kept.snapshot scene []).scene).lists = _
  rw [hscene, hset]

theorem happenings_readerSnapshot (hplace : place < session.lists.size) {keep : Bool} :
    session.happenings place (.readerSnapshot reader keep) = [.asked reader] := by
  unfold happenings
  rw [Array.getElem?_eq_getElem hplace]

theorem step?_of_read? (hplace : place < session.lists.size)
    (hread : session.read? reader place [] = some (after, reading)) {shown : Snapshot}
    (hresult : reading.result = .ok shown) (keep : Bool) :
    session.step? place (.readerSnapshot reader keep) =
      some
        { session := if keep then after.keep shown else after
          result := .ok (.taken shown (after.refreshes reader) none)
          events := reading.events } := by
  unfold step?
  rw [Array.getElem?_eq_getElem hplace]
  simp only [Option.bind_eq_bind, Option.bind_some, hread, hresult]
  rfl

/-- In every session with fewer than 2^63 writes for each list, whatever captures were raced by writes
or broken off: a reader has copied its list once for each time that a copy was due, and one that is
asked while nobody writes answers with its list as it is then. Only a reader that was never answered by
a copy, was broken off, and has a list that was never written hands out a snapshot without slots, which
is right if the list has none. -/
theorem readers_stay_current {creations : List Creation} {commands : List (Nat × Command)}
    {start : Session} (hstart : start? creations = some start)
    (hrun : start.after? commands = some session)
    (hfew : ∀ list, (start.history commands).count (.wrote list) < 2 ^ 63)
    (hr : session.readers[reader]? = some (number, kept)) :
    let spoiled := kept.refreshes = 0 ∧ .broken reader ∈ start.history commands ∧
      .wrote number ∉ start.history commands
    kept.refreshes = (tally reader number (start.history commands)).copies ∧
      ∃ list, session.lists[number]? = some list ∧
        ∀ place keep, place < session.lists.size → ∃ turn snapshot,
          session.step? place (.readerSnapshot reader keep) = some turn ∧
            turn.result = .ok (.taken snapshot (some (tally reader number (start.history
              (commands ++ [(place, .readerSnapshot reader keep)]))).copies) none) ∧
            (snapshot.Shows list ↔ ¬ spoiled ∨ list.capacity = 0) ∧
            (spoiled → snapshot = .empty list.noEntry) ∧
            turn.session.lists = session.lists := by
  intro spoiled
  have h := settled_of_run hstart hrun hfew
  obtain ⟨list, hl, hdated, hcounted⟩ := h.current reader number kept hr
  have hspoiled : kept.spoiled list = true ↔ spoiled := h.spoiled_iff hr hl
  refine ⟨hcounted.copies, list, hl, fun place keep hplace => ?_⟩
  obtain ⟨after, reading, shown, hread, hresult, hlists⟩ := h.exists_read? hr hplace
  obtain ⟨left, hleft, hshown⟩ := h.shown_of_read? hr hl (hfew number) hread hresult
  rw [hlists, hl] at hleft
  obtain rfl := Option.some.inj hleft
  have hcopies : after.refreshes reader = some (tally reader number (start.history
      (commands ++ [(place, .readerSnapshot reader keep)]))).copies := by
    have hasked := h.read?_nil hread (Array.getElem?_eq_getElem hplace) hfew
    rw [history_snoc hrun, happenings_readerSnapshot hplace]
    exact hasked.refreshes_eq (readers_of_read? hr hread)
  refine ⟨_, shown, step?_of_read? hplace hread hresult keep, ?_, ?_, ?_, ?_⟩
  · rw [hcopies]
  · rw [hshown, hdated.shows_iff (hfew number), ← hspoiled, Bool.not_eq_true]
  · intro hbad
    rw [hshown, if_pos (hspoiled.2 hbad)]
  · cases keep <;> exact hlists

/-- A list of one slot and a list of two. -/
def twoLists : List Creation :=
  [⟨{ initialCapacity := 1 }, false⟩, ⟨{ initialCapacity := 2, noEntry := 0 }, true⟩]

/-- The reader of the first list is asked twice, with a write of the other list in between. After a push
and one that breaks off when the list has grown, it is asked a third time, and raced by a write. Then a
write is refused, and the next request breaks off when someone has pushed another element. -/
def mixedRun : List (Nat × Command) :=
  [(0, .openReader), (0, .readerSnapshot 0 false), (1, .operate (.change (.push 3))),
    (0, .readerSnapshot 0 true), (0, .operate (.change (.push 5))),
    (0, .nested (.push 6) 2 { fails := true }),
    (0, .raceSnapshot (some 0) [⟨[.change (.set 0 7)], false⟩]), (0, .operate (.change (.set 9 0))),
    (0, .raceSnapshot (some 0) [⟨[.change (.push 8)], true⟩])]

/-- Of these requests the first and the third copied the list, and the next one copies it again. -/
theorem snapshot_after_mixedRun :
    ∃ start session turn, start? twoLists = some start ∧ start.after? mixedRun = some session ∧
      (∀ list, (start.history mixedRun).count (.wrote list) < 2 ^ 63) ∧
      (∃ kept, session.readers[0]? = some (0, kept) ∧ kept.refreshes = 2) ∧
      session.step? 1 (.readerSnapshot 0 false) = some turn ∧
      ∃ snapshot, turn.result = .ok (.taken snapshot (some 3) none) ∧
        snapshot.slots = #[7, 8] ∧ snapshot.len = 2 ∧ snapshot.stamp = 10 := by
  obtain ⟨start, hstart⟩ : ∃ start, start? twoLists = some start := ⟨_, rfl⟩
  have hhistory : (start? twoLists).map (fun start => ((start.history mixedRun).length,
      (tally 0 0 (start.history mixedRun)).copies,
      (tally 0 0 (start.history (mixedRun ++ [(1, .readerSnapshot 0 false)]))).copies)) =
        some (10, 2, 3) := by decide +kernel
  have hends : ((start? twoLists).bind (after? · mixedRun)).map (fun session =>
      (session.readers.map Prod.fst, session.lists.map fun list =>
        (list.slots, list.len, list.stamp))) =
        some (#[0], #[(#[7, 8], 2, 10), (#[3, 0], 1, 2)]) := by decide +kernel
  rw [hstart] at hhistory hends
  obtain ⟨session, hrun, hends⟩ := Option.map_eq_some_iff.1 hends
  simp only [Option.map_some, Option.some.injEq, Prod.mk.injEq] at hhistory hends
  obtain ⟨hlength, hbefore, hnext⟩ := hhistory
  obtain ⟨hreaders, hlists⟩ := hends
  have hfew : ∀ list, (start.history mixedRun).count (.wrote list) < 2 ^ 63 := fun list =>
    Nat.lt_of_le_of_lt List.count_le_length (by rw [hlength]; decide)
  obtain ⟨⟨own, kept⟩, hr, hown⟩ : ∃ entry, session.readers[0]? = some entry ∧ entry.1 = 0 := by
    have hfirst := congrArg (·[0]?) hreaders
    rw [Array.getElem?_map] at hfirst
    exact Option.map_eq_some_iff.1 hfirst
  cases hown
  obtain ⟨hcopies, list, hl, hask⟩ := readers_stay_current hstart hrun hfew hr
  have htwo : kept.refreshes = 2 := hcopies.trans hbefore
  have hplace : 1 < session.lists.size := by
    have hsize := congrArg Array.size hlists
    rw [Array.size_map] at hsize
    exact hsize ▸ Nat.one_lt_two
  obtain ⟨turn, snapshot, hturn, hresult, hshown, -, -⟩ := hask 1 false hplace
  have hshows := hshown.2 (Or.inl fun hspoiled => by
    rw [htwo] at hspoiled
    cases hspoiled.1)
  rw [hnext] at hresult
  refine ⟨start, session, turn, hstart, hrun, hfew, ⟨kept, hr, htwo⟩, hturn, snapshot, hresult, ?_⟩
  have hfirst := congrArg (·[0]?) hlists
  rw [Array.getElem?_map, hl] at hfirst
  simp only [Option.map_some] at hfirst
  rw [hshows.slots, hshows.len, hshows.stamp]
  simpa using hfirst

end Session

end SnapList
