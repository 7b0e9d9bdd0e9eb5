/-
  The lists of a session.

  A session changes a list by operations, by calls with visits at their pins, and by the visits that
  race with a snapshot. Each of these is a call on the list as it is by then, so whatever commands
  are given, the lists of a session are reachable, and what is known of reachable lists is known of
  them.

  Main statement: every list of every session is reachable (`reachable_of_run`).
-/
import SnapList.Proofs.LiveList.Reachable
import SnapList.Proofs.Snapshot.Turns

namespace SnapList

open LiveList (Visit)

/-! ## Captures -/

namespace Scene

variable {scene : Scene} {list after : LiveList}

/-- The list that is captured and the list on which others act are reachable. -/
structure Reached (scene : Scene) : Prop where
  list : scene.list.Reachable
  acted : scene.acted.Reachable

theorem Reached.act (h : scene.Reached) (ha : after.Reachable) : (scene.act after).Reached := by
  refine ⟨?_, by rwa [acted_act]⟩
  cases ho : scene.other with
  | none => rwa [list_act_of_same after ho]
  | some other =>
    rw [list_act_of_other after ho]
    exact h.list

theorem Reached.capture (h : scene.Reached) (cache : Snapshot) (visits : List Visit) :
    (scene.capture cache visits).scene.Reached := by
  induction visits generalizing scene cache with
  | nil =>
    unfold Scene.capture
    split <;> exact h
  | cons visit rest ih =>
    have hacted : (scene.act (visit.run scene.acted).list).Reached :=
      h.act (h.acted.runOperations visit.operations)
    unfold Scene.capture
    split
    · exact h
    · dsimp only
      split
      · exact hacted
      · split
        · exact hacted
        · exact ih hacted _

theorem Reached.snapshot (h : scene.Reached) (reader : Reader) (visits : List Visit) :
    (reader.snapshot scene visits).scene.Reached := by
  unfold Reader.snapshot
  split
  · exact h
  · split
    · exact h
    · dsimp only
      split <;> exact h.capture _ visits

end Scene

/-! ## Sessions -/

namespace Session

variable {session : Session} {number : Nat} {list : LiveList}

/-- Every list of the session is reachable. -/
def Reached (session : Session) : Prop :=
  ∀ (number : Nat) (list : LiveList), session.lists[number]? = some list → list.Reachable

theorem Reached.setList (h : session.Reached) (hl : list.Reachable) (number : Nat) :
    (session.setList number list).Reached := by
  intro other found hfound
  unfold Session.setList at hfound
  rw [Array.getElem?_setIfInBounds] at hfound
  split at hfound
  · split at hfound <;> cases hfound
    exact hl
  · exact h other found hfound

theorem Reached.toSnapshot (h : session.Reached) (hl : list.Reachable) (number : Nat)
    (visits : List Visit) : (session.toSnapshot number list visits).1.Reached := by
  have hscene : Scene.Reached { list } := ⟨hl, hl⟩
  exact h.setList (hscene.capture _ visits).list number

theorem Reached.scene? (h : session.Reached) {place : Nat} {scene : Scene}
    (hs : session.scene? number place = some scene) : scene.Reached := by
  unfold Session.scene? at hs
  obtain ⟨list, hl, hs⟩ := Option.bind_eq_some_iff.1 hs
  split at hs
  · cases hs
    exact ⟨h number list hl, h number list hl⟩
  · obtain ⟨other, ho, hs⟩ := Option.bind_eq_some_iff.1 hs
    cases hs
    exact ⟨h number list hl, h place other ho⟩

theorem Reached.read? (h : session.Reached) {reader place : Nat} {visits : List Visit}
    {after : Session} {reading : Reading}
    (hr : session.read? reader place visits = some (after, reading)) : after.Reached := by
  unfold Session.read? at hr
  obtain ⟨⟨number, before⟩, -, hr⟩ := Option.bind_eq_some_iff.1 hr
  obtain ⟨scene, hs, hr⟩ := Option.bind_eq_some_iff.1 hr
  cases hr
  have hscene := (h.scene? hs).snapshot before visits
  exact (h.setList hscene.list number).setList hscene.acted place

theorem Reached.step? (h : session.Reached) {command : Command} {turn : Turn}
    (hturn : session.step? number command = some turn) : turn.session.Reached := by
  unfold Session.step? at hturn
  obtain ⟨list, hl, hturn⟩ := Option.bind_eq_some_iff.1 hturn
  have hlist := h number list hl
  cases command with
  | operate operation =>
    cases hturn
    exact h.setList (hlist.run operation) number
  | nested outer pin inner =>
    cases hturn
    exact h.setList (hlist.call (inner.keepsList_atPin pin) outer) number
  | takeSnapshot =>
    have hafter := h.toSnapshot hlist number []
    simp only at hturn
    split at hturn <;> cases hturn <;> exact hafter
  | openReader =>
    cases hturn
    exact h
  | readerList reader =>
    obtain ⟨_, -, hturn⟩ := Option.bind_eq_some_iff.1 hturn
    cases hturn
    exact h
  | readerSnapshot reader keep =>
    obtain ⟨⟨after, reading⟩, hr, hturn⟩ := Option.bind_eq_some_iff.1 hturn
    have hafter := h.read? hr
    simp only at hturn
    split at hturn <;> cases hturn
    · exact hafter
    · show Reached (if keep then after.keep _ else after)
      split <;> exact hafter
  | raceSnapshot reader visits =>
    cases reader with
    | none =>
      cases hturn
      exact h.toSnapshot hlist number visits
    | some reader =>
      obtain ⟨⟨after, reading⟩, hr, hturn⟩ := Option.bind_eq_some_iff.1 hturn
      cases hturn
      exact h.read? hr
  | ask snapshot question =>
    obtain ⟨_, -, hturn⟩ := Option.bind_eq_some_iff.1 hturn
    cases hturn
    exact h
  | compare first second =>
    obtain ⟨_, -, hturn⟩ := Option.bind_eq_some_iff.1 hturn
    obtain ⟨_, -, hturn⟩ := Option.bind_eq_some_iff.1 hturn
    cases hturn
    exact h
  | cloneSnapshot snapshot =>
    obtain ⟨_, -, hturn⟩ := Option.bind_eq_some_iff.1 hturn
    cases hturn
    exact h

theorem Reached.run (h : session.Reached) {commands : List (Nat × Command)} {last : Session}
    (hlast : session.after? commands = some last) : last.Reached := by
  induction commands generalizing session with
  | nil =>
    cases hlast
    exact h
  | cons entry rest ih =>
    obtain ⟨number, command⟩ := entry
    rw [after?_cons] at hlast
    obtain ⟨turn, hturn, hrest⟩ := Option.bind_eq_some_iff.1 hlast
    exact ih (h.step? hturn) hrest

theorem reachable_of_run {creations : List Creation} {commands : List (Nat × Command)}
    {start : Session} (hstart : start? creations = some start)
    (hrun : start.after? commands = some session) (hl : session.lists[number]? = some list) :
    list.Reachable := by
  have hreached : start.Reached := by
    intro number list hl
    obtain ⟨options, hcreate⟩ := exists_create_of_start? hstart hl
    exact .create hcreate
  exact hreached.run hrun number list hl

end Session

end SnapList
