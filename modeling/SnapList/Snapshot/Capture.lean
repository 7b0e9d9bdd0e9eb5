/-
  Capture: how a snapshot of a list is taken while others may write.

  An ATTEMPT notes the stamp, pins the buffer, copies its slots and the length, and looks at
  the stamp again. If it has moved, a write came in between; the copy is worth nothing and
  the next attempt is made with a new stamp. Others act only at the pins, so the visits at
  the pins, in order, are all that a capture has to be told: where there is no further visit,
  the attempt goes through. The visits may act on the captured list or on another one.

  The copy is written over the snapshot that the reader brings along, its CACHE. The stamp of
  the cache is set only by the attempt that goes through. A pin that fails leaves the cache as
  the attempts before it left it.

  Main statements: a capture without visits takes the list as it is (`capture_nil`), and so
  does one whose visits act on another list, which lets in no more than the first of them
  (`capture_of_other`).
-/
import SnapList.Snapshot.Basic
import SnapList.Snapshot.Scene

namespace SnapList

open LiveList (Visit Answer)

/-- Copy the slots and the length of a list over `cache`. -/
def LiveList.copyInto (list : LiveList) (cache : Snapshot) : Snapshot :=
  { cache with slots := list.slots.copyOnto cache.slots, len := list.len }

/-- How a capture ended: the scene and the cache after it, the number of attempts that were
given up, what was reported, and the answers of the visits that took place. -/
structure Capture where
  scene : Scene
  cache : Snapshot
  result : Except Failure Nat
  events : List Event := []
  answers : List (List Answer) := []

namespace Capture

def retried (capture : Capture) : Capture :=
  { capture with result := capture.result.map (· + 1) }

/-- The capture with the pause at one pin before it. -/
def after (capture : Capture) (pause : LiveList.Pause (List Answer)) : Capture :=
  { capture with
    events := pause.events ++ capture.events
    answers := pause.account :: capture.answers }

end Capture

/-- Capture the list of a scene over `cache`, with `visits` at the pins. -/
def Scene.capture (scene : Scene) (cache : Snapshot) : List Visit → Capture
  | [] =>
    match scene.list.lock.readStamp with
    | .error failure => { scene, cache, result := .error failure }
    | .ok stamp => { scene, cache := { scene.list.copyInto cache with stamp }, result := .ok 0 }
  | visit :: rest =>
    match scene.list.lock.readStamp with
    | .error failure => { scene, cache, result := .error failure }
    | .ok stamp =>
      let pause := visit.run scene.acted
      let scene := scene.act pause.list
      if pause.fails then
        Capture.after { scene, cache, result := .error (.aborted .pinFailed) } pause
      else
        let copied := scene.list.copyInto cache
        if scene.list.lock.validates stamp then
          Capture.after { scene, cache := { copied with stamp }, result := .ok 0 } pause
        else
          (scene.capture copied rest).retried.after pause

/-- A snapshot of the list of a scene for the caller to keep, with `visits` at the pins. -/
def Scene.toSnapshot (scene : Scene) (visits : List Visit) : Capture :=
  scene.capture (.empty scene.list.noEntry) visits

/-! ## Laws -/

/-- The copy shows the list and nothing of the cache but its element for "no entry". -/
theorem LiveList.copyInto_eq (list : LiveList) (cache : Snapshot) :
    list.copyInto cache = { cache with slots := list.slots, len := list.len } := by
  simp [LiveList.copyInto, Slots.copyOnto_eq]

/-- A capture that nobody visits takes the list as it is, in one attempt. -/
theorem Scene.capture_nil {scene : Scene} {cache : Snapshot}
    (h : scene.list.lock.isLocked = false) :
    scene.capture cache [] =
      { scene
        cache :=
          { cache with
            slots := scene.list.slots, len := scene.list.len, stamp := scene.list.stamp }
        result := .ok 0 } := by
  simp [Scene.capture, StampLock.readStamp, h, LiveList.copyInto_eq, LiveList.stamp]

/-- Visits that act on another list spoil no attempt: the first of them takes place, and the
captured list is taken as it is. -/
theorem Scene.capture_of_other {scene : Scene} {cache : Snapshot} {other : LiveList}
    {visit : Visit} (rest : List Visit) (h : scene.list.lock.isLocked = false)
    (ho : scene.other = some other) (hf : visit.fails = false) :
    scene.capture cache (visit :: rest) =
      { scene := { scene with other := some (visit.run other).list }
        cache :=
          { cache with
            slots := scene.list.slots, len := scene.list.len, stamp := scene.list.stamp }
        result := .ok 0
        events := (visit.run other).events
        answers := [(visit.run other).account] } := by
  have hp : (visit.run other).fails = false := hf
  simp [Scene.capture, StampLock.readStamp, h, Scene.acted, Scene.act, ho, hp,
    StampLock.validates, Capture.after, LiveList.copyInto_eq, LiveList.stamp]

end SnapList
