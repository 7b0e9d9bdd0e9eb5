/-
  Readers: a snapshot that is kept and taken again only when the list was written.

  A reader holds the last snapshot of its list. While the list has the stamp of that snapshot,
  the snapshot is handed out again as it is; otherwise it is captured anew, over the old one.
-/
import SnapList.Snapshot.Capture

namespace SnapList

open LiveList (Visit Answer)

/-- The last snapshot of a list, and how many times one was captured. -/
structure Reader where
  cache : Option Snapshot := none
  refreshes : Nat := 0

/-- How the request for a snapshot ended: the reader and the scene after it, the snapshot, what
was reported, and the answers of the visits that took place. -/
structure Reading where
  reader : Reader
  scene : Scene
  result : Except Failure Snapshot
  events : List Event := []
  answers : List (List Answer) := []

namespace Reader

/-- The cached snapshot was taken at `stamp`. -/
def isFresh (reader : Reader) (stamp : UInt64) : Bool :=
  match reader.cache with
  | some snapshot => snapshot.stamp == stamp
  | none => false

/-- The snapshot that a capture is written over. -/
def base (reader : Reader) (list : LiveList) : Snapshot :=
  reader.cache.getD (.empty list.noEntry)

/-- The reader's snapshot of the list of a scene, with `visits` at the pins of a capture. A
capture that is broken off leaves its cache behind and is not counted. -/
def snapshot (reader : Reader) (scene : Scene) (visits : List Visit) : Reading :=
  match scene.list.lock.readStamp with
  | .error failure => { reader, scene, result := .error failure }
  | .ok stamp =>
    if reader.isFresh stamp then
      { reader, scene, result := .ok (reader.base scene.list) }
    else
      let capture := scene.capture (reader.base scene.list) visits
      match capture.result with
      | .error failure =>
        { reader := { reader with cache := some capture.cache }, scene := capture.scene,
          result := .error failure, events := capture.events, answers := capture.answers }
      | .ok retries =>
        { reader := ⟨some capture.cache, reader.refreshes + 1⟩, scene := capture.scene,
          result := .ok capture.cache,
          events :=
            capture.events ++
              (if retries = 0 then [] else [.retried capture.cache.stamp retries]),
          answers := capture.answers }

end Reader

end SnapList
