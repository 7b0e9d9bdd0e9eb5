/-
  Sessions: some lists, the readers over them, and the snapshots that were kept.

  A session starts with its lists. Readers and snapshots are numbered from zero as they are
  added. A command is given to one list; it may also name a reader or a snapshot, and there is
  no answer if that does not exist.
-/
import SnapList.Snapshot.Question
import SnapList.Snapshot.Reader

namespace SnapList

open LiveList (Visit Answer)

/-- How a list is created. A caller who insists gets a fault where others are refused. -/
structure Creation where
  options : Options
  insists : Bool

def Creation.run (creation : Creation) : Except Failure LiveList :=
  if creation.insists then Fault.lift (LiveList.insist creation.options)
  else
    match LiveList.create creation.options with
    | .ok list => .ok list
    | .error reason => .error (.refused reason)

/-- Lists by number, readers with the number of their list, and snapshots. -/
structure Session where
  lists : Array LiveList
  readers : Array (Nat × Reader) := #[]
  snapshots : Array Snapshot := #[]

inductive Command where
  | operate (operation : LiveList.Operation)
  /-- A mutation, with a visit at one of its pins. -/
  | nested (outer : LiveList.Mutation) (pin : Nat) (inner : Visit)
  /-- Take a snapshot and keep it. -/
  | takeSnapshot
  | openReader
  /-- Which list a reader reads. -/
  | readerList (reader : Nat)
  /-- The reader's snapshot of its list; a copy is kept if that is wanted. -/
  | readerSnapshot (reader : Nat) (keep : Bool)
  /-- A snapshot of the list, or of a reader's list, with visits to the list while it is
  captured; it is not kept. -/
  | raceSnapshot (reader : Option Nat) (visits : List Visit)
  | ask (snapshot : Nat) (question : Snapshot.Question)
  | compare (first second : Nat)
  /-- Keep another copy of a snapshot. -/
  | cloneSnapshot (snapshot : Nat)

inductive Response where
  | ofList (reply : LiveList.Reply)
  | ofSnapshot (reply : Snapshot.Reply)
  /-- The result of the outer call, and the answers at the pin if the call came to it. -/
  | nested (outer : Except Failure Unit) (inner : Option (List Answer))
  /-- A new snapshot; the refreshes of its reader, if it has one; the answers of the visits, if
  any were allowed. -/
  | taken (snapshot : Snapshot) (refreshes : Option Nat) (answers : Option (List (List Answer)))
  | number (number : Nat)
  | flag (value : Bool)

/-- The session after a command, the answer, and what was reported. -/
structure Turn where
  session : Session
  result : Except Failure Response
  events : List Event := []

namespace Session

/-- A session over new lists, if all of them can be created. -/
def start? (creations : List Creation) : Option Session :=
  match creations.mapM Creation.run with
  | .ok lists => some { lists := lists.toArray }
  | .error _ => none

def retired (session : Session) : Nat :=
  session.lists.foldl (fun total list => total + list.retired.pending) 0

def setList (session : Session) (number : Nat) (list : LiveList) : Session :=
  { session with lists := session.lists.setIfInBounds number list }

def keep (session : Session) (snapshot : Snapshot) : Session :=
  { session with snapshots := session.snapshots.push snapshot }

/-- The scene in which list `number` is captured while others act on list `place`. -/
def scene? (session : Session) (number place : Nat) : Option Scene := do
  let list ← session.lists[number]?
  if place = number then
    return { list }
  else
    let other ← session.lists[place]?
    return { list, other := some other }

/-- The session after a scene of the lists `number` and `place`. -/
def setScene (session : Session) (number place : Nat) (scene : Scene) : Session :=
  (session.setList number scene.list).setList place scene.acted

/-- A snapshot for the caller to keep, with `visits` while it is captured. -/
def toSnapshot (session : Session) (number : Nat) (list : LiveList) (visits : List Visit) :
    Session × Capture :=
  let capture := Scene.toSnapshot { list } visits
  (session.setList number capture.scene.list, capture)

/-- The snapshot of a reader, with `visits` to list `place` while it is captured. -/
def read? (session : Session) (reader place : Nat) (visits : List Visit) :
    Option (Session × Reading) := do
  let (number, before) ← session.readers[reader]?
  let scene ← session.scene? number place
  let reading := before.snapshot scene visits
  let after := session.setScene number place reading.scene
  return ({ after with readers := after.readers.setIfInBounds reader (number, reading.reader) },
    reading)

def refreshes (session : Session) (reader : Nat) : Option Nat :=
  session.readers[reader]?.map fun entry => entry.2.refreshes

def step? (session : Session) (number : Nat) (command : Command) : Option Turn := do
  let list ← session.lists[number]?
  match command with
  | .operate operation =>
    let effect := operation.run list
    return { session := session.setList number effect.list
             result := effect.result.map .ofList, events := effect.events }
  | .nested outer pin inner =>
    let outcome := outer.call (inner.atPin pin) list
    let answers := if pin = 0 then none else outcome.accounts[pin - 1]?
    return { session := session.setList number outcome.list
             result := .ok (.nested outcome.result answers), events := outcome.events }
  | .takeSnapshot =>
    let (after, capture) := session.toSnapshot number list []
    match capture.result with
    | .error failure => return { session := after, result := .error failure }
    | .ok _ =>
      return { session := after.keep capture.cache
               result := .ok (.taken capture.cache none none), events := capture.events }
  | .openReader =>
    return { session := { session with readers := session.readers.push (number, {}) }
             result := .ok (.number session.readers.size) }
  | .readerList reader =>
    let (read, _) ← session.readers[reader]?
    return { session, result := .ok (.number read) }
  | .readerSnapshot reader keep =>
    let (after, reading) ← session.read? reader number []
    match reading.result with
    | .error failure => return { session := after, result := .error failure }
    | .ok snapshot =>
      return { session := if keep then after.keep snapshot else after
               result := .ok (.taken snapshot (after.refreshes reader) none)
               events := reading.events }
  | .raceSnapshot none visits =>
    let (after, capture) := session.toSnapshot number list visits
    return { session := after
             result := capture.result.map fun _ =>
               .taken capture.cache none (some capture.answers)
             events := capture.events }
  | .raceSnapshot (some reader) visits =>
    let (after, reading) ← session.read? reader number visits
    return { session := after
             result := reading.result.map fun snapshot =>
               .taken snapshot (after.refreshes reader) (some reading.answers)
             events := reading.events }
  | .ask snapshot question =>
    let asked ← session.snapshots[snapshot]?
    return { session, result := (question.answer asked).map .ofSnapshot }
  | .compare first second =>
    let one ← session.snapshots[first]?
    let other ← session.snapshots[second]?
    return { session, result := .ok (.flag (one.equal other)) }
  | .cloneSnapshot snapshot =>
    let copied ← session.snapshots[snapshot]?
    return { session := session.keep copied, result := .ok (.taken copied none none) }

/-- Commands one after another, each for a list: the turns that they take. -/
def run? (session : Session) : List (Nat × Command) → Option (List Turn)
  | [] => some []
  | (number, command) :: rest => do
    let turn ← session.step? number command
    let turns ← turn.session.run? rest
    return turn :: turns

end Session

end SnapList
