/-
  Operations on a list, and operations in the middle of other ones.

  An operation reads a list or changes it. A VISIT is a row of operations that somebody
  carries out while a call holds the buffer pinned, one after another and each with its own
  answer; the pin may then fail. The pins of these operations are left alone.

  Main statement: a visit in the middle of a write changes nothing (`list_run_of_locked`),
  because the write holds the lock.
-/
import SnapList.LiveList.Mutation

namespace SnapList.LiveList

/-- A call that reads a list. -/
inductive Read where
  | properties
  | get (index : Nat)
  | getUnchecked (index : Nat)
  | indexOf (value : Int64)
  | find (query : Search.Query)
  | display
  | describe (layout : Text.Layout)

inductive Reply where
  | done
  | properties (properties : Properties)
  | element (value : Int64)
  | index (index : Option Nat)
  /-- The answer of a block search. -/
  | place (place : Int)
  | text (text : String)

def Read.answer (list : LiveList) : Read → Except Failure Reply
  | properties => .ok (.properties (list.properties list.stamp))
  | get index => (list.get index).map .element
  | getUnchecked index => (list.getUnchecked index).map .element
  | indexOf value => .ok (.index (list.indexOf value))
  | find query => (Fault.lift (list.find query)).map .place
  | display => .ok (.text list.display)
  | describe layout => .ok (.text (list.record.render layout))

/-- A call on a list. -/
inductive Operation where
  | read (question : Read)
  | change (mutation : Mutation)

/-- The list after an operation, its answer, and what was reported. -/
structure Effect where
  list : LiveList
  result : Except Failure Reply
  events : List Event := []

/-- Carry out an operation with nothing else going on. -/
def Operation.run (list : LiveList) : Operation → Effect
  | .read question => { list, result := question.answer list }
  | .change mutation =>
    let outcome := mutation.apply list
    { list := outcome.list, result := outcome.result.map fun _ => .done,
      events := outcome.events }

/-- The answer to an operation of a visit, and the list as it was after it. -/
structure Answer where
  result : Except Failure Reply
  len : Nat
  capacity : Nat
  stamp : UInt64

def Effect.answer (effect : Effect) : Answer :=
  ⟨effect.result, effect.list.len, effect.list.capacity, effect.list.stamp⟩

/-- Operations for the time of one pin, which may fail after them. -/
structure Visit where
  operations : List Operation := []
  fails : Bool := false

/-- Operations one after another: the list after them, their answers, and what was reported. -/
def runOperations (list : LiveList) : List Operation → LiveList × List Answer × List Event
  | [] => (list, [], [])
  | operation :: rest =>
    let effect := operation.run list
    let (last, answers, events) := runOperations effect.list rest
    (last, effect.answer :: answers, effect.events ++ events)

def Visit.run (visit : Visit) (list : LiveList) : Pause (List Answer) :=
  let (last, answers, events) := runOperations list visit.operations
  { list := last, account := answers, events, fails := visit.fails }

/-- A visit at the pin with number `number`, and nothing at the others. -/
def Visit.atPin (visit : Visit) (number : Nat) : AtPin (List Answer) :=
  fun current list => if current = number then visit.run list else { list, account := [] }

/-! ## Laws -/

theorem Operation.list_run_of_locked (operation : Operation) {list : LiveList}
    (h : list.lock.isLocked = true) : (operation.run list).list = list := by
  cases operation with
  | read question => rfl
  | change mutation =>
    obtain ⟨fault, hf⟩ := mutation.call_of_locked idle h
    simp [Operation.run, Mutation.apply, hf]

theorem list_runOperations_append (list : LiveList) (first second : List Operation) :
    (runOperations list (first ++ second)).1 =
      (runOperations (runOperations list first).1 second).1 := by
  induction first generalizing list with
  | nil => rfl
  | cons operation rest ih => exact ih _

theorem list_runOperations_of_locked (operations : List Operation) {list : LiveList}
    (h : list.lock.isLocked = true) : (runOperations list operations).1 = list := by
  induction operations with
  | nil => rfl
  | cons operation rest ih => simp [runOperations, operation.list_run_of_locked h, ih]

theorem Visit.list_run_of_locked (visit : Visit) {list : LiveList}
    (h : list.lock.isLocked = true) : (visit.run list).list = list :=
  list_runOperations_of_locked visit.operations h

end SnapList.LiveList
