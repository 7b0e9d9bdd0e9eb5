/-
  The live list: contents that one writer changes under a stamp lock.

  A list that grows gets a new buffer. The old one may still be in a reader's hands, so it is
  not freed but RETIRED: the list's ledger takes it down under the buffer's serial number.
  What happens on the way is told by events, which become lines of the log.

  Main statements: a list that grows has room for what was required and at least as much as before
  (`le_grownCapacity`, `lt_grownCapacity`), and never more than the limit if the requirement is within
  it (`grownCapacity_le`).
-/
import SnapList.Contents
import SnapList.Options
import SnapList.Retirement.Ledger
import SnapList.StampLock.Basic

namespace SnapList

/-! ## Capacity -/

/-- The most slots that a list may have. -/
def maxCapacity : Nat := 1152921504606846975

/-- The capacity of a list that needs `required` slots and has only `capacity`: twice as much
as before, up to the limit, unless that is too little. -/
def grownCapacity (capacity required : Nat) : Nat :=
  max (min (2 * capacity) maxCapacity) required

theorem le_grownCapacity (capacity required : Nat) : required ≤ grownCapacity capacity required :=
  Nat.le_max_right _ _

theorem lt_grownCapacity {capacity required : Nat} (h : capacity < required) :
    capacity < grownCapacity capacity required :=
  Nat.lt_of_lt_of_le h (le_grownCapacity _ _)

theorem grownCapacity_le {capacity required : Nat} (h : required ≤ maxCapacity) :
    grownCapacity capacity required ≤ maxCapacity :=
  Nat.max_le.2 ⟨Nat.min_le_right _ _, h⟩

/-- Growth doubles the capacity, short of the limit. -/
theorem two_mul_le_grownCapacity {capacity required : Nat}
    (h : grownCapacity capacity required < maxCapacity) :
    2 * capacity ≤ grownCapacity capacity required := by
  unfold grownCapacity at *
  omega

/-! ## Lists -/

/-- Contents under a lock, with the serial number of the buffer that holds them and the
ledger of the buffers before it. -/
structure LiveList extends Contents where
  lock : StampLock := {}
  serial : Nat := 0
  retired : Retirement.Ledger Nat Slots := {}

/-- What a list reports about itself while it works. -/
inductive Event where
  /-- The contents moved to a larger buffer. -/
  | grown (old new : Nat)
  /-- A reader had to copy more than once until no write came in between. -/
  | retried (stamp : UInt64) (retries : Nat)
  deriving DecidableEq

/-- The line of the log for an event, with its level in front. -/
def Event.line : Event → String
  | grown old new => s!"TRACE list capacity grown from {old} to {new}"
  | retried stamp retries => s!"DEBUG snapshot at stamp {stamp} needed {retries} retries"

namespace LiveList

/-- A new list without elements. More slots than the limit are refused. -/
def create (options : Options) : Except Refusal LiveList :=
  if maxCapacity < options.initialCapacity then
    .error (.invalidCapacity options.initialCapacity)
  else
    .ok
      { slots := Array.replicate options.initialCapacity options.noEntry
        len := 0
        noEntry := options.noEntry }

/-- A new list for a caller who does not take a refusal. -/
def insist (options : Options) : Except Fault LiveList :=
  match create options with
  | .ok list => .ok list
  | .error reason => .error (.rejected reason)

/-- The stamp of the list's lock. Each write adds two to it. -/
def stamp (list : LiveList) : UInt64 := list.lock.stamp

/-- The diagnostic record of a list shows none of its elements. -/
def record (list : LiveList) : Text.Record :=
  ⟨"SnapshottableList", [("len", .word (toString list.len)),
    ("capacity", .word (toString list.capacity)), ("stamp", .word (toString list.stamp)),
    ("no_entry_value", .word (toString list.noEntry))]⟩

end LiveList

end SnapList
