/-
  Why a call on a snapshot list gives no value.

  Three outcomes are told apart. A call is REFUSED when its arguments do not fit the list;
  that is an ordinary answer (`Refusal`) and the caller goes on. A call is ABORTED by a
  `Fault`: a broken rule of the lock or of the ledger, an assertion that fails, a number outside
  its 64-bit range, a slot that does not exist, or a pin that fails. A read SPINS while a write
  is in progress. The wording of each refusal and of each fault is fixed here and nowhere else.
-/
import SnapList.Text

namespace SnapList

/-- The arguments of a call do not fit the list. -/
inductive Refusal where
  /-- An index, or the end of a range of slots, past `len`. -/
  | outOfRange (index len : Nat)
  /-- More slots than a buffer may have. -/
  | invalidCapacity (requested : Nat)
  deriving DecidableEq

def Refusal.message : Refusal → String
  | outOfRange index len => s!"index {index} is out of range for length {len}"
  | invalidCapacity requested => s!"invalid capacity {requested}, possible integer overflow"

def Refusal.record : Refusal → Text.Record
  | outOfRange index len =>
    ⟨"OutOfRange", [("index", .word (toString index)), ("len", .word (toString len))]⟩
  | invalidCapacity requested => ⟨"InvalidCapacity", [("requested", .word (toString requested))]⟩

/-- What is asserted on the way. -/
inductive Assertion where
  /-- Room is made by a write only. -/
  | writeLocked
  /-- A new buffer is no smaller than the one it replaces. -/
  | capacityKept
  /-- The slots that are copied are there. -/
  | sourceWithin
  /-- The slots to which others are copied are there. -/
  | targetWithin
  /-- The caller of an unchecked access keeps the promise that it names an element. -/
  | indexPromised
  deriving DecidableEq

def Assertion.condition : Assertion → String
  | writeLocked => "self.lock.is_write_locked()"
  | capacityKept => "capacity >= self.capacity()"
  | sourceWithin => "src + length <= self.capacity()"
  | targetWithin => "dst + length <= self.capacity()"
  | indexPromised => "index < self.len()"

/-- What breaks a call off in the middle. -/
inductive Fault where
  /-- A write begins while one is in progress. -/
  | lockHeld
  /-- A write ends while none is in progress. -/
  | lockNotHeld
  /-- A list is created by a caller who insists, with options that are refused. -/
  | rejected (reason : Refusal)
  /-- A single slot is used that is not among the `size` present. -/
  | indexOutOfBounds (size index : Nat)
  /-- A range of slots ends before it starts. -/
  | spanReversed (start stop : Nat)
  /-- A range of slots ends past the `size` present. -/
  | spanOutOfBounds (stop size : Nat)
  | assertionFailed (assertion : Assertion)
  | addOverflow
  | subOverflow
  | negOverflow
  /-- A shift by 64 bits or more. -/
  | shiftOverflow
  /-- The allocation at an address is retired twice. -/
  | duplicateRetirement (address : Nat)
  | pinFailed
  deriving DecidableEq

def Fault.message : Fault → String
  | lockHeld => "write lock already held"
  | lockNotHeld => "write lock not held"
  | rejected reason => reason.message
  | indexOutOfBounds size index =>
    s!"index out of bounds: the len is {size} but the index is {index}"
  | spanReversed start stop => s!"slice index starts at {start} but ends at {stop}"
  | spanOutOfBounds stop size => s!"range end index {stop} out of range for slice of length {size}"
  | assertionFailed assertion => "assertion failed: " ++ assertion.condition
  | addOverflow => "attempt to add with overflow"
  | subOverflow => "attempt to subtract with overflow"
  | negOverflow => "attempt to negate with overflow"
  | shiftOverflow => "attempt to shift right with overflow"
  | duplicateRetirement address => "DUPLICATE defer_destroy at " ++ Text.hexadecimal address
  | pinFailed => "pin failed"

/-- The three ways in which a call gives no value. -/
inductive Failure where
  | refused (reason : Refusal)
  | aborted (fault : Fault)
  /-- A read waits for a write that is still in progress. -/
  | spinning
  deriving DecidableEq

/-- The wording of a failure; one that spins says nothing. -/
def Failure.message : Failure → String
  | refused reason => reason.message
  | aborted fault => fault.message
  | spinning => ""

/-- A fault as the outcome of a whole call. -/
def Fault.lift {α : Type} : Except Fault α → Except Failure α
  | .ok a => .ok a
  | .error fault => .error (.aborted fault)

@[simp] theorem Fault.lift_ok {α : Type} (a : α) : Fault.lift (.ok a) = .ok a := rfl

@[simp] theorem Fault.lift_error {α : Type} (fault : Fault) :
    Fault.lift (.error fault : Except Fault α) = .error (.aborted fault) := rfl

end SnapList
