/-
  The stamp lock: one 64-bit counter whose parity tells whether a write is in progress.

  A write ACQUIRES the lock, which makes the stamp odd, and RELEASES it, which makes it even
  again. Neither waits: an acquire of a held lock and a release of a free one are faults and
  leave the stamp as it was. A reader takes the even stamp before it reads and VALIDATES it
  afterwards: the same stamp means that no write began in between. The counter wraps.

  Main statements: an acquire succeeds exactly on an even stamp and a release exactly on an
  odd one, and each then adds one (`acquire_eq_ok_iff`, `release_eq_ok_iff`).
-/
import SnapList.Fault
import SnapList.Text

namespace SnapList

/-- A lock is its stamp; a new one is free at stamp zero. -/
structure StampLock where
  stamp : UInt64 := 0
  deriving DecidableEq

namespace StampLock

/-- A write is in progress: the stamp is odd. -/
def isLocked (lock : StampLock) : Bool := lock.stamp.toNat % 2 == 1

/-- The lock with its stamp advanced by one. -/
def advance (lock : StampLock) : StampLock := ⟨lock.stamp + 1⟩

def acquire (lock : StampLock) : Except Fault StampLock :=
  if lock.isLocked then .error .lockHeld else .ok lock.advance

def release (lock : StampLock) : Except Fault StampLock :=
  if lock.isLocked then .ok lock.advance else .error .lockNotHeld

/-- The stamp that a reader starts from. Of a held lock it has to wait for one. -/
def readStamp (lock : StampLock) : Except Failure UInt64 :=
  if lock.isLocked then .error .spinning else .ok lock.stamp

/-- No write has begun since a reader was given `stamp`. -/
def validates (lock : StampLock) (stamp : UInt64) : Bool := lock.stamp == stamp

def record (lock : StampLock) : Text.Record :=
  ⟨"StampedSpinLock", [("stamp", .word (toString lock.stamp))]⟩

/-! ## Laws -/

theorem isLocked_iff {lock : StampLock} : lock.isLocked = true ↔ lock.stamp.toNat % 2 = 1 := by
  simp [isLocked]

theorem isLocked_eq_false_iff {lock : StampLock} :
    lock.isLocked = false ↔ lock.stamp.toNat % 2 = 0 := by
  simp [isLocked]

/-- Each advance turns a free lock into a held one and back, also where the counter wraps. -/
@[simp] theorem isLocked_advance (lock : StampLock) : lock.advance.isLocked = !lock.isLocked := by
  have h : lock.advance.stamp.toNat = (lock.stamp.toNat + 1) % 2 ^ 64 := by
    simp [advance, UInt64.toNat_add]
  cases hl : lock.isLocked
  · rw [isLocked_eq_false_iff] at hl
    exact isLocked_iff.2 (by omega)
  · rw [isLocked_iff] at hl
    exact isLocked_eq_false_iff.2 (by omega)

theorem acquire_eq_ok_iff {lock after : StampLock} :
    lock.acquire = .ok after ↔ lock.isLocked = false ∧ after = lock.advance := by
  cases h : lock.isLocked <;> simp [acquire, h]
  exact eq_comm

theorem release_eq_ok_iff {lock after : StampLock} :
    lock.release = .ok after ↔ lock.isLocked = true ∧ after = lock.advance := by
  cases h : lock.isLocked <;> simp [release, h]
  exact eq_comm

theorem acquire_of_free {lock : StampLock} (h : lock.isLocked = false) :
    lock.acquire = .ok lock.advance :=
  acquire_eq_ok_iff.2 ⟨h, rfl⟩

theorem acquire_of_locked {lock : StampLock} (h : lock.isLocked = true) :
    lock.acquire = .error .lockHeld :=
  if_pos h

theorem release_of_locked {lock : StampLock} (h : lock.isLocked = true) :
    lock.release = .ok lock.advance :=
  release_eq_ok_iff.2 ⟨h, rfl⟩

theorem validates_iff {lock : StampLock} {stamp : UInt64} :
    lock.validates stamp = true ↔ lock.stamp = stamp := by
  simp [validates]

end StampLock

end SnapList
