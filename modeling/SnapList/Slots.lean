/-
  Slots: the array of 64-bit elements behind a list.

  A slot is loaded and stored singly, a range of slots is filled or moved within the array,
  and a whole array is grown or copied onto another one. A range may be moved onto a range
  that overlaps it: a move to the right runs from the back, a move to the left from the front,
  so that no element is overwritten before it was read. A slot or a range that is not there is
  a fault.

  Main statements: `load` answers exactly below the size (`load_eq_ok_iff`), no operation but
  growth changes the size (`size_fill`, `size_moveForward`, `size_moveBackward`,
  `size_store`), growth keeps the old slots and pads with one value (`toList_padded`), and a
  copy onto another array leaves nothing of what was there (`copyOnto_eq`).
-/
import SnapList.Fault

namespace SnapList

/-- The elements of a list, with room for more behind them. -/
abbrev Slots := Array Int64

namespace Slots

def load (slots : Slots) (index : Nat) : Except Fault Int64 :=
  match slots[index]? with
  | some value => .ok value
  | none => .error (.indexOutOfBounds slots.size index)

def store (slots : Slots) (index : Nat) (value : Int64) : Except Fault Slots :=
  if index < slots.size then .ok (slots.setIfInBounds index value)
  else .error (.indexOutOfBounds slots.size index)

/-- The slots with `values` stored one after another from slot `start` on. -/
def storeAll (slots : Slots) (start : Nat) : List Int64 → Except Fault Slots
  | [] => .ok slots
  | value :: rest =>
    match slots.store start value with
    | .ok after => after.storeAll (start + 1) rest
    | .error fault => .error fault

/-- The slots when the values have run out or the slots have. -/
def storeSome (slots : Slots) (start : Nat) : List Int64 → Slots
  | [] => slots
  | value :: rest =>
    match slots.store start value with
    | .ok after => after.storeSome (start + 1) rest
    | .error _ => slots

/-- `count` slots from `start` on hold `value`. -/
def fillFrom (slots : Slots) (value : Int64) (start : Nat) : Nat → Slots
  | 0 => slots
  | count + 1 => fillFrom (slots.setIfInBounds start value) value (start + 1) count

/-- The slots from `start` up to `stop` hold `value`. -/
def fill (slots : Slots) (start stop : Nat) (value : Int64) : Except Fault Slots :=
  if stop < start then .error (.spanReversed start stop)
  else if slots.size < stop then .error (.spanOutOfBounds stop slots.size)
  else .ok (slots.fillFrom value start (stop - start))

/-- Copy `count` slots from `source` on to `target` on, the first one first. -/
def moveForward (slots : Slots) (source target : Nat) : Nat → Slots
  | 0 => slots
  | count + 1 =>
    moveForward (slots.setIfInBounds target (slots.getD source 0)) (source + 1) (target + 1) count

/-- Copy `count` slots from `source` on to `target` on, the last one first. -/
def moveBackward (slots : Slots) (source target : Nat) : Nat → Slots
  | 0 => slots
  | count + 1 =>
    moveBackward (slots.setIfInBounds (target + count) (slots.getD (source + count) 0))
      source target count

/-- Copy `count` slots from `source` on to `target` on, as if all were read before the first
is written. -/
def copyWithin (slots : Slots) (source target count : Nat) : Except Fault Slots :=
  if slots.size < source + count then .error (.assertionFailed .sourceWithin)
  else if slots.size < target + count then .error (.assertionFailed .targetWithin)
  else if source < target then .ok (slots.moveBackward source target count)
  else if target < source then .ok (slots.moveForward source target count)
  else .ok slots

/-- The slots, padded with `value` up to `capacity`. -/
def padded (slots : Slots) (capacity : Nat) (value : Int64) : Slots :=
  slots ++ Array.replicate (capacity - slots.size) value

/-- The slots in an array of `capacity`, which must hold them all. -/
def grown (slots : Slots) (capacity : Nat) (value : Int64) : Except Fault Slots :=
  if capacity < slots.size then .error (.assertionFailed .capacityKept)
  else .ok (slots.padded capacity value)

/-- Every slot of `source` written over `target`, slot by slot; slots of `target` for which
there is none stay. -/
def writeOver (source target : Slots) : Slots :=
  target.mapIdx fun index old => source.getD index old

/-- The slots copied onto `target`, which is used again if it has the right size and replaced
by zeros of that size if not. -/
def copyOnto (source target : Slots) : Slots :=
  source.writeOver (if target.size = source.size then target else Array.replicate source.size 0)

/-! ## Laws -/

theorem load_eq_ok_iff {slots : Slots} {index : Nat} {value : Int64} :
    slots.load index = .ok value ↔ slots[index]? = some value := by
  unfold load
  split <;> simp_all

theorem store_of_lt {slots : Slots} {index : Nat} {value : Int64} (h : index < slots.size) :
    slots.store index value = .ok (slots.setIfInBounds index value) :=
  if_pos h

theorem size_store {slots after : Slots} {index : Nat} {value : Int64}
    (h : slots.store index value = .ok after) : after.size = slots.size := by
  unfold store at h
  split at h
  · cases h; simp
  · cases h

theorem size_storeAll {slots after : Slots} {start : Nat} {values : List Int64}
    (h : slots.storeAll start values = .ok after) : after.size = slots.size := by
  induction values generalizing slots start with
  | nil => cases h; rfl
  | cons value rest ih =>
    unfold storeAll at h
    split at h
    · rename_i middle hm
      rw [ih h, size_store hm]
    · cases h

theorem size_storeSome (slots : Slots) (start : Nat) (values : List Int64) :
    (slots.storeSome start values).size = slots.size := by
  induction values generalizing slots start with
  | nil => rfl
  | cons value rest ih =>
    unfold storeSome
    split
    · rename_i middle hm
      rw [ih, size_store hm]
    · rfl

@[simp] theorem size_fillFrom (slots : Slots) (value : Int64) (start count : Nat) :
    (slots.fillFrom value start count).size = slots.size := by
  induction count generalizing slots start with
  | zero => rfl
  | succ count ih => simp [fillFrom, ih]

theorem size_fill {slots after : Slots} {start stop : Nat} {value : Int64}
    (h : slots.fill start stop value = .ok after) : after.size = slots.size := by
  unfold fill at h
  repeat' split at h
  all_goals cases h
  simp

@[simp] theorem size_moveForward (slots : Slots) (source target count : Nat) :
    (slots.moveForward source target count).size = slots.size := by
  induction count generalizing slots source target with
  | zero => rfl
  | succ count ih => simp [moveForward, ih]

@[simp] theorem size_moveBackward (slots : Slots) (source target count : Nat) :
    (slots.moveBackward source target count).size = slots.size := by
  induction count generalizing slots with
  | zero => rfl
  | succ count ih => simp [moveBackward, ih]

theorem size_copyWithin {slots after : Slots} {source target count : Nat}
    (h : slots.copyWithin source target count = .ok after) : after.size = slots.size := by
  unfold copyWithin at h
  repeat' split at h
  all_goals cases h
  all_goals simp

theorem grown_of_le {slots : Slots} {capacity : Nat} {value : Int64} (h : slots.size ≤ capacity) :
    slots.grown capacity value = .ok (slots.padded capacity value) :=
  if_neg (Nat.not_lt.2 h)

theorem toList_padded (slots : Slots) (capacity : Nat) (value : Int64) :
    (slots.padded capacity value).toList =
      slots.toList ++ List.replicate (capacity - slots.size) value := by
  simp [padded]

theorem size_padded {slots : Slots} {capacity : Nat} {value : Int64}
    (h : slots.size ≤ capacity) : (slots.padded capacity value).size = capacity := by
  simp [padded]
  omega

theorem writeOver_eq {source target : Slots} (h : target.size = source.size) :
    source.writeOver target = source := by
  apply Array.ext
  · simp [writeOver, h]
  · intro i h1 h2
    simp [writeOver, h2]

theorem copyOnto_eq (source target : Slots) : source.copyOnto target = source := by
  unfold copyOnto
  split
  · exact writeOver_eq ‹_›
  · exact writeOver_eq (by simp)

end Slots

end SnapList
