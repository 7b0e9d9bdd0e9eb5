/-
  The steps of a write.

  A write is a list of steps that are carried out in order under the lock. A step is either an
  ACTION, which checks an argument or changes the list, or a PIN. A write pins the buffer
  before it touches it, and the pins are the only places where somebody else may act on the
  list in the middle of the write. What is done at a pin is a parameter (`AtPin`): it sees the
  list as it is then, and may break the write off.

  An action that is refused or faults ends the write, and so does a pin that fails; what the
  steps before have done stays.

  Main statement: as long as what is done at the pins leaves a held lock as it is, so do the
  steps, however they end (`lock_runSteps`).
-/
import SnapList.LiveList.Basic

namespace SnapList.LiveList

/-- What a write does by itself between two pins. -/
inductive Action where
  /-- Go on only while the lock is held, as is asserted. -/
  | assertHeld
  /-- Go on only if there is an element at `index`. -/
  | admitIndex (index : Nat)
  /-- Go on only if `index` is an element's or the one behind the last. -/
  | admitStart (index : Nat)
  /-- Go on only if a list may have `required` slots. -/
  | admitSize (required : Nat)
  /-- Go on only if there are `count` slots from `start` on. -/
  | admitSpan (start count : Nat)
  /-- Move to a larger buffer unless this one has `required` slots. -/
  | grow (required : Nat)
  /-- Store `values` from slot `start` on. -/
  | write (start : Nat) (values : List Int64)
  /-- Copy `count` slots from `source` on to `target` on. -/
  | move (source target count : Nat)
  /-- Clear the entries from slot `start` up to slot `stop`. -/
  | blank (start stop : Nat)
  /-- From now on the first `len` slots are the elements. -/
  | resize (len : Nat)

inductive Step where
  /-- The buffer is pinned. -/
  | pin
  | act (action : Action)

/-- The list with other slots, unless to make them was a fault. -/
def withSlots (list : LiveList) (slots : Except Fault Slots) : Except Failure LiveList :=
  match slots with
  | .ok slots => .ok { list with slots }
  | .error fault => .error (.aborted fault)

/-- The list in a new buffer, which has room for `required` slots and holds no entry behind those
that were copied to it. The old buffer is not retired yet. -/
def moved (list : LiveList) (required : Nat) : Except Fault LiveList :=
  match list.slots.grown (grownCapacity list.capacity required) list.noEntry with
  | .error fault => .error fault
  | .ok slots => .ok { list with slots, serial := list.serial + 1 }

/-- The list in a buffer with room for `required` slots. A buffer that is too small is replaced by a
new one and then retired. -/
def grow (list : LiveList) (required : Nat) : Except Failure LiveList :=
  if required ≤ list.capacity then .ok list
  else
    match list.moved required with
    | .error fault => .error (.aborted fault)
    | .ok moved =>
      match list.retired.retire list.serial list.slots with
      | .error fault => .error (.aborted fault)
      | .ok retired => .ok { moved with retired }

namespace Action

def apply (list : LiveList) : Action → Except Failure LiveList
  | assertHeld =>
    if list.lock.isLocked then .ok list else .error (.aborted (.assertionFailed .writeLocked))
  | admitIndex index =>
    if index < list.len then .ok list else .error (.refused (.outOfRange index list.len))
  | admitStart index =>
    if index ≤ list.len then .ok list else .error (.refused (.outOfRange index list.len))
  | admitSize required =>
    if required ≤ maxCapacity then .ok list else .error (.refused (.invalidCapacity required))
  | admitSpan start count =>
    if Word.satAdd start count ≤ list.capacity then .ok list
    else .error (.refused (.outOfRange (Word.satAdd start count) list.capacity))
  | grow required => list.grow required
  | write start values => list.withSlots (list.slots.storeAll start values)
  | move source target count => list.withSlots (list.slots.copyWithin source target count)
  | blank start stop => list.withSlots (list.slots.fill start stop list.noEntry)
  | resize len => .ok { list with len }

/-- The list that an action leaves which fails. A buffer that cannot be retired is replaced by then,
and values are stored up to the first for which there is no slot. -/
def leaves (list : LiveList) : Action → LiveList
  | grow required =>
    match list.moved required with
    | .ok moved => moved
    | .error _ => list
  | write start values => { list with slots := list.slots.storeSome start values }
  | _ => list

/-- What an action reports: that the list grows. -/
def events (list : LiveList) : Action → List Event
  | grow required =>
    if required ≤ list.capacity then []
    else [.grown list.capacity (grownCapacity list.capacity required)]
  | _ => []

end Action

/-- What was done at one pin: the list after it, an account of it, what was reported, and
whether the pin fails. -/
structure Pause (ρ : Type) where
  list : LiveList
  account : ρ
  events : List Event := []
  fails : Bool := false

/-- What is done at each pin of a call; the pins are numbered from one. -/
abbrev AtPin (ρ : Type) := Nat → LiveList → Pause ρ

/-- Nothing is done at any pin. -/
def idle : AtPin Unit := fun _ list => { list, account := () }

/-- How a call ended: the list after it, its result, what was reported on the way, and the
accounts of the pins that it came to. -/
structure Outcome (ρ : Type) where
  list : LiveList
  result : Except Failure Unit
  events : List Event := []
  accounts : List ρ := []

namespace Outcome

variable {ρ : Type}

/-- The outcome with `events` and `accounts` before its own. -/
def after (outcome : Outcome ρ) (events : List Event) (accounts : List ρ) : Outcome ρ :=
  { outcome with
    events := events ++ outcome.events
    accounts := accounts ++ outcome.accounts }

/-- The outcome with the lock released, however the call went. -/
def released (outcome : Outcome ρ) : Outcome ρ :=
  match outcome.list.lock.release with
  | .ok lock => { outcome with list := { outcome.list with lock } }
  | .error fault => { outcome with result := .error (.aborted fault) }

end Outcome

/-- What is done at the pins leaves a held lock as it is. -/
def AtPin.KeepsLock {ρ : Type} (atPin : AtPin ρ) : Prop :=
  ∀ number list, list.lock.isLocked = true → (atPin number list).list.lock = list.lock

/-- The steps in order, where the next pin has number `number`. -/
def runSteps {ρ : Type} (atPin : AtPin ρ) (number : Nat) (list : LiveList) :
    List Step → Outcome ρ
  | [] => { list, result := .ok () }
  | .pin :: rest =>
    let pause := atPin number list
    if pause.fails then
      { list := pause.list, result := .error (.aborted .pinFailed), events := pause.events,
        accounts := [pause.account] }
    else
      (runSteps atPin (number + 1) pause.list rest).after pause.events [pause.account]
  | .act action :: rest =>
    match action.apply list with
    | .ok next => (runSteps atPin number next rest).after (action.events list) []
    | .error failure =>
      { list := action.leaves list, result := .error failure, events := action.events list }

/-! ## Laws -/

/-- A call that ends under a held lock ends with the lock released, one stamp on. -/
theorem Outcome.released_of_locked {ρ : Type} {outcome : Outcome ρ}
    (h : outcome.list.lock.isLocked = true) :
    outcome.released =
      { outcome with list := { outcome.list with lock := outcome.list.lock.advance } } := by
  simp only [Outcome.released, StampLock.release_of_locked h]

theorem lock_withSlots {list after : LiveList} {slots : Except Fault Slots}
    (h : list.withSlots slots = .ok after) : after.lock = list.lock := by
  unfold withSlots at h
  split at h <;> cases h
  rfl

/-- The new buffer is larger than the old one, so what is asserted of it holds. -/
theorem moved_of_lt {list : LiveList} {required : Nat} (h : list.capacity < required) :
    list.moved required =
      .ok { list with
        slots := list.slots.padded (grownCapacity list.capacity required) list.noEntry
        serial := list.serial + 1 } := by
  have hle : list.slots.size ≤ grownCapacity list.capacity required :=
    Nat.le_of_lt (lt_grownCapacity h)
  rw [moved, Slots.grown_of_le hle]

theorem grow_of_le {list : LiveList} {required : Nat} (h : required ≤ list.capacity) :
    list.grow required = .ok list :=
  if_pos h

/-- Growth fails only where the old buffer cannot be retired. -/
theorem grow_of_lt {list : LiveList} {required : Nat} (h : list.capacity < required) :
    list.grow required =
      match list.retired.retire list.serial list.slots with
      | .error fault => .error (.aborted fault)
      | .ok retired =>
        .ok { list with
          slots := list.slots.padded (grownCapacity list.capacity required) list.noEntry
          serial := list.serial + 1
          retired } := by
  rw [grow, if_neg (Nat.not_le.2 h), moved_of_lt h]

theorem lock_moved {list after : LiveList} {required : Nat}
    (h : list.moved required = .ok after) : after.lock = list.lock := by
  unfold moved at h
  split at h <;> cases h
  rfl

theorem lock_grow {list after : LiveList} {required : Nat} (h : list.grow required = .ok after) :
    after.lock = list.lock := by
  unfold grow at h
  split at h
  · cases h
    rfl
  · split at h
    · cases h
    · rename_i moved hm
      split at h <;> cases h
      have hlock := lock_moved hm
      exact hlock

theorem Action.lock_leaves (list : LiveList) (action : Action) :
    (action.leaves list).lock = list.lock := by
  cases action with
  | grow required =>
    simp only [Action.leaves]
    split
    · exact lock_moved ‹_›
    · rfl
  | _ => rfl

theorem Action.lock_apply {list after : LiveList} {action : Action}
    (h : action.apply list = .ok after) : after.lock = list.lock := by
  cases action with
  | grow required => exact lock_grow h
  | write start values => exact lock_withSlots h
  | move source target count => exact lock_withSlots h
  | blank start stop => exact lock_withSlots h
  | resize len => cases h; rfl
  | _ =>
    simp only [Action.apply] at h
    split at h <;> cases h
    rfl

/-- Whatever the steps do and however they end, a held lock is held as before. -/
theorem lock_runSteps {ρ : Type} {atPin : AtPin ρ} (hp : atPin.KeepsLock) (steps : List Step)
    (number : Nat) (list : LiveList) (h : list.lock.isLocked = true) :
    (runSteps atPin number list steps).list.lock = list.lock := by
  induction steps generalizing number list with
  | nil => rfl
  | cons step rest ih =>
    cases step with
    | pin =>
      have hl := hp number list h
      simp only [runSteps]
      split
      · exact hl
      · exact (ih _ _ (by rw [hl]; exact h)).trans hl
    | act action =>
      simp only [runSteps]
      split
      · rename_i next hn
        have hl := Action.lock_apply hn
        exact (ih _ _ (by rw [hl]; exact h)).trans hl
      · exact action.lock_leaves list

end SnapList.LiveList
