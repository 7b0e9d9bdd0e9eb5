/-
  The mutations of a list.

  Each is a list of steps (`steps`) and is carried out between an acquire and a release of the
  lock, which is released also when the call is refused or broken off. A call that finds the
  lock held is a fault and does nothing. Only the promise of an unchecked write is looked at
  before the lock.

  Main statements: a call that finds the lock held leaves the list as it is (`call_of_locked`),
  and every other one whose promise is kept leaves the lock free, two stamps on
  (`lock_call`), whatever its result.
-/
import SnapList.LiveList.Step

namespace SnapList.LiveList

inductive Mutation where
  /-- Replace the element at `index`. -/
  | set (index : Nat) (value : Int64)
  /-- Replace the element at `index`, which the caller promises to be an element's index. -/
  | setUnchecked (index : Nat) (value : Int64)
  /-- Add an element at the end. -/
  | push (value : Int64)
  /-- Add elements at the end, in one write. -/
  | extend (values : List Int64)
  /-- Open a gap of `count` slots without entry at `start`. -/
  | insert (start count : Nat)
  /-- Copy a range of slots onto another one; both may lie behind the elements. -/
  | copyRange (source target count : Nat)
  /-- Set the number of elements; new ones have no entry. -/
  | resize (len : Nat)
  /-- Set the number of elements to zero. -/
  | clear

namespace Mutation

def reserve (required : Nat) : List Step :=
  [.act .assertHeld, .act (.admitSize required), .pin, .act (.grow required)]

def append (len : Nat) (values : List Int64) : List Step :=
  let newLen := Word.satAdd len values.length
  reserve newLen ++ [.pin, .act (.write len values), .act (.resize newLen)]

def steps (len : Nat) : Mutation → List Step
  | set index value => [.act (.admitIndex index), .pin, .act (.write index [value])]
  | setUnchecked index value => [.pin, .act (.write index [value])]
  | push value => append len [value]
  | extend values => append len values
  | insert start count =>
    let newLen := Word.satAdd len count
    .act (.admitStart start) :: reserve newLen ++
      [.pin, .act (.move start (start + count) (len - start)),
        .act (.blank start (start + count)), .act (.resize newLen)]
  | copyRange source target count =>
    [.pin, .act (.admitSpan source count), .act (.admitSpan target count),
      .act (.move source target count)]
  | resize newLen =>
    reserve newLen ++ (if len < newLen then [.pin, .act (.blank len newLen)] else []) ++
      [.act (.resize newLen)]
  | clear => [.act (.resize 0)]

/-- The caller keeps what the mutation makes it promise about the list. -/
def promised (list : LiveList) : Mutation → Except Fault Unit
  | setUnchecked index _ =>
    if index < list.len then .ok () else .error (.assertionFailed .indexPromised)
  | _ => .ok ()

/-- Carry out a mutation, with `atPin` at its pins. -/
def call {ρ : Type} (atPin : AtPin ρ) (mutation : Mutation) (list : LiveList) : Outcome ρ :=
  match mutation.promised list with
  | .error fault => { list, result := .error (.aborted fault) }
  | .ok () =>
    match list.lock.acquire with
    | .error fault => { list, result := .error (.aborted fault) }
    | .ok lock => (runSteps atPin 1 { list with lock } (mutation.steps list.len)).released

/-- Carry out a mutation with nothing else going on. -/
def apply (mutation : Mutation) (list : LiveList) : Outcome Unit :=
  mutation.call idle list

/-! ## Laws -/

theorem call_of_locked {ρ : Type} (atPin : AtPin ρ) (mutation : Mutation) {list : LiveList}
    (h : list.lock.isLocked = true) :
    ∃ fault, mutation.call atPin list = { list, result := .error (.aborted fault) } := by
  unfold call
  split
  · exact ⟨_, rfl⟩
  · rw [StampLock.acquire_of_locked h]
    exact ⟨_, rfl⟩

/-- A call that finds the lock held, and keeps its promise, says so. -/
theorem result_call_of_locked {ρ : Type} (atPin : AtPin ρ) {mutation : Mutation}
    {list : LiveList} (hp : mutation.promised list = .ok ()) (h : list.lock.isLocked = true) :
    (mutation.call atPin list).result = .error (.aborted .lockHeld) := by
  simp only [call, hp, StampLock.acquire_of_locked h]

/-- A call that finds the lock free runs its steps under the lock. -/
theorem call_of_free {ρ : Type} (atPin : AtPin ρ) {mutation : Mutation} {list : LiveList}
    (hp : mutation.promised list = .ok ()) (h : list.lock.isLocked = false) :
    mutation.call atPin list =
      (runSteps atPin 1 { list with lock := list.lock.advance }
        (mutation.steps list.len)).released := by
  simp only [call, hp, StampLock.acquire_of_free h]

theorem lock_call {ρ : Type} {atPin : AtPin ρ} (ha : atPin.KeepsLock) {mutation : Mutation}
    {list : LiveList} (hp : mutation.promised list = .ok ()) (h : list.lock.isLocked = false) :
    (mutation.call atPin list).list.lock = list.lock.advance.advance := by
  have hl := lock_runSteps ha (mutation.steps list.len) 1 { list with lock := list.lock.advance }
    (by simp [h])
  rw [call_of_free atPin hp h, Outcome.released_of_locked (by rw [hl]; simp [h]), hl]

end Mutation

theorem idle_keepsLock : AtPin.KeepsLock idle := fun _ _ _ => rfl

end SnapList.LiveList
