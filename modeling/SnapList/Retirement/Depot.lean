/-
  The depot: where retired allocations are kept.

  A depot has two parts, each behind a mutex of its own: the addresses SEEN so far, by which a second
  retirement is found out, and the allocations that WAIT to be freed. To retire an allocation is to
  note its address in the one part and then to add it to the other. Who breaks off inside a mutex
  POISONS it. Retirement goes on regardless of poison, and so does the end of the depot; only to ask
  how much waits does not.

  Main statements: the retirement of an address that was seen poisons the first mutex and does nothing
  else (`retire_of_seen`), and every other one is accepted (`retire_of_new`).
-/
import SnapList.Retirement.Ledger

namespace SnapList.Retirement

/-- A value behind a mutex, and whether somebody broke off inside. -/
structure Mutex (α : Type) where
  value : α
  poisoned : Bool := false

namespace Mutex

variable {α ρ : Type}

/-- The value, for somebody who minds poison. -/
def read? (mutex : Mutex α) : Option α :=
  if mutex.poisoned then none else some mutex.value

/-- Do something inside, poisoned or not. A fault poisons the mutex; what was done until then stays. -/
def enter (mutex : Mutex α) (inside : α → α × Except Fault ρ) : Mutex α × Except Fault ρ :=
  let (value, result) := inside mutex.value
  ({ value, poisoned := mutex.poisoned || !result.isOk }, result)

end Mutex

/-- The addresses that were seen, and the allocations that wait: an address, and how to free it. -/
structure Depot (α β : Type) where
  seen : Mutex (List α) := { value := [] }
  waiting : Mutex (List (α × β)) := { value := [] }

namespace Depot

variable {α β : Type} {depot : Depot α β} {address : α}

/-- Note an address, which must not be among those `seen`. -/
def note [DecidableEq α] [Address α] (address : α) (seen : List α) : List α × Except Fault Unit :=
  if address ∈ seen then (seen, .error (.duplicateRetirement (Address.number address))) else (address :: seen, .ok ())

/-- Retire the allocation at `address`, which is to be freed by `release`. -/
def retire [DecidableEq α] [Address α] (depot : Depot α β) (address : α) (release : β) :
    Depot α β × Except Fault Unit :=
  match depot.seen.enter (note address) with
  | (seen, .error fault) => ({ depot with seen }, .error fault)
  | (seen, .ok ()) =>
    let (waiting, result) :=
      depot.waiting.enter fun entries => (entries ++ [(address, release)], .ok ())
    ({ seen, waiting }, result)

/-- The number of allocations that wait, which is not known behind a poisoned mutex. -/
def pending (depot : Depot α β) : Nat :=
  match depot.waiting.read? with
  | some entries => entries.length
  | none => 0

/-- The allocations that are freed when the depot is given up, in order. -/
def contents (depot : Depot α β) : List (α × β) := depot.waiting.value

/-! ## Laws -/

theorem retire_of_seen [DecidableEq α] [Address α] (h : address ∈ depot.seen.value) (release : β) :
    depot.retire address release =
      ({ depot with seen := { depot.seen with poisoned := true } },
        .error (.duplicateRetirement (Address.number address))) := by
  simp [retire, Mutex.enter, note, h, Except.isOk, Except.toBool]

theorem retire_of_new [DecidableEq α] [Address α] (h : address ∉ depot.seen.value) (release : β) :
    depot.retire address release =
      ({ seen := { depot.seen with value := address :: depot.seen.value }
         waiting := { depot.waiting with value := depot.waiting.value ++ [(address, release)] } },
        .ok ()) := by
  simp [retire, Mutex.enter, note, h, Except.isOk, Except.toBool]

theorem pending_of_calm (h : depot.waiting.poisoned = false) :
    depot.pending = depot.contents.length := by
  simp [pending, Mutex.read?, h, contents]

end Depot

end SnapList.Retirement
