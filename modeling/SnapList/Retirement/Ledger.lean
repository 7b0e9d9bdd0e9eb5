/-
  The ledger of retired allocations.

  An allocation that is still in somebody's hands must not be freed when it is replaced. Its
  owner RETIRES it: the ledger takes down its address and what is to be done to free it, in
  order, and does all of it when the ledger itself is given up. An address is taken down
  once; to retire it again is a fault and leaves the ledger as it was. A ledger is all that can
  be seen of a depot (`SnapList.Retirement.Depot`) from outside.

  Main statements: a retirement is accepted exactly when its address is new
  (`retire_eq_ok_iff`), and then it stands at the end (`entries_of_retire`).
-/
import SnapList.Fault

namespace SnapList.Retirement

/-- What is retired goes by an address, and an address is a number. -/
class Address (α : Type) where
  number : α → Nat

instance : Address Nat := ⟨id⟩

/-- Retired allocations in the order of retirement: an address, and how to free it. -/
structure Ledger (α β : Type) where
  entries : List (α × β) := []

namespace Ledger

variable {α β : Type}

def addresses (ledger : Ledger α β) : List α := ledger.entries.map Prod.fst

/-- Take down `address`, which is to be freed by `release`. -/
def retire [DecidableEq α] [Address α] (ledger : Ledger α β) (address : α) (release : β) : Except Fault (Ledger α β) :=
  if address ∈ ledger.addresses then .error (.duplicateRetirement (Address.number address))
  else .ok ⟨ledger.entries ++ [(address, release)]⟩

def pending (ledger : Ledger α β) : Nat := ledger.entries.length

/-! ## Laws -/

variable [DecidableEq α] [Address α]

theorem retire_eq_ok_iff {ledger after : Ledger α β} {address : α} {release : β} :
    ledger.retire address release = .ok after ↔
      address ∉ ledger.addresses ∧ after = ⟨ledger.entries ++ [(address, release)]⟩ := by
  unfold retire
  split <;> simp_all [eq_comm]

theorem entries_of_retire {ledger after : Ledger α β} {address : α} {release : β}
    (h : ledger.retire address release = .ok after) :
    after.entries = ledger.entries ++ [(address, release)] := by
  rw [(retire_eq_ok_iff.1 h).2]

end Ledger

end SnapList.Retirement
