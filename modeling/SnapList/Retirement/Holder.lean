/-
  The life of a depot: calls that retire allocations, and the end, which frees them.

  A HOLDER keeps a depot until it is given up. Nothing is freed before; then every
  allocation is freed in the way that was taken down for it, in the order of retirement.
  To pin a holder costs nothing, because whoever reads also keeps the holder alive.
-/
import SnapList.Retirement.Depot

namespace SnapList.Retirement

inductive Call (α β : Type) where
  | retire (address : α) (release : β)
  | pin
  /-- The holder is given up. -/
  | giveUp

/-- A depot while it is held, and what has been freed. -/
structure Holder (α β : Type) where
  depot : Option (Depot α β) := some {}
  freed : List (α × β) := []

namespace Holder

variable {α β : Type} [DecidableEq α] [Address α]

def pending (holder : Holder α β) : Option Nat := holder.depot.map Depot.pending

/-- Give up the depot, if it is still held, and free what it holds. -/
def giveUp (holder : Holder α β) : Holder α β :=
  match holder.depot with
  | some depot => ⟨none, holder.freed ++ depot.contents⟩
  | none => holder

/-- One call. Nothing can be retired with a holder that was given up. -/
def step (holder : Holder α β) : Call α β → Option (Holder α β × Except Fault Unit)
  | .retire address release =>
    holder.depot.map fun depot =>
      let (after, reply) := depot.retire address release
      ({ holder with depot := some after }, reply)
  | .pin => some (holder, .ok ())
  | .giveUp => some (holder.giveUp, .ok ())

/-- The calls one after another: what each answers, and the holder after it. -/
def trace (holder : Holder α β) :
    List (Call α β) → Option (List (Except Fault Unit × Holder α β))
  | [] => some []
  | call :: rest => do
    let (after, reply) ← holder.step call
    let tail ← after.trace rest
    return (reply, after) :: tail

/-- The holder after all the calls, those that faulted included. -/
def run (holder : Holder α β) (calls : List (Call α β)) : Holder α β :=
  calls.foldl (fun h call => ((h.step call).map Prod.fst).getD h) holder

end Holder

end SnapList.Retirement
