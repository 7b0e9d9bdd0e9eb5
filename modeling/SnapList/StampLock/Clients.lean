/-
  The clients of one lock and the calls that they make on it.

  A client acquires and releases the lock itself, or opens a GUARD, which acquires it and
  releases it when the guard is dropped. A guard releases whatever write is in progress at
  that moment, its own or another's. An INTRUDER opens a guard and drops it at once. The calls
  are carried out one after another; a fault ends its own call only.
-/
import SnapList.StampLock.Basic

namespace SnapList.StampLock

inductive Call where
  | stamp
  | isLocked
  | readStamp
  | validate (stamp : UInt64)
  | acquire
  | release
  | openGuard
  | dropGuard (guard : Nat)
  /-- A reader waits for a stamp while the write in progress, if any, is released. -/
  | releaseUnderReader
  | intrude
  | describe (layout : Text.Layout)

inductive Reply where
  | done
  | stamp (stamp : UInt64)
  | flag (value : Bool)
  | guard (number : Nat)
  /-- The stamp that the waiting reader got, and how the release went. -/
  | released (stamp : UInt64) (release : Except Fault Unit)
  | text (text : String)

/-- The lock with the guards opened so far: each is still open or not. -/
structure Clients where
  lock : StampLock := {}
  guards : Array Bool := #[]

namespace Clients

/-- The clients after `change`, which answers `reply`; a fault leaves the lock as it was. -/
def attempt (clients : Clients) (change : Except Fault StampLock) (reply : Reply) :
    Clients × Except Failure Reply :=
  match change with
  | .ok lock => ({ clients with lock }, .ok reply)
  | .error fault => (clients, .error (.aborted fault))

/-- One call. A guard that was never opened, or is dropped already, cannot be dropped. -/
def step (clients : Clients) : Call → Option (Clients × Except Failure Reply)
  | .stamp => some (clients, .ok (.stamp clients.lock.stamp))
  | .isLocked => some (clients, .ok (.flag clients.lock.isLocked))
  | .readStamp => some (clients, clients.lock.readStamp.map .stamp)
  | .validate stamp => some (clients, .ok (.flag (clients.lock.validates stamp)))
  | .acquire => some (clients.attempt clients.lock.acquire .done)
  | .release => some (clients.attempt clients.lock.release .done)
  | .openGuard =>
    match clients.lock.acquire with
    | .ok lock => some (⟨lock, clients.guards.push true⟩, .ok (.guard clients.guards.size))
    | .error fault => some (clients, .error (.aborted fault))
  | .dropGuard guard =>
    if clients.guards[guard]? = some true then
      some ({ clients with guards := clients.guards.setIfInBounds guard false }.attempt
        clients.lock.release .done)
    else
      none
  | .releaseUnderReader =>
    match clients.lock.release with
    | .ok lock => some ({ clients with lock }, .ok (.released lock.stamp (.ok ())))
    | .error fault => some (clients, .ok (.released clients.lock.stamp (.error fault)))
  | .intrude => some (clients.attempt (clients.lock.acquire.bind release) .done)
  | .describe layout => some (clients, .ok (.text (clients.lock.record.render layout)))

/-- The calls one after another: what each answers, and the lock after it. -/
def trace (clients : Clients) : List Call → Option (List (Except Failure Reply × StampLock))
  | [] => some []
  | call :: rest => do
    let (after, reply) ← clients.step call
    let tail ← after.trace rest
    return (reply, after.lock) :: tail

end Clients

end SnapList.StampLock
