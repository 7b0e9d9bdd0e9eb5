/-
  The lists that there can be.

  A list is REACHABLE if it was created and then changed by calls only, each with its own result.
  What is done at the pins of a call is arbitrary, as long as it leaves a list under a held lock
  as it is; it may fail a pin and so break the call off.

  Main statements: between two calls the lock is free (`Reachable.free`) and the list is sound
  (`Reachable.sound`), also after a call that was broken off.
-/
import SnapList.Proofs.LiveList.Opening
import SnapList.Proofs.LiveList.Refinement

namespace SnapList.LiveList

variable {ρ : Type} {atPin : AtPin ρ} {list seen : LiveList} {mutation : Mutation}
  {front rest : List Step}

/-- A list between two calls, at any time since it was created. -/
inductive Reachable : LiveList → Prop
  | create {options : Options} {list : LiveList} (h : create options = .ok list) : Reachable list
  | call {ρ : Type} {list : LiveList} (h : Reachable list) {atPin : AtPin ρ}
      (hp : atPin.KeepsList) (mutation : Mutation) : Reachable (mutation.call atPin list).list

theorem Reachable.free (h : list.Reachable) : list.lock.isLocked = false := by
  induction h with
  | create h =>
    obtain ⟨-, rfl⟩ := create_eq_ok_iff.1 h
    rfl
  | call h hp mutation ih => exact (later_call hp mutation _).isLocked.trans ih

/-- A mutation that comes to a pin has had the room that it makes admitted. -/
theorem Leads.demand_le (h : Leads list front seen) {len required : Nat}
    (hsteps : mutation.steps len = front ++ .pin :: rest)
    (hroom : mutation.demand len = some required) : required ≤ maxCapacity := by
  obtain ⟨before, after, ha⟩ := h.applied (Mutation.admitSize_mem_of_pin hroom hsteps)
  simp only [Action.apply] at ha
  split at ha
  · assumption
  · cases ha

theorem Sound.leads (hs : list.Sound) (h : Leads list front seen) {len : Nat}
    (hsteps : mutation.steps len = front ++ .pin :: rest) : seen.Sound := by
  cases h.prepared (Mutation.opens_of_pin hsteps) with
  | same => exact hs
  | grown hroom hlt hg =>
    obtain ⟨roomy, hg', hroomy, -⟩ := hs.grow (h.demand_le hsteps hroom)
    cases hg'.symm.trans hg
    exact hroomy.sound

/-- A call leaves a sound list, however it ends: as the sequence says, or broken off at a pin. -/
theorem Sound.call (hs : list.Sound) (hp : atPin.KeepsList) (hf : list.lock.isLocked = false)
    (mutation : Mutation) : (mutation.call atPin list).list.Sound := by
  cases ht : mutation.takesLock list with
  | false =>
    rw [Mutation.list_call_of_not_takesLock ht]
    exact hs
  | true =>
    obtain ⟨hm, -⟩ := Mutation.takesLock_iff.1 ht
    rcases calm_or_broken hp (mutation.steps list.len) 1 (isLocked_ticked hf) with
      hcalm | ⟨front, rest, seen, current, hsteps, hleads, -, hbroken⟩
    · have hsame : (mutation.call atPin list).plain = (mutation.apply list).plain := by
        rw [Mutation.apply, Mutation.call_of_free _ hm hf, Mutation.call_of_free _ hm hf]
        exact plain_released hcalm
      have hlist : (mutation.call atPin list).list = (mutation.apply list).list :=
        congrArg Prod.fst hsame
      rw [hlist]
      exact (call_refines idle_passive hs hf hm).2.2
    · have hlocked := hleads.isLocked (isLocked_ticked hf)
      have hlist : (mutation.call atPin list).list = seen.ticked :=
        congrArg Prod.fst (plain_call_of_free hm hf hbroken hlocked)
      rw [hlist]
      exact ((hs.setLock _).leads hleads hsteps).setLock _

theorem Reachable.sound (h : list.Reachable) : list.Sound := by
  induction h with
  | create h => exact sound_create h
  | call h hp mutation ih => exact ih.call hp h.free mutation

theorem Reachable.run (h : list.Reachable) (operation : Operation) :
    (operation.run list).list.Reachable := by
  cases operation with
  | read question => exact h
  | change mutation => exact h.call idle_keepsList mutation

theorem Reachable.runOperations (h : list.Reachable) (operations : List Operation) :
    (runOperations list operations).1.Reachable := by
  induction operations generalizing list with
  | nil => exact h
  | cons operation rest ih => exact ih (h.run operation)

/-- A full list of one element. -/
def single : LiveList := { slots := #[5], len := 1, noEntry := -1, lock := ⟨2⟩ }

theorem reachable_single : single.Reachable := by
  have hcreate : create narrow = .ok { slots := #[-1], len := 0, noEntry := -1 } := rfl
  exact (Reachable.create hcreate).call idle_keepsList (.push 5)

end SnapList.LiveList
