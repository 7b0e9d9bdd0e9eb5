/-
  What is to be seen in the middle of a write.

  The SIGHTS of a call are the list at each of its pins, as somebody finds it who only watches. Each
  of them is MIDWAY: whoever reads there reads the elements of the list before the call, also where
  the call has moved them to a larger buffer, and whoever writes there is turned away.

  Main statement: a visit at a pin finds a list that is midway, and the call goes on as if nobody
  had come (`call_visited`).
-/
import SnapList.Proofs.LiveList.Alike
import SnapList.Proofs.LiveList.Reachable

namespace SnapList.LiveList

variable {ρ : Type} {atPin : AtPin ρ} {list seen : LiveList} {mutation : Mutation}
  {index : Nat}

/-! ## Watching a call -/

/-- Somebody notes the list at every pin and does nothing else. -/
def watch : AtPin LiveList := fun _ list => { list, account := list }

/-- The list at each pin of a call. -/
def Mutation.sights (mutation : Mutation) (list : LiveList) : List LiveList :=
  (mutation.call watch list).accounts

theorem Outcome.accounts_released (outcome : Outcome ρ) :
    outcome.released.accounts = outcome.accounts := by
  unfold Outcome.released
  split <;> rfl

/-- At a pin is seen where the steps before it have led. -/
theorem leads_of_sight {steps : List Step} {number : Nat}
    (h : (runSteps watch number list steps).accounts[index]? = some seen) :
    ∃ front rest, steps = front ++ .pin :: rest ∧ pins front = index ∧ Leads list front seen := by
  induction steps generalizing number index list with
  | nil => cases h
  | cons step steps ih =>
    cases step with
    | pin =>
      cases index with
      | zero =>
        obtain rfl : list = seen := Option.some.inj h
        exact ⟨[], steps, rfl, rfl, .nil⟩
      | succ index =>
        have hlater : (runSteps watch (number + 1) list steps).accounts[index]? = some seen := h
        obtain ⟨front, rest, rfl, hpins, hleads⟩ := ih hlater
        exact ⟨.pin :: front, rest, rfl, by rw [pins_pin, hpins], .pin hleads⟩
    | act action =>
      rw [runSteps] at h
      split at h
      · rename_i next ha
        have hlater : (runSteps watch number next steps).accounts[index]? = some seen := h
        obtain ⟨front, rest, rfl, hpins, hleads⟩ := ih hlater
        exact ⟨.act action :: front, rest, rfl, by rw [pins_act, hpins], .act ha hleads⟩
      · cases h

/-- A call in the middle of which something is seen has taken the lock, and its steps have led to
what is seen. -/
theorem Mutation.leads_of_sight (h : (mutation.sights list)[index]? = some seen) :
    mutation.promised list = .ok () ∧ list.lock.isLocked = false ∧
      ∃ front rest, mutation.steps list.len = front ++ .pin :: rest ∧ pins front = index ∧
        Leads list.ticked front seen := by
  unfold Mutation.sights Mutation.call at h
  cases hm : mutation.promised list with
  | error fault => rw [hm] at h; cases h
  | ok kept =>
    cases hacquire : list.lock.acquire with
    | error fault => rw [hm, hacquire] at h; cases h
    | ok lock =>
      obtain ⟨hfree, rfl⟩ := StampLock.acquire_eq_ok_iff.1 hacquire
      simp only [hm, hacquire, Outcome.accounts_released] at h
      exact ⟨rfl, hfree, LiveList.leads_of_sight h⟩

theorem lock_of_sight (h : seen ∈ mutation.sights list) : seen.lock = list.lock.advance := by
  obtain ⟨index, hindex⟩ := List.getElem?_of_mem h
  obtain ⟨-, -, front, rest, -, -, hleads⟩ := Mutation.leads_of_sight hindex
  exact hleads.lock

theorem isLocked_of_sight (h : seen ∈ mutation.sights list) : seen.lock.isLocked = true := by
  obtain ⟨index, hindex⟩ := List.getElem?_of_mem h
  obtain ⟨-, hfree, front, rest, -, -, hleads⟩ := Mutation.leads_of_sight hindex
  exact hleads.isLocked (isLocked_ticked hfree)

theorem accounts_runSteps_of_passive (hp : atPin.Passive) (steps : List Step) (number : Nat)
    (hl : list.lock.isLocked = true) :
    (runSteps atPin number list steps).accounts =
      (runSteps watch number list steps).accounts.mapIdx fun index seen =>
        (atPin (number + index) seen).account := by
  induction steps generalizing number list with
  | nil => rfl
  | cons step rest ih =>
    cases step with
    | pin =>
      obtain ⟨hlist, hfails⟩ := hp number list hl
      have hnumber : ∀ index, number + 1 + index = number + (index + 1) := by omega
      have hrest := ih (number + 1) hl
      simp only [hnumber] at hrest
      have hwatch : (runSteps watch number list (.pin :: rest)).accounts =
          list :: (runSteps watch (number + 1) list rest).accounts := rfl
      rw [hwatch, List.mapIdx_cons, ← hrest, runSteps]
      simp only [hlist, hfails]
      rfl
    | act action =>
      rw [runSteps, runSteps]
      split
      · rename_i next ha
        exact ih number (by rw [Action.lock_apply ha]; exact hl)
      · rfl

/-- What is told of the pins of a call is told of what is seen there. -/
theorem accounts_call_of_passive (hp : atPin.Passive) (mutation : Mutation) (list : LiveList) :
    (mutation.call atPin list).accounts =
      (mutation.sights list).mapIdx fun index seen => (atPin (index + 1) seen).account := by
  unfold Mutation.sights Mutation.call
  cases mutation.promised list with
  | error fault => rfl
  | ok kept =>
    cases hacquire : list.lock.acquire with
    | error fault => rfl
    | ok lock =>
      obtain ⟨hfree, rfl⟩ := StampLock.acquire_eq_ok_iff.1 hacquire
      simp only [Outcome.accounts_released]
      refine (accounts_runSteps_of_passive hp _ 1 (isLocked_ticked hfree)).trans ?_
      simp only [Nat.add_comm 1]
      rfl

/-! ## Midway -/

/-- What holds of a list in the middle of a write that began with `list`. -/
structure Midway (list seen : LiveList) : Prop where
  stamp : seen.stamp = list.stamp + 1
  len : seen.len = list.len
  /-- No operation changes anything. -/
  untouched : ∀ operation : Operation, (operation.run seen).list = seen
  /-- A mutation finds the lock held. -/
  turnedAway : ∀ mutation : Mutation, mutation.promised list = .ok () →
    ((Operation.change mutation).run seen).result = .error (.aborted .lockHeld)
  /-- A question about elements is answered as before the write. -/
  answers : ∀ question : Read, question.Logical →
    ((Operation.read question).run seen).result = question.answer list

/-- A promise is about the number of elements only. -/
theorem Mutation.promised_eq (mutation : Mutation) (h : seen.len = list.len) :
    mutation.promised seen = mutation.promised list := by
  cases mutation with
  | setUnchecked index value => simp only [Mutation.promised, h]
  | _ => rfl

theorem Sound.alike_of_sight (hs : list.Sound) (h : seen ∈ mutation.sights list) :
    list.Alike seen := by
  obtain ⟨index, hindex⟩ := List.getElem?_of_mem h
  obtain ⟨-, -, front, rest, hsteps, -, hleads⟩ := Mutation.leads_of_sight hindex
  have hprepared := hleads.prepared (Mutation.opens_of_pin hsteps)
  exact ⟨hprepared.len.symm, hprepared.noEntry.symm, (hprepared.elements hs.len_le).symm⟩

theorem Sound.midway (hs : list.Sound) (h : seen ∈ mutation.sights list) : list.Midway seen := by
  have halike := hs.alike_of_sight h
  have hlocked := isLocked_of_sight h
  exact
    { stamp := congrArg StampLock.stamp (lock_of_sight h)
      len := halike.len.symm
      untouched := fun operation => operation.list_run_of_locked hlocked
      turnedAway := by
        intro mutation hm
        have hpromised := (mutation.promised_eq halike.len.symm).trans hm
        exact congrArg (Except.map fun _ => Reply.done)
          (mutation.result_call_of_locked idle hpromised hlocked)
      answers := fun question hq => (halike.answer_eq hs hq).symm }

/-! ## Visits -/

/-- Under a held lock the operations of a visit are answered each as if it were alone. -/
theorem answers_of_locked (operations : List Operation) (h : list.lock.isLocked = true) :
    (runOperations list operations).2.1 =
      operations.map fun operation => (operation.run list).answer := by
  induction operations with
  | nil => rfl
  | cons operation rest ih =>
    simp only [runOperations, operation.list_run_of_locked h, ih, List.map_cons]

/-- Operations in the middle of a write find a list that is midway, and the write goes on as if
they had not been tried. -/
theorem call_visited (hr : list.Reachable) (outer : Mutation) (pin : Nat) {visit : Visit}
    (hv : visit.fails = false) :
    let outcome := outer.call (visit.atPin pin) list
    outcome.result = (outer.apply list).result ∧ outcome.list = (outer.apply list).list ∧
      outcome.accounts = (outer.sights list).mapIdx (fun index seen =>
        if index + 1 = pin then visit.operations.map fun operation => (operation.run seen).answer
        else []) ∧
      ∀ seen ∈ outer.sights list, list.Midway seen := by
  have hpassive := Visit.passive_atPin hv pin
  have hplain := plain_call_of_passive hpassive outer list
  have hmidway : ∀ seen ∈ outer.sights list, list.Midway seen := fun _ => hr.sound.midway
  refine ⟨congrArg Prod.snd hplain, congrArg Prod.fst hplain, ?_, hmidway⟩
  rw [accounts_call_of_passive hpassive]
  refine List.mapIdx_eq_mapIdx_iff.2 fun index hindex => ?_
  have hlocked := isLocked_of_sight (List.getElem_mem hindex)
  unfold Visit.atPin
  split
  · exact answers_of_locked visit.operations hlocked
  · rfl

/-- Somebody who reads a little and writes a little. -/
def curious : Visit :=
  { operations :=
      [.change (.set 0 9), .read (.get 0), .read (.indexOf 6), .read .display, .change .clear] }

/-- At its second pin a push has moved the element to a buffer of two slots. The new element is not
to be seen yet, and nobody can write. -/
theorem push_visited :
    single.Reachable ∧
      let outcome := (Mutation.push 6).call (curious.atPin 2) single
      outcome.result = .ok () ∧
        outcome.list.toContents = { slots := #[5, 6], len := 2, noEntry := -1 } ∧
        outcome.accounts =
          [[], [⟨.error (.aborted .lockHeld), 1, 2, 3⟩, ⟨.ok (.element 5), 1, 2, 3⟩,
            ⟨.ok (.index none), 1, 2, 3⟩, ⟨.ok (.text "[5]"), 1, 2, 3⟩,
            ⟨.error (.aborted .lockHeld), 1, 2, 3⟩]] := by
  obtain ⟨hresult, hlist, haccounts, -⟩ := call_visited reachable_single (.push 6) 2
    (show curious.fails = false from rfl)
  refine ⟨reachable_single, hresult.trans rfl, ?_, haccounts.trans rfl⟩
  rw [hlist]
  rfl

end SnapList.LiveList
