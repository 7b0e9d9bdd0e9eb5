/-
  What the stamp of a list tells about the calls in between.

  A call TAKES the lock if it finds it free and its promise is kept; every other call leaves the
  list as it is. One list is LATER than another by a number of writes if it comes from it through
  calls of which so many took the lock, each with its own result.

  Main statements: calls make a list later by the number of those that take the lock
  (`later_call`, `later_runOperations`), and while these are fewer than 2^63 the stamp is the same
  only if the list is (`Later.stamp_eq_iff`).
-/
import Mathlib.Algebra.Group.Nat.Defs
import SnapList.LiveList.Operation

namespace SnapList.LiveList

variable {ρ : Type} {atPin : AtPin ρ} {list before middle after : LiveList} {n m : Nat}

/-! ## Under the lock -/

/-- What is done at the pins leaves a list under a held lock as it is. -/
def AtPin.KeepsList (atPin : AtPin ρ) : Prop :=
  ∀ number list, list.lock.isLocked = true → (atPin number list).list = list

theorem AtPin.KeepsList.keepsLock (hp : atPin.KeepsList) : atPin.KeepsLock :=
  fun number list h => by rw [hp number list h]

theorem idle_keepsList : AtPin.KeepsList idle := fun _ _ _ => rfl

/-- Also a visit that makes its pin fail leaves the list as it is. -/
theorem Visit.keepsList_atPin (visit : Visit) (number : Nat) : (visit.atPin number).KeepsList := by
  intro current list h
  unfold Visit.atPin
  split
  · exact visit.list_run_of_locked h
  · rfl

theorem exists_of_withSlots {slots : Except Fault Slots} (h : list.withSlots slots = .ok after)
    (hsize : ∀ others, slots = .ok others → others.size = list.slots.size) :
    ∃ others : Slots, others.size = list.slots.size ∧ after = { list with slots := others } := by
  unfold withSlots at h
  split at h <;> cases h
  exact ⟨_, hsize _ rfl, rfl⟩

/-- An action leaves the list, moves it to another buffer, or changes slots or length in place. -/
theorem Action.cases_of_apply {action : Action} (h : action.apply list = .ok after) :
    after = list ∨ (∃ required, action = .grow required ∧ list.grow required = .ok after) ∨
      (∃ slots : Slots, slots.size = list.slots.size ∧ after = { list with slots }) ∨
      ∃ len, after = { list with len } := by
  cases action with
  | grow required => exact Or.inr (Or.inl ⟨required, rfl, h⟩)
  | write start values =>
    exact Or.inr (Or.inr (Or.inl (exists_of_withSlots h fun _ => Slots.size_storeAll)))
  | move source target count =>
    exact Or.inr (Or.inr (Or.inl (exists_of_withSlots h fun _ => Slots.size_copyWithin)))
  | blank start stop =>
    exact Or.inr (Or.inr (Or.inl (exists_of_withSlots h fun _ => Slots.size_fill)))
  | resize len => exact Or.inr (Or.inr (Or.inr ⟨len, (Except.ok.inj h).symm⟩))
  | _ =>
    simp only [Action.apply] at h
    split at h <;> cases h
    exact Or.inl rfl

theorem noEntry_moved {required : Nat} (h : list.moved required = .ok after) :
    after.noEntry = list.noEntry := by
  unfold moved at h
  split at h <;> cases h
  rfl

theorem noEntry_grow {required : Nat} (h : list.grow required = .ok after) :
    after.noEntry = list.noEntry := by
  unfold grow at h
  split at h
  · cases h
    rfl
  · split at h
    · cases h
    · rename_i moved hm
      split at h <;> cases h
      have hnoEntry := noEntry_moved hm
      exact hnoEntry

theorem Action.noEntry_apply {action : Action} (h : action.apply list = .ok after) :
    after.noEntry = list.noEntry := by
  rcases Action.cases_of_apply h with rfl | ⟨required, -, hg⟩ | ⟨slots, -, rfl⟩ | ⟨len, rfl⟩
  · rfl
  · exact noEntry_grow hg
  · rfl
  · rfl

theorem Action.noEntry_leaves (list : LiveList) (action : Action) :
    (action.leaves list).noEntry = list.noEntry := by
  cases action with
  | grow required =>
    simp only [Action.leaves]
    split
    · exact noEntry_moved ‹_›
    · rfl
  | _ => rfl

theorem noEntry_runSteps (hp : atPin.KeepsList) (steps : List Step) (number : Nat)
    (h : list.lock.isLocked = true) :
    (runSteps atPin number list steps).list.noEntry = list.noEntry := by
  induction steps generalizing number list with
  | nil => rfl
  | cons step rest ih =>
    cases step with
    | pin =>
      have hl := hp number list h
      simp only [runSteps, hl]
      split
      · rfl
      · exact ih _ h
    | act action =>
      simp only [runSteps]
      split
      · rename_i next hn
        have hlock := Action.lock_apply hn
        exact (ih _ (by rw [hlock]; exact h)).trans (Action.noEntry_apply hn)
      · exact action.noEntry_leaves list

/-! ## Later lists -/

/-- The mutation finds the lock of the list free and keeps its promise. -/
def Mutation.takesLock (mutation : Mutation) (list : LiveList) : Bool :=
  (mutation.promised list).isOk && !list.lock.isLocked

/-- An operation that reads never takes the lock. -/
def Operation.takesLock (list : LiveList) : Operation → Bool
  | .read _ => false
  | .change mutation => mutation.takesLock list

/-- The number of operations that take the lock, one after another. -/
def writes (list : LiveList) : List Operation → Nat
  | [] => 0
  | operation :: rest => (operation.takesLock list).toNat + writes (operation.run list).list rest

theorem writes_append (list : LiveList) (first second : List Operation) :
    writes list (first ++ second) =
      writes list first + writes (runOperations list first).1 second := by
  induction first generalizing list with
  | nil => exact (Nat.zero_add _).symm
  | cons operation rest ih =>
    rw [List.cons_append, writes, writes, ih, Nat.add_assoc]
    rfl

/-- `after` is `before` after `writes` calls that took the lock. -/
structure Later (before after : LiveList) (writes : Nat) : Prop where
  stamp : after.stamp = before.stamp + UInt64.ofNat (2 * writes)
  isLocked : after.lock.isLocked = before.lock.isLocked
  noEntry : after.noEntry = before.noEntry
  same : writes = 0 → after = before

theorem later_refl (list : LiveList) : list.Later list 0 :=
  ⟨(UInt64.add_zero _).symm, rfl, rfl, fun _ => rfl⟩

theorem Later.trans (h1 : before.Later middle n) (h2 : middle.Later after m) :
    before.Later after (n + m) := by
  refine ⟨?_, h2.isLocked.trans h1.isLocked, h2.noEntry.trans h1.noEntry, fun h => ?_⟩
  · rw [h2.stamp, h1.stamp, UInt64.add_assoc, ← UInt64.ofNat_add, ← Nat.mul_add]
  · rw [h2.same (Nat.eq_zero_of_add_eq_zero_left h), h1.same (Nat.eq_zero_of_add_eq_zero_right h)]

/-- The stamp wraps after 2^63 writes and not before. -/
theorem Later.stamp_eq_iff (h : before.Later after n) (hn : n < 2 ^ 63) :
    after.stamp = before.stamp ↔ n = 0 := by
  rw [h.stamp, UInt64.add_eq_left, ← UInt64.toNat_inj, UInt64.toNat_ofNat']
  show 2 * n % 2 ^ 64 = 0 ↔ n = 0
  omega

theorem Mutation.takesLock_iff {mutation : Mutation} :
    mutation.takesLock list = true ↔
      mutation.promised list = .ok () ∧ list.lock.isLocked = false := by
  unfold Mutation.takesLock
  cases mutation.promised list <;> simp [Except.isOk, Except.toBool]

theorem Mutation.list_call_of_not_takesLock {mutation : Mutation}
    (h : mutation.takesLock list = false) : (mutation.call atPin list).list = list := by
  cases hl : list.lock.isLocked with
  | true =>
    obtain ⟨fault, hf⟩ := mutation.call_of_locked atPin hl
    rw [hf]
  | false =>
    have hp : mutation.promised list ≠ .ok () := fun hp => by
      rw [Mutation.takesLock_iff.2 ⟨hp, hl⟩] at h
      cases h
    unfold Mutation.call
    cases hm : mutation.promised list with
    | error fault => rfl
    | ok kept => exact absurd hm hp

/-- A call makes a list later by one write or leaves it, whatever its result and whatever is done
at its pins. -/
theorem later_call (hp : atPin.KeepsList) (mutation : Mutation) (list : LiveList) :
    list.Later (mutation.call atPin list).list (mutation.takesLock list).toNat := by
  cases ht : mutation.takesLock list with
  | false =>
    rw [Mutation.list_call_of_not_takesLock ht]
    exact later_refl list
  | true =>
    obtain ⟨hm, hf⟩ := Mutation.takesLock_iff.1 ht
    have hlock := Mutation.lock_call hp.keepsLock hm hf
    refine ⟨?_, ?_, ?_, fun h => by cases h⟩
    · unfold LiveList.stamp
      rw [hlock]
      exact UInt64.add_assoc _ _ _
    · rw [hlock]
      simp
    · have hheld : StampLock.isLocked (list.lock.advance) = true := by simp [hf]
      have hkept := lock_runSteps hp.keepsLock (mutation.steps list.len) 1
        { list with lock := list.lock.advance } hheld
      rw [Mutation.call_of_free atPin hm hf,
        Outcome.released_of_locked (by rw [hkept]; exact hheld)]
      exact noEntry_runSteps hp _ _ hheld

theorem Operation.later_run (operation : Operation) (list : LiveList) :
    list.Later (operation.run list).list (operation.takesLock list).toNat := by
  cases operation with
  | read question => exact later_refl list
  | change mutation => exact later_call idle_keepsList mutation list

theorem later_runOperations (operations : List Operation) (list : LiveList) :
    list.Later (runOperations list operations).1 (writes list operations) := by
  induction operations generalizing list with
  | nil => exact later_refl list
  | cons operation rest ih => exact (operation.later_run list).trans (ih _)

end SnapList.LiveList
