/-
  Deeds: what is done to a lock, one after another.

  A lock can be acquired and released, each only at the right time. Deeds that were done one after
  another tell everything about the stamp: each of them adds one to it, they take turns, and the last
  one tells whether the lock is held. If it is also known whose deeds they are, they tell who holds it.

  Main statements: deeds alternate (`Does.isChain`), the stamp counts them (`Does.stamp`) and comes
  back to where it was only without a deed, as long as there are fewer than 2^63 acquisitions
  (`Does.stamp_eq_iff`); and among clients who release only what they hold there is never more than
  one holder (`Does.eq_of_holds`).
-/
import Mathlib.Algebra.Group.Nat.Defs
import Mathlib.Data.List.Chain
import SnapList.StampLock.Basic

namespace SnapList.StampLock

inductive Deed where
  | acquired
  | released
  deriving DecidableEq

/-- A lock is released while it is held, and acquired while it is not. -/
def Deed.ofHeld : Deed → Bool
  | .acquired => false
  | .released => true

/-- What it is to do a deed at the wrong time. -/
def Deed.fault : Deed → Fault
  | .acquired => .lockHeld
  | .released => .lockNotHeld

def Deed.change (lock : StampLock) : Deed → Except Fault StampLock
  | .acquired => lock.acquire
  | .released => lock.release

theorem Deed.change_of_eq {lock : StampLock} {deed : Deed} (h : lock.isLocked = deed.ofHeld) :
    deed.change lock = .ok lock.advance := by
  cases deed with
  | acquired => exact acquire_of_free h
  | released => exact release_of_locked h

theorem Deed.change_of_ne {lock : StampLock} {deed : Deed} (h : lock.isLocked ≠ deed.ofHeld) :
    deed.change lock = .error deed.fault := by
  cases deed with
  | acquired => exact acquire_of_locked (Bool.not_eq_false _ ▸ h)
  | released => exact if_neg h

theorem length_eq_count (deeds : List Deed) :
    deeds.length = deeds.count .acquired + deeds.count .released := by
  induction deeds with
  | nil => rfl
  | cons deed deeds ih =>
    cases deed <;> simp [ih] <;> omega

/-- The deeds were done to one lock, each at the right time, and the other is what came of it. -/
inductive Does : StampLock → List Deed → StampLock → Prop
  | nil {lock : StampLock} : Does lock [] lock
  | cons {lock after : StampLock} {deed : Deed} {deeds : List Deed}
      (hnow : lock.isLocked = deed.ofHeld) (hrest : Does lock.advance deeds after) :
      Does lock (deed :: deeds) after

namespace Does

variable {lock middle after : StampLock} {deed : Deed} {deeds front back : List Deed}

theorem append (h1 : Does lock front middle) (h2 : Does middle back after) :
    Does lock (front ++ back) after := by
  induction h1 with
  | nil => exact h2
  | cons hnow _ ih => exact .cons hnow (ih h2)

theorem exists_of_append (h : Does lock (front ++ back) after) :
    ∃ middle, Does lock front middle ∧ Does middle back after := by
  induction front generalizing lock with
  | nil => exact ⟨lock, .nil, h⟩
  | cons deed front ih =>
    cases h with
    | cons hnow hrest =>
      obtain ⟨middle, hfront, hback⟩ := ih hrest
      exact ⟨middle, .cons hnow hfront, hback⟩

/-- The last deed was done at the right time, too. -/
theorem exists_of_concat (h : Does lock (deeds ++ [deed]) after) :
    ∃ middle, Does lock deeds middle ∧ middle.isLocked = deed.ofHeld ∧ after = middle.advance := by
  obtain ⟨middle, hfront, hlast⟩ := h.exists_of_append
  cases hlast with
  | cons hnow hrest =>
    cases hrest
    exact ⟨middle, hfront, hnow, rfl⟩

theorem stamp (h : Does lock deeds after) :
    after.stamp = lock.stamp + UInt64.ofNat deeds.length := by
  induction h with
  | nil => exact (UInt64.add_zero _).symm
  | @cons lock after deed deeds _ _ ih =>
    rw [ih, List.length_cons, Nat.add_comm, UInt64.ofNat_add, ← UInt64.add_assoc]
    rfl

/-- A deed is done at the right time for it if the one before was of the other kind. -/
theorem ne_of_isLocked {first second : Deed} (hfirst : lock.isLocked = first.ofHeld)
    (hsecond : lock.advance.isLocked = second.ofHeld) : first ≠ second := by
  rintro rfl
  rw [isLocked_advance, hfirst] at hsecond
  exact absurd hsecond (Bool.not_eq_self _).1

/-- Acquisitions and releases take turns. -/
theorem isChain (h : Does lock deeds after) : deeds.IsChain (· ≠ ·) := by
  induction h with
  | nil => exact List.isChain_nil
  | cons hnow hrest ih =>
    cases hrest with
    | nil => exact List.isChain_singleton _
    | cons hnext _ => exact List.isChain_cons_cons.2 ⟨ne_of_isLocked hnow hnext, ih⟩

theorem head_eq (h : Does lock (deed :: deeds) after) : lock.isLocked = deed.ofHeld := by
  cases h with
  | cons hnow _ => exact hnow

/-- The last deed tells whether the lock is held. -/
theorem isLocked_eq (h : Does lock deeds after) (hlast : deeds.getLast? = some deed) :
    after.isLocked = !deed.ofHeld := by
  obtain ⟨front, rfl⟩ := List.getLast?_eq_some_iff.1 hlast
  obtain ⟨middle, -, hnow, rfl⟩ := h.exists_of_concat
  rw [isLocked_advance, hnow]

/-- There are as many acquisitions as releases, up to the one that has not been followed yet and the
one that went before. -/
theorem two_mul_count (h : Does lock deeds after) :
    2 * deeds.count .acquired + lock.isLocked.toNat = deeds.length + after.isLocked.toNat := by
  induction h with
  | nil => rw [List.count_nil, List.length_nil, Nat.mul_zero]
  | @cons lock after deed deeds hnow _ ih =>
    rw [isLocked_advance, hnow] at ih
    rw [hnow, List.length_cons]
    cases deed with
    | acquired =>
      have hcount : (Deed.acquired :: deeds).count .acquired = deeds.count .acquired + 1 :=
        List.count_cons_self
      rw [hcount]
      simp only [Deed.ofHeld, Bool.not_false, Bool.toNat_true, Bool.toNat_false] at ih ⊢
      omega
    | released =>
      have hcount : (Deed.released :: deeds).count .acquired = deeds.count .acquired :=
        List.count_cons_of_ne (by decide)
      rw [hcount]
      simp only [Deed.ofHeld, Bool.not_true, Bool.toNat_true, Bool.toNat_false] at ih ⊢
      omega

/-- The stamp of a free lock comes back only after 2^63 acquisitions. -/
theorem stamp_eq_iff (h : Does lock deeds after) (hfree : lock.isLocked = false)
    (hfew : deeds.count .acquired < 2 ^ 63) :
    after.stamp = lock.stamp ↔ .acquired ∉ deeds := by
  have hcount := h.two_mul_count
  rw [hfree, Bool.toNat_false] at hcount
  have hlength : deeds.length % 2 ^ 64 = deeds.length := Nat.mod_eq_of_lt (by omega)
  rw [h.stamp, UInt64.add_eq_left, ← UInt64.toNat_inj, UInt64.toNat_ofNat', ← List.count_eq_zero]
  show deeds.length % 2 ^ 64 = 0 ↔ deeds.count .acquired = 0
  have hlast : after.isLocked.toNat ≤ 1 := Bool.toNat_le _
  omega

end Does

/-! ## Whose deeds they are -/

section Holders

variable {κ : Type} [DecidableEq κ] {lock after : StampLock} {done : List (κ × Deed)}
  {client other : κ} {deed : Deed}

/-- The last that a client has done is to acquire the lock. -/
def Holds (done : List (κ × Deed)) (client : κ) : Prop :=
  (done.filter fun entry => entry.1 = client).getLast? = some (client, .acquired)

instance (done : List (κ × Deed)) (client : κ) : Decidable (Holds done client) :=
  inferInstanceAs (Decidable (_ = _))

/-- Every client who released the lock held it then. -/
def Honest (done : List (κ × Deed)) : Prop :=
  ∀ i, (h : i < done.length) → done[i].2 = .released → Holds (done.take i) done[i].1

theorem not_holds_nil (client : κ) : ¬ Holds [] client := fun h => by cases h

theorem holds_concat_self : Holds (done ++ [(client, deed)]) client ↔ deed = .acquired := by
  unfold Holds
  simp

theorem holds_concat_of_ne (h : other ≠ client) :
    Holds (done ++ [(other, deed)]) client ↔ Holds done client := by
  unfold Holds
  simp [h]

theorem Honest.front {entry : κ × Deed} (h : Honest (done ++ [entry])) : Honest done := by
  intro i hi hreleased
  have hlonger : i < (done ++ [entry]).length := by simp; omega
  have hearlier := h i hlonger
  simp only [List.getElem_append_left hi, List.take_append_of_le_length (Nat.le_of_lt hi)]
    at hearlier
  exact hearlier hreleased

theorem Honest.last {entry : κ × Deed} (h : Honest (done ++ [entry]))
    (hreleased : entry.2 = .released) : Holds done entry.1 := by
  have hlast := h done.length (by simp)
  simp only [List.getElem_concat_length, List.take_left'] at hlast
  exact hlast hreleased

/-- If everybody releases only what they hold, nobody holds a free lock, and no two clients hold one
at once. -/
theorem Does.eq_of_holds (h : Does {} (done.map Prod.snd) lock) (hhonest : Honest done) :
    (lock.isLocked = false → ∀ client, ¬ Holds done client) ∧
      ∀ client other, Holds done client → Holds done other → client = other := by
  induction done using List.reverseRecOn generalizing lock with
  | nil =>
    refine ⟨fun _ client => not_holds_nil client, ?_⟩
    intro client other hholds
    exact absurd hholds (not_holds_nil client)
  | append_singleton done entry ih =>
    rw [List.map_append] at h
    obtain ⟨middle, hfront, hnow, rfl⟩ := h.exists_of_concat
    obtain ⟨hnobody, hone⟩ := ih hfront hhonest.front
    obtain ⟨actor, deed⟩ := entry
    cases deed with
    | acquired =>
      have hactor : ∀ client, Holds (done ++ [(actor, .acquired)]) client → actor = client := by
        intro client hholds
        by_contra hne
        exact hnobody hnow client ((holds_concat_of_ne hne).1 hholds)
      refine ⟨?_, ?_⟩
      · intro hfree
        rw [isLocked_advance, hnow] at hfree
        cases hfree
      · intro client other hclient hother
        exact (hactor client hclient).symm.trans (hactor other hother)
    | released =>
      -- The one who releases the lock was its only holder.
      have hheld : Holds done actor := hhonest.last rfl
      have hnone : ∀ client, ¬ Holds (done ++ [(actor, .released)]) client := by
        intro client hholds
        rcases eq_or_ne actor client with rfl | hne
        · cases holds_concat_self.1 hholds
        · exact hne (hone actor client hheld ((holds_concat_of_ne hne).1 hholds))
      refine ⟨fun _ => hnone, ?_⟩
      intro client other hclient
      exact absurd hclient (hnone client)

end Holders

end SnapList.StampLock
