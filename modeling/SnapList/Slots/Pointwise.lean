/-
  What each slot holds after an operation on the slots.

  Main statements: after a move, slot `target + i` holds what slot `source + i` held before, for
  every `i` below the count, and every other slot is as it was, to the left
  (`getElem?_moveForward`) and to the right (`getElem?_moveBackward`), also where the two ranges
  overlap; so a copy within the slots, which chooses between the two, does the same wherever its
  ranges lie (`copyWithin_of_le`). After a fill and a store of several values, the slots in the
  range hold the new values and the others are as they were (`getElem?_fillFrom`,
  `getElem?_storeAll`).
-/
import SnapList.Slots

namespace SnapList.Slots

theorem getElem?_fillFrom (slots : Slots) (value : Int64) (start count index : Nat)
    (h : start + count ≤ slots.size) :
    (slots.fillFrom value start count)[index]? =
      if start ≤ index ∧ index < start + count then some value else slots[index]? := by
  induction count generalizing slots start with
  | zero =>
    have hn : ¬ (start ≤ index ∧ index < start + 0) := by omega
    simp only [fillFrom, if_neg hn]
  | succ count ih =>
    rw [fillFrom, ih _ _ (by simp; omega), Array.getElem?_setIfInBounds]
    by_cases hi : start = index
    · subst hi
      have h1 : ¬ (start + 1 ≤ start ∧ start < start + 1 + count) := by omega
      have h2 : start ≤ start ∧ start < start + (count + 1) := by omega
      have h3 : start < slots.size := by omega
      simp only [if_neg h1, if_pos h2, if_pos h3, if_true]
    · have h1 : (start + 1 ≤ index ∧ index < start + 1 + count) ↔
          (start ≤ index ∧ index < start + (count + 1)) := by omega
      simp only [h1, if_neg hi]

/-- A move to the left copies each slot before it is overwritten. -/
theorem getElem?_moveForward (slots : Slots) (source target count index : Nat)
    (h : source + count ≤ slots.size) (ht : target ≤ source) :
    (slots.moveForward source target count)[index]? =
      if target ≤ index ∧ index < target + count then slots[source + (index - target)]?
      else slots[index]? := by
  induction count generalizing slots source target with
  | zero =>
    have hn : ¬ (target ≤ index ∧ index < target + 0) := by omega
    simp only [moveForward, if_neg hn]
  | succ count ih =>
    rw [moveForward, ih _ _ _ (by simp; omega) (by omega)]
    have hs : source < slots.size := by omega
    by_cases hi : index = target
    · subst hi
      have h1 : ¬ (index + 1 ≤ index ∧ index < index + 1 + count) := by omega
      have h2 : index ≤ index ∧ index < index + (count + 1) := by omega
      have h3 : index < slots.size := by omega
      rw [if_neg h1, if_pos h2, Array.getElem?_setIfInBounds_self, if_pos h3]
      simp [hs]
    · have h1 : (target + 1 ≤ index ∧ index < target + 1 + count) ↔
          (target ≤ index ∧ index < target + (count + 1)) := by omega
      simp only [h1]
      split
      · have e : source + 1 + (index - (target + 1)) = source + (index - target) := by omega
        rw [e, Array.getElem?_setIfInBounds, if_neg (by omega)]
      · rw [Array.getElem?_setIfInBounds, if_neg (by omega)]

/-- A move to the right copies each slot before it is overwritten. -/
theorem getElem?_moveBackward (slots : Slots) (source target count index : Nat)
    (h : target + count ≤ slots.size) (ht : source ≤ target) :
    (slots.moveBackward source target count)[index]? =
      if target ≤ index ∧ index < target + count then slots[source + (index - target)]?
      else slots[index]? := by
  induction count generalizing slots with
  | zero =>
    have hn : ¬ (target ≤ index ∧ index < target + 0) := by omega
    simp only [moveBackward, if_neg hn]
  | succ count ih =>
    rw [moveBackward, ih _ (by simp; omega)]
    by_cases hi : index = target + count
    · subst hi
      have h1 : ¬ (target ≤ target + count ∧ target + count < target + count) := by omega
      have h2 : target ≤ target + count ∧ target + count < target + (count + 1) := by omega
      have h3 : target + count < slots.size := by omega
      have h4 : source + count < slots.size := by omega
      have e : target + count - target = count := by omega
      simp [h3, h4, e]
    · by_cases hc : target ≤ index ∧ index < target + count
      · have h2 : target ≤ index ∧ index < target + (count + 1) := by omega
        rw [if_pos hc, if_pos h2, Array.getElem?_setIfInBounds, if_neg (by omega)]
      · have h2 : ¬ (target ≤ index ∧ index < target + (count + 1)) := by omega
        rw [if_neg hc, if_neg h2, Array.getElem?_setIfInBounds, if_neg (by omega)]

/-- Two ranges that are there are copied one onto the other, in the direction that they need. -/
theorem copyWithin_of_le {slots : Slots} {source target count : Nat}
    (hs : source + count ≤ slots.size) (ht : target + count ≤ slots.size) :
    ∃ after, slots.copyWithin source target count = .ok after ∧ ∀ index,
      after[index]? =
        if target ≤ index ∧ index < target + count then slots[source + (index - target)]?
        else slots[index]? := by
  unfold copyWithin
  rw [if_neg (Nat.not_lt.2 hs), if_neg (Nat.not_lt.2 ht)]
  split
  · rename_i hright
    exact ⟨_, rfl, fun _ => getElem?_moveBackward _ _ _ _ _ ht (Nat.le_of_lt hright)⟩
  · split
    · rename_i hleft
      exact ⟨_, rfl, fun _ => getElem?_moveForward _ _ _ _ _ hs (Nat.le_of_lt hleft)⟩
    · -- The ranges are the same, and nothing has to be done.
      obtain rfl : source = target := by omega
      refine ⟨slots, rfl, fun index => ?_⟩
      split
      · rw [Nat.add_sub_cancel' (by omega)]
      · rfl

theorem storeAll_of_le {slots : Slots} {start : Nat} {values : List Int64}
    (h : start + values.length ≤ slots.size) : ∃ after, slots.storeAll start values = .ok after := by
  induction values generalizing slots start with
  | nil => exact ⟨slots, rfl⟩
  | cons value rest ih =>
    simp only [List.length_cons] at h
    rw [storeAll, store_of_lt (by omega)]
    exact ih (by simp; omega)

theorem getElem?_storeAll {slots after : Slots} {start : Nat} {values : List Int64}
    (h : slots.storeAll start values = .ok after) (index : Nat) :
    after[index]? =
      if start ≤ index ∧ index < start + values.length then values[index - start]?
      else slots[index]? := by
  induction values generalizing slots start with
  | nil =>
    cases h
    have hn : ¬ (start ≤ index ∧ index < start + 0) := by omega
    rw [List.length_nil, if_neg hn]
  | cons value rest ih =>
    simp only [storeAll, store] at h
    split at h
    · rename_i middle hm
      split at hm
      · rename_i hlt
        cases hm
        rw [ih h, List.length_cons]
        by_cases hi : index = start
        · subst hi
          have h1 : ¬ (index + 1 ≤ index ∧ index < index + 1 + rest.length) := by omega
          have h2 : index ≤ index ∧ index < index + (rest.length + 1) := by omega
          rw [if_neg h1, if_pos h2, Array.getElem?_setIfInBounds_self, if_pos hlt]
          simp
        · have h1 : (start + 1 ≤ index ∧ index < start + 1 + rest.length) ↔
              (start ≤ index ∧ index < start + (rest.length + 1)) := by omega
          simp only [h1]
          split
          · have e : index - start = index - (start + 1) + 1 := by omega
            rw [e, List.getElem?_cons_succ]
          · rw [Array.getElem?_setIfInBounds, if_neg (by omega)]
      · cases hm
    · cases h

end SnapList.Slots
