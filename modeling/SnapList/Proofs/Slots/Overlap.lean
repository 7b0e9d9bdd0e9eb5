/-
  Copies between overlapping ranges.

  A copy within the slots runs slot by slot, and where the two ranges overlap it overwrites part of
  what it still has to read. It runs from the back if the range moves to the right and from the front
  if it moves to the left; in the other direction an element would be smeared over the rest of the
  range.

  Main statement: wherever the two ranges lie, the copy leaves in the one what was in the other
  before, and the rest as it was (`copyWithin_pointwise`).
-/
import SnapList.Slots.Pointwise

namespace SnapList.Slots

variable {slots : Slots} {source target count : Nat}

/-- Two ranges of slots that are there are copied one onto the other as if all of the first were read
before any of the second is written, whether they are apart, touch, overlap on either side or are the
same. -/
theorem copyWithin_pointwise (hs : source + count ≤ slots.size) (ht : target + count ≤ slots.size) :
    ∃ after, slots.copyWithin source target count = .ok after ∧
      (∀ i, i < count → after[target + i]? = slots[source + i]?) ∧
      (∀ index, index < target ∨ target + count ≤ index → after[index]? = slots[index]?) ∧
      after.size = slots.size := by
  obtain ⟨after, hcopied, hpointwise⟩ := copyWithin_of_le hs ht
  refine ⟨after, hcopied, fun i hi => ?_, fun index hout => ?_, size_copyWithin hcopied⟩
  · have hin : target ≤ target + i ∧ target + i < target + count := by omega
    rw [hpointwise, if_pos hin, Nat.add_sub_cancel_left]
  · have hnot : ¬ (target ≤ index ∧ index < target + count) := by omega
    rw [hpointwise, if_neg hnot]

/-- Four of seven slots are copied two to the right, over half of themselves, and from there back to
the left. -/
theorem copyWithin_there_and_back :
    let slots : Slots := #[1, 2, 3, 4, 5, 0, 0]
    let there : Slots := #[1, 2, 3, 2, 3, 4, 5]
    let back : Slots := #[1, 2, 3, 4, 5, 4, 5]
    (1 + 4 ≤ slots.size ∧ 3 + 4 ≤ slots.size) ∧
      (slots.copyWithin 1 3 4 = .ok there ∧ (∀ i, i < 4 → there[3 + i]? = slots[1 + i]?) ∧
        ∀ index, index < 3 ∨ 3 + 4 ≤ index → there[index]? = slots[index]?) ∧
      (there.copyWithin 3 1 4 = .ok back ∧ (∀ i, i < 4 → back[1 + i]? = there[3 + i]?) ∧
        ∀ index, index < 1 ∨ 1 + 4 ≤ index → back[index]? = there[index]?) := by
  intro slots there back
  have hright : slots.copyWithin 1 3 4 = .ok there := rfl
  have hleft : there.copyWithin 3 1 4 = .ok back := rfl
  obtain ⟨after, hcopied, hmoved, hkept, -⟩ :=
    @copyWithin_pointwise slots 1 3 4 (by decide) (by decide)
  obtain ⟨after', hcopied', hmoved', hkept', -⟩ :=
    @copyWithin_pointwise there 3 1 4 (by decide) (by decide)
  obtain rfl : there = after := Except.ok.inj (hright.symm.trans hcopied)
  obtain rfl : back = after' := Except.ok.inj (hleft.symm.trans hcopied')
  exact ⟨⟨by decide, by decide⟩, ⟨hright, hmoved, hkept⟩, hleft, hmoved', hkept'⟩

end SnapList.Slots
