/-
  A list as a plain sequence.

  The reference has no lock, no buffers and no loops: a sequence of all slots, of which the first
  `len` are the elements, and the element for "no entry". Every call overwrites one run of slots,
  after it has appended slots without entry if too few are there (`Sequence.step`). A call that is
  refused leaves the sequence as it is.

  Main statements: what the loops over the slots do is to overwrite one run of them, for values
  that are stored (`toList_storeAll`), a fill (`toList_fill`) and a move (`toList_copyWithin`),
  also where the two ranges of the move overlap.
-/
import SnapList.LiveList.Mutation
import SnapList.Slots.Pointwise

namespace SnapList

open LiveList (Mutation)

/-- All slots of a list, the number of its elements, and the element for "no entry". -/
structure Sequence where
  slots : List Int64
  len : Nat
  noEntry : Int64
  deriving DecidableEq

/-- `values` written over the slots from `start` on. -/
def overwrite (slots : List Int64) (start : Nat) (values : List Int64) : List Int64 :=
  slots.take start ++ values ++ slots.drop (start + values.length)

namespace Sequence

/-- The sequence with at least `required` slots. One that has fewer is doubled up to the limit, or
extended as far as is required. -/
def withRoom (sequence : Sequence) (required : Nat) : Sequence :=
  if required ≤ sequence.slots.length then sequence
  else
    { sequence with
      slots := sequence.slots ++
        List.replicate (max (min (2 * sequence.slots.length) maxCapacity) required -
          sequence.slots.length) sequence.noEntry }

/-- No sequence is extended beyond the limit. -/
def reserve (sequence : Sequence) (required : Nat) : Except Refusal Sequence :=
  if required ≤ maxCapacity then .ok (sequence.withRoom required)
  else .error (.invalidCapacity required)

def append (sequence : Sequence) (values : List Int64) : Except Refusal Sequence :=
  (sequence.reserve (Word.satAdd sequence.len values.length)).map fun roomy =>
    { roomy with
      slots := overwrite roomy.slots sequence.len values
      len := sequence.len + values.length }

/-- The sequence after a call. An unchecked write relies on the caller's promise. -/
def step (sequence : Sequence) : Mutation → Except Refusal Sequence
  | .set index value =>
    if index < sequence.len then
      .ok { sequence with slots := overwrite sequence.slots index [value] }
    else .error (.outOfRange index sequence.len)
  | .setUnchecked index value =>
    .ok { sequence with slots := overwrite sequence.slots index [value] }
  | .push value => sequence.append [value]
  | .extend values => sequence.append values
  | .insert start count =>
    if start ≤ sequence.len then
      (sequence.reserve (Word.satAdd sequence.len count)).map fun roomy =>
        { roomy with
          slots := overwrite roomy.slots start
            (List.replicate count sequence.noEntry ++ (roomy.slots.take sequence.len).drop start)
          len := sequence.len + count }
    else .error (.outOfRange start sequence.len)
  | .copyRange source target count =>
    if Word.satAdd source count ≤ sequence.slots.length then
      if Word.satAdd target count ≤ sequence.slots.length then
        .ok { sequence with
          slots := overwrite sequence.slots target ((sequence.slots.drop source).take count) }
      else .error (.outOfRange (Word.satAdd target count) sequence.slots.length)
    else .error (.outOfRange (Word.satAdd source count) sequence.slots.length)
  | .resize newLen =>
    (sequence.reserve newLen).map fun roomy =>
      { roomy with
        slots := overwrite roomy.slots sequence.len
          (List.replicate (newLen - sequence.len) sequence.noEntry)
        len := newLen }
  | .clear => .ok { sequence with len := 0 }

end Sequence

/-! ## Overwriting -/

theorem getElem?_overwrite {slots values : List Int64} {start : Nat}
    (h : start + values.length ≤ slots.length) (index : Nat) :
    (overwrite slots start values)[index]? =
      if start ≤ index ∧ index < start + values.length then values[index - start]?
      else slots[index]? := by
  have hlen : (slots.take start).length = start := by
    rw [List.length_take]
    omega
  unfold overwrite
  rw [List.append_assoc, List.getElem?_append, hlen]
  by_cases h1 : index < start
  · rw [if_pos h1, if_neg (by omega), List.getElem?_take, if_pos h1]
  · rw [if_neg h1, List.getElem?_append]
    by_cases h2 : index - start < values.length
    · rw [if_pos h2, if_pos (by omega)]
    · have e : start + values.length + (index - start - values.length) = index := by omega
      rw [if_neg h2, if_neg (by omega), List.getElem?_drop, e]

theorem length_overwrite {slots values : List Int64} {start : Nat}
    (h : start + values.length ≤ slots.length) :
    (overwrite slots start values).length = slots.length := by
  simp only [overwrite, List.length_append, List.length_take, List.length_drop]
  omega

@[simp] theorem overwrite_nil (slots : List Int64) (start : Nat) :
    overwrite slots start [] = slots := by
  simp [overwrite]

/-- Two runs that meet are overwritten as one. -/
theorem overwrite_overwrite {slots first second : List Int64} {start middle : Nat}
    (hm : middle = start + first.length) (h : middle + second.length ≤ slots.length) :
    overwrite (overwrite slots middle second) start first =
      overwrite slots start (first ++ second) := by
  apply List.ext_getElem?
  intro index
  rw [getElem?_overwrite (by rw [length_overwrite h]; omega), getElem?_overwrite h,
    getElem?_overwrite (by rw [List.length_append]; omega), List.length_append,
    List.getElem?_append]
  by_cases h1 : start ≤ index ∧ index < start + first.length
  · rw [if_pos h1, if_pos (by omega), if_pos (by omega)]
  · rw [if_neg h1]
    by_cases h2 : middle ≤ index ∧ index < middle + second.length
    · have e : index - start - first.length = index - middle := by omega
      rw [if_pos h2, if_pos (by omega), if_neg (by omega), e]
    · rw [if_neg h2, if_neg (by omega)]

namespace Slots

/-- To overwrite a run of slots is to change them one by one. -/
theorem toList_eq_overwrite {slots after : Slots} {start : Nat} {values : List Int64}
    (h : start + values.length ≤ slots.size)
    (hp : ∀ index, after[index]? =
      if start ≤ index ∧ index < start + values.length then values[index - start]?
      else slots[index]?) : after.toList = overwrite slots.toList start values := by
  have hs : ∀ index : Nat, slots.toList[index]? = slots[index]? := fun _ => Array.getElem?_toList
  refine List.ext_getElem? fun index => ?_
  rw [getElem?_overwrite (by simpa using h), hs, ← hp]
  exact Array.getElem?_toList

theorem toList_storeAll {slots : Slots} {start : Nat} {values : List Int64}
    (h : start + values.length ≤ slots.size) :
    ∃ after, slots.storeAll start values = .ok after ∧
      after.toList = overwrite slots.toList start values := by
  obtain ⟨after, ha⟩ := storeAll_of_le h
  exact ⟨after, ha, toList_eq_overwrite h (getElem?_storeAll ha)⟩

theorem toList_fill {slots : Slots} {start stop : Nat} (value : Int64) (hs : start ≤ stop)
    (h : stop ≤ slots.size) :
    ∃ after, slots.fill start stop value = .ok after ∧
      after.toList = overwrite slots.toList start (List.replicate (stop - start) value) := by
  have hfill : slots.fill start stop value = .ok (slots.fillFrom value start (stop - start)) := by
    rw [fill, if_neg (Nat.not_lt.2 hs), if_neg (Nat.not_lt.2 h)]
  refine ⟨_, hfill, toList_eq_overwrite (by simp; omega) fun index => ?_⟩
  rw [getElem?_fillFrom _ _ _ _ _ (by omega), List.length_replicate]
  split
  · rw [List.getElem?_replicate, if_pos (by omega)]
  · rfl

theorem toList_copyWithin {slots : Slots} (source target count : Nat)
    (hs : source + count ≤ slots.size) (ht : target + count ≤ slots.size) :
    ∃ after, slots.copyWithin source target count = .ok after ∧
      after.toList = overwrite slots.toList target ((slots.toList.drop source).take count) := by
  have hlen : ((slots.toList.drop source).take count).length = count := by
    rw [List.length_take, List.length_drop, Array.length_toList]
    omega
  obtain ⟨after, hcopied, hpointwise⟩ := copyWithin_of_le hs ht
  refine ⟨after, hcopied, toList_eq_overwrite (by rw [hlen]; exact ht) fun index => ?_⟩
  rw [hpointwise, hlen]
  split
  · rw [List.getElem?_take, if_pos (by omega), List.getElem?_drop, Array.getElem?_toList]
  · rfl

end Slots

end SnapList
