/-
  A list as a row of elements.

  The sequence still has slots behind its elements. A ROW has none: it is the elements alone, with
  the element for "no entry", and every call makes another row of it (`Row.step`). Only a range that
  is copied from behind the elements would have to be looked up in the slots, so both ranges of a
  copy are asked to lie WITHIN the elements.

  Main statement: a mutation of a sound list within its elements answers what the row answers, and
  makes of its elements what the row says (`call_row`).
-/
import SnapList.Proofs.LiveList.Refinement

namespace SnapList

open LiveList (Mutation)

/-- The elements of a list, and the element for "no entry". -/
structure Row where
  elements : List Int64
  noEntry : Int64
  deriving DecidableEq

namespace Row

/-- The row with other elements, if a list may have `required` slots. -/
def allow (row : Row) (required : Nat) (elements : List Int64) : Except Refusal Row :=
  if required ≤ maxCapacity then .ok { row with elements } else .error (.invalidCapacity required)

def append (row : Row) (values : List Int64) : Except Refusal Row :=
  row.allow (Word.satAdd row.elements.length values.length) (row.elements ++ values)

/-- The row after a call. A copied range relies on lying within the elements, and an unchecked write
on the caller's promise. -/
def step (row : Row) : Mutation → Except Refusal Row
  | .set index value =>
    if index < row.elements.length then
      .ok { row with elements := overwrite row.elements index [value] }
    else .error (.outOfRange index row.elements.length)
  | .setUnchecked index value => .ok { row with elements := overwrite row.elements index [value] }
  | .push value => row.append [value]
  | .extend values => row.append values
  | .insert start count =>
    if start ≤ row.elements.length then
      row.allow (Word.satAdd row.elements.length count)
        (row.elements.take start ++ List.replicate count row.noEntry ++ row.elements.drop start)
    else .error (.outOfRange start row.elements.length)
  | .copyRange source target count =>
    .ok { row with
      elements := overwrite row.elements target ((row.elements.drop source).take count) }
  | .resize len =>
    row.allow len
      (row.elements.take len ++ List.replicate (len - row.elements.length) row.noEntry)
  | .clear => .ok { row with elements := [] }

/-- The row after a call; one that is refused leaves it as it is. -/
def after (row : Row) (mutation : Mutation) : Row :=
  match row.step mutation with
  | .ok next => next
  | .error _ => row

def answer (row : Row) (mutation : Mutation) : Except Failure Unit :=
  match row.step mutation with
  | .ok _ => .ok ()
  | .error reason => .error (.refused reason)

end Row

/-- What a mutation copies, or writes unchecked, lies within the first `len` slots. -/
def LiveList.Mutation.Within (len : Nat) : Mutation → Prop
  | .copyRange source target count => source + count ≤ len ∧ target + count ≤ len
  | .setUnchecked index _ => index < len
  | _ => True

/-! ## The first slots of a sequence -/

/-- What is written over the first `len` slots is written over them alone. -/
theorem take_overwrite_of_le {slots values : List Int64} {start len : Nat}
    (h : start + values.length ≤ len) (hlen : len ≤ slots.length) :
    (overwrite slots start values).take len = overwrite (slots.take len) start values := by
  apply List.ext_getElem?
  intro index
  rw [List.getElem?_take, getElem?_overwrite (by omega),
    getElem?_overwrite (by rw [List.length_take]; omega), List.getElem?_take]
  split <;> split <;> first | rfl | omega

/-- What is written over the slots from `start` on ends the slots up to there. -/
theorem take_overwrite_of_eq {slots values : List Int64} {start len : Nat}
    (h : len = start + values.length) (hlen : start ≤ slots.length) :
    (overwrite slots start values).take len = slots.take start ++ values := by
  have hstart : (slots.take start ++ values).length = len := by
    rw [List.length_append, List.length_take, h]
    omega
  unfold overwrite
  exact List.take_left' hstart

namespace Sequence

def row (sequence : Sequence) : Row := ⟨sequence.slots.take sequence.len, sequence.noEntry⟩

variable {sequence : Sequence} {mutation : Mutation}

theorem length_row (h : sequence.len ≤ sequence.slots.length) :
    sequence.row.elements.length = sequence.len := by
  unfold row
  rw [List.length_take]
  omega

theorem withRoom_eq (sequence : Sequence) (required : Nat) :
    ∃ more, sequence.withRoom required = { sequence with slots := sequence.slots ++ more } ∧
      required ≤ (sequence.slots ++ more).length := by
  unfold withRoom
  split
  · exact ⟨[], by rw [List.append_nil], by rwa [List.append_nil]⟩
  · refine ⟨_, rfl, ?_⟩
    rw [List.length_append, List.length_replicate]
    omega

/-- A call that makes room makes of the row what it makes of the elements, if that is the same
whatever is behind them. -/
theorem row_reserve {required len : Nat} {elements : List Int64}
    (slots : List Int64 → List Int64)
    (h : ∀ more, required ≤ maxCapacity → required ≤ (sequence.slots ++ more).length →
      (slots (sequence.slots ++ more)).take len = elements) :
    ((sequence.reserve required).map fun roomy =>
        { roomy with slots := slots roomy.slots, len }).map row =
      sequence.row.allow required elements := by
  unfold reserve Row.allow
  by_cases hr : required ≤ maxCapacity
  · obtain ⟨more, hmore, hroom⟩ := sequence.withRoom_eq required
    rw [if_pos hr, if_pos hr, hmore, ← h more hr hroom]
    rfl
  · rw [if_neg hr, if_neg hr]
    rfl

theorem take_more (hlen : sequence.len ≤ sequence.slots.length) (more : List Int64) :
    (sequence.slots ++ more).take sequence.len = sequence.row.elements :=
  List.take_append_of_le_length hlen

theorem row_append (hlen : sequence.len ≤ sequence.slots.length) (values : List Int64) :
    (sequence.append values).map row = sequence.row.append values := by
  unfold append Row.append
  rw [length_row hlen]
  refine row_reserve (fun slots => overwrite slots sequence.len values) fun more hr hroom => ?_
  rw [take_overwrite_of_eq rfl (by rw [List.length_append]; omega), take_more hlen]

theorem row_overwrite (hlen : sequence.len ≤ sequence.slots.length) {start : Nat}
    {values : List Int64} (h : start + values.length ≤ sequence.len) :
    row { sequence with slots := overwrite sequence.slots start values } =
      { sequence.row with elements := overwrite sequence.row.elements start values } := by
  unfold row
  rw [take_overwrite_of_le h hlen]

theorem row_insert (hlen : sequence.len ≤ sequence.slots.length) (start count : Nat) :
    (sequence.step (.insert start count)).map row = sequence.row.step (.insert start count) := by
  simp only [step, Row.step, length_row hlen]
  split
  · rename_i hstart
    refine row_reserve (fun slots => overwrite slots start
      (List.replicate count sequence.noEntry ++ (slots.take sequence.len).drop start))
      fun more hr hroom => ?_
    have hvalues : sequence.len + count =
        start + (List.replicate count sequence.noEntry ++ sequence.row.elements.drop start).length := by
      rw [List.length_append, List.length_replicate, List.length_drop, length_row hlen]
      omega
    have hfront : (sequence.slots ++ more).take start = sequence.row.elements.take start := by
      rw [← take_more hlen more, List.take_take, Nat.min_eq_left hstart]
    rw [take_more hlen, take_overwrite_of_eq hvalues (by rw [List.length_append]; omega), hfront,
      List.append_assoc]
    rfl
  · rfl

theorem row_resize (hlen : sequence.len ≤ sequence.slots.length) (newLen : Nat) :
    (sequence.step (.resize newLen)).map row = sequence.row.step (.resize newLen) := by
  simp only [step, Row.step, length_row hlen]
  refine row_reserve (fun slots => overwrite slots sequence.len
    (List.replicate (newLen - sequence.len) sequence.noEntry)) fun more hr hroom => ?_
  rcases Nat.lt_or_ge newLen sequence.len with hlt | hge
  · have hnone : newLen - sequence.len = 0 := by omega
    rw [hnone, List.replicate_zero, List.replicate_zero, overwrite_nil, List.append_nil,
      ← take_more hlen more, List.take_take, Nat.min_eq_left (Nat.le_of_lt hlt)]
  · have hvalues : newLen =
        sequence.len + (List.replicate (newLen - sequence.len) sequence.noEntry).length := by
      rw [List.length_replicate]
      omega
    have hall : sequence.row.elements.take newLen = sequence.row.elements :=
      List.take_of_length_le (by rw [length_row hlen]; exact hge)
    rw [take_overwrite_of_eq hvalues (by rw [List.length_append]; omega), take_more hlen, hall]
    rfl

/-- A call makes of the elements what it makes of the row, whatever is behind them. -/
theorem row_step (hlen : sequence.len ≤ sequence.slots.length)
    (hw : mutation.Within sequence.len) :
    (sequence.step mutation).map row = sequence.row.step mutation := by
  cases mutation with
  | set index value =>
    simp only [step, Row.step, length_row hlen]
    split
    · rename_i hi
      exact congrArg Except.ok (row_overwrite hlen hi)
    · rfl
  | setUnchecked index value => exact congrArg Except.ok (row_overwrite hlen hw)
  | push value => exact row_append hlen [value]
  | extend values => exact row_append hlen values
  | insert start count => exact row_insert hlen start count
  | copyRange source target count =>
    obtain ⟨hsource, htarget⟩ := hw
    have hroom : ∀ start, start + count ≤ sequence.len →
        Word.satAdd start count ≤ sequence.slots.length := by
      intro start hstart
      unfold Word.satAdd
      omega
    have hcopied : (sequence.slots.drop source).take count =
        (sequence.row.elements.drop source).take count := by
      unfold row
      rw [List.drop_take, List.take_take, Nat.min_eq_left (by omega)]
    have hlength : target + ((sequence.slots.drop source).take count).length ≤ sequence.len := by
      rw [List.length_take]
      omega
    simp only [step, Row.step, if_pos (hroom _ hsource), if_pos (hroom _ htarget)]
    rw [← hcopied]
    exact congrArg Except.ok (row_overwrite hlen hlength)
  | resize newLen => exact row_resize hlen newLen
  | clear => rfl

theorem row_after (hlen : sequence.len ≤ sequence.slots.length)
    (hw : mutation.Within sequence.len) :
    (sequence.after mutation).row = sequence.row.after mutation := by
  unfold after Row.after
  rw [← row_step hlen hw]
  cases sequence.step mutation <;> rfl

theorem answer_row (hlen : sequence.len ≤ sequence.slots.length)
    (hw : mutation.Within sequence.len) :
    sequence.row.answer mutation = sequence.answer mutation := by
  unfold answer Row.answer
  rw [← row_step hlen hw]
  cases sequence.step mutation <;> rfl

end Sequence

namespace LiveList

variable {ρ : Type} {atPin : AtPin ρ} {list : LiveList} {mutation : Mutation}

def toRow (list : LiveList) : Row := ⟨list.elements, list.noEntry⟩

theorem Mutation.Within.promised (hw : mutation.Within list.len) :
    mutation.promised list = .ok () := by
  cases mutation with
  | setUnchecked index value => exact if_pos hw
  | _ => rfl

/-- A mutation within the elements does to them what it does to the row, and leaves a sound list. -/
theorem call_row (hp : atPin.Passive) (hs : list.Sound) (hf : list.lock.isLocked = false)
    (hw : mutation.Within list.len) :
    (mutation.call atPin list).result = list.toRow.answer mutation ∧
      (mutation.call atPin list).list.toRow = list.toRow.after mutation ∧
      (mutation.call atPin list).list.Sound := by
  obtain ⟨hresult, hsequence, hsound⟩ := call_refines hp hs hf hw.promised
  have hlen : list.sequence.len ≤ list.sequence.slots.length := hs.len_le
  refine ⟨?_, ?_, hsound⟩
  · rw [hresult]
    exact (Sequence.answer_row hlen hw).symm
  · have hrow := congrArg Sequence.row hsequence
    exact hrow.trans (Sequence.row_after hlen hw)

end LiveList

end SnapList
