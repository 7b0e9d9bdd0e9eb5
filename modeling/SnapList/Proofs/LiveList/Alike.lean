/-
  Lists with the same elements.

  Two lists are ALIKE if they have the same elements and the same element for "no entry"; how many
  slots they have, what stands behind the elements, and their stamps do not matter. A question is
  LOGICAL if it is about elements. Of a block search it is also asked that its block size and its
  offset leave block numbers in the range of a word.

  Main statements: sound lists that are alike answer every logical question alike
  (`Alike.answer_eq`), and their snapshots are equal and feed the same to a hasher
  (`Alike.snapshots_agree`).
-/
import SnapList.Proofs.LiveList.Write
import SnapList.Proofs.Search.Extent
import SnapList.Proofs.Snapshot.Race

namespace SnapList.LiveList

/-- The lists have the same elements, and the same element for "no entry". -/
structure Alike (first second : LiveList) : Prop where
  len : first.len = second.len
  noEntry : first.noEntry = second.noEntry
  elements : first.elements = second.elements

/-- The question is about elements: neither about capacity nor about the stamp. -/
def Read.Logical : Read → Prop
  | .properties | .describe _ => False
  | .find query => query.shl ≤ 62 ∧ query.offset ≤ 2 ^ 63 - 2
  | _ => True

/-- The snapshots of both lists are taken in one attempt, are equal, and feed the same to a
hasher. -/
def SnapshotsAgree (first second : LiveList) : Prop :=
  let one := Scene.toSnapshot { list := first } []
  let other := Scene.toSnapshot { list := second } []
  one.result = .ok 0 ∧ other.result = .ok 0 ∧ one.cache.equal other.cache = true ∧
    one.cache.fed = other.cache.fed

variable {first second : LiveList}

/-! ## Reading -/

/-- The element at an index is in the slot with that number, in both lists. -/
theorem Alike.load_eq (h : first.Alike second) (h1 : first.Sound) {index : Nat}
    (hi : index < first.len) : first.slots.load index = second.slots.load index := by
  have hsame : first.slots[index]? = second.slots[index]? := by
    have helements := congrArg (·[index]?) h.elements
    simpa [Contents.getElem?_elements, hi, h.len ▸ hi] using helements
  have hlt : index < first.slots.size := Nat.lt_of_lt_of_le hi h1.len_le
  obtain ⟨value, hvalue⟩ : ∃ value, first.slots[index]? = some value :=
    ⟨_, Array.getElem?_eq_getElem hlt⟩
  rw [Slots.load_eq_ok_iff.2 hvalue, Slots.load_eq_ok_iff.2 (hsame.symm.trans hvalue)]

theorem Alike.find_eq (h : first.Alike second) (h1 : first.Sound) {query : Search.Query}
    (hshl : query.shl ≤ 62) (hoffset : query.offset ≤ 2 ^ 63 - 2) :
    first.find query = second.find query := by
  have hcap := h1.capacity_le
  have hlen := h1.len_le
  have hallowed : query.Allowed first.slots first.len :=
    ⟨hlen, by unfold maxCapacity at hcap; omega, hshl, hoffset⟩
  unfold Contents.find Search.Column.find
  rw [← h.len]
  refine Search.findWith_congr hallowed .tuned fun block hb => ?_
  exact h.load_eq h1 (Search.lt_blockCount_iff.1 hb)

theorem Alike.get_eq (h : first.Alike second) (h1 : first.Sound) (index : Nat) :
    first.get index = second.get index := by
  unfold Contents.get
  rw [← h.len]
  split
  · rw [h.load_eq h1 (by assumption)]
  · rfl

theorem Alike.getUnchecked_eq (h : first.Alike second) (h1 : first.Sound) (index : Nat) :
    first.getUnchecked index = second.getUnchecked index := by
  unfold Contents.getUnchecked
  rw [← h.len]
  split
  · rw [h.load_eq h1 (by assumption)]
  · rfl

theorem Alike.indexOf_eq (h : first.Alike second) (value : Int64) :
    first.indexOf value = second.indexOf value := by
  unfold Contents.indexOf
  rw [h.elements]

theorem Alike.display_eq (h : first.Alike second) : first.display = second.display := by
  unfold Contents.display
  rw [h.elements]

theorem Alike.answer_eq (h : first.Alike second) (h1 : first.Sound) {question : Read}
    (hq : question.Logical) : question.answer first = question.answer second := by
  cases question with
  | properties | describe => exact absurd hq id
  | get index => simp only [Read.answer, h.get_eq h1]
  | getUnchecked index => simp only [Read.answer, h.getUnchecked_eq h1]
  | indexOf value => simp only [Read.answer, h.indexOf_eq]
  | find query => simp only [Read.answer, h.find_eq h1 hq.1 hq.2]
  | display => simp only [Read.answer, h.display_eq]

/-! ## Snapshots -/

theorem toSnapshot_of_free {list : LiveList} (hf : list.lock.isLocked = false) :
    Scene.toSnapshot { list } [] = { scene := { list }, cache := list.observed, result := .ok 0 } :=
  Scene.capture_nil hf

theorem Alike.snapshots_agree (h : first.Alike second) (h1 : first.Sound) (h2 : second.Sound)
    (hf1 : first.lock.isLocked = false) (hf2 : second.lock.isLocked = false) :
    first.SnapshotsAgree second := by
  have hequal : first.observed.equal second.observed = true :=
    Snapshot.equal_iff.2 ⟨h.noEntry, h.elements⟩
  unfold SnapshotsAgree
  rw [toSnapshot_of_free hf1, toSnapshot_of_free hf2]
  exact ⟨rfl, rfl, hequal, Snapshot.fed_eq_of_equal hequal h1.len_le h2.len_le⟩

end SnapList.LiveList
