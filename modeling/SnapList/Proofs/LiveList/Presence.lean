/-
  Whether a key is there, read off the sign of an answer.

  A search of a list from its first block on tells a hit by a number that is not negative and a miss
  by a negative one. Blocks may have up to `2 ^ 63` elements, and of blocks of that size a list has
  only one. A new block behind it would begin at `2 ^ 63`, which is no signed word: the shift drops
  that bit, and the miss is told by the largest word.

  Main statements: the sign of an answer tells whether some block has the key, but for a key above
  that of a block of `2 ^ 63` elements (`find_nonneg_iff`), where it does not (`find_single_nonneg`).
-/
import SnapList.Proofs.LiveList.Blocks

namespace SnapList

namespace Search

variable {keys : List Int64}

theorem linear_singleton (key value : Int64) (direction : Direction) :
    Verdict.linear [key] 0 value direction =
      if key = value then .hit 0 else if key < value then .miss 1 else .miss 0 := by
  by_cases he : key = value
  · have hhits : hits [key] 0 value = [0] := by simp [hits, he]
    rw [if_pos he]
    cases direction with
    | up => simp only [Verdict.linear, hhits, List.head?_cons, Int.natCast_zero]
    | down => simp only [Verdict.linear, hhits, List.getLast?_singleton, Int.natCast_zero]
  · have hhits : hits [key] 0 value = [] := by simp [hits, he]
    have hplace : place [key] 0 value = if key < value then 1 else 0 := by
      unfold place
      by_cases hlt : key < value <;> simp [hlt]
    have hpos : 0 < [key].length := Nat.one_pos
    rw [if_neg he]
    cases direction with
    | up =>
      simp only [Verdict.linear, hhits, List.head?_nil, if_pos hpos, hplace]
      split <;> rfl
    | down =>
      simp only [Verdict.linear, hhits, List.getLast?_nil, if_pos hpos, hplace]
      split <;> rfl

/-- The place behind a block of `2 ^ 63` elements is told by the largest word. -/
theorem report_miss_widest (column : Column) :
    Blocks.report ⟨column, 63⟩ (.miss 1) = .ok 9223372036854775807 := by
  have hstart : Blocks.start ⟨column, 63⟩ 1 = -9223372036854775808 := by
    show Word.shiftLeft 1 63 = _
    decide +kernel
  simp only [Blocks.report, Blocks.miss, hstart]
  decide +kernel

/-- Where the blocks end at a signed word, the sign of the number says whether one has the key. -/
theorem report_linear_nonneg_iff (column : Column) {shl : Nat} (value : Int64)
    (direction : Direction) (hfit : keys.length * 2 ^ shl ≤ 2 ^ 62) :
    ∃ answer, Blocks.report ⟨column, shl⟩ (Verdict.linear keys 0 value direction) = .ok answer ∧
      (0 ≤ answer ↔ value ∈ keys) := by
  obtain ⟨h0, hle⟩ := linear_block_le keys 0 value direction
  obtain ⟨block, hblock⟩ := Int.eq_ofNat_of_zero_le h0
  rw [hblock] at hle
  have hmul := Nat.mul_le_mul_right (2 ^ shl) (show block ≤ keys.length by omega)
  refine ⟨_, report_eq_encode h0 ?_, ?_⟩
  · rw [hblock, ← two_pow_cast, ← Int.natCast_mul]
    omega
  · rw [encode_linear_nonneg_iff, List.mem_iff_getElem?]
    exact exists_congr fun block => and_iff_right (Nat.zero_le block)

/-- With a single block of `2 ^ 63` elements the number is not negative for larger keys either. -/
theorem report_linear_nonneg_iff_of_widest (column : Column) (value : Int64)
    (direction : Direction) (hone : keys.length ≤ 1) :
    ∃ answer, Blocks.report ⟨column, 63⟩ (Verdict.linear keys 0 value direction) = .ok answer ∧
      (0 ≤ answer ↔ value ∈ keys ∨ ∃ key ∈ keys, key < value) := by
  match keys, hone with
  | [], _ =>
    have hmiss : Verdict.linear [] 0 value direction = .miss 0 := by
      cases direction with
      | up => rfl
      | down => rfl
    rw [hmiss]
    exact ⟨-1, report_eq_encode (Int.le_refl _) (by decide), by simp⟩
  | [key], _ =>
    rw [linear_singleton]
    split
    · rename_i he
      exact ⟨0, report_eq_encode (Int.le_refl _) (by decide), by simp [he]⟩
    · rename_i hne
      split
      · rename_i hlt
        exact ⟨_, report_miss_widest column, by simp [hlt]⟩
      · rename_i hge
        exact ⟨-1, report_eq_encode (Int.le_refl _) (by decide), by simp [hge, Ne.symm hne]⟩

end Search

namespace LiveList

open Search (Direction Verdict)

variable {list : LiveList} {shl : Nat}

/-- From the first block on, a search of a list whose keys ascend reports the verdict of the
reference, also where blocks are too large for it to be told. -/
theorem find_eq_report (hlen : list.len ≤ list.capacity) (hcap : list.capacity ≤ maxCapacity)
    (hshl : shl < 64) (ha : (list.keys shl).Pairwise (· ≤ ·)) (value : Int64)
    (direction : Direction) :
    list.find ⟨0, shl, value, direction⟩ =
      Search.Blocks.report ⟨Search.Column.ofSlots list.slots, shl⟩
        (Verdict.linear (list.keys shl) 0 value direction) := by
  have hsmall : list.len ≤ 2 ^ 62 := by
    unfold maxCapacity at hcap
    omega
  have hfloor : (⟨0, shl, value, direction⟩ : Search.Query).floor = 0 := Nat.zero_div _
  have hkeys : (list.keys shl).length = Search.blockCount list.len shl :=
    Search.length_blockKeys _ _ _
  have hcount := Search.blockCount_le list.len shl
  have hr := Search.reads_ofSlots shl hlen hsmall
  unfold Contents.find Search.Column.find
  rw [Search.findWith_eq_search _ _ hsmall hshl (Nat.zero_le _), hfloor]
  simp only
  rw [← hkeys] at hr hcount ⊢
  refine Search.search_eq_report_linear .tuned value direction ?_ hr ha ?_
  · exact ⟨by omega, by omega, by omega, by omega⟩
  · intro _ block hlt
    exact absurd hlt (Nat.not_lt_zero _)

/-- In a search of a list from its first block on, an answer that is not negative says that some
block has the key. Alone with a block size of `2 ^ 63` it says so as well of a key that is larger
than that of the only block. -/
theorem find_nonneg_iff (hlen : list.len ≤ list.capacity) (hcap : list.capacity ≤ maxCapacity)
    (hshl : shl < 64) (ha : (list.keys shl).Pairwise (· ≤ ·)) (value : Int64)
    (direction : Direction) :
    ∃ answer, list.find ⟨0, shl, value, direction⟩ = .ok answer ∧
      (0 ≤ answer ↔
        value ∈ list.keys shl ∨ (shl = 63 ∧ ∃ key ∈ list.keys shl, key < value)) := by
  have hkeys : (list.keys shl).length = Search.blockCount list.len shl :=
    Search.length_blockKeys _ _ _
  unfold maxCapacity at hcap
  rw [find_eq_report hlen hcap hshl ha]
  rcases Nat.lt_or_ge shl 63 with hlt | hge
  · have hfit := Search.blockCount_mul_le (show list.len ≤ 2 ^ 62 by omega) (Nat.le_of_lt_succ hlt)
    rw [← hkeys] at hfit
    obtain ⟨answer, hreport, hiff⟩ :=
      Search.report_linear_nonneg_iff (Search.Column.ofSlots list.slots) value direction hfit
    refine ⟨answer, hreport, hiff.trans ?_⟩
    exact (or_iff_left fun h => absurd h.1 (Nat.ne_of_lt hlt)).symm
  · obtain rfl : shl = 63 := by omega
    have hone : (list.keys 63).length ≤ 1 := by
      rw [hkeys]
      refine Nat.not_lt.1 fun hlt => ?_
      have := Search.lt_blockCount_iff.1 hlt
      omega
    obtain ⟨answer, hreport, hiff⟩ :=
      Search.report_linear_nonneg_iff_of_widest (Search.Column.ofSlots list.slots) value direction
        hone
    refine ⟨answer, hreport, hiff.trans ?_⟩
    exact or_congr_right (and_iff_right rfl).symm

/-- The list of one element has no block with key 7. With blocks of `2 ^ 62` elements the answer to a
search for it is negative, and with blocks of `2 ^ 63` it is not, because 7 is larger than the key
that is there. -/
theorem single_nonneg_iff :
    single.len ≤ single.capacity ∧ single.capacity ≤ maxCapacity ∧
      (single.keys 62).Pairwise (· ≤ ·) ∧ (single.keys 63).Pairwise (· ≤ ·) ∧
      (∃ answer, single.find ⟨0, 62, 7, .down⟩ = .ok answer ∧ ¬ 0 ≤ answer) ∧
      (∃ answer, single.find ⟨0, 63, 7, .down⟩ = .ok answer ∧ 0 ≤ answer) := by
  have hlen : single.len ≤ single.capacity := by decide
  have hcap : single.capacity ≤ maxCapacity := by decide
  have ha : (single.keys 62).Pairwise (· ≤ ·) := by decide +kernel
  have ha' : (single.keys 63).Pairwise (· ≤ ·) := by decide +kernel
  obtain ⟨answer, hanswer, hiff⟩ := find_nonneg_iff hlen hcap (by decide) ha 7 .down
  obtain ⟨answer', hanswer', hiff'⟩ := find_nonneg_iff hlen hcap (by decide) ha' 7 .down
  have habsent : ¬ (7 ∈ single.keys 62 ∨ (62 = 63 ∧ ∃ key ∈ single.keys 62, key < 7)) := by
    decide +kernel
  have hbelow : ∃ key ∈ single.keys 63, key < 7 := by decide +kernel
  exact ⟨hlen, hcap, ha, ha', ⟨answer, hanswer, mt hiff.1 habsent⟩,
    ⟨answer', hanswer', hiff'.2 (Or.inr ⟨rfl, hbelow⟩)⟩⟩

/-- So an answer that is not negative is no proof that the key is there. -/
theorem find_single_nonneg :
    single.Reachable ∧ single.len ≤ single.capacity ∧ single.capacity ≤ maxCapacity ∧
      (single.keys 63).Pairwise (· ≤ ·) ∧ 7 ∉ single.keys 63 ∧
      single.find ⟨0, 63, 7, .up⟩ = .ok 9223372036854775807 := by
  refine ⟨reachable_single, ?_, ?_, ?_, ?_, ?_⟩
  all_goals decide +kernel

end LiveList

end SnapList
