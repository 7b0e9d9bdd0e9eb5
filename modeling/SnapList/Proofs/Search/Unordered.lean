/-
  Searching keys in no order.

  A list that is read in the middle of a write, or that nobody has sorted, is searched like any
  other. Such a search may miss a key that is there. But it ends without a fault, reads no block
  behind the last one, and says nothing that is not so: a hit is a block that has the key, and a miss
  names a block between the floor and the end, as far as these leave room.

  Main statements: every search of blocks that can be read ends with a sound verdict
  (`Blocks.search_sound`), and so every query is answered, and soundly (`find_sound`).
-/
import SnapList.Proofs.Search.Layout

namespace SnapList.Search

/-- Where a search of the blocks from `low` up to `stop` may report a key as missing. With the floor
behind the end, it is the end for an upward search and the floor for a downward one. -/
def Direction.Spans (direction : Direction) (low stop block : Int) : Prop :=
  match direction with
  | up => min low stop ≤ block ∧ block ≤ stop
  | down => low ≤ block ∧ block ≤ max low stop

/-- What a verdict may say of the blocks from `low` up to `stop`, whatever the order of their keys.
An upward search may hit a block before `low`. -/
def Verdict.Sound (keys : Int → Int64) (value : Int64) (direction : Direction) (low stop : Int) :
    Verdict → Prop
  | .hit block => 0 ≤ block ∧ block < stop ∧ keys block = value
  | .miss block => direction.Spans low stop block

variable {keys : Int → Int64} {value : Int64} {direction : Direction}
  {low high low' stop block : Int} {verdict : Verdict}

/-! ## Verdicts -/

theorem Direction.Spans.nonneg (h : direction.Spans low stop block) (h0 : 0 ≤ low)
    (hs : 0 ≤ stop) : 0 ≤ block := by
  cases direction with
  | up => exact Int.le_trans (Int.le_min.2 ⟨h0, hs⟩) h.1
  | down => exact Int.le_trans h0 h.1

theorem Direction.Spans.le (h : direction.Spans low stop block) : block ≤ stop ∨ block ≤ low := by
  cases direction with
  | up => exact Or.inl h.2
  | down =>
    have := h.2
    omega

theorem Lowest.sound (h : Lowest keys value low' stop verdict) (h0 : 0 ≤ low) (hl : low ≤ low')
    (hs : stop ≤ high) : verdict.Sound keys value .up low high := by
  cases verdict with
  | hit block =>
    obtain ⟨h1, h2, h3, -⟩ := h
    exact ⟨by omega, by omega, h3⟩
  | miss block =>
    obtain ⟨h1, h2, -⟩ := h
    exact ⟨by omega, by omega⟩

theorem Highest.sound (h : Highest keys value low' stop verdict) (h0 : 0 ≤ low) (hl : low ≤ low')
    (hs : stop ≤ high) : verdict.Sound keys value .down low high := by
  cases verdict with
  | hit block =>
    obtain ⟨h1, h2, h3, -⟩ := h
    exact ⟨by omega, by omega, h3⟩
  | miss block =>
    obtain ⟨h1, h2, -⟩ := h
    exact ⟨by omega, by omega⟩

theorem Blocks.Ascent.sound {crossover : Crossover}
    (h : Ascent crossover keys value low high verdict) (h0 : 0 ≤ low) :
    verdict.Sound keys value .up low (high + 1) := by
  cases h with
  | scan hs h => exact h.sound h0 hs.1 (by have := hs.2.1; omega)
  | @scroll block top first hwide hs hf0 hle hrun hend =>
    obtain ⟨h1, h2, h3, -⟩ := hs
    exact ⟨hf0, by omega, hrun first (Int.le_refl _) hle⟩

theorem Blocks.Descent.sound (h : Descent keys value low high verdict) (h0 : 0 ≤ low) :
    verdict.Sound keys value .down low (high + 1) := by
  cases h with
  | scan hs h => exact h.sound h0 hs.1 (by have := hs.2.1; omega)
  | @scroll block top last hs hge hle hrun hend =>
    obtain ⟨h1, h2, h3, -⟩ := hs
    exact ⟨by omega, by omega, hrun last hge (Int.le_refl _)⟩

/-- A search of blocks that can be read ends, and with a sound verdict. -/
theorem Blocks.search_sound {blocks : Blocks} (crossover : Crossover) (value : Int64)
    (direction : Direction) (hw : Window low high) (hr : blocks.Reads keys 0 (high + 1)) :
    ∃ verdict, blocks.search crossover value direction low high = blocks.report verdict ∧
      verdict.Sound keys value direction low (high + 1) := by
  have h0 := hw.low_nonneg
  rcases Int.lt_or_le high low with hlt | hle
  · refine ⟨_, search_of_empty crossover value direction hw hlt, ?_⟩
    cases direction with
    | up => exact ⟨by simp only; omega, Int.le_refl _⟩
    | down => exact ⟨Int.le_refl _, by simp only; omega⟩
  · cases direction with
    | up =>
      obtain ⟨verdict, hv, hd⟩ := search_ascent crossover value hw hle hr
      exact ⟨verdict, hv, hd.sound h0⟩
    | down =>
      obtain ⟨verdict, hv, hd⟩ :=
        search_descent crossover value hw hle (hr.mono h0 (Int.le_refl _))
      exact ⟨verdict, hv, hd.sound h0⟩

/-! ## Queries -/

variable {slots : Slots} {len : Nat} {query : Query}

/-- A query over slots in any order is answered, and its answer tells a sound verdict. -/
theorem Query.Allowed.exists_verdict (h : query.Allowed slots len) (crossover : Crossover) :
    ∃ verdict : Verdict,
      (Column.ofSlots slots).findWith crossover len query = .ok (verdict.encode query.shl) ∧
        verdict.Sound (keyOf (blockKeys slots len query.shl)) query.value query.direction
          query.floor (blockCount len query.shl) := by
  have hstop : (blockCount len query.shl : Int) - 1 + 1 = blockCount len query.shl := by omega
  have hr := reads_ofSlots query.shl h.len_le_size h.len_le
  rw [← hstop] at hr
  obtain ⟨verdict, hv, hs⟩ :=
    Blocks.search_sound crossover query.value query.direction h.window hr
  rw [hstop] at hs
  refine ⟨verdict, ?_, hs⟩
  rw [h.findWith_eq_search, hv]
  cases verdict with
  | hit block =>
    obtain ⟨h1, h2, -⟩ := hs
    exact h.report_eq_encode _ h1 (Or.inl (Int.le_of_lt h2))
  | miss block => exact h.report_eq_encode _ (hs.nonneg (by omega) (by omega)) hs.le

/-- A query over slots in any order is answered without a fault. A hit is the first element of a
block before `len` and is the searched one; a miss names a block between the floor and the end. -/
theorem find_sound (h : query.Allowed slots len) :
    ∃ answer, (Column.ofSlots slots).find len query = .ok answer ∧
      (0 ≤ answer →
        (2 ^ query.shl : Int) ∣ answer ∧ answer < len ∧
          slots[answer.toNat]? = some query.value) ∧
      (answer < 0 →
        ∃ block : Nat, -(answer + 1) = block * 2 ^ query.shl ∧
          query.direction.Spans query.floor (blockCount len query.shl) block) := by
  obtain ⟨verdict, hv, hs⟩ := h.exists_verdict .tuned
  refine ⟨_, hv, ?_⟩
  cases verdict with
  | hit block =>
    obtain ⟨h1, h2, h3⟩ := hs
    obtain ⟨block, rfl⟩ := Int.eq_ofNat_of_zero_le h1
    have hlt : block < blockCount len query.shl := by omega
    have hb := lt_blockCount_iff.1 hlt
    rw [encode_hit]
    refine ⟨fun _ => ⟨⟨block, ?_⟩, by omega, ?_⟩, by omega⟩
    · rw [Int.natCast_mul, two_pow_cast, Int.mul_comm]
    · rw [Int.toNat_natCast, getElem?_of_lt_blockCount h.len_le_size hlt, h3]
  | miss block =>
    obtain ⟨block, rfl⟩ := Int.eq_ofNat_of_zero_le (hs.nonneg (by omega) (by omega))
    rw [encode_miss]
    refine ⟨by omega, fun _ => ⟨block, ?_, hs⟩⟩
    rw [Int.natCast_mul, two_pow_cast]
    omega

/-- Seventy blocks whose keys descend, but for every third one, which has key 5. -/
def scrambled : Slots :=
  ((List.range 70).map fun block =>
    [if block % 3 = 0 then 5 else Int64.ofNat (69 - block), 100]).flatten.toArray

/-- From the fourth block on, halving meets a block with key 5, and the search hits it. From the
second one on, halving does not, and the scan gives up at the first larger key: the same key is
missed at the floor. -/
theorem find_scrambled :
    (⟨6, 1, 5, .up⟩ : Query).Allowed scrambled 139 ∧
      (⟨2, 1, 5, .up⟩ : Query).Allowed scrambled 139 ∧
      (Column.ofSlots scrambled).find 139 ⟨6, 1, 5, .up⟩ = .ok 72 ∧ scrambled[72]? = some 5 ∧
      (Column.ofSlots scrambled).find 139 ⟨2, 1, 5, .up⟩ = .ok (-3) ∧ Direction.up.Spans 1 70 1 := by
  have h : (⟨6, 1, 5, .up⟩ : Query).Allowed scrambled 139 :=
    ⟨by decide +kernel, by norm_num, by norm_num, by norm_num⟩
  have h' : (⟨2, 1, 5, .up⟩ : Query).Allowed scrambled 139 := ⟨h.1, h.2, h.3, by norm_num⟩
  have hfind : (Column.ofSlots scrambled).find 139 ⟨6, 1, 5, .up⟩ = .ok 72 := by decide +kernel
  have hfind' : (Column.ofSlots scrambled).find 139 ⟨2, 1, 5, .up⟩ = .ok (-3) := by
    decide +kernel
  obtain ⟨answer, hanswer, hhit, -⟩ := find_sound h
  obtain rfl : 72 = answer := Except.ok.inj (hfind.symm.trans hanswer)
  obtain ⟨answer, hanswer, -, hmiss⟩ := find_sound h'
  obtain rfl : -3 = answer := Except.ok.inj (hfind'.symm.trans hanswer)
  obtain ⟨block, hblock, hspans⟩ := hmiss (by decide)
  obtain rfl : block = 1 := by
    norm_num at hblock
    omega
  exact ⟨h, h', hfind, (hhit (by decide)).2.2, hfind', hspans⟩

end SnapList.Search
