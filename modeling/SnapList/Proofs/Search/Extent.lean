/-
  How far a search looks.

  A search asks a column for nothing but the keys of blocks, and for no block beyond the last
  one of its window. An upward scroll may go below the window, down to block zero, but no
  further. None of this asks for keys in any order.

  Main statements: a search answers the same from two columns that agree on the keys of the
  blocks up to the end of its window (`Blocks.search_congr`), and so does a query on two columns
  that agree on every block that begins among the first `len` elements (`findWith_congr`). What
  stands between the keys and behind the last element does not matter, and neither does the number
  of slots (`find_eq_of_same_keys`).
-/
import SnapList.Proofs.Search.Unordered

namespace SnapList.Search

namespace Blocks

/-- The two columns, cut into blocks of one size, have the same keys from block zero up to block
`stop`, or the same fault in place of a key. -/
def SameKeys (first second : Column) (shl : Nat) (stop : Int) : Prop :=
  ∀ block, 0 ≤ block → block < stop →
    key ⟨first, shl⟩ block = key ⟨second, shl⟩ block

variable {first second : Column} {shl : Nat} {stop : Int}

/-! ## The scans and the scrolls -/

theorem scanUp_congr (h : SameKeys first second shl stop) (value : Int64) {top : Int}
    (hend : top ≤ stop) (count : Nat) (h0 : 0 < count → 0 ≤ top - count) :
    scanUp ⟨first, shl⟩ value top count = scanUp ⟨second, shl⟩ value top count := by
  induction count with
  | zero => rfl
  | succ count ih =>
    have hlow := h0 (Nat.succ_pos count)
    unfold scanUp
    rw [h _ (by omega) (by omega), ih (by omega)]
    rfl

theorem scanDown_congr (h : SameKeys first second shl stop) (value : Int64) {low : Int}
    (h0 : 0 ≤ low) (count : Nat) (hend : 0 < count → low + count ≤ stop) :
    scanDown ⟨first, shl⟩ value low count = scanDown ⟨second, shl⟩ value low count := by
  induction count with
  | zero => rfl
  | succ count ih =>
    have hhigh := hend (Nat.succ_pos count)
    unfold scanDown
    rw [h _ (by omega) (by omega), ih (by omega)]
    rfl

theorem scrollUp_congr (h : SameKeys first second shl stop) (value : Int64) (block : Nat)
    (hend : block ≤ stop) :
    scrollUp ⟨first, shl⟩ value block = scrollUp ⟨second, shl⟩ value block := by
  induction block with
  | zero => rfl
  | succ block ih =>
    unfold scrollUp
    rw [h _ (by omega) (by omega), ih (by omega)]
    rfl

theorem scrollDown_congr (h : SameKeys first second shl stop) (value : Int64) (block : Int)
    (count : Nat) (h0 : 0 ≤ block) (hend : block + count < stop) :
    scrollDown ⟨first, shl⟩ value block count = scrollDown ⟨second, shl⟩ value block count := by
  induction count generalizing block with
  | zero => rfl
  | succ count ih =>
    unfold scrollDown
    rw [h _ (by omega) (by omega), ih _ (by omega) (by omega)]
    rfl

/-! ## Halving -/

theorem bisect_congr (h : SameKeys first second shl stop) (crossover : Crossover) (value : Int64)
    (low high : Int) (h0 : 0 ≤ low) (hend : high < stop) :
    bisect ⟨first, shl⟩ crossover value low high =
      bisect ⟨second, shl⟩ crossover value low high := by
  have hpos := crossover.pos
  fun_induction bisect ⟨first, shl⟩ crossover value low high with
  | case1 low high hfit => rw [bisect, if_pos hfit]
  | case2 low high hfit hle => rw [bisect, if_neg hfit, if_pos hle]
  | case3 low high hfit hgt hadd => rw [bisect, if_neg hfit, if_neg hgt, if_pos hadd]
  | case4 low high hfit hgt hadd fault hk =>
    rw [h _ (by omega) (by omega)] at hk
    rw [bisect, if_neg hfit, if_neg hgt, if_neg hadd, hk]
  | case5 low high hfit hgt hadd key hk hlt ih =>
    rw [h _ (by omega) (by omega)] at hk
    rw [ih (by omega) hend, bisect.eq_def _ _ _ low, if_neg hfit, if_neg hgt, if_neg hadd, hk]
    exact (if_pos hlt).symm
  | case6 low high hfit hgt hadd key hk hge hlt hmid ih =>
    rw [h _ (by omega) (by omega)] at hk
    rw [ih h0 (by omega), bisect.eq_def _ _ _ low high, if_neg hfit, if_neg hgt, if_neg hadd, hk]
    simp only [if_neg hge, if_pos hlt, if_pos hmid]
  | case7 low high hfit hgt hadd key hk hge hlt hmid =>
    rw [h _ (by omega) (by omega)] at hk
    rw [bisect, if_neg hfit, if_neg hgt, if_neg hadd, hk]
    simp only [if_neg hge, if_pos hlt, if_neg hmid]
  | case8 low high hfit hgt hadd key hk hge hle =>
    rw [h _ (by omega) (by omega)] at hk
    rw [bisect, if_neg hfit, if_neg hgt, if_neg hadd, hk]
    simp only [if_neg hge, if_neg hle]

/-- The probe stays inside the window from `low` to `high`. -/
def Probe.Within (low high : Int) : Probe → Prop
  | .window low' high' => low ≤ low' ∧ high' ≤ high
  | .hit block top => low ≤ block ∧ block ≤ top ∧ top ≤ high

theorem bisect_within {blocks : Blocks} (crossover : Crossover) (value : Int64) (low high : Int)
    {probe : Probe} (h : blocks.bisect crossover value low high = .ok probe) :
    probe.Within low high := by
  have hpos := crossover.pos
  fun_induction bisect blocks crossover value low high with
  | case1 | case3 | case4 | case7 => cases h
  | case2 low high => cases h; exact ⟨Int.le_refl _, Int.le_refl _⟩
  | case5 low high hfit hgt hadd key hk hlt ih =>
    have hw := ih h
    cases probe with
    | window low' high' => exact ⟨by have := hw.1; omega, hw.2⟩
    | hit block top => exact ⟨by have := hw.1; omega, hw.2⟩
  | case6 low high hfit hgt hadd key hk hge hlt hmid ih =>
    have hw := ih h
    cases probe with
    | window low' high' => exact ⟨hw.1, by have := hw.2; omega⟩
    | hit block top => exact ⟨hw.1, hw.2.1, by have := hw.2.2; omega⟩
  | case8 low high hfit hgt hadd key hk hge hle =>
    cases h
    exact ⟨by omega, by omega, by omega⟩

/-! ## The search -/

theorem search_congr (h : SameKeys first second shl stop) (crossover : Crossover) (value : Int64)
    (direction : Direction) {low high : Int} (h0 : 0 ≤ low) (hend : high < stop) :
    search ⟨first, shl⟩ crossover value direction low high =
      search ⟨second, shl⟩ crossover value direction low high := by
  unfold search
  rw [bisect_congr h crossover value low high h0 hend]
  cases hp : bisect ⟨second, shl⟩ crossover value low high with
  | error fault => rfl
  | ok probe =>
    have hw := bisect_within crossover value low high hp
    cases probe with
    | hit block top =>
      obtain ⟨h1, h2, h3⟩ := hw
      cases direction with
      | up => exact scrollUp_congr h value _ (by omega)
      | down => exact scrollDown_congr h value block _ (by omega) (by omega)
    | window low' high' =>
      obtain ⟨h1, h2⟩ := hw
      cases hadd : Word.add high' 1 with
      | error fault => simp only [hadd]
      | ok top =>
        have htop := (Word.add_eq_ok_iff.1 hadd).2
        simp only [hadd]
        cases direction with
        | up => exact scanUp_congr h value (by omega) _ (by omega)
        | down => exact scanDown_congr h value (by omega) _ (by omega)

end Blocks

/-! ## Queries -/

variable {first second : Column} {slots : Slots} {len : Nat} {query : Query}

/-- Columns that agree on every element with which a block begins have the same keys. -/
theorem Query.Allowed.sameKeys (h : query.Allowed slots len)
    (hs : ∀ block < blockCount len query.shl,
      first (block * 2 ^ query.shl) = second (block * 2 ^ query.shl)) :
    Blocks.SameKeys first second query.shl (blockCount len query.shl) := by
  intro block h0 hlt
  obtain ⟨block, rfl⟩ := Int.eq_ofNat_of_zero_le h0
  have hb := lt_blockCount_iff.1 (show block < blockCount len query.shl by omega)
  have hlen := h.len_le
  rw [Blocks.key_of_lt (by omega), Blocks.key_of_lt (by omega)]
  exact hs block (by omega)

/-- The answer to a query depends on the elements with which the blocks before `len` begin, and on
nothing else in the column. -/
theorem findWith_congr (h : query.Allowed slots len) (crossover : Crossover)
    (hs : ∀ block < blockCount len query.shl,
      first (block * 2 ^ query.shl) = second (block * 2 ^ query.shl)) :
    first.findWith crossover len query = second.findWith crossover len query := by
  rw [h.findWith_eq_search, h.findWith_eq_search]
  exact Blocks.search_congr (h.sameKeys hs) crossover query.value query.direction (by omega)
    (by omega)

/-- A query is answered, and alike, over any two rows of slots that agree where the blocks before
`len` begin. Their payloads may differ, and so may their sizes and all that they hold from `len` on;
the keys may be in any order. -/
theorem find_eq_of_same_keys {other : Slots} (h : query.Allowed slots len)
    (hs : ∀ index < len, 2 ^ query.shl ∣ index → slots[index]? = other[index]?) :
    ∃ answer, (Column.ofSlots slots).find len query = .ok answer ∧
      (Column.ofSlots other).find len query = .ok answer := by
  obtain ⟨verdict, hv, -⟩ := h.exists_verdict .tuned
  have hcongr : (Column.ofSlots slots).find len query = (Column.ofSlots other).find len query := by
    refine findWith_congr h .tuned fun block hb => ?_
    have hkey := getElem?_of_lt_blockCount h.len_le_size hb
    have hother := (hs _ (lt_blockCount_iff.1 hb) (Nat.dvd_mul_left _ _)).symm.trans hkey
    rw [Column.ofSlots_eq_ok_iff.2 hkey, Column.ofSlots_eq_ok_iff.2 hother]
  exact ⟨_, hv, hcongr.symm.trans hv⟩

/-- The scrambled blocks with another payload and with more blocks behind them. -/
def rescrambled : Slots :=
  ((List.range 90).map fun block =>
    [if block % 3 = 0 then 5 else Int64.ofNat (69 - block), -7]).flatten.toArray

theorem find_rescrambled :
    (⟨6, 1, 5, .down⟩ : Query).Allowed scrambled 139 ∧
      (∀ index < 139, 2 ^ 1 ∣ index → scrambled[index]? = rescrambled[index]?) ∧
      scrambled.size ≠ rescrambled.size ∧
      (Column.ofSlots scrambled).find 139 ⟨6, 1, 5, .down⟩ = .ok 72 ∧
      (Column.ofSlots rescrambled).find 139 ⟨6, 1, 5, .down⟩ = .ok 72 := by
  have h : (⟨6, 1, 5, .down⟩ : Query).Allowed scrambled 139 :=
    ⟨by decide +kernel, by norm_num, by norm_num, by norm_num⟩
  have hs : ∀ index < 139, 2 ^ 1 ∣ index → scrambled[index]? = rescrambled[index]? := by
    decide +kernel
  have hfind : (Column.ofSlots scrambled).find 139 ⟨6, 1, 5, .down⟩ = .ok 72 := by decide +kernel
  obtain ⟨answer, hanswer, hother⟩ := find_eq_of_same_keys h hs
  obtain rfl : 72 = answer := Except.ok.inj (hfind.symm.trans hanswer)
  exact ⟨h, hs, by decide +kernel, hfind, hother⟩

end SnapList.Search
