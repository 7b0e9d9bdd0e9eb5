/-
  How a search sees slots: as blocks, each with its key.

  Of the first `len` slots every `2 ^ shl`-th one begins a block and is its key; the last block may
  be partial. A query is ALLOWED if neither its block size nor its offset nor the number of slots
  makes a block number leave the range of a word on the way.

  Main statements: all blocks can be read (`reads_ofSlots`), a query is a search from its floor to
  the last block (`findWith_eq_search`), and if it is allowed, a verdict is told by an exact number
  (`Query.Allowed.report_eq_encode`).
-/
import Mathlib.Tactic.Positivity
import Mathlib.Tactic.NormNum
import SnapList.Proofs.Search.Halving

namespace SnapList.Search

/-- The number of blocks that begin among the first `len` elements. The last one may be partial. -/
def blockCount (len shl : Nat) : Nat := (len + 2 ^ shl - 1) / 2 ^ shl

/-- The keys of the blocks that begin among the first `len` slots. -/
def blockKeys (slots : Slots) (len shl : Nat) : List Int64 :=
  (List.range (blockCount len shl)).map fun block => slots.getD (block * 2 ^ shl) 0

/-- The first block that a query asks about: the one of the element `offset`. -/
def Query.floor (query : Query) : Nat := query.offset / 2 ^ query.shl

/-- The number that tells a verdict over blocks of `2 ^ shl` elements: the first element of a hit,
or, negated, the one behind the first element of a miss. -/
def Verdict.encode (shl : Nat) : Verdict → Int
  | .hit block => block * 2 ^ shl
  | .miss block => -(block * 2 ^ shl + 1)

theorem encode_hit (shl block : Nat) :
    (Verdict.hit block).encode shl = ((block * 2 ^ shl : Nat) : Int) := by
  simp [Verdict.encode]

theorem encode_miss (shl block : Nat) :
    (Verdict.miss block).encode shl = -(((block * 2 ^ shl : Nat) : Int) + 1) := by
  simp [Verdict.encode]

def Verdict.block : Verdict → Int
  | .hit block => block
  | .miss block => block

/-- What is asked of whoever searches the first `len` of `slots`. -/
structure Query.Allowed (query : Query) (slots : Slots) (len : Nat) : Prop where
  len_le_size : len ≤ slots.size
  len_le : len ≤ 2 ^ 62
  shl_le : query.shl ≤ 62
  offset_le : query.offset ≤ 2 ^ 63 - 2

/-! ## Blocks and keys -/

theorem lt_blockCount_iff {len shl block : Nat} :
    block < blockCount len shl ↔ block * 2 ^ shl < len := by
  have hw : 0 < 2 ^ shl := Nat.two_pow_pos shl
  unfold blockCount
  rw [Nat.lt_iff_add_one_le, Nat.le_div_iff_mul_le hw, Nat.succ_mul]
  omega

theorem length_blockKeys (slots : Slots) (len shl : Nat) :
    (blockKeys slots len shl).length = blockCount len shl := by
  simp [blockKeys]

theorem two_pow_cast (shl : Nat) : ((2 ^ shl : Nat) : Int) = 2 ^ shl := by norm_cast

/-- The last of `len` elements is in the last block. -/
theorem shiftRight_last (len shl : Nat) :
    Word.shiftRight ((len : Int) - 1) shl = (blockCount len shl : Int) - 1 := by
  have hw : 0 < 2 ^ shl := Nat.two_pow_pos shl
  have e : ((blockCount len shl : Nat) : Int) = ((len : Int) - 1 + 1 * 2 ^ shl) / 2 ^ shl := by
    have hc := two_pow_cast shl
    unfold blockCount
    rw [Int.natCast_ediv, hc]
    congr 1
    omega
  rw [e, Int.add_mul_ediv_right _ _ (by positivity)]
  unfold Word.shiftRight
  rw [Int.shiftRight_eq_div_pow, two_pow_cast]
  omega

theorem blockCount_le (len shl : Nat) : blockCount len shl ≤ len := by
  refine Nat.not_lt.1 fun hlt => ?_
  have hb := lt_blockCount_iff.1 hlt
  have := Nat.le_mul_of_pos_right len (Nat.two_pow_pos shl)
  omega

/-- A length of up to `2 ^ 62` is covered by blocks that end there at the latest. -/
theorem blockCount_mul_le {len shl : Nat} (hlen : len ≤ 2 ^ 62) (hshl : shl ≤ 62) :
    blockCount len shl * 2 ^ shl ≤ 2 ^ 62 := by
  rw [← Nat.pow_sub_mul_pow 2 hshl]
  refine Nat.mul_le_mul_right _ ?_
  by_contra hlt
  have hb := lt_blockCount_iff.1 (Nat.lt_of_not_le hlt)
  rw [Nat.pow_sub_mul_pow 2 hshl] at hb
  omega

def keyOf (keys : List Int64) (block : Int) : Int64 := keys.getD block.toNat 0

theorem getElem?_eq_some_iff_keyOf {keys : List Int64} {block : Nat} {key : Int64} :
    keys[block]? = some key ↔ block < keys.length ∧ keyOf keys block = key := by
  rw [List.getElem?_eq_some_iff]
  constructor
  · rintro ⟨hlt, rfl⟩
    exact ⟨hlt, by simp [keyOf, hlt]⟩
  · rintro ⟨hlt, rfl⟩
    exact ⟨hlt, by simp [keyOf, hlt]⟩

theorem shiftLeft_eq_mul {x : Int} {k : Nat} (h : Word.Fits (x * 2 ^ k)) :
    Word.shiftLeft x k = x * 2 ^ k := by
  have hshift : x <<< k = x * 2 ^ k := Int.shiftLeft_eq x k
  rw [← hshift] at h ⊢
  exact Word.shiftLeft_of_fits h

theorem Blocks.key_of_lt {column : Column} {shl block : Nat}
    (h : block * 2 ^ shl < 9223372036854775808) :
    Blocks.key ⟨column, shl⟩ block = column (block * 2 ^ shl) := by
  have e : ((block : Int) * 2 ^ shl) = ((block * 2 ^ shl : Nat) : Int) := by norm_cast
  have hfit : Word.Fits ((block : Int) * 2 ^ shl) := by
    rw [e]
    exact ⟨by omega, by omega⟩
  unfold Blocks.key Blocks.start
  rw [shiftLeft_eq_mul hfit, Word.unsigned_of_nonneg (by omega) hfit, e, Int.toNat_natCast]

/-- The key of a block is the element with which the block begins. -/
theorem getElem?_of_lt_blockCount {slots : Slots} {len shl block : Nat} (hsize : len ≤ slots.size)
    (hlt : block < blockCount len shl) :
    slots[block * 2 ^ shl]? = some (keyOf (blockKeys slots len shl) block) := by
  have hb := lt_blockCount_iff.1 hlt
  have hkey : keyOf (blockKeys slots len shl) block = slots.getD (block * 2 ^ shl) 0 := by
    simp [keyOf, blockKeys, hlt]
  rw [hkey]
  simp [show block * 2 ^ shl < slots.size by omega]

theorem reads_ofSlots {slots : Slots} {len : Nat} (shl : Nat) (hsize : len ≤ slots.size)
    (hlen : len ≤ 2 ^ 62) :
    Blocks.Reads ⟨Column.ofSlots slots, shl⟩ (keyOf (blockKeys slots len shl)) 0
      (blockCount len shl) := by
  intro block h0 hlt
  obtain ⟨block, rfl⟩ := Int.eq_ofNat_of_zero_le h0
  have hlt : block < blockCount len shl := by omega
  have hb := lt_blockCount_iff.1 hlt
  rw [Blocks.key_of_lt (by omega)]
  exact Column.ofSlots_eq_ok_iff.2 (getElem?_of_lt_blockCount hsize hlt)

/-- A verdict over blocks that are not too far out is told by its number. -/
theorem report_eq_encode {column : Column} {shl : Nat} {verdict : Verdict}
    (h0 : 0 ≤ verdict.block) (hle : verdict.block * 2 ^ shl ≤ 2 ^ 63 - 2) :
    Blocks.report ⟨column, shl⟩ verdict = .ok (verdict.encode shl) := by
  have hp : 0 ≤ verdict.block * 2 ^ shl := Int.mul_nonneg h0 (by positivity)
  have hfit : Word.Fits (verdict.block * 2 ^ shl) := ⟨by omega, by omega⟩
  have hs : Blocks.start ⟨column, shl⟩ verdict.block = verdict.block * 2 ^ shl :=
    shiftLeft_eq_mul hfit
  cases verdict with
  | hit block => exact congrArg Except.ok hs
  | miss block =>
    have hadd : Word.add (block * 2 ^ shl) 1 = .ok (block * 2 ^ shl + 1) :=
      Word.checked_of_fits ⟨by simp only [Verdict.block] at hp; omega,
        by simp only [Verdict.block] at hle; omega⟩
    show Blocks.miss ⟨column, shl⟩ block = _
    unfold Blocks.miss
    rw [show Blocks.start ⟨column, shl⟩ block = block * 2 ^ shl from hs, hadd]
    simp only [Verdict.block] at hp hle
    exact Word.checked_of_fits ⟨by omega, by omega⟩

theorem ascending_keyOf {keys : List Int64} (ha : keys.Pairwise (· ≤ ·)) :
    Blocks.Ascending (keyOf keys) 0 keys.length := by
  intro a b h0 hab hb
  obtain ⟨a, rfl⟩ := Int.eq_ofNat_of_zero_le h0
  obtain ⟨b, rfl⟩ := Int.eq_ofNat_of_zero_le (Int.le_trans h0 hab)
  have hb' : b < keys.length := by omega
  have ha' : a < keys.length := by omega
  simp only [keyOf, Int.toNat_natCast, List.getD_eq_getElem?_getD,
    List.getElem?_eq_getElem ha', List.getElem?_eq_getElem hb', Option.getD_some]
  by_cases he : a = b
  · subst he
    exact Int64.le_refl _
  · exact List.pairwise_iff_getElem.1 ha a b ha' hb' (by omega)

/-! ## Queries -/

variable {slots : Slots} {len : Nat} {query : Query}

theorem Query.Allowed.window (h : query.Allowed slots len) :
    Blocks.Window query.floor ((blockCount len query.shl : Int) - 1) := by
  have hfloor : query.floor ≤ query.offset := Nat.div_le_self _ _
  have hcount := blockCount_le len query.shl
  have hlen := h.len_le
  have hoff := h.offset_le
  exact ⟨by omega, by omega, by omega, by omega⟩

/-- Up to the end of the blocks, or to the floor behind it, a verdict can be told. -/
theorem Query.Allowed.report_eq_encode (h : query.Allowed slots len) (column : Column)
    {verdict : Verdict} (h0 : 0 ≤ verdict.block)
    (hle : verdict.block ≤ blockCount len query.shl ∨ verdict.block ≤ query.floor) :
    Blocks.report ⟨column, query.shl⟩ verdict = .ok (verdict.encode query.shl) := by
  refine Search.report_eq_encode h0 ?_
  obtain ⟨block, hb⟩ := Int.eq_ofNat_of_zero_le h0
  rw [hb] at hle ⊢
  have e : ((block : Int) * 2 ^ query.shl) = ((block * 2 ^ query.shl : Nat) : Int) := by norm_cast
  rw [e]
  have hmul := blockCount_mul_le h.len_le h.shl_le
  have hoff := h.offset_le
  have hfloor : query.floor * 2 ^ query.shl ≤ query.offset := Nat.div_mul_le_self _ _
  rcases hle with hle | hle
  · have := Nat.mul_le_mul_right (2 ^ query.shl) (show block ≤ blockCount len query.shl by omega)
    omega
  · have := Nat.mul_le_mul_right (2 ^ query.shl) (show block ≤ query.floor by omega)
    omega

/-- A query is a search from its floor to the last block. -/
theorem findWith_eq_search (column : Column) (crossover : Crossover) (hlen : len ≤ 2 ^ 62)
    (hshl : query.shl < 64) (hoff : query.offset ≤ 2 ^ 63 - 2) :
    column.findWith crossover len query =
      Blocks.search ⟨column, query.shl⟩ crossover query.value query.direction query.floor
        ((blockCount len query.shl : Int) - 1) := by
  have hsub : Word.sub (Word.signed len) 1 = .ok ((len : Int) - 1) := by
    rw [Word.signed_of_lt (by omega)]
    exact Word.checked_of_fits ⟨by omega, by omega⟩
  have hfloor : Word.shiftRight (Word.signed query.offset) query.shl = query.floor := by
    rw [Word.signed_of_lt (by omega)]
    unfold Word.shiftRight Query.floor
    rw [Int.shiftRight_eq_div_pow, Int.natCast_ediv]
  unfold Column.findWith
  rw [if_neg (by omega), hsub]
  simp only [hfloor, shiftRight_last]

theorem Query.Allowed.findWith_eq_search (h : query.Allowed slots len) (column : Column)
    (crossover : Crossover) :
    column.findWith crossover len query =
      Blocks.search ⟨column, query.shl⟩ crossover query.value query.direction query.floor
        ((blockCount len query.shl : Int) - 1) :=
  Search.findWith_eq_search column crossover h.len_le
    (Nat.lt_of_le_of_lt h.shl_le (by decide)) h.offset_le

end SnapList.Search
