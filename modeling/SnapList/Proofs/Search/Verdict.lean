/-
  What a look through a row of blocks finds, said without the loops that find it.

  A VERDICT names a block: one that has the key (`hit`), or the place of one that would have it
  (`miss`). `Lowest` and `Highest` describe the verdict of a look through the blocks from `low`
  up to `stop`, upwards and downwards. Neither asks for keys in ascending order: a look ends at
  the first block that is not on the expected side of the key.

  Main statements: over blocks that can all be read, both scans end with such a verdict
  (`scanUp_spec`, `scanDown_spec`), and both scrolls end at the end of a run of equal keys
  (`scrollUp_spec`, `scrollDown_spec`).
-/
import SnapList.Search.Blocks

namespace SnapList.Search

/-- What a search finds out about a key. -/
inductive Verdict where
  /-- A block that has the key. -/
  | hit (block : Int)
  /-- No block has the key; one that had it would stand at `block`. -/
  | miss (block : Int)
  deriving DecidableEq

/-- The verdict of a look upwards: every block before the one it names is below the key. -/
def Lowest (keys : Int → Int64) (value : Int64) (low stop : Int) : Verdict → Prop
  | .hit block =>
    low ≤ block ∧ block < stop ∧ keys block = value ∧
      ∀ b, low ≤ b → b < block → keys b < value
  | .miss block =>
    low ≤ block ∧ block ≤ stop ∧ (block < stop → value < keys block) ∧
      ∀ b, low ≤ b → b < block → keys b < value

/-- The verdict of a look downwards: every block behind the one it names is above the key. -/
def Highest (keys : Int → Int64) (value : Int64) (low stop : Int) : Verdict → Prop
  | .hit block =>
    low ≤ block ∧ block < stop ∧ keys block = value ∧
      ∀ b, block < b → b < stop → value < keys b
  | .miss block =>
    low ≤ block ∧ block ≤ stop ∧ (low < block → keys (block - 1) < value) ∧
      ∀ b, block ≤ b → b < stop → value < keys b

/-- A look upwards finds the same in a wider row, if the blocks added in front are below the key
and the first one added behind is above it. -/
theorem Lowest.widen {keys : Int → Int64} {value : Int64} {low stop low' stop' : Int}
    {verdict : Verdict} (h : Lowest keys value low' stop' verdict) (hl : low ≤ low')
    (hs : stop' ≤ stop) (hbelow : ∀ b, low ≤ b → b < low' → keys b < value)
    (habove : stop' < stop → value < keys stop') : Lowest keys value low stop verdict := by
  have hjoin : ∀ block, (∀ b, low' ≤ b → b < block → keys b < value) →
      ∀ b, low ≤ b → b < block → keys b < value := by
    intro block hb b h1 h2
    by_cases hin : b < low'
    · exact hbelow b h1 hin
    · exact hb b (by omega) h2
  cases verdict with
  | hit block =>
    obtain ⟨h1, h2, h3, h4⟩ := h
    exact ⟨by omega, by omega, h3, hjoin block h4⟩
  | miss block =>
    obtain ⟨h1, h2, h3, h4⟩ := h
    refine ⟨by omega, by omega, fun hlt => ?_, hjoin block h4⟩
    by_cases he : block = stop'
    · rw [he]
      exact habove (by omega)
    · exact h3 (by omega)

/-- A look downwards finds the same in a wider row, if the blocks added behind are above the key
and the last one added in front is below it. -/
theorem Highest.widen {keys : Int → Int64} {value : Int64} {low stop low' stop' : Int}
    {verdict : Verdict} (h : Highest keys value low' stop' verdict) (hl : low ≤ low')
    (hs : stop' ≤ stop) (hbelow : low < low' → keys (low' - 1) < value)
    (habove : ∀ b, stop' ≤ b → b < stop → value < keys b) :
    Highest keys value low stop verdict := by
  have hjoin : ∀ first, (∀ b, first ≤ b → b < stop' → value < keys b) →
      ∀ b, first ≤ b → b < stop → value < keys b := by
    intro first hb b h1 h2
    by_cases hin : b < stop'
    · exact hb b h1 hin
    · exact habove b (by omega) h2
  cases verdict with
  | hit block =>
    obtain ⟨h1, h2, h3, h4⟩ := h
    exact ⟨by omega, by omega, h3, hjoin (block + 1) h4⟩
  | miss block =>
    obtain ⟨h1, h2, h3, h4⟩ := h
    refine ⟨by omega, by omega, fun hlt => ?_, hjoin block h4⟩
    by_cases he : block = low'
    · rw [he]
      exact hbelow (by omega)
    · exact h3 (by omega)

namespace Blocks

def report (blocks : Blocks) : Verdict → Except Fault Int
  | .hit block => .ok (blocks.start block)
  | .miss block => blocks.miss block

/-- The blocks from `low` up to `stop` can be read, and have the keys `keys`. -/
def Reads (blocks : Blocks) (keys : Int → Int64) (low stop : Int) : Prop :=
  ∀ block, low ≤ block → block < stop → blocks.key block = .ok (keys block)

variable {blocks : Blocks} {keys : Int → Int64}

theorem Reads.mono {low stop low' stop' : Int} (h : blocks.Reads keys low stop)
    (hl : low ≤ low') (hs : stop' ≤ stop) : blocks.Reads keys low' stop' :=
  fun block h1 h2 => h block (by omega) (by omega)

/-! ## The scans -/

theorem scanUp_spec (value : Int64) (stop : Int) (count : Nat)
    (h : blocks.Reads keys (stop - count) stop) :
    ∃ verdict, blocks.scanUp value stop count = blocks.report verdict ∧
      Lowest keys value (stop - count) stop verdict := by
  induction count with
  | zero => exact ⟨.miss stop, rfl, by omega, by omega, by omega, by omega⟩
  | succ count ih =>
    have hk : blocks.key (stop - (count + 1)) = .ok (keys (stop - (count + 1))) :=
      h _ (by omega) (by omega)
    simp only [scanUp, hk]
    split
    · rename_i he
      exact ⟨.hit (stop - (count + 1)), rfl, by omega, by omega, he, by omega⟩
    · rename_i hne
      split
      · rename_i hlt
        exact ⟨.miss (stop - (count + 1)), rfl, by omega, by omega, fun _ => hlt, by omega⟩
      · rename_i hge
        have hbelow : keys (stop - (count + 1)) < value := by grind
        obtain ⟨verdict, hs, hv⟩ := ih (h.mono (by omega) (by omega))
        refine ⟨verdict, hs, hv.widen (by omega) (by omega) ?_ (by omega)⟩
        intro b h1 h2
        have he : b = stop - (count + 1) := by omega
        rw [he]
        exact hbelow

theorem scanDown_spec (value : Int64) (low : Int) (count : Nat)
    (hlow : 0 ≤ low) (hfit : low + count < 9223372036854775808)
    (h : blocks.Reads keys low (low + count)) :
    ∃ verdict, blocks.scanDown value low count = blocks.report verdict ∧
      Highest keys value low (low + count) verdict := by
  induction count with
  | zero => exact ⟨.miss low, rfl, by omega, by omega, by omega, by omega⟩
  | succ count ih =>
    have hk : blocks.key (low + count) = .ok (keys (low + count)) := h _ (by omega) (by omega)
    simp only [scanDown, hk]
    split
    · rename_i he
      exact ⟨.hit (low + count), rfl, by omega, by omega, he, by omega⟩
    · rename_i hne
      split
      · rename_i hlt
        have hadd : Word.add (low + count) 1 = .ok (low + count + 1) :=
          Word.checked_of_fits ⟨by omega, by omega⟩
        have he : low + (count : Int) + 1 - 1 = low + count := by omega
        rw [hadd]
        refine ⟨.miss (low + count + 1), rfl, by omega, by omega, fun _ => ?_, by omega⟩
        rw [he]
        exact hlt
      · rename_i hge
        have habove : value < keys (low + count) := by grind
        obtain ⟨verdict, hs, hv⟩ := ih (by omega) (h.mono (by omega) (by omega))
        refine ⟨verdict, hs, hv.widen (by omega) (by omega) (by omega) ?_⟩
        intro b h1 h2
        have he : b = low + count := by omega
        rw [he]
        exact habove

/-! ## The scrolls -/

/-- A scroll upwards ends at the first block of the run that ends before `block`, or at block
zero. -/
theorem scrollUp_spec (value : Int64) (block : Nat) (h : blocks.Reads keys 0 block) :
    ∃ first : Int, blocks.scrollUp value block = .ok (blocks.start first) ∧
      0 ≤ first ∧ first ≤ block ∧ (0 < first → keys (first - 1) ≠ value) ∧
      ∀ b, first ≤ b → b < block → keys b = value := by
  induction block with
  | zero => exact ⟨0, rfl, by omega, by omega, by omega, by omega⟩
  | succ block ih =>
    have hk : blocks.key block = .ok (keys block) := h _ (by omega) (by omega)
    simp only [scrollUp, hk]
    split
    · rename_i he
      obtain ⟨first, hs, h0, hle, hne, hrun⟩ := ih (h.mono (by omega) (by omega))
      refine ⟨first, hs, h0, by omega, hne, fun b h1 h2 => ?_⟩
      by_cases hb : b = block
      · rw [hb]
        exact he
      · exact hrun b h1 (by omega)
    · rename_i hne
      refine ⟨(block : Int) + 1, rfl, by omega, by omega, fun _ => ?_, by omega⟩
      have he : (block : Int) + 1 - 1 = block := by omega
      rw [he]
      exact hne

/-- A scroll downwards ends at the last block of the run that begins behind `block`, or at the
last block that it may look at. -/
theorem scrollDown_spec (value : Int64) (block : Int) (count : Nat)
    (h : blocks.Reads keys (block + 1) (block + count + 1)) :
    ∃ last, blocks.scrollDown value block count = .ok (blocks.start last) ∧
      block ≤ last ∧ last ≤ block + count ∧
      (last < block + count → keys (last + 1) ≠ value) ∧
      ∀ b, block < b → b ≤ last → keys b = value := by
  induction count generalizing block with
  | zero => exact ⟨block, rfl, by omega, by omega, by omega, by omega⟩
  | succ count ih =>
    have hk : blocks.key (block + 1) = .ok (keys (block + 1)) := h _ (by omega) (by omega)
    simp only [scrollDown, hk]
    split
    · rename_i he
      obtain ⟨last, hs, hle, hge, hne, hrun⟩ := ih (block + 1) (h.mono (by omega) (by omega))
      refine ⟨last, hs, by omega, by omega, fun hlt => hne (by omega), fun b h1 h2 => ?_⟩
      by_cases hb : b = block + 1
      · rw [hb]
        exact he
      · exact hrun b (by omega) h2
    · rename_i hne
      exact ⟨block, rfl, by omega, by omega, fun _ => hne, by omega⟩

end Blocks

end SnapList.Search
