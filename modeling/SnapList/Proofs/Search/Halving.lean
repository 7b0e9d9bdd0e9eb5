/-
  Halving: what a search makes of a window of blocks.

  Halving the window compares a middle block with the key and drops a part of it. Without any
  order of the keys one thing is known of what is left (`Probe.Sound`): if blocks were dropped
  in front, the first block left is below the key, and if blocks were dropped behind, the first
  of those is above it. With keys in ascending order that settles all the blocks dropped.

  Main statements: halving ends, and with a sound probe (`bisect_spec`), so a search comes to its
  verdict by a scan or by a scroll (`search_ascent`, `search_descent`); in a window of ascending
  keys it finds what a look through the whole window finds, downwards (`search_down`), and upwards
  if no block before the window has the key (`search_up`).
-/
import Mathlib.Algebra.Group.Int.Defs
import SnapList.Proofs.Search.Verdict

namespace SnapList.Search.Blocks

/-- What halving the window from `low` to `high` may end with: a part of it whose first block is
below the key unless it is `low`, and behind which the next block is above the key unless it
ends at `high`; or a block that has the key, in a part that ends like that. -/
def Probe.Sound (keys : Int → Int64) (value : Int64) (low high : Int) : Probe → Prop
  | .window low' high' =>
    low ≤ low' ∧ high' ≤ high ∧ (low < low' → keys low' < value) ∧
      (high' < high → value < keys (high' + 1)) ∧ (low ≤ high → low' ≤ high')
  | .hit block top =>
    low ≤ block ∧ block ≤ top ∧ top ≤ high ∧ keys block = value ∧
      (top < high → value < keys (top + 1))

/-- The bounds within which block numbers, their sums and their differences are words. -/
structure Window (low high : Int) : Prop where
  low_nonneg : 0 ≤ low
  low_le : low ≤ 2 ^ 63 - 2
  high_ge : -1 ≤ high
  high_lt : high < 2 ^ 62

variable {blocks : Blocks} {keys : Int → Int64} {value : Int64} {low high : Int}

/-! ## The probe -/

/-- A middle block below the key may be put in front again. -/
theorem Probe.Sound.widen_low {probe : Probe} {mid : Int} (h : probe.Sound keys value mid high)
    (hl : low < mid) (hh : mid < high) (hmid : keys mid < value) :
    probe.Sound keys value low high := by
  cases probe with
  | window low' high' =>
    obtain ⟨h1, h2, h3, h4, h5⟩ := h
    refine ⟨by omega, h2, fun _ => ?_, h4, fun _ => h5 (by omega)⟩
    by_cases he : low' = mid
    · rw [he]
      exact hmid
    · exact h3 (by omega)
  | hit block top =>
    obtain ⟨h1, h2, h3, h4, h5⟩ := h
    exact ⟨by omega, h2, h3, h4, h5⟩

/-- A middle block above the key may be put behind again, with all that follow it. -/
theorem Probe.Sound.widen_high {probe : Probe} {mid : Int}
    (h : probe.Sound keys value low (mid - 1)) (hl : low < mid) (hh : mid < high)
    (hmid : value < keys mid) : probe.Sound keys value low high := by
  have habove : ∀ top, top ≤ mid - 1 → (top < mid - 1 → value < keys (top + 1)) →
      value < keys (top + 1) := by
    intro top hle ht
    by_cases he : top = mid - 1
    · have e : top + 1 = mid := by omega
      rw [e]
      exact hmid
    · exact ht (by omega)
  cases probe with
  | window low' high' =>
    obtain ⟨h1, h2, h3, h4, h5⟩ := h
    exact ⟨h1, by omega, h3, fun _ => habove high' h2 h4, fun _ => h5 (by omega)⟩
  | hit block top =>
    obtain ⟨h1, h2, h3, h4, h5⟩ := h
    exact ⟨h1, h2, by omega, h4, fun _ => habove top h3 h5⟩

theorem Window.fits_sub (h : Window low high) : Word.Fits (high - low) := by
  -- The floor may lie far past the last block, so it is the bound on `low` that is needed here.
  have hbelow : -2 ^ 63 ≤ high - low := by
    have hlow := h.low_le
    have hhigh := h.high_ge
    omega
  have habove : high - low < 2 ^ 63 := by
    have hlow := h.low_nonneg
    have hhigh := h.high_lt
    omega
  exact ⟨hbelow, by omega⟩

theorem Window.fits_add (h : Window low high) (hlt : low < high) : Word.Fits (low + high) := by
  have hlow := h.low_nonneg
  have hhigh := h.high_lt
  exact ⟨by omega, by omega⟩

theorem bisect_of_narrow {crossover : Crossover} (hw : Window low high)
    (h : high - low ≤ crossover.width) :
    blocks.bisect crossover value low high = .ok (.window low high) := by
  rw [bisect, if_neg (not_not_intro hw.fits_sub), if_pos h]

/-- Halving a window whose blocks can be read ends with a sound probe. A window that is halved
has at least three blocks, so its middle block is neither the first nor the last. -/
theorem bisect_spec (crossover : Crossover) (value : Int64) (hw : Window low high)
    (hr : blocks.Reads keys low (high + 1)) :
    ∃ probe, blocks.bisect crossover value low high = .ok probe ∧
      probe.Sound keys value low high := by
  have hpos := crossover.pos
  fun_induction bisect blocks crossover value low high with
  | case1 low high hfit => exact absurd hw.fits_sub hfit
  | case2 low high hfit hle =>
    exact ⟨.window low high, rfl, by omega, by omega, by omega, by omega, id⟩
  | case3 low high hfit hgt hadd => exact absurd (hw.fits_add (by omega)) hadd
  | case4 low high hfit hgt hadd fault hk =>
    rw [hr _ (by omega) (by omega)] at hk
    cases hk
  | case5 low high hfit hgt hadd key hk hlt ih =>
    rw [hr _ (by omega) (by omega)] at hk
    cases hk
    obtain ⟨h1, h2, h3, h4⟩ := hw
    obtain ⟨probe, hp, hs⟩ := ih ⟨by omega, by omega, h3, h4⟩ (hr.mono (by omega) (by omega))
    exact ⟨probe, hp, hs.widen_low (by omega) (by omega) hlt⟩
  | case6 low high hfit hgt hadd key hk hge hlt hmid ih =>
    rw [hr _ (by omega) (by omega)] at hk
    cases hk
    obtain ⟨h1, h2, h3, h4⟩ := hw
    obtain ⟨probe, hp, hs⟩ := ih ⟨h1, h2, by omega, by omega⟩ (hr.mono (by omega) (by omega))
    exact ⟨probe, hp, hs.widen_high (by omega) (by omega) hlt⟩
  | case7 low high hfit hgt hadd key hk hge hlt hmid =>
    obtain ⟨h1, h2, h3, h4⟩ := hw
    exact absurd ⟨by omega, by omega⟩ hmid
  | case8 low high hfit hgt hadd key hk hge hle =>
    rw [hr _ (by omega) (by omega)] at hk
    cases hk
    have he : keys ((low + high) / 2) = value := by grind
    exact ⟨.hit _ high, rfl, by omega, by omega, by omega, he, by omega⟩

/-! ## The search -/

/-- The keys from `low` up to `stop` are in ascending order; several may be equal. -/
def Ascending (keys : Int → Int64) (low stop : Int) : Prop :=
  ∀ a b, low ≤ a → a ≤ b → b < stop → keys a ≤ keys b

theorem Ascending.mono {stop low' : Int} (h : Ascending keys low stop) (hl : low ≤ low') :
    Ascending keys low' stop :=
  fun a b h1 h2 h3 => h a b (by omega) h2 h3

theorem add_one_of_window (hw : Window low high) {top : Int} (h0 : -1 ≤ top) (ht : top ≤ high) :
    Word.add top 1 = .ok (top + 1) := by
  have := hw.high_lt
  exact Word.checked_of_fits ⟨by omega, by omega⟩

/-- Where there is nothing to look at, a search misses: upwards at the end of the window, downwards
at its floor. -/
theorem search_of_empty (crossover : Crossover) (value : Int64) (direction : Direction)
    (hw : Window low high) (h : high < low) :
    blocks.search crossover value direction low high =
      blocks.report (.miss (match direction with | .up => high + 1 | .down => low)) := by
  have hpos := crossover.pos
  have e : (high + 1 - low).toNat = 0 := by omega
  unfold search
  rw [bisect_of_narrow hw (by omega)]
  simp only [add_one_of_window hw hw.high_ge (Int.le_refl _), e]
  cases direction <;> rfl

/-- How an upward search of a window comes to its verdict, whatever the order of the keys. -/
inductive Ascent (crossover : Crossover) (keys : Int → Int64) (value : Int64) (low high : Int) :
    Verdict → Prop
  /-- By a scan of what halving left of the window. -/
  | scan {low' high' : Int} {verdict : Verdict}
      (hs : (Probe.window low' high').Sound keys value low high)
      (h : Lowest keys value low' (high' + 1) verdict) : Ascent crossover keys value low high verdict
  /-- By a scroll from a middle block of a wide window to the first block of its run. -/
  | scroll {block top first : Int} (hwide : crossover.width < high - low)
      (hs : (Probe.hit block top).Sound keys value low high) (h0 : 0 ≤ first) (hle : first ≤ block)
      (hrun : ∀ b, first ≤ b → b ≤ block → keys b = value)
      (hend : 0 < first → keys (first - 1) ≠ value) :
      Ascent crossover keys value low high (.hit first)

/-- How a downward search of a window comes to its verdict, whatever the order of the keys. -/
inductive Descent (keys : Int → Int64) (value : Int64) (low high : Int) : Verdict → Prop
  /-- By a scan of what halving left of the window. -/
  | scan {low' high' : Int} {verdict : Verdict}
      (hs : (Probe.window low' high').Sound keys value low high)
      (h : Highest keys value low' (high' + 1) verdict) : Descent keys value low high verdict
  /-- By a scroll from a middle block to the last block of its run that halving left. -/
  | scroll {block top last : Int} (hs : (Probe.hit block top).Sound keys value low high)
      (hge : block ≤ last) (hle : last ≤ top) (hrun : ∀ b, block ≤ b → b ≤ last → keys b = value)
      (hend : last < top → keys (last + 1) ≠ value) : Descent keys value low high (.hit last)

/-- An upward search reads no block behind its window, but it may read blocks before it. -/
theorem search_ascent (crossover : Crossover) (value : Int64) (hw : Window low high)
    (hle : low ≤ high) (hr : blocks.Reads keys 0 (high + 1)) :
    ∃ verdict, blocks.search crossover value .up low high = blocks.report verdict ∧
      Ascent crossover keys value low high verdict := by
  have h0 := hw.low_nonneg
  obtain ⟨probe, hp, hs⟩ := bisect_spec crossover value hw (hr.mono h0 (Int.le_refl _))
  unfold search
  rw [hp]
  cases probe with
  | window low' high' =>
    have ⟨h1, h2, h3, h4, h5⟩ := hs
    have h5' := h5 hle
    have e : high' + 1 - ((high' + 1 - low').toNat : Int) = low' := by omega
    obtain ⟨verdict, hv, hl⟩ := scanUp_spec value (high' + 1) (high' + 1 - low').toNat
      (hr.mono (by omega) (by omega))
    rw [e] at hl
    refine ⟨verdict, ?_, .scan hs hl⟩
    simp only [add_one_of_window hw (by omega) h2]
    exact hv
  | hit block top =>
    have ⟨h1, h2, h3, h4, h5⟩ := hs
    have e : (block.toNat : Int) = block := by omega
    have hwide : crossover.width < high - low := Int.not_le.1 fun hnarrow => by
      rw [bisect_of_narrow hw hnarrow] at hp
      cases hp
    obtain ⟨first, hv, hf0, hf1, hend, hrun⟩ := scrollUp_spec value block.toNat
      (hr.mono (Int.le_refl _) (by omega))
    rw [e] at hf1 hrun
    refine ⟨.hit first, hv, .scroll hwide hs hf0 hf1 (fun b hb1 hb2 => ?_) hend⟩
    by_cases hb : b = block
    · rw [hb]
      exact h4
    · exact hrun b hb1 (by omega)

/-- A downward search reads no block outside its window. -/
theorem search_descent (crossover : Crossover) (value : Int64) (hw : Window low high)
    (hle : low ≤ high) (hr : blocks.Reads keys low (high + 1)) :
    ∃ verdict, blocks.search crossover value .down low high = blocks.report verdict ∧
      Descent keys value low high verdict := by
  have h0 := hw.low_nonneg
  obtain ⟨probe, hp, hs⟩ := bisect_spec crossover value hw hr
  unfold search
  rw [hp]
  cases probe with
  | window low' high' =>
    have ⟨h1, h2, h3, h4, h5⟩ := hs
    have h5' := h5 hle
    have e : low' + ((high' + 1 - low').toNat : Int) = high' + 1 := by omega
    obtain ⟨verdict, hv, hh⟩ := scanDown_spec value low' (high' + 1 - low').toNat (by omega)
      (by have := hw.high_lt; omega) (hr.mono (by omega) (by omega))
    rw [e] at hh
    refine ⟨verdict, ?_, .scan hs hh⟩
    simp only [add_one_of_window hw (by omega) h2]
    exact hv
  | hit block top =>
    have ⟨h1, h2, h3, h4, h5⟩ := hs
    have e : block + ((top - block).toNat : Int) = top := by omega
    obtain ⟨last, hv, hl1, hl2, hend, hrun⟩ := scrollDown_spec value block (top - block).toNat
      (hr.mono (by omega) (by omega))
    rw [e] at hl2 hend
    refine ⟨.hit last, hv, .scroll hs hl1 hl2 (fun b hb1 hb2 => ?_) hend⟩
    by_cases hb : b = block
    · rw [hb]
      exact h4
    · exact hrun b (by omega) hb2

/-- A search downwards finds the highest block with the key. -/
theorem search_down (crossover : Crossover) (value : Int64) {stop : Int} (he : stop = high + 1)
    (hw : Window low high) (hle : low ≤ high) (hr : blocks.Reads keys low stop)
    (ha : Ascending keys low stop) :
    ∃ verdict, blocks.search crossover value .down low high = blocks.report verdict ∧
      Highest keys value low stop verdict := by
  subst he
  obtain ⟨verdict, hv, hd⟩ := search_descent crossover value hw hle hr
  refine ⟨verdict, hv, ?_⟩
  cases hd with
  | scan hs h =>
    obtain ⟨h1, h2, h3, h4, h5⟩ := hs
    have h5' := h5 hle
    refine h.widen h1 (by omega) ?_ ?_
    · intro hlt
      exact Int64.lt_of_le_of_lt (ha _ _ (by omega) (by omega) (by omega)) (h3 hlt)
    · intro b hb1 hb2
      exact Int64.lt_of_lt_of_le (h4 (by omega)) (ha _ _ (by omega) (by omega) hb2)
  | @scroll block top last hs hge hlast hrun hend =>
    obtain ⟨h1, h2, h3, h4, h5⟩ := hs
    have hkey : keys last = value := hrun last hge (Int.le_refl _)
    refine ⟨by omega, by omega, hkey, fun b hb1 hb2 => ?_⟩
    have hb : keys (last + 1) ≤ keys b := ha _ _ (by omega) (by omega) hb2
    have hnext : value < keys (last + 1) := by
      by_cases ht : last = top
      · rw [ht]
        exact h5 (by omega)
      · have hle : keys last ≤ keys (last + 1) := ha _ _ (by omega) (by omega) (by omega)
        have := hend (by omega)
        grind
    exact Int64.lt_of_lt_of_le hnext hb

/-- In ascending keys the block before a run is below its key, and so are all before that one. -/
theorem Ascending.lt_of_lt_run {stop first : Int} (ha : Ascending keys low stop)
    (hlt : first < stop) (hkey : keys first = value)
    (hend : low < first → keys (first - 1) ≠ value) {b : Int} (hb : low ≤ b) (hb' : b < first) :
    keys b < value := by
  have h1 : keys b ≤ keys (first - 1) := ha _ _ hb (by omega) (by omega)
  have h2 : keys (first - 1) ≤ keys first := ha _ _ (by omega) (by omega) hlt
  have := hend (by omega)
  grind

/-- A search upwards finds the lowest block with the key, if no block before the window has it:
a scroll does not stop at the floor of the window by itself. -/
theorem search_up (crossover : Crossover) (value : Int64) {stop : Int} (he : stop = high + 1)
    (hw : Window low high) (hle : low ≤ high) (hr : blocks.Reads keys 0 stop)
    (ha : Ascending keys low stop) (hc : ∀ b, 0 ≤ b → b < low → keys b ≠ value) :
    ∃ verdict, blocks.search crossover value .up low high = blocks.report verdict ∧
      Lowest keys value low stop verdict := by
  subst he
  obtain ⟨verdict, hv, hd⟩ := search_ascent crossover value hw hle hr
  refine ⟨verdict, hv, ?_⟩
  cases hd with
  | scan hs h =>
    obtain ⟨h1, h2, h3, h4, h5⟩ := hs
    have h5' := h5 hle
    refine h.widen h1 (by omega) ?_ ?_
    · intro b hb1 hb2
      exact Int64.lt_of_le_of_lt (ha _ _ hb1 (by omega) (by omega)) (h3 (by omega))
    · intro hlt
      exact h4 (by omega)
  | @scroll block top first hwide hs hf0 hfirst hrun hend =>
    obtain ⟨h1, h2, h3, h4, h5⟩ := hs
    have hkey : keys first = value := hrun first (Int.le_refl _) hfirst
    have hfloor : low ≤ first := Int.not_lt.1 fun hlt => hc first hf0 hlt hkey
    have h0 := hw.low_nonneg
    refine ⟨hfloor, by omega, hkey, fun b hb1 hb2 => ?_⟩
    exact ha.lt_of_lt_run (by omega) hkey (fun hlt => hend (by omega)) hb1 hb2

end SnapList.Search.Blocks
