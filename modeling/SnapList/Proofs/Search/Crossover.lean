/-
  The crossover is only a matter of speed.

  A search halves its window down to the crossover and scans what is left. A smaller crossover
  halves further, and one as wide as the row of blocks does not halve at all: then the search is
  one scan, from below or from above.

  Main statement: over blocks in ascending order every crossover gives the answer of the tuned one,
  and so does the scan alone (`find_eq_findWith`), downwards always, and upwards if no block before
  the floor has the key.
-/
import SnapList.Proofs.Search.Linear

namespace SnapList.Search

namespace Blocks

/-- A scan of the blocks from `low` up to `stop`, begun at the end that the direction asks for. -/
def scan (blocks : Blocks) (value : Int64) (direction : Direction) (low stop : Int) :
    Except Fault Int :=
  match direction with
  | .up => blocks.scanUp value stop (stop - low).toNat
  | .down => blocks.scanDown value low (stop - low).toNat

/-- A window within the crossover is scanned as it is. -/
theorem search_of_narrow {blocks : Blocks} {crossover : Crossover} (value : Int64)
    (direction : Direction) {low high : Int} (hw : Window low high)
    (h : high - low ≤ crossover.width) :
    blocks.search crossover value direction low high =
      blocks.scan value direction low (high + 1) := by
  unfold search
  rw [bisect_of_narrow hw h]
  simp only [add_one_of_window hw hw.high_ge (Int.le_refl _)]
  cases direction <;> rfl

end Blocks

variable {slots : Slots} {len : Nat} {query : Query}

/-- With a crossover as wide as the row of blocks a query is answered by one scan from its floor. -/
theorem Query.Allowed.findWith_of_wide (h : query.Allowed slots len) (column : Column)
    {crossover : Crossover} (hwide : blockCount len query.shl ≤ crossover.width) :
    column.findWith crossover len query =
      Blocks.scan ⟨column, query.shl⟩ query.value query.direction query.floor
        (blockCount len query.shl) := by
  have hnarrow : (blockCount len query.shl : Int) - 1 - query.floor ≤ crossover.width := by omega
  have hstop : (blockCount len query.shl : Int) - 1 + 1 = blockCount len query.shl := by omega
  rw [h.findWith_eq_search, Blocks.search_of_narrow _ _ h.window hnarrow, hstop]

/-- Whatever its crossover, a search of ascending blocks gives the answer of the tuned search; with
a crossover as wide as the row of blocks it is a single scan. -/
theorem find_eq_findWith (crossover : Crossover) (h : query.Allowed slots len)
    (ha : (blockKeys slots len query.shl).Pairwise (· ≤ ·))
    (hc : query.direction = .up →
      ∀ block < query.floor, (blockKeys slots len query.shl)[block]? ≠ some query.value) :
    (∃ place, (Column.ofSlots slots).find len query = .ok place ∧
      (Column.ofSlots slots).findWith crossover len query = .ok place) ∧
    (blockCount len query.shl ≤ crossover.width →
      (Column.ofSlots slots).find len query =
        Blocks.scan ⟨Column.ofSlots slots, query.shl⟩ query.value query.direction query.floor
          (blockCount len query.shl)) := by
  have htuned : (Column.ofSlots slots).find len query = .ok _ :=
    findWith_eq_linear .tuned h ha hc
  have hother := findWith_eq_linear crossover h ha hc
  refine ⟨⟨_, htuned, hother⟩, ?_⟩
  intro hwide
  rw [htuned, ← hother]
  exact h.findWith_of_wide _ hwide

/-- Seventy blocks are more than the tuned search scans at once: it halves them once. A search that
halves as long as it can, and one scan from below, find the lowest of thirty equal keys as well. -/
theorem findWith_twoRuns :
    (⟨3, 1, 9, .up⟩ : Query).Allowed twoRuns 139 ∧ (blockKeys twoRuns 139 1).Pairwise (· ≤ ·) ∧
      (∀ block < 1, (blockKeys twoRuns 139 1)[block]? ≠ some 9) ∧
      (Column.ofSlots twoRuns).find 139 ⟨3, 1, 9, .up⟩ = .ok 80 ∧
      (Column.ofSlots twoRuns).findWith ⟨1, by decide⟩ 139 ⟨3, 1, 9, .up⟩ = .ok 80 ∧
      (Column.ofSlots twoRuns).findWith ⟨70, by decide⟩ 139 ⟨3, 1, 9, .up⟩ = .ok 80 := by
  have h : (⟨3, 1, 9, .up⟩ : Query).Allowed twoRuns 139 :=
    ⟨by decide +kernel, by norm_num, by norm_num, by norm_num⟩
  have ha : (blockKeys twoRuns 139 1).Pairwise (· ≤ ·) := by decide +kernel
  have hc : ∀ block < 1, (blockKeys twoRuns 139 1)[block]? ≠ some 9 := by decide +kernel
  obtain ⟨⟨place, htuned, hwide⟩, hscan⟩ := find_eq_findWith ⟨70, by decide⟩ h ha fun _ => hc
  have hfind : (Column.ofSlots twoRuns).find 139 ⟨3, 1, 9, .up⟩ = .ok 80 :=
    (hscan (by decide)).trans (by decide +kernel)
  obtain rfl : place = 80 := Except.ok.inj (htuned.symm.trans hfind)
  obtain ⟨⟨place, htuned', hnarrow⟩, -⟩ := find_eq_findWith ⟨1, by decide⟩ h ha fun _ => hc
  obtain rfl : place = 80 := Except.ok.inj (htuned'.symm.trans hfind)
  exact ⟨h, ha, hc, hfind, hnarrow, hwide⟩

end SnapList.Search
