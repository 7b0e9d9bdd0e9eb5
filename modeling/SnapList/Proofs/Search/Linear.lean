/-
  The block search agrees with its linear reference.

  The reference knows no windows and no halving. Over blocks in ascending order a search gives its
  answer, downwards always, and upwards if no block before the floor has the key.

  Main statements: such a search answers what the reference answers (`find_eq_linear`), whatever its
  crossover (`findWith_eq_linear`), and reports the same verdict even where blocks are too large for
  it to be told (`search_eq_report_linear`).
-/
import SnapList.Proofs.Search.Reference

namespace SnapList.Search

variable {slots : Slots} {len : Nat} {query : Query}

/-- Over blocks in ascending order a search reports the verdict of the reference, from whatever
width of the window on it halves: downwards always, and upwards if no block before the floor has
the key. -/
theorem search_eq_report_linear {blocks : Blocks} {keys : List Int64} {floor : Nat}
    (crossover : Crossover) (value : Int64) (direction : Direction)
    (hw : Blocks.Window floor ((keys.length : Int) - 1))
    (hr : blocks.Reads (keyOf keys) 0 keys.length) (ha : keys.Pairwise (· ≤ ·))
    (hc : direction = .up → ∀ block < floor, keys[block]? ≠ some value) :
    blocks.search crossover value direction floor ((keys.length : Int) - 1) =
      blocks.report (Verdict.linear keys floor value direction) := by
  have hasc := ascending_keyOf ha
  rcases Nat.lt_or_ge floor keys.length with hn | hn
  · cases direction with
    | up =>
      have hclear : ∀ b, 0 ≤ b → b < (floor : Int) → keyOf keys b ≠ value := by
        intro b h0 hlt hv
        obtain ⟨b, rfl⟩ := Int.eq_ofNat_of_zero_le h0
        exact hc rfl b (by omega) (getElem?_eq_some_iff_keyOf.2 ⟨by omega, hv⟩)
      obtain ⟨verdict, hs, hv⟩ := Blocks.search_up crossover value (by omega) hw (by omega)
        hr (hasc.mono (by omega)) hclear
      rw [hs, hv.eq_linear ha hn]
    | down =>
      obtain ⟨verdict, hs, hv⟩ := Blocks.search_down crossover value (by omega) hw (by omega)
        (hr.mono (by omega) (by omega)) (hasc.mono (by omega))
      rw [hs, hv.eq_linear ha hn]
  · rw [linear_of_past_end _ hn, Blocks.search_of_empty crossover _ _ hw (by omega)]
    cases direction with
    | up => simp only [Int.sub_add_cancel]
    | down => rfl

theorem findWith_eq_linear (crossover : Crossover) (h : query.Allowed slots len)
    (ha : (blockKeys slots len query.shl).Pairwise (· ≤ ·))
    (hc : query.direction = .up →
      ∀ block < query.floor, (blockKeys slots len query.shl)[block]? ≠ some query.value) :
    (Column.ofSlots slots).findWith crossover len query =
      .ok ((Verdict.linear (blockKeys slots len query.shl) query.floor query.value
        query.direction).encode query.shl) := by
  have hlen := length_blockKeys slots len query.shl
  have hw := h.window
  have hr := reads_ofSlots query.shl h.len_le_size h.len_le
  obtain ⟨h0, hle⟩ :=
    linear_block_le (blockKeys slots len query.shl) query.floor query.value query.direction
  rw [h.findWith_eq_search]
  rw [← hlen] at hw hr ⊢
  rw [search_eq_report_linear crossover query.value query.direction hw hr ha hc]
  rw [hlen] at hle
  exact h.report_eq_encode _ h0 hle

/-- The search of slots whose block keys ascend agrees with the reference. Payload, a partial last
block, an offset inside a block and one behind the end are all allowed. -/
theorem find_eq_linear (h : query.Allowed slots len)
    (ha : (blockKeys slots len query.shl).Pairwise (· ≤ ·))
    (hc : query.direction = .up →
      ∀ block < query.floor, (blockKeys slots len query.shl)[block]? ≠ some query.value) :
    (Column.ofSlots slots).find len query =
      .ok ((Verdict.linear (blockKeys slots len query.shl) query.floor query.value
        query.direction).encode query.shl) :=
  findWith_eq_linear .tuned h ha hc

/-- Forty blocks with key 5 and thirty with key 9, and a payload in no order. -/
def twoRuns : Slots :=
  (List.replicate 40 [(5 : Int64), 100] ++ List.replicate 30 [9, -100]).flatten.toArray

/-- A search for 9 over all but the last payload halves the window, and from an offset inside the
second block it finds the lowest of thirty equal keys. -/
theorem find_twoRuns :
    (⟨3, 1, 9, .up⟩ : Query).Allowed twoRuns 139 ∧ (blockKeys twoRuns 139 1).Pairwise (· ≤ ·) ∧
      (∀ block < 1, (blockKeys twoRuns 139 1)[block]? ≠ some 9) ∧
      (Column.ofSlots twoRuns).find 139 ⟨3, 1, 9, .up⟩ = .ok 80 := by
  have h : (⟨3, 1, 9, .up⟩ : Query).Allowed twoRuns 139 :=
    ⟨by decide +kernel, by norm_num, by norm_num, by norm_num⟩
  have ha : (blockKeys twoRuns 139 1).Pairwise (· ≤ ·) := by decide +kernel
  have hc : ∀ block < 1, (blockKeys twoRuns 139 1)[block]? ≠ some 9 := by decide +kernel
  have hv : (Verdict.linear (blockKeys twoRuns 139 1) 1 9 .up).encode 1 = 80 := by
    decide +kernel
  have hf := find_eq_linear h ha fun _ => hc
  exact ⟨h, ha, hc, hf.trans (congrArg Except.ok hv)⟩

end SnapList.Search
