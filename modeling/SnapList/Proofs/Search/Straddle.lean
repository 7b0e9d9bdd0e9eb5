/-
  A run of equal keys across the floor of an upward search.

  A search from a floor on is meant for the blocks from there on. If a block before the floor has
  the key, an upward search may find that run by its end behind the floor: halving meets a block
  with the key, and the scroll from there does not stop at the floor. A scan does not leave the
  window, so this takes a window that is wide enough to be halved.

  Main statements: over ascending keys the verdict is the first block with the key, counted from the
  floor or from block zero, or a miss at the floor (`Blocks.Ascent.straddled`), and a query of this
  kind hits exactly when a block from its floor on has the key (`find_straddled`).
-/
import Mathlib.Order.Bounds.Defs
import SnapList.Proofs.Search.Linear

namespace SnapList.Search

/-- `block` is the lowest from `floor` on that has the key. -/
def Leads (keys : List Int64) (floor : Nat) (value : Int64) (block : Nat) : Prop :=
  IsLeast {b | b ∈ hits keys floor value} block

/-- The verdict of an upward search for a key that some block before the floor has. -/
inductive Straddled (crossover : Crossover) (keys : List Int64) (floor : Nat) (value : Int64) :
    Verdict → Prop
  /-- No block from the floor on has the key. -/
  | miss {block : Nat} (hblock : block = min floor keys.length)
      (hnone : hits keys floor value = []) : Straddled crossover keys floor value (.miss block)
  /-- The run behind the floor is found by its begin there. -/
  | near {block : Nat} (h : Leads keys floor value block) :
    Straddled crossover keys floor value (.hit block)
  /-- The run is followed to its begin before the floor. -/
  | far {block : Nat} (hwide : crossover.width + 1 < (keys.length : Int) - floor)
      (hsome : hits keys floor value ≠ []) (h : Leads keys 0 value block) :
    Straddled crossover keys floor value (.hit block)

variable {crossover : Crossover} {keys : List Int64} {value : Int64} {floor before : Nat}
  {verdict : Verdict}

/-! ## The verdict -/

theorem leads_floor (hlt : floor < keys.length) (hkey : keyOf keys floor = value) :
    Leads keys floor value floor :=
  ⟨mem_hits.2 ⟨Nat.le_refl _, getElem?_eq_some_iff_keyOf.2 ⟨hlt, hkey⟩⟩,
    fun _ hb => (mem_hits.1 hb).1⟩

theorem leads_zero {block : Nat} (hlt : block < keys.length) (hkey : keyOf keys block = value)
    (hbelow : ∀ b : Int, 0 ≤ b → b < block → keyOf keys b < value) : Leads keys 0 value block := by
  refine ⟨mem_hits.2 ⟨Nat.zero_le _, getElem?_eq_some_iff_keyOf.2 ⟨hlt, hkey⟩⟩, fun b hb => ?_⟩
  obtain ⟨-, hb⟩ := getElem?_eq_some_iff_keyOf.1 (mem_hits.1 hb).2
  refine Nat.not_lt.1 fun hlt => ?_
  have := hbelow b (by omega) (by omega)
  grind

theorem Leads.lt_length {block : Nat} (h : Leads keys floor value block) : block < keys.length :=
  (List.getElem?_eq_some_iff.1 (mem_hits.1 h.1).2).1

/-- From a floor whose key is not below the searched one a scan does not get away. -/
theorem Lowest.straddled {stop : Int} (h : Lowest (keyOf keys) value floor stop verdict)
    (ha : keys.Pairwise (· ≤ ·)) (hlt : floor < stop) (hs : stop ≤ keys.length)
    (hge : value ≤ keyOf keys floor) : Straddled crossover keys floor value verdict := by
  have hfirst : ∀ block : Int, floor ≤ block →
      (∀ b : Int, floor ≤ b → b < block → keyOf keys b < value) → block = floor := by
    intro block hle hbelow
    by_contra hne
    have := hbelow floor (Int.le_refl _) (by omega)
    grind
  cases verdict with
  | hit block =>
    obtain ⟨hle, -, hv, hbelow⟩ := h
    obtain rfl := hfirst block hle hbelow
    exact .near (leads_floor (by omega) hv)
  | miss block =>
    obtain ⟨hle, -, hv, hbelow⟩ := h
    obtain rfl := hfirst block hle hbelow
    refine .miss (by omega) (hits_eq_nil fun b hfb hb => ?_)
    obtain ⟨hn, hb⟩ := getElem?_eq_some_iff_keyOf.1 hb
    have := hv hlt
    have := ascending_keyOf ha floor b (by omega) (by omega) (by omega)
    grind

/-- Over ascending keys an upward search for a key that a block before the floor has finds the run of
that key, if it reaches the floor, by one of its two begins. -/
theorem Blocks.Ascent.straddled
    (h : Ascent crossover (keyOf keys) value floor ((keys.length : Int) - 1) verdict)
    (ha : keys.Pairwise (· ≤ ·)) (hn : floor < keys.length) (hb : before < floor)
    (hkey : keys[before]? = some value) : Straddled crossover keys floor value verdict := by
  have hasc := ascending_keyOf ha
  have hge : ∀ b : Int, floor ≤ b → b < keys.length → value ≤ keyOf keys b := by
    intro b hb1 hb2
    rw [← (getElem?_eq_some_iff_keyOf.1 hkey).2]
    exact hasc _ _ (by omega) (by omega) hb2
  cases h with
  | @scan low' high' verdict hs h =>
    obtain ⟨h1, h2, h3, h4, h5⟩ := hs
    have h5' := h5 (by omega)
    -- Halving drops blocks in front only up to one that is below the key.
    have hlow : low' = floor := by
      by_contra hne
      have := h3 (by omega)
      have := hge low' h1 (by omega)
      grind
    subst hlow
    exact h.straddled ha (by omega) (by omega) (hge _ (Int.le_refl _) (by omega))
  | @scroll block top first hwide hs h0 hle hrun hend =>
    obtain ⟨h1, h2, h3, h4, -⟩ := hs
    obtain ⟨first, rfl⟩ := Int.eq_ofNat_of_zero_le h0
    have hfirst := hrun first (Int.le_refl _) hle
    have hfloor : keyOf keys floor = value := by
      have := hasc floor block (by omega) h1 (by omega)
      have := hge floor (Int.le_refl _) (by omega)
      grind
    refine .far (by omega) (List.ne_nil_of_mem (leads_floor hn hfloor).1)
      (leads_zero (by omega) hfirst ?_)
    intro b hb1 hb2
    exact hasc.lt_of_lt_run (by omega) hfirst hend hb1 hb2

/-! ## Queries -/

variable {slots : Slots} {len : Nat} {query : Query}

/-- An upward query for a key that some block before its floor has is answered with such a verdict. -/
theorem Query.Allowed.exists_straddled (h : query.Allowed slots len) (crossover : Crossover)
    (hup : query.direction = .up) (ha : (blockKeys slots len query.shl).Pairwise (· ≤ ·))
    (hb : before < query.floor)
    (hkey : (blockKeys slots len query.shl)[before]? = some query.value) :
    ∃ verdict : Verdict,
      (Column.ofSlots slots).findWith crossover len query = .ok (verdict.encode query.shl) ∧
        Straddled crossover (blockKeys slots len query.shl) query.floor query.value verdict := by
  have hlen := length_blockKeys slots len query.shl
  have hstop : (blockCount len query.shl : Int) - 1 + 1 = blockCount len query.shl := by omega
  rw [h.findWith_eq_search, hup]
  rcases Nat.lt_or_ge query.floor (blockCount len query.shl) with hn | hn
  · have hr := reads_ofSlots query.shl h.len_le_size h.len_le
    rw [← hstop] at hr
    obtain ⟨verdict, hv, hs⟩ :=
      Blocks.search_ascent crossover query.value h.window (by omega) hr
    rw [← hlen] at hs
    have hst := hs.straddled ha (by omega) hb hkey
    refine ⟨verdict, ?_, hst⟩
    rw [hv]
    cases hst with
    | @miss block hblock hnone =>
      exact h.report_eq_encode _ (Int.natCast_nonneg _) (Or.inl (by simp only [Verdict.block]; omega))
    | @near block hleads | @far block _ _ hleads =>
      have := hleads.lt_length
      exact h.report_eq_encode _ (Int.natCast_nonneg _) (Or.inl (by simp only [Verdict.block]; omega))
  · have hnone : hits (blockKeys slots len query.shl) query.floor query.value = [] := by
      refine hits_eq_nil fun b hfb hb => ?_
      have := (List.getElem?_eq_some_iff.1 hb).1
      omega
    refine ⟨.miss (blockCount len query.shl), ?_, .miss (by omega) hnone⟩
    rw [Blocks.search_of_empty crossover _ _ h.window (by omega)]
    simp only [hstop]
    exact h.report_eq_encode _ (Int.natCast_nonneg _) (Or.inl (Int.le_refl _))

/-- An upward query over ascending keys, for a key that some block before its floor has, hits if and
only if a block from the floor on has it too. The hit is the first block with the key from the floor
on or, if more than 66 blocks lie there, possibly the first of all; a miss names the floor, or the
end if that comes before it. -/
theorem find_straddled (h : query.Allowed slots len) (hup : query.direction = .up)
    (ha : (blockKeys slots len query.shl).Pairwise (· ≤ ·))
    (hb : ∃ before < query.floor,
      (blockKeys slots len query.shl)[before]? = some query.value) :
    let keys := blockKeys slots len query.shl
    ∃ answer, (Column.ofSlots slots).find len query = .ok answer ∧
      (0 ≤ answer ↔ ∃ block, query.floor ≤ block ∧ keys[block]? = some query.value) ∧
      (0 ≤ answer → ∃ block : Nat, answer = block * 2 ^ query.shl ∧
        (Leads keys query.floor query.value block ∨ Leads keys 0 query.value block) ∧
        (keys.length - query.floor ≤ 66 → Leads keys query.floor query.value block)) ∧
      (answer < 0 →
        answer = -((min query.floor keys.length : Nat) * 2 ^ query.shl + 1)) := by
  intro keys
  obtain ⟨before, hb, hkey⟩ := hb
  obtain ⟨verdict, hv, hst⟩ := h.exists_straddled .tuned hup ha hb hkey
  refine ⟨_, hv, ?_⟩
  rw [← hits_ne_nil_iff]
  cases hst with
  | @miss block hblock hnone =>
    rw [encode_miss, ← hblock]
    refine ⟨⟨by omega, fun hne => absurd hnone hne⟩, by omega, fun _ => ?_⟩
    rw [Int.natCast_mul, two_pow_cast]
  | @near block hleads =>
    rw [encode_hit]
    refine ⟨⟨fun _ => List.ne_nil_of_mem hleads.1, by omega⟩, fun _ => ?_, by omega⟩
    refine ⟨block, ?_, Or.inl hleads, fun _ => hleads⟩
    rw [Int.natCast_mul, two_pow_cast]
  | @far block hwide hsome hleads =>
    rw [encode_hit]
    refine ⟨⟨fun _ => hsome, by omega⟩, fun _ => ?_, by omega⟩
    refine ⟨block, ?_, Or.inr hleads, fun hnarrow => ?_⟩
    · rw [Int.natCast_mul, two_pow_cast]
    · have hwidth : Crossover.tuned.width = 65 := rfl
      have hnarrow : (blockKeys slots len query.shl).length - query.floor ≤ 66 := hnarrow
      omega

/-- Among seventy blocks, forty of which have key 5, the search for 5 from the second block on is
halved and ends before its floor, at block zero; from behind the fortieth on it misses. -/
theorem find_twoRuns_straddled :
    (⟨3, 1, 5, .up⟩ : Query).Allowed twoRuns 139 ∧ (⟨91, 1, 5, .up⟩ : Query).Allowed twoRuns 139 ∧
      (blockKeys twoRuns 139 1).Pairwise (· ≤ ·) ∧
      (∃ before < 1, (blockKeys twoRuns 139 1)[before]? = some 5) ∧
      (Column.ofSlots twoRuns).find 139 ⟨3, 1, 5, .up⟩ = .ok 0 ∧
      Leads (blockKeys twoRuns 139 1) 0 5 0 ∧ ¬ Leads (blockKeys twoRuns 139 1) 1 5 0 ∧
      (Column.ofSlots twoRuns).find 139 ⟨91, 1, 5, .up⟩ = .ok (-91) := by
  have h : (⟨3, 1, 5, .up⟩ : Query).Allowed twoRuns 139 :=
    ⟨by decide +kernel, by norm_num, by norm_num, by norm_num⟩
  have h' : (⟨91, 1, 5, .up⟩ : Query).Allowed twoRuns 139 := ⟨h.1, h.2, h.3, by norm_num⟩
  have ha : (blockKeys twoRuns 139 1).Pairwise (· ≤ ·) := by decide +kernel
  have hzero : (blockKeys twoRuns 139 1)[0]? = some 5 := by decide +kernel
  have hfind : (Column.ofSlots twoRuns).find 139 ⟨3, 1, 5, .up⟩ = .ok 0 := by decide +kernel
  have hfar : ¬ Leads (blockKeys twoRuns 139 1) 1 5 0 := fun hleads =>
    absurd (mem_hits.1 hleads.1).1 (by decide)
  obtain ⟨answer, hanswer, -, hhit, -⟩ := find_straddled h rfl ha ⟨0, by decide, hzero⟩
  obtain rfl : 0 = answer := Except.ok.inj (hfind.symm.trans hanswer)
  obtain ⟨block, hblock, hleads, -⟩ := hhit (by decide)
  obtain rfl : block = 0 := by
    norm_num at hblock
    exact hblock
  have hnone : ¬ ∃ block, 45 ≤ block ∧ (blockKeys twoRuns 139 1)[block]? = some 5 := by
    rw [← hits_ne_nil_iff]
    decide +kernel
  obtain ⟨answer, hanswer, hiff, -, hmiss⟩ := find_straddled h' rfl ha ⟨0, by decide, hzero⟩
  have hneg : answer < 0 := Int.not_le.1 fun hge => hnone (hiff.1 hge)
  obtain rfl : answer = -91 := (hmiss hneg).trans (by decide +kernel)
  exact ⟨h, h', ha, ⟨0, by decide, hzero⟩, hfind, hleads.resolve_left hfar, hfar, hanswer⟩

end SnapList.Search
