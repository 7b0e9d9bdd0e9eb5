/-
  The linear reference of the block search.

  The reference sees only the keys of the blocks, as a list, and knows no windows: among the
  blocks from the floor on it takes those that have the key, and the first or the last of them;
  if there is none it counts the blocks that are below the key (`Verdict.linear`). Behind the last
  block an upward search reports the end and a downward search reports the floor.

  Main statements: in ascending keys the reference says what a look through the blocks finds
  (`Lowest.eq_linear`, `Highest.eq_linear`), and it tells by a sign whether some block has the key
  (`encode_linear_nonneg_iff`).
-/
import SnapList.Proofs.Search.Layout

namespace SnapList.Search

/-- The blocks from `floor` on that have the key, in order. -/
def hits (keys : List Int64) (floor : Nat) (value : Int64) : List Nat :=
  (List.range keys.length).filter fun block => floor ≤ block ∧ keys[block]? = some value

/-- Where a block with the key would stand: behind those from `floor` on that are below it. -/
def place (keys : List Int64) (floor : Nat) (value : Int64) : Nat :=
  floor + (keys.drop floor).countP fun key => key < value

def Verdict.linear (keys : List Int64) (floor : Nat) (value : Int64) : Direction → Verdict
  | .up =>
    match (hits keys floor value).head? with
    | some block => .hit block
    | none => .miss (if floor < keys.length then place keys floor value else keys.length : Nat)
  | .down =>
    match (hits keys floor value).getLast? with
    | some block => .hit block
    | none => .miss (if floor < keys.length then place keys floor value else floor : Nat)

/-! ## Hits -/

theorem mem_hits {keys : List Int64} {floor block : Nat} {value : Int64} :
    block ∈ hits keys floor value ↔ floor ≤ block ∧ keys[block]? = some value := by
  unfold hits
  rw [List.mem_filter, List.mem_range, decide_eq_true_iff]
  constructor
  · exact And.right
  · intro h
    exact ⟨(List.getElem?_eq_some_iff.1 h.2).1, h⟩

theorem hits_ne_nil_iff {keys : List Int64} {floor : Nat} {value : Int64} :
    hits keys floor value ≠ [] ↔ ∃ block, floor ≤ block ∧ keys[block]? = some value := by
  constructor
  · intro h
    obtain ⟨block, hmem⟩ := List.exists_mem_of_ne_nil _ h
    exact ⟨block, mem_hits.1 hmem⟩
  · rintro ⟨block, h⟩
    exact List.ne_nil_of_mem (mem_hits.2 h)

theorem hits_eq_nil {keys : List Int64} {floor : Nat} {value : Int64}
    (h : ∀ b, floor ≤ b → keys[b]? ≠ some value) : hits keys floor value = [] := by
  refine List.eq_nil_iff_forall_not_mem.2 fun b hmem => ?_
  obtain ⟨hfb, hv⟩ := mem_hits.1 hmem
  exact h b hfb hv

theorem head?_hits {keys : List Int64} {floor block : Nat} {value : Int64} (hf : floor ≤ block)
    (hb : keys[block]? = some value)
    (hlow : ∀ b, floor ≤ b → b < block → keys[b]? ≠ some value) :
    (hits keys floor value).head? = some block := by
  obtain ⟨hlt, -⟩ := List.getElem?_eq_some_iff.1 hb
  unfold hits
  rw [List.head?_filter, List.find?_range_eq_some]
  refine ⟨by simp [hf, hb], List.mem_range.2 hlt, fun b hlt => ?_⟩
  by_cases hb : floor ≤ b
  · simp [hlow b hb hlt]
  · simp [hb]

theorem getLast?_hits {keys : List Int64} {floor block : Nat} {value : Int64}
    (hf : floor ≤ block) (hb : keys[block]? = some value)
    (hhigh : ∀ b, block < b → keys[b]? ≠ some value) :
    (hits keys floor value).getLast? = some block := by
  obtain ⟨hlt, -⟩ := List.getElem?_eq_some_iff.1 hb
  unfold hits
  rw [List.getLast?_filter, List.find?_eq_some_iff_getElem]
  refine ⟨by simp [hf, hb], keys.length - 1 - block, by simp; omega, ?_, fun j hj => ?_⟩
  · simp
    omega
  · have hj' : block < keys.length - 1 - j := by omega
    simp [hhigh _ hj']

/-- The blocks below the key are counted up to the first one that is not. -/
theorem place_eq {keys : List Int64} {floor block : Nat} {value : Int64} (hf : floor ≤ block)
    (hb : block ≤ keys.length)
    (hbelow : ∀ b key, floor ≤ b → b < block → keys[b]? = some key → key < value)
    (habove : ∀ b key, block ≤ b → keys[b]? = some key → ¬ key < value) :
    place keys floor value = block := by
  have hfront : ((keys.drop floor).take (block - floor)).countP (fun key => key < value) =
      block - floor := by
    have hlen : ((keys.drop floor).take (block - floor)).length = block - floor := by
      rw [List.length_take, List.length_drop]
      omega
    rw [List.countP_eq_length.2, hlen]
    intro key hk
    obtain ⟨i, hi⟩ := List.mem_iff_getElem?.1 hk
    have hlt : i < block - floor := by
      rw [← hlen]
      exact (List.getElem?_eq_some_iff.1 hi).1
    rw [List.getElem?_take, if_pos hlt, List.getElem?_drop] at hi
    exact decide_eq_true (hbelow _ key (by omega) (by omega) hi)
  have hback : ((keys.drop floor).drop (block - floor)).countP (fun key => key < value) = 0 := by
    rw [List.countP_eq_zero]
    intro key hk
    obtain ⟨i, hi⟩ := List.mem_iff_getElem?.1 hk
    rw [List.getElem?_drop, List.getElem?_drop] at hi
    exact mt of_decide_eq_true (habove _ key (by omega) hi)
  unfold place
  rw [← List.take_append_drop (block - floor) (keys.drop floor), List.countP_append, hfront, hback]
  omega

/-- If every block from `floor` on is below the key up to `block` and above it from there, the
reference misses at `block`, in both directions. -/
theorem linear_eq_miss {keys : List Int64} {floor block : Nat} {value : Int64}
    (direction : Direction) (hn : floor < keys.length) (hf : floor ≤ block)
    (hb : block ≤ keys.length)
    (hbelow : ∀ b : Int, floor ≤ b → b < block → keyOf keys b < value)
    (habove : ∀ b : Int, block ≤ b → b < keys.length → value < keyOf keys b) :
    Verdict.linear keys floor value direction = .miss block := by
  have hnil : hits keys floor value = [] := by
    refine hits_eq_nil fun b hfb hv => ?_
    obtain ⟨hlt, hv⟩ := getElem?_eq_some_iff_keyOf.1 hv
    rcases Nat.lt_or_ge b block with h | h
    · have := hbelow b (by omega) (by omega)
      grind
    · have := habove b (by omega) (by omega)
      grind
  have hplace : place keys floor value = block := by
    refine place_eq hf hb (fun b key hfb hlt hk => ?_) (fun b key hge hk => ?_)
    · obtain ⟨-, rfl⟩ := getElem?_eq_some_iff_keyOf.1 hk
      exact hbelow b (by omega) (by omega)
    · obtain ⟨hlt, rfl⟩ := getElem?_eq_some_iff_keyOf.1 hk
      exact Int64.lt_asymm (habove b (by omega) (by omega))
  cases direction with
  | up => simp only [Verdict.linear, hnil, List.head?_nil, if_pos hn, hplace]
  | down => simp only [Verdict.linear, hnil, List.getLast?_nil, if_pos hn, hplace]

/-- Behind the last block the reference misses, upwards at the end and downwards at the floor. -/
theorem linear_of_past_end {keys : List Int64} {floor : Nat} (value : Int64)
    (h : keys.length ≤ floor) (direction : Direction) :
    Verdict.linear keys floor value direction =
      .miss (match direction with | .up => keys.length | .down => floor : Nat) := by
  have hnil : hits keys floor value = [] := hits_eq_nil fun b hfb hv => by
    have := (List.getElem?_eq_some_iff.1 hv).1
    omega
  cases direction with
  | up => simp only [Verdict.linear, hnil, List.head?_nil, if_neg (Nat.not_lt.2 h)]
  | down => simp only [Verdict.linear, hnil, List.getLast?_nil, if_neg (Nat.not_lt.2 h)]

/-- The reference hits a block that has the key, or there is none and it misses at a block up to the
end, or at the floor behind it. -/
theorem linear_cases (keys : List Int64) (floor : Nat) (value : Int64) (direction : Direction) :
    (∃ block ∈ hits keys floor value,
      Verdict.linear keys floor value direction = .hit block) ∨
    (hits keys floor value = [] ∧ ∃ block : Nat, (block ≤ keys.length ∨ block ≤ floor) ∧
      Verdict.linear keys floor value direction = .miss block) := by
  rcases List.eq_nil_or_concat (hits keys floor value) with hnil | ⟨front, last, hlast⟩
  · refine Or.inr ⟨hnil, ?_⟩
    have hplace : floor < keys.length → place keys floor value ≤ keys.length := by
      intro hlt
      have hcount : (keys.drop floor).countP (· < value) ≤ _ := List.countP_le_length
      rw [List.length_drop] at hcount
      unfold place
      omega
    cases direction with
    | up =>
      simp only [Verdict.linear, hnil, List.head?_nil]
      refine ⟨_, ?_, rfl⟩
      split <;> omega
    | down =>
      simp only [Verdict.linear, hnil, List.getLast?_nil]
      refine ⟨_, ?_, rfl⟩
      split <;> omega
  · refine Or.inl ?_
    cases direction with
    | up =>
      obtain ⟨first, hfirst⟩ : ∃ first, (hits keys floor value).head? = some first :=
        ⟨_, List.head?_eq_some_head (by simp [hlast])⟩
      simp only [Verdict.linear, hfirst]
      exact ⟨first, List.mem_of_mem_head? hfirst, rfl⟩
    | down =>
      have hend : (hits keys floor value).getLast? = some last := by simp [hlast]
      simp only [Verdict.linear, hend]
      exact ⟨last, List.mem_of_getLast? hend, rfl⟩

/-- The reference names a block up to the end, or up to the floor behind it. -/
theorem linear_block_le (keys : List Int64) (floor : Nat) (value : Int64) (direction : Direction) :
    let verdict := Verdict.linear keys floor value direction
    0 ≤ verdict.block ∧ (verdict.block ≤ keys.length ∨ verdict.block ≤ floor) := by
  intro verdict
  rcases linear_cases keys floor value direction with ⟨block, hmem, hv⟩ | ⟨-, block, hle, hv⟩
  · have hlt := (List.getElem?_eq_some_iff.1 (mem_hits.1 hmem).2).1
    have e : verdict.block = block := congrArg Verdict.block hv
    omega
  · have e : verdict.block = block := congrArg Verdict.block hv
    omega

/-- The reference tells by the sign of its number whether a block from the floor on has the key. -/
theorem encode_linear_nonneg_iff {keys : List Int64} {floor : Nat} {value : Int64} (shl : Nat)
    (direction : Direction) :
    0 ≤ (Verdict.linear keys floor value direction).encode shl ↔
      ∃ block, floor ≤ block ∧ keys[block]? = some value := by
  rw [← hits_ne_nil_iff]
  rcases linear_cases keys floor value direction with ⟨block, hmem, hv⟩ | ⟨hnil, block, -, hv⟩
  · rw [hv, encode_hit]
    exact ⟨fun _ => List.ne_nil_of_mem hmem, fun _ => Int.natCast_nonneg _⟩
  · rw [hv, encode_miss]
    exact ⟨by omega, fun hne => absurd hnil hne⟩

/-! ## In ascending keys -/

theorem Lowest.eq_linear {keys : List Int64} {floor : Nat} {value : Int64} {verdict : Verdict}
    (h : Lowest (keyOf keys) value floor keys.length verdict) (ha : keys.Pairwise (· ≤ ·))
    (hn : floor < keys.length) : verdict = Verdict.linear keys floor value .up := by
  have hasc := ascending_keyOf ha
  cases verdict with
  | hit block =>
    obtain ⟨h1, h2, h3, h4⟩ := h
    obtain ⟨block, rfl⟩ := Int.eq_ofNat_of_zero_le (show 0 ≤ block by omega)
    have hhead : (hits keys floor value).head? = some block := by
      refine head?_hits (by omega) (getElem?_eq_some_iff_keyOf.2 ⟨by omega, h3⟩) ?_
      intro b hfb hlt hv
      have := h4 b (by omega) (by omega)
      have := (getElem?_eq_some_iff_keyOf.1 hv).2
      grind
    simp only [Verdict.linear, hhead]
  | miss block =>
    obtain ⟨h1, h2, h3, h4⟩ := h
    obtain ⟨block, rfl⟩ := Int.eq_ofNat_of_zero_le (show 0 ≤ block by omega)
    refine (linear_eq_miss .up hn (by omega) (by omega) h4 fun b hb1 hb2 => ?_).symm
    exact Int64.lt_of_lt_of_le (h3 (by omega)) (hasc _ _ (by omega) hb1 hb2)

theorem Highest.eq_linear {keys : List Int64} {floor : Nat} {value : Int64} {verdict : Verdict}
    (h : Highest (keyOf keys) value floor keys.length verdict) (ha : keys.Pairwise (· ≤ ·))
    (hn : floor < keys.length) : verdict = Verdict.linear keys floor value .down := by
  have hasc := ascending_keyOf ha
  cases verdict with
  | hit block =>
    obtain ⟨h1, h2, h3, h4⟩ := h
    obtain ⟨block, rfl⟩ := Int.eq_ofNat_of_zero_le (show 0 ≤ block by omega)
    have hlast : (hits keys floor value).getLast? = some block := by
      refine getLast?_hits (by omega) (getElem?_eq_some_iff_keyOf.2 ⟨by omega, h3⟩) ?_
      intro b hlt hv
      obtain ⟨hb, hv⟩ := getElem?_eq_some_iff_keyOf.1 hv
      have := h4 b (by omega) (by omega)
      grind
    simp only [Verdict.linear, hlast]
  | miss block =>
    obtain ⟨h1, h2, h3, h4⟩ := h
    obtain ⟨block, rfl⟩ := Int.eq_ofNat_of_zero_le (show 0 ≤ block by omega)
    refine (linear_eq_miss .down hn (by omega) (by omega) (fun b hb1 hb2 => ?_) h4).symm
    exact Int64.lt_of_le_of_lt (hasc _ _ (by omega) (by omega) (by omega)) (h3 (by omega))

end SnapList.Search
