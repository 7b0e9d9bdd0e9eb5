/-
  Where a search seats a new block.

  A key and a direction CUT an ascending row of keys in two: a new block with the key belongs at the
  cut, in front of all equal keys if the search looks upwards and behind them if it looks downwards.
  The SEAT of the new block is read off the answer of a search from the first block on. A miss tells
  it; an upward hit is the first equal block, whose place the new one takes, and a downward hit is
  the last equal block, behind which it goes.

  Main statements: the answer of the reference seats the block at the cut (`seat_linear`), and once
  the key is there, the reference finds it there (`linear_of_seated`).
-/
import SnapList.Proofs.Search.Reference

namespace SnapList.Search

/-- A block with `key` belongs in front of a new one with `value`. -/
def Direction.before (direction : Direction) (value key : Int64) : Prop :=
  match direction with
  | up => key < value
  | down => key ≤ value

instance (direction : Direction) (value key : Int64) :
    Decidable (direction.before value key) :=
  match direction with
  | .up => inferInstanceAs (Decidable (key < value))
  | .down => inferInstanceAs (Decidable (key ≤ value))

/-- A new block with `value` belongs behind `front` and in front of `back`. -/
structure Cut (direction : Direction) (value : Int64) (front back : List Int64) : Prop where
  before : ∀ key ∈ front, direction.before value key
  behind : ∀ key ∈ back, ¬ direction.before value key

/-- The index of the first element of a new block with the key that was searched for, in blocks of
`2 ^ shl` elements. -/
def seat (direction : Direction) (shl : Nat) (answer : Int) : Nat :=
  if answer < 0 then (-(answer + 1)).toNat
  else
    match direction with
    | .up => answer.toNat
    | .down => answer.toNat + 2 ^ shl

variable {direction : Direction} {value key other : Int64} {front back keys : List Int64}

/-! ## The cut -/

theorem Direction.le_of_before (h : direction.before value key) : key ≤ value := by
  cases direction with
  | up => exact Int64.le_of_lt h
  | down => exact h

theorem Direction.le_of_not_before (h : ¬ direction.before value key) : value ≤ key := by
  cases direction with
  | up => exact Int64.not_lt.1 h
  | down => exact Int64.le_of_lt (Int64.not_le.1 h)

/-- What is behind the new block stays there with all larger keys. -/
theorem Direction.not_before_of_le (h : ¬ direction.before value key) (hle : key ≤ other) :
    ¬ direction.before value other := by
  cases direction with
  | up => exact Int64.not_lt.2 (Int64.le_trans (Int64.not_lt.1 h) hle)
  | down => exact Int64.not_le.2 (Int64.lt_of_lt_of_le (Int64.not_le.1 h) hle)

theorem exists_cut (direction : Direction) (value : Int64) (ha : keys.Pairwise (· ≤ ·)) :
    ∃ front back, keys = front ++ back ∧ Cut direction value front back := by
  induction keys with
  | nil => exact ⟨[], [], rfl, by simp, by simp⟩
  | cons key rest ih =>
    obtain ⟨hkey, hrest⟩ := List.pairwise_cons.1 ha
    by_cases h : direction.before value key
    · obtain ⟨front, back, rfl, hcut⟩ := ih hrest
      refine ⟨key :: front, back, rfl, ?_, hcut.behind⟩
      intro other hmem
      rcases List.mem_cons.1 hmem with rfl | hmem
      · exact h
      · exact hcut.before other hmem
    · refine ⟨[], key :: rest, rfl, by simp, ?_⟩
      intro other hmem
      rcases List.mem_cons.1 hmem with rfl | hmem
      · exact h
      · exact Direction.not_before_of_le h (hkey other hmem)

/-- The keys ascend as before with the new one at the cut. -/
theorem Cut.ascending (h : Cut direction value front back)
    (ha : (front ++ back).Pairwise (· ≤ ·)) : (front ++ value :: back).Pairwise (· ≤ ·) := by
  obtain ⟨hfront, hback, hcross⟩ := List.pairwise_append.1 ha
  have hbehind : ∀ key ∈ back, value ≤ key := by
    intro key hmem
    exact Direction.le_of_not_before (h.behind key hmem)
  refine List.pairwise_append.2 ⟨hfront, List.pairwise_cons.2 ⟨hbehind, hback⟩, ?_⟩
  intro key hkey other hother
  rcases List.mem_cons.1 hother with rfl | hother
  · exact Direction.le_of_before (h.before key hkey)
  · exact hcross key hkey other hother

theorem mem_front_of_lt {block : Nat} (hlt : block < front.length)
    (h : (front ++ back)[block]? = some key) : key ∈ front := by
  rw [List.getElem?_append_left hlt] at h
  exact List.mem_of_getElem? h

theorem mem_back_of_le {block : Nat} (hle : front.length ≤ block)
    (h : (front ++ back)[block]? = some key) : key ∈ back := by
  rw [List.getElem?_append_right hle] at h
  exact List.mem_of_getElem? h

/-! ## What the reference says at a cut -/

/-- A key that no block has is missed at the cut. -/
theorem Cut.linear_of_not_mem (h : Cut direction value front back)
    (hmem : value ∉ front ++ back) :
    Verdict.linear (front ++ back) 0 value direction = .miss front.length := by
  have hbelow : ∀ key ∈ front, key < value := by
    intro key hkey
    have hle := Direction.le_of_before (h.before key hkey)
    have hne : key ≠ value := by
      rintro rfl
      exact hmem (List.mem_append_left _ hkey)
    exact Int64.lt_of_le_of_ne hle hne
  have habove : ∀ key ∈ back, value < key := by
    intro key hkey
    have hle := Direction.le_of_not_before (h.behind key hkey)
    have hne : value ≠ key := by
      rintro rfl
      exact hmem (List.mem_append_right _ hkey)
    exact Int64.lt_of_le_of_ne hle hne
  rcases Nat.eq_zero_or_pos (front ++ back).length with hzero | hpos
  · obtain ⟨rfl, rfl⟩ := List.append_eq_nil_iff.1 (List.length_eq_zero_iff.1 hzero)
    have hnone : Verdict.linear [] 0 value direction = _ :=
      linear_of_past_end value (Nat.le_refl 0) direction
    cases direction with
    | up => exact hnone
    | down => exact hnone
  · have hlen : front.length ≤ (front ++ back).length := by
      rw [List.length_append]
      omega
    refine linear_eq_miss direction hpos (Nat.zero_le _) hlen ?_ ?_
    · intro b h0 hlt
      obtain ⟨b, rfl⟩ := Int.eq_ofNat_of_zero_le h0
      have hb : b < front.length := by omega
      exact hbelow _ (mem_front_of_lt hb (getElem?_eq_some_iff_keyOf.2 ⟨by omega, rfl⟩))
    · intro b hge hlt
      obtain ⟨b, rfl⟩ := Int.eq_ofNat_of_zero_le (show 0 ≤ b by omega)
      have hb : front.length ≤ b := by omega
      exact habove _ (mem_back_of_le hb (getElem?_eq_some_iff_keyOf.2 ⟨by omega, rfl⟩))

/-- An upward look hits the first block behind the cut, if it has the key. -/
theorem Cut.linear_up_of_head (h : Cut .up value front (value :: back)) :
    Verdict.linear (front ++ value :: back) 0 value .up = .hit front.length := by
  have hhit : (front ++ value :: back)[front.length]? = some value := by simp
  have hhead : (hits (front ++ value :: back) 0 value).head? = some front.length := by
    refine head?_hits (Nat.zero_le _) hhit ?_
    intro b _ hlt hb
    exact Int64.lt_irrefl (h.before value (mem_front_of_lt hlt hb))
  simp only [Verdict.linear, hhead]

/-- A downward look hits the last block in front of the cut, if it has the key. -/
theorem Cut.linear_down_of_last (h : Cut .down value (front ++ [value]) back) :
    Verdict.linear (front ++ value :: back) 0 value .down = .hit front.length := by
  have hhit : (front ++ value :: back)[front.length]? = some value := by simp
  have hlast : (hits (front ++ value :: back) 0 value).getLast? = some front.length := by
    refine getLast?_hits (Nat.zero_le _) hhit ?_
    intro b hlt hb
    have hle : (front ++ [value]).length ≤ b := by
      rw [List.length_append, List.length_singleton]
      exact hlt
    rw [List.append_cons] at hb
    exact h.behind value (mem_back_of_le hle hb) (Int64.le_refl value)
  simp only [Verdict.linear, hlast]

/-! ## The seat -/

theorem seat_miss (shl block : Nat) :
    seat direction shl ((Verdict.miss block).encode shl) = block * 2 ^ shl := by
  rw [encode_miss]
  unfold seat
  rw [if_pos (by omega)]
  omega

theorem seat_up_hit (shl block : Nat) :
    seat .up shl ((Verdict.hit block).encode shl) = block * 2 ^ shl := by
  rw [encode_hit]
  unfold seat
  rw [if_neg (by omega)]
  exact Int.toNat_natCast _

theorem seat_down_hit (shl block : Nat) :
    seat .down shl ((Verdict.hit block).encode shl) = (block + 1) * 2 ^ shl := by
  rw [encode_hit, Nat.succ_mul]
  unfold seat
  rw [if_neg (by omega)]
  exact congrArg (· + 2 ^ shl) (Int.toNat_natCast _)

/-- The answer of the reference seats a new block at the cut. -/
theorem Cut.seat_linear (h : Cut direction value front back)
    (ha : (front ++ back).Pairwise (· ≤ ·)) (shl : Nat) :
    seat direction shl ((Verdict.linear (front ++ back) 0 value direction).encode shl) =
      front.length * 2 ^ shl := by
  obtain ⟨hfront, hback, -⟩ := List.pairwise_append.1 ha
  by_cases hmem : value ∈ front ++ back
  · cases direction with
    | up =>
      -- No key in front is the searched one, so it is the smallest of those behind.
      rcases List.mem_append.1 hmem with hin | hin
      · exact absurd (h.before value hin) Int64.lt_irrefl
      · cases back with
        | nil => cases hin
        | cons first rest =>
          have hge : value ≤ first := Direction.le_of_not_before (h.behind first List.mem_cons_self)
          have hle : first ≤ value := by
            rcases List.mem_cons.1 hin with rfl | hin
            · exact Int64.le_refl _
            · exact (List.pairwise_cons.1 hback).1 value hin
          obtain rfl := Int64.le_antisymm hge hle
          rw [h.linear_up_of_head, seat_up_hit]
    | down =>
      rcases List.mem_append.1 hmem with hin | hin
      · obtain ⟨others, last, rfl⟩ : ∃ others last, front = others ++ [last] :=
          ⟨_, _, (List.dropLast_append_getLast (List.ne_nil_of_mem hin)).symm⟩
        have hle : last ≤ value := h.before last (by simp)
        have hge : value ≤ last := by
          rcases List.mem_append.1 hin with hin | hin
          · exact (List.pairwise_append.1 hfront).2.2 value hin last (by simp)
          · rw [List.mem_singleton.1 hin]
            exact Int64.le_refl _
        obtain rfl := Int64.le_antisymm hge hle
        rw [List.append_assoc, List.singleton_append, h.linear_down_of_last, seat_down_hit,
          List.length_append, List.length_singleton]
      · exact absurd (Int64.le_refl value) (h.behind value hin)
  · rw [h.linear_of_not_mem hmem, seat_miss]

/-- A key at the cut is what the reference finds, whatever blocks have the same one. -/
theorem Cut.linear_of_seated (h : Cut direction value front back) :
    Verdict.linear (front ++ value :: back) 0 value direction = .hit front.length := by
  cases direction with
  | up =>
    refine Cut.linear_up_of_head ⟨h.before, ?_⟩
    intro key hmem
    rcases List.mem_cons.1 hmem with rfl | hmem
    · exact Int64.lt_irrefl
    · exact h.behind key hmem
  | down =>
    refine Cut.linear_down_of_last ⟨?_, h.behind⟩
    intro key hmem
    rcases List.mem_append.1 hmem with hmem | hmem
    · exact h.before key hmem
    · rw [List.mem_singleton.1 hmem]
      exact Int64.le_refl _

end SnapList.Search
