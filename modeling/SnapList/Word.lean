/-
  64-bit numbers.

  Sizes and indices are natural numbers and block numbers are integers; this module holds
  the rules that tie them to 64-bit words. Sums, differences and negations of signed words
  are CHECKED: one that leaves the range is a fault. A left shift is not: it drops the high
  bits. Sums of sizes SATURATE.

  Main statements: a checked operation answers with the exact integer or not at all
  (`checked_eq_ok_iff`), and reading a word as signed and back as unsigned loses nothing
  (`unsigned_signed`).
-/
import SnapList.Fault

namespace SnapList.Word

/-- The number of 64-bit words. -/
abbrev modulus : Nat := 18446744073709551616

abbrev maxSize : Nat := 18446744073709551615

/-- `x` is a signed 64-bit word. -/
def Fits (x : Int) : Prop := -9223372036854775808 ≤ x ∧ x < 9223372036854775808

instance : DecidablePred Fits := fun _ => inferInstanceAs (Decidable (_ ∧ _))

/-- `x` itself when it is a signed word, and otherwise `fault`. -/
def checked (fault : Fault) (x : Int) : Except Fault Int :=
  if Fits x then .ok x else .error fault

def add (x y : Int) : Except Fault Int := checked .addOverflow (x + y)

def sub (x y : Int) : Except Fault Int := checked .subOverflow (x - y)

def neg (x : Int) : Except Fault Int := checked .negOverflow (-x)

/-- The word `n` read as signed: from `2^63` on it is negative. -/
def signed (n : Nat) : Int := Int.bmod n modulus

/-- The word `x` read as unsigned: a negative one is `2^63` or more. -/
def unsigned (x : Int) : Nat := (x % (modulus : Int)).toNat

/-- `x` shifted left by `k` bits; bits above the word are lost. -/
def shiftLeft (x : Int) (k : Nat) : Int := Int.bmod (x <<< k) modulus

/-- `x` shifted right by `k` bits, which rounds down. -/
def shiftRight (x : Int) (k : Nat) : Int := x >>> k

/-- The sum of two sizes, held at the largest size. -/
def satAdd (m n : Nat) : Nat := min (m + n) maxSize

/-! ## Laws -/

theorem checked_eq_ok_iff {fault : Fault} {x y : Int} :
    checked fault x = .ok y ↔ Fits x ∧ y = x := by
  unfold checked
  split <;> simp_all [eq_comm]

theorem checked_of_fits {fault : Fault} {x : Int} (h : Fits x) : checked fault x = .ok x :=
  if_pos h

theorem add_eq_ok_iff {x y z : Int} : add x y = .ok z ↔ Fits (x + y) ∧ z = x + y :=
  checked_eq_ok_iff

theorem signed_of_lt {n : Nat} (h : n < 9223372036854775808) : signed n = n := by
  unfold signed modulus
  rw [Int.bmod_def]
  omega

theorem unsigned_of_nonneg {x : Int} (h0 : 0 ≤ x) (h : Fits x) : unsigned x = x.toNat := by
  unfold Fits at h
  unfold unsigned modulus
  omega

theorem unsigned_signed {n : Nat} (h : n < modulus) : unsigned (signed n) = n := by
  unfold signed unsigned
  unfold modulus at *
  rw [Int.bmod_def]
  omega

/-- A left shift that fits loses no bits. -/
theorem shiftLeft_of_fits {x : Int} {k : Nat} (h : Fits (x <<< k)) : shiftLeft x k = x <<< k := by
  unfold Fits at h
  unfold shiftLeft modulus
  rw [Int.bmod_def]
  omega

end SnapList.Word
