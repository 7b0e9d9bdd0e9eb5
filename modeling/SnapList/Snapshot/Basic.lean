/-
  Snapshots: contents of a list as they were at one stamp.

  A snapshot belongs to its reader and does not change with the list. Two snapshots are EQUAL
  when they have the same elements and the same element for "no entry"; capacity and stamp
  do not count. What a snapshot feeds to a hasher agrees with that: its length and then its
  elements, where a missing entry is fed as zero.

  Main statement: equal snapshots feed the same to a hasher (`fed_eq_of_equal`).
-/
import SnapList.Contents

namespace SnapList

/-- Contents as they were at `stamp`. -/
structure Snapshot extends Contents where
  stamp : UInt64

/-- One item that is fed to a hasher. -/
inductive Fed where
  | size (size : Nat)
  | element (value : Int64)
  deriving DecidableEq

namespace Snapshot

/-- The snapshot that a reader starts with: no slots at all, at stamp zero. -/
def empty (noEntry : Int64) : Snapshot :=
  { slots := #[], len := 0, noEntry, stamp := 0 }

/-- The snapshots have the same elements and the same element for "no entry". -/
def equal (first second : Snapshot) : Bool :=
  first.noEntry == second.noEntry && first.elements == second.elements

def fed (snapshot : Snapshot) : List Fed :=
  .size snapshot.len ::
    snapshot.elements.map fun value =>
      .element (if value = snapshot.noEntry then 0 else value)

/-- The diagnostic record of a snapshot shows its elements. -/
def record (snapshot : Snapshot) : Text.Record :=
  ⟨"Snapshot", [("stamp", .word (toString snapshot.stamp)),
    ("capacity", .word (toString snapshot.capacity)),
    ("elements", .sequence (snapshot.elements.map toString))]⟩

theorem equal_iff {first second : Snapshot} :
    first.equal second = true ↔
      first.noEntry = second.noEntry ∧ first.elements = second.elements := by
  simp [equal]

theorem fed_eq_of_equal {first second : Snapshot} (h : first.equal second = true)
    (h1 : first.len ≤ first.capacity) (h2 : second.len ≤ second.capacity) :
    first.fed = second.fed := by
  obtain ⟨he, hs⟩ := equal_iff.1 h
  have hl := congrArg List.length hs
  rw [Contents.length_elements, Contents.length_elements, Nat.min_eq_left h1,
    Nat.min_eq_left h2] at hl
  simp only [fed, he, hs, hl]

end Snapshot

end SnapList
