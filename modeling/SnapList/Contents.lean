/-
  The contents of a list: its slots and how many of them count.

  A live list and a snapshot of one both have contents, and are read in the same way. The
  ELEMENTS are the first `len` slots. The slots behind them are room to grow into and keep
  what was last written there; a read does not show them.

  Main statement: reading by index is reading the list of elements (`get_eq_ok_iff`).
-/
import SnapList.Search.Blocks

namespace SnapList

/-- Slots of which the first `len` are elements; `noEntry` fills a slot without an entry. -/
structure Contents where
  slots : Slots
  len : Nat
  noEntry : Int64
  deriving DecidableEq

/-- What can be asked of a list without looking at its elements. -/
structure Properties where
  len : Nat
  empty : Bool
  capacity : Nat
  noEntry : Int64
  stamp : UInt64

namespace Contents

def capacity (contents : Contents) : Nat := contents.slots.size

def isEmpty (contents : Contents) : Bool := contents.len == 0

def elements (contents : Contents) : List Int64 := contents.slots.toList.take contents.len

def properties (contents : Contents) (stamp : UInt64) : Properties :=
  ⟨contents.len, contents.isEmpty, contents.capacity, contents.noEntry, stamp⟩

/-- The element at `index`. -/
def get (contents : Contents) (index : Nat) : Except Failure Int64 :=
  if index < contents.len then Fault.lift (contents.slots.load index)
  else .error (.refused (.outOfRange index contents.len))

/-- The element at `index`, which the caller promises to be an element's index. -/
def getUnchecked (contents : Contents) (index : Nat) : Except Failure Int64 :=
  if index < contents.len then Fault.lift (contents.slots.load index)
  else .error (.aborted (.assertionFailed .indexPromised))

/-- The first index at which `value` stands, if it is an element. -/
def indexOf (contents : Contents) (value : Int64) : Option Nat :=
  contents.elements.idxOf? value

def find (contents : Contents) (query : Search.Query) : Except Fault Int :=
  (Search.Column.ofSlots contents.slots).find contents.len query

def display (contents : Contents) : String := Text.elements contents.elements

/-! ## Laws -/

theorem length_elements (contents : Contents) :
    contents.elements.length = min contents.len contents.capacity := by
  simp [elements, capacity]

theorem getElem?_elements (contents : Contents) (index : Nat) :
    contents.elements[index]? =
      if index < contents.len then contents.slots[index]? else none := by
  simp [elements, List.getElem?_take]

/-- As long as the elements fit into the slots, an index answers exactly with its element. -/
theorem get_eq_ok_iff {contents : Contents} {index : Nat} {value : Int64} :
    contents.get index = .ok value ↔ contents.elements[index]? = some value := by
  rw [getElem?_elements]
  unfold get
  split
  · rw [← Slots.load_eq_ok_iff]
    cases contents.slots.load index <;> simp
  · simp

end Contents

end SnapList
