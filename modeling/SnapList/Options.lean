/-
  The options from which a list is created.

  They say how many slots the list starts with and which element stands for "no entry". They
  are not checked before a list is created from them.
-/
import SnapList.Text

namespace SnapList

/-- The slots of a new list, and the element that fills a slot without an entry. -/
structure Options where
  initialCapacity : Nat := 16
  noEntry : Int64 := -1
  deriving DecidableEq

namespace Options

inductive Setting where
  | initialCapacity (capacity : Nat)
  | noEntry (value : Int64)

def set (options : Options) : Setting → Options
  | .initialCapacity capacity => { options with initialCapacity := capacity }
  | .noEntry value => { options with noEntry := value }

def history (options : Options) : List Setting → List Options
  | [] => []
  | setting :: rest => options.set setting :: (options.set setting).history rest

/-- These are the options that a list has when none are given. -/
def isDefault (options : Options) : Bool := options = {}

def record (options : Options) : Text.Record :=
  ⟨"ListOptions", [("initial_capacity", .word (toString options.initialCapacity)),
    ("no_entry_value", .word (toString options.noEntry))]⟩

end Options

end SnapList
