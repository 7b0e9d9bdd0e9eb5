/-
  Block search: find a key among the blocks of a column.

  A column answers an element index with the element there, or with a fault if it has none; it is
  read from slots, or computed from the index.

  A column is cut into blocks of `2 ^ shl` elements; the first element of a block is its KEY,
  the others are payload. A search asks for the first element of a block with a given key. It
  goes in two stages. While the window of blocks is wide it is halved (`bisect`). A halving
  that meets the key ends there, and the run of blocks with that key is scrolled through to
  the end that was asked for (`scrollUp` to the lowest, `scrollDown` to the highest). A narrow
  window is scanned block by block, from below (`scanUp`) or from above (`scanDown`). A hit is
  the index of the block's first element; a miss is the index where such a block would stand,
  plus one, negated.

  Block numbers are signed 64-bit words. Their sums and differences are checked; the shift
  from a block to its first element is not, it drops the high bits. `scrollUp` goes on below
  the block from which the window began.
-/
import SnapList.Slots
import SnapList.Word

namespace SnapList.Search

open Word (Fits)

/-! ## Columns -/

/-- The element at each index, or the fault of asking for it. -/
abbrev Column := Nat → Except Fault Int64

namespace Column

/-- The elements held in `slots`. -/
def ofSlots (slots : Slots) : Column := slots.load

/-- A column without slots: `width` equal elements in a row, rising by one from `base` on.
The elements are 64-bit words and wrap. -/
def ramp (base : Int64) (width : Nat) : Column :=
  fun index => .ok (Int64.ofNat (index / width) + base)

theorem ofSlots_eq_ok_iff {slots : Slots} {index : Nat} {value : Int64} :
    ofSlots slots index = .ok value ↔ slots[index]? = some value :=
  Slots.load_eq_ok_iff

end Column

/-! ## Blocks -/

/-- Which of several blocks with the same key is wanted: the lowest, by looking upwards from
below, or the highest, by looking downwards from above. -/
inductive Direction where
  | up
  | down
  deriving DecidableEq

/-- The widest window that is scanned and not halved, by the distance between its first and
its last block. It is positive, so that halving always narrows the window. -/
structure Crossover where
  width : Int
  pos : 0 < width

/-- Windows of up to 65 blocks beyond the first are scanned. -/
def Crossover.tuned : Crossover := ⟨65, by decide⟩

/-- A column cut into blocks of `2 ^ shl` elements. -/
structure Blocks where
  column : Column
  shl : Nat

namespace Blocks

def start (blocks : Blocks) (block : Int) : Int := Word.shiftLeft block blocks.shl

def key (blocks : Blocks) (block : Int) : Except Fault Int64 :=
  blocks.column (Word.unsigned (blocks.start block))

/-- The answer that no block has the key, and that one which had it would be `block`. -/
def miss (blocks : Blocks) (block : Int) : Except Fault Int :=
  match Word.add (blocks.start block) 1 with
  | .ok place => Word.neg place
  | .error fault => .error fault

/-- Look upwards through the `count` blocks before `stop`, for the first one whose key is not
below `value`. -/
def scanUp (blocks : Blocks) (value : Int64) (stop : Int) : Nat → Except Fault Int
  | 0 => blocks.miss stop
  | count + 1 =>
    match blocks.key (stop - (count + 1)) with
    | .error fault => .error fault
    | .ok key =>
      if key = value then .ok (blocks.start (stop - (count + 1)))
      else if value < key then blocks.miss (stop - (count + 1))
      else scanUp blocks value stop count

/-- Look downwards through the `count` blocks from `low` on, for the first one whose key is
not above `value`. -/
def scanDown (blocks : Blocks) (value : Int64) (low : Int) : Nat → Except Fault Int
  | 0 => blocks.miss low
  | count + 1 =>
    match blocks.key (low + count) with
    | .error fault => .error fault
    | .ok key =>
      if key = value then .ok (blocks.start (low + count))
      else if key < value then
        match Word.add (low + count) 1 with
        | .ok above => blocks.miss above
        | .error fault => .error fault
      else scanDown blocks value low count

/-- The lowest block of the run of blocks with key `value` that ends at `block`. -/
def scrollUp (blocks : Blocks) (value : Int64) : Nat → Except Fault Int
  | 0 => .ok (blocks.start 0)
  | block + 1 =>
    match blocks.key block with
    | .error fault => .error fault
    | .ok key =>
      if key = value then scrollUp blocks value block else .ok (blocks.start (block + 1))

/-- The highest block of the run of blocks with key `value` that begins at `block`, looking at
no more than `count` blocks above it. -/
def scrollDown (blocks : Blocks) (value : Int64) (block : Int) : Nat → Except Fault Int
  | 0 => .ok (blocks.start block)
  | count + 1 =>
    match blocks.key (block + 1) with
    | .error fault => .error fault
    | .ok key =>
      if key = value then scrollDown blocks value (block + 1) count
      else .ok (blocks.start block)

/-- How the halving of a window ends. -/
inductive Probe where
  /-- With a window that is narrow enough to be scanned. -/
  | window (low high : Int)
  /-- At a block that has the key, in a window up to `high`. -/
  | hit (block high : Int)

/-- Halve the window of blocks from `low` to `high` until it is narrow or its middle block has
the key. A middle block below the key stays in the window, one above it does not. -/
def bisect (blocks : Blocks) (crossover : Crossover) (value : Int64) (low high : Int) :
    Except Fault Probe :=
  if ¬ Fits (high - low) then .error .subOverflow
  else if high - low ≤ crossover.width then .ok (.window low high)
  else if ¬ Fits (low + high) then .error .addOverflow
  else
    match blocks.key ((low + high) / 2) with
    | .error fault => .error fault
    | .ok key =>
      if key < value then bisect blocks crossover value ((low + high) / 2) high
      else if value < key then
        if Fits ((low + high) / 2 - 1) then
          bisect blocks crossover value low ((low + high) / 2 - 1)
        else .error .subOverflow
      else .ok (.hit ((low + high) / 2) high)
termination_by (high - low).toNat
decreasing_by
  all_goals have := crossover.pos; omega

/-- The search in a window of blocks, from halving it to the answer. -/
def search (blocks : Blocks) (crossover : Crossover) (value : Int64) (direction : Direction)
    (low high : Int) : Except Fault Int :=
  match blocks.bisect crossover value low high with
  | .error fault => .error fault
  | .ok (.hit block top) =>
    match direction with
    | .up => blocks.scrollUp value block.toNat
    | .down => blocks.scrollDown value block (top - block).toNat
  | .ok (.window low high) =>
    match Word.add high 1 with
    | .error fault => .error fault
    | .ok stop =>
      match direction with
      | .up => blocks.scanUp value stop (stop - low).toNat
      | .down => blocks.scanDown value low (stop - low).toNat

end Blocks

/-- A question to a column: the block with key `value`, if it does not stand before the block
of element `offset`, and the lowest or the highest of several. -/
structure Query where
  offset : Nat
  shl : Nat
  value : Int64
  direction : Direction

/-- Answer a query over the first `len` elements of a column, scanning windows up to
`crossover`. A length or an offset of `2 ^ 63` or more is read as negative. -/
def Column.findWith (column : Column) (crossover : Crossover) (len : Nat) (query : Query) :
    Except Fault Int :=
  if 64 ≤ query.shl then .error .shiftOverflow
  else
    match Word.sub (Word.signed len) 1 with
    | .error fault => .error fault
    | .ok last =>
      Blocks.search ⟨column, query.shl⟩ crossover query.value query.direction
        (Word.shiftRight (Word.signed query.offset) query.shl) (Word.shiftRight last query.shl)

/-- Answer a query over the first `len` elements of a column. -/
def Column.find (column : Column) (len : Nat) (query : Query) : Except Fault Int :=
  column.findWith .tuned len query

end SnapList.Search
