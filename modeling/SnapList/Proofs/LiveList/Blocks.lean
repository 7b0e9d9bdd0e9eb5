/-
  The blocks of a list, and what a new one among them does.

  A list is read as BLOCKS of `2 ^ shl` elements, of which the first is the key. Where the elements
  are whole blocks, a gap that is opened between two of them and whose first element is then set is
  a new block, and the others stay whole and in order.

  Main statements: the keys that a search looks at are the first elements of the blocks
  (`Sound.keys_eq`), and to insert a gap and set its first element puts one block between the others
  (`Reachable.insert_set`, `blocksOf_insert`).
-/
import SnapList.Proofs.LiveList.Reachable
import SnapList.Proofs.LiveList.Row
import SnapList.Proofs.Search.Linear

namespace SnapList

/-- Elements cut into blocks of `width`. The last one may be partial. -/
def blocksOf (width : Nat) (elements : List Int64) : List (List Int64) :=
  (List.range ((elements.length + width - 1) / width)).map fun block =>
    (elements.drop (block * width)).take width

/-- The first element of each block. -/
def keysOf (blocks : List (List Int64)) : List Int64 := blocks.map fun block => block.headD 0

variable {width : Nat} {elements front back : List Int64}

theorem keysOf_append (first second : List (List Int64)) :
    keysOf (first ++ second) = keysOf first ++ keysOf second :=
  List.map_append

theorem keysOf_cons (block : List Int64) (rest : List (List Int64)) :
    keysOf (block :: rest) = block.headD 0 :: keysOf rest := rfl

theorem blockCount_add (hw : 0 < width) (count more : Nat) :
    (count * width + more + width - 1) / width = count + (more + width - 1) / width := by
  have e : count * width + more + width - 1 = (more + width - 1) + count * width := by omega
  rw [e, Nat.add_mul_div_right _ _ hw]
  exact Nat.add_comm _ _

theorem length_blocksOf (hw : 0 < width) {count : Nat} (h : elements.length = count * width) :
    (blocksOf width elements).length = count := by
  have hnone : (0 + width - 1) / width = 0 := Nat.div_eq_of_lt (by omega)
  have hcount := blockCount_add hw count 0
  unfold blocksOf
  rw [List.length_map, List.length_range, h]
  rw [hnone] at hcount
  exact hcount

/-- Whole blocks are cut off alike, whatever follows them. -/
theorem blocksOf_append (hw : 0 < width) {count : Nat} (h : front.length = count * width) :
    blocksOf width (front ++ back) = blocksOf width front ++ blocksOf width back := by
  have hfront := length_blocksOf hw h
  unfold blocksOf at hfront ⊢
  rw [List.length_map, List.length_range] at hfront
  rw [hfront, List.length_append, h, blockCount_add hw, List.range_add, List.map_append,
    List.map_map]
  congr 1
  · apply List.map_congr_left
    intro block hmem
    have hblock : (block + 1) * width ≤ front.length := by
      rw [h]
      exact Nat.mul_le_mul_right _ (List.mem_range.1 hmem)
    rw [Nat.succ_mul] at hblock
    rw [List.drop_append_of_le_length (by omega), List.take_append_of_le_length]
    rw [List.length_drop]
    omega
  · apply List.map_congr_left
    intro block _
    have hdrop : (count + block) * width = front.length + block * width := by
      rw [h, Nat.add_mul]
    simp only [Function.comp, hdrop, List.drop_length_add_append]

theorem blocksOf_single (hw : 0 < width) (h : elements.length = width) :
    blocksOf width elements = [elements] := by
  have hone : (blocksOf width elements).length = 1 := length_blocksOf hw (by rw [h, Nat.one_mul])
  unfold blocksOf at hone ⊢
  rw [List.length_map, List.length_range] at hone
  rw [hone]
  simp [← h]

/-- A block between whole blocks leaves these as they are. -/
theorem blocksOf_insert (hw : 0 < width) {block : List Int64} {count : Nat}
    (hf : front.length = count * width) (hb : block.length = width) :
    blocksOf width (front ++ block ++ back) =
      blocksOf width front ++ block :: blocksOf width back := by
  have hone : block.length = 1 * width := by rw [hb, Nat.one_mul]
  rw [List.append_assoc, blocksOf_append hw hf, blocksOf_append hw hone, blocksOf_single hw hb]
  rfl

namespace Row

variable {row : Row}

theorem step_insert (h : row.elements = front ++ back)
    (hroom : row.elements.length + width ≤ maxCapacity) :
    row.step (.insert front.length width) =
      .ok { row with elements := front ++ List.replicate width row.noEntry ++ back } := by
  have hle : front.length ≤ row.elements.length := by
    rw [h, List.length_append]
    exact Nat.le_add_right _ _
  have hsum : Word.satAdd row.elements.length width ≤ maxCapacity :=
    Nat.le_trans (Nat.min_le_left _ _) hroom
  unfold step allow
  simp only [if_pos hle, if_pos hsum]
  rw [h, List.take_left, List.drop_left]

/-- The first element of the gap is set, and the others stay without entry. -/
theorem step_set (hw : 0 < width) (value : Int64)
    (h : row.elements = front ++ List.replicate width row.noEntry ++ back) :
    row.step (.set front.length value) =
      .ok { row with
        elements := front ++ (value :: List.replicate (width - 1) row.noEntry) ++ back } := by
  obtain ⟨more, rfl⟩ : ∃ more, width = more + 1 := ⟨width - 1, by omega⟩
  have hgap : row.elements = front ++ row.noEntry :: (List.replicate more row.noEntry ++ back) := by
    rw [h, List.replicate_succ, List.append_assoc]
    rfl
  have hlt : front.length < row.elements.length := by
    rw [hgap]
    simp
  unfold step
  simp only [if_pos hlt]
  rw [hgap]
  simp [overwrite]

end Row

namespace LiveList

variable {list : LiveList} {shl : Nat}

def blocks (list : LiveList) (shl : Nat) : List (List Int64) := blocksOf (2 ^ shl) list.elements

/-- The keys of the blocks, as a search of the list finds them in its slots. -/
def keys (list : LiveList) (shl : Nat) : List Int64 := Search.blockKeys list.slots list.len shl

theorem Sound.keys_eq (hs : list.Sound) (shl : Nat) :
    list.keys shl = keysOf (list.blocks shl) := by
  unfold keys keysOf blocks Search.blockKeys blocksOf
  rw [List.map_map, length_elements_of_sound hs]
  apply List.map_congr_left
  intro block hmem
  have hlt : block * 2 ^ shl < list.len := Search.lt_blockCount_iff.1 (List.mem_range.1 hmem)
  have hsize : block * 2 ^ shl < list.slots.size := Nat.lt_of_lt_of_le hlt hs.len_le
  simp [List.headD_eq_head?_getD, List.head?_take, List.head?_drop,
    Contents.getElem?_elements, hlt, hsize]

/-- Where the keys of whole blocks are parted, so are the elements. -/
theorem Sound.exists_parts (hs : list.Sound) (hwhole : 2 ^ shl ∣ list.len)
    {low high : List Int64} (h : list.keys shl = low ++ high) :
    ∃ front back, list.elements = front ++ back ∧ front.length = low.length * 2 ^ shl ∧
      keysOf (blocksOf (2 ^ shl) front) = low ∧ keysOf (blocksOf (2 ^ shl) back) = high := by
  have hw := Nat.two_pow_pos shl
  obtain ⟨count, hcount⟩ := hwhole
  rw [Nat.mul_comm] at hcount
  have helements : list.elements.length = count * 2 ^ shl :=
    (length_elements_of_sound hs).trans hcount
  have hkeys : keysOf (blocksOf (2 ^ shl) list.elements) = low ++ high :=
    (hs.keys_eq shl).symm.trans h
  have hlow : low.length ≤ count := by
    have hlength := congrArg List.length hkeys
    rw [keysOf, List.length_map, length_blocksOf hw helements, List.length_append] at hlength
    omega
  have hfront : (list.elements.take (low.length * 2 ^ shl)).length = low.length * 2 ^ shl := by
    rw [List.length_take, helements]
    exact Nat.min_eq_left (Nat.mul_le_mul_right _ hlow)
  refine ⟨_, list.elements.drop (low.length * 2 ^ shl), (List.take_append_drop _ _).symm, hfront, ?_⟩
  rw [← List.take_append_drop (low.length * 2 ^ shl) list.elements, blocksOf_append hw hfront,
    keysOf_append] at hkeys
  exact List.append_inj hkeys (by rw [keysOf, List.length_map, length_blocksOf hw hfront])

/-- A mutation that the row allows succeeds and makes of the elements what the row says. -/
theorem Reachable.apply_row (hr : list.Reachable) {mutation : Mutation}
    (hw : mutation.Within list.len) {row : Row} (h : list.toRow.step mutation = .ok row) :
    (mutation.apply list).result = .ok () ∧ (mutation.apply list).list.toRow = row ∧
      (mutation.apply list).list.Reachable := by
  obtain ⟨hresult, hrow, -⟩ := call_row idle_passive hr.sound hr.free hw
  unfold Row.answer at hresult
  unfold Row.after at hrow
  rw [h] at hresult hrow
  exact ⟨hresult, hrow, hr.call idle_keepsList mutation⟩

theorem Reachable.insert_set (hr : list.Reachable) (hw : 0 < width) (value : Int64)
    (he : list.elements = front ++ back) (hroom : list.len + width ≤ maxCapacity) :
    let opened := (Mutation.insert front.length width).apply list
    let filled := (Mutation.set front.length value).apply opened.list
    opened.result = .ok () ∧ filled.result = .ok () ∧ filled.list.Reachable ∧
      filled.list.elements =
        front ++ (value :: List.replicate (width - 1) list.noEntry) ++ back := by
  intro opened filled
  have hlen : list.toRow.elements.length + width ≤ maxCapacity := by
    rw [← length_elements_of_sound hr.sound] at hroom
    exact hroom
  have hwithin : (Mutation.insert front.length width).Within list.len := trivial
  obtain ⟨hopened, hrow, hr1⟩ := hr.apply_row hwithin (Row.step_insert he hlen)
  have hgap : opened.list.toRow.elements =
      front ++ List.replicate width opened.list.toRow.noEntry ++ back := by
    rw [hrow]
  have hwithin' : (Mutation.set front.length value).Within opened.list.len := trivial
  obtain ⟨hfilled, hrow', hr2⟩ := hr1.apply_row hwithin' (Row.step_set hw value hgap)
  refine ⟨hopened, hfilled, hr2, ?_⟩
  have helements := congrArg Row.elements hrow'
  have hnoEntry : opened.list.toRow.noEntry = list.noEntry := congrArg Row.noEntry hrow
  rw [hnoEntry] at helements
  exact helements

end LiveList

end SnapList
