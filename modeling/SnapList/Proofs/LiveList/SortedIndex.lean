/-
  A list as a sorted index of blocks.

  The blocks of an INDEX are whole and their keys ascend. A new key is ENTERED by three calls: a
  search for it from the first block on, an insertion of one block where the answer seats it, and a
  write of the key into the block. Nothing else keeps the index in order.

  Main statement: an index that has room takes every key, on the wanted side of equal ones, and is
  an index again; so keys that are entered one after another into an empty list stand there in
  ascending order, each as often as it was entered (`index_entered`).
-/
import SnapList.Proofs.LiveList.Blocks
import SnapList.Proofs.Search.Seat

namespace SnapList.LiveList

open Search (Direction Cut Verdict seat)

/-- A key to be entered, and the direction of the search for it: upwards if its block goes in front
of those with the same key, downwards if it goes behind them. -/
structure Entry where
  value : Int64
  direction : Direction

/-- The search for the key of an entry, from the first block on. -/
def Entry.query (entry : Entry) (shl : Nat) : Search.Query :=
  ⟨0, shl, entry.value, entry.direction⟩

/-- The block of an entry: the key, and a payload without entries. -/
def Entry.block (entry : Entry) (shl : Nat) (noEntry : Int64) : List Int64 :=
  entry.value :: List.replicate (2 ^ shl - 1) noEntry

/-- The elements are whole blocks of `2 ^ shl`, and their keys ascend. -/
structure Index (list : LiveList) (shl : Nat) : Prop where
  whole : 2 ^ shl ∣ list.len
  ascending : (list.keys shl).Pairwise (· ≤ ·)

/-- `after` is the index `list` with one entry at the index `place`. -/
structure Entered (list : LiveList) (shl : Nat) (entry : Entry) (place : Nat) (after : LiveList) :
    Prop where
  len : after.len = list.len + 2 ^ shl
  index : after.Index shl
  blocks : ∃ front back, list.blocks shl = front ++ back ∧ place = front.length * 2 ^ shl ∧
    after.blocks shl = front ++ entry.block shl list.noEntry :: back
  /-- The same search now finds the new block. -/
  found : after.find (entry.query shl) = .ok place

/-- The list after an entry: the answer of the search says where the block goes. -/
def enter (shl : Nat) (list : LiveList) (entry : Entry) : Except Failure LiveList := do
  let answer ← Fault.lift (list.find (entry.query shl))
  let place := seat entry.direction shl answer
  let opened := (Mutation.insert place (2 ^ shl)).apply list
  opened.result
  let filled := (Mutation.set place entry.value).apply opened.list
  filled.result
  return filled.list

variable {list after : LiveList} {shl place : Nat} {entry : Entry}

/-! ## One entry -/

/-- A list has no more blocks of a size than the limit leaves room for. -/
theorem shl_le_of_room (h : list.len + 2 ^ shl ≤ maxCapacity) : shl ≤ 62 := by
  by_contra hlt
  have hpow : 2 ^ 62 ≤ 2 ^ shl := Nat.pow_le_pow_right Nat.two_pos (by omega)
  unfold maxCapacity at h
  omega

/-- The search of an index answers what the reference says of its keys. -/
theorem Sound.find_entry (hs : list.Sound) (hshl : shl ≤ 62)
    (ha : (list.keys shl).Pairwise (· ≤ ·)) (entry : Entry) :
    list.find (entry.query shl) =
      .ok ((Verdict.linear (list.keys shl) 0 entry.value entry.direction).encode shl) := by
  have hcapacity := hs.capacity_le
  have hlen := hs.len_le
  have hallowed : (entry.query shl).Allowed list.slots list.len :=
    ⟨hlen, by unfold maxCapacity at hcapacity; omega, hshl, Nat.zero_le _⟩
  have hfloor : (entry.query shl).floor = 0 := Nat.zero_div _
  have hfind := Search.find_eq_linear hallowed ha fun _ block hlt => by
    rw [hfloor] at hlt
    exact absurd hlt (Nat.not_lt_zero _)
  rw [hfloor] at hfind
  exact hfind

theorem length_block (entry : Entry) (shl : Nat) (noEntry : Int64) :
    (entry.block shl noEntry).length = 2 ^ shl := by
  have hw := Nat.two_pow_pos shl
  unfold Entry.block
  rw [List.length_cons, List.length_replicate]
  omega

/-- A list with the block of an entry at its cut is the index with this entry. -/
theorem entered_of_cut {front back : List Int64} (hs : list.Sound) (hs' : after.Sound)
    (hi : list.Index shl) (hshl : shl ≤ 62) (he : list.elements = front ++ back) {count : Nat}
    (hfront : front.length = count * 2 ^ shl)
    (hcut : Cut entry.direction entry.value (keysOf (blocksOf (2 ^ shl) front))
      (keysOf (blocksOf (2 ^ shl) back)))
    (he' : after.elements = front ++ entry.block shl list.noEntry ++ back) :
    list.Entered shl entry front.length after := by
  have hw := Nat.two_pow_pos shl
  have hblocks : list.blocks shl = blocksOf (2 ^ shl) front ++ blocksOf (2 ^ shl) back := by
    rw [blocks, he, blocksOf_append hw hfront]
  have hblocks' : after.blocks shl =
      blocksOf (2 ^ shl) front ++ entry.block shl list.noEntry :: blocksOf (2 ^ shl) back := by
    rw [blocks, he', blocksOf_insert hw hfront (length_block _ _ _)]
  have hplace : front.length = (blocksOf (2 ^ shl) front).length * 2 ^ shl := by
    rw [length_blocksOf hw hfront, hfront]
  have hkeys : list.keys shl =
      keysOf (blocksOf (2 ^ shl) front) ++ keysOf (blocksOf (2 ^ shl) back) := by
    rw [hs.keys_eq, hblocks, keysOf_append]
  have hkeys' : after.keys shl =
      keysOf (blocksOf (2 ^ shl) front) ++ entry.value :: keysOf (blocksOf (2 ^ shl) back) := by
    rw [hs'.keys_eq, hblocks', keysOf_append]
    rfl
  have hasc : (after.keys shl).Pairwise (· ≤ ·) := by
    rw [hkeys']
    exact hcut.ascending (hkeys ▸ hi.ascending)
  have hlen : after.len = list.len + 2 ^ shl := by
    rw [← length_elements_of_sound hs', ← length_elements_of_sound hs, he, he',
      List.length_append, List.length_append, List.length_append, length_block]
    omega
  have hfound := hs'.find_entry hshl hasc entry
  rw [hkeys', hcut.linear_of_seated, keysOf, List.length_map, Search.encode_hit, ← hplace] at hfound
  exact
    { len := hlen
      index := ⟨hlen ▸ Nat.dvd_add hi.whole (Nat.dvd_refl _), hasc⟩
      blocks := ⟨_, _, hblocks, hplace, hblocks'⟩
      found := hfound }

/-- An index that has room takes an entry, and no call on the way is refused. -/
theorem Reachable.entered (hr : list.Reachable) (hi : list.Index shl)
    (hroom : list.len + 2 ^ shl ≤ maxCapacity) (entry : Entry) :
    ∃ answer, list.find (entry.query shl) = .ok answer ∧
      let place := seat entry.direction shl answer
      let opened := (Mutation.insert place (2 ^ shl)).apply list
      let filled := (Mutation.set place entry.value).apply opened.list
      opened.result = .ok () ∧ filled.result = .ok () ∧ filled.list.Reachable ∧
        list.Entered shl entry place filled.list := by
  have hasc := hi.ascending
  have hshl := shl_le_of_room hroom
  obtain ⟨low, high, hkeys, hcut⟩ := Search.exists_cut entry.direction entry.value hasc
  obtain ⟨front, back, he, hfront, rfl, rfl⟩ := hr.sound.exists_parts hi.whole hkeys
  have hfind := hr.sound.find_entry hshl hasc entry
  rw [hkeys] at hasc hfind
  have hseat := hcut.seat_linear hasc shl
  rw [← hfront] at hseat
  obtain ⟨hopened, hfilled, hr', he'⟩ :=
    hr.insert_set (Nat.two_pow_pos shl) entry.value he hroom
  refine ⟨_, hfind, ?_⟩
  rw [hseat]
  exact ⟨hopened, hfilled, hr', entered_of_cut hr.sound hr'.sound hi hshl he hfront hcut he'⟩

/-! ## Entries one after another -/

theorem Entered.keys_perm (h : list.Entered shl entry place after) (hs : list.Sound)
    (hs' : after.Sound) : (after.keys shl).Perm (entry.value :: list.keys shl) := by
  obtain ⟨front, back, hblocks, -, hblocks'⟩ := h.blocks
  rw [hs'.keys_eq, hs.keys_eq, hblocks, hblocks', keysOf_append, keysOf_append, keysOf_cons]
  exact List.perm_middle

theorem Reachable.enter_eq (hr : list.Reachable) (hi : list.Index shl)
    (hroom : list.len + 2 ^ shl ≤ maxCapacity) (entry : Entry) :
    ∃ place after, enter shl list entry = .ok after ∧ after.Reachable ∧
      list.Entered shl entry place after := by
  obtain ⟨answer, hfind, hopened, hfilled, hr', hentered⟩ := hr.entered hi hroom entry
  refine ⟨_, _, ?_, hr', hentered⟩
  simp only [enter, hfind, Fault.lift_ok, bind, Except.bind, hopened, hfilled, pure, Except.pure]

theorem Reachable.enter_all (hr : list.Reachable) (hi : list.Index shl) (entries : List Entry)
    (hroom : list.len + entries.length * 2 ^ shl ≤ maxCapacity) :
    ∃ after, entries.foldlM (enter shl) list = .ok after ∧ after.Index shl ∧
      (after.keys shl).Perm (entries.map Entry.value ++ list.keys shl) := by
  induction entries generalizing list with
  | nil => exact ⟨list, rfl, hi, List.Perm.refl _⟩
  | cons entry rest ih =>
    rw [List.length_cons, Nat.succ_mul] at hroom
    obtain ⟨place, next, henter, hr', hentered⟩ := hr.enter_eq hi (by omega) entry
    obtain ⟨after, hrest, hindex, hperm⟩ := ih hr' hentered.index (by rw [hentered.len]; omega)
    refine ⟨after, ?_, hindex, ?_⟩
    · rw [List.foldlM_cons, henter]
      exact hrest
    · have hnext := hentered.keys_perm hr.sound hr'.sound
      exact (hperm.trans (hnext.append_left _)).trans List.perm_middle

theorem index_of_empty (h : list.len = 0) : list.Index shl ∧ list.keys shl = [] := by
  have hkeys : list.keys shl = [] := by
    have hw : 2 ^ shl - 1 < 2 ^ shl := Nat.sub_lt (Nat.two_pow_pos shl) Nat.one_pos
    have hcount : Search.blockCount 0 shl = 0 := by
      unfold Search.blockCount
      rw [Nat.zero_add, Nat.div_eq_of_lt hw]
    rw [keys, Search.blockKeys, h, hcount]
    rfl
  exact ⟨⟨h ▸ Nat.dvd_zero _, hkeys ▸ List.Pairwise.nil⟩, hkeys⟩

/-- A search and an insertion where its answer seats the key keep an index an index: no call is
refused, the other blocks stay whole and in order, and the search then finds the new block. So the
keys that are entered into an empty list stand there in ascending order, each as often as it was
entered. -/
theorem index_entered (hr : list.Reachable) (shl : Nat) :
    (∀ entry : Entry, list.Index shl → list.len + 2 ^ shl ≤ maxCapacity →
      ∃ answer, list.find (entry.query shl) = .ok answer ∧
        let place := seat entry.direction shl answer
        let opened := (Mutation.insert place (2 ^ shl)).apply list
        let filled := (Mutation.set place entry.value).apply opened.list
        opened.result = .ok () ∧ filled.result = .ok () ∧
          list.Entered shl entry place filled.list) ∧
    (∀ entries : List Entry, list.len = 0 → entries.length * 2 ^ shl ≤ maxCapacity →
      ∃ after, entries.foldlM (enter shl) list = .ok after ∧
        (after.keys shl).Pairwise (· ≤ ·) ∧
        (after.keys shl).Perm (entries.map Entry.value)) := by
  constructor
  · intro entry hi hroom
    obtain ⟨answer, hfind, hopened, hfilled, -, hentered⟩ := hr.entered hi hroom entry
    exact ⟨answer, hfind, hopened, hfilled, hentered⟩
  · intro entries hempty hroom
    obtain ⟨hi, hnone⟩ := index_of_empty hempty
    have hall : list.len + entries.length * 2 ^ shl ≤ maxCapacity := by
      rw [hempty, Nat.zero_add]
      exact hroom
    obtain ⟨after, hall, hindex, hperm⟩ := hr.enter_all hi entries hall
    rw [hnone, List.append_nil] at hperm
    exact ⟨after, hall, hindex.ascending, hperm⟩

/-- A full list of two blocks of two. -/
def pairs : LiveList :=
  { slots := #[3, 100, 5, 200], len := 4, noEntry := -1, lock := ⟨2⟩ }

theorem reachable_pairs : pairs.Reachable := by
  have hcreate : create { initialCapacity := 4, noEntry := -1 } =
      .ok { slots := #[-1, -1, -1, -1], len := 0, noEntry := -1 } := rfl
  exact (Reachable.create hcreate).run (.change (.extend [3, 100, 5, 200]))

/-- A second block with key 5 goes behind the first one, where the list has to grow for it; and
three keys that are entered into a list without slots are sorted, two of them equal. -/
theorem pairs_entered :
    let filled := (Mutation.set 4 5).apply ((Mutation.insert 4 2).apply pairs).list
    let bare : LiveList := { slots := #[], len := 0, noEntry := -1 }
    (pairs.Reachable ∧ pairs.Index 1 ∧ pairs.len + 2 ^ 1 ≤ maxCapacity) ∧
      (pairs.find ⟨0, 1, 5, .down⟩ = .ok 2 ∧ pairs.Entered 1 ⟨5, .down⟩ 4 filled.list ∧
        filled.list.blocks 1 = [[3, 100], [5, 200], [5, -1]]) ∧
      (bare.Reachable ∧ bare.len = 0 ∧ 3 * 2 ^ 1 ≤ maxCapacity) ∧
      ∃ after, [⟨5, .up⟩, ⟨3, .up⟩, ⟨5, .down⟩].foldlM (enter 1) bare = .ok after ∧
        (after.keys 1).Pairwise (· ≤ ·) ∧ (after.keys 1).Perm [5, 3, 5] := by
  intro filled bare
  have hindex : pairs.Index 1 := ⟨by decide, by decide⟩
  have hfind : pairs.find ⟨0, 1, 5, .down⟩ = .ok 2 := by decide +kernel
  have hcreate : create ⟨0, -1⟩ = .ok bare := rfl
  have hbare : bare.Reachable := Reachable.create hcreate
  have hblocks : filled.list.blocks 1 = [[3, 100], [5, 200], [5, -1]] := by decide +kernel
  obtain ⟨answer, hanswer, -, -, hentered⟩ :=
    (index_entered reachable_pairs 1).1 ⟨5, .down⟩ hindex (by decide)
  obtain rfl : 2 = answer := Except.ok.inj (hfind.symm.trans hanswer)
  exact ⟨⟨reachable_pairs, hindex, by decide⟩, ⟨hfind, hentered, hblocks⟩,
    ⟨hbare, rfl, by decide⟩, (index_entered hbare 1).2 _ rfl (by decide)⟩

end SnapList.LiveList
