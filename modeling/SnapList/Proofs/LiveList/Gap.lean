/-
  A gap that is opened and closed again.

  To open a GAP is to insert slots without entry. What stood there moves to the right, into a larger
  buffer if need be. The gap is closed by a copy of these elements back over it, which overlaps what
  it copies unless the gap is wide, and by the old length. In between the elements of the gap may be
  set.

  Main statement: whatever was set in the gap, no call on the way is refused, and the list has the
  elements that it had before (`gap_closed`).
-/
import SnapList.Proofs.LiveList.Blocks

namespace SnapList

open LiveList (Mutation)

variable {front back : List Int64} {width : Nat}

/-- What is written within the middle of three parts leaves the outer ones. -/
theorem overwrite_middle {middle values : List Int64} {start : Nat}
    (h : start + values.length ≤ middle.length) :
    overwrite (front ++ middle ++ back) (front.length + start) values =
      front ++ overwrite middle start values ++ back := by
  have htake : (middle ++ back).take start = middle.take start :=
    List.take_append_of_le_length (by omega)
  have hdrop : (middle ++ back).drop (start + values.length) =
      middle.drop (start + values.length) ++ back := List.drop_append_of_le_length h
  unfold overwrite
  rw [List.append_assoc front, Nat.add_assoc, List.take_length_add_append,
    List.drop_length_add_append, htake, hdrop]
  simp only [List.append_assoc]

namespace Row

variable {row : Row}

/-- The elements are `front`, a gap of `width` elements, and `back`. -/
def Gapped (row : Row) (front : List Int64) (width : Nat) (back : List Int64) : Prop :=
  ∃ gap : List Int64, gap.length = width ∧ row.elements = front ++ gap ++ back

theorem Gapped.length (h : row.Gapped front width back) :
    row.elements.length = front.length + width + back.length := by
  obtain ⟨gap, rfl, helements⟩ := h
  rw [helements, List.length_append, List.length_append]

theorem Gapped.set (h : row.Gapped front width back) {index : Nat} (value : Int64)
    (hlow : front.length ≤ index) (hhigh : index < front.length + width) :
    ∃ next, row.step (.set index value) = .ok next ∧ next.Gapped front width back := by
  have hindex : index < row.elements.length := by
    rw [h.length]
    omega
  obtain ⟨gap, rfl, helements⟩ := h
  obtain ⟨start, rfl⟩ := Nat.exists_eq_add_of_le hlow
  have hstart : start + [value].length ≤ gap.length := Nat.add_lt_add_iff_left.1 hhigh
  refine ⟨{ row with elements := overwrite row.elements (front.length + start) [value] },
    if_pos hindex, overwrite gap start [value], length_overwrite hstart, ?_⟩
  rw [helements]
  exact overwrite_middle hstart

theorem Gapped.close (h : row.Gapped front width back) :
    ∃ next rest, row.step (.copyRange (front.length + width) front.length back.length) = .ok next ∧
      next.elements = front ++ back ++ rest := by
  obtain ⟨gap, rfl, helements⟩ := h
  have hback : (row.elements.drop (front.length + gap.length)).take back.length = back := by
    rw [helements, ← List.length_append, List.drop_left, List.take_length]
  have hfront : row.elements.take front.length = front := by
    rw [helements, List.append_assoc, List.take_left]
  refine ⟨_, row.elements.drop (front.length + back.length), rfl, ?_⟩
  rw [hback, overwrite, hfront]

theorem step_resize_of_append {rest : List Int64} (h : row.elements = front ++ rest)
    (hlimit : front.length ≤ maxCapacity) :
    row.step (.resize front.length) = .ok { row with elements := front } := by
  have hnone : front.length - row.elements.length = 0 := by
    rw [h, List.length_append]
    omega
  unfold step allow
  simp only [if_pos hlimit]
  rw [hnone, h, List.take_left, List.replicate_zero, List.append_nil]

end Row

namespace LiveList

variable {list : LiveList} {start : Nat}

/-- The list after some mutations, if every one of them succeeds. -/
def perform (list : LiveList) : List Mutation → Except Failure LiveList
  | [] => .ok list
  | mutation :: rest =>
    let outcome := mutation.apply list
    match outcome.result with
    | .ok () => outcome.list.perform rest
    | .error failure => .error failure

/-- The calls that set some elements, one after another. -/
def settings (entries : List (Nat × Int64)) : List Mutation :=
  entries.map fun (index, value) => .set index value

/-- A mutation that the row allows succeeds, and the others follow it. -/
theorem Reachable.perform_cons (hr : list.Reachable) {mutation : Mutation}
    (hw : mutation.Within list.len) {row : Row} (h : list.toRow.step mutation = .ok row) :
    ∃ next : LiveList, next.Reachable ∧ next.toRow = row ∧
      ∀ rest, list.perform (mutation :: rest) = next.perform rest := by
  obtain ⟨hresult, hrow, hnext⟩ := hr.apply_row hw h
  refine ⟨_, hnext, hrow, fun rest => ?_⟩
  simp only [perform, hresult]

theorem Reachable.perform_open (hr : list.Reachable) (he : list.elements = front ++ back)
    (hroom : list.len + width ≤ maxCapacity) :
    ∃ next : LiveList, next.Reachable ∧ next.toRow.Gapped front width back ∧
      ∀ rest, list.perform (.insert front.length width :: rest) = next.perform rest := by
  have hlimit : list.toRow.elements.length + width ≤ maxCapacity := by
    rw [← length_elements_of_sound hr.sound] at hroom
    exact hroom
  have hwithin : (Mutation.insert front.length width).Within list.len := trivial
  obtain ⟨next, hnext, hrow, hperform⟩ := hr.perform_cons hwithin (Row.step_insert he hlimit)
  refine ⟨next, hnext, ?_, hperform⟩
  rw [hrow]
  exact ⟨_, List.length_replicate, rfl⟩

/-- Elements of a gap are set one after another, and the gap stays where it is. -/
theorem Reachable.perform_settings (hr : list.Reachable) (hgap : list.toRow.Gapped front width back)
    {entries : List (Nat × Int64)}
    (hentries : ∀ entry ∈ entries, front.length ≤ entry.1 ∧ entry.1 < front.length + width) :
    ∃ next : LiveList, next.Reachable ∧ next.toRow.Gapped front width back ∧
      ∀ rest, list.perform (settings entries ++ rest) = next.perform rest := by
  induction entries generalizing list with
  | nil => exact ⟨list, hr, hgap, fun _ => rfl⟩
  | cons entry entries ih =>
    obtain ⟨index, value⟩ := entry
    obtain ⟨hlow, hhigh⟩ := hentries _ List.mem_cons_self
    obtain ⟨row, hstep, hset⟩ := hgap.set value hlow hhigh
    have hwithin : (Mutation.set index value).Within list.len := trivial
    obtain ⟨middle, hmiddle, rfl, hfirst⟩ := hr.perform_cons hwithin hstep
    obtain ⟨next, hnext, hgapped, hothers⟩ :=
      ih hmiddle hset fun other ho => hentries other (List.mem_cons_of_mem _ ho)
    exact ⟨next, hnext, hgapped, fun rest => (hfirst _).trans (hothers rest)⟩

theorem Reachable.perform_close (hr : list.Reachable) (hgap : list.toRow.Gapped front width back) :
    ∃ last : LiveList, last.Reachable ∧ last.elements = front ++ back ∧
      list.perform [.copyRange (front.length + width) front.length back.length,
        .resize (front ++ back).length] = .ok last := by
  have hlen : list.len = front.length + width + back.length := by
    rw [← length_elements_of_sound hr.sound]
    exact hgap.length
  have hlimit : (front ++ back).length ≤ maxCapacity := by
    have hfits := Nat.le_trans hr.sound.len_le hr.sound.capacity_le
    rw [List.length_append]
    omega
  obtain ⟨row, rest, hcopy, hclosed⟩ := hgap.close
  have hwithin : (Mutation.copyRange (front.length + width) front.length back.length).Within
      list.len := ⟨by omega, by omega⟩
  obtain ⟨copied, hcopied, rfl, hfirst⟩ := hr.perform_cons hwithin hcopy
  have hwithin' : (Mutation.resize (front ++ back).length).Within copied.len := trivial
  obtain ⟨last, hlast, hrow, hsecond⟩ :=
    hcopied.perform_cons hwithin' (Row.step_resize_of_append hclosed hlimit)
  exact ⟨last, hlast, congrArg Row.elements hrow, (hfirst _).trans (hsecond [])⟩

/-- A gap is opened, some of its elements are set, and it is closed: no call is refused, and the
list has the length and the elements that it had before. -/
theorem gap_closed (hr : list.Reachable) (hstart : start ≤ list.len)
    (hroom : list.len + width ≤ maxCapacity) {entries : List (Nat × Int64)}
    (hentries : ∀ entry ∈ entries, start ≤ entry.1 ∧ entry.1 < start + width) :
    ∃ after : LiveList,
      list.perform (.insert start width :: settings entries ++
        [.copyRange (start + width) start (list.len - start), .resize list.len]) = .ok after ∧
      after.len = list.len ∧ after.elements = list.elements := by
  have hwhole := length_elements_of_sound hr.sound
  obtain ⟨front, back, he, rfl⟩ : ∃ front back,
      list.elements = front ++ back ∧ front.length = start := by
    refine ⟨_, _, (List.take_append_drop start list.elements).symm, ?_⟩
    rw [List.length_take, hwhole]
    exact Nat.min_eq_left hstart
  have hlen : list.len = (front ++ back).length := by rw [← hwhole, he]
  have hback : list.len - front.length = back.length := by
    rw [hlen, List.length_append, Nat.add_sub_cancel_left]
  obtain ⟨opened, hopened, hgap, hinsert⟩ := hr.perform_open he hroom
  obtain ⟨filled, hfilled, hgapped, hsettings⟩ := hopened.perform_settings hgap hentries
  obtain ⟨last, hlast, hclosed, hperform⟩ := hfilled.perform_close hgapped
  have hsame : last.elements = list.elements := hclosed.trans he.symm
  refine ⟨last, ?_, ?_, hsame⟩
  · rw [hback, hlen, List.cons_append, hinsert, hsettings, hperform]
  · rw [← length_elements_of_sound hlast.sound, hsame, hwhole]

/-- A full list of three elements. -/
def triple : LiveList := { slots := #[7, 8, 9], len := 3, noEntry := -1, lock := ⟨2⟩ }

/-- The list grows for a gap of one element, which is set twice. The two elements behind it are
copied back over half of themselves, and the last of them stays behind the length as well. -/
theorem triple_gap_closed :
    let calls : List Mutation :=
      [.insert 1 1, .set 1 5, .set 1 6, .copyRange 2 1 2, .resize 3]
    (triple.Reachable ∧ 1 ≤ triple.len ∧ triple.len + 1 ≤ maxCapacity) ∧
      ∃ after, triple.perform calls = .ok after ∧ after.len = 3 ∧ after.elements = [7, 8, 9] ∧
        after.slots = #[7, 8, 9, 9, -1, -1] := by
  intro calls
  have hcreate : create { initialCapacity := 3, noEntry := -1 } =
      .ok { slots := #[-1, -1, -1], len := 0, noEntry := -1 } := rfl
  have hr : triple.Reachable := (Reachable.create hcreate).run (.change (.extend [7, 8, 9]))
  have hentries : ∀ entry ∈ [(1, (5 : Int64)), (1, 6)], 1 ≤ entry.1 ∧ entry.1 < 1 + 1 := by decide
  obtain ⟨after, hperform, hlen, helements⟩ := gap_closed hr (by decide) (by decide) hentries
  refine ⟨⟨hr, by decide, by decide⟩, after, hperform, hlen, helements, ?_⟩
  have hslots : (triple.perform calls).map (fun list => list.slots) = .ok #[7, 8, 9, 9, -1, -1] := rfl
  have hcalls : triple.perform calls = .ok after := hperform
  rw [hcalls] at hslots
  exact Except.ok.inj hslots

end LiveList

end SnapList
