/-
  Lists that nobody can tell apart.

  Two lists with the same elements may have different capacities, and behind the elements whatever
  their histories have left there. An operation is WITHIN the elements if it asks for nothing
  else. Such operations tell alike lists apart in no way: neither by an answer or a refusal, nor by
  the stamps, nor by what is left for the next one.

  Main statement: two reachable lists that are alike are indistinguishable by every run of
  operations within their elements (`Alike.indistinguishable`).
-/
import SnapList.Proofs.LiveList.Alike
import SnapList.Proofs.LiveList.Reachable
import SnapList.Proofs.LiveList.Row

namespace SnapList.LiveList

variable {first second : LiveList}

/-- The operation is about the first `len` slots. -/
def Operation.Within (len : Nat) : Operation → Prop
  | .read question => question.Logical
  | .change mutation => mutation.Within len

/-- Each operation is about the elements that the list has by then. -/
def StayWithin (list : LiveList) : List Operation → Prop
  | [] => True
  | operation :: rest => operation.Within list.len ∧ StayWithin (operation.run list).list rest

/-- The operations, carried out on both lists, get the same answers and advance both stamps alike,
and after each of them the lists are alike and so are their snapshots. -/
def Indistinguishable (first second : LiveList) : List Operation → Prop
  | [] => True
  | operation :: rest =>
    let one := operation.run first
    let other := operation.run second
    one.result = other.result ∧
      one.list.stamp - first.stamp = other.list.stamp - second.stamp ∧
      one.list.Alike other.list ∧ one.list.SnapshotsAgree other.list ∧
      Indistinguishable one.list other.list rest

/-! ## One operation -/

theorem alike_of_row (h1 : first.Sound) (h2 : second.Sound) (h : first.toRow = second.toRow) :
    first.Alike second := by
  obtain ⟨helements, hnoEntry⟩ := Row.mk.inj h
  refine ⟨?_, hnoEntry, helements⟩
  rw [← length_elements_of_sound h1, helements, length_elements_of_sound h2]

theorem Alike.toRow_eq (h : first.Alike second) : first.toRow = second.toRow := by
  unfold toRow
  rw [h.elements, h.noEntry]

/-- An operation within the elements is answered alike, and leaves lists that are alike. -/
theorem Alike.run (h : first.Alike second) (h1 : first.Reachable) (h2 : second.Reachable)
    {operation : Operation} (hw : operation.Within first.len) :
    (operation.run first).result = (operation.run second).result ∧
      (operation.run first).list.Alike (operation.run second).list := by
  cases operation with
  | read question => exact ⟨h.answer_eq h1.sound hw, h⟩
  | change mutation =>
    have hw1 : mutation.Within first.len := hw
    have hw2 : mutation.Within second.len := h.len ▸ hw1
    obtain ⟨hresult1, hrow1, hsound1⟩ := call_row idle_passive h1.sound h1.free hw1
    obtain ⟨hresult2, hrow2, hsound2⟩ := call_row idle_passive h2.sound h2.free hw2
    have hresult : (mutation.apply first).result = (mutation.apply second).result := by
      rw [Mutation.apply, Mutation.apply, hresult1, hresult2, h.toRow_eq]
    have hrow : (mutation.apply first).list.toRow = (mutation.apply second).list.toRow := by
      rw [Mutation.apply, Mutation.apply, hrow1, hrow2, h.toRow_eq]
    exact ⟨congrArg (Except.map fun _ => Reply.done) hresult, alike_of_row hsound1 hsound2 hrow⟩

/-- An operation within the elements takes the lock of both lists or of none. -/
theorem Alike.takesLock_eq (h : first.Alike second) (h1 : first.Reachable) (h2 : second.Reachable)
    {operation : Operation} (hw : operation.Within first.len) :
    operation.takesLock first = operation.takesLock second := by
  cases operation with
  | read question => rfl
  | change mutation =>
    have hw1 : mutation.Within first.len := hw
    have hw2 : mutation.Within second.len := h.len ▸ hw1
    exact (Mutation.takesLock_iff.2 ⟨hw1.promised, h1.free⟩).trans
      (Mutation.takesLock_iff.2 ⟨hw2.promised, h2.free⟩).symm

theorem Alike.stamp_eq (h : first.Alike second) (h1 : first.Reachable) (h2 : second.Reachable)
    {operation : Operation} (hw : operation.Within first.len) :
    (operation.run first).list.stamp - first.stamp =
      (operation.run second).list.stamp - second.stamp := by
  rw [(operation.later_run first).stamp, (operation.later_run second).stamp,
    h.takesLock_eq h1 h2 hw, UInt64.add_comm first.stamp, UInt64.add_comm second.stamp,
    UInt64.add_sub_cancel, UInt64.add_sub_cancel]

/-! ## Runs -/

/-- Lists that are alike cannot be told apart by operations within their elements, whatever they
have behind these and however much room there is. -/
theorem Alike.indistinguishable (h : first.Alike second) (h1 : first.Reachable)
    (h2 : second.Reachable) {operations : List Operation} (hw : first.StayWithin operations) :
    first.Indistinguishable second operations := by
  induction operations generalizing first second with
  | nil => trivial
  | cons operation rest ih =>
    obtain ⟨hwithin, hrest⟩ := hw
    obtain ⟨hresult, halike⟩ := h.run h1 h2 hwithin
    have hr1 := h1.run operation
    have hr2 := h2.run operation
    have hsnapshots := halike.snapshots_agree hr1.sound hr2.sound hr1.free hr2.free
    exact ⟨hresult, h.stamp_eq h1 h2 hwithin, halike, hsnapshots, ih halike hr1 hr2 hrest⟩

/-- A list of one element, with room and with what was removed behind it. -/
def worn : LiveList := { slots := #[5, 7, -1], len := 1, noEntry := -1, lock := ⟨6⟩ }

theorem reachable_worn : worn.Reachable := by
  have hcreate : create { initialCapacity := 3, noEntry := -1 } =
      .ok { slots := #[-1, -1, -1], len := 0, noEntry := -1 } := rfl
  have hpushed := ((Reachable.create hcreate).run (.change (.push 5))).run (.change (.push 7))
  exact hpushed.run (.change (.resize 1))

/-- A push that makes one of two lists grow, more elements, and a copy among them. -/
def stretch : List Operation :=
  [.change (.push 6), .change (.resize 4), .read (.get 3), .change (.copyRange 0 2 2),
    .change (.set 9 0), .read .display]

/-- The full list and the worn one have the same element and stay the same to the eye. -/
theorem single_worn_indistinguishable :
    single.Alike worn ∧ single.Reachable ∧ worn.Reachable ∧ single.StayWithin stretch ∧
      single.Indistinguishable worn stretch := by
  have halike : single.Alike worn := ⟨rfl, rfl, rfl⟩
  have hwithin : single.StayWithin stretch :=
    ⟨trivial, trivial, trivial, ⟨by decide, by decide⟩, trivial, trivial, trivial⟩
  exact ⟨halike, reachable_single, reachable_worn, hwithin,
    halike.indistinguishable reachable_single reachable_worn hwithin⟩

end SnapList.LiveList
