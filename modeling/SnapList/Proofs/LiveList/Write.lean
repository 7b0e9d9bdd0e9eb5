/-
  Writes that nobody disturbs.

  What is done at the pins of a write is PASSIVE if it leaves a list under a held lock as it is
  and no pin fails. Under a held lock every mutation is turned away, so every visit that does not
  make its pin fail is passive (`Visit.passive_atPin`). A write with passive pins does what its
  actions do, one after another.

  Main statements: the result and the list of a passive write are found step by step
  (`plain_pin`, `plain_act`, `plain_failed`), and a list is SOUND before and after: its elements
  fit into its slots, its slots into the limit, and its buffer is none of those retired
  (`Sound.grow`, `Sound.update`).
-/
import SnapList.LiveList.Operation
import SnapList.Slots.Pointwise

namespace SnapList.LiveList

variable {ρ : Type} {atPin : AtPin ρ} {list : LiveList}

/-- At no pin of a write the list is changed, and no pin fails. -/
def AtPin.Passive (atPin : AtPin ρ) : Prop :=
  ∀ number list, list.lock.isLocked = true →
    (atPin number list).list = list ∧ (atPin number list).fails = false

theorem AtPin.Passive.keepsLock (hp : atPin.Passive) : atPin.KeepsLock :=
  fun number list h => by rw [(hp number list h).1]

theorem idle_passive : AtPin.Passive idle := fun _ _ _ => ⟨rfl, rfl⟩

/-- Whatever is tried in the middle of a write is passive, unless it makes the pin fail. -/
theorem Visit.passive_atPin {visit : Visit} (hv : visit.fails = false) (number : Nat) :
    (visit.atPin number).Passive := by
  intro current list h
  unfold Visit.atPin
  split
  · exact ⟨visit.list_run_of_locked h, hv⟩
  · exact ⟨rfl, rfl⟩

/-! ## Step by step -/

/-- The list and the result of a call, without reports and accounts. -/
def Outcome.plain (outcome : Outcome ρ) : LiveList × Except Failure Unit :=
  (outcome.list, outcome.result)

theorem plain_pin (hp : atPin.Passive) (h : list.lock.isLocked = true) (number : Nat)
    (rest : List Step) :
    (runSteps atPin number list (.pin :: rest)).plain =
      (runSteps atPin (number + 1) list rest).plain := by
  obtain ⟨hl, hf⟩ := hp number list h
  simp only [runSteps, hl, hf]
  rfl

theorem plain_act {action : Action} {next : LiveList} (h : action.apply list = .ok next)
    (number : Nat) (rest : List Step) :
    (runSteps atPin number list (.act action :: rest)).plain =
      (runSteps atPin number next rest).plain := by
  simp only [runSteps, h]
  rfl

theorem plain_failed {action : Action} {failure : Failure} (h : action.apply list = .error failure)
    (number : Nat) (rest : List Step) :
    (runSteps atPin number list (.act action :: rest)).plain =
      (action.leaves list, .error failure) := by
  simp only [runSteps, h]
  rfl

theorem withSlots_of_ok {slots : Except Fault Slots} {after : Slots} (h : slots = .ok after) :
    list.withSlots slots = .ok { list with slots := after } := by
  rw [h]
  rfl

/-! ## Sound lists -/

/-- The buffer in use is not among those retired. -/
def Fresh (list : LiveList) : Prop := ∀ address ∈ list.retired.addresses, address < list.serial

theorem Fresh.grow_of_lt (hf : list.Fresh) {required : Nat} (h : list.capacity < required) :
    list.grow required =
      .ok { list with
        slots := list.slots.padded (grownCapacity list.capacity required) list.noEntry
        serial := list.serial + 1
        retired := ⟨list.retired.entries ++ [(list.serial, list.slots)]⟩ } := by
  have hnew : list.serial ∉ list.retired.addresses := fun ha => Nat.lt_irrefl _ (hf _ ha)
  rw [LiveList.grow_of_lt h, Retirement.Ledger.retire_eq_ok_iff.2 ⟨hnew, rfl⟩]

theorem Fresh.exists_grow (hf : list.Fresh) (required : Nat) :
    ∃ next, list.grow required = .ok next := by
  rcases Nat.lt_or_ge list.capacity required with hlt | hge
  · exact ⟨_, hf.grow_of_lt hlt⟩
  · exact ⟨_, grow_of_le hge⟩

theorem Fresh.grow (hf : list.Fresh) {required : Nat} {next : LiveList}
    (hg : list.grow required = .ok next) : next.Fresh := by
  rcases Nat.lt_or_ge list.capacity required with hlt | hge
  · cases (hf.grow_of_lt hlt).symm.trans hg
    intro address ha
    simp only [Retirement.Ledger.addresses, List.map_append, List.mem_append, List.map_cons,
      List.map_nil, List.mem_singleton] at ha
    rcases ha with ha | rfl
    · exact Nat.lt_succ_of_lt (hf _ ha)
    · exact Nat.lt_succ_self _
  · cases (grow_of_le hge).symm.trans hg
    exact hf

/-- What holds of a list between two calls. -/
structure Sound (list : LiveList) : Prop where
  len_le : list.len ≤ list.capacity
  capacity_le : list.capacity ≤ maxCapacity
  fresh : list.Fresh

theorem length_elements_of_sound (hs : list.Sound) : list.elements.length = list.len := by
  rw [Contents.length_elements]
  exact Nat.min_eq_left hs.len_le

/-- A list is created within the limit, and then in one way. -/
theorem create_eq_ok_iff {options : Options} :
    create options = .ok list ↔ options.initialCapacity ≤ maxCapacity ∧
      list =
        { slots := Array.replicate options.initialCapacity options.noEntry
          len := 0
          noEntry := options.noEntry } := by
  unfold create
  by_cases hc : maxCapacity < options.initialCapacity
  · rw [if_pos hc]
    constructor
    · intro h
      cases h
    · rintro ⟨hle, -⟩
      exact absurd hc (Nat.not_lt.2 hle)
  · rw [if_neg hc]
    constructor
    · intro h
      exact ⟨Nat.le_of_not_lt hc, (Except.ok.inj h).symm⟩
    · rintro ⟨-, rfl⟩
      rfl

theorem sound_create {options : Options} (h : create options = .ok list) : list.Sound := by
  obtain ⟨hc, rfl⟩ := create_eq_ok_iff.1 h
  refine ⟨Nat.zero_le _, ?_, fun address ha => absurd ha List.not_mem_nil⟩
  simp only [Contents.capacity, Array.size_replicate]
  exact hc

theorem Sound.setLock (hs : list.Sound) (lock : StampLock) : Sound { list with lock } :=
  ⟨hs.len_le, hs.capacity_le, hs.fresh⟩

/-- Other slots of the same number, and a length within them, keep a list sound. -/
theorem Sound.update (hs : list.Sound) {slots : Slots} {len : Nat}
    (hsize : slots.size = list.slots.size) (hlen : len ≤ list.capacity) :
    Sound { list with slots, len } := by
  refine ⟨?_, ?_, hs.fresh⟩
  · exact Nat.le_trans hlen (Nat.le_of_eq hsize.symm)
  · exact Nat.le_trans (Nat.le_of_eq hsize) hs.capacity_le

/-- `roomy` is `list` in a buffer with room for `required` slots. -/
structure Roomy (list : LiveList) (required : Nat) (roomy : LiveList) : Prop where
  sound : roomy.Sound
  room : required ≤ roomy.capacity
  len : roomy.len = list.len
  noEntry : roomy.noEntry = list.noEntry
  lock : roomy.lock = list.lock

/-- Growth within the limit succeeds: the buffer in use was never retired before. -/
theorem Sound.grow (hs : list.Sound) {required : Nat} (hr : required ≤ maxCapacity) :
    ∃ roomy, list.grow required = .ok roomy ∧ list.Roomy required roomy ∧
      roomy.slots = (if required ≤ list.capacity then list.slots
        else list.slots.padded (grownCapacity list.capacity required) list.noEntry) := by
  by_cases h : required ≤ list.capacity
  · exact ⟨list, if_pos h, ⟨hs, h, rfl, rfl, rfl⟩, (if_pos h).symm⟩
  · have hmore := Nat.lt_of_not_le h
    have hlt := lt_grownCapacity hmore
    have hsize : (list.slots.padded (grownCapacity list.capacity required) list.noEntry).size =
        grownCapacity list.capacity required := Slots.size_padded (Nat.le_of_lt hlt)
    have hg := hs.fresh.grow_of_lt hmore
    refine ⟨_, hg, ⟨⟨?_, ?_, hs.fresh.grow hg⟩, ?_, rfl, rfl, rfl⟩, (if_neg h).symm⟩
    · exact Nat.le_trans (Nat.le_trans hs.len_le (Nat.le_of_lt hlt)) (Nat.le_of_eq hsize.symm)
    · exact Nat.le_trans (Nat.le_of_eq hsize) (grownCapacity_le hr)
    · exact Nat.le_trans (le_grownCapacity _ _) (Nat.le_of_eq hsize.symm)

end SnapList.LiveList
