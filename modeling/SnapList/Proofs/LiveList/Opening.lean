/-
  How a write opens.

  Up to its last pin a write checks its arguments and makes room, and nothing else: it OPENS. What
  changes elements or length comes behind the last pin. So whoever looks in at a pin, or is left
  with the list when a pin fails, finds it as it was, or in the larger buffer to which the write has
  just moved it.

  Main statements: every step before a pin opens the write (`Mutation.opens_of_pin`); the list to
  which such steps lead is the list before the write or that list with more room
  (`Leads.prepared`); and from there the same steps lead nowhere else (`Leads.again`): to open a
  write a second time changes nothing.
-/
import SnapList.Proofs.LiveList.Route

namespace SnapList.LiveList

variable {list next seen : LiveList} {room : Option Nat} {front rest : List Step}

/-! ## The steps before a pin -/

/-- The step is a pin, a check of an argument, or growth for exactly the `room` asked for. -/
def Step.Opens (room : Option Nat) : Step → Prop
  | .act (.grow required) => room = some required
  | .act (.write _ _) | .act (.move _ _ _) | .act (.blank _ _) | .act (.resize _) => False
  | _ => True

/-- The number of slots for which a mutation of `len` elements makes room. -/
def Mutation.demand (len : Nat) : Mutation → Option Nat
  | push _ => some (Word.satAdd len 1)
  | extend values => some (Word.satAdd len values.length)
  | insert _ count => some (Word.satAdd len count)
  | resize newLen => some newLen
  | _ => none

/-- Some steps begin with pins, checks and growth, and then pin nothing any more. -/
def Opened (room : Option Nat) (steps : List Step) : Prop :=
  ∃ opening closing, steps = opening ++ closing ∧ (∀ step ∈ opening, step.Opens room) ∧
    ∀ step ∈ closing, step.isPin = false

theorem opened_append (len : Nat) (values : List Int64) :
    Opened (some (Word.satAdd len values.length)) (Mutation.append len values) := by
  refine ⟨Mutation.reserve (Word.satAdd len values.length) ++ [.pin],
    [.act (.write len values), .act (.resize (Word.satAdd len values.length))], rfl, ?_, ?_⟩ <;>
    simp [Mutation.reserve, Step.Opens, Step.isPin]

theorem opened_resize (len newLen : Nat) :
    Opened (some newLen) (Mutation.steps len (.resize newLen)) := by
  by_cases h : len < newLen
  · refine ⟨Mutation.reserve newLen ++ [.pin], [.act (.blank len newLen), .act (.resize newLen)],
      by simp [Mutation.steps, h], ?_, ?_⟩ <;>
      simp [Mutation.reserve, Step.Opens, Step.isPin]
  · refine ⟨Mutation.reserve newLen, [.act (.resize newLen)],
      by simp [Mutation.steps, h], ?_, ?_⟩ <;>
      simp [Mutation.reserve, Step.Opens, Step.isPin]

theorem Mutation.opened_steps (mutation : Mutation) (len : Nat) :
    Opened (mutation.demand len) (mutation.steps len) := by
  cases mutation with
  | set index value =>
    refine ⟨[.act (.admitIndex index), .pin], [.act (.write index [value])], rfl, ?_, ?_⟩ <;>
      simp [Step.Opens, Step.isPin]
  | setUnchecked index value =>
    refine ⟨[.pin], [.act (.write index [value])], rfl, ?_, ?_⟩ <;>
      simp [Step.Opens, Step.isPin]
  | push value => exact opened_append len [value]
  | extend values => exact opened_append len values
  | insert start count =>
    refine ⟨.act (.admitStart start) :: reserve (Word.satAdd len count) ++ [.pin],
      [.act (.move start (start + count) (len - start)), .act (.blank start (start + count)),
        .act (.resize (Word.satAdd len count))], rfl, ?_, ?_⟩ <;>
      simp [reserve, demand, Step.Opens, Step.isPin]
  | copyRange source target count =>
    refine ⟨[.pin, .act (.admitSpan source count), .act (.admitSpan target count)],
      [.act (.move source target count)], rfl, ?_, ?_⟩ <;>
      simp [Step.Opens, Step.isPin]
  | resize newLen => exact opened_resize len newLen
  | clear => exact ⟨[], [.act (.resize 0)], rfl, by simp, by simp [Step.isPin]⟩

/-- What stands in front of a pin does so in the first of two parts, if the second has no pin. -/
theorem eq_append_of_pin {first second : List Step} (h : first ++ second = front ++ .pin :: rest)
    (hsecond : ∀ step ∈ second, step.isPin = false) : ∃ others, first = front ++ .pin :: others := by
  rcases List.append_eq_append_iff.1 h with ⟨between, hfront, hsplit⟩ | ⟨between, hfirst, hsplit⟩
  · cases hsecond .pin (by rw [hsplit]; simp)
  · cases between with
    | nil =>
      have hmem : Step.pin ∈ second := by
        rw [← List.nil_append second, ← hsplit]
        exact List.mem_cons_self
      cases hsecond .pin hmem
    | cons step others =>
      obtain ⟨rfl, -⟩ := List.cons.inj hsplit
      exact ⟨others, hfirst⟩

/-- The first of two parts is in front of every pin, if it has none itself. -/
theorem prefix_of_pin {first second : List Step} (h : first ++ second = front ++ .pin :: rest)
    (hfirst : ∀ step ∈ first, step.isPin = false) {step : Step} (hmem : step ∈ first) :
    step ∈ front := by
  rcases List.append_eq_append_iff.1 h with ⟨between, rfl, -⟩ | ⟨between, rfl, hsplit⟩
  · exact List.mem_append_left _ hmem
  · cases between with
    | nil => simpa using hmem
    | cons other others =>
      obtain ⟨rfl, -⟩ := List.cons.inj hsplit
      cases hfirst .pin (by simp)

theorem Mutation.opens_of_pin {mutation : Mutation} {len : Nat}
    (h : mutation.steps len = front ++ .pin :: rest) :
    ∀ step ∈ front, step.Opens (mutation.demand len) := by
  obtain ⟨opening, closing, hsteps, hopens, hclosing⟩ := mutation.opened_steps len
  obtain ⟨others, rfl⟩ := eq_append_of_pin (hsteps.symm.trans h) hclosing
  intro step hmem
  exact hopens step (List.mem_append_left _ hmem)

/-- A mutation that makes room has it admitted before its first pin. -/
theorem Mutation.admitSize_mem_of_pin {mutation : Mutation} {len required : Nat}
    (hroom : mutation.demand len = some required)
    (h : mutation.steps len = front ++ .pin :: rest) : .act (.admitSize required) ∈ front := by
  cases mutation with
  | set | setUnchecked | copyRange | clear => cases hroom
  | push | extend | resize =>
    obtain rfl := Option.some.inj hroom
    have hsplit : [Step.act .assertHeld, .act (.admitSize _)] ++ _ = front ++ .pin :: rest := h
    exact prefix_of_pin hsplit (by simp [Step.isPin]) (by simp)
  | insert start count =>
    obtain rfl := Option.some.inj hroom
    have hsplit : [Step.act (.admitStart start), .act .assertHeld,
        .act (.admitSize (Word.satAdd len count))] ++ _ = front ++ .pin :: rest := h
    exact prefix_of_pin hsplit (by simp [Step.isPin]) (by simp)

/-! ## The list at a pin -/

/-- Growth that succeeds moves the slots to a larger buffer and retires the old one. -/
theorem grow_eq_of_lt {required : Nat} (h : list.capacity < required)
    (hg : list.grow required = .ok next) :
    next =
      { list with
        slots := list.slots.padded (grownCapacity list.capacity required) list.noEntry
        serial := list.serial + 1
        retired := ⟨list.retired.entries ++ [(list.serial, list.slots)]⟩ } := by
  rw [grow_of_lt h] at hg
  split at hg
  · cases hg
  · rename_i retired hr
    cases hg
    rw [(Retirement.Ledger.retire_eq_ok_iff.1 hr).2]

theorem capacity_grow_of_lt {required : Nat} (h : list.capacity < required)
    (hg : list.grow required = .ok next) :
    next.capacity = grownCapacity list.capacity required := by
  rw [grow_eq_of_lt h hg]
  exact Slots.size_padded (Nat.le_of_lt (lt_grownCapacity h))

theorem le_capacity_grow {required : Nat} (hg : list.grow required = .ok next) :
    required ≤ next.capacity := by
  rcases Nat.lt_or_ge list.capacity required with h | h
  · rw [capacity_grow_of_lt h hg]
    exact le_grownCapacity _ _
  · rw [grow_of_le h] at hg
    cases hg
    exact h

/-- The list before a write, or that list in the larger buffer to which the write has moved it. -/
inductive Prepared (list : LiveList) (room : Option Nat) : LiveList → Prop
  | same : Prepared list room list
  | grown {seen : LiveList} {required : Nat} (hroom : room = some required)
      (hlt : list.capacity < required) (hg : list.grow required = .ok seen) :
      Prepared list room seen

theorem Prepared.len (h : Prepared list room seen) : seen.len = list.len := by
  cases h with
  | same => rfl
  | grown hroom hlt hg => rw [grow_eq_of_lt hlt hg]

theorem Prepared.noEntry (h : Prepared list room seen) : seen.noEntry = list.noEntry := by
  cases h with
  | same => rfl
  | grown hroom hlt hg => exact noEntry_grow hg

theorem Prepared.lock (h : Prepared list room seen) : seen.lock = list.lock := by
  cases h with
  | same => rfl
  | grown hroom hlt hg => exact lock_grow hg

theorem Prepared.capacity_le (h : Prepared list room seen) : list.capacity ≤ seen.capacity := by
  cases h with
  | same => exact Nat.le_refl _
  | grown hroom hlt hg => exact Nat.le_trans (Nat.le_of_lt hlt) (le_capacity_grow hg)

/-- The elements stay in front of the room behind them. -/
theorem Prepared.elements (h : Prepared list room seen) (hlen : list.len ≤ list.capacity) :
    seen.elements = list.elements := by
  cases h with
  | same => rfl
  | grown hroom hlt hg =>
    rw [grow_eq_of_lt hlt hg]
    unfold Contents.elements
    rw [Slots.toList_padded]
    exact List.take_append_of_le_length hlen

/-- An action that opens a write leads from a prepared list to a prepared one. A buffer that has
grown has room already, so a write grows it once at most. -/
theorem Prepared.apply (h : Prepared list room seen) {action : Action}
    (ho : (Step.act action).Opens room) (ha : action.apply seen = .ok next) :
    Prepared list room next := by
  cases action with
  | grow required =>
    have hroom : room = some required := ho
    have hg : seen.grow required = .ok next := ha
    rcases Nat.lt_or_ge seen.capacity required with hlt | hge
    · cases h with
      | same => exact .grown hroom hlt hg
      | grown hroom' hlt' hg' =>
        cases hroom.symm.trans hroom'
        exact absurd (le_capacity_grow hg') (Nat.not_le.2 hlt)
    · cases (grow_of_le hge).symm.trans hg
      exact h
  | write start values => exact absurd ho id
  | move source target count => exact absurd ho id
  | blank start stop => exact absurd ho id
  | resize len => exact absurd ho id
  | _ =>
    simp only [Action.apply] at ha
    split at ha <;> cases ha
    exact h

theorem Leads.prepared_of (h : Leads seen front next) (hp : Prepared list room seen)
    (ho : ∀ step ∈ front, step.Opens room) : Prepared list room next := by
  induction h with
  | nil => exact hp
  | pin _ ih => exact ih hp fun step hmem => ho step (List.mem_cons_of_mem _ hmem)
  | act ha _ ih =>
    exact ih (hp.apply (ho _ List.mem_cons_self) ha) fun step hmem =>
      ho step (List.mem_cons_of_mem _ hmem)

theorem Leads.prepared (h : Leads list front seen) (ho : ∀ step ∈ front, step.Opens room) :
    Prepared list room seen :=
  h.prepared_of .same ho

/-- What was admitted is admitted again, and what was made room for has room. -/
theorem Prepared.settled {after : LiveList} (h : Prepared next room after) {action : Action}
    (ho : (Step.act action).Opens room) (ha : action.apply list = .ok next) :
    action.apply after = .ok after := by
  cases action with
  | grow required =>
    have hg : list.grow required = .ok next := ha
    exact grow_of_le (Nat.le_trans (le_capacity_grow hg) h.capacity_le)
  | assertHeld =>
    simp only [Action.apply] at ha ⊢
    split at ha <;> cases ha
    exact if_pos (by rw [h.lock]; assumption)
  | admitIndex index =>
    simp only [Action.apply] at ha ⊢
    split at ha <;> cases ha
    exact if_pos (by rw [h.len]; assumption)
  | admitStart index =>
    simp only [Action.apply] at ha ⊢
    split at ha <;> cases ha
    exact if_pos (by rw [h.len]; assumption)
  | admitSize required =>
    simp only [Action.apply] at ha ⊢
    split at ha <;> cases ha
    exact if_pos (by assumption)
  | admitSpan start count =>
    simp only [Action.apply] at ha ⊢
    split at ha <;> cases ha
    exact if_pos (Nat.le_trans (by assumption) h.capacity_le)
  | write start values => exact absurd ho id
  | move source target count => exact absurd ho id
  | blank start stop => exact absurd ho id
  | resize len => exact absurd ho id

/-- To open a write a second time leads nowhere else. -/
theorem Leads.again (h : Leads list front seen) (ho : ∀ step ∈ front, step.Opens room) :
    Leads seen front seen := by
  induction h with
  | nil => exact .nil
  | pin _ ih => exact .pin (ih fun step hmem => ho step (List.mem_cons_of_mem _ hmem))
  | act ha hrest ih =>
    have hothers := fun step hmem => ho step (List.mem_cons_of_mem _ hmem)
    exact .act ((hrest.prepared hothers).settled (ho _ List.mem_cons_self) ha) (ih hothers)

end SnapList.LiveList
