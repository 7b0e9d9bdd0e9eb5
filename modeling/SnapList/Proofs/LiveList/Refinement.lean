/-
  The live list refines the plain sequence.

  A mutation of a sound list with a free lock, and with passive pins, answers what the sequence
  answers and leaves the slots, the length and the lock as the sequence says (`call_refines`).
  So no such call is ever aborted: it succeeds or is refused. A sum of sizes that is too large
  for a word, or a range that is not there, would have been a fault.

  Main statement: from the creation of a list on, every run of mutations shows the same as the
  run of the sequence, call by call (`trace_create`).
-/
import SnapList.Proofs.LiveList.Sequence
import SnapList.Proofs.LiveList.Write

namespace SnapList

open LiveList (Mutation)

/-- What can be seen of a list after a call: the result, all slots with the length, the stamp. -/
structure Sight where
  result : Except Failure Unit
  sequence : Sequence
  stamp : UInt64

namespace Sequence

/-- A new sequence has slots without entry only. -/
def new (options : Options) : Sequence :=
  ⟨List.replicate options.initialCapacity options.noEntry, 0, options.noEntry⟩

/-- The sequence after a call; one that is refused leaves it as it is. -/
def after (sequence : Sequence) (mutation : Mutation) : Sequence :=
  match sequence.step mutation with
  | .ok next => next
  | .error _ => sequence

def answer (sequence : Sequence) (mutation : Mutation) : Except Failure Unit :=
  match sequence.step mutation with
  | .ok _ => .ok ()
  | .error reason => .error (.refused reason)

/-- What is seen of a sequence after each of some calls. Every call adds two to the stamp. -/
def trace (sequence : Sequence) (stamp : UInt64) : List Mutation → List Sight
  | [] => []
  | mutation :: rest =>
    ⟨sequence.answer mutation, sequence.after mutation, stamp + 2⟩ ::
      (sequence.after mutation).trace (stamp + 2) rest

end Sequence

namespace LiveList

/-- A mutation whose arguments are all looked at: every one but the unchecked write. -/
def Mutation.Checked : Mutation → Prop
  | .setUnchecked _ _ => False
  | _ => True

def sequence (list : LiveList) : Sequence := ⟨list.slots.toList, list.len, list.noEntry⟩

variable {ρ : Type} {atPin : AtPin ρ} {list : LiveList}

/-- What is seen of a list after each of some calls, with `atPin` at their pins. -/
def trace (atPin : AtPin ρ) (list : LiveList) : List Mutation → List Sight
  | [] => []
  | mutation :: rest =>
    let outcome := mutation.call atPin list
    ⟨outcome.result, outcome.list.sequence, outcome.list.stamp⟩ :: trace atPin outcome.list rest

/-! ## One write -/

/-- A write that began with `list` ends as `target` says: with that sequence, in a sound list, or
refused and with nothing changed. -/
def Tells (list : LiveList) (target : Except Refusal Sequence) :
    LiveList × Except Failure Unit → Prop :=
  fun (after, result) =>
    match target with
    | .ok next => result = .ok () ∧ after.sequence = next ∧ after.Sound
    | .error reason => result = .error (.refused reason) ∧ after = list

/-- A check of an argument: the write is refused where the sequence is, or goes on. -/
theorem tells_admit {action : Action} {reason : Refusal} {target : Except Refusal Sequence}
    {admitted : Prop} [Decidable admitted] {number : Nat} {rest : List Step}
    (ha : action.apply list = if admitted then .ok list else .error (.refused reason))
    (hleaves : action.leaves list = list)
    (h : admitted → Tells list target (runSteps atPin number list rest).plain) :
    Tells list (if admitted then target else .error reason)
      (runSteps atPin number list (.act action :: rest)).plain := by
  by_cases hc : admitted
  · rw [if_pos hc] at ha ⊢
    rw [plain_act ha]
    exact h hc
  · rw [if_neg hc] at ha ⊢
    rw [plain_failed ha]
    exact ⟨rfl, hleaves⟩

/-- Growth does to the sequence what makes room in it. -/
theorem Sound.grow_refines (hs : list.Sound) {required : Nat} (hr : required ≤ maxCapacity) :
    ∃ roomy, list.grow required = .ok roomy ∧ list.Roomy required roomy ∧
      list.sequence.withRoom required = roomy.sequence := by
  obtain ⟨roomy, hg, hroomy, hslots⟩ := hs.grow hr
  refine ⟨roomy, hg, hroomy, ?_⟩
  unfold LiveList.sequence
  rw [hslots, hroomy.len, hroomy.noEntry]
  by_cases h : required ≤ list.capacity
  · rw [if_pos h]
    exact if_pos h
  · rw [if_neg h, Slots.toList_padded]
    exact if_neg h

/-- A write that makes room first: it is refused where the sequence is, and otherwise goes on with
a list that has the room. -/
theorem tells_reserve (hp : atPin.Passive) (hs : list.Sound) (hl : list.lock.isLocked = true)
    {required number : Nat} {rest : List Step} {next : Sequence → Sequence}
    (h : ∀ roomy, required ≤ maxCapacity → list.Roomy required roomy → ∀ number,
      Tells list (.ok (next roomy.sequence)) (runSteps atPin number roomy rest).plain) :
    Tells list ((list.sequence.reserve required).map next)
      (runSteps atPin number list (Mutation.reserve required ++ rest)).plain := by
  have hmap : (list.sequence.reserve required).map next =
      if required ≤ maxCapacity then .ok (next (list.sequence.withRoom required))
      else .error (.invalidCapacity required) := apply_ite _ _ _ _
  have hheld : Action.assertHeld.apply list = .ok list := if_pos hl
  rw [hmap]
  show Tells list _ (runSteps atPin number list (.act .assertHeld :: .act (.admitSize required) ::
    .pin :: .act (.grow required) :: rest)).plain
  rw [plain_act hheld]
  refine tells_admit rfl rfl fun hr => ?_
  obtain ⟨roomy, hg, hroomy, hseq⟩ := hs.grow_refines hr
  have hgrow : (Action.grow required).apply list = .ok roomy := hg
  rw [plain_pin hp hl, plain_act hgrow, hseq]
  exact h roomy hr hroomy _

/-- A sum that does not exceed the limit was not held at the largest size. -/
theorem satAdd_of_le_maxCapacity {m n : Nat} (h : Word.satAdd m n ≤ maxCapacity) :
    Word.satAdd m n = m + n := by
  unfold Word.satAdd Word.maxSize maxCapacity at *
  omega

theorem tells_done {after : LiveList} {next : Sequence} (hseq : after.sequence = next)
    (hs : after.Sound) (number : Nat) :
    Tells list (.ok next) (runSteps atPin number after []).plain :=
  ⟨rfl, hseq, hs⟩

theorem tells_append (hp : atPin.Passive) (hs : list.Sound) (hl : list.lock.isLocked = true)
    (number : Nat) (values : List Int64) :
    Tells list (list.sequence.append values)
      (runSteps atPin number list (Mutation.append list.len values)).plain := by
  refine tells_reserve hp hs hl fun roomy hmax hroomy number => ?_
  have hsum : Word.satAdd list.len values.length = list.len + values.length :=
    satAdd_of_le_maxCapacity hmax
  have hroom : list.len + values.length ≤ roomy.capacity := hsum ▸ hroomy.room
  obtain ⟨after, ha, hover⟩ := Slots.toList_storeAll hroom
  have hwrite : (Action.write list.len values).apply roomy = .ok { roomy with slots := after } :=
    withSlots_of_ok ha
  rw [plain_pin hp (hroomy.lock ▸ hl), plain_act hwrite, plain_act rfl, hsum]
  refine tells_done ?_ (hroomy.sound.update (Slots.size_storeAll ha) hroom) _
  show Sequence.mk after.toList _ _ = _
  rw [hover]
  rfl

theorem tells_store (hp : atPin.Passive) (hs : list.Sound) (hl : list.lock.isLocked = true)
    (number : Nat) {index : Nat} (value : Int64) (hi : index < list.len) :
    Tells list (.ok { list.sequence with slots := overwrite list.sequence.slots index [value] })
      (runSteps atPin number list [.pin, .act (.write index [value])]).plain := by
  have hroom : index + [value].length ≤ list.capacity := Nat.le_trans hi hs.len_le
  obtain ⟨after, ha, hover⟩ := Slots.toList_storeAll hroom
  have hwrite : (Action.write index [value]).apply list = .ok { list with slots := after } :=
    withSlots_of_ok ha
  rw [plain_pin hp hl, plain_act hwrite]
  refine tells_done ?_ (hs.update (Slots.size_storeAll ha) hs.len_le) _
  show Sequence.mk after.toList _ _ = _
  rw [hover]
  rfl

theorem tells_set (hp : atPin.Passive) (hs : list.Sound) (hl : list.lock.isLocked = true)
    (number index : Nat) (value : Int64) :
    Tells list (list.sequence.step (.set index value))
      (runSteps atPin number list (Mutation.steps list.len (.set index value))).plain :=
  tells_admit rfl rfl fun hi => tells_store hp hs hl number value hi

/-- The elements behind the gap are moved before the gap is cleared, so the two runs that are
overwritten meet. -/
theorem tells_insert (hp : atPin.Passive) (hs : list.Sound) (hl : list.lock.isLocked = true)
    (number start count : Nat) :
    Tells list (list.sequence.step (.insert start count))
      (runSteps atPin number list (Mutation.steps list.len (.insert start count))).plain := by
  refine tells_admit rfl rfl fun hi => tells_reserve hp hs hl fun roomy hmax hroomy number => ?_
  have hi : start ≤ list.len := hi
  have hsum : Word.satAdd list.len count = list.len + count := satAdd_of_le_maxCapacity hmax
  have hroom : list.len + count ≤ roomy.slots.size := hsum ▸ hroomy.room
  obtain ⟨moved, hm, hover⟩ := Slots.toList_copyWithin start (start + count) (list.len - start)
    (show _ ≤ roomy.slots.size by omega) (by omega)
  have hsize : moved.size = roomy.slots.size := Slots.size_copyWithin hm
  obtain ⟨cleared, hc, hgap⟩ := Slots.toList_fill roomy.noEntry (Nat.le_add_right start count)
    (show _ ≤ moved.size by omega)
  rw [hroomy.noEntry] at hgap
  have hmove : (Action.move start (start + count) (list.len - start)).apply roomy =
      .ok { roomy with slots := moved } := withSlots_of_ok hm
  have hblank : (Action.blank start (start + count)).apply { roomy with slots := moved } =
      .ok { roomy with slots := cleared } := withSlots_of_ok hc
  rw [plain_pin hp (hroomy.lock ▸ hl), plain_act hmove, plain_act hblank, plain_act rfl, hsum]
  refine tells_done ?_ (hroomy.sound.update ((Slots.size_fill hc).trans hsize) hroom) _
  show Sequence.mk cleared.toList _ _ = _
  have hlen : ((roomy.slots.toList.drop start).take (list.len - start)).length =
      list.len - start := by
    rw [List.length_take, List.length_drop, Array.length_toList]
    omega
  rw [hgap, hover, Nat.add_sub_cancel_left, overwrite_overwrite (by simp)
    (by rw [hlen, Array.length_toList]; omega), ← List.drop_take]
  rfl

theorem tells_copyRange (hp : atPin.Passive) (hs : list.Sound) (hl : list.lock.isLocked = true)
    (number source target count : Nat) :
    Tells list (list.sequence.step (.copyRange source target count))
      (runSteps atPin number list
        (Mutation.steps list.len (.copyRange source target count))).plain := by
  rw [Mutation.steps, plain_pin hp hl]
  refine tells_admit rfl rfl fun h1 => tells_admit rfl rfl fun h2 => ?_
  have hcap := hs.capacity_le
  have e1 : Word.satAdd source count = source + count :=
    satAdd_of_le_maxCapacity (Nat.le_trans h1 hcap)
  have e2 : Word.satAdd target count = target + count :=
    satAdd_of_le_maxCapacity (Nat.le_trans h2 hcap)
  obtain ⟨moved, hm, hover⟩ := Slots.toList_copyWithin source target count (e1 ▸ h1) (e2 ▸ h2)
  have hmove : (Action.move source target count).apply list =
      .ok { list with slots := moved } := withSlots_of_ok hm
  rw [plain_act hmove]
  refine tells_done ?_ (hs.update (Slots.size_copyWithin hm) hs.len_le) _
  show Sequence.mk moved.toList _ _ = _
  rw [hover]
  rfl

theorem tells_resize (hp : atPin.Passive) (hs : list.Sound) (hl : list.lock.isLocked = true)
    (number newLen : Nat) :
    Tells list (list.sequence.step (.resize newLen))
      (runSteps atPin number list (Mutation.steps list.len (.resize newLen))).plain := by
  rw [Mutation.steps, List.append_assoc]
  refine tells_reserve hp hs hl fun roomy hmax hroomy number => ?_
  have hroom : newLen ≤ roomy.slots.size := hroomy.room
  by_cases hlt : list.len < newLen
  · obtain ⟨cleared, hc, hover⟩ := Slots.toList_fill list.noEntry (Nat.le_of_lt hlt) hroom
    have hblank : (Action.blank list.len newLen).apply roomy =
        .ok { roomy with slots := cleared } := by
      rw [← hroomy.noEntry] at hc
      exact withSlots_of_ok hc
    rw [if_pos hlt]
    simp only [List.cons_append, List.nil_append]
    rw [plain_pin hp (hroomy.lock ▸ hl), plain_act hblank, plain_act rfl]
    refine tells_done ?_ (hroomy.sound.update (Slots.size_fill hc) hroom) _
    show Sequence.mk cleared.toList _ _ = _
    rw [hover]
    rfl
  · have e : newLen - list.sequence.len = 0 := Nat.sub_eq_zero_of_le (Nat.le_of_not_lt hlt)
    rw [if_neg hlt, List.nil_append, plain_act rfl, e, List.replicate_zero, overwrite_nil]
    exact tells_done rfl (hroomy.sound.update rfl hroom) _

/-- Under the lock the steps of a mutation whose promise is kept do what the sequence says. -/
theorem tells_steps (hp : atPin.Passive) (hs : list.Sound) (hl : list.lock.isLocked = true)
    {mutation : Mutation} (hm : mutation.promised list = .ok ()) (number : Nat) :
    Tells list (list.sequence.step mutation)
      (runSteps atPin number list (mutation.steps list.len)).plain := by
  cases mutation with
  | set index value => exact tells_set hp hs hl number index value
  | setUnchecked index value =>
    have hi : index < list.len := by
      simp only [Mutation.promised] at hm
      split at hm
      · assumption
      · cases hm
    exact tells_store hp hs hl number value hi
  | push value => exact tells_append hp hs hl number [value]
  | extend values => exact tells_append hp hs hl number values
  | insert start count => exact tells_insert hp hs hl number start count
  | copyRange source target count => exact tells_copyRange hp hs hl number source target count
  | resize newLen => exact tells_resize hp hs hl number newLen
  | clear =>
    rw [Mutation.steps, plain_act rfl]
    exact tells_done rfl (hs.update rfl (Nat.zero_le _)) _

/-! ## Whole calls -/

theorem call_refines (hp : atPin.Passive) (hs : list.Sound) (hf : list.lock.isLocked = false)
    {mutation : Mutation} (hm : mutation.promised list = .ok ()) :
    (mutation.call atPin list).result = list.sequence.answer mutation ∧
      (mutation.call atPin list).list.sequence = list.sequence.after mutation ∧
      (mutation.call atPin list).list.Sound := by
  let held : LiveList := { list with lock := list.lock.advance }
  have hheld : held.lock.isLocked = true := by simp [held, hf]
  have hlock := lock_runSteps hp.keepsLock (mutation.steps list.len) 1 held hheld
  have htells : Tells held (list.sequence.step mutation)
      (runSteps atPin 1 held (mutation.steps list.len)).plain :=
    tells_steps hp (hs.setLock _) hheld hm 1
  rw [Mutation.call_of_free atPin hm hf, Outcome.released_of_locked (by rw [hlock]; exact hheld)]
  unfold Sequence.answer Sequence.after
  cases hstep : list.sequence.step mutation with
  | ok next =>
    rw [hstep] at htells
    obtain ⟨hresult, hseq, hsound⟩ := htells
    exact ⟨hresult, hseq, hsound.setLock _⟩
  | error reason =>
    rw [hstep] at htells
    obtain ⟨hresult, hlist⟩ := htells
    have hlist : (runSteps atPin 1 held (mutation.steps list.len)).list = held := hlist
    refine ⟨hresult, ?_, ?_⟩
    · rw [hlist]
      rfl
    · rw [hlist]
      exact (hs.setLock _).setLock _

theorem Mutation.Checked.promised {mutation : Mutation} (hm : mutation.Checked)
    (list : LiveList) : mutation.promised list = .ok () := by
  cases mutation with
  | setUnchecked index value => exact absurd hm id
  | _ => rfl

/-- From a sound list with a free lock on, a run shows what the run of its sequence shows. -/
theorem trace_refines (hp : atPin.Passive) {mutations : List Mutation} (hs : list.Sound)
    (hf : list.lock.isLocked = false) (hm : ∀ mutation ∈ mutations, mutation.Checked) :
    list.trace atPin mutations = list.sequence.trace list.stamp mutations := by
  induction mutations generalizing list with
  | nil => rfl
  | cons mutation rest ih =>
    have hkept := (hm mutation List.mem_cons_self).promised list
    obtain ⟨hresult, hseq, hsound⟩ := call_refines hp hs hf hkept
    have hlock := Mutation.lock_call hp.keepsLock hkept hf
    have hstamp : (mutation.call atPin list).list.stamp = list.stamp + 2 := by
      unfold LiveList.stamp
      rw [hlock]
      exact UInt64.add_assoc _ _ _
    rw [LiveList.trace, Sequence.trace, ih hsound (by rw [hlock]; simpa using hf)
      fun other ho => hm other (List.mem_cons_of_mem _ ho)]
    rw [hresult, hseq, hstamp]

/-- Every run from the creation of a list on shows what the run of a new sequence shows: the same
results, the same slots and lengths, and two more on the stamp at every call. -/
theorem trace_create (hp : atPin.Passive) {options : Options} {mutations : List Mutation}
    (hc : options.initialCapacity ≤ maxCapacity)
    (hm : ∀ mutation ∈ mutations, mutation.Checked) :
    (create options).map (·.trace atPin mutations) =
      .ok ((Sequence.new options).trace 0 mutations) := by
  have hcreate : create options = .ok _ := if_neg (Nat.not_lt.2 hc)
  have hs := sound_create hcreate
  rw [hcreate]
  show Except.ok (trace atPin _ mutations) = _
  rw [trace_refines hp hs rfl hm]
  unfold LiveList.sequence Sequence.new
  rw [Array.toList_replicate]
  rfl

/-- A list of one slot, without entry at first, that grows twice. -/
def narrow : Options := { initialCapacity := 1, noEntry := -1 }

/-- Calls of every kind, of which two are refused. -/
def mixedCalls : List Mutation :=
  [.push 5, .extend [6, 7], .insert 1 2, .resize (maxCapacity + 1), .copyRange 0 2 3, .set 9 0,
    .clear]

/-- The narrow list keeps behind its elements what the calls have left there. -/
theorem trace_mixedCalls :
    (create narrow).map (·.trace idle mixedCalls) =
      .ok [⟨.ok (), ⟨[5], 1, -1⟩, 2⟩,
        ⟨.ok (), ⟨[5, 6, 7], 3, -1⟩, 4⟩,
        ⟨.ok (), ⟨[5, -1, -1, 6, 7, -1], 5, -1⟩, 6⟩,
        ⟨.error (.refused (.invalidCapacity (maxCapacity + 1))),
          ⟨[5, -1, -1, 6, 7, -1], 5, -1⟩, 8⟩,
        ⟨.ok (), ⟨[5, -1, 5, -1, -1, -1], 5, -1⟩, 10⟩,
        ⟨.error (.refused (.outOfRange 9 5)), ⟨[5, -1, 5, -1, -1, -1], 5, -1⟩, 12⟩,
        ⟨.ok (), ⟨[5, -1, 5, -1, -1, -1], 0, -1⟩, 14⟩] := by
  refine (trace_create idle_passive (by decide) ?_).trans rfl
  simp [mixedCalls, Mutation.Checked]

end LiveList

end SnapList
