/-
  A write that is broken off, and tried again.

  A pin that fails ends a call where its steps have led it. What REMAINS is a list with a free lock
  and with all elements, in the old buffer or in the larger one that the whole call would have moved
  it to. The call may be tried again: its steps lead back to what remains and go on from there, so
  nothing is done twice and nothing is left out.

  Main statement: after a call that was broken off at any of its pins, the same call ends as it would
  have at first, and only the stamp tells of the failure (`retry_of_broken`).
-/
import SnapList.Proofs.LiveList.Sights

namespace SnapList.LiveList

variable {list next seen : LiveList} {mutation : Mutation} {visit : Visit} {front rest : List Step}
  {index : Nat}

/-! ## The lock plays no part in the steps -/

theorem grow_relock (list : LiveList) (lock : StampLock) (required : Nat) :
    grow { list with lock } required = (list.grow required).map fun after => { after with lock } := by
  rcases Nat.lt_or_ge list.capacity required with hlt | hge
  · have hrelock : grow { list with lock } required = _ := grow_of_lt hlt
    rw [hrelock, grow_of_lt hlt]
    cases list.retired.retire list.serial list.slots <;> rfl
  · have hrelock : grow { list with lock } required = _ := grow_of_le hge
    rw [hrelock, grow_of_le hge]
    rfl

/-- An action does the same under two locks that are both held or both free. -/
theorem Action.apply_relock (action : Action) (list : LiveList) {lock : StampLock}
    (hl : lock.isLocked = list.lock.isLocked) :
    action.apply { list with lock } = (action.apply list).map fun after => { after with lock } := by
  cases action with
  | assertHeld =>
    simp only [Action.apply, hl]
    split <;> rfl
  | grow required => exact list.grow_relock lock required
  | write start values => simp only [Action.apply, withSlots]; split <;> rfl
  | move source target count => simp only [Action.apply, withSlots]; split <;> rfl
  | blank start stop => simp only [Action.apply, withSlots]; split <;> rfl
  | resize len => rfl
  | _ => simp only [Action.apply]; split <;> rfl

theorem Action.leaves_relock (action : Action) (list : LiveList) (lock : StampLock) :
    action.leaves { list with lock } = { action.leaves list with lock } := by
  cases action with
  | grow required =>
    simp only [Action.leaves, moved]
    cases list.slots.grown (grownCapacity list.capacity required) list.noEntry <;> rfl
  | _ => rfl

/-- Steps do the same under every stamp. -/
theorem plain_runSteps_relock (steps : List Step) (number : Nat) (list : LiveList)
    {lock : StampLock} (hl : lock.isLocked = list.lock.isLocked) :
    (runSteps idle number { list with lock } steps).plain =
      ({ (runSteps idle number list steps).list with lock },
        (runSteps idle number list steps).result) := by
  induction steps generalizing number list with
  | nil => rfl
  | cons step rest ih =>
    cases step with
    | pin => exact ih (number + 1) list hl
    | act action =>
      cases ha : action.apply list with
      | ok next =>
        have hrelock : action.apply { list with lock } = .ok { next with lock } := by
          rw [Action.apply_relock _ _ hl, ha]
          rfl
        have hnext : lock.isLocked = next.lock.isLocked := by rw [Action.lock_apply ha, hl]
        rw [plain_act hrelock, ih number next hnext, runSteps]
        simp only [ha]
        rfl
      | error failure =>
        have hrelock : action.apply { list with lock } = .error failure := by
          rw [Action.apply_relock _ _ hl, ha]
          rfl
        rw [plain_failed hrelock, Action.leaves_relock, runSteps]
        simp only [ha]

/-! ## Steps that find room -/

/-- A mutation grows the buffer for nothing but the room it makes. -/
theorem Mutation.demand_of_grow {len required : Nat}
    (h : .act (.grow required) ∈ mutation.steps len) : mutation.demand len = some required := by
  cases mutation with
  | resize newLen =>
    simp only [Mutation.steps] at h
    split at h <;> simp_all [Mutation.reserve, Mutation.demand]
  | _ => simp_all [Mutation.steps, Mutation.append, Mutation.reserve, Mutation.demand]

theorem Action.buffer_apply {action : Action} (ha : action.apply list = .ok next)
    (hroom : ∀ required, action = .grow required → required ≤ list.capacity) :
    next.capacity = list.capacity ∧ next.retired = list.retired := by
  rcases Action.cases_of_apply ha with rfl | ⟨required, he, hg⟩ | ⟨slots, hsize, rfl⟩ | ⟨len, rfl⟩
  · exact ⟨rfl, rfl⟩
  · cases (grow_of_le (hroom required he)).symm.trans hg
    exact ⟨rfl, rfl⟩
  · exact ⟨hsize, rfl⟩
  · exact ⟨rfl, rfl⟩

theorem Action.buffer_leaves {action : Action} {failure : Failure}
    (ha : action.apply list = .error failure)
    (hroom : ∀ required, action = .grow required → required ≤ list.capacity) :
    (action.leaves list).capacity = list.capacity ∧
      (action.leaves list).retired = list.retired := by
  cases action with
  | grow required => cases (grow_of_le (hroom required rfl)).symm.trans ha
  | write start values => exact ⟨Slots.size_storeSome _ _ _, rfl⟩
  | _ => exact ⟨rfl, rfl⟩

theorem buffer_runSteps (steps : List Step) (number : Nat)
    (hroom : ∀ required, .act (.grow required) ∈ steps → required ≤ list.capacity) :
    (runSteps idle number list steps).list.capacity = list.capacity ∧
      (runSteps idle number list steps).list.retired = list.retired := by
  induction steps generalizing number list with
  | nil => exact ⟨rfl, rfl⟩
  | cons step rest ih =>
    have hrest : ∀ required, .act (.grow required) ∈ rest → required ≤ list.capacity :=
      fun required hmem => hroom required (List.mem_cons_of_mem _ hmem)
    cases step with
    | pin => exact ih (number + 1) hrest
    | act action =>
      rw [runSteps]
      split
      · rename_i next ha
        obtain ⟨hcapacity, hretired⟩ := Action.buffer_apply ha fun required he =>
          hroom required (he ▸ List.mem_cons_self)
        obtain ⟨hc, hr⟩ := ih number (hcapacity ▸ hrest)
        exact ⟨hc.trans hcapacity, hr.trans hretired⟩
      · rename_i failure ha
        exact Action.buffer_leaves ha fun required he => hroom required (he ▸ List.mem_cons_self)

/-! ## Broken off and tried again -/

/-- A pin that fails ends the steps where they have led. -/
theorem Leads.broken (h : Leads list front seen) (hl : list.lock.isLocked = true)
    (hv : visit.fails = true) :
    (runSteps (visit.atPin (pins front + 1)) 1 list (front ++ .pin :: rest)).plain =
      (seen, .error (.aborted .pinFailed)) := by
  have hlocked := h.isLocked hl
  have hbefore : ∀ current list, current < 1 + pins front → list.lock.isLocked = true →
      (visit.atPin (pins front + 1) current list).list = list ∧
        (visit.atPin (pins front + 1) current list).fails = false := by
    intro current list hc _
    unfold Visit.atPin
    rw [if_neg (by omega)]
    exact ⟨rfl, rfl⟩
  obtain ⟨events, accounts, -, hrun⟩ := h.runSteps_append hl 1 (.pin :: rest) hbefore
  have hhere : visit.atPin (pins front + 1) (1 + pins front) seen = visit.run seen :=
    if_pos (Nat.add_comm _ _)
  have hfails : (visit.run seen).fails = true := hv
  rw [hrun, runSteps]
  simp only [hhere, hfails, if_true, visit.list_run_of_locked hlocked]
  rfl

/-- The steps of a write begun once more from one of its pins lead to where they would have led. -/
theorem Leads.plain_again (h : Leads list front seen) (hl : list.lock.isLocked = true)
    {len : Nat} (hsteps : mutation.steps len = front ++ .pin :: rest) :
    (runSteps idle 1 seen (mutation.steps len)).plain =
      (runSteps idle 1 list (mutation.steps len)).plain := by
  have hidle : ∀ current list, current < 1 + pins front → list.lock.isLocked = true →
      (idle current list).list = list ∧ (idle current list).fails = false :=
    fun current list _ => idle_passive current list
  have hlocked := h.isLocked hl
  have hagain := h.again (Mutation.opens_of_pin hsteps)
  obtain ⟨events, accounts, -, hrun⟩ := h.runSteps_append hl 1 (.pin :: rest) hidle
  obtain ⟨events', accounts', -, hrun'⟩ := hagain.runSteps_append hlocked 1 (.pin :: rest) hidle
  rw [hsteps, hrun, hrun']
  rfl

/-- `left` is `list` in the larger buffer that `whole` has; its slots are kept, and the others have
no entry. -/
structure Moved (list whole left : LiveList) : Prop where
  larger : list.capacity < whole.capacity
  slots : left.slots = list.slots.padded whole.capacity list.noEntry
  retired : left.retired = whole.retired
  once : whole.retired.pending = list.retired.pending + 1

/-- What a call that was broken off leaves of a list; `whole` is what it leaves if it is not. -/
structure Remains (list whole left : LiveList) : Prop where
  free : left.lock.isLocked = false
  stamp : left.stamp = list.stamp + 2
  alike : list.Alike left
  buffer : left.slots = list.slots ∧ left.retired = list.retired ∨ Moved list whole left

theorem plain_broken (h : (mutation.sights list)[index]? = some seen) (hv : visit.fails = true) :
    (mutation.call (visit.atPin (index + 1)) list).plain =
      (seen.ticked, .error (.aborted .pinFailed)) := by
  obtain ⟨hm, hfree, front, rest, hsteps, rfl, hleads⟩ := Mutation.leads_of_sight h
  have hticked := isLocked_ticked hfree
  have hlocked := hleads.isLocked hticked
  refine plain_call_of_free hm hfree ?_ hlocked
  rw [hsteps]
  exact hleads.broken hticked hv

/-- The steps begun once more at a pin tell what the whole call leaves, and what it leaves when it
is tried again after that pin has failed. -/
theorem plain_apply_of_sight (h : (mutation.sights list)[index]? = some seen) :
    ∃ after result,
      (runSteps idle 1 seen (mutation.steps list.len)).plain = (after, result) ∧
        (mutation.apply list).plain = (after.ticked, result) ∧
        (mutation.apply seen.ticked).plain =
          (ticked { after with lock := seen.ticked.ticked.lock }, result) ∧
        after.lock = seen.lock := by
  obtain ⟨hm, hfree, front, rest, hsteps, -, hleads⟩ := Mutation.leads_of_sight h
  have hlen : seen.len = list.len := (hleads.prepared (Mutation.opens_of_pin hsteps)).len
  have hticked := isLocked_ticked hfree
  have hlocked := hleads.isLocked hticked
  have hlock := lock_runSteps idle_keepsLock (mutation.steps list.len) 1 seen hlocked
  refine ⟨_, _, rfl, ?_, ?_, hlock⟩
  · have hwhole := (hleads.plain_again hticked hsteps).symm
    exact plain_call_of_free hm hfree hwhole (by rw [hlock]; exact hlocked)
  · have hfree' : seen.ticked.lock.isLocked = false := by simp [ticked, hlocked]
    have hm' : mutation.promised seen.ticked = .ok () := (mutation.promised_eq hlen).trans hm
    have hrelock : seen.ticked.ticked.lock.isLocked = seen.lock.isLocked := by simp [ticked]
    have hagain := plain_runSteps_relock (mutation.steps list.len) 1 seen hrelock
    rw [← hlen] at hagain ⊢
    exact plain_call_of_free hm' hfree' hagain (isLocked_ticked hfree')

theorem buffer_of_sight (h : (mutation.sights list)[index]? = some seen) :
    seen.slots = list.slots ∧ seen.retired = list.retired ∨
      Moved list (mutation.apply list).list seen := by
  obtain ⟨after, result, hrun, hwhole, -, -⟩ := plain_apply_of_sight h
  obtain ⟨-, -, front, rest, hsteps, -, hleads⟩ := Mutation.leads_of_sight h
  cases hleads.prepared (Mutation.opens_of_pin hsteps) with
  | same => exact Or.inl ⟨rfl, rfl⟩
  | @grown _ required hroom hlt hg =>
    -- The buffer has grown for all that the call makes room for, so it does not grow again.
    have hfind : ∀ other, .act (.grow other) ∈ mutation.steps list.len → other ≤ seen.capacity := by
      intro other hmem
      obtain rfl := Option.some.inj (hroom.symm.trans (Mutation.demand_of_grow hmem))
      exact le_capacity_grow hg
    obtain ⟨hcapacity, hretired⟩ := buffer_runSteps (mutation.steps list.len) 1 hfind
    have hafter : (runSteps idle 1 seen (mutation.steps list.len)).list = after :=
      congrArg Prod.fst hrun
    rw [hafter] at hcapacity hretired
    have hlist : (mutation.apply list).list = after.ticked := congrArg Prod.fst hwhole
    have hgrown : after.ticked.capacity = grownCapacity list.ticked.capacity required :=
      hcapacity.trans (capacity_grow_of_lt hlt hg)
    have hseen := grow_eq_of_lt hlt hg
    rw [hlist]
    refine Or.inr ⟨?_, ?_, hretired.symm, ?_⟩
    · rw [hgrown]
      exact lt_grownCapacity hlt
    · rw [hgrown, hseen]
      rfl
    · rw [retired_ticked, hretired, hseen]
      exact List.length_append

theorem Sound.remains_of_sight (hs : list.Sound) (h : (mutation.sights list)[index]? = some seen) :
    list.Remains (mutation.apply list).list seen.ticked := by
  have hmem := List.mem_of_getElem? h
  have halike := hs.alike_of_sight hmem
  have hlocked := isLocked_of_sight hmem
  refine ⟨by simp [ticked, hlocked], ?_, ⟨halike.len, halike.noEntry, halike.elements⟩, ?_⟩
  · unfold LiveList.stamp ticked
    rw [lock_of_sight hmem]
    exact UInt64.add_assoc _ _ _
  · rcases buffer_of_sight h with hsame | hmoved
    · exact Or.inl hsame
    · exact Or.inr ⟨hmoved.larger, hmoved.slots, hmoved.retired, hmoved.once⟩

/-- The call on what is left at one of its pins ends as on the list itself. -/
theorem apply_of_sight (h : (mutation.sights list)[index]? = some seen) :
    let whole := mutation.apply list
    let again := mutation.apply seen.ticked
    again.result = whole.result ∧ again.list = { whole.list with lock := again.list.lock } ∧
      again.list.stamp = whole.list.stamp + 2 := by
  obtain ⟨after, result, -, hwhole, hagain, hlock⟩ := plain_apply_of_sight h
  obtain ⟨hwholeList, hwholeResult⟩ := Prod.mk.inj hwhole
  obtain ⟨hagainList, hagainResult⟩ := Prod.mk.inj hagain
  refine ⟨hagainResult.trans hwholeResult.symm, ?_, ?_⟩
  · rw [hagainList, hwholeList]
    rfl
  · rw [hagainList, hwholeList]
    unfold LiveList.stamp ticked
    rw [hlock]
    exact UInt64.add_assoc _ _ _

/-- A call that a failing pin has broken off leaves the list without a part of the write in it. The
same call then ends as it would have ended at first, and so does the list but for its stamp. -/
theorem retry_of_broken (hr : list.Reachable) (mutation : Mutation) {pin : Nat} {visit : Visit}
    (hpos : 0 < pin) (hpin : pin ≤ (mutation.sights list).length) (hv : visit.fails = true) :
    let whole := mutation.apply list
    let broken := mutation.call (visit.atPin pin) list
    let again := mutation.apply broken.list
    broken.result = .error (.aborted .pinFailed) ∧ list.Remains whole.list broken.list ∧
      again.result = whole.result ∧ again.list = { whole.list with lock := again.list.lock } ∧
      again.list.stamp = whole.list.stamp + 2 := by
  obtain ⟨index, rfl⟩ : ∃ index, pin = index + 1 := ⟨pin - 1, by omega⟩
  have hsight := List.getElem?_eq_getElem hpin
  obtain ⟨hleft, hresult⟩ := Prod.mk.inj (plain_broken hsight hv)
  intro whole broken again
  refine ⟨hresult, ?_⟩
  have hbroken : broken.list = ticked _ := hleft
  have hagain : again = mutation.apply (ticked _) := congrArg mutation.apply hbroken
  rw [hagain, hbroken]
  exact ⟨hr.sound.remains_of_sight hsight, apply_of_sight hsight⟩

/-- At its second pin the push to a full list has moved it to another buffer. The pin fails, and the
push that follows it does not move the list again. -/
theorem push_retried :
    let broken := (Mutation.push 6).call (Visit.atPin { fails := true } 2) single
    let again := (Mutation.push 6).apply broken.list
    single.Reachable ∧ ((Mutation.push 6).sights single).length = 2 ∧
      broken.list.toContents = { slots := #[5, -1], len := 1, noEntry := -1 } ∧
      broken.list.stamp = 4 ∧ broken.list.retired.pending = 1 ∧
      again.result = .ok () ∧
      again.list.toContents = { slots := #[5, 6], len := 2, noEntry := -1 } ∧
      again.list.stamp = 6 ∧ again.list.retired.pending = 1 := by
  obtain ⟨-, hremains, hresult, hlist, hstamp⟩ :=
    retry_of_broken reachable_single (.push 6) Nat.two_pos (Nat.le_refl 2)
      (show Visit.fails { fails := true } = true from rfl)
  refine ⟨reachable_single, rfl, rfl, hremains.stamp.trans rfl, rfl, hresult.trans rfl, ?_,
    hstamp.trans rfl, ?_⟩
  · rw [hlist]
    rfl
  · rw [hlist]
    rfl

end SnapList.LiveList
