/-
  How a list turns over its buffers.

  What a list HOLDS are the buffer that it has and those that it has retired. The MOMENTS of a call
  are its pins and its end, whatever is done at the pins and whether or not one of them fails. From
  one moment to the next the list keeps what it holds, or it moves once to a larger buffer and retires
  the one that it leaves.

  Main statements: the moments of a call follow each other in this way (`Sound.moments_follow`),
  and at each of them the list is sound (`Sound.of_mem_moments`).
-/
import Mathlib.Data.List.Chain
import SnapList.Proofs.LiveList.Recovery

namespace SnapList.LiveList

variable {ρ : Type} {atPin : AtPin ρ} {list next last seen : LiveList} {mutation : Mutation}
  {visits : Nat → Visit} {room : Option Nat} {rest : List Step}

/-! ## What a list holds -/

/-- A buffer apart from what is in it. -/
structure Buffer where
  serial : Nat
  capacity : Nat
  deriving DecidableEq

/-- The buffer that a list has, and those that it has retired, in order. -/
structure Holdings where
  current : Buffer
  retired : List Buffer

def holdings (list : LiveList) : Holdings :=
  { current := ⟨list.serial, list.capacity⟩
    retired := list.retired.entries.map fun (serial, slots) => ⟨serial, slots.size⟩ }

/-- What is held after a move to a buffer with room for `required` slots. -/
def Holdings.moved (held : Holdings) (required : Nat) : Holdings :=
  { current := ⟨held.current.serial + 1, grownCapacity held.current.capacity required⟩
    retired := held.retired ++ [held.current] }

/-- What is held is kept, or the buffer was too small and is retired. -/
inductive Holdings.Next (held : Holdings) : Holdings → Prop
  | kept : Next held held
  | moved {required : Nat} (hlt : held.current.capacity < required) :
      Next held (held.moved required)

/-- From one list to the other there is one move to a larger buffer at most. -/
def Follows (before after : LiveList) : Prop := before.holdings.Next after.holdings

theorem follows_of_eq (h : next.holdings = list.holdings) : Follows list next := by
  unfold Follows
  rw [h]
  exact .kept

theorem holdings_grow_of_lt {required : Nat} (h : list.capacity < required)
    (hg : list.grow required = .ok next) : next.holdings = list.holdings.moved required := by
  have hcapacity := capacity_grow_of_lt h hg
  have hnext := grow_eq_of_lt h hg
  unfold holdings Holdings.moved
  rw [hcapacity, hnext]
  simp only [List.map_append, List.map_cons, List.map_nil]
  rfl

theorem holdings_setSlots {slots : Slots} (h : slots.size = list.slots.size) :
    holdings { list with slots } = list.holdings := by
  unfold holdings Contents.capacity
  rw [h]

/-- An action keeps what the list holds, unless it asks for more room than there is. -/
theorem Action.holdings_apply {action : Action} (ha : action.apply list = .ok next) :
    next.holdings = list.holdings ∨
      ∃ required, action = .grow required ∧ list.capacity < required ∧
        list.grow required = .ok next := by
  rcases Action.cases_of_apply ha with rfl | ⟨required, rfl, hg⟩ | ⟨slots, hsize, rfl⟩ | ⟨len, rfl⟩
  · exact Or.inl rfl
  · rcases Nat.lt_or_ge list.capacity required with hlt | hge
    · exact Or.inr ⟨required, rfl, hlt, hg⟩
    · cases (grow_of_le hge).symm.trans hg
      exact Or.inl rfl
  · exact Or.inl (holdings_setSlots hsize)
  · exact Or.inl rfl

/-- Nor does one that fails change what the list holds, as long as the buffer in use can be
retired. -/
theorem Action.holdings_leaves {action : Action} {failure : Failure}
    (hf : list.Fresh) (ha : action.apply list = .error failure) :
    (action.leaves list).holdings = list.holdings := by
  cases action with
  | grow required =>
    obtain ⟨next, hg⟩ := hf.exists_grow required
    cases hg.symm.trans ha
  | write start values => exact holdings_setSlots (Slots.size_storeSome _ _ _)
  | _ => rfl

theorem Fresh.apply (hf : list.Fresh) {action : Action} (ha : action.apply list = .ok next) :
    next.Fresh := by
  rcases Action.cases_of_apply ha with rfl | ⟨required, -, hg⟩ | ⟨slots, -, rfl⟩ | ⟨len, rfl⟩
  · exact hf
  · exact hf.grow hg
  · exact hf
  · exact hf

/-! ## From pin to pin -/

/-- The list is noted at each pin, and then somebody visits it. -/
def noting (visits : Nat → Visit) : AtPin LiveList := fun number list =>
  { (visits number).run list with account := list }

theorem noting_keepsList (visits : Nat → Visit) : (noting visits).KeepsList :=
  fun number _ h => (visits number).list_run_of_locked h

/-- `last` was noted last, and the list is `current` by now. Growth that is still to come finds room,
or nothing has moved yet and it is the growth that the call makes room for. -/
structure Underway (room : Option Nat) (last current : LiveList) (rest : List Step) : Prop where
  fresh : current.Fresh
  follows : Follows last current
  once : ∀ required, .act (.grow required) ∈ rest →
    required ≤ current.capacity ∨ current.holdings = last.holdings ∧ room = some required

theorem Underway.pin (h : Underway room last list (.pin :: rest)) :
    Underway room list list rest := by
  refine ⟨h.fresh, .kept, ?_⟩
  intro required hmem
  rcases h.once required (List.mem_cons_of_mem _ hmem) with hle | ⟨-, hroom⟩
  · exact Or.inl hle
  · exact Or.inr ⟨rfl, hroom⟩

theorem Underway.act {action : Action} (h : Underway room last list (.act action :: rest))
    (ha : action.apply list = .ok next) : Underway room last next rest := by
  rcases Action.holdings_apply ha with hkept | ⟨required, rfl, hlt, hg⟩
  · have hcapacity : next.capacity = list.capacity :=
      congrArg (fun held => held.current.capacity) hkept
    refine ⟨h.fresh.apply ha, ?_, ?_⟩
    · unfold Follows
      rw [hkept]
      exact h.follows
    · intro required hmem
      rw [hkept, hcapacity]
      exact h.once required (List.mem_cons_of_mem _ hmem)
  · -- There was no room, so this is the growth that the call makes room for, and the only one.
    rcases h.once required List.mem_cons_self with hle | ⟨hsame, hroom⟩
    · exact absurd hle (Nat.not_le.2 hlt)
    · refine ⟨h.fresh.apply ha, ?_, ?_⟩
      · unfold Follows
        rw [holdings_grow_of_lt hlt hg, hsame]
        exact .moved (hsame ▸ hlt)
      · intro other hmem
        have hfound := le_capacity_grow hg
        rcases h.once other (List.mem_cons_of_mem _ hmem) with hle | ⟨-, hother⟩
        · exact Or.inl (Nat.le_trans hle (Nat.le_trans (Nat.le_of_lt hlt) hfound))
        · cases hroom.symm.trans hother
          exact Or.inl hfound

theorem Underway.isChain {steps : List Step} (h : Underway room last list steps)
    (visits : Nat → Visit) (number : Nat) (hl : list.lock.isLocked = true) :
    (last :: ((runSteps (noting visits) number list steps).accounts ++
      [(runSteps (noting visits) number list steps).list])).IsChain Follows := by
  induction steps generalizing number last list with
  | nil => exact List.isChain_pair.2 h.follows
  | cons step steps ih =>
    cases step with
    | pin =>
      have hkept : (noting visits number list).list = list := noting_keepsList visits number list hl
      rw [runSteps]
      simp only [hkept]
      split
      · exact List.isChain_cons_cons.2 ⟨h.follows, List.isChain_pair.2 .kept⟩
      · exact List.isChain_cons_cons.2 ⟨h.follows, ih h.pin (number + 1) hl⟩
    | act action =>
      rw [runSteps]
      split
      · rename_i next ha
        exact ih (h.act ha) number (by rw [Action.lock_apply ha]; exact hl)
      · rename_i failure ha
        refine List.isChain_pair.2 ?_
        unfold Follows
        rw [Action.holdings_leaves h.fresh ha]
        exact h.follows

/-! ## The moments of a call -/

/-- The list at each pin that the call comes to, and after the call. -/
def Mutation.moments (visits : Nat → Visit) (mutation : Mutation) (list : LiveList) :
    List LiveList :=
  let outcome := mutation.call (noting visits) list
  outcome.accounts ++ [outcome.list]

theorem Outcome.holdings_released (outcome : Outcome ρ) :
    outcome.released.list.holdings = outcome.list.holdings := by
  unfold Outcome.released
  split <;> rfl

theorem isChain_follows_iff {moments : List LiveList} :
    moments.IsChain Follows ↔ (moments.map holdings).IsChain Holdings.Next :=
  (List.isChain_map holdings).symm

/-- A list may be replaced at the end by one that holds the same. -/
theorem isChain_follows_concat {moments : List LiveList} {last other : LiveList}
    (h : other.holdings = last.holdings) (hchain : (moments ++ [last]).IsChain Follows) :
    (moments ++ [other]).IsChain Follows := by
  rw [isChain_follows_iff, List.map_append, List.map_singleton] at hchain ⊢
  rw [h]
  exact hchain

/-- From one moment of a call to the next the list keeps what it holds or moves once. -/
theorem Sound.moments_follow (hs : list.Sound) (visits : Nat → Visit) (mutation : Mutation) :
    (list :: mutation.moments visits list).IsChain Follows := by
  unfold Mutation.moments Mutation.call
  cases mutation.promised list with
  | error fault => exact List.isChain_pair.2 .kept
  | ok kept =>
    cases hacquire : list.lock.acquire with
    | error fault => exact List.isChain_pair.2 .kept
    | ok lock =>
      obtain ⟨hfree, rfl⟩ := StampLock.acquire_eq_ok_iff.1 hacquire
      have hstart : Underway (mutation.demand list.len) list list.ticked
          (mutation.steps list.len) :=
        ⟨hs.fresh, .kept, fun required hmem => Or.inr ⟨rfl, Mutation.demand_of_grow hmem⟩⟩
      have hsteps := hstart.isChain visits 1 (isLocked_ticked hfree)
      simp only [Outcome.accounts_released]
      rw [← List.cons_append] at hsteps ⊢
      exact isChain_follows_concat (Outcome.holdings_released _) hsteps

/-- What is noted at the pins is what is seen there, up to a pin that fails. -/
theorem accounts_noting_of_watch (visits : Nat → Visit) (steps : List Step) (number : Nat)
    (hl : list.lock.isLocked = true) :
    (runSteps (noting visits) number list steps).accounts <+:
      (runSteps watch number list steps).accounts := by
  induction steps generalizing number list with
  | nil => exact List.prefix_rfl
  | cons step rest ih =>
    cases step with
    | pin =>
      have hkept : (noting visits number list).list = list := noting_keepsList visits number list hl
      have hseen : (runSteps watch number list (.pin :: rest)).accounts =
          list :: (runSteps watch (number + 1) list rest).accounts := rfl
      rw [hseen, runSteps]
      simp only [hkept]
      split
      · exact List.cons_prefix_cons.2 ⟨rfl, List.nil_prefix⟩
      · exact List.cons_prefix_cons.2 ⟨rfl, ih (number + 1) hl⟩
    | act action =>
      rw [runSteps, runSteps]
      split
      · rename_i next ha
        exact ih number (by rw [Action.lock_apply ha]; exact hl)
      · exact List.nil_prefix

theorem mem_sights_of_noted (h : seen ∈ (mutation.call (noting visits) list).accounts) :
    seen ∈ mutation.sights list := by
  unfold Mutation.sights
  unfold Mutation.call at h ⊢
  cases hm : mutation.promised list with
  | error fault => rw [hm] at h; cases h
  | ok kept =>
    cases hacquire : list.lock.acquire with
    | error fault => rw [hm, hacquire] at h; cases h
    | ok lock =>
      obtain ⟨hfree, rfl⟩ := StampLock.acquire_eq_ok_iff.1 hacquire
      simp only [hm, hacquire, Outcome.accounts_released] at h ⊢
      exact (accounts_noting_of_watch visits _ 1 (isLocked_ticked hfree)).subset h

theorem Sound.of_mem_sights (hs : list.Sound) (h : seen ∈ mutation.sights list) : seen.Sound := by
  obtain ⟨index, hindex⟩ := List.getElem?_of_mem h
  obtain ⟨-, -, front, rest, hsteps, -, hleads⟩ := Mutation.leads_of_sight hindex
  exact (hs.setLock _).leads hleads hsteps

/-- A call leaves a sound list also where it is turned away. -/
theorem Sound.called (hs : list.Sound) (hp : atPin.KeepsList) (mutation : Mutation) :
    (mutation.call atPin list).list.Sound := by
  cases ht : mutation.takesLock list with
  | false =>
    rw [Mutation.list_call_of_not_takesLock ht]
    exact hs
  | true => exact hs.call hp (Mutation.takesLock_iff.1 ht).2 mutation

theorem Sound.of_mem_moments (hs : list.Sound) (h : seen ∈ mutation.moments visits list) :
    seen.Sound := by
  rcases List.mem_append.1 h with hnoted | hlast
  · exact hs.of_mem_sights (mem_sights_of_noted hnoted)
  · obtain rfl := List.mem_singleton.1 hlast
    exact hs.called (noting_keepsList visits) mutation

end SnapList.LiveList
