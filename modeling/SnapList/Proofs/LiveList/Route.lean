/-
  Where the steps of a write lead.

  Steps LEAD from one list to another if each of their actions succeeds. A call that comes to a pin
  is led there by the steps before it, whatever is done at the pins in between, as long as that
  leaves the list and fails no pin. A pin that fails ends the call where the steps have led it.

  Main statements: steps that lead to a list are carried out up to there (`Leads.runSteps_append`),
  and a run ends as if nothing were done at its pins, or at a pin that fails (`calm_or_broken`).
-/
import SnapList.Proofs.LiveList.Later
import SnapList.Proofs.LiveList.Write

namespace SnapList.LiveList

variable {ρ : Type} {atPin : AtPin ρ} {list next seen : LiveList} {front rest : List Step}

/-- The steps lead from one list to another: each of their actions succeeds. -/
inductive Leads : LiveList → List Step → LiveList → Prop
  | nil {list : LiveList} : Leads list [] list
  | pin {list seen : LiveList} {rest : List Step} (hrest : Leads list rest seen) :
      Leads list (.pin :: rest) seen
  | act {list next seen : LiveList} {action : Action} {rest : List Step}
      (ha : action.apply list = .ok next) (hrest : Leads next rest seen) :
      Leads list (.act action :: rest) seen

def Step.isPin : Step → Bool
  | .pin => true
  | .act _ => false

def pins (steps : List Step) : Nat := steps.countP Step.isPin

theorem pins_pin (rest : List Step) : pins (.pin :: rest) = pins rest + 1 :=
  List.countP_cons_of_pos rfl

theorem pins_act (action : Action) (rest : List Step) : pins (.act action :: rest) = pins rest :=
  List.countP_cons_of_neg Bool.false_ne_true

theorem Leads.lock (h : Leads list front seen) : seen.lock = list.lock := by
  induction h with
  | nil => rfl
  | pin _ ih => exact ih
  | act ha _ ih => exact ih.trans (Action.lock_apply ha)

theorem Leads.isLocked (h : Leads list front seen) (hl : list.lock.isLocked = true) :
    seen.lock.isLocked = true := by
  rw [h.lock]
  exact hl

/-- Every action on the way has succeeded on some list. -/
theorem Leads.applied (h : Leads list front seen) {action : Action} (hmem : .act action ∈ front) :
    ∃ before after, action.apply before = .ok after := by
  induction h with
  | nil => cases hmem
  | pin _ ih =>
    rcases List.mem_cons.1 hmem with he | hmem
    · cases he
    · exact ih hmem
  | act ha _ ih =>
    rcases List.mem_cons.1 hmem with he | hmem
    · cases he
      exact ⟨_, _, ha⟩
    · exact ih hmem

theorem Outcome.after_nil (outcome : Outcome ρ) : outcome.after [] [] = outcome := rfl

theorem Outcome.after_after (outcome : Outcome ρ) (first second : List Event)
    (early late : List ρ) :
    (outcome.after second late).after first early =
      outcome.after (first ++ second) (early ++ late) := by
  simp only [Outcome.after, List.append_assoc]

/-- Steps that lead to `seen` under a held lock are carried out up to there if nobody disturbs them
at their pins. -/
theorem Leads.runSteps_append (h : Leads list front seen) (hl : list.lock.isLocked = true)
    (number : Nat) (rest : List Step)
    (hp : ∀ current list, current < number + pins front → list.lock.isLocked = true →
      (atPin current list).list = list ∧ (atPin current list).fails = false) :
    ∃ events accounts, accounts.length = pins front ∧
      runSteps atPin number list (front ++ rest) =
        (runSteps atPin (number + pins front) seen rest).after events accounts := by
  induction h generalizing number with
  | nil => exact ⟨[], [], rfl, (Outcome.after_nil _).symm⟩
  | @pin list seen front hrest ih =>
    rw [pins_pin] at hp ⊢
    obtain ⟨hlist, hfails⟩ := hp number list (by omega) hl
    obtain ⟨events, accounts, hlen, hrun⟩ := ih hl (number + 1) fun current list hc =>
      hp current list (by omega)
    refine ⟨(atPin number list).events ++ events, (atPin number list).account :: accounts,
      by rw [List.length_cons, hlen], ?_⟩
    have hnumber : number + 1 + pins front = number + (pins front + 1) := by omega
    rw [List.cons_append, runSteps]
    simp only [hlist, hfails, Bool.false_eq_true, if_false, hrun, Outcome.after_after, hnumber]
    rfl
  | @act list next seen action front ha hrest ih =>
    rw [pins_act] at hp ⊢
    obtain ⟨events, accounts, hlen, hrun⟩ := ih (by rw [Action.lock_apply ha]; exact hl) number hp
    refine ⟨action.events list ++ events, accounts, hlen, ?_⟩
    rw [List.cons_append, runSteps]
    simp only [ha, hrun, Outcome.after_after]
    rfl

/-- A run ends as if nothing were done at its pins, or a pin fails and leaves the list to which the
steps before it have led. -/
theorem calm_or_broken (hp : atPin.KeepsList) (steps : List Step) (number : Nat)
    (hl : list.lock.isLocked = true) :
    (runSteps atPin number list steps).plain = (runSteps idle number list steps).plain ∨
      ∃ front rest seen current, steps = front ++ .pin :: rest ∧ Leads list front seen ∧
        (atPin current seen).fails = true ∧
        (runSteps atPin number list steps).plain = (seen, .error (.aborted .pinFailed)) := by
  induction steps generalizing number list with
  | nil => exact Or.inl rfl
  | cons step steps ih =>
    cases step with
    | pin =>
      have hkept := hp number list hl
      cases hf : (atPin number list).fails with
      | true =>
        refine Or.inr ⟨[], steps, list, number, rfl, .nil, hf, ?_⟩
        simp only [runSteps, hkept, hf, if_true]
        rfl
      | false =>
        have hrun : (runSteps atPin number list (.pin :: steps)).plain =
            (runSteps atPin (number + 1) list steps).plain := by
          simp only [runSteps, hkept, hf]
          rfl
        rw [hrun, plain_pin idle_passive hl]
        rcases ih (number + 1) hl with
          hcalm | ⟨front, rest, seen, current, rfl, hleads, hfails, hbroken⟩
        · exact Or.inl hcalm
        · exact Or.inr ⟨.pin :: front, rest, seen, current, rfl, .pin hleads, hfails, hbroken⟩
    | act action =>
      cases ha : action.apply list with
      | error failure =>
        rw [plain_failed ha, plain_failed ha]
        exact Or.inl rfl
      | ok next =>
        rw [plain_act ha, plain_act ha]
        rcases ih number (by rw [Action.lock_apply ha]; exact hl) with
          hcalm | ⟨front, rest, seen, current, rfl, hleads, hfails, hbroken⟩
        · exact Or.inl hcalm
        · exact Or.inr ⟨.act action :: front, rest, seen, current, rfl, .act ha hleads, hfails,
            hbroken⟩

/-! ## Whole calls -/

/-- The list one stamp on, with everything else as it is. -/
def ticked (list : LiveList) : LiveList := { list with lock := list.lock.advance }

@[simp] theorem retired_ticked (list : LiveList) : list.ticked.retired = list.retired := rfl

theorem isLocked_ticked (h : list.lock.isLocked = false) : list.ticked.lock.isLocked = true := by
  simp [ticked, h]

/-- The steps of a call are carried out one stamp on, and what they leave is released. -/
theorem plain_call_of_free {mutation : Mutation} (hm : mutation.promised list = .ok ())
    (hf : list.lock.isLocked = false) {after : LiveList} {result : Except Failure Unit}
    (h : (runSteps atPin 1 list.ticked (mutation.steps list.len)).plain = (after, result))
    (hl : after.lock.isLocked = true) :
    (mutation.call atPin list).plain = (after.ticked, result) := by
  obtain ⟨rfl, rfl⟩ := Prod.mk.inj h
  have hcall : mutation.call atPin list =
      (runSteps atPin 1 list.ticked (mutation.steps list.len)).released :=
    Mutation.call_of_free atPin hm hf
  rw [hcall, Outcome.released_of_locked hl]
  rfl

/-- To release the lock of two outcomes that are plainly the same leaves them so. -/
theorem plain_released {σ : Type} {first : Outcome ρ} {second : Outcome σ}
    (h : first.plain = second.plain) : first.released.plain = second.released.plain := by
  have hlist : first.list = second.list := congrArg Prod.fst h
  have hresult : first.result = second.result := congrArg Prod.snd h
  unfold Outcome.released
  rw [hlist]
  split
  · exact Prod.ext rfl hresult
  · rfl

/-- A call whose pins are passive ends as if nothing were done at them. -/
theorem plain_call_of_passive (hp : atPin.Passive) (mutation : Mutation) (list : LiveList) :
    (mutation.call atPin list).plain = (mutation.apply list).plain := by
  have hkeeps : atPin.KeepsList := fun number list h => (hp number list h).1
  unfold Mutation.apply Mutation.call
  cases mutation.promised list with
  | error fault => rfl
  | ok kept =>
    cases hacquire : list.lock.acquire with
    | error fault => rfl
    | ok lock =>
      obtain ⟨hfree, rfl⟩ := StampLock.acquire_eq_ok_iff.1 hacquire
      refine plain_released ?_
      rcases calm_or_broken hkeeps (mutation.steps list.len) 1 (isLocked_ticked hfree) with
        hcalm | ⟨front, rest, seen, current, -, hleads, hfails, -⟩
      · exact hcalm
      · have hlocked := hleads.isLocked (isLocked_ticked hfree)
        rw [(hp current seen hlocked).2] at hfails
        cases hfails

end SnapList.LiveList
