/-
  Custody: what becomes of allocations in the hands of a holder.

  The two parts of a depot are never changed together, and a duplicate leaves one of them poisoned.
  Still they say the same at all times: the addresses that were seen are those of the allocations that
  wait. So a duplicate, which can only poison the first part, is never noticed again, and what is freed
  in the end is what was accepted, each allocation once.

  Main statements: a depot that has refused a duplicate is like one that was never asked
  (`Depot.alike_retire`, `Holder.Alike.told_eq`), a depot is a ledger from outside (`ledger_retire`),
  and what a row of calls leaves in custody (`custody_of_calls`).
-/
import Mathlib.Data.List.Dedup
import SnapList.Retirement.Holder
import SnapList.Retirement.Ledger

namespace SnapList.Retirement

variable {α β : Type} {past early late calls : List (Call α β)} {kept : List (α × β)}
  {depot other : Depot α β} {holder after one two : Holder α β} {call : Call α β}
  {reply : Except Fault Unit} {address : α} {release : β}

/-! ## Calls and what they add -/

def Call.address? : Call α β → Option α
  | .retire address _ => some address
  | _ => none

def passed (calls : List (Call α β)) : List α := calls.filterMap Call.address?

/-- What a call adds to the depot if it gets this reply. -/
def Call.adds : Call α β → Except Fault Unit → List (α × β)
  | .retire address release, .ok () => [(address, release)]
  | _, _ => []

/-- The allocations that were accepted, in order. -/
def taken : List (Call α β) → List (Except Fault Unit × Holder α β) → List (α × β)
  | call :: calls, (reply, _) :: turns => call.adds reply ++ taken calls turns
  | _, _ => []

theorem mem_passed_concat :
    address ∈ passed (past ++ [call]) ↔ address ∈ passed past ∨ call.address? = some address := by
  unfold passed
  rw [List.filterMap_append, List.mem_append]
  simp

/-- After the calls `past` the allocations `kept` wait, one for each address that was passed. -/
structure Kept (past : List (Call α β)) (kept : List (α × β)) (depot : Depot α β) : Prop where
  waiting : depot.waiting = { value := kept }
  seen : ∀ address, address ∈ depot.seen.value ↔ address ∈ passed past
  nodup : (kept.map Prod.fst).Nodup
  kept_iff : ∀ address, address ∈ kept.map Prod.fst ↔ address ∈ passed past

theorem kept_nil : Kept [] [] ({} : Depot α β) :=
  ⟨rfl, fun _ => Iff.rfl, List.nodup_nil, fun _ => Iff.rfl⟩

/-! ## Holders that nobody can tell apart -/

/-- The same allocations wait behind the same mutex, and the same addresses were seen. -/
structure Depot.Alike (one other : Depot α β) : Prop where
  waiting : one.waiting = other.waiting
  seen : ∀ address, address ∈ one.seen.value ↔ address ∈ other.seen.value

/-- The same was freed, and either both have alike depots or both have given them up. -/
inductive Holder.Alike : Holder α β → Holder α β → Prop
  | held {depot other : Depot α β} {freed : List (α × β)} (h : depot.Alike other) :
      Alike ⟨some depot, freed⟩ ⟨some other, freed⟩
  | givenUp {freed : List (α × β)} : Alike ⟨none, freed⟩ ⟨none, freed⟩

theorem Holder.Alike.view_eq (h : one.Alike two) :
    one.pending = two.pending ∧ one.freed = two.freed := by
  cases h with
  | held halike =>
    refine ⟨?_, rfl⟩
    simp only [Holder.pending, Option.map_some, Depot.pending, halike.waiting]
  | givenUp => exact ⟨rfl, rfl⟩

theorem Holder.Alike.giveUp (h : one.Alike two) : one.giveUp.Alike two.giveUp := by
  cases h with
  | held halike =>
    simp only [Holder.giveUp, Depot.contents, halike.waiting]
    exact .givenUp
  | givenUp => exact .givenUp

theorem Kept.alike (h : Kept past kept depot) (halike : other.Alike depot) : Kept past kept other :=
  ⟨halike.waiting.trans h.waiting, fun address => (halike.seen address).trans (h.seen address),
    h.nodup, h.kept_iff⟩

/-- A call that passes no new address adds nothing. -/
theorem Kept.concat (h : Kept past kept depot)
    (hcall : ∀ address, call.address? = some address → address ∈ passed past) :
    Kept (past ++ [call]) kept depot := by
  have hpassed : ∀ address, address ∈ passed (past ++ [call]) ↔ address ∈ passed past := by
    intro address
    rw [mem_passed_concat]
    exact or_iff_left_of_imp (hcall address)
  refine ⟨h.waiting, ?_, h.nodup, ?_⟩
  · intro address
    rw [hpassed]
    exact h.seen address
  · intro address
    rw [hpassed]
    exact h.kept_iff address

variable [DecidableEq α]

/-- What waits are as many allocations as there are addresses. -/
theorem Kept.pending_eq (h : Kept past kept depot) : depot.pending = (passed past).dedup.length := by
  have hcalm : depot.waiting.poisoned = false := by rw [h.waiting]
  have hcontents : depot.contents = kept := congrArg Mutex.value h.waiting
  have hperm : (kept.map Prod.fst).Perm (passed past).dedup := by
    refine (List.perm_ext_iff_of_nodup h.nodup (List.nodup_dedup _)).2 ?_
    intro address
    rw [List.mem_dedup]
    exact h.kept_iff address
  rw [Depot.pending_of_calm hcalm, hcontents, ← hperm.length_eq, List.length_map]

variable [Address α]

theorem Depot.Alike.retire (h : depot.Alike other) (address : α) (release : β) :
    (depot.retire address release).1.Alike (other.retire address release).1 ∧
      (depot.retire address release).2 = (other.retire address release).2 := by
  rcases Decidable.em (address ∈ depot.seen.value) with hseen | hnew
  · rw [retire_of_seen hseen, retire_of_seen ((h.seen address).1 hseen)]
    exact ⟨⟨h.waiting, h.seen⟩, rfl⟩
  · have hnew' : address ∉ other.seen.value := fun hseen => hnew ((h.seen address).2 hseen)
    rw [retire_of_new hnew, retire_of_new hnew']
    refine ⟨⟨?_, ?_⟩, rfl⟩
    · simp only [h.waiting]
    · intro earlier
      simp only [List.mem_cons, h.seen]

/-- To refuse a duplicate leaves nothing behind but poison. -/
theorem Depot.alike_retire (h : address ∈ depot.seen.value) (release : β) :
    (depot.retire address release).1.Alike depot := by
  rw [retire_of_seen h]
  exact ⟨rfl, fun _ => Iff.rfl⟩

theorem Holder.step_retire (depot : Depot α β) (freed : List (α × β)) (address : α) (release : β) :
    Holder.step ⟨some depot, freed⟩ (.retire address release) =
      some (⟨some (depot.retire address release).1, freed⟩, (depot.retire address release).2) :=
  rfl

/-- A call is answered alike by both and leaves them alike, or is possible for neither. -/
theorem Holder.Alike.step (h : one.Alike two) (call : Call α β) :
    one.step call = none ∧ two.step call = none ∨
      ∃ first second reply, one.step call = some (first, reply) ∧
        two.step call = some (second, reply) ∧ first.Alike second := by
  cases call with
  | retire address release =>
    cases h with
    | held halike =>
      obtain ⟨hafter, hreply⟩ := halike.retire address release
      rw [step_retire, step_retire, hreply]
      exact Or.inr ⟨_, _, _, rfl, rfl, .held hafter⟩
    | givenUp => exact Or.inl ⟨rfl, rfl⟩
  | pin => exact Or.inr ⟨one, two, .ok (), rfl, rfl, h⟩
  | giveUp => exact Or.inr ⟨one.giveUp, two.giveUp, .ok (), rfl, rfl, h.giveUp⟩

theorem Holder.trace_of_none (h : holder.step call = none) (rest : List (Call α β)) :
    holder.trace (call :: rest) = none := by
  rw [Holder.trace, h]
  rfl

theorem Holder.trace_of_some (h : holder.step call = some (after, reply))
    (rest : List (Call α β)) :
    holder.trace (call :: rest) = (after.trace rest).map ((reply, after) :: ·) := by
  rw [Holder.trace, h, Option.map_eq_bind]
  rfl

/-- What some calls answer, and after each of them what waits and what has been freed. -/
def Holder.told (holder : Holder α β) (calls : List (Call α β)) :
    Option (List (Except Fault Unit × Option Nat × List (α × β))) :=
  (holder.trace calls).map fun turns =>
    turns.map fun (reply, after) => (reply, after.pending, after.freed)

theorem Holder.told_of_some (h : holder.step call = some (after, reply)) (rest : List (Call α β)) :
    holder.told (call :: rest) =
      (after.told rest).map ((reply, after.pending, after.freed) :: ·) := by
  unfold Holder.told
  rw [trace_of_some h, Option.map_map, Option.map_map]
  rfl

theorem Holder.Alike.told_eq (h : one.Alike two) (calls : List (Call α β)) :
    one.told calls = two.told calls := by
  induction calls generalizing one two with
  | nil => rfl
  | cons call rest ih =>
    rcases h.step call with ⟨hone, htwo⟩ | ⟨first, second, reply, hone, htwo, hafter⟩
    · unfold Holder.told
      rw [trace_of_none hone, trace_of_none htwo]
    · obtain ⟨hpending, hfreed⟩ := hafter.view_eq
      rw [told_of_some hone, told_of_some htwo, ih hafter, hpending, hfreed]

/-! ## Calls on what is kept -/

theorem Kept.of_seen (h : Kept past kept depot) (hseen : address ∈ passed past) (release : β) :
    Kept (past ++ [.retire address release]) kept (depot.retire address release).1 := by
  have hconcat : Kept (past ++ [.retire address release]) kept depot := by
    refine h.concat ?_
    intro other hother
    obtain rfl : address = other := Option.some.inj hother
    exact hseen
  exact hconcat.alike (Depot.alike_retire ((h.seen address).2 hseen) release)

theorem Kept.of_new (h : Kept past kept depot) (hnew : address ∉ passed past) (release : β) :
    Kept (past ++ [.retire address release]) (kept ++ [(address, release)])
      (depot.retire address release).1 := by
  have hpassed : ∀ other, other ∈ passed (past ++ [.retire address release]) ↔
      other ∈ passed past ∨ other = address := by
    intro other
    rw [mem_passed_concat]
    refine or_congr_right ?_
    exact (Option.some_inj).trans eq_comm
  rw [Depot.retire_of_new (mt (h.seen address).1 hnew)]
  refine ⟨?_, ?_, ?_, ?_⟩
  · simp only [h.waiting]
  · intro other
    rw [hpassed, List.mem_cons, h.seen, or_comm]
  · rw [List.map_append, List.map_singleton, List.nodup_append]
    refine ⟨h.nodup, List.nodup_singleton _, ?_⟩
    intro earlier hearlier last hlast
    obtain rfl := List.mem_singleton.1 hlast
    rintro rfl
    exact hnew ((h.kept_iff _).1 hearlier)
  · intro other
    rw [hpassed, List.map_append, List.mem_append, h.kept_iff, List.map_singleton,
      List.mem_singleton]

theorem Kept.step (h : Kept past kept depot) (hcall : call ≠ .giveUp) :
    ∃ after reply, Holder.step ⟨some depot, []⟩ call = some (⟨some after, []⟩, reply) ∧
      Kept (past ++ [call]) (kept ++ call.adds reply) after := by
  cases call with
  | retire address release =>
    rcases Decidable.em (address ∈ passed past) with hseen | hnew
    · have hkept := h.of_seen hseen release
      have hreply := Depot.retire_of_seen ((h.seen address).2 hseen) release
      refine ⟨_, _, Holder.step_retire depot [] address release, ?_⟩
      rw [hreply] at hkept ⊢
      have hnothing : Call.adds (.retire address release)
          (.error (.duplicateRetirement (Address.number address))) = [] := rfl
      rw [hnothing, List.append_nil]
      exact hkept
    · have hkept := h.of_new hnew release
      have hreply := Depot.retire_of_new (mt (h.seen address).1 hnew) release
      refine ⟨_, _, Holder.step_retire depot [] address release, ?_⟩
      rw [hreply] at hkept ⊢
      exact hkept
  | pin =>
    refine ⟨depot, .ok (), rfl, ?_⟩
    rw [show Call.adds .pin (.ok ()) = ([] : List (α × β)) from rfl, List.append_nil]
    exact h.concat fun address hnone => by cases hnone
  | giveUp => exact absurd rfl hcall

theorem Holder.run_of_some (h : holder.step call = some (after, reply)) (rest : List (Call α β)) :
    holder.run (call :: rest) = after.run rest := by
  simp only [Holder.run, List.foldl_cons, h, Option.map_some, Option.getD_some]

/-- As long as the holder is not given up, every call is answered, nothing is freed, and what was
accepted is kept. -/
theorem Kept.trace (h : Kept past kept depot) (hheld : .giveUp ∉ calls) :
    ∃ turns last, Holder.trace ⟨some depot, []⟩ calls = some turns ∧
      Holder.run ⟨some depot, []⟩ calls = ⟨some last, []⟩ ∧
      Kept (past ++ calls) (kept ++ taken calls turns) last := by
  induction calls generalizing past kept depot with
  | nil =>
    refine ⟨[], depot, rfl, rfl, ?_⟩
    rw [List.append_nil]
    exact (List.append_nil kept).symm ▸ h
  | cons call rest ih =>
    have hcall : call ≠ .giveUp := fun heq => hheld (heq ▸ List.mem_cons_self)
    obtain ⟨after, reply, hstep, hkept⟩ := h.step hcall
    obtain ⟨turns, last, htrace, hrun, hlast⟩ := ih hkept (mt (List.mem_cons_of_mem _) hheld)
    refine ⟨(reply, ⟨some after, []⟩) :: turns, last, ?_, ?_, ?_⟩
    · rw [Holder.trace_of_some hstep, htrace]
      rfl
    · rw [Holder.run_of_some hstep, hrun]
    · rw [List.append_assoc, List.append_assoc] at hlast
      exact hlast

/-- The turn of a call is its step after the calls before it. -/
theorem Holder.exists_turn {turns : List (Except Fault Unit × Holder α β)}
    (h : holder.trace (early ++ call :: late) = some turns) :
    ∃ reply after, turns[early.length]? = some (reply, after) ∧
      (holder.run early).step call = some (after, reply) := by
  induction early generalizing holder turns with
  | nil =>
    cases hstep : holder.step call with
    | none =>
      rw [List.nil_append, trace_of_none hstep] at h
      cases h
    | some answer =>
      obtain ⟨after, reply⟩ := answer
      rw [List.nil_append, trace_of_some hstep] at h
      obtain ⟨tail, -, rfl⟩ := Option.map_eq_some_iff.1 h
      exact ⟨reply, after, rfl, hstep⟩
  | cons first early ih =>
    cases hstep : holder.step first with
    | none =>
      rw [List.cons_append, trace_of_none hstep] at h
      cases h
    | some answer =>
      obtain ⟨after, reply⟩ := answer
      rw [List.cons_append, trace_of_some hstep] at h
      obtain ⟨tail, htail, rfl⟩ := Option.map_eq_some_iff.1 h
      rw [run_of_some hstep]
      exact ih htail

/-! ## As a ledger -/

/-- What a depot is from outside. -/
def Depot.ledger (depot : Depot α β) : Ledger α β := ⟨depot.contents⟩

/-- A depot retires what its ledger retires, and refuses what its ledger refuses. -/
theorem Kept.ledger_retire (h : Kept past kept depot) (address : α) (release : β) :
    depot.ledger.retire address release =
      (depot.retire address release).2.map fun _ => (depot.retire address release).1.ledger := by
  have hcontents : depot.contents = kept := congrArg Mutex.value h.waiting
  have haddresses : depot.ledger.addresses = kept.map Prod.fst := congrArg (List.map Prod.fst) hcontents
  unfold Ledger.retire
  rw [haddresses]
  rcases Decidable.em (address ∈ passed past) with hseen | hnew
  · rw [if_pos ((h.kept_iff address).2 hseen), Depot.retire_of_seen ((h.seen address).2 hseen)]
    rfl
  · rw [if_neg (mt (h.kept_iff address).1 hnew), Depot.retire_of_new (mt (h.seen address).1 hnew)]
    rfl

/-! ## The end -/

/-- A row of calls on a new holder that is not given up yet. A retirement is accepted if and only if
its address was not passed before; if it was, that is a fault which nothing tells of afterwards. What
waits are as many allocations as there are addresses, and none of them is freed. When the holder is
given up, exactly the accepted allocations are freed, in order, each address once. -/
theorem custody_of_calls (h : .giveUp ∉ calls) :
    let holder := ({} : Holder α β).run calls
    ∃ turns, ({} : Holder α β).trace calls = some turns ∧
      (∀ early address release late, calls = early ++ .retire address release :: late →
        ∃ reply after, turns[early.length]? = some (reply, after) ∧
          (address ∉ passed early → reply = .ok ()) ∧
          (address ∈ passed early →
            reply = .error (.duplicateRetirement (Address.number address)) ∧
            after.pending = (({} : Holder α β).run early).pending ∧
            after.freed = (({} : Holder α β).run early).freed ∧
            ∀ rest, after.told rest = (({} : Holder α β).run early).told rest)) ∧
      holder.pending = some (passed calls).dedup.length ∧ holder.freed = [] ∧
      holder.giveUp.freed = taken calls turns ∧
      ((taken calls turns).map Prod.fst).Nodup ∧
      ∀ address, address ∈ (taken calls turns).map Prod.fst ↔ address ∈ passed calls := by
  intro holder
  have hstart : Kept [] [] ({} : Depot α β) := kept_nil
  obtain ⟨turns, last, htrace, hrun, hkept⟩ := hstart.trace h
  have hholder : holder = ⟨some last, []⟩ := hrun
  refine ⟨turns, htrace, ?_, ?_, ?_, ?_, hkept.nodup, hkept.kept_iff⟩
  · rintro early address release late rfl
    obtain ⟨reply, after, hturn, hstep⟩ := Holder.exists_turn htrace
    obtain ⟨_, depot, -, hbefore, hpast⟩ := hstart.trace (mt (List.mem_append_left _) h)
    have hearly : ({} : Holder α β).run early = ⟨some depot, []⟩ := hbefore
    rw [hearly, Holder.step_retire] at hstep
    rw [hearly]
    refine ⟨reply, after, hturn, ?_, ?_⟩
    · intro hnew
      rw [Depot.retire_of_new (mt (hpast.seen address).1 hnew)] at hstep
      cases hstep
      rfl
    · intro hseen
      have hknown := (hpast.seen address).2 hseen
      have halike : Holder.Alike ⟨some (depot.retire address release).1, []⟩ ⟨some depot, []⟩ :=
        .held (Depot.alike_retire hknown release)
      have hreply := congrArg Prod.snd (Depot.retire_of_seen hknown release)
      cases hstep
      exact ⟨hreply, halike.view_eq.1, halike.view_eq.2, halike.told_eq⟩
  · rw [hholder]
    exact congrArg some hkept.pending_eq
  · rw [hholder]
  · rw [hholder]
    exact congrArg Mutex.value hkept.waiting

/-- Three allocations, the first of which is retired once more and in another way. -/
def repeated : List (Call Nat String) :=
  [.retire 4 "box", .pin, .retire 7 "page", .retire 4 "page", .retire 9 "box"]

/-- The second retirement is refused, and the first one is carried out in the end. -/
theorem custody_repeated :
    .giveUp ∉ repeated ∧
      let holder := ({} : Holder Nat String).run repeated
      holder.pending = some 3 ∧ holder.freed = [] ∧
        holder.giveUp.freed = [(4, "box"), (7, "page"), (9, "box")] ∧
        ∃ after, (({} : Holder Nat String).trace repeated).bind (·[3]?) =
            some (.error (.duplicateRetirement 4), after) ∧
          after.told [.retire 9 "box", .giveUp] =
            some [(.ok (), some 3, []),
              (.ok (), none, [(4, "box"), (7, "page"), (9, "box")])] := by
  have hheld : .giveUp ∉ repeated := by simp [repeated]
  obtain ⟨turns, htrace, hturns, hpending, hnone, hfreed, -, -⟩ := custody_of_calls hheld
  obtain ⟨reply, after, hturn, -, hduplicate⟩ :=
    hturns [.retire 4 "box", .pin, .retire 7 "page"] 4 "page" [.retire 9 "box"] rfl
  obtain ⟨rfl, -, -, htold⟩ := hduplicate (by decide)
  refine ⟨hheld, hpending, hnone, hfreed.trans ?_, after, ?_, (htold _).trans rfl⟩
  · obtain rfl := Option.some.inj (htrace.symm.trans rfl)
    rfl
  · rw [htrace]
    exact hturn

end SnapList.Retirement
