/-
  The history of a lock.

  Clients take turns with their calls: manual ones, guards and their drops, readers, intruders. A call
  ASKS for deeds, or only looks. What it asks for is done unless the call is refused, and the reply
  says which. So what was done to the lock can be read off the replies alone.

  Main statements: a call that asks for a deed at the right time is granted it, and one that asks at
  the wrong time is refused and leaves the lock as it is (`answered_of_step`); a history is a trace
  that says whose calls they are (`replies_history`); and what it says about the stamp, about the
  holders, and to a reader who validates (`history_of_calls`).
-/
import SnapList.Proofs.StampLock.Deeds
import SnapList.StampLock.Clients

namespace SnapList.StampLock

/-- What a call asks to be done, in order. -/
def Call.asks : Call → List Deed
  | .acquire | .openGuard => [.acquired]
  | .release | .dropGuard _ | .releaseUnderReader => [.released]
  | .intrude => [.acquired, .released]
  | _ => []

/-- Why a call was refused what it asked for, if it was. -/
def refusal : Except Failure Reply → Option Failure
  | .error failure => some failure
  | .ok (.released _ (.error fault)) => some (.aborted fault)
  | .ok _ => none

/-- The stamp that a reader was given to start from. -/
def given : Call → Except Failure Reply → Option UInt64
  | .readStamp, .ok (.stamp stamp) => some stamp
  | .releaseUnderReader, .ok (.released stamp _) => some stamp
  | _, _ => none

structure Turn (κ : Type) where
  client : κ
  call : Call
  reply : Except Failure Reply

def deeds (call : Call) (reply : Except Failure Reply) : List Deed :=
  match refusal reply with
  | none => call.asks
  | some _ => []

variable {κ : Type} {clients after last : Clients} {call : Call} {reply : Except Failure Reply}
  {calls : List (κ × Call)} {turns early since : List (Turn κ)} {turn : Turn κ} {stamp : UInt64}

/-- Everything that was done in some turns. -/
def acts (turns : List (Turn κ)) : List Deed :=
  turns.flatMap fun turn => deeds turn.call turn.reply

/-- Everything that was done in some turns, and by whom. -/
def signed (turns : List (Turn κ)) : List (κ × Deed) :=
  turns.flatMap fun turn => (deeds turn.call turn.reply).map fun deed => (turn.client, deed)

/-- The calls one after another, each by its client. -/
def Clients.history (clients : Clients) : List (κ × Call) → Option (List (Turn κ) × Clients)
  | [] => some ([], clients)
  | (client, call) :: rest => do
    let (after, reply) ← clients.step call
    let (turns, last) ← after.history rest
    return (⟨client, call, reply⟩ :: turns, last)

/-! ## One call -/

/-- How a call is answered. -/
inductive Answered (lock : StampLock) (call : Call) (reply : Except Failure Reply) :
    StampLock → Prop
  | looked (hasks : call.asks = []) : Answered lock call reply lock
  | granted {deed : Deed} {rest : List Deed} {after : StampLock} (hasks : call.asks = deed :: rest)
      (hreply : refusal reply = none) (hdoes : Does lock (deed :: rest) after) :
      Answered lock call reply after
  | refused {deed : Deed} {rest : List Deed} (hasks : call.asks = deed :: rest)
      (hreply : refusal reply = some (.aborted deed.fault)) (hnow : lock.isLocked ≠ deed.ofHeld) :
      Answered lock call reply lock

theorem does_single {lock : StampLock} {deed : Deed} (h : lock.isLocked = deed.ofHeld) :
    Does lock [deed] lock.advance :=
  .cons h .nil

theorem answered_attempt {other : Clients} {deed : Deed} {answer : Reply}
    (hlock : other.lock = clients.lock) (hasks : call.asks = [deed])
    (hanswer : refusal (.ok answer) = none)
    (h : other.attempt (deed.change clients.lock) answer = (after, reply)) :
    Answered clients.lock call reply after.lock := by
  rcases eq_or_ne clients.lock.isLocked deed.ofHeld with hnow | hnow
  · rw [Deed.change_of_eq hnow] at h
    cases h
    exact .granted hasks hanswer (does_single hnow)
  · rw [Deed.change_of_ne hnow] at h
    cases h
    rw [hlock]
    exact .refused hasks rfl hnow

/-- A call is granted what it asks for, or refused and leaves the lock. -/
theorem answered_of_step (h : clients.step call = some (after, reply)) :
    Answered clients.lock call reply after.lock := by
  cases call with
  | acquire => exact answered_attempt rfl rfl rfl (Option.some.inj h)
  | release => exact answered_attempt rfl rfl rfl (Option.some.inj h)
  | dropGuard guard =>
    simp only [Clients.step] at h
    split at h
    · have hattempt := Option.some.inj h
      refine answered_attempt ?_ rfl rfl hattempt
      rfl
    · cases h
  | openGuard =>
    rcases eq_or_ne clients.lock.isLocked Deed.acquired.ofHeld with hnow | hnow
    · have hacquire : clients.lock.acquire = _ := Deed.change_of_eq hnow
      simp only [Clients.step, hacquire] at h
      cases h
      exact .granted rfl rfl (does_single hnow)
    · have hacquire : clients.lock.acquire = _ := Deed.change_of_ne hnow
      simp only [Clients.step, hacquire] at h
      cases h
      exact .refused rfl rfl hnow
  | intrude =>
    rcases eq_or_ne clients.lock.isLocked Deed.acquired.ofHeld with hnow | hnow
    · have hacquire : clients.lock.acquire = _ := Deed.change_of_eq hnow
      have hthen : clients.lock.advance.isLocked = Deed.released.ofHeld := by
        rw [isLocked_advance, hnow]
        rfl
      have hrelease : clients.lock.advance.release = _ := Deed.change_of_eq hthen
      simp only [Clients.step, hacquire, Except.bind, hrelease] at h
      cases h
      exact .granted rfl rfl (.cons hnow (does_single hthen))
    · have hacquire : clients.lock.acquire = _ := Deed.change_of_ne hnow
      simp only [Clients.step, hacquire, Except.bind] at h
      cases h
      exact .refused rfl rfl hnow
  | releaseUnderReader =>
    rcases eq_or_ne clients.lock.isLocked Deed.released.ofHeld with hnow | hnow
    · have hrelease : clients.lock.release = _ := Deed.change_of_eq hnow
      simp only [Clients.step, hrelease] at h
      cases h
      exact .granted rfl rfl (does_single hnow)
    · have hrelease : clients.lock.release = _ := Deed.change_of_ne hnow
      simp only [Clients.step, hrelease] at h
      cases h
      exact .refused rfl rfl hnow
  | _ =>
    cases h
    exact .looked rfl

/-- A call is granted what it asks for exactly if it asks at the right time. -/
theorem Answered.granted_iff {lock after : StampLock} (h : Answered lock call reply after)
    {deed : Deed} (hhead : call.asks.head? = some deed) :
    refusal reply = none ↔ lock.isLocked = deed.ofHeld := by
  cases h with
  | looked hasks =>
    rw [hasks] at hhead
    cases hhead
  | granted hasks hreply hdoes =>
    rw [hasks] at hhead
    cases hhead
    exact ⟨fun _ => hdoes.head_eq, fun _ => hreply⟩
  | refused hasks hreply hnow =>
    rw [hasks] at hhead
    cases hhead
    rw [hreply]
    exact iff_of_false (Option.some_ne_none _) hnow

/-- What a call that gets this reply finds and leaves. -/
structure Judged (lock : StampLock) (call : Call) (reply : Except Failure Reply)
    (after : StampLock) : Prop where
  acquires : call.asks.head? = some .acquired → (refusal reply = none ↔ lock.stamp.toNat % 2 = 0)
  releases : call.asks.head? = some .released → (refusal reply = none ↔ lock.stamp.toNat % 2 = 1)
  refused : ∀ deed, call.asks.head? = some deed → refusal reply ≠ none →
    refusal reply = some (.aborted deed.fault) ∧ after = lock
  looks : call.asks = [] → after = lock

theorem Answered.judged {lock after : StampLock} (h : Answered lock call reply after) :
    Judged lock call reply after := by
  refine ⟨?_, ?_, ?_, ?_⟩
  · intro hhead
    exact (h.granted_iff hhead).trans isLocked_eq_false_iff
  · intro hhead
    exact (h.granted_iff hhead).trans isLocked_iff
  · intro deed hhead hrefused
    cases h with
    | looked hasks =>
      rw [hasks] at hhead
      cases hhead
    | granted _ hreply _ => exact absurd hreply hrefused
    | refused hasks hreply _ =>
      rw [hasks] at hhead
      cases hhead
      exact ⟨hreply, rfl⟩
  · intro hnothing
    cases h with
    | looked => rfl
    | granted hasks _ _ =>
      rw [hnothing] at hasks
      cases hasks
    | refused => rfl

theorem Answered.does {lock after : StampLock} (h : Answered lock call reply after) :
    Does lock (deeds call reply) after := by
  unfold deeds
  cases h with
  | looked hasks =>
    rw [hasks]
    split <;> exact .nil
  | granted hasks hreply hdoes =>
    rw [hreply, hasks]
    exact hdoes
  | refused _ hreply _ =>
    rw [hreply]
    exact .nil

/-- Only a guard that is not open makes a call impossible. -/
theorem step_eq_none_iff :
    clients.step call = none ↔ ∃ guard, call = .dropGuard guard ∧
      clients.guards[guard]? ≠ some true := by
  cases call with
  | dropGuard guard => simp [Clients.step]
  | openGuard | releaseUnderReader =>
    simp only [Clients.step]
    split <;> simp
  | _ => simp [Clients.step]

theorem given_of_step (h : clients.step call = some (after, reply))
    (hgiven : given call reply = some stamp) :
    after.lock.stamp = stamp ∧ after.lock.isLocked = false := by
  unfold given at hgiven
  split at hgiven
  · cases hgiven
    cases hl : clients.lock.isLocked with
    | false =>
      simp only [Clients.step, readStamp, hl] at h
      cases h
      exact ⟨rfl, hl⟩
    | true =>
      simp only [Clients.step, readStamp, hl] at h
      cases h
  · cases hgiven
    rcases eq_or_ne clients.lock.isLocked Deed.released.ofHeld with hnow | hnow
    · have hrelease : clients.lock.release = _ := Deed.change_of_eq hnow
      simp only [Clients.step, hrelease] at h
      cases h
      refine ⟨rfl, ?_⟩
      rw [isLocked_advance, hnow]
      rfl
    · have hrelease : clients.lock.release = _ := Deed.change_of_ne hnow
      simp only [Clients.step, hrelease] at h
      cases h
      exact ⟨rfl, Bool.not_eq_true _ ▸ hnow⟩
  · cases hgiven

/-! ## Histories -/

theorem history_cons {client : κ} {rest : List (κ × Call)}
    (h : clients.history ((client, call) :: rest) = some (turns, last)) :
    ∃ after reply later, clients.step call = some (after, reply) ∧
      after.history rest = some (later, last) ∧ turns = ⟨client, call, reply⟩ :: later := by
  obtain ⟨⟨after, reply⟩, hstep, hrest⟩ := Option.bind_eq_some_iff.1 h
  obtain ⟨⟨later, final⟩, hlater, hturns⟩ := Option.bind_eq_some_iff.1 hrest
  cases hturns
  exact ⟨after, reply, later, hstep, hlater, rfl⟩

theorem Clients.trace_of_some (h : clients.step call = some (after, reply)) (rest : List Call) :
    clients.trace (call :: rest) = (after.trace rest).map ((reply, after.lock) :: ·) := by
  rw [Clients.trace, h, Option.map_eq_bind]
  rfl

theorem Clients.history_of_some (h : clients.step call = some (after, reply)) (client : κ)
    (rest : List (κ × Call)) :
    clients.history ((client, call) :: rest) =
      (after.history rest).map fun told => (⟨client, call, reply⟩ :: told.1, told.2) := by
  rw [Clients.history, h, Option.map_eq_bind]
  rfl

theorem replies_history (clients : Clients) (calls : List (κ × Call)) :
    (clients.trace (calls.map Prod.snd)).map (·.map Prod.fst) =
      (clients.history calls).map fun told => told.1.map Turn.reply := by
  induction calls generalizing clients with
  | nil => rfl
  | cons entry rest ih =>
    obtain ⟨client, call⟩ := entry
    cases hstep : clients.step call with
    | none =>
      rw [List.map_cons, Clients.trace, Clients.history, hstep]
      rfl
    | some answer =>
      obtain ⟨after, reply⟩ := answer
      have hrest := congrArg (Option.map (reply :: ·)) (ih after)
      rw [Option.map_map, Option.map_map] at hrest
      rw [List.map_cons, Clients.trace_of_some hstep, Clients.history_of_some hstep,
        Option.map_map, Option.map_map]
      exact hrest

theorem does_of_history (h : clients.history calls = some (turns, last)) :
    Does clients.lock (acts turns) last.lock := by
  induction calls generalizing clients turns with
  | nil =>
    cases h
    exact .nil
  | cons entry rest ih =>
    obtain ⟨after, reply, later, hstep, hlater, rfl⟩ := history_cons h
    exact (answered_of_step hstep).does.append (ih hlater)

/-- Every turn is a call in the state that those before it have left. -/
theorem exists_of_history (h : clients.history calls = some (early ++ turn :: since, last)) :
    ∃ (before after : Clients) (rest : List (κ × Call)),
      before.step turn.call = some (after, turn.reply) ∧
        after.history rest = some (since, last) := by
  induction early generalizing clients calls with
  | nil =>
    cases calls with
    | nil => cases h
    | cons entry rest =>
      obtain ⟨after, reply, later, hstep, hlater, heq⟩ := history_cons h
      cases heq
      exact ⟨clients, after, rest, hstep, hlater⟩
  | cons first early ih =>
    cases calls with
    | nil => cases h
    | cons entry rest =>
      obtain ⟨after, reply, later, hstep, hlater, heq⟩ := history_cons h
      cases heq
      exact ih hlater

theorem map_signed (turns : List (Turn κ)) : (signed turns).map Prod.snd = acts turns := by
  unfold signed acts
  rw [List.map_flatMap]
  simp only [List.map_map, Function.comp_def, List.map_id']

theorem odd_iff_of_does {lock : StampLock} {done : List Deed} (h : Does {} done lock) :
    lock.stamp.toNat % 2 = 1 ↔ done.getLast? = some .acquired := by
  rw [← isLocked_iff]
  cases hlast : done.getLast? with
  | none =>
    rw [List.getLast?_eq_none_iff] at hlast
    subst hlast
    cases h
    simp [isLocked]
  | some deed =>
    rw [h.isLocked_eq hlast]
    cases deed <;> simp [Deed.ofHeld]

/-- What calls are told that only look, after `done` was done to a new lock: the stamp is the number of
the deeds, the lock is held after an acquisition, and a reader starts from the stamp of a free lock. -/
structure Tells (clients : Clients) (done : List Deed) : Prop where
  stamp : clients.step .stamp =
    some (clients, .ok (.stamp (UInt64.ofNat (done.count .acquired + done.count .released))))
  isLocked : clients.step .isLocked =
    some (clients, .ok (.flag (decide (done.getLast? = some .acquired))))
  reads : done.getLast? ≠ some .acquired → clients.step .readStamp =
    some (clients, .ok (.stamp (UInt64.ofNat (done.count .acquired + done.count .released))))
  waits : done.getLast? = some .acquired →
    clients.step .readStamp = some (clients, .error .spinning)

theorem stamp_of_does {lock : StampLock} {done : List Deed} (h : Does {} done lock) :
    lock.stamp = UInt64.ofNat (done.count .acquired + done.count .released) := by
  rw [← length_eq_count, h.stamp]
  exact UInt64.zero_add _

theorem tells_of_does {done : List Deed} (h : Does {} done clients.lock) : Tells clients done := by
  have hstamp := stamp_of_does h
  have hheld : clients.lock.isLocked = decide (done.getLast? = some .acquired) := by
    rw [Bool.eq_iff_iff, decide_eq_true_iff, isLocked_iff]
    exact odd_iff_of_does h
  refine ⟨?_, ?_, ?_, ?_⟩
  · rw [← hstamp]
    rfl
  · rw [← hheld]
    rfl
  · intro hfree
    rw [decide_eq_false hfree] at hheld
    simp only [Clients.step, readStamp, hheld, ← hstamp]
    rfl
  · intro hlast
    rw [decide_eq_true hlast] at hheld
    simp only [Clients.step, readStamp, hheld]
    rfl

theorem head_ne_released {lock : StampLock} {done : List Deed} (h : Does {} done lock) :
    done.head? ≠ some .released := by
  cases h with
  | nil => simp
  | @cons _ _ deed _ hnow _ =>
    rintro hhead
    cases hhead
    cases hnow

/-- After any calls of any clients on a new lock: the stamp counts what was acquired and what was
released, and is odd exactly while the last of these was to acquire, and so it is told to whoever looks;
the two take turns, beginning with an acquisition; if everybody has released only what they held, there are no two holders; every call is
granted what it asks for exactly at the right parity, and leaves the lock as it is where it is refused;
and a reader's stamp is validated exactly if nothing was acquired since, up to 2^63 acquisitions. -/
theorem history_of_calls [DecidableEq κ] (h : ({} : Clients).history calls = some (turns, clients)) :
    (clients.lock.stamp =
        UInt64.ofNat ((acts turns).count .acquired + (acts turns).count .released) ∧
      (clients.lock.stamp.toNat % 2 = 1 ↔ (acts turns).getLast? = some .acquired)) ∧
    Tells clients (acts turns) ∧
    ((acts turns).IsChain (· ≠ ·) ∧ (acts turns).head? ≠ some .released) ∧
    (Honest (signed turns) → ∀ client other : κ,
      Holds (signed turns) client → Holds (signed turns) other → client = other) ∧
    (∀ call, (clients.step call = none ↔
        ∃ guard, call = .dropGuard guard ∧ clients.guards[guard]? ≠ some true) ∧
      ∀ after reply, clients.step call = some (after, reply) →
        Judged clients.lock call reply after.lock) ∧
    ∀ early turn since stamp, turns = early ++ turn :: since →
      given turn.call turn.reply = some stamp → (acts since).count .acquired < 2 ^ 63 →
      ∃ flag, clients.step (.validate stamp) = some (clients, .ok (.flag flag)) ∧
        (flag = true ↔ .acquired ∉ acts since) := by
  have hdoes := does_of_history h
  have hsigned : Does {} ((signed turns).map Prod.snd) clients.lock := by
    rw [map_signed]
    exact hdoes
  refine ⟨⟨stamp_of_does hdoes, odd_iff_of_does hdoes⟩, tells_of_does hdoes,
    ⟨hdoes.isChain, head_ne_released hdoes⟩, ?_, ?_, ?_⟩
  · intro hhonest
    exact (hsigned.eq_of_holds hhonest).2
  · intro call
    refine ⟨step_eq_none_iff, ?_⟩
    intro after reply hstep
    exact (answered_of_step hstep).judged
  · rintro early turn since stamp rfl hgiven hfew
    obtain ⟨before, after, rest, hstep, hlater⟩ := exists_of_history h
    obtain ⟨rfl, hfree⟩ := given_of_step hstep hgiven
    refine ⟨clients.lock.validates after.lock.stamp, rfl, ?_⟩
    rw [validates_iff]
    exact (does_of_history hlater).stamp_eq_iff hfree hfew

/-- Two writers and a reader: the second writer comes too early once, and the reader too late. -/
def mingled : List (Nat × Call) :=
  [(0, .acquire), (1, .acquire), (0, .release), (2, .readStamp), (1, .openGuard)]

/-- The reader comes to a free lock. In the end the second writer holds it, as is told to whoever asks,
and the reader is told that it was written. -/
theorem history_mingled :
    let early : List (Turn Nat) :=
      [⟨0, .acquire, .ok .done⟩, ⟨1, .acquire, .error (.aborted .lockHeld)⟩, ⟨0, .release, .ok .done⟩]
    let since : List (Turn Nat) := [⟨1, .openGuard, .ok (.guard 0)⟩]
    let turns := early ++ ⟨2, .readStamp, .ok (.stamp 2)⟩ :: since
    let clients : Clients := ⟨⟨3⟩, #[true]⟩
    let free : Clients := ⟨⟨2⟩, #[]⟩
    ({} : Clients).history (mingled.take 3) = some (early, free) ∧
      free.step .readStamp = some (free, .ok (.stamp 2)) ∧
      ({} : Clients).history mingled = some (turns, clients) ∧ Honest (signed turns) ∧
      clients.lock.stamp = UInt64.ofNat (2 + 1) ∧
      clients.step .stamp = some (clients, .ok (.stamp 3)) ∧
      clients.step .isLocked = some (clients, .ok (.flag true)) ∧
      clients.step .readStamp = some (clients, .error .spinning) ∧
      (∀ client, Holds (signed turns) client → client = 1) ∧
      (acts since).count .acquired < 2 ^ 63 ∧
      clients.step (.validate 2) = some (clients, .ok (.flag false)) := by
  intro early since turns clients free
  have hearly : ({} : Clients).history (mingled.take 3) = some (early, free) := rfl
  have hread := (history_of_calls hearly).2.1.reads (by decide)
  have hhistory : ({} : Clients).history mingled = some (turns, clients) := rfl
  have hhonest : Honest (signed turns) := by
    unfold Honest
    decide
  have hfew : (acts since).count .acquired < 2 ^ 63 := by decide
  obtain ⟨⟨hstamp, -⟩, htells, -, hholders, -, hreader⟩ := history_of_calls hhistory
  have hsecond : Holds (signed turns) 1 := by decide
  obtain ⟨flag, hvalidate, hflag⟩ := hreader early _ since 2 rfl rfl hfew
  have hwritten : flag = false := by
    rw [Bool.eq_false_iff, Ne, hflag]
    decide
  rw [hwritten] at hvalidate
  exact ⟨hearly, hread, hhistory, hhonest, hstamp, htells.stamp, htells.isLocked, htells.waits rfl,
    fun client hclient => hholders hhonest client 1 hclient hsecond, hfew, hvalidate⟩

end SnapList.StampLock
