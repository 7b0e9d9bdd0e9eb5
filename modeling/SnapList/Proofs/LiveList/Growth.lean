/-
  How a list grows in the course of a run.

  A run is a row of HAPPENINGS: calls with visits at their pins, any of which may be refused, turned
  away or broken off, and somebody else who takes the lock or gives it back. Its chronicle says of
  each moment which buffers the list has had by then. It is kept by looking at the list only, and the
  list is held to it: what is in the ledger are the buffers that it had before, each once.

  Growth is geometric. Each capacity that a list had before is at most half of the one that followed
  it, unless that one is the limit. So together they are less than the present one, or less than twice
  the limit, and there are few of them.

  Main statements: what growth alone makes of capacities (`Grown.double`, `Grown.sum_lt`,
  `Grown.length_le`), and that every moment of every run is of this kind (`growth_of_run`).
-/
import SnapList.Proofs.LiveList.Turnover

namespace SnapList

theorem maxCapacity_lt : maxCapacity < 2 ^ 60 := by decide

/-- `past` are the capacities, in order, from which a list has grown to the last one. -/
inductive Grown : List Nat → Nat → Prop
  | first {capacity : Nat} (h : capacity ≤ maxCapacity) : Grown [] capacity
  | grow {past : List Nat} {capacity required : Nat} (h : Grown past capacity)
      (hlt : capacity < required) (hle : required ≤ maxCapacity) :
      Grown (past ++ [capacity]) (grownCapacity capacity required)

namespace Grown

variable {past early late : List Nat} {capacity c d : Nat}

theorem eq_nil_of_zero (h : Grown past 0) : past = [] := by
  generalize hzero : 0 = capacity at h
  cases h with
  | first => rfl
  | grow _ hlt _ =>
    have := lt_grownCapacity hlt
    omega

theorem ascending (h : Grown past capacity) : (past ++ [capacity]).Pairwise (· < ·) := by
  induction h with
  | first => exact List.pairwise_singleton _ _
  | @grow past capacity required _ hlt _ ih =>
    have hgrown := lt_grownCapacity hlt
    refine List.pairwise_append.2 ⟨ih, List.pairwise_singleton _ _, ?_⟩
    intro earlier hearlier last hlast
    obtain rfl := List.mem_singleton.1 hlast
    rcases List.mem_append.1 hearlier with hpast | hcapacity
    · have hless := (List.pairwise_append.1 ih).2.2 earlier hpast capacity List.mem_cons_self
      exact Nat.lt_trans hless hgrown
    · obtain rfl := List.mem_singleton.1 hcapacity
      exact hgrown

/-- Two neighbours in a list with one more at its end are the last two or have been there before. -/
theorem neighbours_concat {before : List Nat} {last new : Nat}
    (h : (before ++ [last]) ++ [new] = early ++ c :: d :: late) :
    c = last ∧ d = new ∧ late = [] ∨ ∃ others, before ++ [last] = early ++ c :: d :: others := by
  rcases List.eq_nil_or_concat late with rfl | ⟨others, final, rfl⟩
  · have hpair : (before ++ [last]) ++ [new] = (early ++ [c]) ++ [d] := by simpa using h
    obtain ⟨hfront, hd⟩ := List.append_inj' hpair rfl
    obtain ⟨-, hc⟩ := List.append_inj' hfront rfl
    exact Or.inl ⟨(List.singleton_inj.1 hc).symm, (List.singleton_inj.1 hd).symm, rfl⟩
  · have hpair : (before ++ [last]) ++ [new] = (early ++ c :: d :: others) ++ [final] := by
      simpa using h
    exact Or.inr ⟨others, (List.append_inj' hpair rfl).1⟩

/-- Each capacity is at least twice the one before, except for a last one that is the limit. -/
theorem double (h : Grown past capacity) (hsplit : past ++ [capacity] = early ++ c :: d :: late) :
    2 * c ≤ d ∨ late = [] ∧ d = maxCapacity := by
  induction h generalizing late with
  | first =>
    have hlength := congrArg List.length hsplit
    simp only [List.length_append, List.length_cons, List.length_nil] at hlength
    omega
  | @grow past capacity required hgrown hlt hle ih =>
    rcases neighbours_concat hsplit with ⟨rfl, rfl, rfl⟩ | ⟨others, hbefore⟩
    · rcases Nat.lt_or_ge (grownCapacity c required) maxCapacity with hshort | hfull
      · exact Or.inl (two_mul_le_grownCapacity hshort)
      · exact Or.inr ⟨rfl, Nat.le_antisymm (grownCapacity_le hle) hfull⟩
    · rcases ih hbefore with hdouble | ⟨rfl, rfl⟩
      · exact Or.inl hdouble
      · -- The limit was reached before this move, but there is no growth beyond it.
        have hback : past ++ [capacity] = (early ++ [c]) ++ [maxCapacity] := by simpa using hbefore
        have hcapacity := List.singleton_inj.1 (List.append_inj' hback rfl).2
        omega

/-- Short of the limit, all earlier capacities together are less than the last one. -/
theorem sum_lt (h : Grown past capacity) (hpos : 0 < capacity) (hlt : capacity < maxCapacity) :
    past.sum < capacity := by
  induction h with
  | first => exact hpos
  | @grow past capacity required hgrown hrequired hle ih =>
    have hdouble := two_mul_le_grownCapacity hlt
    rw [List.sum_append, List.sum_singleton]
    rcases Nat.eq_zero_or_pos capacity with rfl | hsome
    · rw [hgrown.eq_nil_of_zero]
      exact hpos
    · have := ih hsome (by omega)
      omega

theorem sum_lt_of_full (h : Grown past maxCapacity) : past.sum < 2 * maxCapacity := by
  generalize hfull : maxCapacity = capacity at h
  cases h with
  | first => exact hfull ▸ Nat.succ_pos _
  | @grow past capacity required hgrown hrequired hle =>
    rw [List.sum_append, List.sum_singleton]
    rcases Nat.eq_zero_or_pos capacity with rfl | hsome
    · rw [hgrown.eq_nil_of_zero, ← hfull]
      exact Nat.succ_pos _
    · have := hgrown.sum_lt hsome (by omega)
      omega

/-- Short of the limit a list has grown by a factor of two to the power of its moves, and maybe from
one slot on only. -/
theorem two_pow_le (h : Grown past capacity) (hlt : capacity < maxCapacity) (hpast : past ≠ []) :
    2 ^ past.length ≤ 2 * capacity := by
  induction h with
  | first => exact absurd rfl hpast
  | @grow past capacity required hgrown hrequired hle ih =>
    have hdouble := two_mul_le_grownCapacity hlt
    have hmore := lt_grownCapacity hrequired
    rw [List.length_append, List.length_singleton, Nat.pow_succ]
    rcases Decidable.em (past = []) with rfl | hsome
    · rw [List.length_nil]
      omega
    · have := ih (by omega) hsome
      omega

theorem length_le (h : Grown past capacity) : past.length ≤ 61 := by
  cases h with
  | first => exact Nat.zero_le _
  | @grow past capacity required hgrown hrequired hle =>
    have hshort : capacity < maxCapacity := Nat.lt_of_lt_of_le hrequired hle
    rw [List.length_append, List.length_singleton]
    rcases Decidable.em (past = []) with rfl | hsome
    · decide
    · have hpower : 2 ^ past.length < 2 ^ 61 := calc
        2 ^ past.length ≤ 2 * capacity := hgrown.two_pow_le hshort hsome
        _ < 2 * 2 ^ 60 := by have := maxCapacity_lt; omega
        _ = 2 ^ 61 := by decide
      exact (Nat.pow_lt_pow_iff_right (by decide)).1 hpower

end Grown

namespace LiveList

variable {list now next : LiveList} {had : List Buffer}

/-! ## Runs -/

inductive Happening where
  /-- A call, with a visit at each pin that it comes to. -/
  | call (mutation : Mutation) (visits : Nat → Visit)
  /-- Somebody else takes the lock, if it is free. -/
  | seize
  /-- Somebody else gives the lock back, if it is held. -/
  | yield

/-- The list under another lock, unless to change the lock was a fault. -/
def withLock (list : LiveList) (lock : Except Fault StampLock) : LiveList :=
  match lock with
  | .ok lock => { list with lock }
  | .error _ => list

/-- The list at each pin in the middle of what happens. -/
def Happening.pauses (list : LiveList) : Happening → List LiveList
  | call mutation visits => (mutation.call (noting visits) list).accounts
  | _ => []

def Happening.after (list : LiveList) : Happening → LiveList
  | call mutation visits => (mutation.call (noting visits) list).list
  | seize => list.withLock list.lock.acquire
  | yield => list.withLock list.lock.release

/-- The moments of a run that begins with `list`. -/
def moments (list : LiveList) : List Happening → List LiveList
  | [] => [list]
  | happening :: rest => list :: happening.pauses list ++ moments (happening.after list) rest

/-- The buffers that a list has had, when it is looked at once more. -/
def note (had : List Buffer) (list : LiveList) : List Buffer :=
  if had.getLast? = some list.holdings.current then had else had ++ [list.holdings.current]

/-- Each moment with the buffers that the list has had by then. -/
def chronicle (had : List Buffer) : List LiveList → List (List Buffer × LiveList)
  | [] => []
  | now :: rest => (note had now, now) :: chronicle (note had now) rest

theorem holdings_withLock (list : LiveList) (lock : Except Fault StampLock) :
    (list.withLock lock).holdings = list.holdings := by
  cases lock <;> rfl

theorem Sound.withLock (hs : list.Sound) (lock : Except Fault StampLock) :
    (list.withLock lock).Sound := by
  cases lock with
  | ok lock => exact hs.setLock lock
  | error fault => exact hs

theorem Sound.happening_follows (hs : list.Sound) (happening : Happening) :
    (list :: happening.pauses list ++ [happening.after list]).IsChain Follows := by
  cases happening with
  | call mutation visits => exact hs.moments_follow visits mutation
  | seize => exact List.isChain_pair.2 (follows_of_eq (holdings_withLock _ _))
  | yield => exact List.isChain_pair.2 (follows_of_eq (holdings_withLock _ _))

theorem Sound.happening (hs : list.Sound) (happening : Happening) :
    (∀ seen ∈ happening.pauses list, seen.Sound) ∧ (happening.after list).Sound := by
  cases happening with
  | call mutation visits =>
    have hmoments : ∀ seen ∈ mutation.moments visits list, seen.Sound := fun _ => hs.of_mem_moments
    exact ⟨fun seen hseen => hmoments seen (List.mem_append_left _ hseen),
      hmoments _ (List.mem_append_right _ List.mem_cons_self)⟩
  | seize => exact ⟨fun _ hseen => absurd hseen List.not_mem_nil, hs.withLock _⟩
  | yield => exact ⟨fun _ hseen => absurd hseen List.not_mem_nil, hs.withLock _⟩

theorem exists_moments_eq (list : LiveList) (happenings : List Happening) :
    ∃ rest, moments list happenings = list :: rest := by
  cases happenings with
  | nil => exact ⟨[], rfl⟩
  | cons happening rest => exact ⟨_, rfl⟩

/-- From one moment of a run to the next there is one move at most. -/
theorem Sound.run_follows (hs : list.Sound) (happenings : List Happening) :
    (LiveList.moments list happenings).IsChain Follows := by
  induction happenings generalizing list with
  | nil => exact List.isChain_singleton _
  | cons happening happenings ih =>
    obtain ⟨rest, hrest⟩ := exists_moments_eq (happening.after list) happenings
    have hlater := ih (hs.happening happening).2
    unfold LiveList.moments
    rw [hrest] at hlater ⊢
    exact List.isChain_split.2 ⟨hs.happening_follows happening, hlater⟩

theorem Sound.moments (hs : list.Sound) (happenings : List Happening) :
    ∀ seen ∈ moments list happenings, seen.Sound := by
  induction happenings generalizing list with
  | nil =>
    intro seen hseen
    obtain rfl := List.mem_singleton.1 hseen
    exact hs
  | cons happening rest ih =>
    obtain ⟨hpauses, hafter⟩ := hs.happening happening
    intro seen hseen
    rcases List.mem_append.1 hseen with hfront | hlater
    · rcases List.mem_cons.1 hfront with rfl | hpause
      · exact hs
      · exact hpauses seen hpause
    · exact ih hafter seen hlater

/-! ## The chronicle of a run -/

/-- The list has had the buffers that it holds, they were numbered as they came, and it has grown
from one to the next. -/
structure Recorded (had : List Buffer) (now : LiveList) : Prop where
  had_eq : had = now.holdings.retired ++ [now.holdings.current]
  serials : had.map Buffer.serial = List.range had.length
  grown : Grown (now.holdings.retired.map Buffer.capacity) now.holdings.current.capacity

theorem recorded_create {options : Options} (h : create options = .ok list) :
    Recorded (note [] list) list := by
  have hlimit := (sound_create h).capacity_le
  obtain ⟨-, rfl⟩ := create_eq_ok_iff.1 h
  exact ⟨rfl, rfl, .first hlimit⟩

theorem Recorded.last_eq (h : Recorded had now) : had.getLast? = some now.holdings.current := by
  rw [h.had_eq]
  exact List.getLast?_concat

theorem Recorded.serial_eq (h : Recorded had now) :
    now.holdings.current.serial = now.holdings.retired.length := by
  have hserials := h.serials
  rw [h.had_eq, List.map_append, List.length_append, List.length_singleton, List.range_succ,
    List.map_singleton] at hserials
  exact List.singleton_inj.1 (List.append_inj' hserials rfl).2

theorem Recorded.keep (h : Recorded had now) (hkept : next.holdings = now.holdings) :
    Recorded (note had next) next := by
  have hnote : note had next = had := by
    unfold note
    rw [hkept, if_pos h.last_eq]
  refine ⟨?_, ?_, ?_⟩
  · rw [hnote, hkept]
    exact h.had_eq
  · rw [hnote]
    exact h.serials
  · rw [hkept]
    exact h.grown

theorem Recorded.move (h : Recorded had now) (hs : next.Sound) {required : Nat}
    (hlt : now.holdings.current.capacity < required)
    (hmoved : next.holdings = now.holdings.moved required) : Recorded (note had next) next := by
  -- The new buffer has a serial number of its own, so it is noted.
  have hother : now.holdings.current ≠ next.holdings.current := by
    intro hsame
    rw [hmoved] at hsame
    exact Nat.succ_ne_self _ (congrArg Buffer.serial hsame).symm
  have hnote : note had next = had ++ [next.holdings.current] := by
    unfold note
    rw [h.last_eq, if_neg (fun hsame => hother (Option.some.inj hsame))]
  have hserial : next.holdings.current.serial = had.length := by
    rw [hmoved, h.had_eq, List.length_append, ← h.serial_eq]
    rfl
  refine ⟨?_, ?_, ?_⟩
  · rw [hnote, hmoved, h.had_eq]
    rfl
  · rw [hnote, List.map_append, List.length_append, List.length_singleton, List.range_succ,
      h.serials, List.map_singleton, hserial]
  · have hlimit : next.holdings.current.capacity ≤ maxCapacity := hs.capacity_le
    rw [hmoved] at hlimit ⊢
    have hwithin : required ≤ maxCapacity := Nat.le_trans (le_grownCapacity _ _) hlimit
    have hgrown := h.grown.grow hlt hwithin
    rw [← List.map_singleton, ← List.map_append] at hgrown
    exact hgrown

/-- What was recorded stays so from one moment to the next. -/
theorem Recorded.note (h : Recorded had now) (hf : Follows now next) (hs : next.Sound) :
    Recorded (note had next) next := by
  unfold Follows at hf
  generalize hheld : next.holdings = held at hf
  cases hf with
  | kept => exact h.keep hheld
  | moved hlt => exact h.move hs hlt hheld

theorem Recorded.chronicle (h : Recorded had list) {rest : List LiveList}
    (hchain : (list :: rest).IsChain Follows) (hsound : ∀ seen ∈ rest, seen.Sound)
    {later : List Buffer} (hmem : (later, now) ∈ chronicle had rest) : Recorded later now := by
  induction rest generalizing list had with
  | nil => cases hmem
  | cons next rest ih =>
    obtain ⟨hfollows, hrest⟩ := List.isChain_cons_cons.1 hchain
    have hnext := h.note hfollows (hsound next List.mem_cons_self)
    rcases List.mem_cons.1 hmem with heq | hlater
    · cases heq
      exact hnext
    · exact ih hnext hrest (fun seen hseen => hsound seen (List.mem_cons_of_mem _ hseen)) hlater

theorem mem_moments {moments : List LiveList} {before : List Buffer}
    (h : (had, now) ∈ LiveList.chronicle before moments) : now ∈ moments := by
  induction moments generalizing before with
  | nil => cases h
  | cons next rest ih =>
    rcases List.mem_cons.1 h with heq | hlater
    · cases heq
      exact List.mem_cons_self
    · exact List.mem_cons_of_mem _ (ih hlater)

/-- At every moment of a run the list has grown from one buffer that it had to the next. -/
theorem recorded_of_run {options : Options} (h : create options = .ok list)
    {happenings : List Happening}
    (hmem : (had, now) ∈ LiveList.chronicle [] (moments list happenings)) : Recorded had now := by
  have hsound := (sound_create h).moments happenings
  have hchain := (sound_create h).run_follows happenings
  obtain ⟨rest, hrest⟩ := exists_moments_eq list happenings
  rw [hrest] at hmem hsound hchain
  rcases List.mem_cons.1 hmem with heq | hlater
  · cases heq
    exact recorded_create h
  · exact (recorded_create h).chronicle hchain
      (fun seen hseen => hsound seen (List.mem_cons_of_mem _ hseen)) hlater

theorem Recorded.capacities (h : Recorded had now) :
    had.map Buffer.capacity =
      now.holdings.retired.map Buffer.capacity ++ [now.holdings.current.capacity] := by
  rw [h.had_eq, List.map_append, List.map_singleton]

theorem Recorded.nodup (h : Recorded had now) : (had.map Buffer.serial).Nodup := by
  rw [h.serials]
  exact List.nodup_range

/-- At every moment of every run, also at the pins of its calls: the elements have room within the
limit; what the ledger holds are the buffers that the list had before, each once, and never the
present one; their capacities ascend, double up to the limit, and add up to less than the present one
or, at the limit, than twice as much; and there are few of them. -/
theorem growth_of_run {options : Options} (hcreate : create options = .ok list)
    (happenings : List Happening)
    (hmoment : (had, now) ∈ LiveList.chronicle [] (moments list happenings)) :
    let retired := now.holdings.retired.map Buffer.capacity
    (now.len ≤ now.capacity ∧ now.capacity ≤ maxCapacity) ∧
      had = now.holdings.retired ++ [⟨now.serial, now.capacity⟩] ∧
      (had.map Buffer.serial).Nodup ∧
      (had.map Buffer.capacity).Pairwise (· < ·) ∧
      (∀ early c d late, had.map Buffer.capacity = early ++ c :: d :: late →
        2 * c ≤ d ∨ late = [] ∧ d = maxCapacity) ∧
      (0 < now.capacity → now.capacity < maxCapacity → retired.sum < now.capacity) ∧
      (now.capacity = maxCapacity → retired.sum < 2 * now.capacity) ∧
      retired.length ≤ 61 := by
  intro retired
  have hrecorded := recorded_of_run hcreate hmoment
  have hgrown : Grown retired now.capacity := hrecorded.grown
  have hcapacities : had.map Buffer.capacity = retired ++ [now.capacity] := hrecorded.capacities
  have hsound : now.Sound := (sound_create hcreate).moments happenings now (mem_moments hmoment)
  refine ⟨⟨hsound.len_le, hsound.capacity_le⟩, hrecorded.had_eq, hrecorded.nodup, ?_, ?_, ?_, ?_,
    hgrown.length_le⟩
  · rw [hcapacities]
    exact hgrown.ascending
  · intro early c d late hsplit
    exact hgrown.double (hcapacities.symm.trans hsplit)
  · intro hpos hlt
    exact hgrown.sum_lt hpos hlt
  · intro hfull
    rw [hfull] at hgrown ⊢
    exact hgrown.sum_lt_of_full

/-- A list without any room. -/
def bare : Options := { initialCapacity := 0, noEntry := -1 }

/-- Somebody is turned away, a push is broken off after it has moved the list, and an insertion is
refused. -/
def crowded : List Happening :=
  [.call (.push 5) fun _ => {}, .seize, .call (.push 6) fun _ => curious, .yield,
    .call (.push 6) fun pin => { fails := pin == 2 }, .call (.resize 5) fun _ => curious,
    .call (.insert 9 1) fun _ => {}]

/-- At the second pin of the `resize` the list has one element and its fourth buffer. -/
theorem growth_crowded :
    let list : LiveList := { slots := #[], len := 0, noEntry := -1 }
    let now : LiveList :=
      { slots := #[5, -1, -1, -1, -1], len := 1, noEntry := -1, lock := ⟨7⟩, serial := 3
        retired := ⟨[(0, #[]), (1, #[5]), (2, #[5, -1])]⟩ }
    let had : List Buffer := [⟨0, 0⟩, ⟨1, 1⟩, ⟨2, 2⟩, ⟨3, 5⟩]
    create bare = .ok list ∧ (had, now) ∈ LiveList.chronicle [] (moments list crowded) ∧
      had = now.holdings.retired ++ [⟨3, 5⟩] ∧ (had.map Buffer.serial).Nodup ∧
      (now.holdings.retired.map Buffer.capacity).sum < 5 := by
  intro list now had
  have hcreate : create bare = .ok list := rfl
  have hmoment : (LiveList.chronicle [] (moments list crowded))[11]? = some (had, now) := by cbv
  have hmem := List.mem_of_getElem? hmoment
  obtain ⟨-, hhad, hnodup, -, -, hsum, -, -⟩ := growth_of_run hcreate crowded hmem
  exact ⟨hcreate, hmem, hhad, hnodup, hsum (by decide) (by decide)⟩

end LiveList

end SnapList
