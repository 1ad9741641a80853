import BackEndFacility.LockFreeStack

/-!
# What a call of the stack waits for

A call is admitted to its group only while the other group is empty and its own
has room.  Inside, no access waits: when a thread goes on alone each of its
compare-and-swaps succeeds at the second attempt.  So a call can always return,
once the threads that are inside have left.
-/

namespace BackEndFacility
namespace LockFreeStack

universe u

variable {Value : Type u}

def State.occupied (state : State Value) : ℕ := state.mask / 2 ^ 16 + state.mask % 2 ^ 16

def Pc.calls : Pc Value → Option Side
  | .pushReadMask _ => some .writer
  | .pushEnter _ _ => some .writer
  | .popReadMask => some .reader
  | .popEnter _ => some .reader
  | _ => none

/-- The mask admits one more thread to the group. -/
def State.Open (state : State Value) : Side → Prop
  | .writer => state.mask % 2 ^ 16 = 0 ∧ state.mask / 2 ^ 16 < 0xff
  | .reader => state.mask / 2 ^ 16 = 0 ∧ state.mask % 2 ^ 16 < 0xff

/-- A dead thread is inside the other group, or the dead fill this one. -/
def State.Shut (state : State Value) (dead : ℕ → Prop) (side : Side) : Prop :=
  (∃ other group, dead other ∧ (state.callers other).side = some group ∧ group ≠ side) ∨
    ∃ group : Finset ℕ, 0xff ≤ group.card ∧
      ∀ other ∈ group, dead other ∧ (state.callers other).side = some side

/-- The steps to the end of a call that goes on alone and finds its group open. -/
def Pc.rank (state : State Value) : Pc Value → ℕ
  | .idle => 0
  | .pushReadMask _ => 8
  | .pushEnter _ oldMask => if state.mask = oldMask then 7 else 9
  | .pushReadTop _ => 6
  | .pushCasTop _ oldTop => if state.top = oldTop then 5 else 7
  | .pushStore _ _ => 4
  | .pushAssert _ => 3
  | .pushReadLeave _ => 2
  | .pushLeave _ oldMask => if state.mask = oldMask then 1 else 3
  | .popReadMask => 9
  | .popEnter oldMask => if state.mask = oldMask then 8 else 10
  | .popReadTop => 7
  | .popCasTop oldTop => if state.top = oldTop then 6 else 8
  | .popLoad _ => 5
  | .popErase _ _ => 4
  | .popAssert _ => 3
  | .popReadLeave _ => 2
  | .popLeave _ oldMask => if state.mask = oldMask then 1 else 3
  | .aborted => 0

theorem rank_le (state : State Value) (pc : Pc Value) :
    pc.rank state ≤ 10 ∧ (pc.side ≠ none → pc.rank state ≤ 8) := by
  cases pc <;> simp [Pc.rank, Pc.side] <;> split <;> omega

theorem calls_of_side {pc : Pc Value} (hside : pc.side ≠ none) : pc.calls = none := by
  cases pc <;> simp [Pc.side] at hside <;> rfl

theorem rank_goto (state : State Value) (thread : ℕ) (pc : Pc Value) :
    ((state.goto thread pc).callers thread).rank (state.goto thread pc) = pc.rank state := by
  unfold State.goto
  simp only [Function.update_self]
  cases pc <;> rfl

namespace GroupLocked

variable {state next : State Value} {inside after : Side → Finset ℕ} {thread : ℕ}

theorem occupied_eq (hlock : GroupLocked state inside) :
    state.occupied = (inside .writer).card + (inside .reader).card := by
  have hwriters := hlock.limit .writer
  have hreaders := hlock.limit .reader
  unfold State.occupied
  rw [hlock.mask, Nat.shiftLeft_eq]
  omega

theorem open_iff (hlock : GroupLocked state inside) (side : Side) :
    state.Open side ↔ (∀ group, group ≠ side → inside group = ∅) ∧ (inside side).card < 0xff := by
  have hwriters := hlock.limit .writer
  have hreaders := hlock.limit .reader
  have hmask := hlock.mask
  rw [Nat.shiftLeft_eq] at hmask
  cases side with
  | writer =>
      constructor
      · rintro ⟨hreader, hroom⟩
        refine ⟨fun group hne => ?_, by omega⟩
        cases group with
        | writer => exact absurd rfl hne
        | reader =>
            rw [← Finset.card_eq_zero]
            omega
      · rintro ⟨hempty, hroom⟩
        rw [hempty .reader (by decide), Finset.card_empty] at hmask
        exact ⟨by omega, by omega⟩
  | reader =>
      constructor
      · rintro ⟨hwriter, hroom⟩
        refine ⟨fun group hne => ?_, by omega⟩
        cases group with
        | writer =>
            rw [← Finset.card_eq_zero]
            omega
        | reader => exact absurd rfl hne
      · rintro ⟨hempty, hroom⟩
        rw [hempty .writer (by decide), Finset.card_empty] at hmask
        exact ⟨by omega, by omega⟩

theorem exists_alive (hlock : GroupLocked state inside) {dead : ℕ → Prop} {side : Side}
    (hclosed : ¬ state.Open side) (hshut : ¬ state.Shut dead side) :
    ∃ other, ¬ dead other ∧ (state.callers other).side ≠ none := by
  by_contra hnobody
  simp only [not_exists, not_and, not_not] at hnobody
  have hdead : ∀ {group other}, other ∈ inside group →
      dead other ∧ (state.callers other).side = some group := by
    intro group other hmem
    have hside := (hlock.members other group).mp hmem
    refine ⟨?_, hside⟩
    by_contra halive
    rw [hnobody other halive] at hside
    cases hside
  rw [hlock.open_iff, not_and_or] at hclosed
  rcases hclosed with hoccupied | hfull
  · simp only [not_forall, exists_prop] at hoccupied
    obtain ⟨group, hne, hoccupied⟩ := hoccupied
    obtain ⟨other, hmem⟩ := Finset.nonempty_iff_ne_empty.mpr hoccupied
    exact hshut (.inl ⟨other, group, (hdead hmem).1, (hdead hmem).2, hne⟩)
  · exact hshut (.inr ⟨inside side, Nat.le_of_not_lt hfull, fun other hmem => hdead hmem⟩)

theorem closed_of_shut (hlock : GroupLocked state inside) {dead : ℕ → Prop} {side : Side}
    (hshut : state.Shut dead side) : ¬ state.Open side := by
  rw [hlock.open_iff]
  rintro ⟨hempty, hroom⟩
  rcases hshut with ⟨other, group, -, hside, hne⟩ | ⟨group, hfull, hgroup⟩
  · have hmem := (hlock.members other group).mpr hside
    rw [hempty group hne] at hmem
    simp at hmem
  · have hsub : group ⊆ inside side := fun other hmem =>
      (hlock.members other side).mpr (hgroup other hmem).2
    have hcard := Finset.card_le_card hsub
    omega

theorem occupied_lt (hlock : GroupLocked state inside) (hafter : GroupLocked next after)
    (hside : (state.callers thread).side ≠ none)
    (hcallers : next.callers = Function.update state.callers thread .idle) :
    next.occupied + 1 = state.occupied := by
  have herase : ∀ side, after side = (inside side).erase thread := by
    intro side
    ext other
    rw [hafter.members, Finset.mem_erase, hlock.members, hcallers]
    by_cases heq : other = thread
    · subst heq
      simp [Pc.side]
    · rw [Function.update_of_ne heq]
      simp [heq]
  rw [hlock.occupied_eq, hafter.occupied_eq, herase, herase]
  obtain ⟨side, hthread⟩ := Option.ne_none_iff_exists'.mp hside
  have hmem := (hlock.members thread side).mpr hthread
  cases side with
  | writer =>
      have hreader : thread ∉ inside .reader := by
        rw [hlock.members, hthread]
        simp
      rw [Finset.erase_eq_of_notMem hreader]
      have hcard := Finset.card_erase_add_one hmem
      omega
  | reader =>
      have hwriter : thread ∉ inside .writer := by
        rw [hlock.members, hthread]
        simp
      rw [Finset.erase_eq_of_notMem hwriter]
      have hcard := Finset.card_erase_add_one hmem
      omega

end GroupLocked

/-! ## Steps -/

section Steps

variable {maxSz : ℕ} {corrupt : Value} {state : State Value} {config : StackConfig Value}
  {thread : ℕ}

/-- A thread that is inside, or that finds its group open, gets on by itself, and stays
inside up to the end of its call. -/
theorem advance_lowers (corrupt : Value) (hsim : state.Simulates maxSz config)
    (hbusy : state.callers thread ≠ .idle)
    (hopen : ∀ side, (state.callers thread).calls = some side → state.Open side) :
    ∃ next, state.advance maxSz corrupt thread = some next ∧
      (next.callers thread).rank next < (state.callers thread).rank state ∧
      (∀ other, other ≠ thread → next.callers other = state.callers other) ∧
      (next.callers thread = .idle ∨ (next.callers thread).side ≠ none ∨
        ∃ side, (state.callers thread).calls = some side ∧
          (next.callers thread).calls = some side ∧ next.mask = state.mask) := by
  obtain ⟨inside, hlock⟩ := hsim.lock
  -- most steps move the thread alone
  have hgoto : ∀ pc : Pc Value, pc.rank state < (state.callers thread).rank state →
      (pc = .idle ∨ pc.side ≠ none ∨
        ∃ side, (state.callers thread).calls = some side ∧ pc.calls = some side) →
      ∃ next, some (state.goto thread pc) = some next ∧
        (next.callers thread).rank next < (state.callers thread).rank state ∧
        (∀ other, other ≠ thread → next.callers other = state.callers other) ∧
        (next.callers thread = .idle ∨ (next.callers thread).side ≠ none ∨
          ∃ side, (state.callers thread).calls = some side ∧
            (next.callers thread).calls = some side ∧ next.mask = state.mask) := by
    intro pc hlower hwhere
    refine ⟨_, rfl, ?_, fun other hne => Function.update_of_ne hne _ _, ?_⟩
    · rw [rank_goto]
      exact hlower
    · simpa [State.goto] using hwhere
  have hphase := hsim.phases thread
  unfold State.advance
  cases hpc : state.callers thread with
  | idle => exact absurd hpc hbusy
  | aborted =>
      rw [hpc] at hphase
      exact hphase.elim
  | pushReadMask val =>
      obtain ⟨hempty, hroom⟩ := (hlock.open_iff .writer).mp (hopen _ (by rw [hpc]; rfl))
      have hmask : state.mask = (inside .writer).card <<< 16 := by
        rw [hlock.mask, hempty .reader (by decide), Finset.card_empty, Nat.add_zero]
      rw [hpc] at hgoto
      simp only [hlock.and_readMask, Nat.shiftLeft_shiftRight, maxConcurrntWrite, ge_iff_le]
      rw [if_neg (Nat.not_le_of_lt hroom)]
      refine hgoto _ ?_ (.inr (.inr ⟨_, rfl, rfl⟩))
      simp [Pc.rank, hmask]
  | pushEnter val oldMask =>
      rw [hpc] at hgoto
      simp only
      split
      next hold =>
          refine ⟨_, rfl, ?_, fun other hne => Function.update_of_ne hne _ _, ?_⟩
          · rw [rank_goto]
            simp [Pc.rank, hold]
          · simp [State.goto, Pc.side]
      next hold =>
          refine hgoto _ ?_ (.inr (.inr ⟨_, rfl, rfl⟩))
          simp [Pc.rank, hold]
  | pushReadTop val =>
      rw [hpc] at hgoto
      simp only
      split
      · exact hgoto _ (by simp [Pc.rank]) (by simp [Pc.side])
      · exact hgoto _ (by simp [Pc.rank]) (by simp [Pc.side])
  | pushCasTop val oldTop =>
      rw [hpc] at hgoto
      simp only
      split
      next htop =>
          refine ⟨_, rfl, ?_, fun other hne => Function.update_of_ne hne _ _, ?_⟩
          · rw [rank_goto]
            simp [Pc.rank, htop]
          · simp [State.goto, Pc.side]
      next htop => exact hgoto _ (by simp [Pc.rank, htop]) (by simp [Pc.side])
  | pushStore val oldTop =>
      refine ⟨_, rfl, ?_, fun other hne => Function.update_of_ne hne _ _, ?_⟩
      · rw [rank_goto]
        simp [Pc.rank]
      · simp [State.goto, Pc.side]
  | pushAssert ret =>
      have hempty : inside .reader = ∅ := hlock.writer_only (by rw [hpc]; rfl)
      rw [hpc] at hgoto
      simp only [hlock.and_writeMask, hempty, Finset.card_empty, if_true]
      exact hgoto _ (by simp [Pc.rank]) (by simp [Pc.side])
  | pushReadLeave ret =>
      rw [hpc] at hgoto
      exact hgoto _ (by simp [Pc.rank]) (by simp [Pc.side])
  | pushLeave ret oldMask =>
      rw [hpc] at hgoto
      simp only
      split
      next hmask =>
          refine ⟨_, rfl, ?_, fun other hne => Function.update_of_ne hne _ _, ?_⟩
          · rw [rank_goto]
            simp [Pc.rank, hmask]
          · simp [State.goto]
      next hmask => exact hgoto _ (by simp [Pc.rank, hmask]) (by simp [Pc.side])
  | popReadMask =>
      obtain ⟨hempty, hroom⟩ := (hlock.open_iff .reader).mp (hopen _ (by rw [hpc]; rfl))
      have hmask : state.mask = (inside .reader).card := by
        rw [hlock.mask, hempty .writer (by decide), Finset.card_empty, Nat.zero_shiftLeft,
          Nat.zero_add]
      rw [hpc] at hgoto
      simp only [hlock.and_writeMask, maxConcurrentRead, ge_iff_le]
      rw [if_neg (Nat.not_le_of_lt hroom)]
      refine hgoto _ ?_ (.inr (.inr ⟨_, rfl, rfl⟩))
      simp [Pc.rank, hmask]
  | popEnter oldMask =>
      rw [hpc] at hgoto
      simp only
      split
      next hold =>
          refine ⟨_, rfl, ?_, fun other hne => Function.update_of_ne hne _ _, ?_⟩
          · rw [rank_goto]
            simp [Pc.rank, hold]
          · simp [State.goto, Pc.side]
      next hold =>
          refine hgoto _ ?_ (.inr (.inr ⟨_, rfl, rfl⟩))
          simp [Pc.rank, hold]
  | popReadTop =>
      rw [hpc] at hgoto
      simp only
      split
      · exact hgoto _ (by simp [Pc.rank]) (by simp [Pc.side])
      · exact hgoto _ (by simp [Pc.rank]) (by simp [Pc.side])
  | popCasTop oldTop =>
      rw [hpc] at hgoto
      simp only
      split
      next htop =>
          refine ⟨_, rfl, ?_, fun other hne => Function.update_of_ne hne _ _, ?_⟩
          · rw [rank_goto]
            simp [Pc.rank, htop]
          · simp [State.goto, Pc.side]
      next htop => exact hgoto _ (by simp [Pc.rank, htop]) (by simp [Pc.side])
  | popLoad oldTop =>
      rw [hpc] at hgoto
      exact hgoto _ (by simp [Pc.rank]) (by simp [Pc.side])
  | popErase oldTop ret =>
      refine ⟨_, rfl, ?_, fun other hne => Function.update_of_ne hne _ _, ?_⟩
      · rw [rank_goto]
        simp [Pc.rank]
      · simp [State.goto, Pc.side]
  | popAssert ret =>
      have hempty : inside .writer = ∅ := hlock.reader_only (by rw [hpc]; rfl)
      rw [hpc] at hgoto
      simp only [hlock.and_readMask, hempty, Finset.card_empty, Nat.zero_shiftLeft, if_true]
      exact hgoto _ (by simp [Pc.rank]) (by simp [Pc.side])
  | popReadLeave ret =>
      rw [hpc] at hgoto
      exact hgoto _ (by simp [Pc.rank]) (by simp [Pc.side])
  | popLeave ret oldMask =>
      rw [hpc] at hgoto
      simp only
      split
      next hmask =>
          refine ⟨_, rfl, ?_, fun other hne => Function.update_of_ne hne _ _, ?_⟩
          · rw [rank_goto]
            simp [Pc.rank, hmask]
          · simp [State.goto]
      next hmask => exact hgoto _ (by simp [Pc.rank, hmask]) (by simp [Pc.side])

theorem advance_callers {next : State Value}
    (hstep : state.advance maxSz corrupt thread = some next) :
    ∃ pc, next.callers = Function.update state.callers thread pc := by
  unfold State.advance at hstep
  cases hpc : state.callers thread with
  | idle => simp [hpc] at hstep
  | aborted => simp [hpc] at hstep
  | _ =>
      simp only [hpc] at hstep
      repeat' split at hstep
      all_goals
        cases hstep
        exact ⟨_, rfl⟩

theorem leaves_alone (corrupt : Value) (memory : ℕ → Value) (hsim : state.Simulates maxSz config)
    (hside : (state.callers thread).side ≠ none) :
    ∃ schedule final, (∀ action ∈ schedule, action = .advance thread) ∧
      (machine maxSz corrupt memory).runFrom state schedule = some final ∧
      (∃ after, final.Simulates maxSz after) ∧
      final.callers = Function.update state.callers thread .idle ∧ schedule.length ≤ 8 := by
  let Kept (middle : State Value) : Prop := (∃ config, middle.Simulates maxSz config) ∧
    (∀ other, other ≠ thread → middle.callers other = state.callers other) ∧
      (middle.callers thread = .idle ∨ (middle.callers thread).side ≠ none)
  have hprogress : ∀ middle, Kept middle → ¬ middle.callers thread = .idle →
      ∃ schedule next,
        (machine maxSz corrupt memory).Admits (fun _ action => action = .advance thread) middle
          schedule ∧
        (machine maxSz corrupt memory).runFrom middle schedule = some next ∧ Kept next ∧
          (next.callers thread).rank next < (middle.callers thread).rank middle ∧
            schedule.length + (next.callers thread).rank next ≤
              (middle.callers thread).rank middle := by
    rintro middle ⟨⟨config, hmiddle⟩, hothers, hwhere⟩ hbusy
    have hinside := hwhere.resolve_left hbusy
    have hcalls := calls_of_side hinside
    obtain ⟨next, hstep, hlower, hsame, hnext⟩ := advance_lowers corrupt hmiddle
      hbusy (by simp [hcalls])
    obtain ⟨after, -, hafter⟩ := hmiddle.advance hstep
    refine ⟨[.advance thread], next, ⟨rfl, fun _ _ => trivial⟩, ?_, ⟨⟨after, hafter⟩, ?_, ?_⟩,
      hlower, ?_⟩
    · simp only [Machine.runFrom, machine, State.step, hstep]
    · intro other hne
      rw [hsame other hne, hothers other hne]
    · rcases hnext with hidle | hstays | ⟨side, hcalled, -⟩
      · exact .inl hidle
      · exact .inr hstays
      · rw [hcalls] at hcalled
        cases hcalled
    · rw [List.length_singleton]
      omega
  obtain ⟨schedule, final, hadmits, hrun, ⟨hfinal, hothers, -⟩, hidle, hlength⟩ :=
    Machine.exists_runFrom Kept (fun final => final.callers thread = .idle)
      (fun state => (state.callers thread).rank state) hprogress
      ⟨⟨config, hsim⟩, fun _ _ => rfl, .inr hside⟩
  refine ⟨schedule, final, hadmits.forall_mem hrun, hrun, hfinal, ?_,
    hlength.trans ((rank_le state _).2 hside)⟩
  funext other
  by_cases heq : other = thread
  · subst heq
    rw [Function.update_self, hidle]
  · rw [Function.update_of_ne heq, hothers other heq]

end Steps

/-! ## Every call can return -/

section Returns

variable {maxSz : ℕ} {corrupt : Value} {state : State Value} {thread : ℕ}

theorem State.Shut.congr {next : State Value} {dead : ℕ → Prop} {side : Side}
    (hshut : state.Shut dead side)
    (hsame : ∀ other, dead other → (state.callers other).side ≠ none →
      next.callers other = state.callers other) : next.Shut dead side := by
  rcases hshut with ⟨other, group, hdead, hside, hne⟩ | ⟨group, hfull, hgroup⟩
  · refine .inl ⟨other, group, hdead, ?_, hne⟩
    rw [hsame other hdead (by simp [hside]), hside]
  · refine .inr ⟨group, hfull, fun other hmem => ?_⟩
    obtain ⟨hdead, hside⟩ := hgroup other hmem
    rw [hsame other hdead (by simp [hside]), hside]
    exact ⟨hdead, rfl⟩

theorem calls_or_side {config : StackConfig Value} (hsim : state.Simulates maxSz config)
    (hbusy : state.callers thread ≠ .idle) :
    (state.callers thread).side ≠ none ∨ ∃ side, (state.callers thread).calls = some side := by
  have hphase := hsim.phases thread
  cases hpc : state.callers thread with
  | idle => exact absurd hpc hbusy
  | aborted =>
      rw [hpc] at hphase
      exact hphase.elim
  | _ => simp [Pc.side, Pc.calls]

/-- Unless the dead shut its group, a call returns when those inside who live leave. -/
theorem returns_without (corrupt : Value) (memory : ℕ → Value) {dead : ℕ → Prop}
    (hsim : ∃ config, state.Simulates maxSz config) (halive : ¬ dead thread)
    (hshut : ∀ side, (state.callers thread).calls = some side → ¬ state.Shut dead side) :
    ∃ schedule final, (∀ action ∈ schedule, ∃ other, action = .advance other ∧ ¬ dead other) ∧
      (machine maxSz corrupt memory).runFrom state schedule = some final ∧
      final.callers thread = .idle ∧ schedule.length ≤ 8 * state.occupied + 10 := by
  classical
  let Ready (middle : State Value) : Prop :=
    ∀ side, (middle.callers thread).calls = some side → middle.Open side
  let Kept (middle : State Value) : Prop := (∃ config, middle.Simulates maxSz config) ∧
    (∀ other, dead other → middle.callers other = state.callers other) ∧
      ∀ side, (middle.callers thread).calls = some side →
        (state.callers thread).calls = some side
  let rank (middle : State Value) : ℕ :=
    if Ready middle then (middle.callers thread).rank middle else 8 * middle.occupied + 10
  have hrank : ∀ middle, rank middle ≤ 8 * middle.occupied + 10 := by
    intro middle
    have hle := (rank_le middle (middle.callers thread)).1
    simp only [rank]
    split <;> omega
  have hprogress : ∀ middle, Kept middle → ¬ middle.callers thread = .idle →
      ∃ schedule next,
        (machine maxSz corrupt memory).Admits
          (fun _ action => ∃ other, action = .advance other ∧ ¬ dead other) middle schedule ∧
        (machine maxSz corrupt memory).runFrom middle schedule = some next ∧ Kept next ∧
          rank next < rank middle ∧ schedule.length + rank next ≤ rank middle := by
    rintro middle ⟨⟨config, hmiddle⟩, hdead, hcalls⟩ hbusy
    by_cases hready : Ready middle
    · obtain ⟨next, hstep, hlower, hothers, hnext⟩ := advance_lowers corrupt hmiddle
        hbusy hready
      obtain ⟨after, -, hafter⟩ := hmiddle.advance hstep
      have hsame : ∀ side, (next.callers thread).calls = some side →
          (middle.callers thread).calls = some side ∧ next.mask = middle.mask := by
        intro side hside
        rcases hnext with hidle | hinside | ⟨group, hbefore, hgroup, hmask⟩
        · rw [hidle] at hside
          cases hside
        · rw [calls_of_side hinside] at hside
          cases hside
        · rw [hgroup] at hside
          cases hside
          exact ⟨hbefore, hmask⟩
      have hstill : Ready next := by
        intro side hside
        obtain ⟨hbefore, hmask⟩ := hsame side hside
        have hopen := hready side hbefore
        cases side <;> simpa only [State.Open, hmask] using hopen
      refine ⟨[.advance thread], next, ⟨⟨thread, rfl, halive⟩, fun _ _ => trivial⟩, ?_,
        ⟨⟨after, hafter⟩, ?_, fun side hside => hcalls side (hsame side hside).1⟩, ?_⟩
      · simp only [Machine.runFrom, machine, State.step, hstep]
      · intro other hother
        rw [hothers other fun heq => halive (heq ▸ hother), hdead other hother]
      · simp only [rank, if_pos hready, if_pos hstill, List.length_singleton]
        omega
    · -- somebody who lives leaves first
      obtain ⟨inside, hlock⟩ := hmiddle.lock
      simp only [Ready, not_forall, exists_prop] at hready
      obtain ⟨side, hside, hclosed⟩ := hready
      have hunshut : ¬ middle.Shut dead side := fun hmiddle =>
        hshut side (hcalls side hside)
          (hmiddle.congr fun other hother _ => (hdead other hother).symm)
      obtain ⟨other, hlives, hinside⟩ := hlock.exists_alive hclosed hunshut
      obtain ⟨schedule, next, hown, hrun, ⟨after, hafter⟩, hcallers, hlength⟩ :=
        leaves_alone corrupt memory hmiddle hinside
      obtain ⟨remaining, hremaining⟩ := hafter.lock
      have hfewer := hlock.occupied_lt hremaining hinside hcallers
      have hnext := hrank next
      have hnow : rank middle = 8 * middle.occupied + 10 := by
        refine if_neg fun hready => hclosed (hready side hside)
      refine ⟨schedule, next, Machine.admits_of_forall ?_ middle, hrun,
        ⟨⟨after, hafter⟩, ?_, ?_⟩, by omega, by omega⟩
      · intro action hmem _
        exact ⟨other, hown action hmem, hlives⟩
      · intro gone hgone
        have hne : gone ≠ other := by
          rintro rfl
          exact hlives hgone
        rw [hcallers, Function.update_of_ne hne, hdead gone hgone]
      · intro group hgroup
        rw [hcallers] at hgroup
        by_cases heq : thread = other
        · subst heq
          rw [Function.update_self] at hgroup
          cases hgroup
        · rw [Function.update_of_ne heq] at hgroup
          exact hcalls group hgroup
  obtain ⟨schedule, final, hadmits, hrun, -, hidle, hlength⟩ :=
    Machine.exists_runFrom Kept (fun final => final.callers thread = .idle) rank hprogress
      ⟨hsim, fun _ _ => rfl, fun _ hside => hside⟩
  exact ⟨schedule, final, hadmits.forall_mem hrun, hrun, hidle, hlength.trans (hrank state)⟩

theorem simulates_of_reachable {memory : ℕ → Value}
    (hreached : (machine maxSz corrupt memory).Reachable state) :
    ∃ config, state.Simulates maxSz config := by
  refine hreached.invariant (fun state : State Value => ∃ config, state.Simulates maxSz config)
    ⟨_, simulates_construct maxSz memory⟩ ?_
  rintro before action after ⟨config, hsim⟩ - hstep
  obtain ⟨next, -, hnext⟩ := hsim.step hstep
  exact ⟨next, hnext⟩

/-- A step of the thread, or of one that is inside a group. -/
def State.Awaits (state : State Value) (thread : ℕ) (action : Action Value) : Prop :=
  ∃ other, action = .advance other ∧ (other = thread ∨ (state.callers other).side ≠ none)

/-- From every reachable state a call can return when only it and the threads that are
inside go on. -/
theorem stack_call_returns (maxSz : ℕ) (corrupt : Value) (memory : ℕ → Value)
    (hreached : (machine maxSz corrupt memory).Reachable state) (thread : ℕ) :
    ∃ schedule final, (∀ action ∈ schedule, state.Awaits thread action) ∧
      (machine maxSz corrupt memory).runFrom state schedule = some final ∧
      final.callers thread = .idle ∧ schedule.length ≤ 8 * state.occupied + 10 := by
  let dead (other : ℕ) : Prop := other ≠ thread ∧ (state.callers other).side = none
  have hshut : ∀ side, ¬ state.Shut dead side := by
    rintro side (⟨other, group, hdead, hside, -⟩ | ⟨group, hfull, hgroup⟩)
    · rw [hdead.2] at hside
      cases hside
    · obtain ⟨other, hmem⟩ := Finset.card_pos.mp (lt_of_lt_of_le (by decide) hfull)
      obtain ⟨hdead, hside⟩ := hgroup other hmem
      rw [hdead.2] at hside
      cases hside
  obtain ⟨schedule, final, hlives, hreturns⟩ := returns_without corrupt memory
    (simulates_of_reachable hreached) (show ¬ dead thread from fun hdead => hdead.1 rfl)
    fun side _ => hshut side
  refine ⟨schedule, final, fun action hmem => ?_, hreturns⟩
  obtain ⟨other, haction, hother⟩ := hlives action hmem
  simp only [dead, not_and_or, not_not] at hother
  exact ⟨other, haction, hother⟩

def popInside : List (Action ℕ) :=
  [.pop 0, .advance 0, .advance 0, .push 1 10, .advance 1]

theorem stack_call_returns_popInside :
    ∃ state, (machine 3 0xcdcd fun _ => 0).run popInside = some state ∧
      state.callers 1 = .pushEnter 10 0 ∧ state.mask = readAppend ∧
      ∃ schedule final, (∀ action ∈ schedule, state.Awaits 1 action) ∧
        (machine 3 0xcdcd fun _ => 0).runFrom state schedule = some final ∧
        final.callers 1 = .idle ∧ schedule.length ≤ 8 * state.occupied + 10 := by
  have hreached : ∀ state, (machine 3 0xcdcd fun _ => 0).run popInside = some state →
      (machine 3 0xcdcd fun _ => 0).Reachable state :=
    fun _ hrun => Machine.Reachable.runFrom .start hrun
  exact ⟨_, rfl, rfl, rfl, stack_call_returns 3 0xcdcd (fun _ => 0) (hreached _ rfl) 1⟩

end Returns

/-! ## What a call waits for -/

section Dead

variable {maxSz : ℕ} {corrupt : Value} {state next : State Value} {action : Action Value}
  {thread : ℕ} {side : Side}

theorem opens {config : StackConfig Value} (hsim : state.Simulates maxSz config)
    (hcalls : (state.callers thread).calls = some side)
    (hstep : state.advance maxSz corrupt thread = some next) :
    (next.callers thread).calls = some side ∨ state.Open side := by
  have hphase := hsim.phases thread
  cases hpc : state.callers thread with
  | pushReadMask val =>
      rw [hpc] at hcalls
      cases hcalls
      simp only [State.advance, hpc] at hstep
      split at hstep
      all_goals
        cases hstep
        simp [State.goto, Pc.calls]
  | pushEnter val oldMask =>
      rw [hpc] at hcalls hphase
      cases hcalls
      obtain ⟨-, writers, hwriters, hold⟩ := hphase
      rw [Nat.shiftLeft_eq] at hold
      simp only [State.advance, hpc] at hstep
      split at hstep
      next hmask =>
          right
          unfold State.Open
          omega
      next =>
          cases hstep
          simp [State.goto, Pc.calls]
  | popReadMask =>
      rw [hpc] at hcalls
      cases hcalls
      simp only [State.advance, hpc] at hstep
      split at hstep
      all_goals
        cases hstep
        simp [State.goto, Pc.calls]
  | popEnter oldMask =>
      rw [hpc] at hcalls hphase
      cases hcalls
      obtain ⟨-, hreaders⟩ := hphase
      simp only [State.advance, hpc] at hstep
      split at hstep
      next hmask =>
          right
          unfold State.Open
          omega
      next =>
          cases hstep
          simp [State.goto, Pc.calls]
  | _ =>
      rw [hpc] at hcalls
      cases hcalls

def Spares (dead : ℕ → Prop) (action : Action Value) : Prop :=
  ∀ other, dead other → action ≠ .advance other

theorem step_callers (hstep : state.step maxSz corrupt action = some next) :
    ∃ mover pc, next.callers = Function.update state.callers mover pc ∧
      (action = .advance mover ∧ state.advance maxSz corrupt mover = some next ∨
        state.callers mover = .idle) := by
  cases action with
  | push mover val =>
      cases hpc : state.callers mover with
      | idle =>
          simp only [State.step, hpc] at hstep
          cases hstep
          exact ⟨mover, _, rfl, .inr hpc⟩
      | _ => simp [State.step, hpc] at hstep
  | pop mover =>
      cases hpc : state.callers mover with
      | idle =>
          simp only [State.step, hpc] at hstep
          cases hstep
          exact ⟨mover, _, rfl, .inr hpc⟩
      | _ => simp [State.step, hpc] at hstep
  | advance mover =>
      obtain ⟨pc, hcallers⟩ :=
        advance_callers (show state.advance maxSz corrupt mover = _ from hstep)
      exact ⟨mover, pc, hcallers, .inl ⟨rfl, hstep⟩⟩

/-- While the dead shut its group, a thread stays outside and the dead stay inside. -/
theorem shut_step {config : StackConfig Value} {dead : ℕ → Prop}
    (hsim : state.Simulates maxSz config) (hspares : Spares dead action)
    (hstep : state.step maxSz corrupt action = some next)
    (hcalls : (state.callers thread).calls = some side)
    (hblocked : dead thread ∨ state.Shut dead side) :
    (next.callers thread).calls = some side ∧ (dead thread ∨ next.Shut dead side) := by
  obtain ⟨inside, hlock⟩ := hsim.lock
  obtain ⟨mover, pc, hcallers, hmover⟩ := step_callers hstep
  have hgone : ∀ other, dead other → (state.callers other).side ≠ none →
      next.callers other = state.callers other := by
    intro other hdead hinside
    have hne : other ≠ mover := by
      rintro rfl
      rcases hmover with ⟨haction, -⟩ | hidle
      · exact hspares other hdead haction
      · rw [hidle] at hinside
        exact hinside rfl
    rw [hcallers, Function.update_of_ne hne]
  refine ⟨?_, hblocked.imp_right fun hshut => hshut.congr hgone⟩
  by_cases heq : thread = mover
  · subst heq
    rcases hmover with ⟨haction, hadvance⟩ | hidle
    · have halive : ¬ dead thread := fun hdead => hspares thread hdead haction
      exact (opens hsim hcalls hadvance).resolve_right
        (hlock.closed_of_shut (hblocked.resolve_left halive))
    · rw [hidle] at hcalls
      cases hcalls
  · rw [hcallers, Function.update_of_ne heq, hcalls]

/-- A thread that has called and is not inside can return without the steps of some threads
exactly when it is not one of them and they do not shut its group. -/
theorem call_returns_without_iff (maxSz : ℕ) (corrupt : Value) (memory : ℕ → Value)
    (hreached : (machine maxSz corrupt memory).Reachable state)
    (hcalls : (state.callers thread).calls = some side) (dead : ℕ → Prop) :
    (∃ schedule final, (∀ action ∈ schedule, Spares dead action) ∧
      (machine maxSz corrupt memory).runFrom state schedule = some final ∧
      final.callers thread = .idle) ↔ ¬ dead thread ∧ ¬ state.Shut dead side := by
  have hsim := simulates_of_reachable hreached
  constructor
  · rintro ⟨schedule, final, hspares, hrun, hidle⟩
    rw [← not_or]
    intro hblocked
    have hadmits : (machine maxSz corrupt memory).Admits (fun _ action => Spares dead action)
        state schedule :=
      Machine.admits_of_forall (fun action hmem _ => hspares action hmem) state
    obtain ⟨-, hwaits, -⟩ := hadmits.invariant
      (fun middle => (∃ config, middle.Simulates maxSz config) ∧
        (middle.callers thread).calls = some side ∧ (dead thread ∨ middle.Shut dead side))
      (by
        rintro before action after ⟨⟨config, hbefore⟩, hwaits, hshut⟩ hspared hstep
        obtain ⟨next, -, hnext⟩ := hbefore.step hstep
        exact ⟨⟨next, hnext⟩, shut_step hbefore hspared hstep hwaits hshut⟩)
      hrun ⟨hsim, hcalls, hblocked⟩
    rw [hidle] at hwaits
    cases hwaits
  · rintro ⟨halive, hshut⟩
    have hgroup : ∀ group, (state.callers thread).calls = some group →
        ¬ state.Shut dead group := by
      intro group hgroup
      rw [hcalls] at hgroup
      cases hgroup
      exact hshut
    obtain ⟨schedule, final, hlives, hrun, hidle, -⟩ :=
      returns_without corrupt memory hsim halive hgroup
    refine ⟨schedule, final, fun action hmem gone hgone => ?_, hrun, hidle⟩
    obtain ⟨other, rfl, hother⟩ := hlives action hmem
    intro heq
    cases heq
    exact hother hgone

theorem call_returns_without_iff_popInside :
    ∃ state, (machine 3 0xcdcd fun _ => 0).run popInside = some state ∧
      ((∃ schedule final, (∀ action ∈ schedule, Spares (· = 0) action) ∧
        (machine 3 0xcdcd fun _ => 0).runFrom state schedule = some final ∧
        final.callers 1 = .idle) ↔ ¬ 1 = 0 ∧ ¬ state.Shut (· = 0) .writer) := by
  have hreached : ∀ state, (machine 3 0xcdcd fun _ => 0).run popInside = some state →
      (machine 3 0xcdcd fun _ => 0).Reachable state :=
    fun _ hrun => Machine.Reachable.runFrom .start hrun
  exact ⟨_, rfl, call_returns_without_iff 3 0xcdcd (fun _ => 0) (hreached _ rfl) rfl (· = 0)⟩

end Dead

end LockFreeStack
end BackEndFacility
