import BackEndFacility.LockFreeQueue
import Mathlib.Data.List.Perm.Basic

/-!
# What a call of the ring waits for

A push that has reserved a slot publishes it only when all slots before it are
published, and spins until then.  No other access of the queue waits.  So a
thread that dies between the two compare-and-swaps of its push stops the pushes
behind it, and these only; every other call can return, also after the ring was
lapped.
-/

namespace BackEndFacility
namespace LockFreeQueue

universe u

variable {Value : Type u}

def Pc.slot (pc : Pc Value) : Option ℕ := pc.claim.map Prod.snd

/-- The slots from `maxRead_` up to `write_` are those that these threads have
reserved. -/
structure State.Claims (maxSz : ℕ) (state : State Value) (waiting : List ℕ) :
    Prop where
  nodup : waiting.Nodup
  members : ∀ thread, thread ∈ waiting ↔ (state.callers thread).slot ≠ none
  maxReadAt : state.maxRead = state.pushed.length % maxSz
  writeAt : state.write = state.reserved.length % maxSz
  le : state.pushed.length ≤ state.reserved.length
  slots : (waiting.map fun thread => (state.callers thread).slot).Perm
    ((List.range' state.pushed.length
      (state.reserved.length - state.pushed.length)).map fun index => some (index % maxSz))

namespace State.Claims

variable {maxSz : ℕ} {state next : State Value} {waiting : List ℕ} {thread : ℕ}
  {pc : Pc Value}

theorem start (memory : ℕ → Value) : (construct memory).Claims maxSz [] := by
  constructor <;> simp [construct, Pc.slot, Pc.claim]

theorem stay (hclaims : state.Claims maxSz waiting)
    (hcallers : next.callers = Function.update state.callers thread pc)
    (hslot : pc.slot = (state.callers thread).slot)
    (hmaxRead : next.maxRead = state.maxRead) (hwrite : next.write = state.write)
    (hpushed : next.pushed = state.pushed) (hreserved : next.reserved = state.reserved) :
    next.Claims maxSz waiting := by
  have hsame : ∀ other, (next.callers other).slot = (state.callers other).slot := by
    intro other
    rw [hcallers]
    by_cases heq : other = thread
    · subst heq
      rw [Function.update_self, hslot]
    · rw [Function.update_of_ne heq]
  refine ⟨hclaims.nodup, ?_, ?_, ?_, ?_, ?_⟩
  · intro other
    rw [hsame, hclaims.members]
  · rw [hmaxRead, hpushed, hclaims.maxReadAt]
  · rw [hwrite, hreserved, hclaims.writeAt]
  · rw [hpushed, hreserved]
    exact hclaims.le
  · simp only [hsame, hpushed, hreserved]
    exact hclaims.slots

theorem reserve (hclaims : state.Claims maxSz waiting)
    (hcallers : next.callers = Function.update state.callers thread pc)
    (hidle : (state.callers thread).slot = none) (hslot : pc.slot = some state.write)
    (hmaxRead : next.maxRead = state.maxRead)
    (hwrite : next.write = (state.write + 1) % maxSz) (hpushed : next.pushed = state.pushed)
    (hreserved : next.reserved.length = state.reserved.length + 1) :
    next.Claims maxSz (waiting ++ [thread]) := by
  have hfresh : thread ∉ waiting := by
    rw [hclaims.members, hidle]
    simp
  have hself : (next.callers thread).slot = some state.write := by
    rw [hcallers, Function.update_self, hslot]
  have hother : ∀ other, other ≠ thread → next.callers other = state.callers other := by
    intro other hne
    rw [hcallers, Function.update_of_ne hne]
  have hle := hclaims.le
  refine ⟨?_, ?_, ?_, ?_, ?_, ?_⟩
  · rw [List.nodup_append_comm]
    exact List.nodup_cons.mpr ⟨hfresh, hclaims.nodup⟩
  · intro other
    rw [List.mem_append, List.mem_singleton, hclaims.members]
    by_cases heq : other = thread
    · subst heq
      simp [hself]
    · rw [hother other heq]
      simp [heq]
  · rw [hmaxRead, hpushed, hclaims.maxReadAt]
  · rw [hwrite, hreserved, hclaims.writeAt, succ_mod]
  · rw [hpushed, hreserved]
    omega
  · have hold : (waiting.map fun other => (next.callers other).slot) =
        waiting.map fun other => (state.callers other).slot := by
      apply List.map_congr_left
      intro other hmem
      rw [hother other fun heq => hfresh (heq ▸ hmem)]
    have hcount : state.reserved.length + 1 - state.pushed.length =
        state.reserved.length - state.pushed.length + 1 := by omega
    have hlast : state.pushed.length + 1 * (state.reserved.length - state.pushed.length) =
        state.reserved.length := by omega
    rw [hpushed, hreserved, hcount, List.range'_concat, List.map_append, List.map_append, hold,
      hlast]
    refine hclaims.slots.append ?_
    simp [hself, hclaims.writeAt]

theorem publish (hclaims : state.Claims maxSz waiting)
    (hcallers : next.callers = Function.update state.callers thread pc)
    (hslot : (state.callers thread).slot = some state.maxRead) (hdone : pc.slot = none)
    (hmaxRead : next.maxRead = (state.maxRead + 1) % maxSz)
    (hwrite : next.write = state.write)
    (hpushed : next.pushed.length = state.pushed.length + 1)
    (hreserved : next.reserved = state.reserved) :
    next.Claims maxSz (waiting.erase thread) := by
  have hmem : thread ∈ waiting := by
    rw [hclaims.members, hslot]
    simp
  have hother : ∀ other, other ≠ thread → next.callers other = state.callers other := by
    intro other hne
    rw [hcallers, Function.update_of_ne hne]
  have hslots := hclaims.slots
  have hpos : 0 < state.reserved.length - state.pushed.length := by
    have hsame := hslots.length_eq
    rw [List.length_map, List.length_map, List.length_range'] at hsame
    rw [← hsame]
    exact List.length_pos_of_mem hmem
  refine ⟨hclaims.nodup.erase _, ?_, ?_, ?_, ?_, ?_⟩
  · intro other
    rw [hclaims.nodup.mem_erase_iff, hclaims.members]
    by_cases heq : other = thread
    · subst heq
      rw [hcallers, Function.update_self, hdone]
      simp
    · rw [hother other heq]
      simp [heq]
  · rw [hmaxRead, hpushed, hclaims.maxReadAt, succ_mod]
  · rw [hwrite, hreserved, hclaims.writeAt]
  · rw [hpushed, hreserved]
    omega
  · have hold : ((waiting.erase thread).map fun other => (next.callers other).slot) =
        (waiting.erase thread).map fun other => (state.callers other).slot := by
      apply List.map_congr_left
      intro other hin
      rw [hother other (hclaims.nodup.mem_erase_iff.mp hin).1]
    obtain ⟨rest, hrest⟩ : ∃ rest, state.reserved.length - state.pushed.length = rest + 1 :=
      ⟨_, (Nat.succ_pred_eq_of_pos hpos).symm⟩
    have hcount : state.reserved.length - (state.pushed.length + 1) = rest := by omega
    rw [hold, hpushed, hreserved, hcount]
    rw [hrest, List.range'_succ, List.map_cons] at hslots
    have hfront := (List.perm_cons_erase hmem).map fun other => (state.callers other).slot
    rw [List.map_cons, hslot, hclaims.maxReadAt] at hfront
    exact (hfront.symm.trans hslots).cons_inv

end State.Claims

/-! ## Steps -/

section Steps

variable {maxSz : ℕ} {state next : State Value} {waiting : List ℕ} {thread : ℕ}

theorem State.Claims.advance (hclaims : state.Claims maxSz waiting)
    (hstep : state.advance maxSz thread = some next) :
    ∃ after, next.Claims maxSz after := by
  unfold State.advance at hstep
  cases hpc : state.callers thread with
  | idle => simp [hpc] at hstep
  | pushCas val oldWrite =>
      simp only [hpc] at hstep
      split at hstep
      next hwrite =>
          cases hstep
          refine ⟨_, hclaims.reserve rfl (by rw [hpc]; rfl) ?_ rfl ?_ rfl ?_⟩
          · rw [hwrite]
            rfl
          · rw [hwrite]
            rfl
          · simp [State.goto]
      next =>
          cases hstep
          exact ⟨_, hclaims.stay rfl (by rw [hpc]; rfl) rfl rfl rfl rfl⟩
  | pushPublish val oldWrite =>
      simp only [hpc] at hstep
      split at hstep
      next hmaxRead =>
          cases hstep
          refine ⟨_, hclaims.publish rfl ?_ rfl ?_ rfl ?_ rfl⟩
          · rw [hpc, hmaxRead]
            rfl
          · rw [hmaxRead]
            rfl
          · simp [State.goto]
      next =>
          cases hstep
          exact ⟨_, hclaims.stay rfl (by rw [hpc]) rfl rfl rfl rfl⟩
  | _ =>
      simp only [hpc] at hstep
      repeat' split at hstep
      all_goals
        cases hstep
        exact ⟨_, hclaims.stay rfl (by rw [hpc]; rfl) rfl rfl rfl rfl⟩

theorem State.Claims.step {action : Action Value} (hclaims : state.Claims maxSz waiting)
    (hstep : state.step maxSz action = some next) : ∃ after, next.Claims maxSz after := by
  cases action with
  | push thread val =>
      cases hpc : state.callers thread with
      | idle =>
          simp only [State.step, hpc] at hstep
          cases hstep
          exact ⟨_, hclaims.stay rfl (by rw [hpc]; rfl) rfl rfl rfl rfl⟩
      | _ => simp [State.step, hpc] at hstep
  | pop thread =>
      cases hpc : state.callers thread with
      | idle =>
          simp only [State.step, hpc] at hstep
          cases hstep
          exact ⟨_, hclaims.stay rfl (by rw [hpc]; rfl) rfl rfl rfl rfl⟩
      | _ => simp [State.step, hpc] at hstep
  | advance thread => exact hclaims.advance hstep

end Steps

/-! ## Every call can return -/

section Returns

variable {maxSz : ℕ} {state next : State Value} {waiting : List ℕ} {thread : ℕ}

theorem publishes (memory : ℕ → Value) {first : ℕ}
    (hslot : (state.callers first).slot = some state.maxRead) :
    ∃ schedule final, (∀ action ∈ schedule, action = .advance first) ∧
      (machine maxSz memory).Admits (StaysCurrent maxSz) state schedule ∧
      schedule.length ≤ 2 ∧ (machine maxSz memory).runFrom state schedule = some final ∧
      final.callers = Function.update state.callers first .idle ∧
      final.pushed.length = state.pushed.length + 1 ∧ final.reserved = state.reserved := by
  have hpublish : ∀ (full : State Value) val, full.callers first = .pushPublish val full.maxRead →
      ∃ final, full.advance maxSz first = some final ∧
        final.callers = Function.update full.callers first .idle ∧
        final.pushed.length = full.pushed.length + 1 ∧ final.reserved = full.reserved := by
    intro full val hpc
    refine ⟨{ full with
      maxRead := (full.maxRead + 1) % maxSz
      pushed := full.pushed ++ [(first, val)] }.goto first .idle, ?_, rfl, ?_, rfl⟩
    · simp only [State.advance, hpc, if_true]
    · simp [State.goto]
  cases hpc : state.callers first with
  | pushStore val oldWrite =>
      rw [hpc] at hslot
      have hat : oldWrite = state.maxRead := Option.some.inj hslot
      subst hat
      obtain ⟨final, hstep, hcallers, hpushed, hreserved⟩ := hpublish
        ({ state with
          arr := Function.update state.arr state.maxRead val }.goto first
            (.pushPublish val state.maxRead)) val (Function.update_self ..)
      refine ⟨[.advance first, .advance first], final, by simp, ⟨?_, ?_⟩, le_rfl, ?_, ?_,
        hpushed, hreserved⟩
      · simp [StaysCurrent, hpc, State.CurrentAt]
      · intro next hnext
        simp only [machine, State.step, State.advance, hpc] at hnext
        cases hnext
        exact ⟨by simp [StaysCurrent, State.goto, State.CurrentAt], fun _ _ => trivial⟩
      · simp only [Machine.runFrom, machine, State.step, State.advance, hpc] at hstep ⊢
        simp only [hstep]
      · rw [hcallers]
        exact Function.update_idem ..
  | pushPublish val oldWrite =>
      rw [hpc] at hslot
      have hat : oldWrite = state.maxRead := Option.some.inj hslot
      subst hat
      obtain ⟨final, hstep, hcallers, hpushed, hreserved⟩ := hpublish state val hpc
      refine ⟨[.advance first], final, by simp, ⟨?_, fun _ _ => trivial⟩, by simp, ?_,
        hcallers, hpushed, hreserved⟩
      · simp [StaysCurrent, hpc, State.CurrentAt]
      · simp only [Machine.runFrom, machine, State.step, hstep]
  | _ =>
      rw [hpc] at hslot
      cases hslot

/-- The steps to the end of a call if only it and the pushes that wait to publish go on. -/
def Pc.rank (state : State Value) : Pc Value → ℕ
  | .idle => 0
  | .pushReadWrite _ => 2 * (state.reserved.length - state.pushed.length) + 5
  | .pushReadRead _ oldWrite =>
      2 * (state.reserved.length - state.pushed.length) +
        if state.write = oldWrite then 4 else 7
  | .pushCas _ oldWrite =>
      2 * (state.reserved.length - state.pushed.length) +
        if state.write = oldWrite then 3 else 6
  | .pushStore _ _ => 2 * (state.reserved.length - state.pushed.length)
  | .pushPublish _ _ => 2 * (state.reserved.length - state.pushed.length)
  | .popReadRead => 4
  | .popReadMaxRead oldRead => if state.read = oldRead then 3 else 7
  | .popReadSlot oldRead => if state.read = oldRead then 2 else 6
  | .popCas oldRead _ => if state.read = oldRead then 1 else 5

theorem rank_le (state : State Value) (pc : Pc Value) :
    pc.rank state ≤ 2 * (state.reserved.length - state.pushed.length) + 7 := by
  cases pc with
  | pushReadRead val oldWrite =>
      simp only [Pc.rank]
      split <;> omega
  | pushCas val oldWrite =>
      simp only [Pc.rank]
      split <;> omega
  | popReadMaxRead oldRead =>
      simp only [Pc.rank]
      split <;> omega
  | popReadSlot oldRead =>
      simp only [Pc.rank]
      split <;> omega
  | popCas oldRead ret =>
      simp only [Pc.rank]
      split <;> omega
  | _ =>
      simp only [Pc.rank]
      omega

theorem rank_goto (state : State Value) (thread : ℕ) (pc : Pc Value) :
    ((state.goto thread pc).callers thread).rank (state.goto thread pc) = pc.rank state := by
  unfold State.goto
  simp only [Function.update_self]
  cases pc <;> rfl

theorem advance_lowers (hclaims : state.Claims maxSz waiting)
    (hbusy : state.callers thread ≠ .idle) (hslot : (state.callers thread).slot = none) :
    ∃ next, state.advance maxSz thread = some next ∧
      (next.callers thread).rank next < (state.callers thread).rank state ∧
      ∀ other, other ≠ thread → next.callers other = state.callers other := by
  have hle := hclaims.le
  -- most steps move the thread alone
  have hgoto : ∀ pc : Pc Value, pc.rank state < (state.callers thread).rank state →
      ∃ next, some (state.goto thread pc) = some next ∧
        (next.callers thread).rank next < (state.callers thread).rank state ∧
        ∀ other, other ≠ thread → next.callers other = state.callers other := by
    intro pc hlower
    refine ⟨_, rfl, ?_, fun other hne => Function.update_of_ne hne _ _⟩
    rw [rank_goto]
    exact hlower
  unfold State.advance
  cases hpc : state.callers thread with
  | idle => exact absurd hpc hbusy
  | pushStore val oldWrite => simp [hpc, Pc.slot, Pc.claim] at hslot
  | pushPublish val oldWrite => simp [hpc, Pc.slot, Pc.claim] at hslot
  | pushReadWrite val =>
      rw [hpc] at hgoto
      refine hgoto _ ?_
      simp [Pc.rank]
  | pushReadRead val oldWrite =>
      rw [hpc] at hgoto
      simp only
      split
      · refine hgoto _ ?_
        simp only [Pc.rank]
        split <;> omega
      · refine hgoto _ ?_
        simp only [Pc.rank]
        split <;> omega
  | pushCas val oldWrite =>
      rw [hpc] at hgoto
      simp only
      split
      next hwrite =>
          refine ⟨_, rfl, ?_, fun other hne => Function.update_of_ne hne _ _⟩
          rw [rank_goto]
          simp only [Pc.rank, if_pos hwrite, List.length_append, List.length_singleton]
          omega
      next hwrite =>
          refine hgoto _ ?_
          simp [Pc.rank, hwrite]
  | popReadRead =>
      rw [hpc] at hgoto
      refine hgoto _ ?_
      simp [Pc.rank]
  | popReadMaxRead oldRead =>
      rw [hpc] at hgoto
      simp only
      split
      · refine hgoto _ ?_
        simp only [Pc.rank]
        split <;> omega
      · refine hgoto _ ?_
        simp only [Pc.rank]
        split <;> omega
  | popReadSlot oldRead =>
      rw [hpc] at hgoto
      refine hgoto _ ?_
      simp only [Pc.rank]
      split <;> omega
  | popCas oldRead ret =>
      rw [hpc] at hgoto
      simp only
      split
      next hread =>
          refine ⟨_, rfl, ?_, fun other hne => Function.update_of_ne hne _ _⟩
          rw [rank_goto]
          simp [Pc.rank, hread]
      next hread =>
          refine hgoto _ ?_
          simp [Pc.rank, hread]

/-- A step of the thread, or of a push that has reserved a slot and not published it. -/
def State.Awaits (state : State Value) (thread : ℕ) (action : Action Value) : Prop :=
  ∃ other, action = .advance other ∧ (other = thread ∨ (state.callers other).slot ≠ none)

/-- Thread 0 has reserved the first slot and thread 1, which was faster, spins behind it. -/
def publishBehind : List (Action ℕ) :=
  [.push 0 10, .advance 0, .advance 0, .advance 0,
    .push 1 20, .advance 1, .advance 1, .advance 1, .advance 1, .advance 1]

end Returns

/-! ## What a push waits for -/

section Dead

variable {maxSz : ℕ} {state next : State Value} {action : Action Value}

/-- A step on a current check, and not one of a thread that is dead. -/
def Spares (maxSz : ℕ) (dead : ℕ → Prop) (state : State Value) (action : Action Value) :
    Prop :=
  StaysCurrent maxSz state action ∧ ∀ other, dead other → action ≠ .advance other

theorem step_history (hstep : state.step maxSz action = some next) :
    state.reserved <+: next.reserved ∧
      (next.pushed = state.pushed ∨ ∃ thread val, action = .advance thread ∧
        next.pushed = state.pushed ++ [(thread, val)]) := by
  cases action with
  | push thread val =>
      cases hpc : state.callers thread with
      | idle =>
          simp only [State.step, hpc] at hstep
          cases hstep
          exact ⟨List.prefix_refl _, .inl rfl⟩
      | _ => simp [State.step, hpc] at hstep
  | pop thread =>
      cases hpc : state.callers thread with
      | idle =>
          simp only [State.step, hpc] at hstep
          cases hstep
          exact ⟨List.prefix_refl _, .inl rfl⟩
      | _ => simp [State.step, hpc] at hstep
  | advance thread =>
      simp only [State.step, State.advance] at hstep
      cases hpc : state.callers thread with
      | idle => simp [hpc] at hstep
      | pushCas val oldWrite =>
          simp only [hpc] at hstep
          split at hstep
          all_goals cases hstep
          · exact ⟨List.prefix_append _ _, .inl rfl⟩
          · exact ⟨List.prefix_refl _, .inl rfl⟩
      | pushPublish val oldWrite =>
          simp only [hpc] at hstep
          split at hstep
          all_goals cases hstep
          · exact ⟨List.prefix_refl _, .inr ⟨thread, val, rfl, rfl⟩⟩
          · exact ⟨List.prefix_refl _, .inl rfl⟩
      | _ =>
          simp only [hpc] at hstep
          repeat' split at hstep
          all_goals
            cases hstep
            exact ⟨List.prefix_refl _, .inl rfl⟩

theorem behind_step {dead : ℕ → Prop} {index position : ℕ} {record waits : Record Value}
    (hdead : dead record.1) (hspares : Spares maxSz dead state action)
    (hstep : state.step maxSz action = some next)
    (hinv : state.Invariant maxSz) (hle : state.pushed.length ≤ position)
    (hrecord : state.reserved[position]? = some record)
    (hwaits : state.reserved[index]? = some waits) :
    next.Invariant maxSz ∧ next.pushed.length ≤ position ∧
      next.reserved[position]? = some record ∧ next.reserved[index]? = some waits := by
  have hnext := hinv.step hspares.1 hstep
  obtain ⟨hgrows, hpushed⟩ := step_history hstep
  have hkeep : ∀ {place : ℕ} {found : Record Value}, state.reserved[place]? = some found →
      next.reserved[place]? = some found := by
    intro place found hfound
    obtain ⟨more, hmore⟩ := hgrows
    rw [← hmore, List.getElem?_append_left (State.Invariant.index_lt hfound)]
    exact hfound
  refine ⟨hnext, ?_, hkeep hrecord, hkeep hwaits⟩
  rcases hpushed with hsame | ⟨thread, val, hthread, hmore⟩
  · rw [hsame]
    exact hle
  · by_contra hpast
    rw [hmore, List.length_append, List.length_singleton] at hpast
    have hat : position = state.pushed.length := by omega
    -- the slot was published by the thread that reserved it
    have hpublished : next.pushed[position]? = some (thread, val) := by
      rw [hmore, hat, List.getElem?_concat_length]
    have hsame : next.reserved[position]? = some (thread, val) := by
      obtain ⟨rest, hrest⟩ := hnext.pushOrder
      rw [← hrest, List.getElem?_append_left (List.getElem?_eq_some_iff.mp hpublished).1]
      exact hpublished
    rw [hkeep hrecord] at hsame
    cases hsame
    exact hspares.2 thread hdead hthread

/-- A push that has reserved a slot can return without the steps of some threads exactly when
all slots up to its own that are not published were reserved by others. -/
theorem push_returns_without_iff (hsize : 1 ≤ maxSz) (memory : ℕ → Value)
    (hreached : (machine maxSz memory).ReachedBy (StaysCurrent maxSz) state)
    {thread index : ℕ} {val : Value} (hindex : state.pushed.length ≤ index)
    (hreserved : state.reserved[index]? = some (thread, val)) (dead : ℕ → Prop) :
    (∃ schedule final, (machine maxSz memory).Admits (Spares maxSz dead) state schedule ∧
      (machine maxSz memory).runFrom state schedule = some final ∧
      final.callers thread = .idle) ↔
    ∀ position record, state.pushed.length ≤ position → position ≤ index →
      state.reserved[position]? = some record → ¬ dead record.1 := by
  have hinv : state.Invariant maxSz :=
    hreached.invariant (State.Invariant maxSz) (State.Invariant.start hsize memory)
      fun _ _ _ hinv hcurrent hstep => hinv.step hcurrent hstep
  constructor
  · rintro ⟨schedule, final, hadmits, hrun, hidle⟩ position record hle hposition hrecord hdead
    obtain ⟨hfinal, hbehind, -, hwaits⟩ := hadmits.invariant
      (fun middle => middle.Invariant maxSz ∧ middle.pushed.length ≤ position ∧
        middle.reserved[position]? = some record ∧
        middle.reserved[index]? = some (thread, val))
      (fun _ _ _ hmiddle hspares hstep =>
        behind_step hdead hspares hstep hmiddle.1 hmiddle.2.1 hmiddle.2.2.1 hmiddle.2.2.2)
      hrun ⟨hinv, hle, hrecord, hreserved⟩
    have hclaim := hfinal.claimed index (thread, val) (hbehind.trans hposition) hwaits
    rw [hidle] at hclaim
    cases hclaim
  · intro halive
    let Kept (middle : State Value) : Prop :=
      middle.Invariant maxSz ∧ middle.reserved = state.reserved ∧
        state.pushed.length ≤ middle.pushed.length ∧
        (middle.callers thread = .idle ∨ middle.pushed.length ≤ index)
    have hprogress : ∀ middle, Kept middle → ¬ middle.callers thread = .idle →
        ∃ schedule next, (machine maxSz memory).Admits (Spares maxSz dead) middle schedule ∧
          (machine maxSz memory).runFrom middle schedule = some next ∧ Kept next ∧
            2 * (index + 1 - next.pushed.length) < 2 * (index + 1 - middle.pushed.length) ∧
              schedule.length + 2 * (index + 1 - next.pushed.length) ≤
                2 * (index + 1 - middle.pushed.length) := by
      rintro middle ⟨hmiddle, hsame, hle, hwhere⟩ hbusy
      have hbehind : middle.pushed.length ≤ index := hwhere.resolve_left hbusy
      have hlt := State.Invariant.index_lt hreserved
      obtain ⟨first, hfirst⟩ : ∃ first, middle.reserved[middle.pushed.length]? = some first :=
        ⟨_, List.getElem?_eq_getElem (by rw [hsame]; omega)⟩
      have hclaim := hmiddle.claimed _ first le_rfl hfirst
      have hslot : (middle.callers first.1).slot = some middle.maxRead := by
        rw [Pc.slot, hclaim, hmiddle.maxReadAt]
        rfl
      obtain ⟨schedule, next, hown, hcurrent, hlength, hrun, hcallers, hpushed, hkept⟩ :=
        @publishes _ maxSz middle memory first.1 hslot
      have hlives : ¬ dead first.1 := by
        refine halive middle.pushed.length first hle hbehind ?_
        rw [← hsame]
        exact hfirst
      have hnext := hcurrent.invariant (State.Invariant maxSz)
        (fun _ _ _ hinv hcurrent hstep => hinv.step hcurrent hstep) hrun hmiddle
      refine ⟨schedule, next, hcurrent.and_forall ?_, hrun,
        ⟨hnext, hkept.trans hsame, by omega, ?_⟩, by omega, by omega⟩
      · rintro action hmem other hdead rfl
        have hother := hown _ hmem
        cases hother
        exact hlives hdead
      · by_cases hlast : middle.pushed.length = index
        · left
          have hthread : first.1 = thread := by
            rw [hsame, hlast, hreserved] at hfirst
            cases hfirst
            rfl
          rw [hcallers, hthread, Function.update_self]
        · right
          omega
    obtain ⟨schedule, final, hadmits, hrun, -, hidle, -⟩ :=
      Machine.exists_runFrom Kept (fun final => final.callers thread = .idle)
        (fun middle => 2 * (index + 1 - middle.pushed.length)) hprogress
        ⟨hinv, rfl, le_rfl, .inr hindex⟩
    exact ⟨schedule, final, hadmits, hrun, hidle⟩

theorem push_returns_without_iff_publishBehind :
    ∃ state, (machine 3 fun _ => 0).run publishBehind = some state ∧
      ((∃ schedule final, (machine 3 fun _ => 0).Admits (Spares 3 (· = 0)) state schedule ∧
        (machine 3 fun _ => 0).runFrom state schedule = some final ∧
        final.callers 1 = .idle) ↔
      ∀ position record, state.pushed.length ≤ position → position ≤ 1 →
        state.reserved[position]? = some record → ¬ record.1 = 0) := by
  have hreached : ∀ state, (machine 3 fun _ => 0).run publishBehind = some state →
      (machine 3 fun _ => 0).ReachedBy (StaysCurrent 3) state :=
    fun _ hrun => Machine.ReachedBy.runFrom .start (by decide) hrun
  refine ⟨_, rfl, ?_⟩
  exact push_returns_without_iff (by decide) (fun _ => 0) (hreached _ rfl)
    (Nat.zero_le 1) rfl (· = 0)

end Dead

end LockFreeQueue
end BackEndFacility
