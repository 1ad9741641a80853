import BackEndFacility.LockFreeQueue
import BackEndFacility.LockFreeStack

/-!
# `Size` and `IsEmpty` of the lock-free containers

Calls of `Push` and `Pop` run one after another on the stack or on the ring of
`misc/LockFreeContainer.h`, and then the observers are asked.  Both containers count
what they store, the stack in `top_` and the ring by the distance of two indices.
`IsEmpty` of the stack returns `top_` as a `bool`.

The ring divides by its capacity, so with capacity zero neither `Push` nor `Size` has
a result.  Its capacity is an `int`, and so the size always is one.
-/

namespace BackEndFacility

universe u

namespace LockFreeContainer

variable {Value : Type u}

inductive Call (Value : Type u) where
  | push (thread : ℕ) (val : Value)
  | pop (thread : ℕ)

/-- What a call that returned `ret` adds to the number of stored values. -/
def Call.change (ret : Bool) : Call Value → ℤ
  | .push _ _ => if ret then 1 else 0
  | .pop _ => if ret then -1 else 0

/-- The successful pushes minus the successful pops. -/
def balance : List (Call Value) → List Bool → ℤ
  | call :: calls, ret :: rets => call.change ret + balance calls rets
  | _, _ => 0

/-- A container that holds at most `bound` values, by their number. -/
def counter (Value : Type u) (bound : ℕ) : SequentialObject ℕ (Call Value) Bool where
  initial := 0
  apply := fun count call =>
    match call with
    | .push _ _ => if count = bound then (count, false) else (count + 1, true)
    | .pop _ => if count = 0 then (count, false) else (count - 1, true)

theorem counter_apply (bound count : ℕ) (call : Call Value) :
    ((((counter Value bound).apply count call).1 : ℕ) : ℤ) =
      count + call.change ((counter Value bound).apply count call).2 := by
  cases call with
  | push thread val =>
      by_cases hfull : count = bound
      · simp [counter, hfull, Call.change]
      · simp [counter, hfull, Call.change]
  | pop thread =>
      by_cases hempty : count = 0
      · simp [counter, hempty, Call.change]
      · simp only [counter, hempty, Call.change, if_false, if_true]
        omega

theorem counter_applyAll (bound count : ℕ) (calls : List (Call Value)) :
    ((((counter Value bound).applyAll count calls).1 : ℕ) : ℤ) =
      count + balance calls ((counter Value bound).applyAll count calls).2 := by
  induction calls generalizing count with
  | nil => exact (add_zero _).symm
  | cons call rest ih =>
      have hcall := counter_apply bound count call
      have hrest := ih ((counter Value bound).apply count call).1
      simp only [SequentialObject.applyAll, balance]
      rw [hrest, hcall, add_assoc]

end LockFreeContainer

open LockFreeContainer

/-! ## The stack -/

namespace LockFreeStack

variable {Value : Type u}

def State.isEmpty (state : State Value) : Bool := state.top != 0

def State.size (state : State Value) : ℕ := state.top

/-- What the next step of a thread returns, if it returns. -/
def State.response (state : State Value) (thread : ℕ) : Option Bool :=
  match state.callers thread with
  | .pushLeave ret oldMask => if state.mask = oldMask then some ret else none
  | .popLeave ret oldMask => if state.mask = oldMask then some ret.isSome else none
  | _ => none

/-- A call from its invocation to its return; alone it makes at most nine accesses. -/
def State.perform (maxSz : ℕ) (corrupt : Value) (state : State Value) :
    LockFreeContainer.Call Value → Option (State Value × Bool)
  | .push thread val =>
      match state.step maxSz corrupt (.push thread val) with
      | none => none
      | some called =>
          runCall (fun state => state.advance maxSz corrupt thread)
            (fun state => state.response thread) 9 called
  | .pop thread =>
      match state.step maxSz corrupt (.pop thread) with
      | none => none
      | some called =>
          runCall (fun state => state.advance maxSz corrupt thread)
            (fun state => state.response thread) 9 called

section Alone

variable {maxSz : ℕ} {corrupt : Value} {state : State Value} {thread : ℕ}

/-- The mask with one push inside. -/
theorem mask_push :
    writeAppend % 2 ^ 64 = writeAppend ∧ writeAppend &&& wordNot writeMask = 0 ∧
      wordSub writeAppend writeAppend = 0 := by
  decide

/-- The mask with one pop inside. -/
theorem mask_pop :
    readAppend % 2 ^ 64 = readAppend ∧ readAppend &&& wordNot readMask = 0 ∧
      wordSub readAppend readAppend = 0 := by
  decide

theorem perform_push_full (hidle : state.callers thread = .idle) (hmask : state.mask = 0)
    (hfull : state.top = maxSz) (val : Value) :
    state.perform maxSz corrupt (.push thread val) = some (state, false) := by
  obtain ⟨hentered, hchecked, hleft⟩ := mask_push
  have hback := update_returned hidle
  have hsame : { state with top := maxSz, mask := 0 } = state := by
    rw [← hfull, ← hmask]
  simp [-Nat.reducePow, State.perform, State.step, hidle, runCall, State.advance, State.response,
    State.goto, maxConcurrntWrite, hmask, hfull, hentered, hchecked, hleft, hback, hsame]

theorem perform_push (hidle : state.callers thread = .idle) (hmask : state.mask = 0)
    (hroom : state.top ≠ maxSz) (val : Value) :
    state.perform maxSz corrupt (.push thread val) = some ({ state with
      top := state.top + 1
      arr := Function.update state.arr state.top val }, true) := by
  obtain ⟨hentered, hchecked, hleft⟩ := mask_push
  have hback := update_returned hidle
  simp [-Nat.reducePow, State.perform, State.step, hidle, runCall, State.advance, State.response,
    State.goto, maxConcurrntWrite, hmask, hroom, hentered, hchecked, hleft, hback]

theorem perform_pop_empty (hidle : state.callers thread = .idle) (hmask : state.mask = 0)
    (hempty : state.top = 0) :
    state.perform maxSz corrupt (.pop thread) = some (state, false) := by
  obtain ⟨hentered, hchecked, hleft⟩ := mask_pop
  have hback := update_returned hidle
  have hsame : { state with top := 0, mask := 0 } = state := by
    cases state
    subst hmask hempty
    rfl
  simp [-Nat.reducePow, State.perform, State.step, hidle, runCall, State.advance, State.response,
    State.goto, maxConcurrentRead, hmask, hempty, hentered, hchecked, hleft, hback, hsame]

theorem perform_pop (hidle : state.callers thread = .idle) (hmask : state.mask = 0)
    (hstored : state.top ≠ 0) :
    state.perform maxSz corrupt (.pop thread) = some ({ state with
      top := state.top - 1
      arr := Function.update state.arr (state.top - 1) corrupt }, true) := by
  obtain ⟨hentered, hchecked, hleft⟩ := mask_pop
  have hback := update_returned hidle
  simp [-Nat.reducePow, State.perform, State.step, hidle, runCall, State.advance, State.response,
    State.goto, maxConcurrentRead, hmask, hstored, hentered, hchecked, hleft, hback]

end Alone

/-- Between two calls the group lock is free and `top_` counts the elements. -/
structure State.Counts (state : State Value) (count : ℕ) : Prop where
  idle : ∀ thread, state.callers thread = .idle
  mask : state.mask = 0
  top : state.top = count

theorem State.Counts.perform
    {maxSz count : ℕ} {corrupt : Value} {state : State Value} (hcounts : state.Counts count)
    (call : LockFreeContainer.Call Value) :
    ∃ next, state.perform maxSz corrupt call =
        some (next, ((counter Value maxSz).apply count call).2) ∧
      next.Counts ((counter Value maxSz).apply count call).1 := by
  obtain ⟨hidle, hmask, rfl⟩ := hcounts
  cases call with
  | push thread val =>
      by_cases hfull : state.top = maxSz
      · simp only [counter, if_pos hfull]
        exact ⟨state, perform_push_full (hidle thread) hmask hfull val, hidle, hmask, rfl⟩
      · simp only [counter, if_neg hfull]
        exact ⟨_, perform_push (hidle thread) hmask hfull val, hidle, hmask, rfl⟩
  | pop thread =>
      by_cases hempty : state.top = 0
      · simp only [counter, if_pos hempty]
        exact ⟨state, perform_pop_empty (hidle thread) hmask hempty, hidle, hmask, rfl⟩
      · simp only [counter, if_neg hempty]
        exact ⟨_, perform_pop (hidle thread) hmask hempty, hidle, hmask, rfl⟩

end LockFreeStack

/-! ## The ring -/

namespace LockFreeQueue

variable {Value : Type u}

def State.isEmpty (state : State Value) : Bool := state.read == state.write

def State.size (maxSz : ℕ) (state : State Value) : Option ℕ :=
  if maxSz = 0 then none else some ((state.write + maxSz - state.read) % maxSz)

/-- What the next step of a thread returns, if it returns. -/
def State.response (maxSz : ℕ) (state : State Value) (thread : ℕ) : Option Bool :=
  match state.callers thread with
  | .pushReadRead _ oldWrite => if (oldWrite + 1) % maxSz = state.read then some false else none
  | .pushPublish _ oldWrite => if state.maxRead = oldWrite then some true else none
  | .popReadMaxRead oldRead => if oldRead = state.maxRead then some false else none
  | .popCas oldRead _ => if state.read = oldRead then some true else none
  | _ => none

/-- A call from its invocation to its return; alone it makes at most five accesses. -/
def State.perform (maxSz : ℕ) (state : State Value) :
    LockFreeContainer.Call Value → Option (State Value × Bool)
  | .push thread val =>
      if maxSz = 0 then none
      else
        match state.step maxSz (.push thread val) with
        | none => none
        | some called =>
            runCall (fun state => state.advance maxSz thread)
              (fun state => state.response maxSz thread) 5 called
  | .pop thread =>
      match state.step maxSz (.pop thread) with
      | none => none
      | some called =>
          runCall (fun state => state.advance maxSz thread)
            (fun state => state.response maxSz thread) 5 called

section Alone

variable {maxSz : ℕ} {state : State Value} {thread : ℕ}

theorem perform_push_full (hidle : state.callers thread = .idle) (hsize : maxSz ≠ 0)
    (hfull : (state.write + 1) % maxSz = state.read) (val : Value) :
    state.perform maxSz (.push thread val) = some (state, false) := by
  have hback := update_returned hidle
  simp [State.perform, State.step, hidle, runCall, State.advance, State.response, State.goto,
    hsize, hfull, hback]

theorem perform_push (hidle : state.callers thread = .idle) (hsize : maxSz ≠ 0)
    (hroom : (state.write + 1) % maxSz ≠ state.read) (hmax : state.maxRead = state.write)
    (val : Value) :
    state.perform maxSz (.push thread val) = some ({ state with
      write := (state.write + 1) % maxSz
      maxRead := (state.write + 1) % maxSz
      arr := Function.update state.arr state.write val
      reserved := state.reserved ++ [(thread, val)]
      pushed := state.pushed ++ [(thread, val)] }, true) := by
  have hback := update_returned hidle
  simp [State.perform, State.step, hidle, runCall, State.advance, State.response, State.goto,
    hsize, hroom, hmax, hback]

theorem perform_pop_empty (hidle : state.callers thread = .idle)
    (hempty : state.read = state.maxRead) :
    state.perform maxSz (.pop thread) = some (state, false) := by
  have hback := update_returned hidle
  cases state
  simp only at hidle hback hempty
  subst hempty
  simp [State.perform, State.step, hidle, runCall, State.advance, State.response, State.goto, hback]

theorem perform_pop (hidle : state.callers thread = .idle)
    (hstored : state.read ≠ state.maxRead) :
    state.perform maxSz (.pop thread) = some ({ state with
      read := (state.read + 1) % maxSz
      popped := state.popped ++ [(thread, state.arr state.read)] }, true) := by
  have hback := update_returned hidle
  simp [State.perform, State.step, hidle, runCall, State.advance, State.response, State.goto,
    hstored, hback]

end Alone

/-! ## Indices that wrap -/

theorem ring_cases {maxSz read count : ℕ} (hread : read < maxSz) (hcount : count < maxSz) :
    (read + count < maxSz ∧ (read + count) % maxSz = read + count) ∨
      (maxSz ≤ read + count ∧ (read + count) % maxSz = read + count - maxSz) := by
  by_cases hwrap : read + count < maxSz
  · exact Or.inl ⟨hwrap, Nat.mod_eq_of_lt hwrap⟩
  · refine Or.inr ⟨Nat.le_of_not_lt hwrap, ?_⟩
    rw [Nat.mod_eq_sub_mod (Nat.le_of_not_lt hwrap), Nat.mod_eq_of_lt (by omega)]

theorem ring_size {maxSz read count : ℕ} (hread : read < maxSz) (hcount : count < maxSz) :
    ((read + count) % maxSz + maxSz - read) % maxSz = count := by
  rcases ring_cases hread hcount with ⟨hwrap, hmod⟩ | ⟨hwrap, hmod⟩
  · rw [hmod, show read + count + maxSz - read = count + maxSz by omega, Nat.add_mod_right,
      Nat.mod_eq_of_lt hcount]
  · rw [hmod, show read + count - maxSz + maxSz - read = count by omega, Nat.mod_eq_of_lt hcount]

theorem ring_empty {maxSz read count : ℕ} (hread : read < maxSz) (hcount : count < maxSz) :
    read = (read + count) % maxSz ↔ count = 0 := by
  rcases ring_cases hread hcount with ⟨hwrap, hmod⟩ | ⟨hwrap, hmod⟩
  · rw [hmod]
    omega
  · rw [hmod]
    omega

theorem ring_full {maxSz read count : ℕ} (hread : read < maxSz) (hcount : count < maxSz) :
    ((read + count) % maxSz + 1) % maxSz = read ↔ count = maxSz - 1 := by
  rw [Nat.mod_add_mod, Nat.add_assoc]
  by_cases hlast : count + 1 < maxSz
  · have hempty := ring_empty hread hlast
    rw [eq_comm, hempty]
    omega
  · rw [show count + 1 = maxSz by omega, Nat.add_mod_right, Nat.mod_eq_of_lt hread]
    omega

/-- Between two calls everything reserved is published, and `write_` is `count` slots
ahead of `read_`. -/
structure State.Counts (maxSz : ℕ) (state : State Value) (count : ℕ) : Prop where
  idle : ∀ thread, state.callers thread = .idle
  read_lt : state.read < maxSz
  count_lt : count < maxSz
  write : state.write = (state.read + count) % maxSz
  maxRead : state.maxRead = state.write

namespace State.Counts

variable {maxSz count : ℕ} {state : State Value}

theorem start (hsize : maxSz ≠ 0) (memory : ℕ → Value) :
    (construct memory).Counts maxSz 0 where
  idle := fun _ => rfl
  read_lt := Nat.pos_of_ne_zero hsize
  count_lt := Nat.pos_of_ne_zero hsize
  write := (Nat.zero_mod maxSz).symm
  maxRead := rfl

theorem size (hcounts : state.Counts maxSz count) : state.size maxSz = some count := by
  have hread := hcounts.read_lt
  unfold State.size
  rw [if_neg (by omega), hcounts.write, ring_size hread hcounts.count_lt]

theorem isEmpty (hcounts : state.Counts maxSz count) : state.isEmpty = decide (count = 0) := by
  unfold State.isEmpty
  rw [hcounts.write, beq_eq_decide]
  exact decide_eq_decide.mpr (ring_empty hcounts.read_lt hcounts.count_lt)

theorem push (hcounts : state.Counts maxSz count) (thread : ℕ) (val : Value) :
    ∃ next, state.perform maxSz (.push thread val) =
        some (next, ((counter Value (maxSz - 1)).apply count (.push thread val)).2) ∧
      next.Counts maxSz ((counter Value (maxSz - 1)).apply count (.push thread val)).1 := by
  have hsize : maxSz ≠ 0 := Nat.ne_zero_of_lt hcounts.read_lt
  have hfullIff := ring_full hcounts.read_lt hcounts.count_lt
  rw [← hcounts.write] at hfullIff
  by_cases hfull : count = maxSz - 1
  · simp only [counter, if_pos hfull]
    exact ⟨state, perform_push_full (hcounts.idle thread) hsize (hfullIff.mpr hfull) val, hcounts⟩
  · simp only [counter, if_neg hfull]
    have hcount := hcounts.count_lt
    refine ⟨_, perform_push (hcounts.idle thread) hsize (fun heq => hfull (hfullIff.mp heq))
      hcounts.maxRead val, hcounts.idle, hcounts.read_lt, by omega, ?_, rfl⟩
    rw [hcounts.write, Nat.mod_add_mod, Nat.add_assoc]

theorem pop (hcounts : state.Counts maxSz count) (thread : ℕ) :
    ∃ next, state.perform maxSz (.pop thread) =
        some (next, ((counter Value (maxSz - 1)).apply count (.pop thread)).2) ∧
      next.Counts maxSz ((counter Value (maxSz - 1)).apply count (.pop thread)).1 := by
  have hemptyIff := ring_empty hcounts.read_lt hcounts.count_lt
  rw [← hcounts.write, ← hcounts.maxRead] at hemptyIff
  by_cases hempty : count = 0
  · simp only [counter, if_pos hempty]
    exact ⟨state, perform_pop_empty (hcounts.idle thread) (hemptyIff.mpr hempty), hcounts⟩
  · simp only [counter, if_neg hempty]
    have hread := hcounts.read_lt
    have hcount := hcounts.count_lt
    refine ⟨_, perform_pop (hcounts.idle thread) (fun heq => hempty (hemptyIff.mp heq)),
      hcounts.idle, Nat.mod_lt _ (by omega), by omega, ?_, hcounts.maxRead⟩
    rw [hcounts.write, Nat.mod_add_mod]
    congr 1
    omega

theorem perform (hcounts : state.Counts maxSz count) (call : LockFreeContainer.Call Value) :
    ∃ next, state.perform maxSz call =
        some (next, ((counter Value (maxSz - 1)).apply count call).2) ∧
      next.Counts maxSz ((counter Value (maxSz - 1)).apply count call).1 := by
  cases call with
  | push thread val => exact hcounts.push thread val
  | pop thread => exact hcounts.pop thread

end State.Counts

end LockFreeQueue

/-! ## The observers -/

namespace LockFreeContainer

variable {Value : Type u}

inductive Kind where
  | stack
  | queue
deriving DecidableEq

/-- The return values of the calls, and then `Size()` and `IsEmpty()`. -/
structure Observation where
  rets : List Bool
  size : Option ℕ
  isEmpty : Bool
deriving DecidableEq

open SequentialObject

/-- A new container of a capacity, the calls, and the observers after them.  `corrupt`
is what the stack leaves in a slot that was popped. -/
def observe (capacity : ℕ) (corrupt : Value) (memory : ℕ → Value) (calls : List (Call Value)) :
    Kind → Option Observation
  | .stack =>
      match performAll (LockFreeStack.State.perform capacity corrupt)
        (LockFreeStack.construct memory) calls with
      | none => none
      | some (state, rets) => some ⟨rets, some state.size, state.isEmpty⟩
  | .queue =>
      match performAll (LockFreeQueue.State.perform capacity)
        (LockFreeQueue.construct memory) calls with
      | none => none
      | some (state, rets) => some ⟨rets, state.size capacity, state.isEmpty⟩

/-- Both observers tell the number of stored values. -/
def Observation.Right (calls : List (Call Value)) (observation : Observation) : Prop :=
  ∃ size, observation.size = some size ∧ (size : ℤ) = balance calls observation.rets ∧
    (observation.isEmpty = true ↔ balance calls observation.rets = 0)

theorem observe_stack (capacity : ℕ) (corrupt : Value) (memory : ℕ → Value)
    (calls : List (Call Value)) :
    ∃ count rets, (counter Value capacity).applyAll 0 calls = (count, rets) ∧
      observe capacity corrupt memory calls .stack = some ⟨rets, some count, count != 0⟩ := by
  have hstart : (LockFreeStack.construct memory).Counts 0 := ⟨fun _ => rfl, rfl, rfl⟩
  have hcall : ∀ (state : LockFreeStack.State Value) count (call : Call Value),
      state.Counts count →
        ∃ next, state.perform capacity corrupt call =
            some (next, ((counter Value capacity).apply count call).2) ∧
          next.Counts ((counter Value capacity).apply count call).1 :=
    fun _ _ call hcounts => hcounts.perform call
  obtain ⟨state, hperformed, hcounts⟩ :=
    performAll_refines LockFreeStack.State.Counts hcall hstart calls
  refine ⟨_, _, rfl, ?_⟩
  simp only [observe, hperformed, LockFreeStack.State.size, LockFreeStack.State.isEmpty,
    hcounts.top]

theorem observe_queue {capacity : ℕ} (hcapacity : capacity ≠ 0) (corrupt : Value)
    (memory : ℕ → Value) (calls : List (Call Value)) :
    ∃ count rets, (counter Value (capacity - 1)).applyAll 0 calls = (count, rets) ∧
      observe capacity corrupt memory calls .queue =
        some ⟨rets, some count, decide (count = 0)⟩ := by
  obtain ⟨state, hperformed, hcounts⟩ :=
    performAll_refines (LockFreeQueue.State.Counts capacity)
      (fun _ _ call hcounts => hcounts.perform call)
      (LockFreeQueue.State.Counts.start hcapacity memory) calls
  refine ⟨_, _, rfl, ?_⟩
  simp only [observe, hperformed, hcounts.size, hcounts.isEmpty]

/-- After every sequence of calls the observers are right exactly when the container is
the ring and its capacity is not zero. -/
theorem observe_right_iff
    (kind : Kind) (capacity : ℕ) (corrupt : Value) (memory : ℕ → Value)
    (calls : List (Call Value)) :
    (∃ observation, observe capacity corrupt memory calls kind = some observation ∧
      observation.Right calls) ↔ kind = .queue ∧ capacity ≠ 0 := by
  cases kind with
  | stack =>
      obtain ⟨count, rets, hcounter, hobserve⟩ := observe_stack capacity corrupt memory calls
      have hbalance := counter_applyAll capacity 0 calls
      rw [hcounter, Nat.cast_zero, zero_add] at hbalance
      refine iff_of_false ?_ fun hboth => Kind.noConfusion hboth.1
      rintro ⟨observation, hobservation, size, -, -, hempty⟩
      rw [hobserve] at hobservation
      cases hobservation
      simp only at hempty hbalance
      rw [← hbalance, bne_iff_ne] at hempty
      omega
  | queue =>
      rw [and_iff_right rfl]
      constructor
      · rintro ⟨observation, hobservation, size, hsize, -, -⟩ rfl
        simp only [observe] at hobservation
        cases hall : performAll (LockFreeQueue.State.perform 0)
            (LockFreeQueue.construct memory) calls with
        | none =>
            rw [hall] at hobservation
            exact absurd hobservation.symm (Option.some_ne_none _)
        | some final =>
            rw [hall] at hobservation
            cases hobservation
            exact absurd hsize.symm (Option.some_ne_none _)
      · intro hcapacity
        obtain ⟨count, rets, hcounter, hobserve⟩ :=
          observe_queue hcapacity corrupt memory calls
        have hbalance := counter_applyAll (capacity - 1) 0 calls
        rw [hcounter, Nat.cast_zero, zero_add] at hbalance
        refine ⟨_, hobserve, count, rfl, hbalance, ?_⟩
        simp only at hbalance ⊢
        rw [← hbalance, decide_eq_true_iff]
        omega

/-- A stack of four slots that holds one value calls itself empty. -/
theorem observe_stack_pushed :
    observe 4 0 (fun _ => 0) [.push 0 7] .stack = some ⟨[true], some 1, true⟩ ∧
      ¬ Observation.Right [Call.push 0 7] ⟨[true], some 1, true⟩ := by
  refine ⟨by decide, ?_⟩
  rintro ⟨size, -, -, hempty⟩
  exact absurd (hempty.mp rfl) (by decide)

end LockFreeContainer

end BackEndFacility
