import BackEndFacility.AtomicObject
import BackEndFacility.AtomicOps
import Mathlib.Data.Finset.Card

/-!
# The bounded stack of `misc/LockFreeContainer.h`

`LockFreeStack` keeps its elements in `arr_[0 .. top_)`.  A call first enters
its group through the word `mask_`, which counts the pushes inside in its
upper half and the pops inside in its lower half, and admits a call only while
the other group is empty.  Inside, a call claims a slot by a compare-and-swap
on `top_`, and only then writes or reads the slot.

Every atomic builtin and every plain access to shared memory is one step.  An
assertion that fails ends its thread.  The linearization point of a call is
the successful compare-and-swap on `top_`, or the read of `top_` that finds
the stack full or empty.
-/

namespace BackEndFacility
namespace LockFreeStack

universe u

variable {Value : Type u}

/-! ## The stack and its callers -/

def readMask : ℕ := 0xffff

def writeMask : ℕ := readMask <<< 16

def maxConcurrentRead : ℕ := 0xff

def maxConcurrntWrite : ℕ := 0xff

def writeAppend : ℕ := 0x01 <<< 16

def readAppend : ℕ := 0x01

/-- The next access of a thread inside `Push` or `Pop`, with the local
variables that are live there. -/
inductive Pc (Value : Type u) where
  | idle
  | pushReadMask (val : Value)
  | pushEnter (val : Value) (oldMask : ℕ)
  | pushReadTop (val : Value)
  | pushCasTop (val : Value) (oldTop : ℕ)
  | pushStore (val : Value) (oldTop : ℕ)
  | pushAssert (ret : Bool)
  | pushReadLeave (ret : Bool)
  | pushLeave (ret : Bool) (oldMask : ℕ)
  | popReadMask
  | popEnter (oldMask : ℕ)
  | popReadTop
  | popCasTop (oldTop : ℕ)
  | popLoad (oldTop : ℕ)
  | popErase (oldTop : ℕ) (ret : Value)
  | popAssert (ret : Option Value)
  | popReadLeave (ret : Option Value)
  | popLeave (ret : Option Value) (oldMask : ℕ)
  | aborted

structure State (Value : Type u) where
  top : ℕ
  mask : ℕ
  arr : ℕ → Value
  callers : ℕ → Pc Value

inductive Action (Value : Type u) where
  | push (thread : ℕ) (val : Value)
  | pop (thread : ℕ)
  | advance (thread : ℕ)

/-- The constructor; `new Type[sz]` leaves the elements as they are. -/
def construct (memory : ℕ → Value) : State Value where
  top := 0
  mask := 0
  arr := memory
  callers := fun _ => .idle

def State.goto (state : State Value) (thread : ℕ) (pc : Pc Value) :
    State Value :=
  { state with callers := Function.update state.callers thread pc }

/-- The next step of a thread that is inside a call.  `corrupt` is the value
`(Type)0xcdcd` a pop leaves in its slot. -/
def State.advance (maxSz : ℕ) (corrupt : Value) (state : State Value)
    (thread : ℕ) : Option (State Value) :=
  match state.callers thread with
  | .idle => none
  | .aborted => none
  | .pushReadMask val =>
      let oldMask := state.mask &&& wordNot readMask
      if oldMask >>> 16 ≥ maxConcurrntWrite then
        some (state.goto thread (.pushReadMask val))
      else
        some (state.goto thread (.pushEnter val oldMask))
  | .pushEnter val oldMask =>
      if state.mask = oldMask then
        some ({ state with
          mask := (oldMask + writeAppend) % 2 ^ 64 }.goto thread
            (.pushReadTop val))
      else
        some (state.goto thread (.pushReadMask val))
  | .pushReadTop val =>
      if state.top = maxSz then
        some (state.goto thread (.pushAssert false))
      else
        some (state.goto thread (.pushCasTop val state.top))
  | .pushCasTop val oldTop =>
      if state.top = oldTop then
        some ({ state with top := oldTop + 1 }.goto thread
          (.pushStore val oldTop))
      else
        some (state.goto thread (.pushReadTop val))
  | .pushStore val oldTop =>
      some ({ state with
        arr := Function.update state.arr oldTop val }.goto thread
          (.pushAssert true))
  | .pushAssert ret =>
      if state.mask &&& wordNot writeMask = 0 then
        some (state.goto thread (.pushReadLeave ret))
      else
        some (state.goto thread .aborted)
  | .pushReadLeave ret =>
      some (state.goto thread (.pushLeave ret state.mask))
  | .pushLeave ret oldMask =>
      if state.mask = oldMask then
        some ({ state with
          mask := wordSub oldMask writeAppend }.goto thread .idle)
      else
        some (state.goto thread (.pushReadLeave ret))
  | .popReadMask =>
      let oldMask := state.mask &&& wordNot writeMask
      if oldMask ≥ maxConcurrentRead then
        some (state.goto thread .popReadMask)
      else
        some (state.goto thread (.popEnter oldMask))
  | .popEnter oldMask =>
      if state.mask = oldMask then
        some ({ state with
          mask := (oldMask + readAppend) % 2 ^ 64 }.goto thread .popReadTop)
      else
        some (state.goto thread .popReadMask)
  | .popReadTop =>
      if state.top = 0 then
        some (state.goto thread (.popAssert none))
      else
        some (state.goto thread (.popCasTop state.top))
  | .popCasTop oldTop =>
      if state.top = oldTop then
        some ({ state with top := oldTop - 1 }.goto thread (.popLoad oldTop))
      else
        some (state.goto thread .popReadTop)
  | .popLoad oldTop =>
      some (state.goto thread (.popErase oldTop (state.arr (oldTop - 1))))
  | .popErase oldTop ret =>
      some ({ state with
        arr := Function.update state.arr (oldTop - 1) corrupt }.goto thread
          (.popAssert (some ret)))
  | .popAssert ret =>
      if state.mask &&& wordNot readMask = 0 then
        some (state.goto thread (.popReadLeave ret))
      else
        some (state.goto thread .aborted)
  | .popReadLeave ret =>
      some (state.goto thread (.popLeave ret state.mask))
  | .popLeave ret oldMask =>
      if state.mask = oldMask then
        some ({ state with
          mask := wordSub oldMask readAppend }.goto thread .idle)
      else
        some (state.goto thread (.popReadLeave ret))

def State.step (maxSz : ℕ) (corrupt : Value) (state : State Value) :
    Action Value → Option (State Value)
  | .push thread val =>
      match state.callers thread with
      | .idle => some (state.goto thread (.pushReadMask val))
      | _ => none
  | .pop thread =>
      match state.callers thread with
      | .idle => some (state.goto thread .popReadMask)
      | _ => none
  | .advance thread => state.advance maxSz corrupt thread

def machine (maxSz : ℕ) (corrupt : Value) (memory : ℕ → Value) :
    Machine (State Value) (Action Value) where
  start := construct memory
  step := State.step maxSz corrupt

/-! ## The stack it implements -/

inductive Call (Value : Type u) where
  | push (val : Value)
  | pop

inductive Result (Value : Type u) where
  | pushed (ret : Bool)
  | popped (ret : Option Value)

/-- A stack of at most `maxSz` elements, the last one pushed in front. -/
def boundedStack (Value : Type u) (maxSz : ℕ) :
    SequentialObject (List Value) (Call Value) (Result Value) where
  initial := []
  apply := fun stack call =>
    match call with
    | .push val =>
        if stack.length = maxSz then (stack, .pushed false)
        else (val :: stack, .pushed true)
    | .pop =>
        match stack with
        | [] => ([], .popped none)
        | val :: rest => (rest, .popped (some val))

open SequentialObject

/-- The invocation, linearization point or response a step is. -/
def observe (maxSz : ℕ) (state : State Value) :
    Action Value → List (Event (Call Value) (Result Value))
  | .push thread val => [.invoke thread (.push val)]
  | .pop thread => [.invoke thread .pop]
  | .advance thread =>
      match state.callers thread with
      | .pushReadTop _ => if state.top = maxSz then [.commit thread] else []
      | .pushCasTop _ oldTop =>
          if state.top = oldTop then [.commit thread] else []
      | .pushLeave ret oldMask =>
          if state.mask = oldMask then [.respond thread (.pushed ret)] else []
      | .popReadTop => if state.top = 0 then [.commit thread] else []
      | .popCasTop oldTop =>
          if state.top = oldTop then [.commit thread] else []
      | .popLeave ret oldMask =>
          if state.mask = oldMask then [.respond thread (.popped ret)] else []
      | _ => []

inductive Side where
  | writer
  | reader
  deriving DecidableEq, Repr

/-- What one thread of a group adds to the mask. -/
def Side.append : Side → ℕ
  | .writer => writeAppend
  | .reader => readAppend

/-- The group a thread counts in, from its entry to its exit. -/
def Pc.side : Pc Value → Option Side
  | .pushReadTop _ => some .writer
  | .pushCasTop _ _ => some .writer
  | .pushStore _ _ => some .writer
  | .pushAssert _ => some .writer
  | .pushReadLeave _ => some .writer
  | .pushLeave _ _ => some .writer
  | .popReadTop => some .reader
  | .popCasTop _ => some .reader
  | .popLoad _ => some .reader
  | .popErase _ _ => some .reader
  | .popAssert _ => some .reader
  | .popReadLeave _ => some .reader
  | .popLeave _ _ => some .reader
  | _ => none

/-- The mask counts the threads inside each group; one group is empty, and
neither exceeds its limit. -/
structure GroupLocked (state : State Value)
    (inside : Side → Finset ℕ) : Prop where
  members : ∀ thread side,
    thread ∈ inside side ↔ (state.callers thread).side = some side
  mask : state.mask =
    ((inside .writer).card <<< 16) + (inside .reader).card
  oneGroup : inside .writer = ∅ ∨ inside .reader = ∅
  limit : ∀ side, (inside side).card ≤ 0xff

/-! ## The group lock -/

theorem writers_and (writers : ℕ) (hwriters : writers < 256) :
    (writers <<< 16) &&& wordNot readMask = writers <<< 16 ∧
      (writers <<< 16) &&& wordNot writeMask = 0 := by
  revert writers
  decide +kernel

theorem readers_and (readers : ℕ) (hreaders : readers < 256) :
    readers &&& wordNot readMask = 0 ∧
      readers &&& wordNot writeMask = readers := by
  revert readers
  decide +kernel

namespace GroupLocked

variable {state : State Value} {inside : Side → Finset ℕ}

theorem writer_only (hlock : GroupLocked state inside) {thread : ℕ}
    (hside : (state.callers thread).side = some .writer) :
    inside .reader = ∅ := by
  rcases hlock.oneGroup with hempty | hempty
  · have hmem := (hlock.members thread .writer).mpr hside
    rw [hempty] at hmem
    simp at hmem
  · exact hempty

theorem reader_only (hlock : GroupLocked state inside) {thread : ℕ}
    (hside : (state.callers thread).side = some .reader) :
    inside .writer = ∅ := by
  rcases hlock.oneGroup with hempty | hempty
  · exact hempty
  · have hmem := (hlock.members thread .reader).mpr hside
    rw [hempty] at hmem
    simp at hmem

theorem excludes (hlock : GroupLocked state inside) {first second : ℕ}
    (hwriter : (state.callers first).side = some .writer) :
    (state.callers second).side ≠ some .reader := by
  intro hreader
  have hmem := (hlock.members second .reader).mpr hreader
  rw [hlock.writer_only hwriter] at hmem
  simp at hmem

theorem and_readMask (hlock : GroupLocked state inside) :
    state.mask &&& wordNot readMask = (inside .writer).card <<< 16 := by
  have hwriters := hlock.limit .writer
  have hreaders := hlock.limit .reader
  rw [hlock.mask]
  rcases hlock.oneGroup with hempty | hempty
  · rw [hempty, Finset.card_empty, Nat.zero_shiftLeft, Nat.zero_add]
    exact (readers_and _ (by omega)).1
  · rw [hempty, Finset.card_empty, Nat.add_zero]
    exact (writers_and _ (by omega)).1

theorem and_writeMask (hlock : GroupLocked state inside) :
    state.mask &&& wordNot writeMask = (inside .reader).card := by
  have hwriters := hlock.limit .writer
  have hreaders := hlock.limit .reader
  rw [hlock.mask]
  rcases hlock.oneGroup with hempty | hempty
  · rw [hempty, Finset.card_empty, Nat.zero_shiftLeft, Nat.zero_add]
    exact (readers_and _ (by omega)).2
  · rw [hempty, Finset.card_empty, Nat.add_zero]
    exact (writers_and _ (by omega)).2

/-- A step that does not cross the border of a group. -/
theorem stay (hlock : GroupLocked state inside) {next : State Value}
    {thread : ℕ} {pc : Pc Value} (hmask : next.mask = state.mask)
    (hcallers : next.callers = Function.update state.callers thread pc)
    (hside : pc.side = (state.callers thread).side) :
    GroupLocked next inside := by
  refine ⟨?_, ?_, hlock.oneGroup, hlock.limit⟩
  · intro other side
    rw [hcallers, hlock.members other side]
    by_cases heq : other = thread
    · subst heq
      rw [Function.update_self, hside]
    · rw [Function.update_of_ne heq]
  · rw [hmask, hlock.mask]

/-- A thread enters its group while the other one is empty. -/
theorem enter (hlock : GroupLocked state inside) {thread mask : ℕ}
    {pc : Pc Value} {side : Side}
    (hbefore : (state.callers thread).side = none)
    (hside : pc.side = some side)
    (hother : ∀ other, other ≠ side → inside other = ∅)
    (hlimit : (inside side).card < 0xff)
    (hmask : mask = state.mask + side.append) :
    GroupLocked ({ state with mask := mask }.goto thread pc)
      (Function.update inside side (insert thread (inside side))) := by
  have hfresh : thread ∉ inside side := by
    rw [hlock.members, hbefore]
    exact nofun
  have hcard : (insert thread (inside side)).card = (inside side).card + 1 :=
    Finset.card_insert_of_notMem hfresh
  refine ⟨?_, ?_, ?_, ?_⟩
  · intro other group
    change _ ↔ (Function.update state.callers thread pc other).side = _
    by_cases hgroup : group = side
    · subst hgroup
      rw [Function.update_self, Finset.mem_insert, hlock.members]
      by_cases heq : other = thread
      · subst heq
        simp [hside]
      · simp [heq]
    · rw [Function.update_of_ne hgroup, hother group hgroup]
      by_cases heq : other = thread
      · subst heq
        rw [Function.update_self, hside]
        simp [Ne.symm hgroup]
      · rw [Function.update_of_ne heq, ← hlock.members, hother group hgroup]
  · change mask = _
    rw [hmask, hlock.mask]
    cases side with
    | writer =>
        rw [Function.update_self, hcard,
          Function.update_of_ne (by decide : Side.reader ≠ Side.writer)]
        simp only [Side.append, writeAppend, Nat.shiftLeft_eq]
        omega
    | reader =>
        rw [Function.update_self, hcard,
          Function.update_of_ne (by decide : Side.writer ≠ Side.reader)]
        simp only [Side.append, readAppend]
        omega
  · cases side with
    | writer =>
        right
        rw [Function.update_of_ne (by decide)]
        exact hother .reader (by decide)
    | reader =>
        left
        rw [Function.update_of_ne (by decide)]
        exact hother .writer (by decide)
  · intro group
    by_cases hgroup : group = side
    · subst hgroup
      rw [Function.update_self, hcard]
      omega
    · rw [Function.update_of_ne hgroup]
      exact hlock.limit group

/-- A thread leaves its group. -/
theorem leave (hlock : GroupLocked state inside) {thread mask : ℕ}
    {pc : Pc Value} {side : Side}
    (hbefore : (state.callers thread).side = some side)
    (hside : pc.side = none)
    (hmask : mask = state.mask - side.append) :
    GroupLocked ({ state with mask := mask }.goto thread pc)
      (Function.update inside side ((inside side).erase thread)) := by
  have hmember : thread ∈ inside side := (hlock.members thread side).mpr hbefore
  have hcard : ((inside side).erase thread).card = (inside side).card - 1 :=
    Finset.card_erase_of_mem hmember
  have hpositive : 0 < (inside side).card := Finset.card_pos.mpr ⟨_, hmember⟩
  refine ⟨?_, ?_, ?_, ?_⟩
  · intro other group
    change _ ↔ (Function.update state.callers thread pc other).side = _
    by_cases hgroup : group = side
    · subst hgroup
      rw [Function.update_self, Finset.mem_erase, hlock.members]
      by_cases heq : other = thread
      · subst heq
        simp [hside]
      · simp [heq]
    · rw [Function.update_of_ne hgroup, hlock.members]
      by_cases heq : other = thread
      · subst heq
        rw [Function.update_self, hside, hbefore]
        simp [Ne.symm hgroup]
      · rw [Function.update_of_ne heq]
  · change mask = _
    rw [hmask, hlock.mask]
    cases side with
    | writer =>
        rw [Function.update_self, hcard,
          Function.update_of_ne (by decide : Side.reader ≠ Side.writer)]
        simp only [Side.append, writeAppend, Nat.shiftLeft_eq]
        omega
    | reader =>
        rw [Function.update_self, hcard,
          Function.update_of_ne (by decide : Side.writer ≠ Side.reader)]
        simp only [Side.append, readAppend]
        omega
  · cases side with
    | writer =>
        right
        rw [Function.update_of_ne (by decide)]
        exact hlock.writer_only hbefore
    | reader =>
        left
        rw [Function.update_of_ne (by decide)]
        exact hlock.reader_only hbefore
  · intro group
    by_cases hgroup : group = side
    · subst hgroup
      rw [Function.update_self, hcard]
      have := hlock.limit group
      omega
    · rw [Function.update_of_ne hgroup]
      exact hlock.limit group

end GroupLocked

/-! ## The simulation relation -/

/-- Every element of a stack sits in the slot whose number is the number of
elements below it. -/
def Held (cell : ℕ → Value → Prop) : List Value → Prop
  | [] => True
  | val :: rest => cell rest.length val ∧ Held cell rest

theorem Held.imp {cell other : ℕ → Value → Prop} {stack : List Value}
    (hheld : Held cell stack)
    (himp : ∀ slot val, slot < stack.length → cell slot val →
      other slot val) : Held other stack := by
  induction stack with
  | nil => trivial
  | cons val rest ih =>
      refine ⟨himp _ _ (by simp) hheld.1, ih hheld.2 ?_⟩
      intro slot other hlt
      exact himp slot other (by rw [List.length_cons]; omega)

/-- The slot a push has claimed and not written yet. -/
def Pc.storing : Pc Value → Option ℕ
  | .pushStore _ oldTop => some oldTop
  | _ => none

/-- The slot a pop has claimed and not left yet. -/
def Pc.taking : Pc Value → Option ℕ
  | .popLoad oldTop => some (oldTop - 1)
  | .popErase oldTop _ => some (oldTop - 1)
  | _ => none

/-- The slot holds the value, or the push that claimed it is about to write
the value there. -/
structure State.Cell (state : State Value) (slot : ℕ) (val : Value) :
    Prop where
  pending : ∀ thread other,
    state.callers thread = .pushStore other slot → other = val
  stored : (∀ thread other, state.callers thread ≠ .pushStore other slot) →
    state.arr slot = val

/-- What the phase of a thread says about where it is in the code. -/
def Pc.Matches (maxSz : ℕ) (arr : ℕ → Value) :
    Pc Value → Phase (Call Value) (Result Value) → Prop
  | .idle, phase => phase = .idle
  | .pushReadMask val, phase => phase = .called (.push val)
  | .pushEnter val oldMask, phase => phase = .called (.push val) ∧
      ∃ writers < 0xff, oldMask = writers <<< 16
  | .pushReadTop val, phase => phase = .called (.push val)
  | .pushCasTop val oldTop, phase =>
      phase = .called (.push val) ∧ oldTop ≠ maxSz
  | .pushStore _ _, phase => phase = .applied (.pushed true)
  | .pushAssert ret, phase => phase = .applied (.pushed ret)
  | .pushReadLeave ret, phase => phase = .applied (.pushed ret)
  | .pushLeave ret _, phase => phase = .applied (.pushed ret)
  | .popReadMask, phase => phase = .called .pop
  | .popEnter oldMask, phase => phase = .called .pop ∧ oldMask < 0xff
  | .popReadTop, phase => phase = .called .pop
  | .popCasTop oldTop, phase => phase = .called .pop ∧ oldTop ≠ 0
  | .popLoad oldTop, phase =>
      phase = .applied (.popped (some (arr (oldTop - 1))))
  | .popErase _ ret, phase => phase = .applied (.popped (some ret))
  | .popAssert ret, phase => phase = .applied (.popped ret)
  | .popReadLeave ret, phase => phase = .applied (.popped ret)
  | .popLeave ret _, phase => phase = .applied (.popped ret)
  | .aborted, _ => False

theorem Pc.Matches.congr {maxSz : ℕ} {arr other : ℕ → Value} {pc : Pc Value}
    {phase : Phase (Call Value) (Result Value)}
    (hmatches : pc.Matches maxSz arr phase)
    (hagree : ∀ oldTop, pc = .popLoad oldTop →
      other (oldTop - 1) = arr (oldTop - 1)) :
    pc.Matches maxSz other phase := by
  cases pc with
  | popLoad oldTop =>
      change phase = .applied (.popped (some (other (oldTop - 1))))
      rw [hagree oldTop rfl]
      exact hmatches
  | _ => exact hmatches

abbrev StackConfig (Value : Type u) :=
  Config (List Value) (Call Value) (Result Value)

/-- The state of the stack and the atomic stack it stands for. -/
structure State.Simulates (maxSz : ℕ) (state : State Value)
    (config : StackConfig Value) : Prop where
  lock : ∃ inside, GroupLocked state inside
  top : state.top = config.object.length
  capacity : config.object.length ≤ maxSz
  held : Held state.Cell config.object
  storing : ∀ thread slot, (state.callers thread).storing = some slot →
    slot < state.top
  storeOnce : ∀ first second slot,
    (state.callers first).storing = some slot →
      (state.callers second).storing = some slot → first = second
  taking : ∀ thread slot, (state.callers thread).taking = some slot →
    state.top ≤ slot
  takeOnce : ∀ first second slot,
    (state.callers first).taking = some slot →
      (state.callers second).taking = some slot → first = second
  phases : ∀ thread,
    (state.callers thread).Matches maxSz state.arr (config.phases thread)

theorem Pc.side_of_storing {pc : Pc Value} {slot : ℕ}
    (hstoring : pc.storing = some slot) : pc.side = some .writer := by
  cases pc <;> simp [Pc.storing] at hstoring
  rfl

theorem Pc.side_of_taking {pc : Pc Value} {slot : ℕ}
    (htaking : pc.taking = some slot) : pc.side = some .reader := by
  cases pc <;> simp [Pc.taking] at htaking <;> rfl

theorem simulates_construct (maxSz : ℕ) (memory : ℕ → Value) :
    (construct memory).Simulates maxSz (boundedStack Value maxSz).start := by
  refine ⟨⟨fun _ => ∅, ?_, ?_, ?_, ?_⟩, rfl, Nat.zero_le _, trivial, ?_, ?_,
    ?_, ?_, ?_⟩
  all_goals simp [construct, Pc.side, Pc.storing, Pc.taking, Pc.Matches,
    SequentialObject.start]

namespace State.Simulates

variable {maxSz : ℕ} {state : State Value} {config : StackConfig Value}

/-- While a pop is inside, every claimed slot has been written. -/
theorem none_storing (hsim : state.Simulates maxSz config) {thread : ℕ}
    (hside : (state.callers thread).side = some .reader) (other : ℕ) :
    (state.callers other).storing = none := by
  obtain ⟨inside, hlock⟩ := hsim.lock
  cases hstoring : (state.callers other).storing with
  | none => rfl
  | some slot =>
      exact absurd hside (hlock.excludes (Pc.side_of_storing hstoring))

theorem none_taking (hsim : state.Simulates maxSz config) {thread : ℕ}
    (hside : (state.callers thread).side = some .writer) (other : ℕ) :
    (state.callers other).taking = none := by
  obtain ⟨inside, hlock⟩ := hsim.lock
  cases htaking : (state.callers other).taking with
  | none => rfl
  | some slot =>
      exact absurd (Pc.side_of_taking htaking) (hlock.excludes hside)

theorem none_storing_update (hsim : state.Simulates maxSz config) {thread : ℕ}
    {pc : Pc Value} (hside : (state.callers thread).side = some .reader)
    (hpc : pc.storing = none) (other : ℕ) :
    (Function.update state.callers thread pc other).storing = none := by
  by_cases heq : other = thread
  · rw [heq, Function.update_self]
    exact hpc
  · rw [Function.update_of_ne heq]
    exact hsim.none_storing hside other

theorem none_taking_update (hsim : state.Simulates maxSz config) {thread : ℕ}
    {pc : Pc Value} (hside : (state.callers thread).side = some .writer)
    (hpc : pc.taking = none) (other : ℕ) :
    (Function.update state.callers thread pc other).taking = none := by
  by_cases heq : other = thread
  · rw [heq, Function.update_self]
    exact hpc
  · rw [Function.update_of_ne heq]
    exact hsim.none_taking hside other

/-- A thread that claims no slot after its step leaves the claims of the others. -/
theorem claim_of_update {callers : ℕ → Pc Value} {claim : Pc Value → Option ℕ}
    {thread other slot : ℕ} {pc : Pc Value} (hpc : claim pc = none)
    (hother : claim (Function.update callers thread pc other) = some slot) :
    other ≠ thread ∧ claim (callers other) = some slot := by
  by_cases heq : other = thread
  · rw [heq, Function.update_self, hpc] at hother
    cases hother
  · rw [Function.update_of_ne heq] at hother
    exact ⟨heq, hother⟩

/-- The threads that move no slot have the same claims before and after. -/
theorem cell_goto {thread : ℕ} {pc : Pc Value} {next : State Value}
    {slot : ℕ} {val : Value} (hcell : state.Cell slot val)
    (hcallers : next.callers = Function.update state.callers thread pc)
    (hbefore : (state.callers thread).storing ≠ some slot)
    (hafter : pc.storing ≠ some slot)
    (harr : next.arr slot = state.arr slot) : next.Cell slot val := by
  have hiff : ∀ other value, next.callers other = .pushStore value slot ↔
      state.callers other = .pushStore value slot := by
    intro other value
    rw [hcallers]
    by_cases heq : other = thread
    · subst heq
      rw [Function.update_self]
      constructor
      · intro hpc
        rw [hpc] at hafter
        exact absurd rfl hafter
      · intro hpc
        rw [hpc] at hbefore
        exact absurd rfl hbefore
    · rw [Function.update_of_ne heq]
  constructor
  · intro other value hpc
    exact hcell.pending other value ((hiff other value).mp hpc)
  · intro hnone
    rw [harr]
    exact hcell.stored fun other value hpc =>
      hnone other value ((hiff other value).mpr hpc)

/-- A step that claims and frees no slot. -/
theorem move (hsim : state.Simulates maxSz config) {thread mask : ℕ}
    {pc : Pc Value} {phase : Phase (Call Value) (Result Value)}
    (hlock : ∃ inside,
      GroupLocked ({ state with mask := mask }.goto thread pc) inside)
    (hbefore : (state.callers thread).storing = none)
    (hafter : pc.storing = none)
    (htaking : ∀ slot, pc.taking = some slot →
      (state.callers thread).taking = some slot)
    (hphase : pc.Matches maxSz state.arr phase) :
    ({ state with mask := mask }.goto thread pc).Simulates maxSz
      ⟨config.object, Function.update config.phases thread phase⟩ := by
  have hstoringOld : ∀ other slot,
      (Function.update state.callers thread pc other).storing = some slot →
        (state.callers other).storing = some slot := by
    intro other slot hother
    exact (claim_of_update hafter hother).2
  have htakingOld : ∀ other slot,
      (Function.update state.callers thread pc other).taking = some slot →
        (state.callers other).taking = some slot := by
    intro other slot hother
    by_cases heq : other = thread
    · subst heq
      rw [Function.update_self] at hother
      exact htaking slot hother
    · rwa [Function.update_of_ne heq] at hother
  refine ⟨hlock, hsim.top, hsim.capacity, ?_, ?_, ?_, ?_, ?_, ?_⟩
  · refine hsim.held.imp fun slot val _ hcell => ?_
    exact cell_goto hcell rfl (by simp [hbefore]) (by simp [hafter]) rfl
  · intro other slot hother
    exact hsim.storing other slot (hstoringOld other slot hother)
  · intro first second slot hfirst hsecond
    exact hsim.storeOnce first second slot (hstoringOld _ _ hfirst)
      (hstoringOld _ _ hsecond)
  · intro other slot hother
    exact hsim.taking other slot (htakingOld other slot hother)
  · intro first second slot hfirst hsecond
    exact hsim.takeOnce first second slot (htakingOld _ _ hfirst)
      (htakingOld _ _ hsecond)
  · intro other
    change (Function.update state.callers thread pc other).Matches maxSz
      state.arr (Function.update config.phases thread phase other)
    by_cases heq : other = thread
    · subst heq
      rw [Function.update_self, Function.update_self]
      exact hphase
    · rw [Function.update_of_ne heq, Function.update_of_ne heq]
      exact hsim.phases other

/-- A step inside the code that the atomic stack does not see. -/
theorem stutter (hsim : state.Simulates maxSz config) {thread : ℕ}
    {before pc : Pc Value} (hpc : state.callers thread = before)
    (hside : pc.side = before.side) (hbefore : before.storing = none)
    (hafter : pc.storing = none)
    (htaking : ∀ slot, pc.taking = some slot → before.taking = some slot)
    (hphase : pc.Matches maxSz state.arr (config.phases thread)) :
    ∃ after, (boundedStack Value maxSz).Steps config [] after ∧
      (state.goto thread pc).Simulates maxSz after := by
  subst hpc
  obtain ⟨inside, hlock⟩ := hsim.lock
  have hmove := hsim.move
    ⟨inside, hlock.stay rfl rfl hside⟩ hbefore hafter htaking hphase
  rw [Function.update_eq_self] at hmove
  exact ⟨config, rfl, hmove⟩

theorem claimPush (hsim : state.Simulates maxSz config)
    {thread oldTop : ℕ} {val : Value}
    (hpc : state.callers thread = .pushCasTop val oldTop)
    (htop : state.top = oldTop) (hroom : oldTop ≠ maxSz) :
    ({ state with top := oldTop + 1 }.goto thread
      (.pushStore val oldTop)).Simulates maxSz
        ⟨val :: config.object,
          Function.update config.phases thread
            (.applied (.pushed true))⟩ := by
  have hlength := hsim.top
  have hcapacity := hsim.capacity
  have hside : (state.callers thread).side = some .writer := by
    rw [hpc]
    rfl
  have hstoringOld : ∀ other slot, other ≠ thread →
      (Function.update state.callers thread (.pushStore val oldTop)
        other).storing = some slot →
      (state.callers other).storing = some slot := by
    intro other slot hne hother
    rwa [Function.update_of_ne hne] at hother
  have hself : (Function.update state.callers thread (.pushStore val oldTop)
      thread).storing = some oldTop := by
    rw [Function.update_self]
    rfl
  have htakingNone : ∀ other,
      (Function.update state.callers thread (.pushStore val oldTop)
        other).taking = none :=
    hsim.none_taking_update hside rfl
  refine ⟨?_, ?_, ?_, ⟨?_, ?_⟩, ?_, ?_, ?_, ?_, ?_⟩
  · obtain ⟨inside, hlock⟩ := hsim.lock
    exact ⟨inside, hlock.stay rfl rfl (by rw [hside]; rfl)⟩
  · change oldTop + 1 = config.object.length + 1
    omega
  · change config.object.length + 1 ≤ maxSz
    omega
  · rw [← hlength, htop]
    constructor
    · intro other value hother
      change Function.update state.callers thread _ other = _ at hother
      by_cases heq : other = thread
      · subst heq
        rw [Function.update_self] at hother
        injection hother with hvalue
        exact hvalue.symm
      · rw [Function.update_of_ne heq] at hother
        have := hsim.storing other oldTop (by rw [hother]; rfl)
        omega
    · intro hnone
      exact absurd (Function.update_self ..) (hnone thread val)
  · refine hsim.held.imp fun slot value hlt hcell => ?_
    refine cell_goto hcell rfl ?_ ?_ rfl
    · rw [hpc]
      exact nofun
    · simp only [Pc.storing, ne_eq, Option.some.injEq]
      omega
  · intro other slot hother
    change slot < oldTop + 1
    by_cases heq : other = thread
    · subst heq
      cases hself.symm.trans hother
      omega
    · have := hsim.storing other slot (hstoringOld other slot heq hother)
      omega
  · intro first second slot hfirst hsecond
    by_cases hfirstEq : first = thread
    · subst hfirstEq
      by_contra hne
      cases hself.symm.trans hfirst
      have := hsim.storing second oldTop
        (hstoringOld second oldTop (Ne.symm hne) hsecond)
      omega
    · by_cases hsecondEq : second = thread
      · subst hsecondEq
        cases hself.symm.trans hsecond
        have := hsim.storing first oldTop
          (hstoringOld first oldTop hfirstEq hfirst)
        omega
      · exact hsim.storeOnce first second slot
          (hstoringOld first slot hfirstEq hfirst)
          (hstoringOld second slot hsecondEq hsecond)
  · intro other slot hother
    cases (htakingNone other).symm.trans hother
  · intro first second slot hfirst
    cases (htakingNone first).symm.trans hfirst
  · intro other
    change (Function.update state.callers thread _ other).Matches maxSz
      state.arr (Function.update config.phases thread _ other)
    by_cases heq : other = thread
    · subst heq
      rw [Function.update_self, Function.update_self]
      rfl
    · rw [Function.update_of_ne heq, Function.update_of_ne heq]
      exact hsim.phases other

theorem store (hsim : state.Simulates maxSz config) {thread oldTop : ℕ}
    {val : Value} (hpc : state.callers thread = .pushStore val oldTop) :
    ({ state with
      arr := Function.update state.arr oldTop val }.goto thread
        (.pushAssert true)).Simulates maxSz config := by
  have hself : (state.callers thread).storing = some oldTop := by
    rw [hpc]
    rfl
  have hside : (state.callers thread).side = some .writer :=
    Pc.side_of_storing hself
  have hstoringOld : ∀ other slot,
      (Function.update state.callers thread (.pushAssert true)
        other).storing = some slot →
      other ≠ thread ∧ (state.callers other).storing = some slot := by
    intro other slot hother
    exact claim_of_update rfl hother
  have htakingNone : ∀ other,
      (Function.update state.callers thread (.pushAssert true)
        other).taking = none :=
    hsim.none_taking_update hside rfl
  refine ⟨?_, hsim.top, hsim.capacity, ?_, ?_, ?_, ?_, ?_, ?_⟩
  · obtain ⟨inside, hlock⟩ := hsim.lock
    exact ⟨inside, hlock.stay rfl rfl (by rw [hside]; rfl)⟩
  · refine hsim.held.imp fun slot value hlt hcell => ?_
    by_cases hslot : slot = oldTop
    · subst hslot
      have hvalue : val = value := hcell.pending thread val hpc
      constructor
      · intro other written hother
        obtain ⟨hne, hstoring⟩ := hstoringOld other slot
          (show (Function.update state.callers thread (.pushAssert true)
              other).storing = some slot by
            rw [show Function.update state.callers thread
              (.pushAssert true) other = _ from hother]
            rfl)
        exact absurd (hsim.storeOnce other thread slot hstoring hself) hne
      · intro _
        change Function.update state.arr slot val slot = value
        rw [Function.update_self, hvalue]
    · refine cell_goto hcell rfl ?_ nofun ?_
      · rw [hself]
        simpa using Ne.symm hslot
      · change Function.update state.arr oldTop val slot = state.arr slot
        rw [Function.update_of_ne hslot]
  · intro other slot hother
    exact hsim.storing other slot (hstoringOld other slot hother).2
  · intro first second slot hfirst hsecond
    exact hsim.storeOnce first second slot (hstoringOld _ _ hfirst).2
      (hstoringOld _ _ hsecond).2
  · intro other slot hother
    cases (htakingNone other).symm.trans hother
  · intro first second slot hfirst
    cases (htakingNone first).symm.trans hfirst
  · intro other
    change (Function.update state.callers thread _ other).Matches maxSz
      (Function.update state.arr oldTop val) (config.phases other)
    by_cases heq : other = thread
    · subst heq
      rw [Function.update_self]
      have hphase := hsim.phases other
      rw [hpc] at hphase
      exact hphase
    · rw [Function.update_of_ne heq]
      refine (hsim.phases other).congr fun slot hload => ?_
      have hnone := hsim.none_taking hside other
      rw [hload] at hnone
      cases hnone

theorem claimPop (hsim : state.Simulates maxSz config) {thread oldTop : ℕ}
    (hpc : state.callers thread = .popCasTop oldTop)
    (htop : state.top = oldTop) {val : Value} {rest : List Value}
    (hobject : config.object = val :: rest) :
    ({ state with top := oldTop - 1 }.goto thread
      (.popLoad oldTop)).Simulates maxSz
        ⟨rest, Function.update config.phases thread
          (.applied (.popped (some val)))⟩ := by
  have hlength := hsim.top
  have hcapacity := hsim.capacity
  rw [hobject, List.length_cons] at hlength hcapacity
  have hside : (state.callers thread).side = some .reader := by
    rw [hpc]
    rfl
  have hstoringNone : ∀ other,
      (Function.update state.callers thread (.popLoad oldTop)
        other).storing = none :=
    hsim.none_storing_update hside rfl
  have htakingOld : ∀ other slot,
      (Function.update state.callers thread (.popLoad oldTop)
        other).taking = some slot →
      (other = thread ∧ slot = oldTop - 1) ∨
        (other ≠ thread ∧ (state.callers other).taking = some slot) := by
    intro other slot hother
    by_cases heq : other = thread
    · subst heq
      rw [Function.update_self] at hother
      cases hother
      exact .inl ⟨rfl, rfl⟩
    · rw [Function.update_of_ne heq] at hother
      exact .inr ⟨heq, hother⟩
  have hheld := hsim.held
  rw [hobject] at hheld
  have hvalue : state.arr (oldTop - 1) = val := by
    have hslot : oldTop - 1 = rest.length := by omega
    rw [hslot]
    apply hheld.1.stored
    intro other value hother
    have hnone := hsim.none_storing hside other
    rw [hother] at hnone
    cases hnone
  refine ⟨?_, ?_, ?_, ?_, ?_, ?_, ?_, ?_, ?_⟩
  · obtain ⟨inside, hlock⟩ := hsim.lock
    exact ⟨inside, hlock.stay rfl rfl (by rw [hside]; rfl)⟩
  · change oldTop - 1 = rest.length
    omega
  · change rest.length ≤ maxSz
    omega
  · refine hheld.2.imp fun slot value _ hcell => ?_
    exact cell_goto hcell rfl (by rw [hpc]; exact nofun) nofun rfl
  · intro other slot hother
    cases (hstoringNone other).symm.trans hother
  · intro first second slot hfirst
    cases (hstoringNone first).symm.trans hfirst
  · intro other slot hother
    change oldTop - 1 ≤ slot
    rcases htakingOld other slot hother with ⟨-, hslot⟩ | ⟨-, htaking⟩
    · omega
    · have := hsim.taking other slot htaking
      omega
  · intro first second slot hfirst hsecond
    rcases htakingOld first slot hfirst with ⟨hf, hslot⟩ | ⟨hf, htaking⟩
    · rcases htakingOld second slot hsecond with ⟨hs, -⟩ | ⟨-, hother⟩
      · rw [hf, hs]
      · have := hsim.taking second slot hother
        omega
    · rcases htakingOld second slot hsecond with ⟨-, hslot⟩ | ⟨-, hother⟩
      · have := hsim.taking first slot htaking
        omega
      · exact hsim.takeOnce first second slot htaking hother
  · intro other
    change (Function.update state.callers thread _ other).Matches maxSz
      state.arr (Function.update config.phases thread _ other)
    by_cases heq : other = thread
    · subst heq
      rw [Function.update_self, Function.update_self, ← hvalue]
      rfl
    · rw [Function.update_of_ne heq, Function.update_of_ne heq]
      exact hsim.phases other

theorem erase (hsim : state.Simulates maxSz config) {thread oldTop : ℕ}
    {ret corrupt : Value} (hpc : state.callers thread = .popErase oldTop ret) :
    ({ state with
      arr := Function.update state.arr (oldTop - 1) corrupt }.goto thread
        (.popAssert (some ret))).Simulates maxSz config := by
  have hself : (state.callers thread).taking = some (oldTop - 1) := by
    rw [hpc]
    rfl
  have hside : (state.callers thread).side = some .reader :=
    Pc.side_of_taking hself
  have habove := hsim.taking thread _ hself
  have hstoringNone : ∀ other,
      (Function.update state.callers thread (.popAssert (some ret))
        other).storing = none :=
    hsim.none_storing_update hside rfl
  have htakingOld : ∀ other slot,
      (Function.update state.callers thread (.popAssert (some ret))
        other).taking = some slot →
      (state.callers other).taking = some slot := by
    intro other slot hother
    exact (claim_of_update rfl hother).2
  refine ⟨?_, hsim.top, hsim.capacity, ?_, ?_, ?_, ?_, ?_, ?_⟩
  · obtain ⟨inside, hlock⟩ := hsim.lock
    exact ⟨inside, hlock.stay rfl rfl (by rw [hside]; rfl)⟩
  · refine hsim.held.imp fun slot value hlt hcell => ?_
    refine cell_goto hcell rfl ?_ nofun ?_
    · rw [hsim.none_storing hside thread]
      exact nofun
    · change Function.update state.arr (oldTop - 1) corrupt slot = _
      rw [← hsim.top] at hlt
      rw [Function.update_of_ne (by omega)]
  · intro other slot hother
    cases (hstoringNone other).symm.trans hother
  · intro first second slot hfirst
    cases (hstoringNone first).symm.trans hfirst
  · intro other slot hother
    exact hsim.taking other slot (htakingOld other slot hother)
  · intro first second slot hfirst hsecond
    exact hsim.takeOnce first second slot (htakingOld _ _ hfirst)
      (htakingOld _ _ hsecond)
  · intro other
    change (Function.update state.callers thread _ other).Matches maxSz
      (Function.update state.arr (oldTop - 1) corrupt) (config.phases other)
    by_cases heq : other = thread
    · subst heq
      rw [Function.update_self]
      have hphase := hsim.phases other
      rw [hpc] at hphase
      exact hphase
    · rw [Function.update_of_ne heq]
      refine (hsim.phases other).congr fun slot hload => ?_
      have hne : slot - 1 ≠ oldTop - 1 := by
        intro hsame
        refine heq (hsim.takeOnce other thread (oldTop - 1) ?_ hself)
        rw [hload, ← hsame]
        rfl
      rw [Function.update_of_ne hne]

end State.Simulates

/-! ## Crossing the border of a group -/

namespace State.Simulates

variable {maxSz : ℕ} {state : State Value} {config : StackConfig Value}

theorem enterPush (hsim : state.Simulates maxSz config)
    {thread writers : ℕ} {val : Value}
    (hpc : state.callers thread = .pushEnter val (writers <<< 16))
    (hwriters : writers < 0xff) (hmask : state.mask = writers <<< 16) :
    ({ state with
      mask := (writers <<< 16 + writeAppend) % 2 ^ 64 }.goto thread
        (.pushReadTop val)).Simulates maxSz config := by
  obtain ⟨inside, hlock⟩ := hsim.lock
  have hcount := hlock.mask
  have hlimit := hlock.limit .writer
  have hreaders := hlock.limit .reader
  rw [hmask, Nat.shiftLeft_eq, Nat.shiftLeft_eq] at hcount
  have hnone : (inside .reader).card = 0 := by omega
  have hsame : (inside .writer).card = writers := by omega
  have hsum : (writers <<< 16 + writeAppend) % 2 ^ 64 =
      state.mask + Side.writer.append := by
    rw [hmask]
    simp only [Nat.shiftLeft_eq, Side.append, writeAppend]
    omega
  have hother : ∀ other, other ≠ Side.writer → inside other = ∅ := by
    intro other hne
    cases other with
    | writer => exact absurd rfl hne
    | reader => exact Finset.card_eq_zero.mp hnone
  have hphase := hsim.phases thread
  rw [hpc] at hphase
  have hentered : ∃ inside, GroupLocked ({ state with
      mask := (writers <<< 16 + writeAppend) % 2 ^ 64 }.goto thread
        (.pushReadTop val)) inside :=
    ⟨_, hlock.enter (by rw [hpc]; rfl) rfl hother (by omega) hsum⟩
  have hmove := hsim.move hentered (by rw [hpc]; rfl) rfl nofun hphase.1
  rw [Function.update_eq_self] at hmove
  exact hmove

theorem enterPop (hsim : state.Simulates maxSz config)
    {thread oldMask : ℕ} (hpc : state.callers thread = .popEnter oldMask)
    (hreaders : oldMask < 0xff) (hmask : state.mask = oldMask) :
    ({ state with
      mask := (oldMask + readAppend) % 2 ^ 64 }.goto thread
        .popReadTop).Simulates maxSz config := by
  obtain ⟨inside, hlock⟩ := hsim.lock
  have hcount := hlock.mask
  rw [hmask, Nat.shiftLeft_eq] at hcount
  have hnone : (inside .writer).card = 0 := by omega
  have hsame : (inside .reader).card = oldMask := by omega
  have hsum : (oldMask + readAppend) % 2 ^ 64 =
      state.mask + Side.reader.append := by
    rw [hmask]
    simp only [Side.append, readAppend]
    omega
  have hother : ∀ other, other ≠ Side.reader → inside other = ∅ := by
    intro other hne
    cases other with
    | writer => exact Finset.card_eq_zero.mp hnone
    | reader => exact absurd rfl hne
  have hphase := hsim.phases thread
  rw [hpc] at hphase
  have hentered : ∃ inside, GroupLocked ({ state with
      mask := (oldMask + readAppend) % 2 ^ 64 }.goto thread
        .popReadTop) inside :=
    ⟨_, hlock.enter (by rw [hpc]; rfl) rfl hother (by omega) hsum⟩
  have hmove := hsim.move hentered (by rw [hpc]; rfl) rfl nofun hphase.1
  rw [Function.update_eq_self] at hmove
  exact hmove

/-- The exit of either group; the thread gets its answer. -/
theorem leave (hsim : state.Simulates maxSz config) {thread : ℕ}
    (side : Side) (hside : (state.callers thread).side = some side)
    (hstoring : (state.callers thread).storing = none) :
    ({ state with
      mask := wordSub state.mask side.append }.goto thread .idle).Simulates
        maxSz ⟨config.object, Function.update config.phases thread .idle⟩ := by
  obtain ⟨inside, hlock⟩ := hsim.lock
  have hpositive : 0 < (inside side).card :=
    Finset.card_pos.mpr ⟨thread, (hlock.members thread side).mpr hside⟩
  have hwriters := hlock.limit .writer
  have hreaders := hlock.limit .reader
  have hmask := hlock.mask
  rw [Nat.shiftLeft_eq] at hmask
  have hle : side.append ≤ state.mask := by
    cases side with
    | writer =>
        simp only [Side.append, writeAppend, Nat.shiftLeft_eq]
        omega
    | reader =>
        simp only [Side.append, readAppend]
        omega
  have hleft : ∃ inside, GroupLocked ({ state with
      mask := wordSub state.mask side.append }.goto thread .idle) inside :=
    ⟨_, hlock.leave hside rfl (wordSub_of_le hle (by omega))⟩
  exact hsim.move hleft hstoring rfl nofun rfl

/-- A read of `top_` that finds the stack full or empty is the point of a
call which changes nothing. -/
theorem refuse (hsim : state.Simulates maxSz config) {thread : ℕ}
    {pc : Pc Value} {call : Call Value} {result : Result Value}
    (hside : pc.side = (state.callers thread).side)
    (hbefore : (state.callers thread).storing = none)
    (hafter : pc.storing = none) (htaking : pc.taking = none)
    (hcalled : config.phases thread = .called call)
    (happly : (boundedStack Value maxSz).apply config.object call =
      (config.object, result))
    (hphase : pc.Matches maxSz state.arr (.applied result)) :
    ∃ after, (boundedStack Value maxSz).Steps config [.commit thread] after ∧
      (state.goto thread pc).Simulates maxSz after := by
  obtain ⟨inside, hlock⟩ := hsim.lock
  have hcommit : (boundedStack Value maxSz).Step config (.commit thread) _ :=
    .commit hcalled
  rw [happly] at hcommit
  refine ⟨_, hcommit.steps, ?_⟩
  exact hsim.move ⟨inside, hlock.stay rfl rfl hside⟩ hbefore hafter
    (by simp [htaking]) hphase

end State.Simulates

/-! ## Every step is one of the atomic stack -/

theorem State.Simulates.advance {maxSz : ℕ} {corrupt : Value}
    {state next : State Value} {thread : ℕ} {config : StackConfig Value}
    (hsim : state.Simulates maxSz config)
    (hstep : state.advance maxSz corrupt thread = some next) :
    ∃ after, (boundedStack Value maxSz).Steps config
      (observe maxSz state (.advance thread)) after ∧
        next.Simulates maxSz after := by
  obtain ⟨inside, hlock⟩ := hsim.lock
  have hphase := hsim.phases thread
  unfold State.advance at hstep
  cases hpc : state.callers thread with
  | idle => simp [hpc] at hstep
  | aborted => simp [hpc] at hstep
  | pushReadMask val =>
      rw [hpc] at hphase
      simp only [hpc, hlock.and_readMask] at hstep
      simp only [observe, hpc]
      split at hstep
      next =>
        cases hstep
        exact hsim.stutter hpc rfl rfl rfl nofun hphase
      next hlimit =>
        cases hstep
        refine hsim.stutter hpc rfl rfl rfl nofun ⟨hphase, _, ?_, rfl⟩
        rw [Nat.shiftLeft_shiftRight] at hlimit
        exact Nat.lt_of_not_le hlimit
  | pushEnter val oldMask =>
      rw [hpc] at hphase
      obtain ⟨hcalled, writers, hwriters, rfl⟩ := hphase
      simp only [hpc] at hstep
      simp only [observe, hpc]
      split at hstep
      next hmask =>
        cases hstep
        exact ⟨config, rfl, hsim.enterPush hpc hwriters hmask⟩
      next =>
        cases hstep
        exact hsim.stutter hpc rfl rfl rfl nofun hcalled
  | pushReadTop val =>
      rw [hpc] at hphase
      simp only [hpc] at hstep
      simp only [observe, hpc]
      split at hstep
      next hfull =>
        cases hstep
        rw [if_pos hfull]
        refine hsim.refuse (by rw [hpc]; rfl) (by rw [hpc]; rfl) rfl rfl
          hphase ?_ rfl
        simp [boundedStack, ← hsim.top, hfull]
      next hroom =>
        cases hstep
        rw [if_neg hroom]
        exact hsim.stutter hpc rfl rfl rfl nofun ⟨hphase, hroom⟩
  | pushCasTop val oldTop =>
      rw [hpc] at hphase
      obtain ⟨hcalled, hroom⟩ := hphase
      simp only [hpc] at hstep
      simp only [observe, hpc]
      split at hstep
      next htop =>
        cases hstep
        rw [if_pos htop]
        have happly : (boundedStack Value maxSz).apply config.object
            (.push val) = (val :: config.object, .pushed true) := by
          simp [boundedStack, ← hsim.top, htop, hroom]
        have hcommit : (boundedStack Value maxSz).Step config
            (.commit thread) _ := .commit hcalled
        rw [happly] at hcommit
        exact ⟨_, hcommit.steps, hsim.claimPush hpc htop hroom⟩
      next htop =>
        cases hstep
        rw [if_neg htop]
        exact hsim.stutter hpc rfl rfl rfl nofun hcalled
  | pushStore val oldTop =>
      simp only [hpc, Option.some.injEq] at hstep
      subst next
      simp only [observe, hpc]
      exact ⟨config, rfl, hsim.store hpc⟩
  | pushAssert ret =>
      rw [hpc] at hphase
      have hside : (state.callers thread).side = some .writer := by
        rw [hpc]
        rfl
      simp only [hpc, hlock.and_writeMask, hlock.writer_only hside,
        Finset.card_empty, if_true, Option.some.injEq] at hstep
      subst next
      simp only [observe, hpc]
      exact hsim.stutter hpc rfl rfl rfl nofun hphase
  | pushReadLeave ret =>
      rw [hpc] at hphase
      simp only [hpc, Option.some.injEq] at hstep
      subst next
      simp only [observe, hpc]
      exact hsim.stutter hpc rfl rfl rfl nofun hphase
  | pushLeave ret oldMask =>
      rw [hpc] at hphase
      simp only [hpc] at hstep
      simp only [observe, hpc]
      split at hstep
      next hmask =>
        cases hstep
        rw [if_pos hmask]
        subst hmask
        exact ⟨_, (Step.respond hphase).steps,
          hsim.leave .writer (by rw [hpc]; rfl) (by rw [hpc]; rfl)⟩
      next hmask =>
        cases hstep
        rw [if_neg hmask]
        exact hsim.stutter hpc rfl rfl rfl nofun hphase
  | popReadMask =>
      rw [hpc] at hphase
      simp only [hpc, hlock.and_writeMask] at hstep
      simp only [observe, hpc]
      split at hstep
      next =>
        cases hstep
        exact hsim.stutter hpc rfl rfl rfl nofun hphase
      next hlimit =>
        cases hstep
        exact hsim.stutter hpc rfl rfl rfl nofun ⟨hphase, Nat.lt_of_not_le hlimit⟩
  | popEnter oldMask =>
      rw [hpc] at hphase
      obtain ⟨hcalled, hreaders⟩ := hphase
      simp only [hpc] at hstep
      simp only [observe, hpc]
      split at hstep
      next hmask =>
        cases hstep
        exact ⟨config, rfl, hsim.enterPop hpc hreaders hmask⟩
      next =>
        cases hstep
        exact hsim.stutter hpc rfl rfl rfl nofun hcalled
  | popReadTop =>
      rw [hpc] at hphase
      simp only [hpc] at hstep
      simp only [observe, hpc]
      split at hstep
      next hnone =>
        cases hstep
        rw [if_pos hnone]
        refine hsim.refuse (by rw [hpc]; rfl) (by rw [hpc]; rfl) rfl rfl
          hphase ?_ rfl
        have hempty : config.object = [] :=
          List.eq_nil_of_length_eq_zero (hsim.top.symm.trans hnone)
        rw [hempty]
        rfl
      next hsome =>
        cases hstep
        rw [if_neg hsome]
        exact hsim.stutter hpc rfl rfl rfl nofun ⟨hphase, hsome⟩
  | popCasTop oldTop =>
      rw [hpc] at hphase
      obtain ⟨hcalled, hsome⟩ := hphase
      simp only [hpc] at hstep
      simp only [observe, hpc]
      split at hstep
      next htop =>
        cases hstep
        rw [if_pos htop]
        cases hobject : config.object with
        | nil =>
            have hlength := hsim.top
            rw [hobject, htop] at hlength
            exact absurd hlength hsome
        | cons val rest =>
            have hcommit : (boundedStack Value maxSz).Step config
                (.commit thread) _ := .commit hcalled
            rw [hobject] at hcommit
            exact ⟨_, hcommit.steps, hsim.claimPop hpc htop hobject⟩
      next htop =>
        cases hstep
        rw [if_neg htop]
        exact hsim.stutter hpc rfl rfl rfl nofun hcalled
  | popLoad oldTop =>
      rw [hpc] at hphase
      simp only [hpc, Option.some.injEq] at hstep
      subst next
      simp only [observe, hpc]
      exact hsim.stutter hpc rfl rfl rfl (fun _ hslot => hslot) hphase
  | popErase oldTop ret =>
      simp only [hpc, Option.some.injEq] at hstep
      subst next
      simp only [observe, hpc]
      exact ⟨config, rfl, hsim.erase hpc⟩
  | popAssert ret =>
      rw [hpc] at hphase
      have hside : (state.callers thread).side = some .reader := by
        rw [hpc]
        rfl
      simp only [hpc, hlock.and_readMask, hlock.reader_only hside,
        Finset.card_empty, Nat.zero_shiftLeft, if_true,
        Option.some.injEq] at hstep
      subst next
      simp only [observe, hpc]
      exact hsim.stutter hpc rfl rfl rfl nofun hphase
  | popReadLeave ret =>
      rw [hpc] at hphase
      simp only [hpc, Option.some.injEq] at hstep
      subst next
      simp only [observe, hpc]
      exact hsim.stutter hpc rfl rfl rfl nofun hphase
  | popLeave ret oldMask =>
      rw [hpc] at hphase
      simp only [hpc] at hstep
      simp only [observe, hpc]
      split at hstep
      next hmask =>
        cases hstep
        rw [if_pos hmask]
        subst hmask
        exact ⟨_, (Step.respond hphase).steps,
          hsim.leave .reader (by rw [hpc]; rfl) (by rw [hpc]; rfl)⟩
      next hmask =>
        cases hstep
        rw [if_neg hmask]
        exact hsim.stutter hpc rfl rfl rfl nofun hphase

theorem State.Simulates.step {maxSz : ℕ} {corrupt : Value}
    {state next : State Value} {action : Action Value}
    {config : StackConfig Value} (hsim : state.Simulates maxSz config)
    (hstep : state.step maxSz corrupt action = some next) :
    ∃ after, (boundedStack Value maxSz).Steps config
      (observe maxSz state action) after ∧ next.Simulates maxSz after := by
  obtain ⟨inside, hlock⟩ := hsim.lock
  cases action with
  | push thread val =>
      cases hpc : state.callers thread with
      | idle =>
          simp only [State.step, hpc, Option.some.injEq] at hstep
          subst next
          have hphase := hsim.phases thread
          rw [hpc] at hphase
          exact ⟨_, (Step.invoke (.push val) hphase).steps,
            hsim.move ⟨inside, hlock.stay rfl rfl (by rw [hpc]; rfl)⟩
              (by rw [hpc]; rfl) rfl nofun rfl⟩
      | _ => simp [State.step, hpc] at hstep
  | pop thread =>
      cases hpc : state.callers thread with
      | idle =>
          simp only [State.step, hpc, Option.some.injEq] at hstep
          subst next
          have hphase := hsim.phases thread
          rw [hpc] at hphase
          exact ⟨_, (Step.invoke .pop hphase).steps,
            hsim.move ⟨inside, hlock.stay rfl rfl (by rw [hpc]; rfl)⟩
              (by rw [hpc]; rfl) rfl nofun rfl⟩
      | _ => simp [State.step, hpc] at hstep
  | advance thread => exact hsim.advance hstep

/-! ## Every run -/

theorem linearizable_boundedStack (maxSz : ℕ) (corrupt : Value)
    (memory : ℕ → Value) (schedule : List (Action Value))
    (final : State Value)
    (hrun : (machine maxSz corrupt memory).run schedule = some final) :
    (∃ inside, GroupLocked final inside) ∧
      (∀ thread, final.callers thread ≠ .aborted) ∧
      ∃ config, (boundedStack Value maxSz).Steps
        (boundedStack Value maxSz).start
        ((machine maxSz corrupt memory).history (observe maxSz)
          (construct memory) schedule) config := by
  obtain ⟨config, hsteps, hsim⟩ := Machine.history_steps
    (State.Simulates maxSz) (fun _ _ _ _ hsim hstep => hsim.step hstep)
    (simulates_construct maxSz memory) hrun
  refine ⟨hsim.lock, ?_, config, hsteps⟩
  intro thread habort
  have hphase := hsim.phases thread
  rw [habort] at hphase
  exact hphase

/-- One push and one pop on a stack of one slot. -/
def pushThenPop : List (Action ℕ) :=
  [.push 0 10, .advance 0, .advance 0, .advance 0, .advance 0, .advance 0,
    .advance 0, .advance 0, .advance 0,
    .pop 1, .advance 1, .advance 1, .advance 1, .advance 1, .advance 1,
    .advance 1, .advance 1, .advance 1, .advance 1]

theorem linearizable_pushThenPop :
    ∃ final, (machine 1 0xcdcd fun _ => 0).run pushThenPop = some final ∧
      (machine 1 0xcdcd fun _ => 0).history (observe 1)
          (construct fun _ => 0) pushThenPop =
        [.invoke 0 (.push 10), .commit 0, .respond 0 (.pushed true),
          .invoke 1 .pop, .commit 1, .respond 1 (.popped (some 10))] ∧
      ∃ config, (boundedStack ℕ 1).Steps (boundedStack ℕ 1).start
        ((machine 1 0xcdcd fun _ => 0).history (observe 1)
          (construct fun _ => 0) pushThenPop) config := by
  refine ⟨_, rfl, rfl, ?_⟩
  exact (linearizable_boundedStack 1 0xcdcd (fun _ => 0) pushThenPop _
    rfl).2.2

end LockFreeStack
end BackEndFacility
