import BackEndFacility.AtomicObject
import Mathlib.Logic.Relation

/-!
# Objects behind a lock

A call on a shared object takes a lock, works on the object one access at a time,
gives the lock back and returns.  Any number of threads make calls, and a thread that
finds the lock taken tries again.  An access may depend on an answer of the environment,
of which only some are allowed.

If the code between the two lock operations, run on its own, does on what an object
represents what one call of a sequential object does, then the object behind the lock is
the atomic object built from it: every run is one of the atomic object, in which a call
takes effect at its last access.  If that code can end as well, every call can return
from every reachable state.
-/

namespace BackEndFacility

universe u v w x y z

/-- The code between `lock` and `unlock`.  An access that is undefined has no
outcome. -/
structure CriticalSection (Object : Type u) (Call : Type v) (Local : Type x)
    (Answer : Type y) (Result : Type w) where
  enter : Call → Local
  access : Object → Local → Answer → Option (Object × (Local ⊕ Result))

namespace CriticalSection

variable {Object : Type u} {Call : Type v} {Local : Type x} {Answer : Type y}
  {Result : Type w} {Abstract : Type z}

open SequentialObject (Phase Event Config)

/-! ## The code on its own -/

/-- One access after which there is more to do. -/
def Moves (code : CriticalSection Object Call Local Answer Result) (Allowed : Answer → Prop)
    (before after : Object × Local) : Prop :=
  ∃ answer, Allowed answer ∧
    code.access before.1 before.2 answer = some (after.1, .inl after.2)

/-- The code from an object and a place in it on can end. -/
inductive Finishes (code : CriticalSection Object Call Local Answer Result)
    (Allowed : Answer → Prop) : Object → Local → Prop
  | last {object final : Object} {place : Local} (answer : Answer) {result : Result} :
      Allowed answer → code.access object place answer = some (final, .inr result) →
      Finishes code Allowed object place
  | more {object next : Object} {place after : Local} (answer : Answer) :
      Allowed answer → code.access object place answer = some (next, .inl after) →
      Finishes code Allowed next after → Finishes code Allowed object place

/-- What the code does from lock to unlock is one call of the sequential object. -/
def Implements (code : CriticalSection Object Call Local Answer Result)
    (Allowed : Answer → Prop) (spec : SequentialObject Abstract Call Result)
    (Represents : Object → Abstract → Prop) : Prop :=
  ∀ object held call reached place answer final result,
    Represents object held →
      Relation.ReflTransGen (code.Moves Allowed) (object, code.enter call) (reached, place) →
        Allowed answer → code.access reached place answer = some (final, .inr result) →
          (spec.apply held call).2 = result ∧ Represents final (spec.apply held call).1

/-- Wherever a call may have got to, it can end with answers that are kind. -/
def CanFinish (code : CriticalSection Object Call Local Answer Result)
    (Allowed Kind : Answer → Prop) (Represents : Object → Abstract → Prop) : Prop :=
  ∀ object held call reached place,
    Represents object held →
      Relation.ReflTransGen (code.Moves Allowed) (object, code.enter call) (reached, place) →
        code.Finishes Kind reached place

/-- It is enough to say what the code still does from every place in it. -/
theorem implements_of_outcome {code : CriticalSection Object Call Local Answer Result}
    {Allowed : Answer → Prop} {spec : SequentialObject Object Call Result}
    (outcome : Object → Local → Object × Result)
    (hmove : ∀ object place answer next after,
      code.access object place answer = some (next, .inl after) →
        outcome next after = outcome object place)
    (hlast : ∀ object place answer final result,
      code.access object place answer = some (final, .inr result) →
        outcome object place = (final, result))
    (hcall : ∀ object call, outcome object (code.enter call) = spec.apply object call) :
    code.Implements Allowed spec Eq := by
  intro object held call reached place answer final result hheld hruns _ haccess
  subst hheld
  have hsame : ∀ after,
      Relation.ReflTransGen (code.Moves Allowed) (object, code.enter call) after →
        outcome after.1 after.2 = spec.apply object call := by
    intro after hafter
    induction hafter with
    | refl => exact hcall object call
    | tail _ hnext ih =>
        obtain ⟨answer, _, hmoved⟩ := hnext
        exact (hmove _ _ _ _ _ hmoved).trans ih
  have happly := (hsame _ hruns).symm.trans (hlast _ _ _ _ _ haccess)
  rw [happly]
  exact ⟨rfl, rfl⟩

/-! ## The lock and its callers -/

/-- Where a thread is in a call. -/
inductive Pc (Call : Type v) (Local : Type x) (Result : Type w) where
  | idle
  | locking (call : Call)
  | inside (call : Call) (place : Local)
  | unlocking (result : Result)
  | returning (result : Result)

structure State (Object : Type u) (Call : Type v) (Local : Type x)
    (Result : Type w) where
  lock : Bool
  object : Object
  callers : ℕ → Pc Call Local Result

inductive Action (Call : Type v) (Answer : Type y) where
  | invoke (thread : ℕ) (call : Call)
  | advance (thread : ℕ) (answer : Answer)

def State.goto (state : State Object Call Local Result) (thread : ℕ)
    (pc : Pc Call Local Result) : State Object Call Local Result :=
  { state with callers := Function.update state.callers thread pc }

/-- The next step of a thread that is inside a call. -/
def State.advance (code : CriticalSection Object Call Local Answer Result)
    (state : State Object Call Local Result) (thread : ℕ) (answer : Answer) :
    Option (State Object Call Local Result) :=
  match state.callers thread with
  | .idle => none
  | .locking call =>
      if state.lock then some state
      else some ({ state with lock := true }.goto thread (.inside call (code.enter call)))
  | .inside call place =>
      match code.access state.object place answer with
      | none => none
      | some (object, .inl after) =>
          some ({ state with object := object }.goto thread (.inside call after))
      | some (object, .inr result) =>
          some ({ state with object := object }.goto thread (.unlocking result))
  | .unlocking result => some ({ state with lock := false }.goto thread (.returning result))
  | .returning _ => some (state.goto thread .idle)

def State.step (code : CriticalSection Object Call Local Answer Result)
    (state : State Object Call Local Result) :
    Action Call Answer → Option (State Object Call Local Result)
  | .invoke thread call =>
      match state.callers thread with
      | .idle => some (state.goto thread (.locking call))
      | _ => none
  | .advance thread answer => state.advance code thread answer

def machine (code : CriticalSection Object Call Local Answer Result) (initial : Object) :
    Machine (State Object Call Local Result) (Action Call Answer) where
  start := ⟨false, initial, fun _ => .idle⟩
  step := State.step code

/-- A call takes effect at its last access, and returns after the unlock. -/
def observe (code : CriticalSection Object Call Local Answer Result)
    (state : State Object Call Local Result) :
    Action Call Answer → List (Event Call Result)
  | .invoke thread call => [.invoke thread call]
  | .advance thread answer =>
      match state.callers thread with
      | .inside _ place =>
          match code.access state.object place answer with
          | some (_, .inr _) => [.commit thread]
          | _ => []
      | .returning result => [.respond thread result]
      | _ => []

/-! ## Mutual exclusion -/

def Pc.Holds : Pc Call Local Result → Prop
  | .inside _ _ | .unlocking _ => True
  | _ => False

/-- The lock is taken if and only if some thread holds it, and then one does. -/
structure State.Exclusive (state : State Object Call Local Result) : Prop where
  taken : state.lock = true ↔ ∃ thread, (state.callers thread).Holds
  one : ∀ first second, (state.callers first).Holds → (state.callers second).Holds →
    first = second

namespace State.Exclusive

variable {state : State Object Call Local Result} {thread : ℕ} {pc : Pc Call Local Result}

theorem others (hexclusive : state.Exclusive) (hholds : (state.callers thread).Holds)
    {other : ℕ} (hother : other ≠ thread) : ¬ (state.callers other).Holds := by
  intro hheld
  exact hother (hexclusive.one other thread hheld hholds)

theorem stay (hexclusive : state.Exclusive) (object : Object)
    (hsame : pc.Holds ↔ (state.callers thread).Holds) :
    ({ state with object := object }.goto thread pc).Exclusive := by
  have hholds : ∀ other, (Function.update state.callers thread pc other).Holds ↔
      (state.callers other).Holds := by
    intro other
    by_cases hother : other = thread
    · subst hother
      rw [Function.update_self]
      exact hsame
    · rw [Function.update_of_ne hother]
  constructor
  · change state.lock = true ↔ ∃ other, (Function.update state.callers thread pc other).Holds
    rw [hexclusive.taken]
    exact exists_congr fun other => (hholds other).symm
  · intro first second hfirst hsecond
    exact hexclusive.one first second ((hholds first).mp hfirst) ((hholds second).mp hsecond)

theorem take (hexclusive : state.Exclusive) (hfree : state.lock = false) (hpc : pc.Holds) :
    ({ state with lock := true }.goto thread pc).Exclusive := by
  have hnone : ∀ other, ¬ (state.callers other).Holds := by
    intro other hheld
    rw [hexclusive.taken.mpr ⟨other, hheld⟩] at hfree
    cases hfree
  have hall : ∀ other, (Function.update state.callers thread pc other).Holds →
      other = thread := by
    intro other hheld
    by_contra hother
    rw [Function.update_of_ne hother] at hheld
    exact hnone other hheld
  constructor
  · refine iff_of_true rfl ⟨thread, ?_⟩
    change (Function.update state.callers thread pc thread).Holds
    rw [Function.update_self]
    exact hpc
  · intro first second hfirst hsecond
    rw [hall first hfirst, hall second hsecond]

theorem give (hexclusive : state.Exclusive) (hholds : (state.callers thread).Holds)
    (hpc : ¬ pc.Holds) : ({ state with lock := false }.goto thread pc).Exclusive := by
  have hnone : ∀ other, ¬ (Function.update state.callers thread pc other).Holds := by
    intro other
    by_cases hother : other = thread
    · subst hother
      rw [Function.update_self]
      exact hpc
    · rw [Function.update_of_ne hother]
      exact hexclusive.others hholds hother
  constructor
  · refine iff_of_false Bool.false_ne_true ?_
    rintro ⟨other, hheld⟩
    exact hnone other hheld
  · intro first _ hfirst
    exact absurd hfirst (hnone first)

end State.Exclusive

/-! ## The simulation -/

section Simulation

variable (code : CriticalSection Object Call Local Answer Result) (Allowed : Answer → Prop)
  (Represents : Object → Abstract → Prop)

/-- What a thread inside a call has done, and what the atomic object knows of it.  While
the lock is held the atomic object is still as the holder found it. -/
def Pc.Matches (held : Abstract) (object : Object) (phase : Phase Call Result) :
    Pc Call Local Result → Prop
  | .idle => phase = .idle
  | .locking call => phase = .called call
  | .inside call place =>
      phase = .called call ∧ ∃ found, Represents found held ∧
        Relation.ReflTransGen (code.Moves Allowed) (found, code.enter call) (object, place)
  | .unlocking result | .returning result => phase = .applied result

def Pc.Inside : Pc Call Local Result → Prop
  | .inside _ _ => True
  | _ => False

theorem Pc.Inside.holds {pc : Pc Call Local Result} (hinside : pc.Inside) : pc.Holds := by
  cases pc with
  | inside call place => trivial
  | idle => exact hinside
  | locking call => exact hinside
  | unlocking result => exact hinside.elim
  | returning result => exact hinside

structure Simulates (state : State Object Call Local Result)
    (config : Config Abstract Call Result) : Prop where
  exclusive : state.Exclusive
  callers : ∀ thread, (state.callers thread).Matches code Allowed Represents config.object
    state.object (config.phases thread)
  object : (∀ thread, ¬ (state.callers thread).Inside) → Represents state.object config.object

end Simulation

/-- The condition on the schedules: every answer is an allowed one. -/
def Answers (Allowed : Answer → Prop) (_ : State Object Call Local Result) :
    Action Call Answer → Prop
  | .invoke _ _ => True
  | .advance _ answer => Allowed answer

namespace Simulates

variable {code : CriticalSection Object Call Local Answer Result} {Allowed : Answer → Prop}
  {spec : SequentialObject Abstract Call Result} {Represents : Object → Abstract → Prop}
  {state next : State Object Call Local Result} {config after : Config Abstract Call Result}
  {thread : ℕ} {pc : Pc Call Local Result} {phase : Phase Call Result}

theorem start {initial : Object} (hinitial : Represents initial spec.initial) :
    Simulates code Allowed Represents (machine code initial).start spec.start where
  exclusive :=
    { taken := iff_of_false Bool.false_ne_true (by rintro ⟨_, hheld⟩; exact hheld)
      one := fun _ _ hfirst => hfirst.elim }
  callers := fun _ => rfl
  object := fun _ => hinitial

theorem matches_of_not_inside {held otherHeld : Abstract} {object other : Object}
    (hmatches : pc.Matches code Allowed Represents held object phase) (hout : ¬ pc.Inside) :
    pc.Matches code Allowed Represents otherHeld other phase := by
  cases pc with
  | inside call place => exact absurd trivial hout
  | idle => exact hmatches
  | locking call => exact hmatches
  | unlocking result => exact hmatches
  | returning result => exact hmatches

theorem move (hsim : Simulates code Allowed Represents state config)
    (hexclusive : next.Exclusive)
    (hcallers : next.callers = Function.update state.callers thread pc)
    (hphases : after.phases = Function.update config.phases thread phase)
    (hkept : (next.object = state.object ∧ after.object = config.object) ∨
      (state.callers thread).Holds)
    (hpc : pc.Matches code Allowed Represents after.object next.object phase)
    (hobject : ¬ pc.Inside → Represents next.object after.object ∨
      (next.object = state.object ∧ after.object = config.object ∧
        ¬ (state.callers thread).Inside)) :
    Simulates code Allowed Represents next after where
  exclusive := hexclusive
  callers := by
    intro other
    rw [hcallers, hphases]
    by_cases hother : other = thread
    · subst hother
      rw [Function.update_self, Function.update_self]
      exact hpc
    · rw [Function.update_of_ne hother, Function.update_of_ne hother]
      have hmatches := hsim.callers other
      rcases hkept with ⟨hsame, hfound⟩ | hholds
      · rw [hsame, hfound]
        exact hmatches
      · refine matches_of_not_inside hmatches fun hinside => ?_
        exact hsim.exclusive.others hholds hother hinside.holds
  object := by
    intro hnone
    have hout : ¬ pc.Inside := by
      have hthread := hnone thread
      rwa [hcallers, Function.update_self] at hthread
    rcases hobject hout with hdone | ⟨hsame, hfound, hbefore⟩
    · exact hdone
    · rw [hsame, hfound]
      apply hsim.object
      intro other
      by_cases hother : other = thread
      · rwa [hother]
      · have hthis := hnone other
        rwa [hcallers, Function.update_of_ne hother] at hthis

theorem stutter (hsim : Simulates code Allowed Represents state config)
    (hexclusive : next.Exclusive)
    (hcallers : next.callers = Function.update state.callers thread pc)
    (hkept : next.object = state.object ∨ (state.callers thread).Holds)
    (hpc : pc.Matches code Allowed Represents config.object next.object
      (config.phases thread))
    (hobject : ¬ pc.Inside → next.object = state.object ∧ ¬ (state.callers thread).Inside) :
    Simulates code Allowed Represents next config := by
  refine hsim.move hexclusive hcallers (Function.update_eq_self thread config.phases).symm
    ?_ hpc ?_
  · rcases hkept with hsame | hholds
    · exact .inl ⟨hsame, rfl⟩
    · exact .inr hholds
  · intro hout
    obtain ⟨hsame, hbefore⟩ := hobject hout
    exact .inr ⟨hsame, rfl, hbefore⟩

theorem advance (hsim : Simulates code Allowed Represents state config)
    (himplements : code.Implements Allowed spec Represents) {answer : Answer}
    (hallowed : Allowed answer) (hstep : state.advance code thread answer = some next) :
    ∃ after, spec.Steps config (code.observe state (.advance thread answer)) after ∧
      Simulates code Allowed Represents next after := by
  have hmatches := hsim.callers thread
  unfold State.advance at hstep
  unfold observe
  cases hpc : state.callers thread with
  | idle => simp [hpc] at hstep
  | locking call =>
      rw [hpc] at hmatches
      simp only [hpc] at hstep ⊢
      split at hstep
      next hlock =>
        obtain rfl := Option.some.inj hstep
        exact ⟨config, rfl, hsim⟩
      next hlock =>
        obtain rfl := Option.some.inj hstep
        have hfree : state.lock = false := Bool.eq_false_iff.mpr hlock
        -- nobody is inside, so the holder finds what the atomic object holds
        have hfound : Represents state.object config.object := by
          apply hsim.object
          intro other hinside
          exact hlock (hsim.exclusive.taken.mpr ⟨other, hinside.holds⟩)
        refine ⟨config, rfl, hsim.stutter (hsim.exclusive.take hfree trivial) rfl (.inl rfl)
          ⟨hmatches, state.object, hfound, .refl⟩ fun hout => absurd trivial hout⟩
  | inside call place =>
      rw [hpc] at hmatches
      obtain ⟨hcalled, found, hfound, hruns⟩ := hmatches
      have hholds : (state.callers thread).Holds := by
        rw [hpc]
        trivial
      simp only [hpc] at hstep ⊢
      cases haccess : code.access state.object place answer with
      | none => simp [haccess] at hstep
      | some outcome =>
          obtain ⟨object, rest | result⟩ := outcome
          · simp only [haccess, Option.some.injEq] at hstep ⊢
            subst next
            refine ⟨config, rfl, hsim.stutter
              (hsim.exclusive.stay object (iff_of_true trivial hholds)) rfl (.inr hholds)
              ⟨hcalled, found, hfound, hruns.tail ⟨answer, hallowed, haccess⟩⟩
              fun hout => absurd trivial hout⟩
          · simp only [haccess, Option.some.injEq] at hstep ⊢
            subst next
            obtain ⟨hresult, hfinal⟩ :=
              himplements _ _ _ _ _ _ _ _ hfound hruns hallowed haccess
            have hcommit : spec.Step config (.commit thread) _ := .commit hcalled
            rw [hresult] at hcommit
            refine ⟨_, hcommit.steps, hsim.move
              (hsim.exclusive.stay object (iff_of_true trivial hholds)) rfl rfl (.inr hholds)
              rfl fun _ => .inl hfinal⟩
  | unlocking result =>
      rw [hpc] at hmatches
      simp only [hpc, Option.some.injEq] at hstep ⊢
      subst next
      have hholds : (state.callers thread).Holds := by
        rw [hpc]
        trivial
      have hout : ¬ (state.callers thread).Inside := by
        rw [hpc]
        exact id
      exact ⟨config, rfl, hsim.stutter (hsim.exclusive.give hholds id) rfl (.inl rfl) hmatches
        fun _ => ⟨rfl, hout⟩⟩
  | returning result =>
      rw [hpc] at hmatches
      simp only [hpc, Option.some.injEq] at hstep ⊢
      subst next
      have hout : ¬ (state.callers thread).Inside := by
        rw [hpc]
        exact id
      have hfree : ¬ (state.callers thread).Holds := by
        rw [hpc]
        exact id
      refine ⟨_, (SequentialObject.Step.respond hmatches).steps, hsim.move
        (hsim.exclusive.stay state.object (iff_of_false id hfree)) rfl rfl (.inl ⟨rfl, rfl⟩)
        rfl fun _ => .inr ⟨rfl, rfl, hout⟩⟩

theorem step (hsim : Simulates code Allowed Represents state config)
    (himplements : code.Implements Allowed spec Represents) {action : Action Call Answer}
    (hanswers : Answers Allowed state action) (hstep : state.step code action = some next) :
    ∃ after, spec.Steps config (code.observe state action) after ∧
      Simulates code Allowed Represents next after := by
  cases action with
  | advance thread answer => exact hsim.advance himplements hanswers hstep
  | invoke thread call =>
      have hmatches := hsim.callers thread
      cases hpc : state.callers thread with
      | idle =>
          rw [hpc] at hmatches
          simp only [State.step, hpc, Option.some.injEq] at hstep
          subst next
          have hout : ¬ (state.callers thread).Inside := by
            rw [hpc]
            exact id
          have hfree : ¬ (state.callers thread).Holds := by
            rw [hpc]
            exact id
          refine ⟨_, (SequentialObject.Step.invoke call hmatches).steps, hsim.move
            (hsim.exclusive.stay state.object (iff_of_false id hfree)) rfl rfl
            (.inl ⟨rfl, rfl⟩) rfl fun _ => .inr ⟨rfl, rfl, hout⟩⟩
      | _ => simp [State.step, hpc] at hstep

end Simulates

section Runs

variable {code : CriticalSection Object Call Local Answer Result} {Allowed : Answer → Prop}
  {spec : SequentialObject Abstract Call Result} {Represents : Object → Abstract → Prop}
  {initial : Object} {state next : State Object Call Local Result} {thread : ℕ}

/-- Every run of the object behind the lock is one of the atomic object. -/
theorem linearizable (himplements : code.Implements Allowed spec Represents)
    (hinitial : Represents initial spec.initial) {schedule : List (Action Call Answer)}
    {final : State Object Call Local Result}
    (hadmits : (machine code initial).Admits (Answers Allowed) (machine code initial).start
      schedule)
    (hrun : (machine code initial).run schedule = some final) :
    ∃ config, spec.Steps spec.start
        ((machine code initial).history code.observe (machine code initial).start schedule)
        config ∧
      Simulates code Allowed Represents final config :=
  Machine.history_steps_of_admits (Simulates code Allowed Represents) (Answers Allowed)
    (fun _ _ _ _ hsim hanswers hstep => hsim.step himplements hanswers hstep)
    (.start hinitial) hadmits hrun

theorem simulates_of_reached (himplements : code.Implements Allowed spec Represents)
    (hinitial : Represents initial spec.initial)
    (hreached : (machine code initial).ReachedBy (Answers Allowed) state) :
    ∃ config, Simulates code Allowed Represents state config := by
  refine hreached.invariant (fun state => ∃ config, Simulates code Allowed Represents state config)
    ⟨_, .start hinitial⟩ ?_
  rintro state action next ⟨config, hsim⟩ hanswers hstep
  obtain ⟨after, -, hafter⟩ := hsim.step himplements hanswers hstep
  exact ⟨after, hafter⟩

theorem advance_object {answer : Answer}
    (hstep : state.advance code thread answer = some next) :
    next.object = state.object ∨
      ∃ place rest, code.access state.object place answer = some (next.object, rest) := by
  unfold State.advance at hstep
  split at hstep
  next => cases hstep
  next call hpc =>
    split at hstep
    next =>
      cases hstep
      exact .inl rfl
    next =>
      cases hstep
      exact .inl rfl
  next call place hpc =>
    split at hstep
    next => cases hstep
    next object after haccess =>
      cases hstep
      exact .inr ⟨place, _, haccess⟩
    next object result haccess =>
      cases hstep
      exact .inr ⟨place, _, haccess⟩
  next result hpc =>
    cases hstep
    exact .inl rfl
  next result hpc =>
    cases hstep
    exact .inl rfl

theorem advance_unlocking {answer : Answer} {result : Result}
    (hstep : state.advance code thread answer = some next)
    (hunlocking : next.callers thread = .unlocking result) :
    ∃ call place, state.callers thread = .inside call place ∧
      code.access state.object place answer = some (next.object, .inr result) := by
  have hmoved : ∀ pc : Pc Call Local Result,
      next.callers = Function.update state.callers thread pc → pc = .unlocking result := by
    intro pc hcallers
    rwa [hcallers, Function.update_self] at hunlocking
  unfold State.advance at hstep
  split at hstep
  next => cases hstep
  next call hpc =>
    split at hstep
    next =>
      cases hstep
      rw [hpc] at hunlocking
      cases hunlocking
    next =>
      cases hstep
      cases hmoved _ rfl
  next call place hpc =>
    split at hstep
    next => cases hstep
    next object after haccess =>
      cases hstep
      cases hmoved _ rfl
    next object last haccess =>
      cases hstep
      cases hmoved _ rfl
      exact ⟨call, place, hpc, haccess⟩
  next last hpc =>
    cases hstep
    cases hmoved _ rfl
  next last hpc =>
    cases hstep
    cases hmoved _ rfl

end Runs

/-! ## Every call can return -/

section Progress

variable {code : CriticalSection Object Call Local Answer Result} {Allowed Kind : Answer → Prop}
  {spec : SequentialObject Abstract Call Result} {Represents : Object → Abstract → Prop}
  {state : State Object Call Local Result} {config : Config Abstract Call Result}
  {thread : ℕ}

/-- The schedule consists of steps of calls that have begun. -/
def OnlyAdvances (Allowed : Answer → Prop) (schedule : List (Action Call Answer)) : Prop :=
  ∀ action ∈ schedule, ∃ thread answer, Allowed answer ∧ action = .advance thread answer

theorem OnlyAdvances.imp {schedule : List (Action Call Answer)}
    (honly : OnlyAdvances Kind schedule) (hweaken : ∀ answer, Kind answer → Allowed answer) :
    OnlyAdvances Allowed schedule := by
  intro action hmem
  obtain ⟨thread, answer, hkind, haction⟩ := honly action hmem
  exact ⟨thread, answer, hweaken answer hkind, haction⟩

theorem OnlyAdvances.append {first second : List (Action Call Answer)}
    (hfirst : OnlyAdvances Allowed first) (hsecond : OnlyAdvances Allowed second) :
    OnlyAdvances Allowed (first ++ second) := by
  intro action hmem
  rcases List.mem_append.mp hmem with hmem | hmem
  · exact hfirst action hmem
  · exact hsecond action hmem

theorem onlyAdvances_singleton (thread : ℕ) {answer : Answer} (hallowed : Allowed answer) :
    OnlyAdvances Allowed [(.advance thread answer : Action Call Answer)] := by
  intro action hmem
  rw [List.mem_singleton] at hmem
  exact ⟨thread, answer, hallowed, hmem⟩

theorem OnlyAdvances.admits
    {machine : Machine (State Object Call Local Result) (Action Call Answer)}
    {schedule : List (Action Call Answer)} (honly : OnlyAdvances Allowed schedule)
    (state : State Object Call Local Result) : machine.Admits (Answers Allowed) state schedule := by
  apply Machine.admits_of_forall
  intro action hmem other
  obtain ⟨thread, answer, hallowed, rfl⟩ := honly action hmem
  exact hallowed

theorem Finishes.unlocks (initial : Object) {call : Call} {place : Local}
    (hfinishes : code.Finishes Kind state.object place)
    (hpc : state.callers thread = .inside call place) :
    ∃ schedule final result, OnlyAdvances Kind schedule ∧
      (machine code initial).runFrom state schedule = some final ∧
      final.callers = Function.update state.callers thread (.unlocking result) ∧
      final.lock = state.lock := by
  generalize hobject : state.object = object at hfinishes
  induction hfinishes generalizing state with
  | @last object last place answer result hallowed hlast =>
      refine ⟨[.advance thread answer],
        { state with object := last }.goto thread (.unlocking result), result,
        onlyAdvances_singleton thread hallowed, ?_, rfl, rfl⟩
      simp only [Machine.runFrom, machine, State.step, State.advance, hpc, hobject, hlast]
  | @more object next place after answer hallowed hmore _ ih =>
      obtain ⟨schedule, final, result, honly, hrun, hcallers, hlock⟩ :=
        @ih ({ state with object := next }.goto thread (.inside call after))
          (Function.update_self thread _ state.callers) rfl
      refine ⟨.advance thread answer :: schedule, final, result,
        (onlyAdvances_singleton thread hallowed).append honly, ?_, ?_, hlock⟩
      · unfold Machine.runFrom
        have hstep : (machine code initial).step state (.advance thread answer) =
            some ({ state with object := next }.goto thread (.inside call after)) := by
          simp only [machine, State.step, State.advance, hpc, hobject, hmore]
        rw [hstep]
        exact hrun
      · rw [hcallers]
        exact Function.update_idem ..

theorem holder_returns (initial : Object) (hfinishes : code.CanFinish Allowed Kind Represents)
    {answer : Answer} (hkind : Kind answer)
    (hsim : Simulates code Allowed Represents state config)
    (hholds : (state.callers thread).Holds) :
    ∃ schedule final, OnlyAdvances Kind schedule ∧
      (machine code initial).runFrom state schedule = some final ∧
      final.callers = Function.update state.callers thread .idle ∧ final.lock = false := by
  -- from the unlock on the code is straight
  have hunlock : ∀ (held : State Object Call Local Result) result,
      held.callers thread = .unlocking result →
        ∃ final, (machine code initial).runFrom held
            [.advance thread answer, .advance thread answer] = some final ∧
          final.callers = Function.update held.callers thread .idle ∧ final.lock = false := by
    intro held result hpc
    refine ⟨({ held with lock := false }.goto thread (.returning result)).goto thread .idle,
      ?_, Function.update_idem .., rfl⟩
    simp only [Machine.runFrom, machine, State.step, State.advance, hpc, State.goto,
      Function.update_self]
  have honly : OnlyAdvances Kind
      [(.advance thread answer : Action Call Answer), .advance thread answer] :=
    (onlyAdvances_singleton thread hkind).append (onlyAdvances_singleton thread hkind)
  cases hpc : state.callers thread with
  | inside call place =>
      have hmatches := hsim.callers thread
      rw [hpc] at hmatches
      obtain ⟨-, found, hfound, hruns⟩ := hmatches
      have hends := hfinishes _ _ _ _ _ hfound hruns
      obtain ⟨schedule, held, result, hadvances, hrun, hcallers, -⟩ :=
        hends.unlocks initial hpc
      have hheld : held.callers thread = .unlocking result := by
        rw [hcallers, Function.update_self]
      obtain ⟨final, hlast, hfinal, hlock⟩ := hunlock held result hheld
      refine ⟨_, final, hadvances.append honly, Machine.runFrom_append hrun hlast, ?_, hlock⟩
      rw [hfinal, hcallers]
      exact Function.update_idem ..
  | unlocking result =>
      obtain ⟨final, hrun, hfinal, hlock⟩ := hunlock state result hpc
      exact ⟨_, final, honly, hrun, hfinal, hlock⟩
  | idle => exact absurd hholds (by rw [hpc]; exact id)
  | locking call => exact absurd hholds (by rw [hpc]; exact id)
  | returning result => exact absurd hholds (by rw [hpc]; exact id)

theorem locking_returns (initial : Object)
    (himplements : code.Implements Allowed spec Represents)
    (hfinishes : code.CanFinish Allowed Kind Represents)
    (hweaken : ∀ answer, Kind answer → Allowed answer) {answer : Answer} (hkind : Kind answer)
    (hsim : Simulates code Allowed Represents state config)
    {call : Call} (hpc : state.callers thread = .locking call) (hfree : state.lock = false) :
    ∃ schedule final, OnlyAdvances Kind schedule ∧
      (machine code initial).runFrom state schedule = some final ∧
      final.callers thread = .idle := by
  have hstep : state.step code (.advance thread answer) =
      some ({ state with lock := true }.goto thread (.inside call (code.enter call))) := by
    simp only [State.step, State.advance, hpc, hfree]
    rfl
  have hanswers : Answers Allowed state (.advance thread answer) := hweaken answer hkind
  obtain ⟨after, -, hafter⟩ := hsim.step himplements hanswers hstep
  have hholds : (Function.update state.callers thread
      (.inside call (code.enter call)) thread).Holds := by
    rw [Function.update_self]
    trivial
  obtain ⟨schedule, final, honly, hrun, hcallers, -⟩ :=
    holder_returns initial hfinishes hkind hafter hholds
  refine ⟨.advance thread answer :: schedule, final,
    (onlyAdvances_singleton thread hkind).append honly, ?_, ?_⟩
  · unfold Machine.runFrom
    rw [show (machine code initial).step state (.advance thread answer) = _ from hstep]
    exact hrun
  · rw [hcallers, Function.update_self]

/-- From every reachable state every call that has begun can return, without a new call
and with answers that are kind, whatever the answers were before. -/
theorem returns {initial : Object} (himplements : code.Implements Allowed spec Represents)
    (hinitial : Represents initial spec.initial)
    (hfinishes : code.CanFinish Allowed Kind Represents)
    (hweaken : ∀ answer, Kind answer → Allowed answer) (answer : Answer) (hkind : Kind answer)
    (hreached : (machine code initial).ReachedBy (Answers Allowed) state) (thread : ℕ) :
    ∃ schedule final, OnlyAdvances Kind schedule ∧
      (machine code initial).runFrom state schedule = some final ∧
      final.callers thread = .idle := by
  obtain ⟨config, hsim⟩ := simulates_of_reached himplements hinitial hreached
  have hidle : ∀ {final : State Object Call Local Result},
      final.callers = Function.update state.callers thread .idle →
        final.callers thread = .idle := by
    intro final hcallers
    rw [hcallers, Function.update_self]
  by_cases hholds : (state.callers thread).Holds
  · obtain ⟨schedule, final, honly, hrun, hcallers, -⟩ :=
      holder_returns initial hfinishes hkind hsim hholds
    exact ⟨schedule, final, honly, hrun, hidle hcallers⟩
  · cases hpc : state.callers thread with
    | idle => exact ⟨[], state, fun _ hmem => absurd hmem List.not_mem_nil, rfl, hpc⟩
    | inside call place => exact absurd trivial (by rwa [hpc] at hholds)
    | unlocking result => exact absurd trivial (by rwa [hpc] at hholds)
    | returning result =>
        refine ⟨[.advance thread answer], state.goto thread .idle,
          onlyAdvances_singleton thread hkind, ?_, hidle rfl⟩
        simp only [Machine.runFrom, machine, State.step, State.advance, hpc]
    | locking call =>
        cases hlock : state.lock with
        | false => exact locking_returns initial himplements hfinishes hweaken hkind hsim hpc hlock
        | true =>
            -- first the holder, who is another thread, gets out of the way
            obtain ⟨holder, hholder⟩ := hsim.exclusive.taken.mp hlock
            obtain ⟨first, middle, hfirst, hrun, hcallers, hfree⟩ :=
              holder_returns initial hfinishes hkind hsim hholder
            obtain ⟨after, -, hafter⟩ := Machine.history_steps_of_admits
              (Simulates code Allowed Represents) (Answers Allowed)
              (fun _ _ _ _ hsim hanswers hstep => hsim.step himplements hanswers hstep) hsim
              ((hfirst.imp hweaken).admits state) hrun
            have hother : thread ≠ holder := by
              rintro rfl
              exact hholds hholder
            have hwaits : middle.callers thread = .locking call := by
              rw [hcallers, Function.update_of_ne hother, hpc]
            obtain ⟨second, final, hsecond, hlast, hdone⟩ :=
              locking_returns initial himplements hfinishes hweaken hkind hafter hwaits hfree
            exact ⟨_, final, hfirst.append hsecond, Machine.runFrom_append hrun hlast, hdone⟩

end Progress

end CriticalSection

end BackEndFacility
