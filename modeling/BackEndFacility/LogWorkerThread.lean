import BackEndFacility.LogWorkerSteps
import Mathlib.Data.Set.Finite.Basic

/-!
# The thread of the log worker

`DoLog` posts `sig_` behind each of its first attempts to push, and the thread that
`RunWorker` starts waits for it, flushes, and looks whether `StopLogging` has posted
`stop_`.  What `Log` and `Flush` do to the pool and the queue is as in `LogWorker`; the
semaphores, the flags and the places of the threads outside of these calls come on top.

`busy_` is set by the thread that has been started, not by the one that starts it, so
there may be any number of workers.
-/

namespace BackEndFacility
namespace LogWorkerThread

open LogWorker (LogEntity)

/-! ## The worker and its threads -/

/-- The next operation of a thread.  A thread that is `idle` may be inside a call of
`Log` or `Flush`, and one that is at `flush` is inside the `Flush` of `Run`. -/
inductive Place where
  | idle
  | post
  | stopSig
  | stopStop
  | runLock
  | runCheck
  | runStart
  | runCreate
  | runUnlock
  | runTask
  | wait
  | flush
  | tryStop
  | leave
  | ended
  deriving DecidableEq, Repr

/-- How a round of `sem_timedwait` ends; a failing `clock_gettime` starts the round
again, as an interrupt does. -/
inductive Wake where
  | taken
  | timedOut
  | interrupted
  deriving DecidableEq, Repr

/-- `queued` counts the messages put on the queue so far. -/
structure State where
  base : LogWorker.State
  queued : ℕ
  sig : ℕ
  stop : ℕ
  run : Bool
  guardRunning : Bool
  busy : Bool
  place : ℕ → Place

/-- The calls, the next step of a thread, and a stream that changes its state.  A step
that may wait or start a thread is told how the wait ends and which thread, if any. -/
inductive Action where
  | logString (thread fout sz : ℕ)
  | logFormat (thread fout : ℕ)
  | flush (thread : ℕ)
  | turn (fout : ℕ) (good : Bool)
  | stopLogging (thread : ℕ)
  | runWorker (thread : ℕ)
  | advance (thread : ℕ) (wake : Wake) (child : Option ℕ)
  deriving DecidableEq, Repr

def construct (size : ℕ) : State where
  base := LogWorker.construct size
  queued := 0
  sig := 0
  stop := 0
  run := false
  guardRunning := false
  busy := false
  place := fun _ => .idle

namespace State

def setBase (state : State) (base : LogWorker.State) : State :=
  { state with base := base }

def goto (state : State) (thread : ℕ) (place : Place) : State :=
  { state with place := Function.update state.place thread place }

/-- A thread between calls. -/
def Free (state : State) (thread : ℕ) : Prop :=
  state.place thread = .idle ∧ state.base.callers thread = .idle

instance decidableFree (state : State) (thread : ℕ) : Decidable (state.Free thread) :=
  inferInstanceAs (Decidable (_ ∧ _))

/-- Behind an attempt of `DoLog` to push. -/
def attempted (size : ℕ) (state : State) (thread retry : ℕ) (base : LogWorker.State) : State :=
  { state with
    base := base
    queued := if state.base.pending.length < size then state.queued + 1 else state.queued }.goto
      thread (if retry < LogWorker.maxRetry then .post else .idle)

/-- The next step of a call of `Log` or `Flush`. -/
def advanceCall (size granularity : ℕ) (state : State) (thread : ℕ) : Option State :=
  (state.base.step size granularity (.advance thread)).map fun base =>
    match state.base.callers thread with
    | .logPush _ retry => state.attempted size thread retry base
    | _ => state.setBase base

/-- `Run` goes on to its `Flush`. -/
def beginFlush (size granularity : ℕ) (state : State) (thread : ℕ) : Option State :=
  (state.base.step size granularity (.flush thread)).map fun base =>
    (state.setBase base).goto thread .flush

/-- `sem_timedwait(&sig_, &ts)` takes a token if there is one. -/
def wakeUp (size granularity : ℕ) (state : State) (thread : ℕ) : Wake → Option State
  | .taken =>
      if 0 < state.sig then
        { state with sig := state.sig - 1 }.beginFlush size granularity thread
      else none
  | .timedOut => if state.sig = 0 then state.beginFlush size granularity thread else none
  | .interrupted => some state

/-- The next step of the `Flush` of `Run`. -/
def advanceFlush (size granularity : ℕ) (state : State) (thread : ℕ) : Option State :=
  (state.base.step size granularity (.advance thread)).map fun base =>
    (state.setBase base).goto thread
      (if base.callers thread = .idle then .tryStop else .flush)

/-- `pthread_create` -/
def create (state : State) (thread : ℕ) : Option ℕ → Option State
  | none => some (state.goto thread .runUnlock)
  | some child =>
      if state.Free child then some ((state.goto child .runTask).goto thread .runUnlock)
      else none

def advance (size granularity : ℕ) (state : State) (thread : ℕ) (wake : Wake)
    (child : Option ℕ) : Option State :=
  match state.place thread with
  | .idle => state.advanceCall size granularity thread
  | .post => some ({ state with sig := state.sig + 1 }.goto thread .idle)
  | .stopSig => some ({ state with sig := state.sig + 1 }.goto thread .stopStop)
  | .stopStop => some ({ state with stop := state.stop + 1 }.goto thread .idle)
  | .runLock =>
      if state.guardRunning then none
      else some ({ state with guardRunning := true }.goto thread .runCheck)
  | .runCheck => some (state.goto thread (if state.busy then .runUnlock else .runStart))
  | .runStart => some (state.goto thread (if state.busy then .runUnlock else .runCreate))
  | .runCreate => state.create thread child
  | .runUnlock => some ({ state with guardRunning := false }.goto thread .idle)
  | .runTask => some ({ state with busy := true }.goto thread .wait)
  | .wait => state.wakeUp size granularity thread wake
  | .flush => state.advanceFlush size granularity thread
  | .tryStop =>
      if 0 < state.stop then
        some ({ state with stop := state.stop - 1 }.goto thread .leave)
      else some (state.goto thread .wait)
  | .leave => some ({ state with busy := false }.goto thread .ended)
  | .ended => none

/-- A call of `Log` or `Flush` begins. -/
def call (size granularity : ℕ) (state : State) (thread : ℕ) (action : LogWorker.Action) :
    Option State :=
  if state.place thread = .idle then
    (state.base.step size granularity action).map state.setBase
  else none

def step (size granularity : ℕ) (state : State) : Action → Option State
  | .logString thread fout sz =>
      state.call size granularity thread (.logString thread fout sz)
  | .logFormat thread fout => state.call size granularity thread (.logFormat thread fout)
  | .flush thread => state.call size granularity thread (.flush thread)
  | .turn fout good =>
      (state.base.step size granularity (.turn fout good)).map state.setBase
  | .stopLogging thread =>
      if state.Free thread then some ({ state with run := false }.goto thread .stopSig)
      else none
  | .runWorker thread =>
      if state.Free thread then some ({ state with run := true }.goto thread .runLock)
      else none
  | .advance thread wake child => state.advance size granularity thread wake child

end State

def machine (size granularity : ℕ) : Machine State Action where
  start := construct size
  step := State.step size granularity

/-- `Flush` finds the stream of every entry it takes good. -/
def FindsGood (state : State) : Action → Prop
  | .advance thread _ _ => LogWorker.FindsGood state.base (.advance thread)
  | _ => True

instance decidableFindsGood (state : State) : ∀ action, Decidable (FindsGood state action)
  | .logString _ _ _ => isTrue trivial
  | .logFormat _ _ => isTrue trivial
  | .flush _ => isTrue trivial
  | .turn _ _ => isTrue trivial
  | .stopLogging _ => isTrue trivial
  | .runWorker _ => isTrue trivial
  | .advance thread _ _ =>
      inferInstanceAs (Decidable (LogWorker.FindsGood state.base (.advance thread)))

/-! ## What a step can do -/

/-- Neither inside a call nor inside the `Flush` of `Run`. -/
def Place.Outside : Place → Prop
  | .idle => False
  | .post => False
  | .flush => False
  | _ => True

/-- Behind the last `Flush` of a round. -/
def Place.Past : Place → Prop
  | .tryStop => True
  | .leave => True
  | .ended => True
  | _ => False

/-- A worker that has not taken a token of `stop_`. -/
def Place.Working : Place → Prop
  | .runTask => True
  | .wait => True
  | .flush => True
  | .tryStop => True
  | _ => False

/-- The two places of a thread agree. -/
structure State.Matched (state : State) : Prop where
  flushing : ∀ thread, state.place thread = .flush → (state.base.callers thread).Flushing
  outside : ∀ thread, (state.place thread).Outside → state.base.callers thread = .idle

/-- What a step does to the queue, to `sig_` and to the places of the threads. -/
inductive Moves (size granularity : ℕ) (state : State) : State → Prop
  | turn {base : LogWorker.State} {fout : ℕ} {good : Bool}
      (hbase : state.base.step size granularity (.turn fout good) = some base) :
      Moves size granularity state (state.setBase base)
  | act {base : LogWorker.State} {action : LogWorker.Action} {thread : ℕ} {pc : LogWorker.Pc}
      (hplace : state.place thread = .idle)
      (hbase : state.base.step size granularity action = some base)
      (htakes : state.base.Takes base thread pc) :
      Moves size granularity state (state.setBase base)
  | push {base : LogWorker.State} {thread : ℕ} {log : LogEntity} {retry : ℕ}
      (hplace : state.place thread = .idle)
      (hpc : state.base.callers thread = .logPush log retry)
      (hbase : state.base.step size granularity (.advance thread) = some base) :
      Moves size granularity state (state.attempted size thread retry base)
  | post {thread : ℕ} (hplace : state.place thread = .post) :
      Moves size granularity state ({ state with sig := state.sig + 1 }.goto thread .idle)
  | quiet {next : State} {thread : ℕ} {place : Place}
      (hidle : state.base.callers thread = .idle)
      (hplace : state.place thread ≠ .post ∧ state.place thread ≠ .flush)
      (hbase : next.base = state.base) (hqueued : next.queued = state.queued)
      (hsig : state.sig ≤ next.sig)
      (hnext : next.place = Function.update state.place thread place)
      (hflush : place ≠ .flush) (hpast : place.Past → (state.place thread).Past) :
      Moves size granularity state next
  | create {thread child : ℕ} (hplace : state.place thread = .runCreate)
      (hfree : state.Free child) :
      Moves size granularity state ((state.goto child .runTask).goto thread .runUnlock)
  | wake {base : LogWorker.State} {thread sig : ℕ} (hplace : state.place thread = .wait)
      (hbase : state.base.step size granularity (.flush thread) = some base)
      (hpending : base.pending = state.base.pending)
      (hcallers : base.callers = Function.update state.base.callers thread .flushPop) :
      Moves size granularity state
        (({ state with sig := sig }.setBase base).goto thread .flush)
  | flush {base : LogWorker.State} {thread : ℕ} {pc : LogWorker.Pc}
      (hplace : state.place thread = .flush)
      (hbase : state.base.step size granularity (.advance thread) = some base)
      (htakes : state.base.Takes base thread pc)
      (hpc : pc.Flushing ∨ pc = .idle ∧ base.pending = []) :
      Moves size granularity state
        ((state.setBase base).goto thread (if pc = .idle then .tryStop else .flush))

section Steps

variable {size granularity : ℕ} {state next : State}

theorem moves_of_call {thread : ℕ} {action : LogWorker.Action}
    (haction : (∃ fout sz, action = .logString thread fout sz) ∨
      (∃ fout, action = .logFormat thread fout) ∨ action = .flush thread)
    (hstep : state.call size granularity thread action = some next) :
    Moves size granularity state next := by
  unfold State.call at hstep
  split_ifs at hstep with hplace
  obtain ⟨base, hbase, rfl⟩ := Option.map_eq_some_iff.mp hstep
  obtain ⟨-, pc, htakes⟩ := LogWorker.call_takes haction hbase
  exact .act hplace hbase htakes

theorem moves_of_advanceCall {thread : ℕ} (hplace : state.place thread = .idle)
    (hstep : state.advanceCall size granularity thread = some next) :
    Moves size granularity state next := by
  unfold State.advanceCall at hstep
  obtain ⟨base, hbase, hnext⟩ := Option.map_eq_some_iff.mp hstep
  by_cases hpush : ∃ log retry, state.base.callers thread = .logPush log retry
  · obtain ⟨log, retry, hpc⟩ := hpush
    simp only [hpc] at hnext
    subst next
    exact .push hplace hpc hbase
  · have hpc : ∀ log retry, state.base.callers thread ≠ .logPush log retry :=
      fun log retry hpc => hpush ⟨log, retry, hpc⟩
    obtain ⟨pc, htakes, -⟩ := LogWorker.advance_takes hpc hbase
    split at hnext
    · rename_i log retry hcaller
      exact absurd hcaller (hpc log retry)
    · subst next
      exact .act hplace hbase htakes

theorem moves_of_beginFlush {thread sig : ℕ} (hplace : state.place thread = .wait)
    (hstep : { state with sig := sig }.beginFlush size granularity thread = some next) :
    Moves size granularity state next := by
  unfold State.beginFlush at hstep
  obtain ⟨base, hbase, rfl⟩ := Option.map_eq_some_iff.mp hstep
  have hflush := hbase
  simp only [LogWorker.State.step] at hflush
  split_ifs at hflush
  cases hflush
  exact .wake hplace hbase rfl rfl

theorem moves_of_advanceFlush {thread : ℕ} (hmatched : state.Matched)
    (hplace : state.place thread = .flush)
    (hstep : state.advanceFlush size granularity thread = some next) :
    Moves size granularity state next := by
  unfold State.advanceFlush at hstep
  obtain ⟨base, hbase, hnext⟩ := Option.map_eq_some_iff.mp hstep
  have hflushing := hmatched.flushing thread hplace
  have hpush : ∀ log retry, state.base.callers thread ≠ .logPush log retry := by
    intro log retry hpc
    rw [hpc] at hflushing
    exact hflushing
  obtain ⟨pc, htakes, hpc⟩ := LogWorker.advance_takes hpush hbase
  have hcaller : base.callers thread = pc := by
    rw [htakes.callers, Function.update_self]
  rw [hcaller] at hnext
  subst next
  exact .flush hplace hbase htakes (hpc hflushing)

theorem moves_of_advance {thread : ℕ} {wake : Wake} {child : Option ℕ}
    (hmatched : state.Matched)
    (hstep : state.advance size granularity thread wake child = some next) :
    Moves size granularity state next := by
  have hidle : (state.place thread).Outside → state.base.callers thread = .idle :=
    hmatched.outside thread
  have hquiet : ∀ {other : State} {place : Place}, (state.place thread).Outside →
      other.base = state.base → other.queued = state.queued → state.sig ≤ other.sig →
      other.place = Function.update state.place thread place → place ≠ .flush →
      (place.Past → (state.place thread).Past) → Moves size granularity state other := by
    intro other place houtside hbase hqueued hsig hnext hflush hpast
    refine .quiet (hidle houtside) ⟨?_, ?_⟩ hbase hqueued hsig hnext hflush hpast
    · intro hpost
      rw [hpost] at houtside
      exact houtside
    · intro hbad
      rw [hbad] at houtside
      exact houtside
  unfold State.advance at hstep
  cases hplace : state.place thread with
  | idle =>
      simp only [hplace] at hstep
      exact moves_of_advanceCall hplace hstep
  | post =>
      simp only [hplace, Option.some.injEq] at hstep
      subst next
      exact .post hplace
  | stopSig =>
      simp only [hplace, Option.some.injEq] at hstep
      subst next
      rw [hplace] at hquiet
      exact hquiet trivial rfl rfl (Nat.le_succ _) rfl (by simp) id
  | stopStop =>
      simp only [hplace, Option.some.injEq] at hstep
      subst next
      rw [hplace] at hquiet
      exact hquiet trivial rfl rfl le_rfl rfl (by simp) id
  | runLock =>
      simp only [hplace] at hstep
      split_ifs at hstep
      cases hstep
      rw [hplace] at hquiet
      exact hquiet trivial rfl rfl le_rfl rfl (by simp) id
  | runCheck =>
      simp only [hplace, Option.some.injEq] at hstep
      subst next
      rw [hplace] at hquiet
      refine hquiet trivial rfl rfl le_rfl rfl ?_ ?_
      · split_ifs
        · simp
        · simp
      · split_ifs
        · exact id
        · exact id
  | runStart =>
      simp only [hplace, Option.some.injEq] at hstep
      subst next
      rw [hplace] at hquiet
      refine hquiet trivial rfl rfl le_rfl rfl ?_ ?_
      · split_ifs
        · simp
        · simp
      · split_ifs
        · exact id
        · exact id
  | runCreate =>
      simp only [hplace] at hstep
      cases child with
      | none =>
          cases hstep
          rw [hplace] at hquiet
          exact hquiet trivial rfl rfl le_rfl rfl (by simp) id
      | some child =>
          simp only [State.create] at hstep
          split_ifs at hstep with hfree
          cases hstep
          exact .create hplace hfree
  | runUnlock =>
      simp only [hplace, Option.some.injEq] at hstep
      subst next
      rw [hplace] at hquiet
      exact hquiet trivial rfl rfl le_rfl rfl (by simp) id
  | runTask =>
      simp only [hplace, Option.some.injEq] at hstep
      subst next
      rw [hplace] at hquiet
      exact hquiet trivial rfl rfl le_rfl rfl (by simp) id
  | wait =>
      simp only [hplace] at hstep
      cases wake with
      | taken =>
          simp only [State.wakeUp] at hstep
          split_ifs at hstep
          exact moves_of_beginFlush hplace hstep
      | timedOut =>
          simp only [State.wakeUp] at hstep
          split_ifs at hstep
          exact @moves_of_beginFlush size granularity state next thread state.sig hplace hstep
      | interrupted =>
          cases hstep
          rw [hplace] at hquiet
          refine hquiet trivial rfl rfl le_rfl ?_ (by simp : Place.wait ≠ .flush) id
          rw [← hplace, Function.update_eq_self]
  | flush =>
      simp only [hplace] at hstep
      exact moves_of_advanceFlush hmatched hplace hstep
  | tryStop =>
      simp only [hplace] at hstep
      rw [hplace] at hquiet
      split_ifs at hstep
      · cases hstep
        exact hquiet trivial rfl rfl le_rfl rfl (by simp) fun _ => trivial
      · cases hstep
        exact hquiet trivial rfl rfl le_rfl rfl (by simp) fun _ => trivial
  | leave =>
      simp only [hplace, Option.some.injEq] at hstep
      subst next
      rw [hplace] at hquiet
      exact hquiet trivial rfl rfl le_rfl rfl (by simp) fun _ => trivial
  | ended =>
      simp only [hplace] at hstep
      cases hstep

theorem moves_of_step {action : Action} (hmatched : state.Matched)
    (hstep : state.step size granularity action = some next) :
    Moves size granularity state next := by
  cases action with
  | logString thread fout sz => exact moves_of_call (.inl ⟨fout, sz, rfl⟩) hstep
  | logFormat thread fout => exact moves_of_call (.inr (.inl ⟨fout, rfl⟩)) hstep
  | flush thread => exact moves_of_call (.inr (.inr rfl)) hstep
  | turn fout good =>
      simp only [State.step] at hstep
      obtain ⟨base, hbase, rfl⟩ := Option.map_eq_some_iff.mp hstep
      exact .turn hbase
  | stopLogging thread =>
      simp only [State.step] at hstep
      split_ifs at hstep with hfree
      cases hstep
      refine .quiet hfree.2 ⟨?_, ?_⟩ rfl rfl le_rfl rfl (by simp) fun hpast => hpast.elim
      · rw [hfree.1]
        simp
      · rw [hfree.1]
        simp
  | runWorker thread =>
      simp only [State.step] at hstep
      split_ifs at hstep with hfree
      cases hstep
      refine .quiet hfree.2 ⟨?_, ?_⟩ rfl rfl le_rfl rfl (by simp) fun hpast => hpast.elim
      · rw [hfree.1]
        simp
      · rw [hfree.1]
        simp
  | advance thread wake child => exact moves_of_advance hmatched hstep

/-! ## What every step keeps -/

theorem State.Matched.goto (hmatched : state.Matched) {thread : ℕ} {pc : LogWorker.Pc}
    {place : Place}
    (hcallers : next.base.callers = Function.update state.base.callers thread pc)
    (hplace : next.place = Function.update state.place thread place)
    (hflush : place = .flush → pc.Flushing) (houtside : place.Outside → pc = .idle) :
    next.Matched where
  flushing := by
    intro other hother
    rw [hplace] at hother
    rw [hcallers]
    by_cases heq : other = thread
    · subst heq
      rw [Function.update_self] at hother ⊢
      exact hflush hother
    · rw [Function.update_of_ne heq] at hother ⊢
      exact hmatched.flushing other hother
  outside := by
    intro other hother
    rw [hplace] at hother
    rw [hcallers]
    by_cases heq : other = thread
    · subst heq
      rw [Function.update_self] at hother ⊢
      exact houtside hother
    · rw [Function.update_of_ne heq] at hother ⊢
      exact hmatched.outside other hother

theorem State.Matched.moves (hmatched : state.Matched)
    (hmoves : Moves size granularity state next) : next.Matched := by
  cases hmoves with
  | turn hbase =>
      simp only [LogWorker.State.step, Option.some.injEq] at hbase
      subst hbase
      exact ⟨hmatched.flushing, hmatched.outside⟩
  | act hplace hbase htakes =>
      rename_i thread pc
      have hsame : state.place = Function.update state.place thread .idle := by
        rw [← hplace, Function.update_eq_self]
      exact hmatched.goto htakes.callers hsame (by simp) fun hidle => hidle.elim
  | push hplace hpc hbase =>
      obtain ⟨-, pc, hcallers⟩ := LogWorker.advance_pushes hpc hbase
      refine hmatched.goto hcallers rfl ?_ ?_
      · split_ifs
        · simp
        · simp
      · split_ifs
        · exact fun houtside => houtside.elim
        · exact fun houtside => houtside.elim
  | post hplace =>
      rename_i thread
      exact hmatched.goto (Function.update_eq_self thread _).symm rfl (by simp)
        fun hidle => hidle.elim
  | quiet hidle hplace hbase hqueued hsig hnext hflush hpast =>
      refine hmatched.goto ?_ hnext (fun hbad => absurd hbad hflush) fun _ => rfl
      rw [hbase, ← hidle, Function.update_eq_self]
  | create hplace hfree =>
      rename_i thread child
      have hchild : (state.goto child .runTask).Matched := by
        refine hmatched.goto ?_ rfl (by simp) fun _ => rfl
        rw [← hfree.2, Function.update_eq_self]
        rfl
      have hidle : state.base.callers thread = .idle := by
        apply hmatched.outside
        rw [hplace]
        trivial
      refine hchild.goto ?_ rfl (by simp) fun _ => rfl
      rw [← hidle]
      exact (Function.update_eq_self thread _).symm
  | wake hplace hbase hpending hcallers =>
      exact hmatched.goto hcallers rfl (fun _ => trivial) fun houtside => houtside.elim
  | flush hplace hbase htakes hpc =>
      refine hmatched.goto htakes.callers rfl ?_ ?_
      · rcases hpc with hpc | ⟨rfl, -⟩
        · exact fun _ => hpc
        · simp
      · split_ifs with heq
        · exact fun _ => heq
        · exact fun houtside => houtside.elim

/-- No entry waits on the queue with nobody on the way to flush it. -/
def State.Attended (state : State) : Prop :=
  state.base.pending ≠ [] →
    0 < state.sig ∨ (∃ thread, state.place thread = .post) ∨
      ∃ thread, state.place thread = .flush

theorem State.Attended.keep (hattended : state.Attended)
    (hpending : next.base.pending ≠ [] → state.base.pending ≠ []) (hsig : state.sig ≤ next.sig)
    (hplace : ∀ thread, state.place thread = .post ∨ state.place thread = .flush →
      next.place thread = state.place thread) : next.Attended := by
  intro hne
  rcases hattended (hpending hne) with htoken | ⟨thread, hpost⟩ | ⟨thread, hflush⟩
  · exact .inl (htoken.trans_le hsig)
  · exact .inr (.inl ⟨thread, (hplace thread (.inl hpost)).trans hpost⟩)
  · exact .inr (.inr ⟨thread, (hplace thread (.inr hflush)).trans hflush⟩)

theorem State.Attended.moves (hattended : state.Attended) (horderly : state.base.Orderly size)
    (hmoves : Moves size granularity state next) : next.Attended := by
  cases hmoves with
  | turn hbase =>
      simp only [LogWorker.State.step, Option.some.injEq] at hbase
      subst hbase
      exact hattended
  | act hplace hbase htakes =>
      refine hattended.keep ?_ le_rfl fun _ _ => rfl
      intro hne hnil
      exact hne (List.suffix_nil.mp (hnil ▸ htakes.pending))
  | push hplace hpc hbase =>
      rename_i base thread log retry
      obtain rfl := horderly.first thread log retry hpc
      exact fun _ => .inr (.inl ⟨thread, Function.update_self thread _ _⟩)
  | post hplace => exact fun _ => .inl (Nat.succ_pos _)
  | quiet hidle hplace hbase hqueued hsig hnext hflush hpast =>
      refine hattended.keep (fun hne => hbase ▸ hne) hsig ?_
      intro other hwhere
      rw [hnext, Function.update_of_ne]
      rintro rfl
      exact hwhere.elim hplace.1 hplace.2
  | create hplace hfree =>
      refine hattended.keep id le_rfl ?_
      intro other hwhere
      simp only [State.goto]
      rw [Function.update_of_ne, Function.update_of_ne]
      · rintro rfl
        rw [hfree.1] at hwhere
        simp at hwhere
      · rintro rfl
        rw [hplace] at hwhere
        simp at hwhere
  | wake hplace hbase hpending hcallers =>
      rename_i base thread sig
      exact fun _ => .inr (.inr ⟨thread, Function.update_self thread _ _⟩)
  | flush hplace hbase htakes hpc =>
      rename_i base thread pc
      intro hne
      rcases hpc with hpc | ⟨-, hnil⟩
      · refine .inr (.inr ⟨thread, ?_⟩)
        have hbusy : pc ≠ .idle := by
          rintro rfl
          exact hpc
        rw [if_neg hbusy]
        exact Function.update_self thread _ _
      · exact absurd hnil hne

theorem base_of_step {action : Action}
    (hstep : state.step size granularity action = some next) :
    next.base = state.base ∨
      ∃ act, state.base.step size granularity act = some next.base ∧
        (FindsGood state action → LogWorker.FindsGood state.base act) := by
  have hcall : ∀ {thread act}, LogWorker.FindsGood state.base act →
      state.call size granularity thread act = some next →
      ∃ act, state.base.step size granularity act = some next.base ∧
        (FindsGood state action → LogWorker.FindsGood state.base act) := by
    intro thread act hgood hcalled
    unfold State.call at hcalled
    split_ifs at hcalled
    obtain ⟨base, hbase, rfl⟩ := Option.map_eq_some_iff.mp hcalled
    exact ⟨act, hbase, fun _ => hgood⟩
  cases action with
  | logString thread fout sz => exact .inr (hcall (by trivial) hstep)
  | logFormat thread fout => exact .inr (hcall (by trivial) hstep)
  | flush thread => exact .inr (hcall (by trivial) hstep)
  | turn fout good =>
      simp only [State.step] at hstep
      obtain ⟨base, hbase, rfl⟩ := Option.map_eq_some_iff.mp hstep
      exact .inr ⟨_, hbase, fun _ => trivial⟩
  | stopLogging thread =>
      simp only [State.step] at hstep
      split_ifs at hstep
      cases hstep
      exact .inl rfl
  | runWorker thread =>
      simp only [State.step] at hstep
      split_ifs at hstep
      cases hstep
      exact .inl rfl
  | advance thread wake child =>
      simp only [State.step] at hstep
      unfold State.advance at hstep
      cases hplace : state.place thread with
      | idle =>
          simp only [hplace, State.advanceCall] at hstep
          obtain ⟨base, hbase, hnext⟩ := Option.map_eq_some_iff.mp hstep
          refine .inr ⟨.advance thread, ?_, id⟩
          split at hnext
          · subst next
            exact hbase
          · subst next
            exact hbase
      | flush =>
          simp only [hplace, State.advanceFlush] at hstep
          obtain ⟨base, hbase, rfl⟩ := Option.map_eq_some_iff.mp hstep
          exact .inr ⟨_, hbase, id⟩
      | wait =>
          have hbegin : ∀ sig, State.beginFlush size granularity { state with sig := sig } thread =
              some next → ∃ act, state.base.step size granularity act = some next.base ∧
                (FindsGood state (.advance thread wake child) →
                  LogWorker.FindsGood state.base act) := by
            intro sig hbegun
            obtain ⟨base, hbase, rfl⟩ := Option.map_eq_some_iff.mp hbegun
            exact ⟨_, hbase, fun _ => trivial⟩
          simp only [hplace] at hstep
          cases wake with
          | taken =>
              simp only [State.wakeUp] at hstep
              split_ifs at hstep
              exact .inr (hbegin _ hstep)
          | timedOut =>
              simp only [State.wakeUp] at hstep
              split_ifs at hstep
              exact .inr (hbegin state.sig hstep)
          | interrupted =>
              cases hstep
              exact .inl rfl
      | runCreate =>
          simp only [hplace] at hstep
          cases child with
          | none =>
              cases hstep
              exact .inl rfl
          | some child =>
              simp only [State.create] at hstep
              split_ifs at hstep
              cases hstep
              exact .inl rfl
      | runLock =>
          simp only [hplace] at hstep
          split_ifs at hstep
          cases hstep
          exact .inl rfl
      | tryStop =>
          simp only [hplace] at hstep
          split_ifs at hstep
          · cases hstep
            exact .inl rfl
          · cases hstep
            exact .inl rfl
      | ended => simp [hplace] at hstep
      | _ =>
          simp only [hplace, Option.some.injEq] at hstep
          subst next
          exact .inl rfl

theorem orderly_of_step {action : Action} (horderly : state.base.Orderly size)
    (hstep : state.step size granularity action = some next) : next.base.Orderly size := by
  rcases base_of_step hstep with hbase | ⟨act, hact, -⟩
  · rw [hbase]
    exact horderly
  · exact horderly.step hact

/-- What every run keeps. -/
structure State.Sound (size : ℕ) (state : State) : Prop where
  matched : state.Matched
  orderly : state.base.Orderly size
  attended : state.Attended

theorem State.Sound.construct (size : ℕ) : (construct size).Sound size where
  matched := ⟨fun _ hflush => (by cases hflush), fun _ houtside => houtside.elim⟩
  orderly := LogWorker.State.Orderly.construct size
  attended := fun hpending => absurd rfl hpending

theorem State.Sound.step {action : Action} (hsound : state.Sound size)
    (hstep : state.step size granularity action = some next) :
    Moves size granularity state next ∧ next.Sound size := by
  have hmoves := moves_of_step hsound.matched hstep
  exact ⟨hmoves, hsound.matched.moves hmoves, orderly_of_step hsound.orderly hstep,
    hsound.attended.moves hsound.orderly hmoves⟩

theorem sound_of_reachable (hreached : (machine size granularity).Reachable state) :
    state.Sound size :=
  Machine.ReachedBy.invariant (State.Sound size) (State.Sound.construct size)
    (fun _ _ _ hsound _ hstep => (hsound.step hstep).2) hreached

/-- Behind its last `Flush` the worker has left on the queue at most what came after. -/
def State.Saved (worker queued : ℕ) (state : State) : Prop :=
  queued ≤ state.queued ∧
    ((state.place worker).Past → state.base.pending.length + queued ≤ state.queued)

theorem past_of_goto {worker thread : ℕ} {place : Place}
    (hplace : next.place = Function.update state.place thread place)
    (hthread : place.Past → (state.place thread).Past)
    (hpast : (next.place worker).Past) : (state.place worker).Past := by
  rw [hplace] at hpast
  by_cases heq : worker = thread
  · subst heq
    rw [Function.update_self] at hpast
    exact hthread hpast
  · rwa [Function.update_of_ne heq] at hpast

theorem Moves.past {worker : ℕ} (hmoves : Moves size granularity state next)
    (hpast : (next.place worker).Past) :
    (state.place worker).Past ∨ next.base.pending = [] := by
  cases hmoves with
  | turn hbase => exact .inl hpast
  | act hplace hbase htakes => exact .inl hpast
  | push hplace hpc hbase =>
      refine .inl (past_of_goto rfl ?_ hpast)
      split_ifs
      · exact fun hpost => hpost.elim
      · exact fun hidle => hidle.elim
  | post hplace => exact .inl (past_of_goto rfl (by simp [Place.Past]) hpast)
  | quiet hidle hplace hbase hqueued hsig hnext hflush hthread =>
      exact .inl (past_of_goto hnext hthread hpast)
  | create hplace hfree =>
      rename_i thread child
      have hchild : ((state.goto child .runTask).place worker).Past :=
        past_of_goto rfl (by simp [Place.Past]) hpast
      exact .inl (past_of_goto rfl (by simp [Place.Past]) hchild)
  | wake hplace hbase hpending hcallers =>
      exact .inl (past_of_goto rfl (by simp [Place.Past]) hpast)
  | flush hplace hbase htakes hpc =>
      rename_i base thread pc
      rcases hpc with hpc | ⟨-, hnil⟩
      · have hbusy : pc ≠ .idle := by
          rintro rfl
          exact hpc
        rw [if_neg hbusy] at hpast
        exact .inl (past_of_goto rfl (by simp [Place.Past]) hpast)
      · exact .inr hnil

theorem Moves.count (hmoves : Moves size granularity state next) :
    state.queued ≤ next.queued ∧
      next.base.pending.length + state.queued ≤ state.base.pending.length + next.queued := by
  cases hmoves with
  | turn hbase =>
      simp only [LogWorker.State.step, Option.some.injEq] at hbase
      subst hbase
      exact ⟨le_rfl, le_rfl⟩
  | act hplace hbase htakes =>
      exact ⟨le_rfl, Nat.add_le_add_right htakes.pending.length_le _⟩
  | push hplace hpc hbase =>
      obtain ⟨hpending, -⟩ := LogWorker.advance_pushes hpc hbase
      simp only [State.attempted, State.goto, hpending]
      by_cases hroom : state.base.pending.length < size
      · rw [if_pos hroom, if_pos hroom, List.length_append, List.length_singleton]
        omega
      · rw [if_neg hroom, if_neg hroom]
        exact ⟨le_rfl, le_rfl⟩
  | post hplace => exact ⟨le_rfl, le_rfl⟩
  | quiet hidle hplace hbase hqueued hsig hnext hflush hpast =>
      rw [hbase, hqueued]
      exact ⟨le_rfl, le_rfl⟩
  | create hplace hfree => exact ⟨le_rfl, le_rfl⟩
  | wake hplace hbase hpending hcallers =>
      exact ⟨le_rfl, Nat.add_le_add_right (le_of_eq (congrArg List.length hpending)) _⟩
  | flush hplace hbase htakes hpc =>
      exact ⟨le_rfl, Nat.add_le_add_right htakes.pending.length_le _⟩

theorem State.Saved.moves {worker queued : ℕ} (hsaved : state.Saved worker queued)
    (hmoves : Moves size granularity state next) : next.Saved worker queued := by
  obtain ⟨hle, hlast⟩ := hsaved
  obtain ⟨hqueued, hcount⟩ := hmoves.count
  refine ⟨hle.trans hqueued, fun hpast => ?_⟩
  rcases hmoves.past hpast with hbefore | hnil
  · have hleft := hlast hbefore
    omega
  · rw [hnil, List.length_nil]
    omega

/-- All but finitely many threads are between calls. -/
def State.Staffed (state : State) : Prop :=
  Set.Finite fun thread => ¬ state.Free thread

theorem State.Staffed.goto (hstaffed : state.Staffed) {thread : ℕ} {pc : LogWorker.Pc}
    {place : Place}
    (hcallers : next.base.callers = Function.update state.base.callers thread pc)
    (hplace : next.place = Function.update state.place thread place) : next.Staffed := by
  refine (Set.Finite.insert thread hstaffed).subset ?_
  intro other hbusy
  by_cases heq : other = thread
  · exact .inl heq
  · refine .inr fun hfree => hbusy ⟨?_, ?_⟩
    · rw [hplace, Function.update_of_ne heq]
      exact hfree.1
    · rw [hcallers, Function.update_of_ne heq]
      exact hfree.2

theorem State.Staffed.moves (hstaffed : state.Staffed)
    (hmoves : Moves size granularity state next) : next.Staffed := by
  cases hmoves with
  | turn hbase =>
      simp only [LogWorker.State.step, Option.some.injEq] at hbase
      subst hbase
      exact hstaffed
  | act hplace hbase htakes =>
      exact hstaffed.goto htakes.callers (Function.update_eq_self _ _).symm
  | push hplace hpc hbase =>
      obtain ⟨-, pc, hcallers⟩ := LogWorker.advance_pushes hpc hbase
      exact hstaffed.goto hcallers rfl
  | post hplace => exact hstaffed.goto (Function.update_eq_self _ _).symm rfl
  | quiet hidle hplace hbase hqueued hsig hnext hflush hpast =>
      rename_i thread place
      have hsame : next.base.callers =
          Function.update state.base.callers thread (state.base.callers thread) := by
        rw [hbase, Function.update_eq_self]
      exact hstaffed.goto hsame hnext
  | create hplace hfree =>
      rename_i thread child
      have hchild : (state.goto child .runTask).Staffed :=
        hstaffed.goto (Function.update_eq_self child _).symm rfl
      exact hchild.goto (Function.update_eq_self _ _).symm rfl
  | wake hplace hbase hpending hcallers => exact hstaffed.goto hcallers rfl
  | flush hplace hbase htakes hpc => exact hstaffed.goto htakes.callers rfl

/-- Behind its last `Flush` the worker has left nothing of `queue`. -/
structure State.Delivers (before queue : List LogEntity) (worker : ℕ) (state : State) : Prop where
  handles : state.base.Handles before queue
  last : (state.place worker).Past → ∀ log ∈ queue, state.base.Handled before log

theorem State.Delivers.step {before queue : List LogEntity} {worker : ℕ} {action : Action}
    (hdelivers : state.Delivers before queue worker) (hsound : state.Sound size)
    (hgood : FindsGood state action)
    (hstep : state.step size granularity action = some next) :
    next.Delivers before queue worker := by
  obtain ⟨hhandles, hlast⟩ := hdelivers
  obtain ⟨hmoves, -⟩ := hsound.step hstep
  have hboth : next.base.Handles before queue ∧ ∀ log, state.base.Handled before log →
      next.base.Handled before log := by
    rcases base_of_step hstep with hbase | ⟨act, hact, hfinds⟩
    · rw [hbase]
      exact ⟨hhandles, fun _ => id⟩
    · exact ⟨hhandles.step (hfinds hgood) hact,
        fun log hhandled => hhandled.step hhandles.written (hfinds hgood) hact⟩
  obtain ⟨hnext, hkept⟩ := hboth
  refine ⟨hnext, fun hpast log hmem => ?_⟩
  rcases hmoves.past hpast with hbefore | hnil
  · exact hkept log (hlast hbefore log hmem)
  · exact hnext.all hnil hmem

/-- A worker that has been told to stop, or has heard of it. -/
def State.Stopping (worker : ℕ) (state : State) : Prop :=
  0 < state.stop ∧ (state.place worker).Working ∨ state.place worker = .leave ∨
    state.place worker = .ended

/-- The steps of a worker that has been told to stop. -/
def State.rank (worker : ℕ) (state : State) : ℕ :=
  match state.place worker with
  | .runTask => 4 * state.base.pending.length + 5
  | .wait => 4 * state.base.pending.length + 4
  | .flush => 4 * state.base.pending.length + (state.base.callers worker).rank + 3
  | .tryStop => 2
  | .leave => 1
  | _ => 0

theorem stopping_beginFlush {worker sig : ℕ} (hplace : state.place worker = .wait)
    (hstop : 0 < state.stop) (hidle : state.base.callers worker = .idle) :
    ∃ next, State.beginFlush size granularity { state with sig := sig } worker = some next ∧
      next.Stopping worker ∧ next.rank worker < state.rank worker := by
  simp only [State.beginFlush, LogWorker.State.step, if_pos hidle, Option.map_some]
  refine ⟨_, rfl, .inl ⟨hstop, ?_⟩, ?_⟩
  · simp only [State.goto, Function.update_self]
    trivial
  · simp only [State.rank, State.goto, State.setBase, LogWorker.State.goto,
      Function.update_self, hplace, LogWorker.Pc.rank]
    omega

theorem stopping_advanceFlush {worker : ℕ} (hplace : state.place worker = .flush)
    (hstop : 0 < state.stop) (hflushing : (state.base.callers worker).Flushing) :
    ∃ next, state.advanceFlush size granularity worker = some next ∧
      next.Stopping worker ∧ next.rank worker < state.rank worker := by
  obtain ⟨base, hbase, hranks⟩ := @LogWorker.flush_ranks size granularity worker _ hflushing
  simp only [State.advanceFlush, hbase, Option.map_some]
  refine ⟨_, rfl, ?_⟩
  rcases hranks with hidle | ⟨hpc, hlt⟩
  · rw [if_pos hidle]
    refine ⟨.inl ⟨hstop, ?_⟩, ?_⟩
    · simp only [State.goto, Function.update_self]
      trivial
    · simp only [State.rank, State.goto, Function.update_self, hplace]
      omega
  · have hbusy : base.callers worker ≠ .idle := by
      intro hidle
      rw [hidle] at hpc
      exact hpc
    rw [if_neg hbusy]
    refine ⟨.inl ⟨hstop, ?_⟩, ?_⟩
    · simp only [State.goto, Function.update_self]
      trivial
    · simp only [State.rank, State.goto, State.setBase, Function.update_self, hplace]
      omega

/-- How the wait of a worker ends, if it is not interrupted. -/
def State.wake (state : State) : Wake := if 0 < state.sig then .taken else .timedOut

theorem stopping_steps {worker : ℕ} (hmatched : state.Matched)
    (hstopping : state.Stopping worker) (hplace : state.place worker ≠ .ended) :
    ∃ next, state.step size granularity (.advance worker state.wake none) = some next ∧
      next.Stopping worker ∧ next.rank worker < state.rank worker := by
  have hworking : (state.place worker).Working → 0 < state.stop := by
    intro hwork
    rcases hstopping with ⟨hstop, -⟩ | hleave | hended
    · exact hstop
    · rw [hleave] at hwork
      exact hwork.elim
    · exact absurd hended hplace
  simp only [State.step, State.advance]
  cases hwhere : state.place worker with
  | runTask =>
      rw [hwhere] at hworking
      refine ⟨_, rfl, .inl ⟨hworking trivial, ?_⟩, ?_⟩
      · simp only [State.goto, Function.update_self]
        trivial
      · simp only [State.rank, State.goto, Function.update_self, hwhere]
        omega
  | wait =>
      have hidle : state.base.callers worker = .idle := by
        apply hmatched.outside
        rw [hwhere]
        trivial
      rw [hwhere] at hworking
      by_cases hsig : 0 < state.sig
      · simp only [State.wake, if_pos hsig, State.wakeUp]
        exact stopping_beginFlush hwhere (hworking trivial) hidle
      · simp only [State.wake, if_neg hsig, State.wakeUp, if_pos (Nat.eq_zero_of_not_pos hsig)]
        exact @stopping_beginFlush _ _ state worker state.sig hwhere (hworking trivial) hidle
  | flush =>
      have hflushing := hmatched.flushing worker hwhere
      rw [hwhere] at hworking
      exact stopping_advanceFlush hwhere (hworking trivial) hflushing
  | tryStop =>
      rw [hwhere] at hworking
      simp only [if_pos (hworking trivial)]
      refine ⟨_, rfl, .inr (.inl (Function.update_self worker _ _)), ?_⟩
      simp only [State.rank, State.goto, Function.update_self, hwhere]
      omega
  | leave =>
      refine ⟨_, rfl, .inr (.inr (Function.update_self worker _ _)), ?_⟩
      simp only [State.rank, State.goto, Function.update_self, hwhere]
      omega
  | ended => exact absurd hwhere hplace
  | _ =>
      rcases hstopping with ⟨-, hwork⟩ | hleave | hended
      · rw [hwhere] at hwork
        exact hwork.elim
      · rw [hwhere] at hleave
        cases hleave
      · exact absurd hended hplace

theorem advance_wake {worker : ℕ} {wake : Wake} (hwake : wake ≠ .interrupted)
    (hstep : state.step size granularity (.advance worker wake none) = some next) :
    state.step size granularity (.advance worker state.wake none) = some next := by
  simp only [State.step, State.advance] at hstep ⊢
  cases hwhere : state.place worker with
  | wait =>
      simp only [hwhere] at hstep
      cases wake with
      | taken =>
          by_cases hsig : 0 < state.sig
          · simpa only [State.wake, if_pos hsig] using hstep
          · simp [State.wakeUp, hsig] at hstep
      | timedOut =>
          by_cases hsig : 0 < state.sig
          · simp [State.wakeUp, Nat.ne_of_gt hsig] at hstep
          · simpa only [State.wake, if_neg hsig] using hstep
      | interrupted => exact absurd rfl hwake
  | _ =>
      simp only [hwhere] at hstep
      exact hstep

theorem stopping_runFrom {worker : ℕ} {schedule : List Action} {state final : State}
    (hsound : state.Sound size) (hstopping : state.Stopping worker)
    (hown : ∀ action ∈ schedule, ∃ wake, wake ≠ .interrupted ∧
      action = .advance worker wake none)
    (hrun : (machine size granularity).runFrom state schedule = some final) :
    final.Sound size ∧ final.Stopping worker ∧
      schedule.length + final.rank worker ≤ state.rank worker := by
  have hadmits : (machine size granularity).Admits (fun _ action => ∃ wake, wake ≠ .interrupted ∧
      action = .advance worker wake none) state schedule :=
    Machine.admits_of_forall (fun action hmem _ => hown action hmem) state
  have hlowers : ∀ (state : State) action next,
      state.Sound size ∧ state.Stopping worker →
        (∃ wake, wake ≠ .interrupted ∧ action = .advance worker wake none) →
          (machine size granularity).step state action = some next →
            (next.Sound size ∧ next.Stopping worker) ∧
              next.rank worker + 1 ≤ state.rank worker := by
    rintro state action next ⟨hsound, hstopping⟩ ⟨wake, hwake, rfl⟩ hstep
    have hrunning : state.place worker ≠ .ended := by
      intro hended
      simp [machine, State.step, State.advance, hended] at hstep
    obtain ⟨after, hafter, hnext, hlt⟩ :=
      @stopping_steps size granularity state worker hsound.matched hstopping hrunning
    have htaken : state.step size granularity (.advance worker wake none) = some next := hstep
    have hsame := (advance_wake hwake htaken).symm.trans hafter
    cases hsame
    exact ⟨⟨(hsound.step htaken).2, hnext⟩, hlt⟩
  have hall := hadmits.countP_add_rank_le
    (fun state => state.Sound size ∧ state.Stopping worker) (fun state => state.rank worker)
    (fun _ => true) hlowers hrun ⟨hsound, hstopping⟩
  rw [List.countP_true] at hall
  exact ⟨hall.1.1, hall.1.2, hall.2⟩

theorem rank_le {worker : ℕ} : state.rank worker ≤ 4 * state.base.pending.length + 6 := by
  have hpc : (state.base.callers worker).rank ≤ 3 := by
    cases state.base.callers worker <;> simp [LogWorker.Pc.rank]
  unfold State.rank
  split <;> omega

end Steps

/-! ## No message waits for a wake-up -/

/-- Thread 1 starts the worker, which is thread 2, and thread 0 logs a message. -/
def startedWorker : List Action :=
  [.runWorker 1, .advance 1 .taken none, .advance 1 .taken none, .advance 1 .taken none,
    .advance 1 .taken (some 2), .advance 1 .taken none, .advance 2 .taken none,
    .logFormat 0 7, .advance 0 .taken none, .advance 0 .taken none, .advance 0 .taken none,
    .advance 0 .taken none]

/-- Once `StopLogging` has posted `stop_` the worker ends by itself: until it has ended it can
go on, and it ends within a number of its own steps. -/
theorem stopped_ends {size granularity worker : ℕ} {state final : State}
    {schedule : List Action} (hreached : (machine size granularity).Reachable state)
    (hworking : (state.place worker).Working) (hstop : 0 < state.stop)
    (hown : ∀ action ∈ schedule, ∃ wake, wake ≠ .interrupted ∧
      action = .advance worker wake none)
    (hrun : (machine size granularity).runFrom state schedule = some final) :
    schedule.length ≤ 4 * state.base.pending.length + 6 ∧
      (final.place worker = .ended ∨ ∃ wake next, wake ≠ .interrupted ∧
        (machine size granularity).step final (.advance worker wake none) = some next) := by
  obtain ⟨hsound, hstopping, hlength⟩ := stopping_runFrom (sound_of_reachable hreached)
    (.inl ⟨hstop, hworking⟩) hown hrun
  have hbound := @rank_le state worker
  refine ⟨by omega, ?_⟩
  by_cases hended : final.place worker = .ended
  · exact .inl hended
  · obtain ⟨next, hstep, -⟩ :=
      @stopping_steps size granularity final worker hsound.matched hstopping hended
    refine .inr ⟨final.wake, next, ?_, hstep⟩
    unfold State.wake
    split_ifs
    · simp
    · simp

/-- Thread 1 tells the worker to stop while a message is on the queue. -/
def toldWorker : List Action :=
  startedWorker ++ [.stopLogging 1, .advance 1 .taken none, .advance 1 .taken none]

theorem stopped_ends_toldWorker :
    ∃ state final, (machine 2 256).run toldWorker = some state ∧
      (machine 2 256).runFrom state [.advance 2 .taken none] = some final ∧
      1 ≤ 4 * state.base.pending.length + 6 ∧
      (final.place 2 = .ended ∨ ∃ wake next, wake ≠ .interrupted ∧
        (machine 2 256).step final (.advance 2 wake none) = some next) := by
  have hreached : ∀ state, (machine 2 256).run toldWorker = some state →
      (machine 2 256).Reachable state :=
    fun _ hrun => Machine.Reachable.runFrom .start hrun
  refine ⟨_, _, rfl, rfl, ?_⟩
  refine @stopped_ends 2 256 2 _ _ [.advance 2 .taken none] (hreached _ rfl) trivial ?_ ?_ rfl
  · exact Nat.succ_pos _
  · intro action hmem
    exact ⟨.taken, by simp, List.mem_singleton.mp hmem⟩

end LogWorkerThread
end BackEndFacility
