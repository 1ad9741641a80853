import Mathlib.Logic.Function.Basic
import Mathlib.Tactic

/-!
# Machines driven by a scheduler

A machine is a start state together with a partial transition function.  The
action names everything the machine does not decide itself: which thread
moves, and what the environment answers.  An action which is not enabled has
no successor.

Runs are filtered by a condition on the state before each step.  The trivial
condition gives the reachable states; a stronger one gives the states reached
by the runs all of whose steps meet it.  Every invariant in this development
is derived from the single induction rule of this module.
-/

namespace BackEndFacility

universe u v

structure Machine (State : Type u) (Action : Type v) where
  start : State
  step : State → Action → Option State

namespace Machine

variable {State : Type u} {Action : Type v}

/-- The state after a schedule, if every scheduled action is enabled in turn. -/
def runFrom (machine : Machine State Action) :
    State → List Action → Option State
  | state, [] => some state
  | state, action :: rest =>
      match machine.step state action with
      | none => none
      | some next => machine.runFrom next rest

def run (machine : Machine State Action) (schedule : List Action) :
    Option State :=
  machine.runFrom machine.start schedule

theorem runFrom_append {machine : Machine State Action} {state middle final : State}
    {first second : List Action}
    (hfirst : machine.runFrom state first = some middle)
    (hsecond : machine.runFrom middle second = some final) :
    machine.runFrom state (first ++ second) = some final := by
  induction first generalizing state with
  | nil =>
      obtain rfl := Option.some.inj hfirst
      exact hsecond
  | cons action rest ih =>
      rw [List.cons_append]
      unfold runFrom at hfirst ⊢
      cases hstep : machine.step state action with
      | none => simp [hstep] at hfirst
      | some next =>
          simp only [hstep] at hfirst ⊢
          exact ih hfirst

/-- States reached by the runs all of whose steps meet the condition in the
state in which they are taken. -/
inductive ReachedBy (machine : Machine State Action)
    (condition : State → Action → Prop) : State → Prop
  | start : ReachedBy machine condition machine.start
  | step {state next : State} {action : Action} :
      ReachedBy machine condition state →
      condition state action →
      machine.step state action = some next →
      ReachedBy machine condition next

def Reachable (machine : Machine State Action) (state : State) : Prop :=
  machine.ReachedBy (fun _ _ => True) state

/-- A schedule all of whose steps are enabled and meet the condition. -/
def Admits (machine : Machine State Action)
    (condition : State → Action → Prop) : State → List Action → Prop
  | _, [] => True
  | state, action :: rest =>
      condition state action ∧
        ∀ next, machine.step state action = some next →
          machine.Admits condition next rest

instance decidableAdmits (machine : Machine State Action)
    (condition : State → Action → Prop)
    [∀ state action, Decidable (condition state action)] :
    ∀ state schedule, Decidable (machine.Admits condition state schedule)
  | _, [] => isTrue trivial
  | state, action :: rest =>
      match hstep : machine.step state action with
      | none =>
          decidable_of_iff (condition state action)
            (by simp [Admits, hstep])
      | some next =>
          letI := decidableAdmits machine condition next rest
          decidable_of_iff
            (condition state action ∧ machine.Admits condition next rest)
            (by simp [Admits, hstep])

theorem Admits.mono {machine : Machine State Action}
    {strong weak : State → Action → Prop}
    (hweaken : ∀ state action, strong state action → weak state action)
    {state : State} {schedule : List Action}
    (hadmits : machine.Admits strong state schedule) :
    machine.Admits weak state schedule := by
  induction schedule generalizing state with
  | nil => trivial
  | cons action rest ih =>
      exact ⟨hweaken state action hadmits.1,
        fun next hnext => ih (hadmits.2 next hnext)⟩

theorem ReachedBy.runFrom {machine : Machine State Action}
    {condition : State → Action → Prop} {state final : State}
    {schedule : List Action}
    (hstate : machine.ReachedBy condition state)
    (hadmits : machine.Admits condition state schedule)
    (hrun : machine.runFrom state schedule = some final) :
    machine.ReachedBy condition final := by
  induction schedule generalizing state with
  | nil =>
      simp only [Machine.runFrom, Option.some.injEq] at hrun
      subst final
      exact hstate
  | cons action rest ih =>
      obtain ⟨hcondition, hrest⟩ := hadmits
      cases hstep : machine.step state action with
      | none => simp [Machine.runFrom, hstep] at hrun
      | some next =>
          simp only [Machine.runFrom, hstep] at hrun
          exact ih (.step hstate hcondition hstep) (hrest next hstep) hrun

theorem admits_true (machine : Machine State Action)
    (state : State) (schedule : List Action) :
    machine.Admits (fun _ _ => True) state schedule := by
  induction schedule generalizing state with
  | nil => trivial
  | cons action rest ih => exact ⟨trivial, fun next _ => ih next⟩

/-- A condition that holds whatever the state is. -/
theorem admits_of_forall {machine : Machine State Action}
    {condition : State → Action → Prop} {schedule : List Action}
    (hschedule : ∀ action ∈ schedule, ∀ state, condition state action) (state : State) :
    machine.Admits condition state schedule := by
  induction schedule generalizing state with
  | nil => trivial
  | cons action rest ih =>
      exact ⟨hschedule action List.mem_cons_self state,
        fun next _ => ih (fun other hmem => hschedule other (.tail _ hmem)) next⟩

theorem Admits.and_forall {machine : Machine State Action}
    {condition : State → Action → Prop} {allowed : Action → Prop} {state : State}
    {schedule : List Action} (hadmits : machine.Admits condition state schedule)
    (hschedule : ∀ action ∈ schedule, allowed action) :
    machine.Admits (fun state action => condition state action ∧ allowed action) state
      schedule := by
  induction schedule generalizing state with
  | nil => trivial
  | cons action rest ih =>
      exact ⟨⟨hadmits.1, hschedule action List.mem_cons_self⟩,
        fun next hstep => ih (hadmits.2 next hstep)
          fun other hmem => hschedule other (.tail _ hmem)⟩

theorem Admits.forall_mem {machine : Machine State Action} {allowed : Action → Prop}
    {state final : State} {schedule : List Action}
    (hadmits : machine.Admits (fun _ action => allowed action) state schedule)
    (hrun : machine.runFrom state schedule = some final) :
    ∀ action ∈ schedule, allowed action := by
  induction schedule generalizing state with
  | nil => simp
  | cons action rest ih =>
      obtain ⟨hallowed, hrest⟩ := hadmits
      cases hstep : machine.step state action with
      | none => simp [Machine.runFrom, hstep] at hrun
      | some next =>
          simp only [Machine.runFrom, hstep] at hrun
          simp only [List.forall_mem_cons]
          exact ⟨hallowed, ih (hrest next hstep) hrun⟩

theorem Reachable.runFrom {machine : Machine State Action}
    {state final : State} {schedule : List Action}
    (hstate : machine.Reachable state)
    (hrun : machine.runFrom state schedule = some final) :
    machine.Reachable final :=
  ReachedBy.runFrom hstate (machine.admits_true state schedule) hrun

/-- The invariant rule: what holds at the start and is kept by every step
which meets the condition holds in every state so reached. -/
theorem ReachedBy.invariant {machine : Machine State Action}
    {condition : State → Action → Prop} (Invariant : State → Prop)
    (hstart : Invariant machine.start)
    (hstep : ∀ state action next,
      Invariant state → condition state action →
        machine.step state action = some next → Invariant next)
    {state : State} (hreached : machine.ReachedBy condition state) :
    Invariant state := by
  induction hreached with
  | start => exact hstart
  | step _ hcondition htaken ih => exact hstep _ _ _ ih hcondition htaken

/-- The invariant rule for the rest of a run. -/
theorem Admits.invariant {machine : Machine State Action}
    {condition : State → Action → Prop} (Invariant : State → Prop)
    (hstep : ∀ state action next,
      Invariant state → condition state action →
        machine.step state action = some next → Invariant next)
    {state final : State} {schedule : List Action}
    (hadmits : machine.Admits condition state schedule)
    (hrun : machine.runFrom state schedule = some final)
    (hstate : Invariant state) : Invariant final := by
  induction schedule generalizing state with
  | nil =>
      simp only [Machine.runFrom, Option.some.injEq] at hrun
      subst final
      exact hstate
  | cons action rest ih =>
      obtain ⟨hcondition, hrest⟩ := hadmits
      cases htaken : machine.step state action with
      | none => simp [Machine.runFrom, htaken] at hrun
      | some next =>
          simp only [Machine.runFrom, htaken] at hrun
          exact ih (hrest next htaken) hrun (hstep _ _ _ hstate hcondition htaken)

/-- The ranking rule: when no step raises the rank and each step of one kind lowers
it, the rank bounds the number of these steps. -/
theorem Admits.countP_add_rank_le {machine : Machine State Action}
    {condition : State → Action → Prop} (Invariant : State → Prop) (rank : State → ℕ)
    (counted : Action → Bool)
    (hstep : ∀ state action next,
      Invariant state → condition state action →
        machine.step state action = some next →
          Invariant next ∧ rank next + (if counted action then 1 else 0) ≤ rank state)
    {state final : State} {schedule : List Action}
    (hadmits : machine.Admits condition state schedule)
    (hrun : machine.runFrom state schedule = some final)
    (hstate : Invariant state) :
    Invariant final ∧ schedule.countP counted + rank final ≤ rank state := by
  induction schedule generalizing state with
  | nil =>
      simp only [Machine.runFrom, Option.some.injEq] at hrun
      subst final
      exact ⟨hstate, by simp⟩
  | cons action rest ih =>
      obtain ⟨hcondition, hrest⟩ := hadmits
      cases htaken : machine.step state action with
      | none => simp [Machine.runFrom, htaken] at hrun
      | some next =>
          simp only [Machine.runFrom, htaken] at hrun
          obtain ⟨hnext, hlower⟩ := hstep _ _ _ hstate hcondition htaken
          obtain ⟨hfinal, hbound⟩ := ih (hrest next htaken) hrun hnext
          refine ⟨hfinal, ?_⟩
          rw [List.countP_cons]
          omega

theorem Admits.append {machine : Machine State Action}
    {condition : State → Action → Prop} {state middle : State}
    {first second : List Action} (hfirst : machine.Admits condition state first)
    (hrun : machine.runFrom state first = some middle)
    (hsecond : machine.Admits condition middle second) :
    machine.Admits condition state (first ++ second) := by
  induction first generalizing state with
  | nil =>
      obtain rfl := Option.some.inj hrun
      exact hsecond
  | cons action rest ih =>
      obtain ⟨hcondition, hrest⟩ := hfirst
      refine ⟨hcondition, fun next hstep => ih (hrest next hstep) ?_⟩
      simpa only [Machine.runFrom, hstep] using hrun

/-- The progress rule: when a schedule leads from every state outside the goal to one
of smaller rank, some schedule leads to the goal, and the rank bounds its length. -/
theorem exists_runFrom {machine : Machine State Action}
    {condition : State → Action → Prop} (Invariant Goal : State → Prop) (rank : State → ℕ)
    (hprogress : ∀ state, Invariant state → ¬ Goal state →
      ∃ schedule next, machine.Admits condition state schedule ∧
        machine.runFrom state schedule = some next ∧ Invariant next ∧
          rank next < rank state ∧ schedule.length + rank next ≤ rank state)
    {state : State} (hstate : Invariant state) :
    ∃ schedule final, machine.Admits condition state schedule ∧
      machine.runFrom state schedule = some final ∧ Invariant final ∧ Goal final ∧
        schedule.length ≤ rank state := by
  generalize hbound : rank state = bound
  induction bound using Nat.strong_induction_on generalizing state with
  | _ bound ih =>
      by_cases hgoal : Goal state
      · exact ⟨[], state, trivial, rfl, hstate, hgoal, Nat.zero_le _⟩
      · obtain ⟨first, next, hfirst, hrun, hnext, hlower, hlength⟩ :=
          hprogress state hstate hgoal
        obtain ⟨second, final, hsecond, hlast, hfinal, hreached, hrest⟩ :=
          ih (rank next) (by omega) hnext rfl
        refine ⟨first ++ second, final, hfirst.append hrun hsecond,
          runFrom_append hrun hlast, hfinal, hreached, ?_⟩
        rw [List.length_append]
        omega

theorem ReachedBy.mono {machine : Machine State Action}
    {strong weak : State → Action → Prop}
    (hweaken : ∀ state action, strong state action → weak state action)
    {state : State} (hreached : machine.ReachedBy strong state) :
    machine.ReachedBy weak state := by
  induction hreached with
  | start => exact .start
  | step _ hcondition htaken ih =>
      exact .step ih (hweaken _ _ hcondition) htaken

end Machine

end BackEndFacility
