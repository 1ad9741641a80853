import BackEndFacility.Machine

/-!
# Projections of runs

Each step of a machine may be seen as some steps, or none, of another one.  If a view of
the states goes along with that, every run of the first machine is seen as a run of the
second, from view to view.
-/

namespace BackEndFacility

universe u v w x

namespace Machine

variable {State : Type u} {Action : Type v} {Seen : Type w} {Part : Type x}

/-- What is seen of a run, given what is seen of each of its steps. -/
def trace (machine : Machine State Action) (observe : State → Action → List Part) :
    State → List Action → List Part
  | _, [] => []
  | state, action :: rest =>
      match machine.step state action with
      | none => []
      | some next => observe state action ++ machine.trace observe next rest

/-- The projection rule, for the states in which an invariant holds. -/
theorem trace_runFrom {machine : Machine State Action} {target : Machine Seen Part}
    {observe : State → Action → List Part} (view : State → Seen) (Invariant : State → Prop)
    (condition : State → Action → Prop)
    (hstep : ∀ state action next, Invariant state → condition state action →
      machine.step state action = some next →
        Invariant next ∧
          target.runFrom (view state) (observe state action) = some (view next))
    {state final : State} {schedule : List Action} (hstate : Invariant state)
    (hadmits : machine.Admits condition state schedule)
    (hrun : machine.runFrom state schedule = some final) :
    target.runFrom (view state) (machine.trace observe state schedule) = some (view final) := by
  induction schedule generalizing state with
  | nil =>
      obtain rfl := Option.some.inj hrun
      rfl
  | cons action rest ih =>
      obtain ⟨hcondition, hrest⟩ := hadmits
      cases hnext : machine.step state action with
      | none => simp [runFrom, hnext] at hrun
      | some next =>
          simp only [runFrom, hnext] at hrun
          obtain ⟨hinvariant, hseen⟩ := hstep _ _ _ hstate hcondition hnext
          simp only [trace, hnext]
          exact runFrom_append hseen (ih hinvariant (hrest next hnext) hrun)

end Machine

end BackEndFacility
