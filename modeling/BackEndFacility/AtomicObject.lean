import BackEndFacility.Machine

/-!
# Atomic objects and linearization points

A sequential object is a start value and an operation that answers one call
at a time.  The atomic object built from it serves any number of threads: a
thread invokes a call, at some later moment the call takes effect in one step,
and after that the thread gets the answer.

A concurrent machine implements the object at given linearization points if
its runs, read as invocations, points and responses, are runs of the atomic
object.  The rule of this module derives that from a simulation.
-/

namespace BackEndFacility

universe u v w

structure SequentialObject (Object : Type u) (Call : Type v)
    (Result : Type w) where
  initial : Object
  apply : Object → Call → Object × Result

namespace SequentialObject

variable {Object : Type u} {Call : Type v} {Result : Type w}

/-- What one thread is doing with the object. -/
inductive Phase (Call : Type v) (Result : Type w) where
  | idle
  | called (call : Call)
  | applied (result : Result)

inductive Event (Call : Type v) (Result : Type w) where
  | invoke (thread : ℕ) (call : Call)
  | commit (thread : ℕ)
  | respond (thread : ℕ) (result : Result)

structure Config (Object : Type u) (Call : Type v) (Result : Type w) where
  object : Object
  phases : ℕ → Phase Call Result

def start (spec : SequentialObject Object Call Result) :
    Config Object Call Result :=
  ⟨spec.initial, fun _ => .idle⟩

/-- One step of the atomic object: a call takes effect exactly once, between
its invocation and its response, and the response is the answer it got. -/
inductive Step (spec : SequentialObject Object Call Result) :
    Config Object Call Result → Event Call Result →
      Config Object Call Result → Prop
  | invoke {config : Config Object Call Result} {thread : ℕ} (call : Call) :
      config.phases thread = .idle →
      Step spec config (.invoke thread call)
        ⟨config.object,
          Function.update config.phases thread (.called call)⟩
  | commit {config : Config Object Call Result} {thread : ℕ} {call : Call} :
      config.phases thread = .called call →
      Step spec config (.commit thread)
        ⟨(spec.apply config.object call).1,
          Function.update config.phases thread
            (.applied (spec.apply config.object call).2)⟩
  | respond {config : Config Object Call Result} {thread : ℕ}
      {result : Result} :
      config.phases thread = .applied result →
      Step spec config (.respond thread result)
        ⟨config.object, Function.update config.phases thread .idle⟩

def Steps (spec : SequentialObject Object Call Result) :
    Config Object Call Result → List (Event Call Result) →
      Config Object Call Result → Prop
  | config, [], final => final = config
  | config, event :: rest, final =>
      ∃ middle, spec.Step config event middle ∧ spec.Steps middle rest final

theorem Steps.append {spec : SequentialObject Object Call Result}
    {config middle final : Config Object Call Result}
    {first second : List (Event Call Result)}
    (hfirst : spec.Steps config first middle)
    (hsecond : spec.Steps middle second final) :
    spec.Steps config (first ++ second) final := by
  induction first generalizing config with
  | nil =>
      cases hfirst
      exact hsecond
  | cons event rest ih =>
      obtain ⟨next, hstep, hrest⟩ := hfirst
      exact ⟨next, hstep, ih hrest⟩

theorem Step.steps {spec : SequentialObject Object Call Result}
    {config final : Config Object Call Result} {event : Event Call Result}
    (hstep : spec.Step config event final) :
    spec.Steps config [event] final :=
  ⟨final, hstep, rfl⟩

end SequentialObject

namespace Machine

variable {State : Type*} {Action : Type*} {Object : Type u} {Call : Type v}
  {Result : Type w}

open SequentialObject

/-- The events of a run, given those of each of its steps. -/
def history (machine : Machine State Action)
    (observe : State → Action → List (Event Call Result)) :
    State → List Action → List (Event Call Result)
  | _, [] => []
  | state, action :: rest =>
      match machine.step state action with
      | none => []
      | some next =>
          observe state action ++ machine.history observe next rest

/-- The simulation rule: a relation that holds at the start, and that every
step that meets the condition carries over its own events, turns each run of such
steps into one of the atomic object. -/
theorem history_steps_of_admits {machine : Machine State Action}
    {observe : State → Action → List (Event Call Result)}
    {spec : SequentialObject Object Call Result}
    (Relation : State → Config Object Call Result → Prop)
    (condition : State → Action → Prop)
    (hstep : ∀ state action next config,
      Relation state config → condition state action → machine.step state action = some next →
        ∃ after, spec.Steps config (observe state action) after ∧
          Relation next after)
    {state final : State} {config : Config Object Call Result}
    {schedule : List Action} (hrelated : Relation state config)
    (hadmits : machine.Admits condition state schedule)
    (hrun : machine.runFrom state schedule = some final) :
    ∃ after, spec.Steps config (machine.history observe state schedule)
      after ∧ Relation final after := by
  induction schedule generalizing state config with
  | nil =>
      simp only [Machine.runFrom, Option.some.injEq] at hrun
      subst final
      exact ⟨config, rfl, hrelated⟩
  | cons action rest ih =>
      obtain ⟨hcondition, hlater⟩ := hadmits
      cases htaken : machine.step state action with
      | none => simp [Machine.runFrom, htaken] at hrun
      | some next =>
          simp only [Machine.runFrom, htaken] at hrun
          obtain ⟨middle, hfirst, hmiddle⟩ :=
            hstep state action next config hrelated hcondition htaken
          obtain ⟨after, hrest, hafter⟩ := ih hmiddle (hlater next htaken) hrun
          refine ⟨after, ?_, hafter⟩
          simp only [history, htaken]
          exact hfirst.append hrest

/-- The simulation rule for all runs. -/
theorem history_steps {machine : Machine State Action}
    {observe : State → Action → List (Event Call Result)}
    {spec : SequentialObject Object Call Result}
    (Relation : State → Config Object Call Result → Prop)
    (hstep : ∀ state action next config,
      Relation state config → machine.step state action = some next →
        ∃ after, spec.Steps config (observe state action) after ∧
          Relation next after)
    {state final : State} {config : Config Object Call Result}
    {schedule : List Action} (hrelated : Relation state config)
    (hrun : machine.runFrom state schedule = some final) :
    ∃ after, spec.Steps config (machine.history observe state schedule)
      after ∧ Relation final after :=
  history_steps_of_admits Relation (fun _ _ => True)
    (fun state action next config hrelated _ => hstep state action next config hrelated)
    hrelated (machine.admits_true state schedule) hrun

end Machine

/-! ## The calls of each thread -/

namespace SequentialObject

variable {Object : Type u} {Call : Type v} {Result : Type w}

/-- The call that has not taken effect. -/
def Phase.waiting : Phase Call Result → List Call
  | .idle => []
  | .called call => [call]
  | .applied _ => []

/-- What each thread has called so far. -/
def Event.note (event : Event Call Result) (invoked : ℕ → List Call) : ℕ → List Call :=
  match event with
  | .invoke thread call => Function.update invoked thread (invoked thread ++ [call])
  | _ => invoked

/-- The object is what some order of the calls has made of it, in which the calls of each
thread come in the order in which it made them; at most its last one is still to come. -/
structure Ordered (spec : SequentialObject Object Call Result)
    (config : Config Object Call Result) (commits : List (ℕ × Call))
    (invoked : ℕ → List Call) : Prop where
  object : config.object =
    commits.foldl (fun object commit => (spec.apply object commit.2).1) spec.initial
  order : ∀ thread, (commits.filter fun commit => commit.1 = thread).map Prod.snd ++
    (config.phases thread).waiting = invoked thread

theorem ordered_start (spec : SequentialObject Object Call Result) :
    spec.Ordered spec.start [] fun _ => [] :=
  ⟨rfl, fun _ => rfl⟩

namespace Ordered

variable {spec : SequentialObject Object Call Result} {config after : Config Object Call Result}
  {commits : List (ℕ × Call)} {invoked : ℕ → List Call}

theorem step {event : Event Call Result} (hordered : spec.Ordered config commits invoked)
    (hstep : spec.Step config event after) :
    ∃ later, spec.Ordered after later (event.note invoked) := by
  obtain ⟨hobject, horder⟩ := hordered
  cases hstep with
  | invoke call hidle =>
      rename_i thread
      refine ⟨commits, hobject, fun other => ?_⟩
      have hbefore := horder other
      by_cases heq : other = thread
      · subst heq
        simp only [Event.note, Function.update_self, Phase.waiting]
        rw [hidle, Phase.waiting, List.append_nil] at hbefore
        rw [hbefore]
      · simp only [Event.note, Function.update_of_ne heq]
        exact hbefore
  | commit hcalled =>
      rename_i thread call
      refine ⟨commits ++ [(thread, call)], ?_, fun other => ?_⟩
      · rw [List.foldl_append, ← hobject]
        rfl
      · have hbefore := horder other
        rw [List.filter_append, List.map_append, List.append_assoc]
        by_cases heq : other = thread
        · subst heq
          rw [hcalled] at hbefore
          simpa [Event.note, Phase.waiting] using hbefore
        · simpa [Event.note, heq, Ne.symm heq] using hbefore
  | respond happlied =>
      rename_i thread result
      refine ⟨commits, hobject, fun other => ?_⟩
      have hbefore := horder other
      by_cases heq : other = thread
      · subst heq
        rw [happlied] at hbefore
        simpa [Event.note, Phase.waiting] using hbefore
      · simpa [Event.note, heq] using hbefore

theorem steps {events : List (Event Call Result)} (hordered : spec.Ordered config commits invoked)
    (hsteps : spec.Steps config events after) :
    ∃ later, spec.Ordered after later
      (events.foldl (fun invoked event => event.note invoked) invoked) := by
  induction events generalizing config commits invoked with
  | nil =>
      obtain rfl := hsteps
      exact ⟨commits, hordered⟩
  | cons event rest ih =>
      obtain ⟨middle, hstep, hrest⟩ := hsteps
      obtain ⟨later, hlater⟩ := hordered.step hstep
      exact ih hlater hrest

end Ordered

end SequentialObject

/-! ## One call after another -/

namespace SequentialObject

variable {State : Type*} {Object : Type u} {Call : Type v} {Result : Type w}

def applyAll (spec : SequentialObject Object Call Result) :
    Object → List Call → Object × List Result
  | object, [] => (object, [])
  | object, call :: rest =>
      let (next, result) := spec.apply object call
      let (final, results) := spec.applyAll next rest
      (final, result :: results)

/-- The calls of one caller who waits for each of them to return. -/
def performAll (perform : State → Call → Option (State × Result)) :
    State → List Call → Option (State × List Result)
  | state, [] => some (state, [])
  | state, call :: rest =>
      match perform state call with
      | none => none
      | some (next, result) =>
          match performAll perform next rest with
          | none => none
          | some (final, results) => some (final, result :: results)

/-- An implementation that answers every single call as the object does, and stays
related to it, does so over every sequence of calls. -/
theorem performAll_refines
    {spec : SequentialObject Object Call Result}
    {perform : State → Call → Option (State × Result)}
    (Relation : State → Object → Prop)
    (hcall : ∀ state object call, Relation state object →
      ∃ next, perform state call = some (next, (spec.apply object call).2) ∧
        Relation next (spec.apply object call).1)
    {state : State} {object : Object} (hrelated : Relation state object)
    (calls : List Call) :
    ∃ final, performAll perform state calls = some (final, (spec.applyAll object calls).2) ∧
      Relation final (spec.applyAll object calls).1 := by
  induction calls generalizing state object with
  | nil => exact ⟨state, rfl, hrelated⟩
  | cons call rest ih =>
      obtain ⟨next, hperform, hnext⟩ := hcall state object call hrelated
      obtain ⟨final, hrest, hfinal⟩ := ih hnext
      refine ⟨final, ?_, hfinal⟩
      simp only [performAll, hperform, hrest]
      rfl

end SequentialObject

/-- One caller is advanced until a step of it returns; `response` holds what the next
step returns, if it returns. -/
def runCall {State : Type u} {Result : Type w} (advance : State → Option State)
    (response : State → Option Result) : ℕ → State → Option (State × Result)
  | 0, _ => none
  | fuel + 1, state =>
      match advance state with
      | none => none
      | some next =>
          match response state with
          | some result => some (next, result)
          | none => runCall advance response fuel next

/-- A caller that is back where its call began. -/
theorem update_returned {Pc : Type v} {callers : ℕ → Pc} {thread : ℕ} {pc : Pc}
    (hbegan : callers thread = pc) : Function.update callers thread pc = callers := by
  rw [← hbegan, Function.update_eq_self]

end BackEndFacility
