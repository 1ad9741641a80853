import BackEndFacility.LockedObject
import BackEndFacility.ThreadPoolPriority

/-!
# The queues of `misc/SpinlockQueue.h`

`SpinlockQueue` puts a bounded container behind a spin lock.  The container is a
parameter, as in the source: the dispatcher has a priority queue there, and a worker's
mailbox a `DequeQueue`, which `SpinlockWeakPriorityQueue` can also fill from the front.

Taking the lock, each call of the container, giving the lock back and returning are
steps of their own, and any number of threads make calls.  An allocation that fails in a
`push` throws, nobody catches it, and the process ends.
-/

namespace BackEndFacility
namespace SpinlockQueue

universe u v

/-! ## The container -/

/-- What the queue calls of its container.  `push` has a parameter for the end at which
the value goes in. -/
structure Container (Queue : Type u) (End Value : Type v) where
  initial : Queue
  front : Queue → Option Value
  pop : Queue → Queue
  push : End → Queue → Value → Queue
  empty : Queue → Bool
  size : Queue → ℕ
  clear : Queue → Queue
  front_isSome : ∀ queue, empty queue = false → (front queue).isSome = true

inductive DequeEnd where
  | back
  | front

/-- `DequeQueue` -/
def dequeQueue (Value : Type) : Container (List Value) DequeEnd Value where
  initial := []
  front := List.head?
  pop := List.tail
  push := fun side queue x =>
    match side with
    | .back => queue ++ [x]
    | .front => x :: queue
  empty := List.isEmpty
  size := List.length
  clear := fun _ => []
  front_isSome := by
    intro queue hsome
    cases queue with
    | nil => cases hsome
    | cons value rest => rfl

/-- `PriorityQueue`, over `std::priority_queue`. -/
def priorityQueue {Value : Type} (cmp : Value → Value → Bool) :
    Container (Array Value) Unit Value where
  initial := #[]
  front := fun queue => queue[0]?
  pop := BinaryHeap.pop cmp
  push := fun _ queue x => BinaryHeap.push cmp queue x
  empty := Array.isEmpty
  size := Array.size
  clear := fun _ => #[]
  front_isSome := by
    intro queue hsome
    rw [Array.isEmpty_eq_false_iff, Ne, ← Array.size_eq_zero_iff] at hsome
    rw [Array.getElem?_eq_getElem (Nat.pos_of_ne_zero hsome)]
    rfl

/-! ## The calls -/

variable {Queue : Type u} {End Value : Type v}

/-- `PushBack` and `PushFront` are `push` at one of the ends. -/
inductive Call (End Value : Type v) where
  | popFront
  | push (side : End) (val : Value)
  | clear
  | size
  | isEmpty

inductive Result (Value : Type v) where
  | popped (ret : Option Value)
  | pushed (ret : Bool)
  | cleared
  | counted (count : ℤ)
  | tested (ret : Bool)

inductive Place (End Value : Type v) where
  | popEmpty
  | popTop
  | popPop (val : Value)
  | pushSize (side : End) (val : Value)
  | pushPush (side : End) (val : Value)
  | clear
  | size
  | empty

/-- `int count = queue_.size()` -/
def toInt (size : ℕ) : ℤ := (size : ℤ).bmod (2 ^ 32)

/-- The code between `pthread_spin_lock` and `pthread_spin_unlock`. -/
def code (container : Container Queue End Value) (maxSz : ℕ) :
    CriticalSection Queue (Call End Value) (Place End Value) Unit (Result Value) where
  enter := fun call =>
    match call with
    | .popFront => .popEmpty
    | .push side val => .pushSize side val
    | .clear => .clear
    | .size => .size
    | .isEmpty => .empty
  access := fun queue place _ =>
    match place with
    | .popEmpty =>
        if container.empty queue then some (queue, .inr (.popped none))
        else some (queue, .inl .popTop)
    | .popTop =>
        match container.front queue with
        | none => none
        | some val => some (queue, .inl (.popPop val))
    | .popPop val => some (container.pop queue, .inr (.popped (some val)))
    | .pushSize side val =>
        if maxSz ≤ container.size queue then some (queue, .inr (.pushed false))
        else some (queue, .inl (.pushPush side val))
    | .pushPush side val => some (container.push side queue val, .inr (.pushed true))
    | .clear => some (container.clear queue, .inr .cleared)
    | .size => some (queue, .inr (.counted (toInt (container.size queue))))
    | .empty => some (queue, .inr (.tested (container.empty queue)))

def machine (container : Container Queue End Value) (maxSz : ℕ) :=
  CriticalSection.machine (code container maxSz) container.initial

/-! ## The queue it implements -/

/-- A queue of at most `maxSz` values, one call at a time. -/
def boundedQueue (container : Container Queue End Value) (maxSz : ℕ) :
    SequentialObject Queue (Call End Value) (Result Value) where
  initial := container.initial
  apply := fun queue call =>
    match call with
    | .popFront =>
        if container.empty queue then (queue, .popped none)
        else (container.pop queue, .popped (container.front queue))
    | .push side val =>
        if maxSz ≤ container.size queue then (queue, .pushed false)
        else (container.push side queue val, .pushed true)
    | .clear => (container.clear queue, .cleared)
    | .size => (queue, .counted (toInt (container.size queue)))
    | .isEmpty => (queue, .tested (container.empty queue))

def outcome (container : Container Queue End Value) (maxSz : ℕ) (queue : Queue) :
    Place End Value → Queue × Result Value
  | .popEmpty => (boundedQueue container maxSz).apply queue .popFront
  | .popTop => (container.pop queue, .popped (container.front queue))
  | .popPop val => (container.pop queue, .popped (some val))
  | .pushSize side val => (boundedQueue container maxSz).apply queue (.push side val)
  | .pushPush side val => (container.push side queue val, .pushed true)
  | .clear => (boundedQueue container maxSz).apply queue .clear
  | .size => (boundedQueue container maxSz).apply queue .size
  | .empty => (boundedQueue container maxSz).apply queue .isEmpty

section Code

variable {container : Container Queue End Value} {maxSz : ℕ}

theorem outcome_move {queue next : Queue} {place after : Place End Value}
    (haccess : (code container maxSz).access queue place () = some (next, .inl after)) :
    outcome container maxSz next after = outcome container maxSz queue place := by
  cases place with
  | popEmpty =>
      simp only [code] at haccess
      split at haccess
      next hempty => cases haccess
      next hsome =>
        cases haccess
        simp only [outcome, boundedQueue, if_neg hsome]
  | popTop =>
      simp only [code] at haccess
      split at haccess
      next hnone => cases haccess
      next val hfront =>
        cases haccess
        simp only [outcome, hfront]
  | pushSize side val =>
      simp only [code] at haccess
      split at haccess
      next hfull => cases haccess
      next hroom =>
        cases haccess
        simp only [outcome, boundedQueue, if_neg hroom]
  | popPop val => cases haccess
  | pushPush side val => cases haccess
  | clear => cases haccess
  | size => cases haccess
  | empty => cases haccess

theorem outcome_last {queue final : Queue} {place : Place End Value} {result : Result Value}
    (haccess : (code container maxSz).access queue place () = some (final, .inr result)) :
    outcome container maxSz queue place = (final, result) := by
  cases place with
  | popEmpty =>
      simp only [code] at haccess
      split at haccess
      next hempty =>
        cases haccess
        simp only [outcome, boundedQueue, if_pos hempty]
      next hsome => cases haccess
  | popTop =>
      simp only [code] at haccess
      split at haccess
      next hnone => cases haccess
      next val hfront => cases haccess
  | pushSize side val =>
      simp only [code] at haccess
      split at haccess
      next hfull =>
        cases haccess
        simp only [outcome, boundedQueue, if_pos hfull]
      next hroom => cases haccess
  | popPop val =>
      cases haccess
      rfl
  | pushPush side val =>
      cases haccess
      rfl
  | clear =>
      cases haccess
      rfl
  | size =>
      cases haccess
      rfl
  | empty =>
      cases haccess
      rfl

theorem access_popPop {queue next : Queue} {place : Place End Value} {val : Value}
    (haccess : (code container maxSz).access queue place () = some (next, .inl (.popPop val))) :
    next = queue ∧ container.front queue = some val := by
  cases place with
  | popTop =>
      simp only [code] at haccess
      split at haccess
      next hnone => cases haccess
      next front hfront =>
        cases haccess
        exact ⟨rfl, hfront⟩
  | popEmpty =>
      simp only [code] at haccess
      split at haccess <;> cases haccess
  | pushSize side val =>
      simp only [code] at haccess
      split at haccess <;> cases haccess
  | popPop val => cases haccess
  | pushPush side val => cases haccess
  | clear => cases haccess
  | size => cases haccess
  | empty => cases haccess

theorem access_popped {queue next : Queue} {place : Place End Value} {val : Value}
    (haccess : (code container maxSz).access queue place () =
      some (next, .inr (.popped (some val)))) :
    place = .popPop val ∧ next = container.pop queue := by
  cases place with
  | popPop taken =>
      cases haccess
      exact ⟨rfl, rfl⟩
  | popEmpty =>
      simp only [code] at haccess
      split at haccess <;> cases haccess
  | popTop =>
      simp only [code] at haccess
      split at haccess <;> cases haccess
  | pushSize side val =>
      simp only [code] at haccess
      split at haccess <;> cases haccess
  | pushPush side val => cases haccess
  | clear => cases haccess
  | size => cases haccess
  | empty => cases haccess

theorem access_popTop {queue next : Queue} {place : Place End Value}
    (haccess : (code container maxSz).access queue place () = some (next, .inl .popTop)) :
    container.empty next = false := by
  cases place with
  | popEmpty =>
      simp only [code] at haccess
      split at haccess
      next hempty => cases haccess
      next hsome =>
        cases haccess
        exact Bool.eq_false_iff.mpr hsome
  | popTop =>
      simp only [code] at haccess
      split at haccess <;> cases haccess
  | pushSize side val =>
      simp only [code] at haccess
      split at haccess <;> cases haccess
  | popPop val => cases haccess
  | pushPush side val => cases haccess
  | clear => cases haccess
  | size => cases haccess
  | empty => cases haccess

theorem popTop_finishes {queue : Queue} (hsome : container.empty queue = false) :
    (code container maxSz).Finishes (fun _ => True) queue .popTop := by
  obtain ⟨val, hfront⟩ := Option.isSome_iff_exists.mp (container.front_isSome queue hsome)
  have htop : (code container maxSz).access queue .popTop () =
      some (queue, .inl (.popPop val)) := by
    simp only [code, hfront]
  exact .more () trivial htop (.last () trivial rfl)

theorem implements_boundedQueue (container : Container Queue End Value) (maxSz : ℕ) :
    (code container maxSz).Implements (fun _ => True) (boundedQueue container maxSz) Eq := by
  refine CriticalSection.implements_of_outcome (outcome container maxSz)
    (fun _ _ _ _ _ => outcome_move) (fun _ _ _ _ _ => outcome_last) ?_
  intro queue call
  cases call with
  | popFront => rfl
  | push side val => rfl
  | clear => rfl
  | size => rfl
  | isEmpty => rfl

theorem canFinish (container : Container Queue End Value) (maxSz : ℕ) :
    (code container maxSz).CanFinish (fun _ => True) (fun _ => True)
      (Eq : Queue → Queue → Prop) := by
  intro object held call queue place _ hruns
  cases place with
  | popPop val => exact .last () trivial rfl
  | pushPush side val => exact .last () trivial rfl
  | clear => exact .last () trivial rfl
  | size => exact .last () trivial rfl
  | empty => exact .last () trivial rfl
  | pushSize side val =>
      by_cases hfull : maxSz ≤ container.size queue
      · have htest : (code container maxSz).access queue (.pushSize side val) () =
            some (queue, .inr (.pushed false)) := if_pos hfull
        exact .last () trivial htest
      · have htest : (code container maxSz).access queue (.pushSize side val) () =
            some (queue, .inl (.pushPush side val)) := if_neg hfull
        exact .more () trivial htest (.last () trivial rfl)
  | popEmpty =>
      by_cases hempty : container.empty queue = true
      · have htest : (code container maxSz).access queue .popEmpty () =
            some (queue, .inr (.popped none)) := if_pos hempty
        exact .last () trivial htest
      · have htest : (code container maxSz).access queue .popEmpty () =
            some (queue, .inl .popTop) := if_neg hempty
        exact .more () trivial htest (popTop_finishes (Bool.eq_false_iff.mpr hempty))
  | popTop =>
      rcases Relation.ReflTransGen.cases_tail hruns with heq | ⟨before, -, _, -, hmove⟩
      · have hplace := congrArg Prod.snd heq
        cases call <;> cases hplace
      · exact popTop_finishes (access_popTop hmove)

end Code

/-! ## Every run -/

theorem answers_true
    (state : CriticalSection.State Queue (Call End Value) (Place End Value) (Result Value))
    (action : CriticalSection.Action (Call End Value) Unit) :
    CriticalSection.Answers (fun _ => True) state action := by
  cases action with
  | invoke thread call => trivial
  | advance thread answer => trivial

/-- Whatever the container and however many threads there are: the lock excludes them
from one another, every run is one of the bounded queue that takes one call at a time,
and between the calls the container is as that queue is. -/
theorem linearizable_boundedQueue (container : Container Queue End Value) (maxSz : ℕ)
    (schedule : List (CriticalSection.Action (Call End Value) Unit))
    (final : CriticalSection.State Queue (Call End Value) (Place End Value) (Result Value))
    (hrun : (machine container maxSz).run schedule = some final) :
    final.Exclusive ∧
      ∃ config, (boundedQueue container maxSz).Steps (boundedQueue container maxSz).start
          ((machine container maxSz).history (code container maxSz).observe
            (machine container maxSz).start schedule) config ∧
        ((∀ thread, ¬ (final.callers thread).Inside) → final.object = config.object) := by
  obtain ⟨config, hsteps, hsim⟩ :=
    CriticalSection.linearizable (implements_boundedQueue container maxSz) rfl
      ((Machine.admits_true _ _ schedule).mono fun state action _ => answers_true state action)
      hrun
  exact ⟨hsim.exclusive, config, hsteps, hsim.object⟩

def pushWhilePopping : List (CriticalSection.Action (Call DequeEnd ℕ) Unit) :=
  [.invoke 0 (.push .front 7), .advance 0 (), .invoke 1 .popFront, .advance 1 (), .advance 0 (),
    .advance 0 (), .advance 1 (), .advance 0 (), .advance 1 (), .advance 1 (), .advance 1 (),
    .advance 1 (), .advance 0 (), .advance 1 (), .advance 1 ()]

theorem linearizable_pushWhilePopping :
    ∃ final, (machine (dequeQueue ℕ) 1).run pushWhilePopping = some final ∧
      (machine (dequeQueue ℕ) 1).history (code (dequeQueue ℕ) 1).observe
          (machine (dequeQueue ℕ) 1).start pushWhilePopping =
        [.invoke 0 (.push .front 7), .invoke 1 .popFront, .commit 0, .commit 1,
          .respond 0 (.pushed true), .respond 1 (.popped (some 7))] ∧
      final.Exclusive := by
  refine ⟨_, rfl, rfl, ?_⟩
  exact (linearizable_boundedQueue (dequeQueue ℕ) 1 pushWhilePopping _ rfl).1

/-- No call is ever stuck: from every state that is reached it can return while no new
call begins. -/
theorem calls_return (container : Container Queue End Value) (maxSz : ℕ)
    (state : CriticalSection.State Queue (Call End Value) (Place End Value) (Result Value))
    (hreachable : (machine container maxSz).Reachable state) (thread : ℕ) :
    ∃ schedule final, CriticalSection.OnlyAdvances (fun _ => True) schedule ∧
      (machine container maxSz).runFrom state schedule = some final ∧
      final.callers thread = .idle :=
  CriticalSection.returns (implements_boundedQueue container maxSz) rfl
    (canFinish container maxSz) (fun _ => id) () trivial
    (hreachable.mono fun state action _ => answers_true state action) thread

def popWhileTaken : List (CriticalSection.Action (Call DequeEnd ℕ) Unit) :=
  [.invoke 0 (.push .front 7), .advance 0 (), .invoke 1 .popFront]

theorem calls_return_popWhileTaken :
    ∃ state, (machine (dequeQueue ℕ) 1).run popWhileTaken = some state ∧
      state.lock = true ∧
      ∃ schedule final, CriticalSection.OnlyAdvances (fun _ => True) schedule ∧
        (machine (dequeQueue ℕ) 1).runFrom state schedule = some final ∧
        final.callers 1 = .idle := by
  refine ⟨_, rfl, rfl, ?_⟩
  have hrun : (machine (dequeQueue ℕ) 1).run popWhileTaken = some _ := rfl
  exact calls_return (dequeQueue ℕ) 1 _ (Machine.Reachable.runFrom .start hrun) 1

/-! ## The dispatcher's queue -/

section Dispatcher

open ThreadPool (Task TaskPriority compareTaskPriority)
open ThreadPool.TaskQueue (Urgent compares_compareTaskPriority ordered_after)

/-- `queue_` of `Dispatcher` -/
def taskQueue : Container (Array Task) Unit Task := priorityQueue compareTaskPriority

theorem access_ordered {maxSz : ℕ} {queue next : Array Task} {place : Place Unit Task}
    {rest : Place Unit Task ⊕ Result Task} (hordered : BinaryHeap.Ordered Urgent queue)
    (haccess : (code taskQueue maxSz).access queue place () = some (next, rest)) :
    BinaryHeap.Ordered Urgent next := by
  cases place with
  | popEmpty =>
      simp only [code] at haccess
      split at haccess
      next => cases haccess; exact hordered
      next => cases haccess; exact hordered
  | popTop =>
      simp only [code] at haccess
      split at haccess
      next => cases haccess
      next => cases haccess; exact hordered
  | popPop val =>
      cases haccess
      exact BinaryHeap.pop_ordered compares_compareTaskPriority hordered
  | pushSize side val =>
      simp only [code] at haccess
      split at haccess
      next => cases haccess; exact hordered
      next => cases haccess; exact hordered
  | pushPush side val =>
      cases haccess
      exact BinaryHeap.push_ordered compares_compareTaskPriority hordered val
  | clear =>
      cases haccess
      exact ordered_after 0 []
  | size => cases haccess; exact hordered
  | empty => cases haccess; exact hordered

theorem ordered_of_reachable {maxSz : ℕ}
    {state : CriticalSection.State (Array Task) (Call Unit Task) (Place Unit Task) (Result Task)}
    (hreachable : (machine taskQueue maxSz).Reachable state) :
    BinaryHeap.Ordered Urgent state.object := by
  refine hreachable.invariant (fun state => BinaryHeap.Ordered Urgent state.object)
    (ordered_after 0 []) ?_
  intro state action next hordered _ hstep
  cases action with
  | invoke thread call =>
      change state.step (code taskQueue maxSz) (.invoke thread call) = some next at hstep
      cases hpc : state.callers thread with
      | idle =>
          simp only [CriticalSection.State.step, hpc, Option.some.injEq] at hstep
          subst next
          exact hordered
      | _ => simp [CriticalSection.State.step, hpc] at hstep
  | advance thread answer =>
      change state.advance (code taskQueue maxSz) thread answer = some next at hstep
      rcases CriticalSection.advance_object hstep with hsame | ⟨place, rest, haccess⟩
      · rw [hsame]
        exact hordered
      · exact access_ordered hordered haccess

theorem front_of_popPop {maxSz : ℕ}
    {state : CriticalSection.State (Array Task) (Call Unit Task) (Place Unit Task) (Result Task)}
    (hreachable : (machine taskQueue maxSz).Reachable state) {thread : ℕ}
    {call : Call Unit Task} {task : Task}
    (hpc : state.callers thread = .inside call (.popPop task)) :
    state.object[0]? = some task := by
  obtain ⟨config, hsim⟩ := CriticalSection.simulates_of_reached
    (implements_boundedQueue taskQueue maxSz) rfl
    (hreachable.mono fun state action _ => answers_true state action)
  have hmatches := hsim.callers thread
  rw [hpc] at hmatches
  obtain ⟨-, found, -, hruns⟩ := hmatches
  rcases Relation.ReflTransGen.cases_tail hruns with heq | ⟨before, -, _, -, hmove⟩
  · have hplace := congrArg Prod.snd heq
    cases call <;> cases hplace
  · obtain ⟨hsame, hfront⟩ := access_popPop hmove
    change state.object = before.1 at hsame
    rw [hsame]
    exact hfront

/-- However many threads push and pop at once, a `PopFront` that gets a task takes one of
the most urgent priority out of all that are queued at that moment, and leaves the
others. -/
theorem popFront_urgent (maxSz : ℕ)
    (state next :
      CriticalSection.State (Array Task) (Call Unit Task) (Place Unit Task) (Result Task))
    (hreachable : (machine taskQueue maxSz).Reachable state) (thread : ℕ) (task : Task)
    (hstep : (machine taskQueue maxSz).step state (.advance thread ()) = some next)
    (hpopped : next.callers thread = .unlocking (.popped (some task))) :
    (∀ other ∈ state.object.toList, task.priority.value ≤ other.priority.value) ∧
      state.object.toList.Perm (task :: next.object.toList) := by
  obtain ⟨call, place, hpc, haccess⟩ := CriticalSection.advance_unlocking hstep hpopped
  obtain ⟨rfl, hobject⟩ := access_popped haccess
  have hfront := front_of_popPop hreachable hpc
  constructor
  · intro other hother
    obtain ⟨i, hitem⟩ := List.mem_iff_getElem?.mp hother
    rw [Array.getElem?_toList] at hitem
    exact (ordered_of_reachable hreachable).front hfront hitem
  · rw [hobject]
    exact BinaryHeap.pop_perm compareTaskPriority hfront

def extremeLast : List (CriticalSection.Action (Call Unit Task) Unit) :=
  [.invoke 0 (.push () ⟨1, -1, .low⟩), .advance 0 (), .advance 0 (), .advance 0 (), .advance 0 (),
    .advance 0 (), .invoke 0 (.push () ⟨2, -1, .extreme⟩), .advance 0 (), .advance 0 (),
    .advance 0 (), .advance 0 (), .advance 0 (), .invoke 1 .popFront, .advance 1 (),
    .advance 1 (), .advance 1 ()]

theorem popFront_urgent_extremeLast :
    ∃ state next, (machine taskQueue 8).run extremeLast = some state ∧
      (machine taskQueue 8).step state (.advance 1 ()) = some next ∧
      next.callers 1 = .unlocking (.popped (some ⟨2, -1, .extreme⟩)) ∧
      ∀ other ∈ state.object.toList, TaskPriority.extreme.value ≤ other.priority.value := by
  obtain ⟨state, hrun⟩ : ∃ state, (machine taskQueue 8).run extremeLast = some state :=
    ⟨_, rfl⟩
  obtain ⟨next, hstep⟩ : ∃ next,
      (machine taskQueue 8).step state (.advance 1 ()) = some next := by
    cases hrun
    exact ⟨_, rfl⟩
  have hpopped : next.callers 1 = .unlocking (.popped (some ⟨2, -1, .extreme⟩)) := by
    cases hrun
    cases hstep
    rfl
  refine ⟨state, next, hrun, hstep, hpopped, ?_⟩
  exact (popFront_urgent 8 state next (Machine.Reachable.runFrom .start hrun) 1 _ hstep
    hpopped).1

end Dispatcher

end SpinlockQueue
end BackEndFacility
