import BackEndFacility.ThreadPool
import Mathlib.Data.Multiset.AddSub

/-!
# The priorities of the dispatcher's queue

`SpinlockQueue` over `PriorityQueue` is a binary heap that is compared by
`CompareTaskPriority`, whose `>=` holds between a task and itself.  Whatever has been
pushed and popped before, the front of the heap is a task of the most urgent priority.
-/

namespace BackEndFacility
namespace ThreadPool

/-! ## The queue -/

/-- `SpinlockQueue<ITask*, PriorityQueue<ITask*, CompareTaskPriority>>`. -/
structure TaskQueue where
  maxSz : ℕ
  queue : Array Task

inductive QueueCall where
  | pushBack (task : Task)
  | popFront

namespace TaskQueue

def construct (maxSz : ℕ) : TaskQueue := ⟨maxSz, #[]⟩

def popFront (this : TaskQueue) : Option Task × TaskQueue :=
  match this.queue[0]? with
  | none => (none, this)
  | some val =>
      (some val, { this with queue := BinaryHeap.pop compareTaskPriority this.queue })

def pushBack (this : TaskQueue) (val : Task) : Bool × TaskQueue :=
  if this.maxSz ≤ this.queue.size then (false, this)
  else (true, { this with queue := BinaryHeap.push compareTaskPriority this.queue val })

def call (this : TaskQueue) : QueueCall → TaskQueue
  | .pushBack task => (this.pushBack task).2
  | .popFront => this.popFront.2

/-- The queue after a sequence of calls. -/
def after (this : TaskQueue) (calls : List QueueCall) : TaskQueue :=
  calls.foldl call this

def tasks (this : TaskQueue) : Multiset Task := this.queue.toList

/-- A task that is popped is as urgent as any in the queue, and nothing but it is removed;
a push adds its task unless the queue is full. -/
structure Dispatches (this : TaskQueue) : Prop where
  urgent : ∀ task left, this.popFront = (some task, left) →
    ∀ other ∈ this.tasks, task.priority.value ≤ other.priority.value
  removes : ∀ task left, this.popFront = (some task, left) →
    this.tasks = task ::ₘ left.tasks
  empty : ∀ left, this.popFront = (none, left) → this.tasks = 0 ∧ left = this
  adds : ∀ task left, this.pushBack task = (true, left) → left.tasks = task ::ₘ this.tasks
  full : ∀ task left, this.pushBack task = (false, left) →
    this.maxSz ≤ this.tasks.card ∧ left = this

/-! ## The order of the heap -/

/-- The first of the two is at least as urgent. -/
def Urgent (first second : Task) : Prop :=
  first.priority.value ≤ second.priority.value

instance urgentTrans : IsTrans Task Urgent :=
  ⟨fun _ _ _ hfirst hsecond => Nat.le_trans hfirst hsecond⟩

instance urgentRefl : Std.Refl Urgent :=
  ⟨fun task => Nat.le_refl task.priority.value⟩

theorem compares_compareTaskPriority : BinaryHeap.Compares Urgent compareTaskPriority := by
  intro first second
  constructor
  · intro hholds
    unfold compareTaskPriority at hholds
    rw [decide_eq_true_eq] at hholds
    exact hholds
  · intro hfails
    unfold compareTaskPriority at hfails
    rw [decide_eq_false_iff_not] at hfails
    exact (Nat.lt_of_not_le hfails).le

theorem ordered_call {this : TaskQueue} (hordered : BinaryHeap.Ordered Urgent this.queue)
    (request : QueueCall) : BinaryHeap.Ordered Urgent (this.call request).queue := by
  cases request with
  | pushBack task =>
      unfold call pushBack
      simp only
      split
      · exact hordered
      · exact BinaryHeap.push_ordered compares_compareTaskPriority hordered task
  | popFront =>
      unfold call popFront
      simp only
      split
      · exact hordered
      · exact BinaryHeap.pop_ordered compares_compareTaskPriority hordered

theorem ordered_after (maxSz : ℕ) (calls : List QueueCall) :
    BinaryHeap.Ordered Urgent ((construct maxSz).after calls).queue := by
  induction calls using List.reverseRecOn with
  | nil =>
      intro i _ parent item hparent
      cases hparent
  | append_singleton calls request ih =>
      unfold after
      rw [List.foldl_append]
      exact ordered_call ih request

theorem dispatches_of_ordered {this : TaskQueue}
    (hordered : BinaryHeap.Ordered Urgent this.queue) : this.Dispatches := by
  constructor
  · intro task left hpop other hother
    unfold popFront at hpop
    split at hpop
    next hnone => cases hpop
    next val hfront =>
        cases hpop
        obtain ⟨i, hitem⟩ := List.mem_iff_getElem?.mp (Multiset.mem_coe.mp hother)
        rw [Array.getElem?_toList] at hitem
        exact hordered.front hfront hitem
  · intro task left hpop
    unfold popFront at hpop
    split at hpop
    next hnone => cases hpop
    next val hfront =>
        cases hpop
        exact Multiset.coe_eq_coe.mpr (BinaryHeap.pop_perm compareTaskPriority hfront)
  · intro left hpop
    unfold popFront at hpop
    split at hpop
    next hnone =>
        cases hpop
        rw [Array.getElem?_eq_none_iff, Nat.le_zero] at hnone
        have hempty : this.queue.toList = [] := by
          apply List.eq_nil_of_length_eq_zero
          rw [Array.length_toList]
          exact hnone
        refine ⟨?_, rfl⟩
        unfold tasks
        rw [hempty]
        rfl
    next val hfront => cases hpop
  · intro task left hpush
    unfold pushBack at hpush
    split at hpush
    next => cases hpush
    next =>
        cases hpush
        exact Multiset.coe_eq_coe.mpr (BinaryHeap.push_perm compareTaskPriority this.queue task)
  · intro task left hpush
    unfold pushBack at hpush
    split at hpush
    next hfull =>
        cases hpush
        refine ⟨?_, rfl⟩
        unfold tasks
        rw [Multiset.coe_card, Array.length_toList]
        exact hfull
    next => cases hpush

/-- Whatever sequence of pushes and pops has been made, the next pop is of the most urgent
task. -/
theorem dispatches_after (maxSz : ℕ) (calls : List QueueCall) :
    ((construct maxSz).after calls).Dispatches :=
  dispatches_of_ordered (ordered_after maxSz calls)

end TaskQueue

/-! ## The queue in the pool -/

variable {workerNum : ℕ}

/-- What a step of the pool does to the queue of the dispatcher. -/
theorem State.step_queue {undefinedShift : ℕ → BitVec 64} {state next : State workerNum}
    {action : Action workerNum} (hstep : state.step undefinedShift action = some next) :
    next.dispatcher.queue = state.dispatcher.queue ∨
      ∃ request, next.dispatcher.queue =
        ((TaskQueue.mk maxSz state.dispatcher.queue).call request).queue := by
  unfold State.step at hstep
  split_ifs at hstep
  cases action with
  | post thread task =>
      simp only at hstep
      split at hstep
      · cases hstep
        exact .inl rfl
      · cases hstep
  | poster thread =>
      simp only [State.poster] at hstep
      split at hstep
      · cases hstep
      next task hpc =>
          split_ifs at hstep with hroom
          · cases hstep
            refine .inr ⟨.pushBack task, ?_⟩
            unfold TaskQueue.call TaskQueue.pushBack
            simp only
            rw [if_neg (Nat.not_le.mpr hroom)]
            rfl
          · cases hstep
            exact .inl rfl
      · cases hstep
        exact .inl rfl
  | dispatch =>
      simp only [State.dispatch] at hstep
      cases hpc : state.dispatcher.pc with
      | getTask =>
          simp only [hpc] at hstep
          split at hstep
          · cases hstep
            exact .inl rfl
          next task hfront =>
              split at hstep
              · cases hstep
                exact .inl rfl
              · cases hstep
                refine .inr ⟨.popFront, ?_⟩
                unfold TaskQueue.call TaskQueue.popFront
                simp only
                rw [hfront]
      | _ =>
          simp only [hpc] at hstep
          repeat' split at hstep
          all_goals
            cases hstep
            try exact .inl rfl
  | work id expired =>
      simp only [State.work] at hstep
      repeat' split at hstep
      all_goals
        cases hstep
        try exact .inl rfl
  | stopPooling =>
      simp only at hstep
      split at hstep
      · cases hstep
        exact .inl rfl
      · cases hstep
  | stop =>
      simp only [State.stop] at hstep
      repeat' split at hstep
      all_goals
        cases hstep
        try exact .inl rfl

/-- The queue of the dispatcher is what its pushes and pops have made of an empty one, and
so it dispatches by priority in every state of the pool. -/
theorem dispatches_of_reachable {undefinedShift : ℕ → BitVec 64} {state : State workerNum}
    (hreachable : (machine undefinedShift workerNum).Reachable state) :
    (TaskQueue.mk maxSz state.dispatcher.queue).Dispatches := by
  apply TaskQueue.dispatches_of_ordered
  refine Machine.ReachedBy.invariant
    (fun state => BinaryHeap.Ordered TaskQueue.Urgent state.dispatcher.queue) ?_ ?_ hreachable
  · exact TaskQueue.ordered_after maxSz []
  · intro before action after hordered _ hstep
    rcases State.step_queue hstep with hsame | ⟨request, hcalled⟩
    · rw [hsame]
      exact hordered
    · rw [hcalled]
      exact TaskQueue.ordered_call hordered request

end ThreadPool
end BackEndFacility
