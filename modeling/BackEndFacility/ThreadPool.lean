import BackEndFacility.BinaryHeap
import BackEndFacility.Machine

/-!
# The thread pool of `thread/src/ThreadPool.cc`

The dispatcher, the workers, the posting threads and the one thread that
calls `StopPooling` run concurrently.  Every semaphore operation, every
critical section of a `SpinlockQueue` and every atomic access to
`freeWorkerBit_` is one step; code that touches only variables of its own
thread is part of the step before it.

The command queue of a thread holds exit commands and nothing else, so it is
represented by its length.
-/

namespace BackEndFacility
namespace ThreadPool

inductive TaskPriority where
  | extreme
  | high
  | normal
  | low
  deriving DecidableEq, Repr

def TaskPriority.value : TaskPriority → ℕ
  | .extreme => 0
  | .high => 1
  | .normal => 2
  | .low => 3

structure Task where
  name : ℕ
  affinity : ℤ
  priority : TaskPriority
  deriving DecidableEq, Repr

/-- `CompareTaskPriority`, with the `>=` of the source. -/
def compareTaskPriority (x y : Task) : Bool :=
  decide (y.priority.value ≤ x.priority.value)

/-- `DEFAULT_WORKER_TASK_MSG_SIZE`, the capacity of every queue. -/
def maxSz : ℕ := 1024

def reqThreshold : ℕ := 3

/-! ## The bitmap of free workers -/

/-- `1 << id` as an operand of `freeWorkerBit_`: a shift of a 32-bit `int`
which is then widened.  From 32 on the shift is undefined, and `undefinedShift`
stands for whatever it yields. -/
def workerBit (undefinedShift : ℕ → BitVec 64) (id : ℕ) : BitVec 64 :=
  if id < 32 then (1#32 <<< id).signExtend 64 else undefinedShift id

def initialBits (workerNum : ℕ) : BitVec 64 :=
  (BitVec.allOnes 64 <<< (64 - workerNum)) >>> (64 - workerNum)

/-- The binary search of `SelectFreeWorker` over the indices from `s` up to
but not including `stop`. -/
def searchBit (sel : BitVec 64) : ℕ → ℕ → ℕ → Option ℕ
  | 0, _, _ => none
  | fuel + 1, s, stop =>
      if s < stop then
        if 1#64 <<< ((s + stop - 1) / 2) = sel then
          some ((s + stop - 1) / 2)
        else if 1#64 <<< ((s + stop - 1) / 2) < sel then
          searchBit sel fuel ((s + stop - 1) / 2 + 1) stop
        else
          searchBit sel fuel s ((s + stop - 1) / 2)
      else none

inductive Selected (workerNum : ℕ) where
  | nobody
  | worker (id : Fin workerNum)
  | assertionFails
  deriving DecidableEq, Repr

def selectFreeWorker (workerNum : ℕ) (bits : BitVec 64) :
    Selected workerNum :=
  if bits &&& (~~~bits + 1) = 0 then .nobody
  else
    match searchBit (bits &&& (~~~bits + 1)) workerNum 0 workerNum with
    | none => .assertionFails
    | some id =>
        if hid : id < workerNum then .worker ⟨id, hid⟩ else .assertionFails

theorem lowestBit_eq_zero_iff (bits : BitVec 64) :
    bits &&& (~~~bits + 1) = 0 ↔ bits = 0 := by
  constructor
  · intro hzero
    have hnegation : ~~~bits + 1 = -bits := (BitVec.neg_eq_not_add bits).symm
    rw [hnegation] at hzero
    have hsum : bits + -bits = bits ||| -bits :=
      BitVec.add_eq_or_of_and_eq_zero bits (-bits) hzero
    have hor : bits ||| -bits = 0 := by
      rw [← hsum]
      exact BitVec.add_right_neg bits
    exact (BitVec.or_eq_zero_iff.mp hor).1
  · intro hzero
    rw [hzero]
    simp

theorem selectFreeWorker_ne_nobody {workerNum : ℕ} {bits : BitVec 64}
    (hbits : bits ≠ 0) : selectFreeWorker workerNum bits ≠ .nobody := by
  have hlowest : bits &&& (~~~bits + 1) ≠ 0 :=
    fun hzero => hbits ((lowestBit_eq_zero_iff bits).mp hzero)
  unfold selectFreeWorker
  rw [if_neg hlowest]
  split
  · simp
  · split <;> simp

/-! ## Threads -/

/-- Where a worker is in `Run`.  The number counts the requests it has sent
in this call of `GetRunTask`. -/
inductive WorkerPc where
  | tryConsume (req : ℕ)
  | notify (req : ℕ)
  | consumeTimeout (req : ℕ)
  | getInternalCmd
  | getTask
  | run (task : Task)
  | notifyDone
  | left
  deriving DecidableEq, Repr

structure Worker where
  pc : WorkerPc
  sem : ℕ
  cmd : ℕ
  mailbox : List Task
  deriving DecidableEq, Repr

/-- Where the dispatcher is in `Run`.  The last three are in `DispatchTask`,
with the worker the task goes to. -/
inductive DispatcherPc (workerNum : ℕ) where
  | prepareWorker
  | waitNotify
  | selectFreeWorker
  | consume
  | getInternalCmd
  | getTask
  | clearBit (target : Fin workerNum) (task : Task)
  | postTask (target : Fin workerNum) (task : Task)
  | signalPost (target : Fin workerNum)
  | left
  deriving DecidableEq, Repr

structure Dispatcher (workerNum : ℕ) where
  pc : DispatcherPc workerNum
  sem : ℕ
  cmd : ℕ
  queue : Array Task
  freeWorker : Option (Fin workerNum)

inductive PosterPc where
  | idle
  | push (task : Task)
  | signalPost (task : Task)
  deriving DecidableEq, Repr

/-- Where `StopPooling` is: it posts the exit command of the dispatcher, then
posts the one of each worker and joins it, then joins the dispatcher. -/
inductive StopPc where
  | idle
  | pushDispatcher
  | signalDispatcher
  | pushWorker (id : ℕ)
  | signalWorker (id : ℕ)
  | joinWorker (id : ℕ)
  | joinDispatcher
  | returned
  deriving DecidableEq, Repr

/-- The last three components record the run: the tasks that the dispatcher's
queue has accepted, those for which `PostTask` has returned `true`, and those
that have been run. -/
structure State (workerNum : ℕ) where
  workerNotify : ℕ
  freeWorkerBit : BitVec 64
  dispatcher : Dispatcher workerNum
  workers : Fin workerNum → Worker
  posters : ℕ → PosterPc
  stopper : StopPc
  crashed : Bool
  accepted : List Task
  posted : List Task
  done : List Task

inductive Action (workerNum : ℕ) where
  | post (thread : ℕ) (task : Task)
  | poster (thread : ℕ)
  | dispatch
  | work (id : Fin workerNum) (expired : Bool)
  | stopPooling
  | stop

/-- The pool after `StartPooling`. -/
def start (workerNum : ℕ) : State workerNum where
  workerNotify := workerNum
  freeWorkerBit := initialBits workerNum
  dispatcher := ⟨.prepareWorker, 0, 0, #[], none⟩
  workers := fun _ => ⟨.tryConsume 0, 0, 0, []⟩
  posters := fun _ => .idle
  stopper := .idle
  crashed := false
  accepted := []
  posted := []
  done := []

variable {workerNum : ℕ}

def State.setWorker (state : State workerNum) (id : Fin workerNum)
    (worker : Worker) : State workerNum :=
  { state with workers := Function.update state.workers id worker }

/-- How the workers compare before and after one of them is replaced. -/
theorem State.setWorker_same (state : State workerNum) {id : Fin workerNum}
    {worker : Worker} (Same : Worker → Worker → Prop) (hrefl : ∀ other, Same other other)
    (hsame : Same worker (state.workers id)) (other : Fin workerNum) :
    Same ((state.setWorker id worker).workers other) (state.workers other) := by
  show Same (Function.update state.workers id worker other) (state.workers other)
  by_cases heq : other = id
  · rw [heq, Function.update_self]
    exact hsame
  · rw [Function.update_of_ne heq]
    exact hrefl _

def State.setPoster (state : State workerNum) (thread : ℕ) (pc : PosterPc) :
    State workerNum :=
  { state with posters := Function.update state.posters thread pc }

/-! ## Steps -/

/-- `ThreadPool::PostTask` in a posting thread. -/
def State.poster (state : State workerNum) (thread : ℕ) :
    Option (State workerNum) :=
  match state.posters thread with
  | .idle => none
  | .push task =>
      if state.dispatcher.queue.size < maxSz then
        some ({ state with
          dispatcher := { state.dispatcher with
            queue := BinaryHeap.push compareTaskPriority
              state.dispatcher.queue task }
          accepted := state.accepted ++ [task] }.setPoster thread
            (.signalPost task))
      else
        some (state.setPoster thread .idle)
  | .signalPost task =>
      some ({ state with
        dispatcher := { state.dispatcher with
          sem := state.dispatcher.sem + 1 }
        posted := state.posted ++ [task] }.setPoster thread .idle)

/-- The worker `DispatchTask` chooses: the one the task is bound to, or else
the one `PrepareWorker` has found, if it has found one. -/
def Dispatcher.target (dispatcher : Dispatcher workerNum) (task : Task) :
    Option (Fin workerNum) :=
  if h : 0 ≤ task.affinity ∧ task.affinity.toNat < workerNum then
    some ⟨task.affinity.toNat, h.2⟩
  else dispatcher.freeWorker

def State.dispatch (undefinedShift : ℕ → BitVec 64)
    (state : State workerNum) : Option (State workerNum) :=
  let dispatcher := state.dispatcher
  match dispatcher.pc with
  | .prepareWorker =>
      match dispatcher.freeWorker with
      | some _ =>
          some { state with dispatcher := { dispatcher with pc := .consume } }
      | none =>
          some { state with
            dispatcher := { dispatcher with pc := .waitNotify } }
  | .waitNotify =>
      if 0 < state.workerNotify then
        some { state with
          workerNotify := state.workerNotify - 1
          dispatcher := { dispatcher with pc := .selectFreeWorker } }
      else none
  | .selectFreeWorker =>
      match ThreadPool.selectFreeWorker workerNum state.freeWorkerBit with
      | .nobody =>
          some { state with
            dispatcher := { dispatcher with pc := .waitNotify } }
      | .worker id =>
          some { state with
            dispatcher := { dispatcher with
              pc := .consume
              freeWorker := some id } }
      | .assertionFails => some { state with crashed := true }
  | .consume =>
      if 0 < dispatcher.sem then
        some { state with
          dispatcher := { dispatcher with
            pc := .getInternalCmd
            sem := dispatcher.sem - 1 } }
      else none
  | .getInternalCmd =>
      if 0 < dispatcher.cmd then
        some { state with
          dispatcher := { dispatcher with
            pc := .left
            cmd := dispatcher.cmd - 1 } }
      else
        some { state with dispatcher := { dispatcher with pc := .getTask } }
  | .getTask =>
      match dispatcher.queue[0]? with
      | none => some { state with crashed := true }
      | some task =>
          match dispatcher.target task with
          | none => some { state with crashed := true }
          | some target =>
              some { state with
                dispatcher := { dispatcher with
                  pc := .clearBit target task
                  queue := BinaryHeap.pop compareTaskPriority dispatcher.queue
                  freeWorker :=
                    if dispatcher.freeWorker = some target then none
                    else dispatcher.freeWorker } }
  | .clearBit target task =>
      some { state with
        freeWorkerBit :=
          state.freeWorkerBit &&& ~~~ workerBit undefinedShift target
        dispatcher := { dispatcher with pc := .postTask target task } }
  | .postTask target task =>
      let worker := state.workers target
      if worker.mailbox.length < maxSz then
        some ({ state with
          dispatcher := { dispatcher with
            pc := .signalPost target } }.setWorker target
              { worker with mailbox := worker.mailbox ++ [task] })
      else
        some { state with
          dispatcher := { dispatcher with pc := .prepareWorker } }
  | .signalPost target =>
      let worker := state.workers target
      some ({ state with
        dispatcher := { dispatcher with pc := .prepareWorker } }.setWorker
          target { worker with sem := worker.sem + 1 })
  | .left => none

/-- One step of a worker.  `expired` tells whether the timed wait gives up. -/
def State.work (undefinedShift : ℕ → BitVec 64) (state : State workerNum)
    (id : Fin workerNum) (expired : Bool) : Option (State workerNum) :=
  let worker := state.workers id
  match worker.pc with
  | .tryConsume req =>
      if 0 < worker.sem then
        some (state.setWorker id { worker with
          pc := .getInternalCmd
          sem := worker.sem - 1 })
      else if reqThreshold < req then none
      else some (state.setWorker id { worker with pc := .notify req })
  | .notify req =>
      some ({ state with
        workerNotify := state.workerNotify + 1 }.setWorker id
          { worker with pc := .consumeTimeout (req + 1) })
  | .consumeTimeout req =>
      if expired then
        some (state.setWorker id { worker with pc := .tryConsume req })
      else if 0 < worker.sem then
        some (state.setWorker id { worker with
          pc := .getInternalCmd
          sem := worker.sem - 1 })
      else none
  | .getInternalCmd =>
      if 0 < worker.cmd then
        some (state.setWorker id { worker with
          pc := .left
          cmd := worker.cmd - 1 })
      else some (state.setWorker id { worker with pc := .getTask })
  | .getTask =>
      match worker.mailbox with
      | [] => some { state with crashed := true }
      | task :: rest =>
          some (state.setWorker id { worker with
            pc := .run task
            mailbox := rest })
  | .run task =>
      some ({ state with done := state.done ++ [task] }.setWorker id
        { worker with pc := .notifyDone })
  | .notifyDone =>
      some ({ state with
        freeWorkerBit :=
          state.freeWorkerBit ||| workerBit undefinedShift id }.setWorker id
            { worker with pc := .tryConsume 0 })
  | .left => none

def StopPc.nextWorker (workerNum id : ℕ) : StopPc :=
  if id < workerNum then .pushWorker id else .joinDispatcher

def State.stop (state : State workerNum) : Option (State workerNum) :=
  match state.stopper with
  | .idle => none
  | .pushDispatcher =>
      if state.dispatcher.cmd < maxSz then
        some { state with
          dispatcher := { state.dispatcher with
            cmd := state.dispatcher.cmd + 1 }
          stopper := .signalDispatcher }
      else some { state with stopper := .returned }
  | .signalDispatcher =>
      some { state with
        dispatcher := { state.dispatcher with
          sem := state.dispatcher.sem + 1 }
        stopper := .nextWorker workerNum 0 }
  | .pushWorker id =>
      if hid : id < workerNum then
        let worker := state.workers ⟨id, hid⟩
        if worker.cmd < maxSz then
          some ({ state with stopper := .signalWorker id }.setWorker
            ⟨id, hid⟩ { worker with cmd := worker.cmd + 1 })
        else
          some { state with stopper := .nextWorker workerNum (id + 1) }
      else none
  | .signalWorker id =>
      if hid : id < workerNum then
        let worker := state.workers ⟨id, hid⟩
        some ({ state with stopper := .joinWorker id }.setWorker
          ⟨id, hid⟩ { worker with sem := worker.sem + 1 })
      else none
  | .joinWorker id =>
      if hid : id < workerNum then
        if (state.workers ⟨id, hid⟩).pc = .left then
          some { state with stopper := .nextWorker workerNum (id + 1) }
        else none
      else none
  | .joinDispatcher =>
      if state.dispatcher.pc = .left then
        some { state with stopper := .returned }
      else none
  | .returned => none

def State.step (undefinedShift : ℕ → BitVec 64) (state : State workerNum)
    (action : Action workerNum) : Option (State workerNum) :=
  if state.crashed then none
  else
    match action with
    | .post thread task =>
        match state.posters thread with
        | .idle => some (state.setPoster thread (.push task))
        | _ => none
    | .poster thread => state.poster thread
    | .dispatch => state.dispatch undefinedShift
    | .work id expired => state.work undefinedShift id expired
    | .stopPooling =>
        match state.stopper with
        | .idle => some { state with stopper := .pushDispatcher }
        | _ => none
    | .stop => state.stop

def machine (undefinedShift : ℕ → BitVec 64) (workerNum : ℕ) :
    Machine (State workerNum) (Action workerNum) where
  start := start workerNum
  step := State.step undefinedShift

/-! ## The worker the dispatcher holds -/

/-- Behind `PrepareWorker` the dispatcher holds a free worker until it hands
a task over. -/
def Dispatcher.Held (dispatcher : Dispatcher workerNum) : Prop :=
  match dispatcher.pc with
  | .consume => dispatcher.freeWorker ≠ none
  | .getInternalCmd => dispatcher.freeWorker ≠ none
  | .getTask => dispatcher.freeWorker ≠ none
  | _ => True

theorem Dispatcher.Held.congr {dispatcher dispatcher' : Dispatcher workerNum}
    (hheld : dispatcher.Held) (hpc : dispatcher'.pc = dispatcher.pc)
    (hfree : dispatcher'.freeWorker = dispatcher.freeWorker) :
    dispatcher'.Held := by
  unfold Dispatcher.Held at hheld ⊢
  rw [hpc, hfree]
  exact hheld

end ThreadPool
end BackEndFacility
