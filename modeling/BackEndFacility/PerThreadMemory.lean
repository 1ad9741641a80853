import BackEndFacility.Machine
import BackEndFacility.Placement
import BackEndFacility.SuccessorChain

/-!
# The per-thread allocator of `misc/src/PerThreadMemory.cc`

A thread that allocates gets a memory frame of its own: `population_ + 1`
nodes in one list under `pHead->next`, with their number in `node_number`.
Only the owner takes nodes from the list, any thread may put one back.  The
first node taken is the dummy, which the owner gives back when it exits or
calls `FreeCurThreadMemory`.

The machine follows one frame, from the moment `InitPerThreadList` has linked
its nodes and is about to take the dummy.  Every atomic builtin and every
plain access to the frame is one step.  An assertion that fails ends its
thread.  `atomic_increment` and `atomic_decrement` return the value before
the update.
-/

namespace BackEndFacility
namespace PerThreadMemory

/-! ## The frame and its callers -/

inductive Taker where
  | dummy
  | user
  deriving DecidableEq, Repr

inductive Releaser where
  | releaseBuffer
  | onThreadExit
  | freeCurThreadMemory
  deriving DecidableEq, Repr

/-- The next access of a thread inside a call, with the local variables that
are live there. -/
inductive Pc where
  | idle
  | allocCheck (taker : Taker)
  | allocCount (taker : Taker)
  | allocReadHead (taker : Taker)
  | allocReadNext (taker : Taker) (node : ℕ)
  | allocCas (taker : Taker) (node : ℕ) (after : Option ℕ)
  | allocClearNext (taker : Taker) (node : ℕ)
  | releaseAssert (releaser : Releaser) (node : ℕ)
  | releaseCount (releaser : Releaser) (node : ℕ)
  | releaseReadHead (releaser : Releaser) (node : ℕ) (sz : ℤ)
  | releaseWriteNext (releaser : Releaser) (node : ℕ) (sz : ℤ)
      (oldHead : Option ℕ)
  | releaseCas (releaser : Releaser) (node : ℕ) (sz : ℤ) (oldHead : Option ℕ)
  | clean (releaser : Releaser)
  | exited
  | aborted
  deriving DecidableEq, Repr

/-- Thread `0` owns the frame.  `attached` says that `key_` still refers to
the frame in the owner's thread, `dummyOut` that the dummy was not given back,
`outstanding` lists the buffers in the hands of the users, and `cleaned`
counts the runs of `Cleaner`. -/
structure State where
  head : Option ℕ
  next : ℕ → Option ℕ
  nodeNumber : ℤ
  dummy : Option ℕ
  dummyOut : Bool
  attached : Bool
  outstanding : List ℕ
  cleaned : ℕ
  callers : ℕ → Pc

inductive Action where
  | allocBuffer
  | releaseBuffer (thread node : ℕ)
  | onThreadExit
  | freeCurThreadMemory
  | advance (thread : ℕ)
  deriving DecidableEq, Repr

/-- `InitPerThreadList` up to its call of `GetFreeBufferFromList`. -/
def initPerThreadList (population : ℕ) : State where
  head := some 0
  next := fun node => if node < population then some (node + 1) else none
  nodeNumber := population + 1
  dummy := none
  dummyOut := false
  attached := true
  outstanding := []
  cleaned := 0
  callers := fun thread => if thread = 0 then .allocCheck .dummy else .idle

def State.goto (state : State) (thread : ℕ) (pc : Pc) : State :=
  { state with callers := Function.update state.callers thread pc }

/-- `GetFreeBufferFromList` returns; `InitPerThreadList` stores the dummy and
`AllocBuffer` goes on to serve its caller. -/
def State.finishAlloc (state : State) (thread : ℕ) (taken : Option ℕ) :
    Taker → State
  | .dummy =>
      { state with
        dummy := taken
        dummyOut := taken.isSome }.goto thread (.allocCheck .user)
  | .user =>
      { state with
        outstanding := taken.toList ++ state.outstanding }.goto thread .idle

def State.finishRelease (state : State) (thread : ℕ) : Releaser → State
  | .releaseBuffer => state.goto thread .idle
  | .onThreadExit => state.goto thread .exited
  | .freeCurThreadMemory =>
      { state with attached := false }.goto thread .idle

/-- The loop of `Cleaner` that counts the nodes, with enough fuel for a list
of all of them. -/
def walk (next : ℕ → Option ℕ) : ℕ → Option ℕ → ℕ
  | 0, _ => 0
  | _ + 1, none => 0
  | fuel + 1, some node => walk next fuel (next node) + 1

def State.advance (population : ℕ) (state : State) (thread : ℕ) :
    Option State :=
  match state.callers thread with
  | .idle => none
  | .exited => none
  | .aborted => none
  | .allocCheck taker =>
      match state.head with
      | none => some (state.finishAlloc thread none taker)
      | some _ => some (state.goto thread (.allocCount taker))
  | .allocCount taker =>
      if state.nodeNumber = 0 then
        some ({ state with nodeNumber := state.nodeNumber - 1 }.goto thread
          .aborted)
      else
        some ({ state with nodeNumber := state.nodeNumber - 1 }.goto thread
          (.allocReadHead taker))
  | .allocReadHead taker =>
      match state.head with
      | none => some (state.goto thread .aborted)
      | some node => some (state.goto thread (.allocReadNext taker node))
  | .allocReadNext taker node =>
      some (state.goto thread (.allocCas taker node (state.next node)))
  | .allocCas taker node after =>
      if state.head = some node then
        some ({ state with head := after }.goto thread
          (.allocClearNext taker node))
      else
        some (state.goto thread (.allocReadHead taker))
  | .allocClearNext taker node =>
      some ({ state with
        next := Function.update state.next node none }.finishAlloc thread
          (some node) taker)
  | .releaseAssert releaser node =>
      match state.next node with
      | none => some (state.goto thread (.releaseCount releaser node))
      | some _ => some (state.goto thread .aborted)
  | .releaseCount releaser node =>
      if state.nodeNumber ≤ population + 1 then
        some ({ state with nodeNumber := state.nodeNumber + 1 }.goto thread
          (.releaseReadHead releaser node state.nodeNumber))
      else
        some ({ state with nodeNumber := state.nodeNumber + 1 }.goto thread
          .aborted)
  | .releaseReadHead releaser node sz =>
      some (state.goto thread (.releaseWriteNext releaser node sz state.head))
  | .releaseWriteNext releaser node sz oldHead =>
      some ({ state with
        next := Function.update state.next node oldHead }.goto thread
          (.releaseCas releaser node sz oldHead))
  | .releaseCas releaser node sz oldHead =>
      if state.head = oldHead then
        if sz = population + 1 then
          some ({ state with head := some node }.goto thread (.clean releaser))
        else
          some ({ state with head := some node }.finishRelease thread
            releaser)
      else
        some (state.goto thread (.releaseReadHead releaser node sz))
  | .clean releaser =>
      if state.nodeNumber = population + 1 ∧
          walk state.next (population + 2) state.head = population + 1 then
        some ({ state with cleaned := state.cleaned + 1 }.finishRelease
          thread releaser)
      else
        some (state.goto thread .aborted)

/-- A user gives back only what is outstanding.  The owner gives the dummy
back through its `key_`; the first access of `FreeCurThreadMemory` to the
frame is the read of `node_number`, and it returns `false` at once if that is
below `population_`. -/
def State.step (population : ℕ) (state : State) : Action → Option State
  | .allocBuffer =>
      if state.callers 0 = .idle ∧ state.attached then
        some (state.goto 0 (.allocCheck .user))
      else
        none
  | .releaseBuffer thread node =>
      if state.callers thread = .idle ∧ node ∈ state.outstanding then
        some ({ state with
          outstanding := state.outstanding.erase node }.goto thread
            (.releaseAssert .releaseBuffer node))
      else
        none
  | .onThreadExit =>
      if state.callers 0 = .idle ∧ state.attached then
        match state.dummy with
        | none => some ({ state with attached := false }.goto 0 .aborted)
        | some node =>
            some ({ state with
              attached := false
              dummyOut := false }.goto 0 (.releaseAssert .onThreadExit node))
      else
        none
  | .freeCurThreadMemory =>
      if state.callers 0 = .idle ∧ state.attached then
        if state.nodeNumber < population then some state
        else
          match state.dummy with
          | none => some (state.goto 0 .aborted)
          | some node =>
              some ({ state with dummyOut := false }.goto 0
                (.releaseAssert .freeCurThreadMemory node))
      else
        none
  | .advance thread => state.advance population thread

def machine (population : ℕ) : Machine State Action where
  start := initPerThreadList population
  step := State.step population

/-! ## What the allocator promises -/

def Pc.owned : Pc → Option ℕ
  | .allocClearNext _ node => some node
  | .releaseAssert _ node => some node
  | .releaseCount _ node => some node
  | .releaseReadHead _ node _ => some node
  | .releaseWriteNext _ node _ _ => some node
  | .releaseCas _ node _ _ => some node
  | _ => none

def Pc.counted : Pc → Bool
  | .allocReadHead _ => true
  | .allocReadNext _ _ => true
  | .allocCas _ _ _ => true
  | _ => false

inductive Place where
  | listed
  | outstanding
  | dummy
  | owned (thread : ℕ)
  deriving DecidableEq, Repr

def Located (nodes : List ℕ) (state : State) : Place → ℕ → Prop
  | .listed, node => node ∈ nodes
  | .outstanding, node => node ∈ state.outstanding
  | .dummy, node => state.dummyOut = true ∧ state.dummy = some node
  | .owned thread, node => (state.callers thread).owned = some node

/-- The list is a proper list of nodes, every node is in exactly one place,
no buffer is handed out twice, the count covers the list, and no assertion
has failed. -/
structure State.Safe (population : ℕ) (state : State) : Prop where
  placed : ∃ nodes, Chained state.next state.head nodes ∧ nodes.Nodup ∧
    (∀ node ∈ nodes, node ≤ population) ∧
    (∀ node ≤ population, ∃! place, Located nodes state place node) ∧
    (nodes.length : ℤ) -
      (if (state.callers 0).counted then 1 else 0) ≤ state.nodeNumber
  heldOnce : state.outstanding.Nodup
  noAbort : ∀ thread, state.callers thread ≠ .aborted

def State.Settled (state : State) : Prop :=
  ∀ thread, state.callers thread = .idle ∨ state.callers thread = .exited

def State.AllBack (population : ℕ) (state : State) : Prop :=
  ∃ nodes, Chained state.next state.head nodes ∧
    ∀ node ≤ population, node ∈ nodes

/-- A buffer in the hands of the users, or the dummy in those of the
owner. -/
def State.Outstanding (state : State) (node : ℕ) : Prop :=
  node ∈ state.outstanding ∨
    (state.dummyOut = true ∧ state.dummy = some node)

/-- `Cleaner` has run once if all nodes are back, and not at all before. -/
def State.Reclaimed (population : ℕ) (state : State) : Prop :=
  (state.AllBack population → state.cleaned = 1) ∧
    (¬ state.AllBack population → state.cleaned = 0)

def Sequential (state : State) : Action → Prop
  | .advance _ => True
  | _ => state.Settled

end PerThreadMemory
end BackEndFacility
