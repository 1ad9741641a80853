import BackEndFacility.AtomicOps
import BackEndFacility.Machine

/-!
# The list queue of `misc/src/LockFreeList.cc`

All nodes come from one array.  A node is linked through its `next` word
either into the queue, which starts at the dummy node under `out_`, or into
the list of unused nodes under `head_`.  The two lists draw their tags from
two counters, `id_` and `id2_`.

Every atomic builtin and every plain access to shared memory is one step.
The state also records the history of the run: the pushes in the order in
which their nodes were linked, the pops in the order in which `out_` moved,
and the calls in the order in which they returned `true`.
-/

namespace BackEndFacility
namespace LockFreeList

universe u

variable {Value : Type u}

/-- The next access of a thread inside `Push` or `Pop`, with the local
variables that are live there.  `AllocNode` runs inside `Push` and
`ReleaseNode` inside `Pop`. -/
inductive Pc (Value : Type u) where
  | idle
  | allocReadHead (data : Value)
  | allocReadNext (data : Value) (oldHead : ℕ × ℕ)
  | allocCas (data : Value) (oldHead : ℕ × ℕ) (tmp : DoublePointer)
  | allocClearNext (data : Value) (node : ℕ)
  | pushWriteData (data : Value) (node : ℕ)
  | pushClearNext (data : Value) (node : ℕ)
  | pushDrawId (data : Value) (node : ℕ)
  | pushReadIn (data : Value) (node id : ℕ)
  | pushReadNext (data : Value) (node id : ℕ) (tail : ℕ × ℕ)
  | pushHelp (data : Value) (node id : ℕ) (tail after : ℕ × ℕ)
  | pushLink (data : Value) (node id : ℕ) (tail : ℕ × ℕ)
  | pushSwing (data : Value) (node id : ℕ) (tail : ℕ × ℕ)
  | popReadOut
  | popReadIn (out : ℕ × ℕ)
  | popReadNext (out tail : ℕ × ℕ)
  | popHelp (tail after : ℕ × ℕ)
  | popReadData (out after : ℕ × ℕ)
  | popCas (out after : ℕ × ℕ) (data : Value)
  | releaseDrawId (data : Value) (node : ℕ)
  | releaseReadHead (data : Value) (node id : ℕ)
  | releaseWriteNext (data : Value) (node id : ℕ) (oldHead : DoublePointer)
  | releaseCas (data : Value) (node id : ℕ) (oldHead : DoublePointer)

/-- Thread and value of one call that took effect. -/
abbrev Record (Value : Type u) := ℕ × Value

structure State (Value : Type u) where
  id : ℕ
  inPtr : ℕ × ℕ
  outPtr : ℕ × ℕ
  id2 : ℕ
  head : DoublePointer
  next : ℕ → DoublePointer
  data : ℕ → Value
  callers : ℕ → Pc Value
  linked : List (Record Value)
  taken : List (Record Value)
  pushed : List (Record Value)
  popped : List (Record Value)

inductive Action (Value : Type u) where
  | push (thread : ℕ) (data : Value)
  | pop (thread : ℕ)
  | advance (thread : ℕ)

/-- The constructor: `InitInternalNodeList` links node `i` to node `i + 1`
under the tag `i + 1`, and one `AllocNode` takes node `0` as the dummy. -/
def construct (capacity : ℕ) (memory : ℕ → Value) : State Value where
  id := 1
  inPtr := (0, 0)
  outPtr := (0, 0)
  id2 := capacity - 1
  head := if 0 < capacity - 1 then setDoublePointer 1 1 else none
  next := fun node =>
    if 0 < node ∧ node < capacity - 1 then
      setDoublePointer (node + 1) (node + 1)
    else none
  data := memory
  callers := fun _ => .idle
  linked := []
  taken := []
  pushed := []
  popped := []

def State.goto (state : State Value) (thread : ℕ) (pc : Pc Value) :
    State Value :=
  { state with callers := Function.update state.callers thread pc }

/-- The next step of a thread that is inside a call. -/
def State.advance (state : State Value) (thread : ℕ) :
    Option (State Value) :=
  match state.callers thread with
  | .idle => none
  | .allocReadHead data =>
      match state.head with
      | none => some (state.goto thread .idle)
      | some oldHead => some (state.goto thread (.allocReadNext data oldHead))
  | .allocReadNext data oldHead =>
      some (state.goto thread
        (.allocCas data oldHead (state.next oldHead.2)))
  | .allocCas data oldHead tmp =>
      if state.head = some oldHead then
        some ({ state with head := tmp }.goto thread
          (.allocClearNext data oldHead.2))
      else
        some (state.goto thread (.allocReadHead data))
  | .allocClearNext data node =>
      some ({ state with
        next := Function.update state.next node none }.goto thread
          (.pushWriteData data node))
  | .pushWriteData data node =>
      some ({ state with
        data := Function.update state.data node data }.goto thread
          (.pushClearNext data node))
  | .pushClearNext data node =>
      some ({ state with
        next := Function.update state.next node none }.goto thread
          (.pushDrawId data node))
  | .pushDrawId data node =>
      some ({ state with id := atomicIncrement state.id }.goto thread
        (.pushReadIn data node state.id))
  | .pushReadIn data node id =>
      some (state.goto thread (.pushReadNext data node id state.inPtr))
  | .pushReadNext data node id tail =>
      match state.next tail.2 with
      | none => some (state.goto thread (.pushLink data node id tail))
      | some after =>
          some (state.goto thread (.pushHelp data node id tail after))
  | .pushHelp data node id tail after =>
      if state.inPtr = tail then
        some ({ state with inPtr := after }.goto thread
          (.pushReadIn data node id))
      else
        some (state.goto thread (.pushReadIn data node id))
  | .pushLink data node id tail =>
      if state.next tail.2 = none then
        some ({ state with
          next := Function.update state.next tail.2
            (setDoublePointer id node)
          linked := state.linked ++ [(thread, data)] }.goto thread
            (.pushSwing data node id tail))
      else
        some (state.goto thread (.pushReadIn data node id))
  | .pushSwing data node id tail =>
      some ({ state with
        inPtr := if state.inPtr = tail then (id, node) else state.inPtr
        pushed := state.pushed ++ [(thread, data)] }.goto thread .idle)
  | .popReadOut =>
      some (state.goto thread (.popReadIn state.outPtr))
  | .popReadIn out =>
      some (state.goto thread (.popReadNext out state.inPtr))
  | .popReadNext out tail =>
      match state.next out.2 with
      | none => some (state.goto thread .idle)
      | some after =>
          if tail = out then
            some (state.goto thread (.popHelp tail after))
          else
            some (state.goto thread (.popReadData out after))
  | .popHelp tail after =>
      if state.inPtr = tail then
        some ({ state with inPtr := after }.goto thread .popReadOut)
      else
        some (state.goto thread .popReadOut)
  | .popReadData out after =>
      some (state.goto thread (.popCas out after (state.data after.2)))
  | .popCas out after data =>
      if state.outPtr = out then
        some ({ state with
          outPtr := after
          taken := state.taken ++ [(thread, data)] }.goto thread
            (.releaseDrawId data out.2))
      else
        some (state.goto thread .popReadOut)
  | .releaseDrawId data node =>
      some ({ state with id2 := atomicIncrement state.id2 }.goto thread
        (.releaseReadHead data node state.id2))
  | .releaseReadHead data node id =>
      some (state.goto thread (.releaseWriteNext data node id state.head))
  | .releaseWriteNext data node id oldHead =>
      some ({ state with
        next := Function.update state.next node oldHead }.goto thread
          (.releaseCas data node id oldHead))
  | .releaseCas data node id oldHead =>
      if state.head = oldHead then
        some ({ state with
          head := setDoublePointer id node
          popped := state.popped ++ [(thread, data)] }.goto thread .idle)
      else
        some (state.goto thread (.releaseReadHead data node id))

def State.step (state : State Value) : Action Value → Option (State Value)
  | .push thread data =>
      match state.callers thread with
      | .idle => some (state.goto thread (.allocReadHead data))
      | _ => none
  | .pop thread =>
      match state.callers thread with
      | .idle => some (state.goto thread .popReadOut)
      | _ => none
  | .advance thread => state.advance thread

def machine (capacity : ℕ) (memory : ℕ → Value) :
    Machine (State Value) (Action Value) where
  start := construct capacity memory
  step := State.step

/-! ## What the queue promises -/

open TaggedRef

/-- Pushes take effect in some order which extends the order of each thread's
own calls; pops deliver the values in exactly that order, so every value at
most once; and when no call is in progress, what was pushed is what was popped
together with what is stored behind `out_`. -/
structure State.Delivers (state : State Value) : Prop where
  pushOrder : ∀ thread,
    state.pushed.filter (fun record => record.1 = thread) <+:
      state.linked.filter (fun record => record.1 = thread)
  popOrder : state.taken.map Prod.snd <+: state.linked.map Prod.snd
  atMostOnce : (state.popped.map Prod.snd : Multiset Value) ≤
    (state.linked.map Prod.snd : Multiset Value)
  settled : (∀ thread, state.callers thread = .idle) →
    ∃ cells, Linked state.next (state.next state.outPtr.2) cells ∧
      (state.pushed.map Prod.snd : Multiset Value) =
        (state.popped.map Prod.snd : Multiset Value) +
          (cells.map fun cell => state.data cell.2 : Multiset Value)

/-- No linking compare-and-swap finds the null it expects in a node that is
no longer the one under `in_`, the release which draws the first tag of
`id2_` is not one of the last node, and neither counter wraps. -/
def State.FreshAt (capacity : ℕ) (state : State Value) : Pc Value → Prop
  | .pushLink _ _ _ tail => state.next tail.2 = none → state.inPtr = tail
  | .pushDrawId _ _ => state.id + 1 < 2 ^ 64
  | .releaseDrawId _ node =>
      state.id2 + 1 < 2 ^ 64 ∧
        (state.id2, node) ≠ (capacity - 1, capacity - 1)
  | _ => True

instance decidableFreshAt (capacity : ℕ) (state : State Value)
    (pc : Pc Value) : Decidable (state.FreshAt capacity pc) := by
  cases pc <;> unfold State.FreshAt <;> infer_instance

def StaysFresh (capacity : ℕ) (state : State Value) :
    Action Value → Prop
  | .advance thread => state.FreshAt capacity (state.callers thread)
  | _ => True

instance decidableStaysFresh (capacity : ℕ) (state : State Value) :
    ∀ action, Decidable (StaysFresh capacity state action)
  | .push _ _ => isTrue trivial
  | .pop _ => isTrue trivial
  | .advance thread =>
      decidableFreshAt capacity state (state.callers thread)

/-! ## A node that is recycled under a delayed push -/

/-- Thread 0 is about to link its node behind node 0 when thread 1 pushes,
pops, and so recycles node 0.  The free list is empty at that moment, so the
recycled node has a null successor again. -/
def recycledTail : List (Action ℕ) :=
  [.push 0 10, .advance 0, .advance 0, .advance 0, .advance 0, .advance 0,
    .advance 0, .advance 0, .advance 0, .advance 0,
    .push 1 20, .advance 1, .advance 1, .advance 1, .advance 1, .advance 1,
    .advance 1, .advance 1, .advance 1, .advance 1, .advance 1, .advance 1,
    .pop 1, .advance 1, .advance 1, .advance 1, .advance 1, .advance 1,
    .advance 1, .advance 1, .advance 1, .advance 1,
    .advance 0, .advance 0]

theorem not_delivers_recycledTail :
    ¬ ∀ capacity, 1 ≤ capacity → ∀ (memory : ℕ → ℕ) (state : State ℕ),
      (machine capacity memory).Reachable state → state.Delivers := by
  intro hall
  have hlost : ∃ state, (machine 3 fun _ => 0).run recycledTail =
      some state ∧ (∀ thread, state.callers thread = .idle) ∧
        state.pushed = [(1, 20), (0, 10)] ∧ state.popped = [(1, 20)] ∧
          state.next state.outPtr.2 = none := by
    refine ⟨_, rfl, ?_, rfl, rfl, rfl⟩
    intro thread
    match thread with
    | 0 => rfl
    | 1 => rfl
    | _ + 2 => rfl
  obtain ⟨state, hrun, hidle, hpushed, hpopped, hempty⟩ := hlost
  have hreached : (machine 3 fun _ => 0).Reachable state :=
    Machine.Reachable.runFrom .start hrun
  obtain ⟨cells, hlinked, hvalues⟩ :=
    (hall 3 (by decide) _ state hreached).settled hidle
  rw [hempty] at hlinked
  cases cells with
  | nil => simp [hpushed, hpopped] at hvalues
  | cons cell rest => simp at hlinked

end LockFreeList
end BackEndFacility
