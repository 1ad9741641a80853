import BackEndFacility.AtomicOps
import BackEndFacility.Machine
import BackEndFacility.Placement

/-!
# The buffer pool of `misc/src/LockFreeBuffer.cc`

The pool is a free list of `size_` nodes under a tagged head.  Every atomic
builtin and every plain access to shared memory is one step, and the threads
interleave freely.  A thread calls `ReleaseBuffer` only on a buffer which it
got from `AllocBuffer` and has not released since.

The initial list carries the tags `0, ..., size_ - 1`, and `id_` starts at
`size_ - 1`, the tag of the last node.  The builtin behind `atomic_increment`
returns the old value, so the first release draws a tag that is already in
use.  Conservation holds in every run in which that release is not one of the
last node, or no `AllocBuffer` has a snapshot of that node from before; a run of
three threads in which one has loses a buffer.
-/

namespace BackEndFacility
namespace LockFreeBuffer

open TaggedRef

/-! ## The pool and its callers -/

/-- The next access of a thread inside `AllocBuffer` or `ReleaseBuffer`, with
the local variables that are live there. -/
inductive Pc where
  | idle
  | allocReadHead
  | allocReadNext (oldHead : ℕ × ℕ)
  | allocCas (oldHead : ℕ × ℕ) (tmp : DoublePointer)
  | allocClearNext (node : ℕ)
  | releaseDrawId (node : ℕ)
  | releaseReadHead (node id : ℕ)
  | releaseWriteNext (node id : ℕ) (oldHead : DoublePointer)
  | releaseCas (node id : ℕ) (oldHead : DoublePointer)
  deriving DecidableEq, Repr

/-- A thread: where it is, and the buffers it holds. -/
structure Caller where
  pc : Pc
  held : List ℕ
  deriving DecidableEq, Repr

structure State where
  head : DoublePointer
  next : ℕ → DoublePointer
  id : ℕ
  callers : ℕ → Caller

inductive Action where
  | allocBuffer (thread : ℕ)
  | releaseBuffer (thread node : ℕ)
  | advance (thread : ℕ)
  deriving DecidableEq, Repr

/-- `InitList`: node `i` is linked to node `i + 1` under the tag `i + 1`. -/
def initList (size : ℕ) : State where
  head := setDoublePointer 0 0
  next := fun node =>
    if node < size - 1 then setDoublePointer (node + 1) (node + 1) else none
  id := size - 1
  callers := fun _ => ⟨.idle, []⟩

def State.setPc (state : State) (thread : ℕ) (pc : Pc) : State :=
  { state with
    callers := Function.update state.callers thread
      ⟨pc, (state.callers thread).held⟩ }

theorem State.setPc_callers (state : State) (thread : ℕ) (pc : Pc) :
    (state.setPc thread pc).callers =
      Function.update state.callers thread
        ⟨pc, (state.callers thread).held⟩ := rfl

/-- The next step of a thread that is inside a call. -/
def State.advance (state : State) (thread : ℕ) : Option State :=
  match (state.callers thread).pc with
  | .idle => none
  | .allocReadHead =>
      match state.head with
      | none => some (state.setPc thread .idle)
      | some oldHead => some (state.setPc thread (.allocReadNext oldHead))
  | .allocReadNext oldHead =>
      some (state.setPc thread (.allocCas oldHead (state.next oldHead.2)))
  | .allocCas oldHead tmp =>
      if state.head = some oldHead then
        some ({ state with head := tmp }.setPc thread
          (.allocClearNext oldHead.2))
      else
        some (state.setPc thread .allocReadHead)
  | .allocClearNext node =>
      some { state with
        next := Function.update state.next node none
        callers := Function.update state.callers thread
          ⟨.idle, node :: (state.callers thread).held⟩ }
  | .releaseDrawId node =>
      some ({ state with id := atomicIncrement state.id }.setPc thread
        (.releaseReadHead node state.id))
  | .releaseReadHead node id =>
      some (state.setPc thread (.releaseWriteNext node id state.head))
  | .releaseWriteNext node id oldHead =>
      some ({ state with
        next := Function.update state.next node oldHead }.setPc thread
          (.releaseCas node id oldHead))
  | .releaseCas node id oldHead =>
      if state.head = oldHead then
        some ({ state with head := setDoublePointer id node }.setPc thread
          .idle)
      else
        some (state.setPc thread (.releaseReadHead node id))

def State.step (state : State) : Action → Option State
  | .allocBuffer thread =>
      match (state.callers thread).pc with
      | .idle => some (state.setPc thread .allocReadHead)
      | _ => none
  | .releaseBuffer thread node =>
      if (state.callers thread).pc = .idle ∧
          node ∈ (state.callers thread).held then
        some { state with
          callers := Function.update state.callers thread
            ⟨.releaseDrawId node, (state.callers thread).held.erase node⟩ }
      else
        none
  | .advance thread => state.advance thread

def machine (size : ℕ) : Machine State Action where
  start := initList size
  step := State.step

/-! ## Conservation -/

/-- The node a call in progress has taken out of the list, or has not put
back yet. -/
def Pc.owned : Pc → Option ℕ
  | .allocClearNext node => some node
  | .releaseDrawId node => some node
  | .releaseReadHead node _ => some node
  | .releaseWriteNext node _ _ => some node
  | .releaseCas node _ _ => some node
  | _ => none

inductive Place where
  | listed
  | held (thread : ℕ)
  | owned (thread : ℕ)
  deriving DecidableEq, Repr

def Located (listed : List ℕ) (callers : ℕ → Caller) :
    Place → ℕ → Prop
  | .listed, node => node ∈ listed
  | .held thread, node => node ∈ (callers thread).held
  | .owned thread, node => (callers thread).pc.owned = some node

/-- The list from `head_` is a proper list of buffers, no caller holds a
buffer twice, and every buffer is in exactly one place. -/
structure State.Conserved (size : ℕ) (state : State) : Prop where
  placed : ∃ cells, Linked state.next state.head cells ∧
    (cells.map Prod.snd).Nodup ∧
    (∀ node ∈ cells.map Prod.snd, node < size) ∧
    ∀ node < size,
      ∃! place, Located (cells.map Prod.snd) state.callers place node
  heldOnce : ∀ thread, (state.callers thread).held.Nodup

/-- The tag counter does not wrap at this step. -/
def NoWrap (state : State) : Action → Prop
  | .advance thread =>
      ∀ node, (state.callers thread).pc = .releaseDrawId node →
        state.id + 1 < 2 ^ 64
  | _ => True

/-- The release which draws the tag `size_ - 1` is not one of the last
buffer, unless the pool has no other. -/
def FirstTagNotLast (size : ℕ) (state : State) : Action → Prop
  | .advance thread =>
      ∀ node, (state.callers thread).pc = .releaseDrawId node →
        state.id + 1 < 2 ^ 64 ∧
          (size = 1 ∨ (state.id, node) ≠ (size - 1, size - 1))
  | _ => True

/-- The old head that `AllocBuffer` works with. -/
def Pc.snapshot : Pc → Option (ℕ × ℕ)
  | .allocReadNext oldHead => some oldHead
  | .allocCas oldHead _ => some oldHead
  | _ => none

/-- The release which draws the tag `size_ - 1` is not one of the last buffer, or else no
`AllocBuffer` has this buffer under this tag for its old head; unless the pool has no other
buffer. -/
def FirstTagUnseen (size : ℕ) (state : State) : Action → Prop
  | .advance thread =>
      ∀ node, (state.callers thread).pc = .releaseDrawId node →
        state.id + 1 < 2 ^ 64 ∧
          (size = 1 ∨ (state.id, node) ≠ (size - 1, size - 1) ∨
            ∀ other, (state.callers other).pc.snapshot ≠ some (state.id, node))
  | _ => True

theorem FirstTagNotLast.unseen {size : ℕ} {state : State} {action : Action}
    (hcondition : FirstTagNotLast size state action) : FirstTagUnseen size state action := by
  cases action with
  | advance thread =>
      intro node hpc
      obtain ⟨hwrap, hfresh⟩ := hcondition node hpc
      exact ⟨hwrap, hfresh.imp_right .inl⟩
  | allocBuffer thread => trivial
  | releaseBuffer thread node => trivial

instance decidableDrawing (Drawn : ℕ → Prop) [DecidablePred Drawn] :
    ∀ pc : Pc, Decidable (∀ node, pc = .releaseDrawId node → Drawn node)
  | .releaseDrawId node =>
      decidable_of_iff (Drawn node)
        ⟨fun hdrawn _ hsame => Pc.releaseDrawId.inj hsame ▸ hdrawn, fun hall => hall node rfl⟩
  | .idle => isTrue nofun
  | .allocReadHead => isTrue nofun
  | .allocReadNext _ => isTrue nofun
  | .allocCas _ _ => isTrue nofun
  | .allocClearNext _ => isTrue nofun
  | .releaseReadHead _ _ => isTrue nofun
  | .releaseWriteNext _ _ _ => isTrue nofun
  | .releaseCas _ _ _ => isTrue nofun

instance decidableNoWrap (state : State) : ∀ action, Decidable (NoWrap state action)
  | .advance thread =>
      decidableDrawing (fun _ => state.id + 1 < 2 ^ 64) (state.callers thread).pc
  | .allocBuffer _ => isTrue trivial
  | .releaseBuffer _ _ => isTrue trivial

instance decidableFirstTagNotLast (size : ℕ) (state : State) :
    ∀ action, Decidable (FirstTagNotLast size state action)
  | .advance thread =>
      decidableDrawing
        (fun node => state.id + 1 < 2 ^ 64 ∧
          (size = 1 ∨ (state.id, node) ≠ (size - 1, size - 1)))
        (state.callers thread).pc
  | .allocBuffer _ => isTrue trivial
  | .releaseBuffer _ _ => isTrue trivial

/-! ## The invariant -/

def Pc.view : Pc → FreeListView ℕ
  | .allocReadNext oldHead => ⟨some oldHead, none, none⟩
  | .allocCas oldHead tmp => ⟨some oldHead, some tmp, none⟩
  | .releaseReadHead node id => ⟨none, none, some (id, node)⟩
  | .releaseWriteNext node id _ => ⟨none, none, some (id, node)⟩
  | .releaseCas node id _ => ⟨none, none, some (id, node)⟩
  | _ => .idle

theorem Pc.view_seen (pc : Pc) : pc.view.seen = pc.snapshot := by
  cases pc <;> rfl

def views (callers : ℕ → Caller) (thread : ℕ) : FreeListView ℕ :=
  (callers thread).pc.view

@[simp] theorem views_update (callers : ℕ → Caller) (thread : ℕ)
    (caller : Caller) :
    views (Function.update callers thread caller) =
      Function.update (views callers) thread caller.pc.view := by
  funext other
  by_cases heq : other = thread
  · subst heq
    simp [views]
  · simp [views, Function.update, heq]

/-- What one thread may rely on between its own steps. -/
structure Caller.Sound (size : ℕ) (next : ℕ → DoublePointer)
    (caller : Caller) : Prop where
  heldOnce : caller.held.Nodup
  stored : ∀ node id oldHead, caller.pc = .releaseCas node id oldHead →
    next node = oldHead
  loneHead : ∀ node id oldHead, size = 1 →
    caller.pc = .releaseWriteNext node id oldHead → oldHead = none

/-- The inductive invariant, with the list from `head_` and the place of
every buffer made explicit. -/
structure State.Invariant (size : ℕ) (cells : List (ℕ × ℕ))
    (place : ℕ → Place) (state : State) : Prop where
  tags : FreeListInvariant (size = 1) (size - 1, size - 1) state.next
    state.head state.id (views state.callers) cells
  located : Placed (· < size)
    (Located (cells.map Prod.snd) state.callers) place
  sound : ∀ thread, (state.callers thread).Sound size state.next

theorem State.Invariant.conserved {size : ℕ} {cells : List (ℕ × ℕ)}
    {place : ℕ → Place} {state : State}
    (hinv : state.Invariant size cells place) : state.Conserved size := by
  constructor
  · refine ⟨cells, hinv.tags.linked, hinv.tags.nodup, ?_, ?_⟩
    · intro node hnode
      exact hinv.located.valid (show Located _ _ .listed node from hnode)
    · intro node hnode
      exact hinv.located.existsUnique hnode
  · intro thread
    exact (hinv.sound thread).heldOnce

/-! ## Nodes move from place to place -/

section Moves

@[simp] theorem located_listed (listed : List ℕ) (callers : ℕ → Caller)
    (node : ℕ) : Located listed callers .listed node ↔ node ∈ listed :=
  Iff.rfl

@[simp] theorem located_held_update (listed : List ℕ)
    (callers : ℕ → Caller) (thread other node : ℕ) (caller : Caller) :
    Located listed (Function.update callers thread caller)
        (.held other) node ↔
      if other = thread then node ∈ caller.held
      else node ∈ (callers other).held := by
  by_cases heq : other = thread
  · subst heq
    simp [Located]
  · simp [Located, Function.update, heq]

@[simp] theorem located_owned_update (listed : List ℕ)
    (callers : ℕ → Caller) (thread other node : ℕ) (caller : Caller) :
    Located listed (Function.update callers thread caller)
        (.owned other) node ↔
      if other = thread then caller.pc.owned = some node
      else (callers other).pc.owned = some node := by
  by_cases heq : other = thread
  · subst heq
    simp [Located]
  · simp [Located, Function.update, heq]

variable {size : ℕ} {listed : List ℕ} {callers : ℕ → Caller}
  {place : ℕ → Place}

/-- A step which changes neither what a thread owns nor what it holds moves
no node. -/
theorem located_stay
    (hlocated : Placed (· < size) (Located listed callers) place)
    {thread : ℕ} {caller : Caller}
    (howned : caller.pc.owned = (callers thread).pc.owned)
    (hheld : caller.held = (callers thread).held) :
    Placed (· < size)
      (Located listed (Function.update callers thread caller)) place := by
  apply hlocated.congr
  intro node spot
  cases spot with
  | listed => exact Iff.rfl
  | held other =>
      rw [located_held_update]
      split
      next heq => rw [hheld, heq]; rfl
      next => rfl
  | owned other =>
      rw [located_owned_update]
      split
      next heq => rw [howned, heq]; rfl
      next => rfl

end Moves

/-! ## One lemma for each kind of step -/

theorem Pc.owned_of_drawn {pc : Pc} {cell : ℕ × ℕ}
    (hdrawn : pc.view.drawn = some cell) : pc.owned = some cell.2 := by
  cases pc <;> simp [Pc.view, Pc.owned, FreeListView.idle] at hdrawn ⊢ <;>
    simp [← hdrawn]

namespace State.Invariant

variable {size : ℕ} {cells : List (ℕ × ℕ)} {place : ℕ → Place}
  {state : State}

theorem owned_not_listed (hinv : state.Invariant size cells place)
    {thread node : ℕ} (howned : (state.callers thread).pc.owned = some node) :
    node ∉ cells.map Prod.snd := by
  intro hmem
  have hlisted : Located (cells.map Prod.snd) state.callers .listed node :=
    hmem
  cases hinv.located.unique hlisted
    (show Located _ _ (.owned thread) node from howned)

theorem owner_unique (hinv : state.Invariant size cells place)
    {first second node : ℕ}
    (hfirst : (state.callers first).pc.owned = some node)
    (hsecond : (state.callers second).pc.owned = some node) :
    first = second := by
  have hplaces := hinv.located.unique
    (show Located _ _ (.owned first) node from hfirst)
    (show Located _ _ (.owned second) node from hsecond)
  simpa using hplaces

theorem lone_head (hinv : state.Invariant size cells place)
    (hsize : size = 1) {thread node : ℕ}
    (howned : (state.callers thread).pc.owned = some node) :
    state.head = none := by
  have hnone : cells = [] := by
    rw [List.eq_nil_iff_forall_not_mem]
    intro cell hcell
    have hmem : cell.2 ∈ cells.map Prod.snd :=
      List.mem_map.mpr ⟨cell, hcell, rfl⟩
    have hlt := hinv.located.valid
      (show Located _ _ .listed cell.2 from hmem)
    have hnode := hinv.located.valid
      (show Located _ _ (.owned thread) node from howned)
    have heq : cell.2 = node := by omega
    exact hinv.owned_not_listed howned (heq ▸ hmem)
  have hlinked := hinv.tags.linked
  rw [hnone] at hlinked
  exact hlinked

/-- A step that only moves the program counter. -/
theorem setPc (hinv : state.Invariant size cells place)
    {thread : ℕ} {pc : Pc}
    (howned : pc.owned = (state.callers thread).pc.owned)
    (htags : FreeListInvariant (size = 1) (size - 1, size - 1) state.next
      state.head state.id
      (Function.update (views state.callers) thread pc.view) cells)
    (hsound : Caller.Sound size state.next
      ⟨pc, (state.callers thread).held⟩) :
    (state.setPc thread pc).Invariant size cells place := by
  constructor
  · simpa [State.setPc] using htags
  · exact located_stay hinv.located howned rfl
  · exact (Function.forall_update_iff state.callers
      fun _ caller => caller.Sound size state.next).mpr
        ⟨hsound, fun other _ => hinv.sound other⟩

theorem allocCas_success (hinv : state.Invariant size cells place)
    {thread : ℕ} {oldHead : ℕ × ℕ} {tmp : DoublePointer}
    (hpc : (state.callers thread).pc = .allocCas oldHead tmp)
    (hhead : state.head = some oldHead) :
    ∃ rest, ({ state with head := tmp }.setPc thread
      (.allocClearNext oldHead.2)).Invariant size rest
        (Function.update place oldHead.2 (.owned thread)) := by
  have hseen : (views state.callers thread).seen = some oldHead := by
    simp [views, hpc, Pc.view]
  have hlink : (views state.callers thread).link = some tmp := by
    simp [views, hpc, Pc.view]
  obtain ⟨rest, hcells, htags⟩ := hinv.tags.pop hseen hlink hhead
  have hnodup := hinv.tags.nodup
  rw [hcells, List.map_cons, List.nodup_cons] at hnodup
  refine ⟨rest, ?_, ?_, ?_⟩
  · simpa [State.setPc, Pc.view] using htags
  · rw [State.setPc_callers]
    apply hinv.located.move .listed
    · simp [hcells]
    · intro spot
      cases spot with
      | listed => simpa using hnodup.1
      | held other =>
          rw [located_held_update]
          split <;> simp_all [Located]
      | owned other =>
          rw [located_owned_update]
          split <;> simp_all [Located, Pc.owned]
    · intro node spot hne
      cases spot with
      | listed => simp [hcells, hne]
      | held other =>
          rw [located_held_update]
          split <;> simp_all [Located]
      | owned other =>
          rw [located_owned_update]
          split <;> simp_all [Located, Pc.owned, hne.symm]
  · refine (Function.forall_update_iff state.callers
      fun _ caller => caller.Sound size state.next).mpr
        ⟨⟨(hinv.sound thread).heldOnce, ?_, ?_⟩,
          fun other _ => hinv.sound other⟩ <;>
      simp

/-- Other threads do not notice a write to a node they do not own. -/
theorem sound_write (hinv : state.Invariant size cells place)
    {thread node : ℕ} (howned : (state.callers thread).pc.owned = some node)
    (value : DoublePointer) {other : ℕ} (hother : other ≠ thread) :
    (state.callers other).Sound size
      (Function.update state.next node value) := by
  refine ⟨(hinv.sound other).heldOnce, ?_, (hinv.sound other).loneHead⟩
  intro written id oldHead hpc
  have hne : written ≠ node := by
    intro heq
    subst heq
    have hwritten : (state.callers other).pc.owned = some written := by
      simp [hpc, Pc.owned]
    exact hother (hinv.owner_unique hwritten howned)
  simpa [Function.update, hne] using
    (hinv.sound other).stored written id oldHead hpc

theorem allocClearNext (hinv : state.Invariant size cells place)
    {thread node : ℕ}
    (hpc : (state.callers thread).pc = .allocClearNext node) :
    State.Invariant size cells (Function.update place node (.held thread))
      { state with
        next := Function.update state.next node none
        callers := Function.update state.callers thread
          ⟨.idle, node :: (state.callers thread).held⟩ } := by
  have howned : (state.callers thread).pc.owned = some node := by
    simp [hpc, Pc.owned]
  have hnotHeld : node ∉ (state.callers thread).held := by
    intro hmem
    cases hinv.located.unique
      (show Located _ _ (.held thread) node from hmem)
      (show Located _ _ (.owned thread) node from howned)
  constructor
  · have hwritten := hinv.tags.write (hinv.owned_not_listed howned) none
      (fun _ => rfl)
    simpa [Pc.view] using hwritten.forget thread
  · apply hinv.located.move (.owned thread) howned
    · intro spot
      cases spot with
      | listed => simp
      | held other =>
          rw [located_held_update]
          split <;> simp_all [Located]
      | owned other =>
          rw [located_owned_update]
          split <;> simp_all [Located, Pc.owned]
    · intro moved spot hne
      cases spot with
      | listed => simp
      | held other =>
          rw [located_held_update]
          split <;> simp_all [Located]
      | owned other =>
          rw [located_owned_update]
          split <;> simp_all [Located, Pc.owned, hne.symm]
  · refine (Function.forall_update_iff state.callers
      fun _ caller => caller.Sound size _).mpr ⟨⟨?_, ?_, ?_⟩, ?_⟩
    · exact List.nodup_cons.mpr ⟨hnotHeld, (hinv.sound thread).heldOnce⟩
    · simp
    · simp
    · intro other hother
      exact hinv.sound_write howned none hother

theorem releaseBuffer (hinv : state.Invariant size cells place)
    {thread node : ℕ} (hpc : (state.callers thread).pc = .idle)
    (hheld : node ∈ (state.callers thread).held) :
    State.Invariant size cells (Function.update place node (.owned thread))
      { state with
        callers := Function.update state.callers thread
          ⟨.releaseDrawId node, (state.callers thread).held.erase node⟩ } := by
  have honce := (hinv.sound thread).heldOnce
  constructor
  · simpa [Pc.view] using hinv.tags.forget thread
  · apply hinv.located.move (.held thread) hheld
    · intro spot
      cases spot with
      | listed => simp
      | held other =>
          rw [located_held_update]
          split
          next heq => simp [heq, honce.not_mem_erase]
          next hne => simp [Located, hne]
      | owned other =>
          rw [located_owned_update]
          split <;> simp_all [Located, Pc.owned]
    · intro moved spot hne
      cases spot with
      | listed => simp
      | held other =>
          rw [located_held_update]
          split
          next heq => rw [List.mem_erase_of_ne hne, heq]; rfl
          next => rfl
      | owned other =>
          rw [located_owned_update]
          split <;> simp_all [Located, Pc.owned, hne.symm]
  · refine (Function.forall_update_iff state.callers
      fun _ caller => caller.Sound size state.next).mpr
        ⟨⟨honce.erase node, ?_, ?_⟩, fun other _ => hinv.sound other⟩ <;>
      simp

theorem releaseDrawId (hinv : state.Invariant size cells place)
    {thread node : ℕ}
    (hpc : (state.callers thread).pc = .releaseDrawId node)
    (hwrap : state.id + 1 < 2 ^ 64)
    (hfresh : size = 1 ∨ (state.id, node) ≠ (size - 1, size - 1) ∨
      ∀ other, (state.callers other).pc.snapshot ≠ some (state.id, node)) :
    State.Invariant size cells place
      ({ state with id := atomicIncrement state.id }.setPc thread
        (.releaseReadHead node state.id)) := by
  have howned : (state.callers thread).pc.owned = some node := by
    simp [hpc, Pc.owned]
  constructor
  · have hunseen : size = 1 ∨ ∀ other,
        (views state.callers other).seen ≠ some (state.id, node) := by
      refine hfresh.imp_right fun hcell => ?_
      rcases hcell with hne | hunseen
      · exact hinv.tags.unseen_of_ne_last hne
      · intro other
        rw [views, Pc.view_seen]
        exact hunseen other
    have hdrawn := hinv.tags.draw thread (hinv.owned_not_listed howned) hunseen
    simpa [State.setPc, Pc.view, atomicIncrement_of_lt hwrap] using hdrawn
  · exact located_stay hinv.located (by simp [hpc, Pc.owned]) rfl
  · refine (Function.forall_update_iff state.callers
      fun _ caller => caller.Sound size state.next).mpr
        ⟨⟨(hinv.sound thread).heldOnce, ?_, ?_⟩,
          fun other _ => hinv.sound other⟩ <;>
      simp

theorem releaseWriteNext (hinv : state.Invariant size cells place)
    {thread node id : ℕ} {oldHead : DoublePointer}
    (hpc : (state.callers thread).pc =
      .releaseWriteNext node id oldHead) :
    State.Invariant size cells place
      ({ state with
        next := Function.update state.next node oldHead }.setPc thread
          (.releaseCas node id oldHead)) := by
  have howned : (state.callers thread).pc.owned = some node := by
    simp [hpc, Pc.owned]
  constructor
  · have hwritten := hinv.tags.write (hinv.owned_not_listed howned) oldHead
      (fun hsize => (hinv.sound thread).loneHead node id oldHead hsize hpc)
    have hkept := hwritten.keep thread (Pc.releaseCas node id oldHead).view
      (by simp [views, hpc, Pc.view])
    simpa [State.setPc] using hkept
  · exact located_stay hinv.located (by simp [hpc, Pc.owned]) rfl
  · refine (Function.forall_update_iff state.callers
      fun _ caller => caller.Sound size _).mpr
        ⟨⟨(hinv.sound thread).heldOnce, ?_, ?_⟩, ?_⟩
    · intro written tag old hwritten
      cases hwritten
      exact Function.update_self ..
    · simp
    · intro other hother
      exact hinv.sound_write howned oldHead hother

theorem releaseCas_success (hinv : state.Invariant size cells place)
    {thread node id : ℕ} {oldHead : DoublePointer}
    (hpc : (state.callers thread).pc = .releaseCas node id oldHead)
    (hhead : state.head = oldHead) :
    State.Invariant size ((id, node) :: cells)
      (Function.update place node .listed)
      ({ state with head := setDoublePointer id node }.setPc thread
        .idle) := by
  have howned : (state.callers thread).pc.owned = some node := by
    simp [hpc, Pc.owned]
  have hnotListed := hinv.owned_not_listed howned
  constructor
  · have hdrawn : (views state.callers thread).drawn = some (id, node) := by
      simp [views, hpc, Pc.view]
    have hnext : state.next node = state.head := by
      rw [hhead]
      exact (hinv.sound thread).stored node id oldHead hpc
    have hpushed := hinv.tags.push hdrawn hnext (by
      intro other drawn hother hotherDrawn heq
      have hotherOwned := Pc.owned_of_drawn hotherDrawn
      rw [heq] at hotherOwned
      exact hother (hinv.owner_unique hotherOwned howned))
    simpa [State.setPc, Pc.view, setDoublePointer] using hpushed
  · rw [State.setPc_callers]
    apply hinv.located.move (.owned thread) howned
    · intro spot
      cases spot with
      | listed => simp
      | held other =>
          rw [located_held_update]
          split <;> simp_all [Located]
      | owned other =>
          rw [located_owned_update]
          split <;> simp_all [Located, Pc.owned]
    · intro moved spot hne
      cases spot with
      | listed => simp [hne]
      | held other =>
          rw [located_held_update]
          split <;> simp_all [Located]
      | owned other =>
          rw [located_owned_update]
          split <;> simp_all [Located, Pc.owned, hne.symm]
  · refine (Function.forall_update_iff state.callers
      fun _ caller => caller.Sound size state.next).mpr
        ⟨⟨(hinv.sound thread).heldOnce, ?_, ?_⟩,
          fun other _ => hinv.sound other⟩ <;>
      simp

end State.Invariant

/-! ## Every run -/

theorem initList_linked (size : ℕ) (hsize : 1 ≤ size) :
    Linked (initList size).next (initList size).head
      ((List.range size).map fun node => (node, node)) := by
  have hchain := linked_numbered
    (show (initList size).next (size - 1) = none by simp [initList]) 0
    (Nat.zero_le _)
    (fun node _ hnode => by simp [initList, hnode, setDoublePointer])
  rw [List.range_eq_range']
  have hcount : size - 1 + 1 - 0 = size := by omega
  rw [hcount] at hchain
  exact hchain

theorem initList_invariant (size : ℕ) (hsize : 1 ≤ size) :
    (initList size).Invariant size
      ((List.range size).map fun node => (node, node))
      (fun _ => .listed) := by
  have hviews : ∀ thread, views (initList size).callers thread =
      FreeListView.idle := fun _ => rfl
  constructor
  · apply FreeListInvariant.start hviews
    · exact initList_linked size hsize
    · simpa [Function.comp_def] using List.nodup_range
    · intro cell hcell
      simp only [List.mem_map, List.mem_range] at hcell
      obtain ⟨node, hnode, rfl⟩ := hcell
      by_cases hlast : node = size - 1
      · exact .inr (by rw [hlast])
      · exact .inl (by simp only [initList]; omega)
    · intro hlone node
      simp [initList, hlone]
  · intro node spot
    cases spot <;> simp [Located, initList, Pc.owned, Function.comp_def]
  · intro thread
    constructor <;> simp [initList]

theorem State.Invariant.advance {size : ℕ} {cells : List (ℕ × ℕ)}
    {place : ℕ → Place} {state next : State} {thread : ℕ}
    (hinv : state.Invariant size cells place)
    (hcondition : FirstTagUnseen size state (.advance thread))
    (hstep : state.advance thread = some next) :
    ∃ cells' place', next.Invariant size cells' place' := by
  unfold State.advance at hstep
  cases hpc : (state.callers thread).pc with
  | idle => simp [hpc] at hstep
  | allocReadHead =>
      simp only [hpc] at hstep
      cases hhead : state.head with
      | none =>
          simp only [hhead, Option.some.injEq] at hstep
          subst next
          refine ⟨cells, place, hinv.setPc ?_ (hinv.tags.forget thread) ?_⟩
          · simp [hpc, Pc.owned]
          · exact ⟨(hinv.sound thread).heldOnce, by simp, by simp⟩
      | some oldHead =>
          simp only [hhead, Option.some.injEq] at hstep
          subst next
          have hlisted : oldHead ∈ cells := by
            have hlinked := hinv.tags.linked
            cases cells with
            | nil => simp [hhead] at hlinked
            | cons first rest =>
                simp only [hhead, linked_cons, Option.some.injEq] at hlinked
                simp [hlinked.1]
          refine ⟨cells, place, hinv.setPc ?_
            (hinv.tags.observe thread _ ?_ ?_ ?_ ?_) ?_⟩
          · simp [hpc, Pc.owned]
          · intro cell hcell
            simp only [Pc.view, Option.some.injEq] at hcell
            exact .inl (hcell ▸ hlisted)
          · simp [Pc.view]
          · simp [Pc.view]
          · simp [Pc.view]
          · exact ⟨(hinv.sound thread).heldOnce, by simp, by simp⟩
  | allocReadNext oldHead =>
      simp only [hpc, Option.some.injEq] at hstep
      subst next
      refine ⟨cells, place, hinv.setPc ?_
        (hinv.tags.observe thread _ ?_ ?_ ?_ ?_) ?_⟩
      · simp [hpc, Pc.owned]
      · intro cell hcell
        exact .inr (by simpa [views, hpc, Pc.view] using hcell)
      · intro cell ref hcell href
        simp only [Pc.view, Option.some.injEq] at hcell href
        rw [← hcell, ← href]
      · intro ref href
        simp only [Pc.view, Option.some.injEq] at href
        exact ⟨oldHead.2, href.symm⟩
      · simp [Pc.view]
      · exact ⟨(hinv.sound thread).heldOnce, by simp, by simp⟩
  | allocCas oldHead tmp =>
      simp only [hpc] at hstep
      by_cases hhead : state.head = some oldHead
      · rw [if_pos hhead, Option.some.injEq] at hstep
        subst next
        obtain ⟨rest, hrest⟩ := hinv.allocCas_success hpc hhead
        exact ⟨rest, _, hrest⟩
      · rw [if_neg hhead, Option.some.injEq] at hstep
        subst next
        refine ⟨cells, place, hinv.setPc ?_ (hinv.tags.forget thread) ?_⟩
        · simp [hpc, Pc.owned]
        · exact ⟨(hinv.sound thread).heldOnce, by simp, by simp⟩
  | allocClearNext node =>
      simp only [hpc, Option.some.injEq] at hstep
      subst next
      exact ⟨cells, _, hinv.allocClearNext hpc⟩
  | releaseDrawId node =>
      simp only [hpc, Option.some.injEq] at hstep
      subst next
      obtain ⟨hwrap, hfresh⟩ := hcondition node hpc
      exact ⟨cells, place, hinv.releaseDrawId hpc hwrap hfresh⟩
  | releaseReadHead node id =>
      simp only [hpc, Option.some.injEq] at hstep
      subst next
      refine ⟨cells, place, hinv.setPc ?_ (hinv.tags.keep thread _ ?_) ?_⟩
      · simp [hpc, Pc.owned]
      · simp [views, hpc, Pc.view]
      · refine ⟨(hinv.sound thread).heldOnce, by simp, ?_⟩
        intro written tag oldHead hsize hwritten
        cases hwritten
        have howned : (state.callers thread).pc.owned = some node := by
          simp [hpc, Pc.owned]
        exact hinv.lone_head hsize howned
  | releaseWriteNext node id oldHead =>
      simp only [hpc, Option.some.injEq] at hstep
      subst next
      exact ⟨cells, place, hinv.releaseWriteNext hpc⟩
  | releaseCas node id oldHead =>
      simp only [hpc] at hstep
      by_cases hhead : state.head = oldHead
      · rw [if_pos hhead, Option.some.injEq] at hstep
        subst next
        exact ⟨_, _, hinv.releaseCas_success hpc hhead⟩
      · rw [if_neg hhead, Option.some.injEq] at hstep
        subst next
        refine ⟨cells, place, hinv.setPc ?_ (hinv.tags.keep thread _ ?_) ?_⟩
        · simp [hpc, Pc.owned]
        · simp [views, hpc, Pc.view]
        · exact ⟨(hinv.sound thread).heldOnce, by simp, by simp⟩

theorem State.Invariant.step {size : ℕ} {cells : List (ℕ × ℕ)}
    {place : ℕ → Place} {state next : State} {action : Action}
    (hinv : state.Invariant size cells place)
    (hcondition : FirstTagUnseen size state action)
    (hstep : state.step action = some next) :
    ∃ cells' place', next.Invariant size cells' place' := by
  cases action with
  | allocBuffer thread =>
      cases hpc : (state.callers thread).pc with
      | idle =>
          simp only [State.step, hpc, Option.some.injEq] at hstep
          subst next
          refine ⟨cells, place, hinv.setPc ?_ (hinv.tags.forget thread) ?_⟩
          · simp [hpc, Pc.owned]
          · exact ⟨(hinv.sound thread).heldOnce, by simp, by simp⟩
      | _ => simp [State.step, hpc] at hstep
  | releaseBuffer thread node =>
      by_cases hcall : (state.callers thread).pc = .idle ∧
          node ∈ (state.callers thread).held
      · simp only [State.step, if_pos hcall, Option.some.injEq] at hstep
        subst next
        exact ⟨cells, _, hinv.releaseBuffer hcall.1 hcall.2⟩
      · simp [State.step, hcall] at hstep
  | advance thread => exact hinv.advance hcondition hstep

/-- Buffers are conserved in every run in which the first tag of the counter is not drawn
for the last buffer while an `AllocBuffer` still has it for its old head. -/
theorem conserved_of_firstTagUnseen (size : ℕ) (hsize : 1 ≤ size)
    {state : State}
    (hreached : (machine size).ReachedBy (FirstTagUnseen size) state) :
    state.Conserved size := by
  have hinv : ∃ cells place, state.Invariant size cells place := by
    refine hreached.invariant
      (fun state => ∃ cells place, state.Invariant size cells place)
      ⟨_, _, initList_invariant size hsize⟩ ?_
    rintro state action next ⟨cells, place, hstate⟩ hcondition hstep
    exact hstate.step hcondition hstep
  obtain ⟨cells, place, hstate⟩ := hinv
  exact hstate.conserved

/-- Thread 0 takes both buffers, thread 1 finds none; then thread 0 releases the last one. -/
def bothTaken : List Action :=
  [.allocBuffer 0, .advance 0, .advance 0, .advance 0, .advance 0,
    .allocBuffer 0, .advance 0, .advance 0, .advance 0, .advance 0,
    .allocBuffer 1, .advance 1, .releaseBuffer 0 1]

/-- The release draws the tag that the last buffer had from the start, and goes on to its
end. -/
theorem conserved_lastTagUnseen :
    ∃ before after, (machine 2).run bothTaken = some before ∧
      (before.callers 0).pc = .releaseDrawId 1 ∧ before.id = 1 ∧
      (machine 2).runFrom before (List.replicate 4 (.advance 0)) = some after ∧
      after.head = some (1, 1) ∧ after.Conserved 2 := by
  have hrun : ∃ before drawn after, (machine 2).run bothTaken = some before ∧
      (before.callers 0).pc = .releaseDrawId 1 ∧ before.id = 1 ∧
      (∀ other, (before.callers other).pc.snapshot = none) ∧
      (machine 2).step before (.advance 0) = some drawn ∧
      (machine 2).Admits (FirstTagNotLast 2) drawn (List.replicate 3 (.advance 0)) ∧
      (machine 2).runFrom drawn (List.replicate 3 (.advance 0)) = some after ∧
      after.head = some (1, 1) := by
    refine ⟨_, _, _, rfl, rfl, rfl, ?_, rfl, by decide +kernel, rfl, rfl⟩
    intro other
    match other with
    | 0 => rfl
    | 1 => rfl
    | _ + 2 => rfl
  obtain ⟨before, drawn, after, hbefore, hpc, hid, hnone, hdraw, hrest, hafter, hhead⟩ := hrun
  have hunseen : FirstTagUnseen 2 before (.advance 0) := by
    intro node _
    refine ⟨by rw [hid]; decide, .inr (.inr fun other => ?_)⟩
    rw [hnone other]
    exact (Option.some_ne_none _).symm
  have hadmits : (machine 2).Admits (FirstTagNotLast 2) (machine 2).start bothTaken := by
    decide +kernel
  have hfirst : (machine 2).ReachedBy (FirstTagUnseen 2) before :=
    .runFrom .start (hadmits.mono fun _ _ hcondition => hcondition.unseen) hbefore
  have hreached : (machine 2).ReachedBy (FirstTagUnseen 2) after :=
    .runFrom (.step hfirst hunseen hdraw)
      (hrest.mono fun _ _ hcondition => hcondition.unseen) hafter
  refine ⟨before, after, hbefore, hpc, hid, ?_, hhead,
    conserved_of_firstTagUnseen 2 (by decide) hreached⟩
  rw [List.replicate_succ, Machine.runFrom, hdraw]
  exact hafter

/-! ## The tag that is handed out twice -/

/-- Thread 1 sees the last node under its initial tag and is delayed; thread
2 takes that node and draws the same tag for its release; thread 0 releases
the other node in between. -/
def lastTagReused : List Action :=
  [.allocBuffer 0, .advance 0, .advance 0, .advance 0, .advance 0,
    .allocBuffer 1, .advance 1, .advance 1,
    .allocBuffer 2, .advance 2, .advance 2, .advance 2, .advance 2,
    .releaseBuffer 2 1, .advance 2,
    .releaseBuffer 0 0, .advance 0, .advance 0, .advance 0, .advance 0,
    .advance 2, .advance 2, .advance 2,
    .advance 1]

theorem not_conserved_lastTagReused :
    ¬ ∀ size, 1 ≤ size → ∀ state : State,
      (machine size).ReachedBy NoWrap state → state.Conserved size := by
  intro hall
  have hreached : ∀ state, (machine 2).run lastTagReused = some state →
      (machine 2).ReachedBy NoWrap state := by
    intro state hrun
    exact Machine.ReachedBy.runFrom .start (by decide +kernel) hrun
  have hlost : ∃ state, (machine 2).run lastTagReused = some state ∧
      state.head = none ∧ ∀ thread, 0 ∉ (state.callers thread).held ∧
        (state.callers thread).pc.owned ≠ some 0 := by
    refine ⟨_, rfl, rfl, ?_⟩
    intro thread
    match thread with
    | 0 => decide
    | 1 => decide
    | 2 => decide
    | _ + 3 => exact ⟨List.not_mem_nil, Option.some_ne_none 0 |>.symm⟩
  obtain ⟨state, hrun, hhead, hcallers⟩ := hlost
  obtain ⟨cells, hlinked, -, -, hplaced⟩ :=
    (hall 2 (by decide) state (hreached state hrun)).placed
  obtain ⟨spot, hspot, -⟩ := hplaced 0 (by decide)
  cases cells with
  | cons cell rest => simp [hhead] at hlinked
  | nil =>
      cases spot with
      | listed => simp at hspot
      | held thread => exact (hcallers thread).1 hspot
      | owned thread => exact (hcallers thread).2 hspot

end LockFreeBuffer
end BackEndFacility
