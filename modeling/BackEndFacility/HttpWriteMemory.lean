import BackEndFacility.HttpReuse
import BackEndFacility.SuccessorChain
import Mathlib.Data.List.GetD

/-!
# Write buffers in memory

A write buffer has one link field.  It chains the buffers of `pendingWrite_` while they
wait to be sent, and those of a free list while they are in the pool.  What the lists of
`HttpWriteBuffer` and `HttpClient::pendingWrite_` say about these chains is
`Represents`, and every operation on the memory is the one on the lists.
-/

namespace BackEndFacility

/-- An `HttpBuffer`; `curPtr` is an offset from `memory_`. -/
structure BufferNode where
  size : Nat
  curSize : Nat
  curPtr : Nat
  next : Option Nat
  memory : Bytes

/-- The bytes that `SendBuffer` would be given. -/
def BufferNode.content (node : BufferNode) : Bytes :=
  slice node.memory node.curPtr (node.curPtr + node.curSize)

/-- The buffers that were allocated, the queue `pendingWrite_` and the pool. -/
structure WriteMemory where
  size : Nat
  numSlot : Nat
  freeBuffer : List (Option Nat)
  head : Option Nat
  tail : Option Nat
  node : Nat → BufferNode
  allocated : Nat

namespace WriteMemory

def next (mem : WriteMemory) (buf : Nat) : Option Nat :=
  (mem.node buf).next

def setNode (mem : WriteMemory) (buf : Nat) (node : BufferNode) : WriteMemory :=
  { mem with node := Function.update mem.node buf node }

/-- `AllocHttpBuffer`: the memory it gets may hold anything. -/
def allocHttpBuffer (mem : WriteMemory) (memory : Bytes) (sz : Nat) : Nat × WriteMemory :=
  (mem.allocated, { mem.setNode mem.allocated
    { size := sz, curSize := 0, curPtr := 0, next := none, memory := memory } with
    allocated := mem.allocated + 1 })

/-! ## The queue -/

def popFront (mem : WriteMemory) : Option Nat × WriteMemory :=
  let popped :=
    match mem.head with
    | none => mem
    | some buf => { mem with head := mem.next buf }
  (mem.head, if popped.head = none then { popped with tail := none } else popped)

def pushBack (mem : WriteMemory) (buf : Nat) : WriteMemory :=
  let linked :=
    match mem.tail with
    | none => mem
    | some last => mem.setNode last { mem.node last with next := some buf }
  let headed := if linked.head = none then { linked with head := some buf } else linked
  { headed with tail := some buf }

/-! ## The pool -/

def slotIndex (mem : WriteMemory) (sz : Nat) : Nat :=
  let mod := sz % mem.size
  let mod := if 0 < mod then mem.size - mod else 0
  (sz + mod) / mem.size - 1

def allocWriteBuffer (mem : WriteMemory) (memory : Bytes) (sz : Int) :
    Option (Nat × WriteMemory) :=
  if sz ≤ 0 ∨ mem.numSlot * mem.size < sz then none
  else
    let index := mem.slotIndex sz.toNat
    match mem.freeBuffer.getD index none with
    | none => some (mem.allocHttpBuffer memory ((index + 1) * mem.size))
    | some entity =>
        some (entity,
          { mem with freeBuffer := mem.freeBuffer.set index (mem.next entity) }.setNode entity
            { mem.node entity with next := none, curPtr := 0, curSize := 0 })

def releaseWriteBuffer (mem : WriteMemory) (buf : Nat) : WriteMemory :=
  let index := mem.slotIndex (mem.node buf).size
  { mem with freeBuffer := mem.freeBuffer.set index (some buf) }.setNode buf
    { mem.node buf with
      next := mem.freeBuffer.getD index none
      curPtr := 0
      curSize := 0 }

/-- `InitBuffer` with this many buffers still to allocate. -/
def initBuffer (garbage : Nat → Bytes) : Nat → WriteMemory → WriteMemory
  | 0, mem => mem
  | count + 1, mem =>
      match mem.allocHttpBuffer (garbage mem.allocated) mem.size with
      | (entity, grown) =>
          initBuffer garbage count
            ({ grown with freeBuffer := grown.freeBuffer.set 0 (some entity) }.setNode entity
              { grown.node entity with next := grown.freeBuffer.getD 0 none })

/-- The members of a new client. -/
def construct (garbage : Nat → Bytes) : WriteMemory :=
  initBuffer garbage 8
    { size := 1024
      numSlot := 8
      freeBuffer := List.replicate 8 none
      head := none
      tail := none
      node := fun _ => { size := 0, curSize := 0, curPtr := 0, next := none, memory := [] }
      allocated := 0 }

/-! ## Contents -/

/-- `buf->curSize_ = response_.GenerateResponse(buf->curPtr_, buf->size_)` -/
def fill (mem : WriteMemory) (buf : Nat) (data : Bytes) : WriteMemory :=
  mem.setNode buf
    { mem.node buf with
      memory := overwrite (mem.node buf).memory (mem.node buf).curPtr data
      curSize := data.length }

/-- The bytes that were accepted are left behind. -/
def advance (mem : WriteMemory) (buf : Nat) (sz : Nat) : WriteMemory :=
  mem.setNode buf
    { mem.node buf with
      curPtr := (mem.node buf).curPtr + sz
      curSize := (mem.node buf).curSize - sz }

/-! ## The lists behind the links -/

/-- Buffers stay where they are in the lists, wherever they are in memory: each one that
was allocated is waiting, held by the client or in a free list, and only once. -/
structure Represents (mem : WriteMemory) (pool : HttpWriteBuffer)
    (pending held : List HttpBuffer) : Prop where
  sound : pool.Sound
  size : mem.size = pool.size
  numSlot : mem.numSlot = pool.numSlot
  allocated : mem.allocated = pool.allocated
  queue : Chained mem.next mem.head (pending.map HttpBuffer.id)
  tail : mem.tail = (pending.map HttpBuffer.id).getLast?
  slotCount : mem.freeBuffer.length = 8
  slots : ∀ index, Chained mem.next (mem.freeBuffer.getD index none)
    ((pool.freeBuffer.getD index []).map HttpBuffer.id)
  once : ((pending ++ held ++ pool.freeBuffer.flatten).map HttpBuffer.id).Perm
    (List.range mem.allocated)
  sizes : ∀ buffer ∈ pending ++ held ++ pool.freeBuffer.flatten,
    (mem.node buffer.id).size = buffer.size
  sized : ∀ buffer ∈ pending ++ held, buffer.Sized
  content : ∀ buffer ∈ pending ++ held, (mem.node buffer.id).content = buffer.data ∧
    (mem.node buffer.id).curSize = buffer.data.length

theorem next_setNode (mem : WriteMemory) (buf : Nat) (node : BufferNode) :
    (mem.setNode buf node).next = Function.update mem.next buf node.next := by
  funext other
  by_cases heq : other = buf
  · subst heq
    simp [next, setNode]
  · simp [next, setNode, heq]

theorem node_setNode_of_ne
    {mem : WriteMemory} {buf other : Nat} (node : BufferNode)
    (hne : other ≠ buf) :
    (mem.setNode buf node).node other = mem.node other := by
  unfold setNode
  exact Function.update_of_ne hne _ _

theorem node_setNode_self (mem : WriteMemory) (buf : Nat) (node : BufferNode) :
    (mem.setNode buf node).node buf = node := by
  unfold setNode
  exact Function.update_self _ _ _

namespace Represents

variable {mem : WriteMemory} {pool : HttpWriteBuffer} {pending held : List HttpBuffer}

theorem nodup
    (hrep : mem.Represents pool pending held) :
    ((pending ++ held ++ pool.freeBuffer.flatten).map HttpBuffer.id).Nodup :=
  hrep.once.nodup_iff.mpr List.nodup_range

theorem lt_allocated
    {buffer : HttpBuffer}
    (hrep : mem.Represents pool pending held)
    (hbuffer : buffer ∈ pending ++ held ++ pool.freeBuffer.flatten) :
    buffer.id < mem.allocated :=
  List.mem_range.mp (hrep.once.mem_iff.mp (List.mem_map_of_mem hbuffer))

theorem slotIndex_eq
    (hrep : mem.Represents pool pending held) (sz : Nat) :
    mem.slotIndex sz = pool.slotIndex sz := by
  unfold WriteMemory.slotIndex HttpWriteBuffer.slotIndex
  rw [hrep.size]

theorem popFront_nil
    (hrep : mem.Represents pool [] held) :
    mem.popFront = (none, mem) := by
  have hhead : mem.head = none := hrep.queue
  have htail : mem.tail = none := hrep.tail
  cases mem
  cases hhead
  cases htail
  rfl

theorem popFront_cons
    {buffer : HttpBuffer}
    (hrep : mem.Represents pool (buffer :: pending) held) :
    ∃ popped, mem.popFront = (some buffer.id, popped) ∧
      popped.Represents pool pending (buffer :: held) := by
  obtain ⟨hhead, hqueue⟩ := hrep.queue
  have hmoved : (pending ++ buffer :: held ++ pool.freeBuffer.flatten).Perm
      (buffer :: pending ++ held ++ pool.freeBuffer.flatten) := by
    rw [List.append_assoc, List.append_assoc]
    exact List.perm_middle
  have hwaiting : ∀ other ∈ pending ++ buffer :: held, other ∈ buffer :: pending ++ held := by
    intro other hother
    simpa [or_left_comm] using hother
  have hempty : mem.next buffer.id = none ↔ pending = [] := by
    cases pending with
    | nil => exact ⟨fun _ => rfl, fun _ => hqueue⟩
    | cons second rest =>
        have hsecond : mem.next buffer.id = some second.id := hqueue.1
        rw [hsecond]
        exact ⟨nofun, nofun⟩
  have htail : (if mem.next buffer.id = none then none else mem.tail) =
      (pending.map HttpBuffer.id).getLast? := by
    rw [hrep.tail]
    cases pending with
    | nil => rw [if_pos (hempty.mpr rfl)]; rfl
    | cons second rest =>
        rw [if_neg (mt hempty.mp nofun), List.map_cons, List.map_cons, List.getLast?_cons_cons]
  refine ⟨{ mem with
    head := mem.next buffer.id
    tail := if mem.next buffer.id = none then none else mem.tail }, ?_, ?_⟩
  · unfold popFront
    rw [hhead]
    simp only
    split_ifs <;> rfl
  · exact ⟨hrep.sound, hrep.size, hrep.numSlot, hrep.allocated, hqueue, htail, hrep.slotCount,
      hrep.slots, (hmoved.map _).trans hrep.once,
      fun other hother => hrep.sizes other (hmoved.mem_iff.mp hother),
      fun other hother => hrep.sized other (hwaiting other hother),
      fun other hother => hrep.content other (hwaiting other hother)⟩

theorem free_disjoint
    {buffer other : HttpBuffer}
    (hrep : mem.Represents pool pending held)
    (hbuffer : buffer ∈ pending ++ held)
    (hother : other ∈ pool.freeBuffer.flatten) :
    other.id ≠ buffer.id := by
  have hnodup := hrep.nodup
  rw [List.map_append, List.nodup_append] at hnodup
  intro heq
  exact hnodup.2.2 buffer.id (List.mem_map_of_mem hbuffer) other.id (List.mem_map_of_mem hother)
    heq.symm

theorem pending_disjoint
    {buffer other : HttpBuffer}
    (hrep : mem.Represents pool pending held)
    (hbuffer : buffer ∈ held)
    (hother : other ∈ pending) :
    other.id ≠ buffer.id := by
  have hnodup := hrep.nodup
  rw [List.map_append, List.nodup_append, List.map_append, List.nodup_append] at hnodup
  exact hnodup.1.2.2 other.id (List.mem_map_of_mem hother) buffer.id (List.mem_map_of_mem hbuffer)

theorem held_disjoint
    {buffer other : HttpBuffer}
    (hrep : mem.Represents pool pending (buffer :: held))
    (hother : other ∈ held) :
    other.id ≠ buffer.id := by
  have hnodup := hrep.nodup
  rw [List.map_append, List.nodup_append, List.map_append, List.nodup_append, List.map_cons,
    List.nodup_cons] at hnodup
  intro heq
  exact hnodup.1.2.1.1 (heq ▸ List.mem_map_of_mem hother)

theorem stays
    {buffer other : HttpBuffer}
    (hrep : mem.Represents pool pending (buffer :: held))
    (hother : other ∈ pending ++ held) :
    other ∈ pending ++ buffer :: held ∧ other.id ≠ buffer.id := by
  rcases List.mem_append.mp hother with hwaiting | hkept
  · exact ⟨List.mem_append_left _ hwaiting, hrep.pending_disjoint List.mem_cons_self hwaiting⟩
  · exact ⟨List.mem_append_right _ (List.mem_cons_of_mem _ hkept), hrep.held_disjoint hkept⟩

theorem slot_lt_pool
    {index : Nat}
    (hrep : mem.Represents pool pending held)
    (hindex : index < 8) :
    index < pool.freeBuffer.length := by
  rw [hrep.sound.slots]
  exact hindex

theorem slot_lt_memory
    {index : Nat}
    (hrep : mem.Represents pool pending held)
    (hindex : index < 8) :
    index < mem.freeBuffer.length := by
  rw [hrep.slotCount]
  exact hindex

theorem ids_perm
    {buffer entity : HttpBuffer} {list others longer shorter : List HttpBuffer}
    (hlonger : longer.Perm (entity :: list ++ others))
    (hshorter : shorter.Perm (list ++ others))
    (hid : entity.id = buffer.id) :
    ((pending ++ held ++ longer).map HttpBuffer.id).Perm
      ((pending ++ buffer :: held ++ shorter).map HttpBuffer.id) := by
  refine ((hlonger.append_left (pending ++ held)).map _).trans ?_
  refine List.Perm.trans ?_ (((hshorter.append_left (pending ++ buffer :: held)).map _).symm)
  simp only [List.map_append, List.map_cons, List.append_assoc, List.cons_append, hid]
  refine List.Perm.append_left _ ?_
  exact List.perm_middle

theorem not_mem_ids
    {buf : Nat} {list : List HttpBuffer}
    (hother : ∀ other ∈ list, other.id ≠ buf) :
    buf ∉ list.map HttpBuffer.id := by
  intro hmem
  obtain ⟨other, hlisted, heq⟩ := List.mem_map.mp hmem
  exact hother other hlisted heq

theorem getD_set {α : Type*} (list : List α) (index other : Nat) (value default : α)
    (hindex : index < list.length) :
    (list.set index value).getD other default =
      if index = other then value else list.getD other default := by
  rw [List.getD_eq_getElem?_getD, List.getElem?_set]
  split_ifs with heq
  · rfl
  · rw [List.getD_eq_getElem?_getD]

theorem mem_flatten_of_getD
    {lists : List (List HttpBuffer)} {index : Nat} {buffer : HttpBuffer}
    (hbuffer : buffer ∈ lists.getD index []) :
    buffer ∈ lists.flatten := by
  by_cases hindex : index < lists.length
  · rw [List.getD_eq_getElem _ _ hindex] at hbuffer
    exact List.mem_flatten_of_mem (List.getElem_mem hindex) hbuffer
  · rw [List.getD_eq_default _ _ (not_lt.mp hindex)] at hbuffer
    cases hbuffer

theorem flatten_set_perm
    {lists : List (List HttpBuffer)} {index : Nat} (list : List HttpBuffer)
    (hindex : index < lists.length) :
    ∃ others : List HttpBuffer, lists.flatten.Perm (lists.getD index [] ++ others) ∧
      (lists.set index list).flatten.Perm (list ++ others) := by
  refine ⟨(lists.take index).flatten ++ (lists.drop (index + 1)).flatten, ?_, ?_⟩
  · have hsplit : lists = lists.take index ++ lists[index] :: lists.drop (index + 1) := by
      rw [List.getElem_cons_drop, List.take_append_drop]
    have hflatten := congrArg List.flatten hsplit
    rw [List.flatten_append, List.flatten_cons] at hflatten
    rw [hflatten, List.getD_eq_getElem _ _ hindex]
    exact List.perm_append_comm_assoc _ _ _
  · rw [List.set_eq_take_append_cons_drop, if_pos hindex, List.flatten_append, List.flatten_cons]
    exact List.perm_append_comm_assoc _ _ _

theorem release
    {buffer : HttpBuffer}
    (hrep : mem.Represents pool pending (buffer :: held)) :
    (mem.releaseWriteBuffer buffer.id).Represents (pool.releaseWriteBuffer buffer) pending
      held := by
  have hheld : buffer ∈ pending ++ buffer :: held :=
    List.mem_append_right _ List.mem_cons_self
  have hsized := hrep.sized buffer hheld
  obtain ⟨index, hindex, hsize⟩ := id hsized
  have hslot : pool.slotIndex buffer.size = index := by
    rw [hsize, hrep.sound.slotIndex_size]
  have hsame : mem.slotIndex (mem.node buffer.id).size = index := by
    rw [hrep.slotIndex_eq, hrep.sizes buffer (List.mem_append_left _ hheld), hslot]
  have hpool := hrep.slot_lt_pool hindex
  have hmem := hrep.slot_lt_memory hindex
  have hnext : (mem.releaseWriteBuffer buffer.id).next =
      Function.update mem.next buffer.id (mem.freeBuffer.getD index none) := by
    unfold releaseWriteBuffer
    simp only [next_setNode, hsame]
    rfl
  have hfree : ∀ other ∈ pool.freeBuffer.flatten, other.id ≠ buffer.id :=
    fun other => hrep.free_disjoint hheld
  obtain ⟨others, hbefore, hafter⟩ := flatten_set_perm
    ({ buffer with data := [] } :: pool.freeBuffer.getD index []) hpool
  have hlists : (pool.releaseWriteBuffer buffer).freeBuffer =
      pool.freeBuffer.set index ({ buffer with data := [] } :: pool.freeBuffer.getD index []) := by
    unfold HttpWriteBuffer.releaseWriteBuffer
    rw [hslot]
  have hids : ((pending ++ held ++ (pool.releaseWriteBuffer buffer).freeBuffer.flatten).map
      HttpBuffer.id).Perm
        ((pending ++ buffer :: held ++ pool.freeBuffer.flatten).map HttpBuffer.id) := by
    rw [hlists]
    exact ids_perm hafter hbefore rfl
  have hnode : ∀ other, ((mem.releaseWriteBuffer buffer.id).node other).size =
      (mem.node other).size := by
    intro other
    by_cases heq : other = buffer.id
    · subst heq
      unfold releaseWriteBuffer
      rw [node_setNode_self]
    · unfold releaseWriteBuffer
      rw [node_setNode_of_ne _ heq]
  have hkept : ∀ other, other ≠ buffer.id →
      (mem.releaseWriteBuffer buffer.id).node other = mem.node other := by
    intro other hne
    unfold releaseWriteBuffer
    rw [node_setNode_of_ne _ hne]
  refine ⟨hrep.sound.releaseWriteBuffer hsized, hrep.size, hrep.numSlot, hrep.allocated, ?_,
    hrep.tail, ?_, ?_, hids.trans hrep.once, ?_, ?_, ?_⟩
  · rw [hnext]
    exact hrep.queue.update (not_mem_ids fun _ => hrep.pending_disjoint List.mem_cons_self) _
  · exact (List.length_set ..).trans hrep.slotCount
  · intro other
    have hheads : (mem.releaseWriteBuffer buffer.id).freeBuffer =
        mem.freeBuffer.set index (some buffer.id) := by
      unfold releaseWriteBuffer
      simp only [hsame]
      rfl
    have hlist : buffer.id ∉ (pool.freeBuffer.getD other []).map HttpBuffer.id :=
      not_mem_ids fun listed hlisted => hfree listed (mem_flatten_of_getD hlisted)
    rw [hnext, hheads, hlists, getD_set _ _ _ _ _ hmem, getD_set _ _ _ _ _ hpool]
    split_ifs with heq
    · subst heq
      refine ⟨rfl, ?_⟩
      rw [Function.update_self]
      exact (hrep.slots index).update hlist _
    · exact (hrep.slots other).update hlist _
  · intro other hother
    rw [hnode]
    rcases List.mem_append.mp hother with hother | hother
    · exact hrep.sizes other (List.mem_append_left _ (hrep.stays hother).1)
    · rw [hlists, hafter.mem_iff] at hother
      rcases List.mem_append.mp hother with hother | hother
      · rcases List.mem_cons.mp hother with rfl | hother
        · exact hrep.sizes buffer (List.mem_append_left _ hheld)
        · exact hrep.sizes other (List.mem_append_right _ (mem_flatten_of_getD hother))
      · exact hrep.sizes other (List.mem_append_right _
          (hbefore.mem_iff.mpr (List.mem_append_right _ hother)))
  · exact fun other hother => hrep.sized other (hrep.stays hother).1
  · intro other hother
    rw [hkept other.id (hrep.stays hother).2]
    exact hrep.content other (hrep.stays hother).1

theorem allocHttpBuffer
    {index : Nat} (memory : Bytes)
    (hrep : mem.Represents pool pending held)
    (hindex : index < 8) :
    (mem.allocHttpBuffer memory ((index + 1) * pool.size)).2.Represents
      { pool with allocated := pool.allocated + 1 } pending
      (⟨pool.allocated, (index + 1) * pool.size, []⟩ :: held) := by
  have hnext : (mem.allocHttpBuffer memory ((index + 1) * pool.size)).2.next =
      Function.update mem.next mem.allocated none :=
    next_setNode mem _ _
  have hother : ∀ buffer ∈ pending ++ held ++ pool.freeBuffer.flatten,
      buffer.id ≠ mem.allocated :=
    fun buffer hbuffer => (hrep.lt_allocated hbuffer).ne
  have hnode : ∀ other, other ≠ mem.allocated →
      (mem.allocHttpBuffer memory ((index + 1) * pool.size)).2.node other = mem.node other :=
    fun other hne => Function.update_of_ne hne _ _
  have hself : (mem.allocHttpBuffer memory ((index + 1) * pool.size)).2.node pool.allocated =
      { size := (index + 1) * pool.size, curSize := 0, curPtr := 0, next := none,
        memory := memory } := by
    rw [← hrep.allocated]
    exact Function.update_self _ _ _
  have hwaiting : ∀ buffer ∈ pending ++ held,
      buffer ∈ pending ++ held ++ pool.freeBuffer.flatten :=
    fun buffer hbuffer => List.mem_append_left _ hbuffer
  have hsplit : ∀ buffer ∈ pending ++ ⟨pool.allocated, (index + 1) * pool.size, []⟩ :: held,
      buffer = ⟨pool.allocated, (index + 1) * pool.size, []⟩ ∨ buffer ∈ pending ++ held := by
    intro buffer hbuffer
    simpa [or_left_comm] using hbuffer
  refine ⟨⟨hrep.sound.granularity, hrep.sound.numSlot, hrep.sound.slots, hrep.sound.sizes⟩,
    hrep.size, hrep.numSlot, congrArg (· + 1) hrep.allocated, ?_, hrep.tail, hrep.slotCount, ?_,
    ?_, ?_, ?_, ?_⟩
  · rw [hnext]
    exact hrep.queue.update (not_mem_ids fun buffer hbuffer => hother buffer
      (hwaiting buffer (List.mem_append_left _ hbuffer))) _
  · intro other
    rw [hnext]
    exact (hrep.slots other).update (not_mem_ids fun buffer hbuffer => hother buffer
      (List.mem_append_right _ (mem_flatten_of_getD hbuffer))) _
  · have hgrown : (List.range (mem.allocated + 1)).Perm
        (mem.allocated :: List.range mem.allocated) := by
      rw [List.range_succ]
      exact List.perm_append_comm
    refine List.Perm.trans ?_ hgrown.symm
    refine List.Perm.trans ?_ (hrep.once.cons mem.allocated)
    rw [hrep.allocated]
    simp only [List.map_append, List.map_cons, List.append_assoc, List.cons_append]
    exact List.perm_middle
  · intro buffer hbuffer
    rcases List.mem_append.mp hbuffer with hbuffer | hbuffer
    · rcases hsplit buffer hbuffer with rfl | hbuffer
      · rw [hself]
      · rw [hnode _ (hother buffer (hwaiting buffer hbuffer))]
        exact hrep.sizes buffer (hwaiting buffer hbuffer)
    · rw [hnode _ (hother buffer (List.mem_append_right _ hbuffer))]
      exact hrep.sizes buffer (List.mem_append_right _ hbuffer)
  · intro buffer hbuffer
    rcases hsplit buffer hbuffer with rfl | hbuffer
    · exact ⟨index, hindex, congrArg ((index + 1) * ·) hrep.sound.granularity⟩
    · exact hrep.sized buffer hbuffer
  · intro buffer hbuffer
    rcases hsplit buffer hbuffer with rfl | hbuffer
    · rw [hself]
      exact ⟨slice_of_le le_rfl, rfl⟩
    · rw [hnode _ (hother buffer (hwaiting buffer hbuffer))]
      exact hrep.content buffer hbuffer

/-- The memory once the first buffer of a free list is taken. -/
def withoutFirst (mem : WriteMemory) (index entity : Nat) : WriteMemory :=
  { mem with freeBuffer := mem.freeBuffer.set index (mem.next entity) }.setNode entity
    { mem.node entity with next := none, curPtr := 0, curSize := 0 }

theorem takeFirst
    {index : Nat} {entity : HttpBuffer} {list : List HttpBuffer}
    (hrep : mem.Represents pool pending held)
    (hindex : index < 8)
    (hlist : pool.freeBuffer.getD index [] = entity :: list) :
    mem.freeBuffer.getD index none = some entity.id ∧
      (withoutFirst mem index entity.id).Represents
        { pool with freeBuffer := pool.freeBuffer.set index list } pending
        ({ entity with data := [] } :: held) := by
  have hpool := hrep.slot_lt_pool hindex
  have hmem := hrep.slot_lt_memory hindex
  have hslot := hrep.slots index
  rw [hlist] at hslot
  obtain ⟨hhead, hrest⟩ := hslot
  have hnext : (withoutFirst mem index entity.id).next =
      Function.update mem.next entity.id none := by
    unfold withoutFirst
    rw [next_setNode]
    rfl
  have hnode : ∀ other, other ≠ entity.id →
      (withoutFirst mem index entity.id).node other = mem.node other :=
    fun other hne => node_setNode_of_ne _ hne
  have hself : (withoutFirst mem index entity.id).node entity.id =
      { mem.node entity.id with next := none, curPtr := 0, curSize := 0 } :=
    node_setNode_self _ _ _
  obtain ⟨others, hbefore, hafter⟩ := flatten_set_perm list hpool
  rw [hlist] at hbefore
  have hfree : entity ∈ pool.freeBuffer.flatten :=
    hbefore.mem_iff.mpr (List.mem_append_left _ List.mem_cons_self)
  have hids : ((pending ++ { entity with data := [] } :: held ++
      (pool.freeBuffer.set index list).flatten).map HttpBuffer.id).Perm
        ((pending ++ held ++ pool.freeBuffer.flatten).map HttpBuffer.id) := by
    apply List.Perm.symm
    exact ids_perm hbefore hafter rfl
  have hwaiting : ∀ buffer ∈ pending ++ held, buffer.id ≠ entity.id :=
    fun buffer hbuffer heq => hrep.free_disjoint hbuffer hfree heq.symm
  have hflatten : ∀ buffer ∈ (pool.freeBuffer.set index list).flatten,
      buffer ∈ pool.freeBuffer.flatten ∧ buffer.id ≠ entity.id := by
    intro buffer hbuffer
    rw [hafter.mem_iff] at hbuffer
    refine ⟨hbefore.mem_iff.mpr (List.mem_cons_of_mem _ hbuffer), ?_⟩
    have hnodup := hids.nodup_iff.mpr hrep.nodup
    rw [List.map_append, List.nodup_append] at hnodup
    intro heq
    exact hnodup.2.2 entity.id (by simp) buffer.id
      (List.mem_map_of_mem (hafter.mem_iff.mpr hbuffer)) heq.symm
  have hsplit : ∀ buffer ∈ pending ++ { entity with data := [] } :: held,
      buffer = { entity with data := [] } ∨ buffer ∈ pending ++ held := by
    intro buffer hbuffer
    simpa [or_left_comm] using hbuffer
  refine ⟨hhead, hrep.sound.setSlot ?_, hrep.size, hrep.numSlot, hrep.allocated, ?_, hrep.tail,
    (List.length_set ..).trans hrep.slotCount, ?_, hids.trans hrep.once, ?_, ?_, ?_⟩
  · intro buffer hbuffer
    refine hrep.sound.sizes index buffer ?_
    rw [hlist]
    exact List.mem_cons_of_mem _ hbuffer
  · rw [hnext]
    exact hrep.queue.update (not_mem_ids fun buffer hbuffer =>
      hwaiting buffer (List.mem_append_left _ hbuffer)) _
  · intro other
    have hheads : (withoutFirst mem index entity.id).freeBuffer =
        mem.freeBuffer.set index (mem.next entity.id) := rfl
    have hout : entity.id ∉
        ((pool.freeBuffer.set index list).getD other []).map HttpBuffer.id :=
      not_mem_ids fun listed hlisted => (hflatten listed (mem_flatten_of_getD hlisted)).2
    rw [hnext, hheads, getD_set _ _ _ _ _ hmem]
    refine Chained.update ?_ hout none
    rw [getD_set _ _ _ _ _ hpool]
    split_ifs with heq
    · exact hrest
    · exact hrep.slots other
  · intro buffer hbuffer
    rcases List.mem_append.mp hbuffer with hbuffer | hbuffer
    · rcases hsplit buffer hbuffer with rfl | hbuffer
      · rw [hself]
        exact hrep.sizes entity (List.mem_append_right _ hfree)
      · rw [hnode _ (hwaiting buffer hbuffer)]
        exact hrep.sizes buffer (List.mem_append_left _ hbuffer)
    · rw [hnode _ (hflatten buffer hbuffer).2]
      exact hrep.sizes buffer (List.mem_append_right _ (hflatten buffer hbuffer).1)
  · intro buffer hbuffer
    rcases hsplit buffer hbuffer with rfl | hbuffer
    · refine ⟨index, hindex, hrep.sound.sizes index entity ?_⟩
      rw [hlist]
      exact List.mem_cons_self
    · exact hrep.sized buffer hbuffer
  · intro buffer hbuffer
    rcases hsplit buffer hbuffer with rfl | hbuffer
    · rw [hself]
      exact ⟨slice_of_le le_rfl, rfl⟩
    · rw [hnode _ (hwaiting buffer hbuffer)]
      exact hrep.content buffer hbuffer

/-- `AllocWriteBuffer` on the memory is that on the lists, and the buffer it gives is
linked to nothing. -/
theorem alloc
    {sz : Int} {buffer : HttpBuffer} {left : HttpWriteBuffer} (memory : Bytes)
    (hrep : mem.Represents pool pending held)
    (halloc : pool.allocWriteBuffer sz = some (buffer, left)) :
    ∃ taken, mem.allocWriteBuffer memory sz = some (buffer.id, taken) ∧
      taken.Represents left pending (buffer :: held) ∧
      taken.next buffer.id = none ∧ (taken.node buffer.id).curPtr = 0 := by
  unfold HttpWriteBuffer.allocWriteBuffer at halloc
  unfold WriteMemory.allocWriteBuffer
  by_cases hfits : sz ≤ 0 ∨ pool.numSlot * pool.size < sz
  · rw [if_pos hfits] at halloc
    cases halloc
  have hbounds := hfits
  rw [hrep.sound.numSlot, hrep.sound.granularity, not_or] at hbounds
  have hindex : pool.slotIndex sz.toNat < 8 :=
    hrep.sound.slotIndex_lt (by omega) (by omega)
  have hmemory : ¬ (sz ≤ 0 ∨ mem.numSlot * mem.size < sz) := by
    rw [hrep.size, hrep.numSlot]
    exact hfits
  rw [if_neg hfits] at halloc
  rw [if_neg hmemory, hrep.slotIndex_eq]
  generalize pool.slotIndex sz.toNat = index at halloc hindex ⊢
  simp only at halloc ⊢
  cases hlist : pool.freeBuffer.getD index [] with
  | nil =>
      rw [hlist] at halloc
      cases halloc
      have hslot := hrep.slots index
      rw [hlist] at hslot
      have hnone : mem.freeBuffer.getD index none = none := hslot
      rw [hnone, hrep.size]
      have hself : (mem.allocHttpBuffer memory ((index + 1) * pool.size)).2.node pool.allocated =
          { size := (index + 1) * pool.size, curSize := 0, curPtr := 0, next := none,
            memory := memory } := by
        rw [← hrep.allocated]
        exact Function.update_self _ _ _
      refine ⟨_, ?_, hrep.allocHttpBuffer memory hindex, ?_, ?_⟩
      · rw [← hrep.allocated]
        rfl
      · unfold WriteMemory.next
        rw [hself]
      · rw [hself]
  | cons entity list =>
      rw [hlist] at halloc
      cases halloc
      obtain ⟨hhead, htaken⟩ := hrep.takeFirst hindex hlist
      have hself : (withoutFirst mem index entity.id).node entity.id =
          { mem.node entity.id with next := none, curPtr := 0, curSize := 0 } :=
        node_setNode_self _ _ _
      rw [hhead]
      refine ⟨withoutFirst mem index entity.id, rfl, htaken, ?_, ?_⟩
      · unfold WriteMemory.next
        rw [hself]
      · rw [hself]

theorem alloc_none
    {sz : Int} (memory : Bytes)
    (hrep : mem.Represents pool pending held)
    (halloc : pool.allocWriteBuffer sz = none) :
    mem.allocWriteBuffer memory sz = none := by
  unfold HttpWriteBuffer.allocWriteBuffer at halloc
  unfold WriteMemory.allocWriteBuffer
  by_cases hfits : sz ≤ 0 ∨ pool.numSlot * pool.size < sz
  · rw [← hrep.size, ← hrep.numSlot] at hfits
    exact if_pos hfits
  · rw [if_neg hfits] at halloc
    simp only at halloc
    split at halloc <;> cases halloc

theorem rewrite
    {buf : Nat} {node : BufferNode} {pending' held' : List HttpBuffer}
    (hrep : mem.Represents pool pending held)
    (hnext : node.next = mem.next buf)
    (hfree : ∀ other ∈ pool.freeBuffer.flatten, other.id ≠ buf)
    (hpending : pending'.map HttpBuffer.id = pending.map HttpBuffer.id)
    (hheld : held'.map HttpBuffer.id = held.map HttpBuffer.id)
    (hlisted : ∀ buffer ∈ pending' ++ held',
      (buffer.id = buf ∧ node.size = buffer.size ∧ buffer.Sized ∧ node.content = buffer.data ∧
        node.curSize = buffer.data.length) ∨
      (buffer ∈ pending ++ held ∧ buffer.id ≠ buf)) :
    (mem.setNode buf node).Represents pool pending' held' := by
  have hlinks : (mem.setNode buf node).next = mem.next := by
    rw [next_setNode, hnext, Function.update_eq_self]
  refine ⟨hrep.sound, hrep.size, hrep.numSlot, hrep.allocated, ?_, ?_, hrep.slotCount, ?_, ?_, ?_,
    ?_, ?_⟩
  · rw [hlinks, hpending]
    exact hrep.queue
  · rw [hpending]
    exact hrep.tail
  · rw [hlinks]
    exact hrep.slots
  · have honce := hrep.once
    rw [List.map_append, List.map_append] at honce ⊢
    rw [hpending, hheld]
    exact honce
  · intro buffer hbuffer
    rcases List.mem_append.mp hbuffer with hbuffer | hbuffer
    · rcases hlisted buffer hbuffer with ⟨rfl, hsize, -⟩ | ⟨hold, hne⟩
      · rw [node_setNode_self, hsize]
      · rw [node_setNode_of_ne _ hne]
        exact hrep.sizes buffer (List.mem_append_left _ hold)
    · rw [node_setNode_of_ne _ (hfree buffer hbuffer)]
      exact hrep.sizes buffer (List.mem_append_right _ hbuffer)
  · intro buffer hbuffer
    rcases hlisted buffer hbuffer with ⟨-, -, hsized, -⟩ | ⟨hold, -⟩
    · exact hsized
    · exact hrep.sized buffer hold
  · intro buffer hbuffer
    rcases hlisted buffer hbuffer with ⟨rfl, -, -, hcontent⟩ | ⟨hold, hne⟩
    · rw [node_setNode_self]
      exact hcontent
    · rw [node_setNode_of_ne _ hne]
      exact hrep.content buffer hold

theorem fill
    {buffer : HttpBuffer} (data : Bytes)
    (hrep : mem.Represents pool pending [buffer])
    (hptr : (mem.node buffer.id).curPtr = 0) :
    (mem.fill buffer.id data).Represents pool pending [{ buffer with data := data }] := by
  have hmem : buffer ∈ pending ++ [buffer] := List.mem_append_right _ List.mem_cons_self
  have hwritten : slice (overwrite (mem.node buffer.id).memory 0 data) 0 data.length = data := by
    have hslice := slice_overwrite data (le_refl 0)
      (Nat.zero_le (mem.node buffer.id).memory.length)
    rw [Nat.zero_add, slice_of_le (le_refl 0), List.nil_append] at hslice
    exact hslice
  refine hrep.rewrite rfl (fun other => hrep.free_disjoint hmem) rfl rfl ?_
  intro other hother
  rcases List.mem_append.mp hother with hother | hother
  · exact .inr ⟨List.mem_append_left _ hother,
      hrep.pending_disjoint List.mem_cons_self hother⟩
  · rw [List.mem_singleton.mp hother]
    refine .inl ⟨rfl, hrep.sizes buffer (List.mem_append_left _ hmem), hrep.sized buffer hmem,
      ?_, rfl⟩
    unfold BufferNode.content
    simp only [hptr, Nat.zero_add]
    exact hwritten

theorem advance
    {buffer : HttpBuffer} {sz : Nat}
    (hrep : mem.Represents pool (buffer :: pending) held)
    (hsz : sz ≤ buffer.data.length) :
    (mem.advance buffer.id sz).Represents pool
      ({ buffer with data := buffer.data.drop sz } :: pending) held := by
  have hmem : buffer ∈ buffer :: pending ++ held := List.mem_cons_self
  obtain ⟨hcontent, hcurSize⟩ := hrep.content buffer hmem
  have hnodup := hrep.nodup
  rw [List.map_append, List.nodup_append, List.cons_append, List.map_cons, List.nodup_cons]
    at hnodup
  refine hrep.rewrite rfl (fun other => hrep.free_disjoint hmem) rfl rfl ?_
  intro other hother
  rcases List.mem_cons.mp hother with rfl | hother
  · refine .inl ⟨rfl, hrep.sizes buffer (List.mem_append_left _ hmem), hrep.sized buffer hmem,
      ?_, ?_⟩
    · have hslice : slice (mem.node buffer.id).memory (mem.node buffer.id).curPtr
          ((mem.node buffer.id).curPtr + (mem.node buffer.id).curSize) =
            buffer.data.take sz ++ buffer.data.drop sz :=
        hcontent.trans (List.take_append_drop sz buffer.data).symm
      have hright := slice_right hslice
      rw [List.length_take, min_eq_left hsz] at hright
      unfold BufferNode.content
      simp only
      rw [show (mem.node buffer.id).curPtr + sz + ((mem.node buffer.id).curSize - sz) =
        (mem.node buffer.id).curPtr + (mem.node buffer.id).curSize by omega]
      exact hright
    · simp only [hcurSize, List.length_drop]
  · refine .inr ⟨List.mem_cons_of_mem _ hother, fun heq => hnodup.1.1 ?_⟩
    rw [← heq]
    exact List.mem_map_of_mem hother

theorem pushBack_nil
    {buffer : HttpBuffer}
    (hrep : mem.Represents pool [] [buffer])
    (hnull : mem.next buffer.id = none) :
    (mem.pushBack buffer.id).Represents pool [buffer] [] := by
  have hhead : mem.head = none := hrep.queue
  have htail : mem.tail = none := hrep.tail
  have hpushed : mem.pushBack buffer.id =
      { mem with head := some buffer.id, tail := some buffer.id } := by
    unfold WriteMemory.pushBack
    rw [htail]
    simp only
    rw [if_pos hhead]
  rw [hpushed]
  exact ⟨hrep.sound, hrep.size, hrep.numSlot, hrep.allocated, ⟨rfl, hnull⟩, rfl,
    hrep.slotCount, hrep.slots, hrep.once, hrep.sizes, hrep.sized, hrep.content⟩

theorem pushBack_eq
    {last : Nat}
    (hrep : mem.Represents pool pending held)
    (hpending : pending ≠ [])
    (hlast : mem.tail = some last) (buf : Nat) :
    mem.pushBack buf =
      { mem.setNode last { mem.node last with next := some buf } with tail := some buf } := by
  have hhead : (mem.setNode last { mem.node last with next := some buf }).head ≠ none := by
    obtain ⟨first, rest, rfl⟩ := List.exists_cons_of_ne_nil hpending
    have hfirst : mem.head = some first.id := hrep.queue.1
    show mem.head ≠ none
    rw [hfirst]
    exact nofun
  unfold WriteMemory.pushBack
  rw [hlast]
  simp only
  rw [if_neg hhead]

theorem node_relink
    (last buf other : Nat) :
    (mem.setNode last { mem.node last with next := some buf }).node other = mem.node other ∨
      (mem.setNode last { mem.node last with next := some buf }).node other =
        { mem.node other with next := some buf } := by
  by_cases heq : other = last
  · subst heq
    exact .inr (node_setNode_self _ _ _)
  · exact .inl (node_setNode_of_ne _ heq)

theorem pushBack
    {buffer : HttpBuffer}
    (hrep : mem.Represents pool pending [buffer])
    (hnull : mem.next buffer.id = none) :
    (mem.pushBack buffer.id).Represents pool (pending ++ [buffer]) [] := by
  have hsame : pending ++ [buffer] ++ [] = pending ++ [buffer] := List.append_nil _
  by_cases hempty : pending = []
  · subst hempty
    exact hrep.pushBack_nil hnull
  · have hids : pending.map HttpBuffer.id ≠ [] := by
      rwa [Ne, List.map_eq_nil_iff]
    have hlast : mem.tail = some ((pending.map HttpBuffer.id).getLast hids) :=
      hrep.tail.trans (List.getLast?_eq_some_getLast hids)
    generalize hbuf : (pending.map HttpBuffer.id).getLast hids = last at hlast
    have hlisted : last ∈ pending.map HttpBuffer.id := hbuf ▸ List.getLast_mem hids
    obtain ⟨waiting, hwaiting, hid⟩ := List.mem_map.mp hlisted
    have hnodup := hrep.nodup
    rw [List.map_append, List.nodup_append, List.map_append] at hnodup
    have hnext := next_setNode mem last { mem.node last with next := some buffer.id }
    rw [hrep.pushBack_eq hempty hlast]
    refine ⟨hrep.sound, hrep.size, hrep.numSlot, hrep.allocated, ?_, ?_, hrep.slotCount, ?_, ?_,
      ?_, ?_, ?_⟩
    · have hqueue := hrep.queue.concat hnodup.1 hnull hids
      rw [hbuf, ← hnext] at hqueue
      rw [List.map_append]
      exact hqueue
    · rw [List.map_append]
      exact (List.getLast?_concat ..).symm
    · intro index
      have hslot : last ∉ (pool.freeBuffer.getD index []).map HttpBuffer.id := by
        apply not_mem_ids
        intro other hother
        rw [← hid]
        exact hrep.free_disjoint (List.mem_append_left _ hwaiting) (mem_flatten_of_getD hother)
      have hchained := (hrep.slots index).update hslot (some buffer.id)
      rw [← hnext] at hchained
      exact hchained
    · rw [hsame]
      exact hrep.once
    · intro other hother
      rw [hsame] at hother
      have hsizes := hrep.sizes other hother
      rcases @node_relink mem last buffer.id other.id with hnode | hnode
      · exact (congrArg BufferNode.size hnode).trans hsizes
      · exact (congrArg BufferNode.size hnode).trans hsizes
    · intro other hother
      rw [hsame] at hother
      exact hrep.sized other hother
    · intro other hother
      rw [hsame] at hother
      have hcontent := hrep.content other hother
      rcases @node_relink mem last buffer.id other.id with hnode | hnode
      · exact ⟨(congrArg BufferNode.content hnode).trans hcontent.1,
          (congrArg BufferNode.curSize hnode).trans hcontent.2⟩
      · exact ⟨(congrArg BufferNode.content hnode).trans hcontent.1,
          (congrArg BufferNode.curSize hnode).trans hcontent.2⟩

end Represents

/-- The lists once this many buffers of the smallest size are in the pool. -/
def grown : Nat → HttpWriteBuffer → HttpWriteBuffer
  | 0, pool => pool
  | count + 1, pool =>
      grown count ({ pool with allocated := pool.allocated + 1 }.releaseWriteBuffer
        ⟨pool.allocated, (0 + 1) * pool.size, []⟩)

theorem initBuffer_succ
    {mem : WriteMemory} (garbage : Nat → Bytes) (count : Nat)
    (hindex : mem.slotIndex mem.size = 0) :
    initBuffer garbage (count + 1) mem =
      initBuffer garbage count
        ((mem.allocHttpBuffer (garbage mem.allocated) mem.size).2.releaseWriteBuffer
          mem.allocated) := by
  have hself : (mem.allocHttpBuffer (garbage mem.allocated) mem.size).2.node mem.allocated =
      { size := mem.size, curSize := 0, curPtr := 0, next := none,
        memory := garbage mem.allocated } :=
    Function.update_self _ _ _
  have hslot : (mem.allocHttpBuffer (garbage mem.allocated) mem.size).2.slotIndex mem.size = 0 :=
    hindex
  have hentity : (mem.allocHttpBuffer (garbage mem.allocated) mem.size).1 = mem.allocated := rfl
  rw [initBuffer]
  unfold releaseWriteBuffer
  simp only [hentity, hself, hslot]

theorem represents_initBuffer
    {mem : WriteMemory} {pool : HttpWriteBuffer} (garbage : Nat → Bytes) (count : Nat)
    (hrep : mem.Represents pool [] []) :
    (initBuffer garbage count mem).Represents (grown count pool) [] [] := by
  induction count generalizing mem pool with
  | zero => exact hrep
  | succ count ih =>
      have hsize : mem.size = (0 + 1) * pool.size := by
        rw [hrep.size, Nat.zero_add, Nat.one_mul]
      have hindex : mem.slotIndex mem.size = 0 := by
        rw [hrep.slotIndex_eq, hrep.size, hrep.sound.granularity]
        exact hrep.sound.slotIndex_size 0
      rw [initBuffer_succ garbage count hindex, hsize]
      generalize garbage mem.allocated = memory
      rw [hrep.allocated]
      exact ih (hrep.allocHttpBuffer memory (by decide)).release

theorem represents_construct (garbage : Nat → Bytes) :
    (construct garbage).Represents (.init 1024 8) [] [] := by
  have hgrown : grown 8 ⟨1024, 8, List.replicate 8 [], 0⟩ = HttpWriteBuffer.init 1024 8 := by
    decide
  rw [← hgrown]
  have hlists : ∀ index, (List.replicate 8 ([] : List HttpBuffer)).getD index [] = [] := by
    intro index
    rw [List.getD_eq_getElem?_getD, List.getElem?_replicate]
    split <;> rfl
  refine represents_initBuffer garbage 8 ⟨⟨rfl, rfl, rfl, ?_⟩, rfl, rfl, rfl, rfl, rfl, rfl, ?_,
    .nil, nofun, nofun, nofun⟩
  · intro index buffer hbuffer
    simp only [hlists] at hbuffer
    cases hbuffer
  · intro index
    simp only [hlists]
    rw [List.getD_eq_getElem?_getD, List.getElem?_replicate]
    split <;> rfl

end WriteMemory

end BackEndFacility
