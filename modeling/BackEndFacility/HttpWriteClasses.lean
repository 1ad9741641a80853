import BackEndFacility.HttpWriteMemory
import BackEndFacility.HttpWritePool
import BackEndFacility.Machine

/-!
# The size classes of the write buffers

`HttpWriteBuffer` with any granularity and any number of buffers allocated at the
start, over memory: the free lists are chained through the buffers themselves, and a
buffer that is given out is the client's to chain and to fill, all of it but its
`size_`.  Every class then has buffers of its own multiple of the granularity, and a
request gets the least multiple that holds it.

Requests and sizes are `int`s; nothing overflows as long as eight times the
granularity is one.
-/

namespace BackEndFacility

namespace WriteMemory

/-- `HttpWriteBuffer(granularity, num)`; what `malloc` returns holds any bytes. -/
def constructPool (granularity : ℕ) (num : ℤ) (garbage : ℕ → Bytes) : WriteMemory :=
  initBuffer garbage num.toNat
    { size := granularity
      numSlot := 8
      freeBuffer := List.replicate 8 none
      head := none
      tail := none
      node := fun _ => { size := 0, curSize := 0, curPtr := 0, next := none, memory := [] }
      allocated := 0 }

/-- The pool and the buffers that were given out and not released. -/
structure PoolState where
  mem : WriteMemory
  outstanding : List ℕ

inductive PoolAction where
  | alloc (memory : Bytes) (sz : ℤ)
  | release (buf : ℕ)
  | touch (buf : ℕ) (next : Option ℕ) (curPtr curSize : ℕ) (memory : Bytes)

/-- The calls of the pool, and the client's writes to a buffer that it holds. -/
def PoolState.step (state : PoolState) : PoolAction → Option PoolState
  | .alloc memory sz =>
      match state.mem.allocWriteBuffer memory sz with
      | none => some state
      | some (buf, mem) => some ⟨mem, buf :: state.outstanding⟩
  | .release buf =>
      if buf ∈ state.outstanding then
        some ⟨state.mem.releaseWriteBuffer buf, state.outstanding.erase buf⟩
      else none
  | .touch buf next curPtr curSize memory =>
      if buf ∈ state.outstanding then
        some { state with
          mem := state.mem.setNode buf
            { state.mem.node buf with
              next := next, curPtr := curPtr, curSize := curSize, memory := memory } }
      else none

def poolMachine (granularity : ℕ) (num : ℤ) (garbage : ℕ → Bytes) :
    Machine PoolState PoolAction where
  start := ⟨constructPool granularity num garbage, []⟩
  step := PoolState.step

/-! ## What the pool promises -/

/-- The buffer is met from `freeBuffer_[index]` on. -/
def InFreeList (mem : WriteMemory) (index buf : ℕ) : Prop :=
  ∃ list, Chained mem.next (mem.freeBuffer.getD index none) list ∧ buf ∈ list

structure PoolState.HasClasses (granularity : ℕ) (state : PoolState) : Prop where
  finite : ∀ index < 8, ∃ list, list.Nodup ∧
    Chained state.mem.next (state.mem.freeBuffer.getD index none) list
  sizes : ∀ index < 8, ∀ buf, state.mem.InFreeList index buf →
    (state.mem.node buf).size = (index + 1) * granularity
  once : ∀ first < 8, ∀ second < 8, ∀ buf, state.mem.InFreeList first buf →
    state.mem.InFreeList second buf → first = second
  apart : ∀ index < 8, ∀ buf ∈ state.outstanding, ¬ state.mem.InFreeList index buf
  refused : ∀ memory sz, state.mem.allocWriteBuffer memory sz = none ↔
    sz ≤ 0 ∨ 8 * (granularity : ℤ) < sz
  given : ∀ memory sz buf mem, state.mem.allocWriteBuffer memory sz = some (buf, mem) →
    buf ∉ state.outstanding ∧ (mem.node buf).next = none ∧ (mem.node buf).curPtr = 0 ∧
      (mem.node buf).curSize = 0 ∧
        IsLeast {size | granularity ∣ size ∧ sz ≤ (size : ℤ)} (mem.node buf).size

/-! ## The lists behind the chains -/

structure Sorted (granularity : ℕ) (mem : WriteMemory) (outstanding : List ℕ)
    (lists : ℕ → List ℕ) : Prop where
  size : mem.size = granularity
  numSlot : mem.numSlot = 8
  slots : mem.freeBuffer.length = 8
  chained : ∀ index < 8, Chained mem.next (mem.freeBuffer.getD index none) (lists index)
  nodup : ∀ index < 8, (lists index).Nodup
  sizes : ∀ index < 8, ∀ buf ∈ lists index, (mem.node buf).size = (index + 1) * granularity
  free_lt : ∀ index < 8, ∀ buf ∈ lists index, buf < mem.allocated
  apart : ∀ index < 8, ∀ buf ∈ lists index, buf ∉ outstanding
  outSizes : ∀ buf ∈ outstanding, ∃ index < 8, (mem.node buf).size = (index + 1) * granularity
  out_lt : ∀ buf ∈ outstanding, buf < mem.allocated
  outNodup : outstanding.Nodup

namespace Sorted

variable {granularity : ℕ} {mem : WriteMemory} {outstanding : List ℕ} {lists : ℕ → List ℕ}

theorem index_eq
    {first second buf : ℕ} (hsorted : Sorted granularity mem outstanding lists)
    (hpos : 0 < granularity) (hfirst : first < 8) (hsecond : second < 8)
    (hmemFirst : buf ∈ lists first) (hmemSecond : buf ∈ lists second) : first = second := by
  have hsizes := (hsorted.sizes first hfirst buf hmemFirst).symm.trans
    (hsorted.sizes second hsecond buf hmemSecond)
  exact Nat.add_right_cancel (Nat.eq_of_mul_eq_mul_right hpos hsizes)

theorem setNode
    {buf : ℕ} {node : BufferNode} (hsorted : Sorted granularity mem outstanding lists)
    (hout : ∀ index < 8, buf ∉ lists index) (hsize : node.size = (mem.node buf).size) :
    Sorted granularity (mem.setNode buf node) outstanding lists := by
  have hsizes : ∀ other, ((mem.setNode buf node).node other).size = (mem.node other).size := by
    intro other
    by_cases heq : other = buf
    · rw [heq, node_setNode_self, hsize]
    · rw [node_setNode_of_ne node heq]
  refine { hsorted with chained := ?_, sizes := ?_, outSizes := ?_ }
  · intro index hindex
    rw [next_setNode]
    exact (hsorted.chained index hindex).update (hout index hindex) _
  · intro index hindex other hother
    rw [hsizes]
    exact hsorted.sizes index hindex other hother
  · intro other hother
    rw [hsizes]
    exact hsorted.outSizes other hother

theorem link
    {buf index : ℕ} (hsorted : Sorted granularity mem outstanding lists)
    (hbuf : buf ∈ outstanding) (hindex : index < 8)
    (hsize : (mem.node buf).size = (index + 1) * granularity)
    (hnext : mem.next buf = mem.freeBuffer.getD index none) :
    Sorted granularity { mem with freeBuffer := mem.freeBuffer.set index (some buf) }
      (outstanding.erase buf) (Function.update lists index (buf :: lists index)) := by
  have hfree : ∀ other < 8, buf ∉ lists other := fun other hother hmem =>
    hsorted.apart other hother buf hmem hbuf
  have hslot : index < mem.freeBuffer.length := by
    rw [hsorted.slots]
    exact hindex
  have hcases : ∀ other, ∀ member ∈ Function.update lists index (buf :: lists index) other,
      (other = index ∧ member = buf) ∨ member ∈ lists other := by
    intro other member hmember
    by_cases heq : other = index
    · subst heq
      rw [Function.update_self, List.mem_cons] at hmember
      exact hmember.imp (fun hsame => ⟨rfl, hsame⟩) (fun hold => hold)
    · rw [Function.update_of_ne heq] at hmember
      exact Or.inr hmember
  constructor
  · exact hsorted.size
  · exact hsorted.numSlot
  · rw [List.length_set]
    exact hsorted.slots
  · intro other hother
    rw [Represents.getD_set _ _ _ _ _ hslot]
    by_cases heq : index = other
    · subst heq
      rw [if_pos rfl, Function.update_self]
      refine ⟨rfl, ?_⟩
      have hrest := hsorted.chained index hother
      rw [← hnext] at hrest
      exact hrest
    · rw [if_neg heq, Function.update_of_ne (Ne.symm heq)]
      exact hsorted.chained other hother
  · intro other hother
    by_cases heq : other = index
    · subst heq
      rw [Function.update_self, List.nodup_cons]
      exact ⟨hfree other hother, hsorted.nodup other hother⟩
    · rw [Function.update_of_ne heq]
      exact hsorted.nodup other hother
  · intro other hother member hmember
    rcases hcases other member hmember with ⟨rfl, rfl⟩ | hold
    · exact hsize
    · exact hsorted.sizes other hother member hold
  · intro other hother member hmember
    rcases hcases other member hmember with ⟨rfl, rfl⟩ | hold
    · exact hsorted.out_lt member hbuf
    · exact hsorted.free_lt other hother member hold
  · intro other hother member hmember
    rcases hcases other member hmember with ⟨rfl, rfl⟩ | hold
    · exact hsorted.outNodup.not_mem_erase
    · exact fun hkept => hsorted.apart other hother member hold (List.mem_of_mem_erase hkept)
  · exact fun other hother => hsorted.outSizes other (List.mem_of_mem_erase hother)
  · exact fun other hother => hsorted.out_lt other (List.mem_of_mem_erase hother)
  · exact hsorted.outNodup.erase buf

theorem unlink
    {entity index : ℕ} {rest : List ℕ} (hsorted : Sorted granularity mem outstanding lists)
    (hpos : 0 < granularity) (hindex : index < 8) (hlist : lists index = entity :: rest) :
    Sorted granularity { mem with freeBuffer := mem.freeBuffer.set index (mem.next entity) }
      (entity :: outstanding) (Function.update lists index rest) := by
  have hslot : index < mem.freeBuffer.length := by
    rw [hsorted.slots]
    exact hindex
  have hentity : entity ∈ lists index := by
    rw [hlist]
    exact List.mem_cons_self
  have hnodup := hsorted.nodup index hindex
  rw [hlist, List.nodup_cons] at hnodup
  have hkept : ∀ other, ∀ member ∈ Function.update lists index rest other,
      member ∈ lists other := by
    intro other member hmember
    by_cases heq : other = index
    · subst heq
      rw [Function.update_self] at hmember
      rw [hlist]
      exact List.mem_cons_of_mem entity hmember
    · rwa [Function.update_of_ne heq] at hmember
  constructor
  · exact hsorted.size
  · exact hsorted.numSlot
  · rw [List.length_set]
    exact hsorted.slots
  · intro other hother
    rw [Represents.getD_set _ _ _ _ _ hslot]
    by_cases heq : index = other
    · subst heq
      have hchain := hsorted.chained index hother
      rw [hlist] at hchain
      rw [if_pos rfl, Function.update_self]
      exact hchain.2
    · rw [if_neg heq, Function.update_of_ne (Ne.symm heq)]
      exact hsorted.chained other hother
  · intro other hother
    by_cases heq : other = index
    · subst heq
      rw [Function.update_self]
      exact hnodup.2
    · rw [Function.update_of_ne heq]
      exact hsorted.nodup other hother
  · exact fun other hother member hmember =>
      hsorted.sizes other hother member (hkept other member hmember)
  · exact fun other hother member hmember =>
      hsorted.free_lt other hother member (hkept other member hmember)
  · intro other hother member hmember hout
    rcases List.mem_cons.mp hout with rfl | hold
    · obtain rfl := hsorted.index_eq hpos hother hindex (hkept other member hmember) hentity
      rw [Function.update_self] at hmember
      exact hnodup.1 hmember
    · exact hsorted.apart other hother member (hkept other member hmember) hold
  · intro other hother
    rcases List.mem_cons.mp hother with rfl | hold
    · exact ⟨index, hindex, hsorted.sizes index hindex other hentity⟩
    · exact hsorted.outSizes other hold
  · intro other hother
    rcases List.mem_cons.mp hother with rfl | hold
    · exact hsorted.free_lt index hindex other hentity
    · exact hsorted.out_lt other hold
  · exact List.nodup_cons.mpr ⟨hsorted.apart index hindex entity hentity, hsorted.outNodup⟩

theorem fresh
    {index : ℕ} (hsorted : Sorted granularity mem outstanding lists) (hindex : index < 8)
    (memory : Bytes) :
    Sorted granularity (mem.allocHttpBuffer memory ((index + 1) * granularity)).2
      (mem.allocated :: outstanding) lists := by
  have hnew : ∀ other < 8, mem.allocated ∉ lists other := fun other hother hmem =>
    Nat.lt_irrefl _ (hsorted.free_lt other hother _ hmem)
  have hnode : ∀ {other : ℕ} (_ : other < mem.allocated),
      (mem.allocHttpBuffer memory ((index + 1) * granularity)).2.node other = mem.node other :=
    fun hlt => node_setNode_of_ne _ (Nat.ne_of_lt hlt)
  have hnext : (mem.allocHttpBuffer memory ((index + 1) * granularity)).2.next =
      Function.update mem.next mem.allocated none := next_setNode _ _ _
  constructor
  · exact hsorted.size
  · exact hsorted.numSlot
  · exact hsorted.slots
  · intro other hother
    rw [hnext]
    exact (hsorted.chained other hother).update (hnew other hother) none
  · exact hsorted.nodup
  · intro other hother member hmember
    rw [hnode (hsorted.free_lt other hother member hmember)]
    exact hsorted.sizes other hother member hmember
  · exact fun other hother member hmember =>
      Nat.lt_succ_of_lt (hsorted.free_lt other hother member hmember)
  · intro other hother member hmember hout
    rcases List.mem_cons.mp hout with rfl | hold
    · exact hnew other hother hmember
    · exact hsorted.apart other hother member hmember hold
  · intro other hother
    rcases List.mem_cons.mp hother with rfl | hold
    · exact ⟨index, hindex, congrArg BufferNode.size (node_setNode_self mem _ _)⟩
    · rw [hnode (hsorted.out_lt other hold)]
      exact hsorted.outSizes other hold
  · intro other hother
    rcases List.mem_cons.mp hother with rfl | hold
    · exact Nat.lt_succ_self _
    · exact Nat.lt_succ_of_lt (hsorted.out_lt other hold)
  · refine List.nodup_cons.mpr ⟨fun hmem => ?_, hsorted.outNodup⟩
    exact Nat.lt_irrefl _ (hsorted.out_lt _ hmem)

/-! ## The calls -/

theorem slotIndex_eq (hsorted : Sorted granularity mem outstanding lists) (sz : ℕ) :
    mem.slotIndex sz = (HttpWriteBuffer.init granularity 0).slotIndex sz := by
  unfold WriteMemory.slotIndex HttpWriteBuffer.slotIndex
  rw [hsorted.size]
  rfl

theorem slotIndex_multiple (hsorted : Sorted granularity mem outstanding lists)
    (hpos : 0 < granularity) (index : ℕ) :
    mem.slotIndex ((index + 1) * granularity) = index := by
  rw [hsorted.slotIndex_eq]
  exact HttpWriteBuffer.slotIndex_multiple rfl hpos index

theorem slotIndex_least
    {sz : ℤ} (hsorted : Sorted granularity mem outstanding lists) (hpos : 0 < sz)
    (hbound : sz ≤ 8 * granularity) :
    mem.slotIndex sz.toNat < 8 ∧
      IsLeast {size | granularity ∣ size ∧ sz ≤ (size : ℤ)}
        ((mem.slotIndex sz.toNat + 1) * granularity) := by
  have hgranularity : 0 < granularity := by omega
  have hround := HttpWriteBuffer.slotIndex_spec
    (show (HttpWriteBuffer.init granularity 0).size = granularity from rfl) hgranularity
    (show 0 < sz.toNat by omega)
  rw [← hsorted.slotIndex_eq] at hround
  have hle := HttpWriteBuffer.le_roundUp hgranularity sz.toNat
  have hleast : ∀ size, granularity ∣ size → sz.toNat ≤ size →
      (mem.slotIndex sz.toNat + 1) * granularity ≤ size := by
    rintro size ⟨factor, rfl⟩ hsize
    rw [hround]
    unfold HttpWriteBuffer.roundUp
    rw [Nat.mul_comm granularity factor]
    refine Nat.mul_le_mul_right granularity ?_
    rw [Nat.mul_comm] at hsize
    refine Nat.lt_succ_iff.mp ((Nat.div_lt_iff_lt_mul hgranularity).mpr ?_)
    rw [Nat.succ_mul]
    omega
  refine ⟨?_, ⟨Nat.dvd_mul_left _ _, ?_⟩, ?_⟩
  · have height := hleast (8 * granularity) (Nat.dvd_mul_left _ _) (by omega)
    have hfactor := Nat.le_of_mul_le_mul_right height hgranularity
    omega
  · rw [← hround] at hle
    omega
  · rintro size ⟨hdvd, hsize⟩
    exact hleast size hdvd (by omega)

theorem alloc_none
    {sz : ℤ} (hsorted : Sorted granularity mem outstanding lists) (memory : Bytes) :
    mem.allocWriteBuffer memory sz = none ↔ sz ≤ 0 ∨ 8 * (granularity : ℤ) < sz := by
  have hguard : (sz ≤ 0 ∨ (mem.numSlot * mem.size : ℤ) < sz) ↔
      (sz ≤ 0 ∨ 8 * (granularity : ℤ) < sz) := by
    rw [hsorted.numSlot, hsorted.size]
    rfl
  unfold allocWriteBuffer
  by_cases hout : sz ≤ 0 ∨ (mem.numSlot * mem.size : ℤ) < sz
  · rw [if_pos hout]
    exact iff_of_true rfl (hguard.mp hout)
  · rw [if_neg hout]
    refine iff_of_false ?_ (fun hrefused => hout (hguard.mpr hrefused))
    simp only
    split
    · exact Option.some_ne_none _
    · exact Option.some_ne_none _

theorem alloc
    {sz : ℤ} (hsorted : Sorted granularity mem outstanding lists) (hpos : 0 < sz)
    (hbound : sz ≤ 8 * granularity) (memory : Bytes) :
    ∃ buf left lists', mem.allocWriteBuffer memory sz = some (buf, left) ∧
      Sorted granularity left (buf :: outstanding) lists' ∧ buf ∉ outstanding ∧
        (left.node buf).next = none ∧ (left.node buf).curPtr = 0 ∧
          (left.node buf).curSize = 0 ∧
            (left.node buf).size = (mem.slotIndex sz.toNat + 1) * granularity := by
  have hgranularity : 0 < granularity := by omega
  obtain ⟨hindex, -⟩ := hsorted.slotIndex_least hpos hbound
  have hfits : ¬ (sz ≤ 0 ∨ (mem.numSlot * mem.size : ℤ) < sz) := by
    rw [hsorted.numSlot, hsorted.size]
    push_cast
    omega
  unfold allocWriteBuffer
  rw [if_neg hfits]
  simp only
  generalize mem.slotIndex sz.toNat = index at hindex ⊢
  have hchain := hsorted.chained index hindex
  cases hlist : lists index with
  | nil =>
      rw [hlist] at hchain
      have hself : (mem.allocHttpBuffer memory ((index + 1) * granularity)).2.node
          mem.allocated = _ := node_setNode_self mem _ _
      refine ⟨mem.allocated, _, lists, ?_, hsorted.fresh hindex memory,
        fun hmem => Nat.lt_irrefl _ (hsorted.out_lt _ hmem), ?_, ?_, ?_, ?_⟩
      · rw [show mem.freeBuffer.getD index none = none from hchain, hsorted.size]
        rfl
      · rw [hself]
      · rw [hself]
      · rw [hself]
      · rw [hself]
  | cons entity rest =>
      rw [hlist] at hchain
      have hentity : entity ∈ lists index := by
        rw [hlist]
        exact List.mem_cons_self
      have hunlinked := hsorted.unlink hgranularity hindex hlist
      have hfree : ∀ other < 8, entity ∉ Function.update lists index rest other :=
        fun other hother hmem => hunlinked.apart other hother entity hmem List.mem_cons_self
      have hwritten := @Sorted.setNode granularity _ _ _ entity
        { mem.node entity with next := none, curPtr := 0, curSize := 0 } hunlinked hfree rfl
      have hself := node_setNode_self
        { mem with freeBuffer := mem.freeBuffer.set index (mem.next entity) } entity
        { mem.node entity with next := none, curPtr := 0, curSize := 0 }
      refine ⟨entity, _, _, ?_, hwritten, hsorted.apart index hindex entity hentity,
        ?_, ?_, ?_, ?_⟩
      · rw [hchain.1]
      · rw [hself]
      · rw [hself]
      · rw [hself]
      · rw [hself]
        exact hsorted.sizes index hindex entity hentity

theorem release
    {buf : ℕ} (hsorted : Sorted granularity mem outstanding lists) (hpos : 0 < granularity)
    (hbuf : buf ∈ outstanding) :
    ∃ lists', Sorted granularity (mem.releaseWriteBuffer buf) (outstanding.erase buf) lists' := by
  obtain ⟨index, hindex, hsize⟩ := hsorted.outSizes buf hbuf
  have hslot : mem.slotIndex (mem.node buf).size = index := by
    rw [hsize, hsorted.slotIndex_multiple hpos]
  have hfree : ∀ other < 8, buf ∉ lists other := fun other hother hmem =>
    hsorted.apart other hother buf hmem hbuf
  have hwritten := @Sorted.setNode granularity mem outstanding lists buf
    { mem.node buf with next := mem.freeBuffer.getD index none, curPtr := 0, curSize := 0 }
    hsorted hfree rfl
  have hself := node_setNode_self mem buf
    { mem.node buf with next := mem.freeBuffer.getD index none, curPtr := 0, curSize := 0 }
  refine ⟨Function.update lists index (buf :: lists index), ?_⟩
  unfold releaseWriteBuffer
  rw [hslot]
  refine hwritten.link hbuf hindex ?_ ?_
  · rw [hself]
    exact hsize
  · exact congrArg BufferNode.next hself

theorem touch
    {buf : ℕ} {node : BufferNode} (hsorted : Sorted granularity mem outstanding lists)
    (hbuf : buf ∈ outstanding) (hsize : node.size = (mem.node buf).size) :
    Sorted granularity (mem.setNode buf node) outstanding lists :=
  hsorted.setNode (fun index hindex hmem => hsorted.apart index hindex buf hmem hbuf) hsize

theorem initBuffer
    (hsorted : Sorted granularity mem [] lists) (hpos : 0 < granularity)
    (garbage : ℕ → Bytes) (count : ℕ) :
    ∃ lists', Sorted granularity (mem.initBuffer garbage count) [] lists' := by
  induction count generalizing mem lists with
  | zero => exact ⟨lists, hsorted⟩
  | succ count ih =>
      have hfresh := hsorted.fresh (show 0 < 8 by norm_num) (garbage mem.allocated)
      have hslot := hfresh.slotIndex_multiple hpos 0
      have hone : (0 + 1) * granularity = granularity := by omega
      rw [hone] at hfresh hslot
      have hself : (mem.allocHttpBuffer (garbage mem.allocated) granularity).2.node
          mem.allocated = _ := node_setNode_self mem _ _
      have hentity : (mem.allocHttpBuffer (garbage mem.allocated) granularity).1 =
          mem.allocated := rfl
      obtain ⟨linked, hlinked⟩ := hfresh.release hpos List.mem_cons_self
      rw [List.erase_cons_head] at hlinked
      have hreleased : WriteMemory.initBuffer garbage (count + 1) mem =
          WriteMemory.initBuffer garbage count
            ((mem.allocHttpBuffer (garbage mem.allocated) granularity).2.releaseWriteBuffer
              mem.allocated) := by
        rw [WriteMemory.initBuffer, hsorted.size, releaseWriteBuffer, hself]
        simp only [hslot, hentity, hself]
      rw [hreleased]
      exact ih hlinked

end Sorted

theorem sorted_constructPool
    {granularity : ℕ} (hpos : 0 < granularity) (num : ℤ) (garbage : ℕ → Bytes) :
    ∃ lists, Sorted granularity (constructPool granularity num garbage) [] lists := by
  unfold constructPool
  refine @Sorted.initBuffer granularity _ (fun _ => []) ?_ hpos garbage num.toNat
  constructor
  · rfl
  · rfl
  · rfl
  · intro index hindex
    have hnone : (List.replicate 8 (none : Option ℕ)).getD index none = none := by
      rw [List.getD_replicate]
      exact hindex
    exact hnone
  · exact fun _ _ => List.nodup_nil
  · exact fun _ _ _ hmem => absurd hmem List.not_mem_nil
  · exact fun _ _ _ hmem => absurd hmem List.not_mem_nil
  · exact fun _ _ _ hmem => absurd hmem List.not_mem_nil
  · exact fun _ hmem => absurd hmem List.not_mem_nil
  · exact fun _ hmem => absurd hmem List.not_mem_nil
  · exact List.nodup_nil

/-! ## Every run -/

theorem PoolState.sorted_step
    {granularity : ℕ} {state next : PoolState} {action : PoolAction} (hpos : 0 < granularity)
    (hsorted : ∃ lists, Sorted granularity state.mem state.outstanding lists)
    (hstep : state.step action = some next) :
    ∃ lists, Sorted granularity next.mem next.outstanding lists := by
  obtain ⟨lists, hsorted⟩ := hsorted
  cases action with
  | alloc memory sz =>
      simp only [PoolState.step] at hstep
      by_cases hrefused : sz ≤ 0 ∨ 8 * (granularity : ℤ) < sz
      · rw [(hsorted.alloc_none memory).mpr hrefused] at hstep
        rw [← Option.some.inj hstep]
        exact ⟨lists, hsorted⟩
      · rw [not_or, not_le, not_lt] at hrefused
        obtain ⟨buf, left, linked, halloc, hleft, -⟩ :=
          hsorted.alloc hrefused.1 hrefused.2 memory
        rw [halloc] at hstep
        rw [← Option.some.inj hstep]
        exact ⟨linked, hleft⟩
  | release buf =>
      simp only [PoolState.step] at hstep
      obtain ⟨hbuf, hnext⟩ := Option.ite_none_right_eq_some.mp hstep
      rw [← Option.some.inj hnext]
      exact hsorted.release hpos hbuf
  | touch buf link curPtr curSize memory =>
      simp only [PoolState.step] at hstep
      obtain ⟨hbuf, hnext⟩ := Option.ite_none_right_eq_some.mp hstep
      rw [← Option.some.inj hnext]
      exact ⟨lists, hsorted.touch hbuf rfl⟩

theorem Sorted.hasClasses
    {granularity : ℕ} {state : PoolState} {lists : ℕ → List ℕ} (hpos : 0 < granularity)
    (hsorted : Sorted granularity state.mem state.outstanding lists) :
    state.HasClasses granularity := by
  have hmem : ∀ index < 8, ∀ buf, state.mem.InFreeList index buf → buf ∈ lists index := by
    rintro index hindex buf ⟨list, hchain, hbuf⟩
    rwa [hchain.unique (hsorted.chained index hindex)] at hbuf
  constructor
  · exact fun index hindex =>
      ⟨lists index, hsorted.nodup index hindex, hsorted.chained index hindex⟩
  · exact fun index hindex buf hbuf => hsorted.sizes index hindex buf (hmem index hindex buf hbuf)
  · exact fun first hfirst second hsecond buf hin hother =>
      hsorted.index_eq hpos hfirst hsecond (hmem first hfirst buf hin)
        (hmem second hsecond buf hother)
  · exact fun index hindex buf hout hin =>
      hsorted.apart index hindex buf (hmem index hindex buf hin) hout
  · exact fun memory sz => hsorted.alloc_none memory
  · intro memory sz buf mem halloc
    by_cases hrefused : sz ≤ 0 ∨ 8 * (granularity : ℤ) < sz
    · rw [(hsorted.alloc_none memory).mpr hrefused] at halloc
      exact absurd halloc.symm (Option.some_ne_none _)
    · rw [not_or, not_le, not_lt] at hrefused
      obtain ⟨given, left, -, hgiven, -, hout, hnext, hptr, hcur, hsize⟩ :=
        hsorted.alloc hrefused.1 hrefused.2 memory
      rw [halloc] at hgiven
      cases hgiven
      rw [hsize]
      exact ⟨hout, hnext, hptr, hcur, (hsorted.slotIndex_least hrefused.1 hrefused.2).2⟩

/-- In every state of every run the classes are sorted by size, no buffer is free twice
or free and given out, and a request is answered by an empty buffer of the least
multiple, or refused for its size. -/
theorem hasClasses_of_reachable
    (granularity : ℕ) (hpos : 1 ≤ granularity) (num : ℤ) (garbage : ℕ → Bytes)
    (state : PoolState) (hreachable : (poolMachine granularity num garbage).Reachable state) :
    state.HasClasses granularity := by
  obtain ⟨lists, hsorted⟩ := Machine.ReachedBy.invariant
    (fun state : PoolState => ∃ lists, Sorted granularity state.mem state.outstanding lists)
    (sorted_constructPool hpos num garbage)
    (fun _ _ _ hsorted _ hstep => PoolState.sorted_step hpos hsorted hstep) hreachable
  exact hsorted.hasClasses hpos

/-- A buffer of the third class is filled, released, and asked for again. -/
def reuse : List PoolAction :=
  [.alloc [] 2, .alloc [] 7, .touch 1 (some 0) 4 2 [], .release 1, .alloc [] 9]

theorem hasClasses_reuse :
    ∃ state, (poolMachine 3 1 fun _ => []).run reuse = some state ∧ state.HasClasses 3 := by
  have hrun : ∃ state, (poolMachine 3 1 fun _ => []).run reuse = some state := ⟨_, rfl⟩
  obtain ⟨state, hstate⟩ := hrun
  exact ⟨state, hstate, hasClasses_of_reachable 3 (by norm_num) 1 (fun _ => []) state
    (Machine.Reachable.runFrom .start hstate)⟩

end WriteMemory

end BackEndFacility
