import BackEndFacility.AtomicOps
import BackEndFacility.PerThreadMemory

/-!
# The layout of a per-thread frame

`InitPerThreadList` cuts one block of memory into `population_ + 1` areas, each with a
`Node` in front and a user buffer at its end.  The gap between them, `offset_`, is
chosen such that the buffers start at multiples of `granularity_`.  Addresses are byte
addresses, and a frame may lie anywhere.

The nodes are those of the machine of this allocator, where a node is its index.
-/

namespace BackEndFacility
namespace PerThreadMemory

/-- `sizeof(void*)` -/
def sizeofPointer : ℕ := 8

/-- `sizeof(Node)`, and with it the offset of `data`: two pointers and the padding. -/
def sizeofNode : ℕ := 24

/-- The members of a `PerThreadMemoryAlloc`. -/
structure Layout where
  align : ℕ
  granularity : ℕ
  offset : ℕ
  population : ℕ
deriving DecidableEq

namespace Layout

def construct (granularity population align : ℕ) : Layout :=
  let align := alignTo align sizeofPointer
  let granularity := alignTo granularity align
  ⟨align, granularity, granularity - sizeofNode % granularity, population⟩

/-- The arguments and what is stored of them fit an `int`. -/
def NoOverflow (granularity population align : ℕ) : Prop :=
  granularity < 2 ^ 31 ∧ align < 2 ^ 31 ∧ population + 1 < 2 ^ 31 ∧
    (construct granularity population align).align < 2 ^ 31 ∧
      (construct granularity population align).granularity < 2 ^ 31

instance decidableNoOverflow (granularity population align : ℕ) :
    Decidable (NoOverflow granularity population align) := by
  unfold NoOverflow
  infer_instance

/-- `sizeof(Node) + offset_ + granularity_` -/
def stride (layout : Layout) : ℕ :=
  sizeofNode + layout.offset + layout.granularity

/-- The size that is given to `malloc`. -/
def frameSize (layout : Layout) : ℕ :=
  layout.stride * (layout.population + 1) % 2 ^ 64

/-- The loop that links the nodes, `count` of them still to go: the node it ends at and
what stands in `next` of each node. -/
def link (layout : Layout) : ℕ → ℕ → (ℕ → Option ℕ) → ℕ × (ℕ → Option ℕ)
  | 0, cur, next => (cur, next)
  | count + 1, cur, next =>
      layout.link count (cur + layout.stride)
        (Function.update next cur (some (cur + layout.stride)))

structure Frame where
  memFrame : ℕ
  last : ℕ
  next : ℕ → Option ℕ

/-- `InitPerThreadList` on the block that `malloc` returned, up to the call of
`GetFreeBufferFromList`; no result when its assertion fails. -/
def initFrame (layout : Layout) (buf : ℕ) (memory : ℕ → Option ℕ) : Option Frame :=
  let endBuf := buf + layout.frameSize
  match layout.link layout.population buf memory with
  | (cur, next) =>
      if cur + layout.stride = endBuf then some ⟨buf, cur, Function.update next cur none⟩
      else none

/-- `node->data + offset_`, the address that `AllocBuffer` returns. -/
def bufferOf (layout : Layout) (node : ℕ) : ℕ := node + sizeofNode + layout.offset

/-- What `ReleaseBuffer` passes on, where `memset` clears `granularity_` bytes. -/
def clearedFrom (layout : Layout) (buf : ℕ) : ℕ := buf - layout.offset

/-- `container_of`, the node that `DoReleaseBuffer` puts back. -/
def nodeOf (layout : Layout) (buf : ℕ) : ℕ := layout.clearedFrom buf - sizeofNode

/-! ## What the layout promises -/

def Frame.nodeAt (frame : Frame) (layout : Layout) (index : ℕ) : ℕ :=
  frame.memFrame + index * layout.stride

structure Frame.Fits (frame : Frame) (layout : Layout) : Prop where
  last : frame.last = frame.nodeAt layout layout.population
  links : ∀ index ≤ layout.population, frame.next (frame.nodeAt layout index) =
    ((initPerThreadList layout.population).next index).map (frame.nodeAt layout)
  inside : ∀ index ≤ layout.population,
    frame.memFrame ≤ layout.bufferOf (frame.nodeAt layout index) ∧
      layout.bufferOf (frame.nodeAt layout index) + layout.granularity ≤
        frame.memFrame + layout.frameSize
  disjoint : ∀ first second, first < second →
    layout.bufferOf (frame.nodeAt layout first) + layout.granularity ≤
      layout.bufferOf (frame.nodeAt layout second)
  headers : ∀ index other,
    layout.bufferOf (frame.nodeAt layout index) + layout.granularity ≤
        frame.nodeAt layout other ∨
      frame.nodeAt layout other + sizeofNode ≤ layout.bufferOf (frame.nodeAt layout index)
  aligned : ∀ index,
    layout.granularity ∣ layout.bufferOf (frame.nodeAt layout index) - frame.memFrame
  recovered : ∀ node, layout.nodeOf (layout.bufferOf node) = node
  cleared : ∀ node, node + sizeofNode ≤ layout.clearedFrom (layout.bufferOf node) ∧
    layout.clearedFrom (layout.bufferOf node) + layout.granularity ≤ node + layout.stride

/-! ## The linking loop -/

section Link

variable {layout : Layout}

theorem link_fst (count cur : ℕ) (next : ℕ → Option ℕ) :
    (layout.link count cur next).1 = cur + count * layout.stride := by
  induction count generalizing cur next with
  | zero => rw [link, Nat.zero_mul, Nat.add_zero]
  | succ count ih =>
      rw [link, ih, Nat.succ_mul]
      omega

theorem link_snd_of_ne {count cur addr : ℕ} {next : ℕ → Option ℕ}
    (hother : ∀ index < count, addr ≠ cur + index * layout.stride) :
    (layout.link count cur next).2 addr = next addr := by
  induction count generalizing cur next with
  | zero => rfl
  | succ count ih =>
      have hfirst : addr ≠ cur := by
        have hzero := hother 0 (Nat.succ_pos count)
        rwa [Nat.zero_mul, Nat.add_zero] at hzero
      have hrest : ∀ index < count, addr ≠ cur + layout.stride + index * layout.stride := by
        intro index hindex
        have hnext := hother (index + 1) (Nat.succ_lt_succ hindex)
        rw [Nat.succ_mul] at hnext
        omega
      rw [link, ih hrest, Function.update_of_ne hfirst]

theorem link_snd {count cur index : ℕ} (next : ℕ → Option ℕ) (hstride : 0 < layout.stride)
    (hindex : index < count) :
    (layout.link count cur next).2 (cur + index * layout.stride) =
      some (cur + (index + 1) * layout.stride) := by
  induction count generalizing cur next index with
  | zero => exact absurd hindex (Nat.not_lt_zero index)
  | succ count ih =>
      rw [link]
      cases index with
      | zero =>
          have hother : ∀ other < count,
              cur + 0 * layout.stride ≠ cur + layout.stride + other * layout.stride := by
            intro other _
            omega
          rw [link_snd_of_ne hother, Nat.zero_mul, Nat.add_zero, Function.update_self,
            Nat.zero_add, Nat.one_mul]
      | succ index =>
          have hshift : ∀ factor, cur + (factor + 1) * layout.stride =
              cur + layout.stride + factor * layout.stride := by
            intro factor
            rw [Nat.succ_mul]
            omega
          rw [hshift, hshift, ih _ (Nat.lt_of_succ_lt_succ hindex)]

end Link

/-! ## Every layout -/

/-- What the constructor makes of its arguments. -/
structure Spaced (layout : Layout) : Prop where
  positive : 0 < layout.granularity
  offset : layout.offset = layout.granularity - sizeofNode % layout.granularity
  frameSize : layout.frameSize = layout.stride * (layout.population + 1)

namespace Spaced

variable {layout : Layout}

theorem offset_eq (hspaced : layout.Spaced) :
    sizeofNode + layout.offset = layout.granularity * (sizeofNode / layout.granularity + 1) := by
  have hdiv := Nat.div_add_mod sizeofNode layout.granularity
  have hmod := Nat.mod_lt sizeofNode hspaced.positive
  rw [hspaced.offset, Nat.mul_add, Nat.mul_one]
  omega

theorem dvd_stride (hspaced : layout.Spaced) : layout.granularity ∣ layout.stride := by
  unfold stride
  rw [hspaced.offset_eq]
  exact (Nat.dvd_mul_right _ _).add (Nat.dvd_refl _)

theorem bufferOf_nodeAt (frame : Frame) (index : ℕ) :
    layout.bufferOf (frame.nodeAt layout index) + layout.granularity =
      frame.nodeAt layout (index + 1) := by
  unfold bufferOf Frame.nodeAt stride
  rw [Nat.succ_mul]
  omega

theorem nodeAt_le {first second : ℕ} (frame : Frame) (hle : first ≤ second) :
    frame.nodeAt layout first ≤ frame.nodeAt layout second :=
  Nat.add_le_add_left (Nat.mul_le_mul_right layout.stride hle) frame.memFrame

theorem initFrame_eq (hspaced : layout.Spaced) (buf : ℕ) (memory : ℕ → Option ℕ) :
    layout.initFrame buf memory =
      some ⟨buf, buf + layout.population * layout.stride,
        Function.update (layout.link layout.population buf memory).2
          (buf + layout.population * layout.stride) none⟩ := by
  have hend : buf + layout.population * layout.stride + layout.stride =
      buf + layout.frameSize := by
    rw [hspaced.frameSize, Nat.mul_succ, Nat.mul_comm]
    omega
  unfold initFrame
  simp only [link_fst, if_pos hend]

theorem links (hspaced : layout.Spaced) {frame : Frame} {memory : ℕ → Option ℕ}
    (hnext : frame.next = Function.update
      (layout.link layout.population frame.memFrame memory).2
        (frame.memFrame + layout.population * layout.stride) none)
    {index : ℕ} (hindex : index ≤ layout.population) :
    frame.next (frame.nodeAt layout index) =
      ((initPerThreadList layout.population).next index).map (frame.nodeAt layout) := by
  have hstride : 0 < layout.stride := by
    have hpositive := hspaced.positive
    unfold stride
    omega
  rw [hnext]
  unfold Frame.nodeAt initPerThreadList
  by_cases hlast : index = layout.population
  · subst hlast
    simp only [Function.update_self, Nat.lt_irrefl, if_false, Option.map_none]
  · have hless : index < layout.population := Nat.lt_of_le_of_ne hindex hlast
    have hne : frame.memFrame + index * layout.stride ≠
        frame.memFrame + layout.population * layout.stride := by
      have hproduct := Nat.mul_lt_mul_of_pos_right hless hstride
      omega
    rw [Function.update_of_ne hne, link_snd memory hstride hless]
    simp only [if_pos hless, Option.map_some]

theorem fits (hspaced : layout.Spaced) {frame : Frame} {memory : ℕ → Option ℕ}
    (hframe : layout.initFrame frame.memFrame memory = some frame) : frame.Fits layout := by
  rw [hspaced.initFrame_eq] at hframe
  have hlast := congrArg Frame.last (Option.some.inj hframe)
  have hnext := congrArg Frame.next (Option.some.inj hframe)
  have hbuffer := fun index => @bufferOf_nodeAt layout frame index
  constructor
  · exact hlast.symm
  · exact fun index hindex => hspaced.links hnext.symm hindex
  · intro index hindex
    constructor
    · unfold bufferOf Frame.nodeAt
      omega
    · have hend := @nodeAt_le layout _ _ frame (Nat.succ_le_succ hindex)
      rw [hbuffer, hspaced.frameSize, Nat.mul_comm]
      exact hend
  · intro first second hless
    have hnode := @nodeAt_le layout _ _ frame (Nat.succ_le_of_lt hless)
    rw [hbuffer]
    exact hnode.trans (by unfold bufferOf; omega)
  · intro index other
    by_cases hafter : index < other
    · left
      rw [hbuffer]
      exact nodeAt_le frame (Nat.succ_le_of_lt hafter)
    · right
      have hnode := @nodeAt_le layout _ _ frame (Nat.le_of_not_lt hafter)
      unfold bufferOf
      omega
  · intro index
    have hstart : layout.bufferOf (frame.nodeAt layout index) - frame.memFrame =
        index * layout.stride + (sizeofNode + layout.offset) := by
      unfold bufferOf Frame.nodeAt
      omega
    rw [hstart, hspaced.offset_eq]
    exact (Dvd.dvd.mul_left hspaced.dvd_stride index).add (Nat.dvd_mul_right _ _)
  · intro node
    unfold nodeOf clearedFrom bufferOf
    omega
  · intro node
    unfold clearedFrom bufferOf stride
    omega

end Spaced

theorem construct_spaced
    {granularity population align : ℕ} (hgranularity : 1 ≤ granularity) (halign : 1 ≤ align)
    (hint : NoOverflow granularity population align) :
    IsLeast {word | sizeofPointer ∣ word ∧ align ≤ word}
        (construct granularity population align).align ∧
      IsLeast {size | (construct granularity population align).align ∣ size ∧ granularity ≤ size}
        (construct granularity population align).granularity ∧
        (construct granularity population align).Spaced := by
  obtain ⟨hgranularityInt, halignInt, hpopulation, halignLt, hgranularityLt⟩ := hint
  have halignLeast : IsLeast {word | sizeofPointer ∣ word ∧ align ≤ word}
      (construct granularity population align).align :=
    alignTo_isLeast (by decide) (by unfold sizeofPointer; omega)
  have halignPos : 1 ≤ (construct granularity population align).align :=
    halign.trans halignLeast.1.2
  have hgranularityLeast :
      IsLeast {size | (construct granularity population align).align ∣ size ∧ granularity ≤ size}
        (construct granularity population align).granularity :=
    alignTo_isLeast halignPos (by omega)
  refine ⟨halignLeast, hgranularityLeast, hgranularity.trans hgranularityLeast.1.2, rfl, ?_⟩
  have hoffset : (construct granularity population align).offset ≤
      (construct granularity population align).granularity := Nat.sub_le _ _
  have hstride : (construct granularity population align).stride ≤ 2 ^ 32 + 24 := by
    unfold stride sizeofNode
    omega
  have hproduct : (construct granularity population align).stride *
      ((construct granularity population align).population + 1) ≤ (2 ^ 32 + 24) * 2 ^ 31 :=
    Nat.mul_le_mul hstride hpopulation.le
  exact Nat.mod_eq_of_lt (by omega)

/-- Whatever the arguments and wherever the frame lies, the loop ends at the last node
and the frame holds every node and every buffer at its place. -/
theorem fits_initFrame
    (granularity population align : ℕ) (hgranularity : 1 ≤ granularity) (halign : 1 ≤ align)
    (hint : NoOverflow granularity population align) (buf : ℕ) (memory : ℕ → Option ℕ) :
    IsLeast {word | sizeofPointer ∣ word ∧ align ≤ word}
        (construct granularity population align).align ∧
      IsLeast {size | (construct granularity population align).align ∣ size ∧ granularity ≤ size}
        (construct granularity population align).granularity ∧
        ∃ frame, (construct granularity population align).initFrame buf memory = some frame ∧
          frame.memFrame = buf ∧ frame.Fits (construct granularity population align) := by
  obtain ⟨halignLeast, hgranularityLeast, hspaced⟩ :=
    construct_spaced hgranularity halign hint
  have hframe := hspaced.initFrame_eq buf memory
  exact ⟨halignLeast, hgranularityLeast, _, hframe, rfl, hspaced.fits hframe⟩

/-- Buffers of ten bytes, aligned to words, in a frame of four nodes. -/
theorem fits_tenBytes :
    NoOverflow 10 3 1 ∧ (construct 10 3 1).granularity = 16 ∧
      ∃ frame, (construct 10 3 1).initFrame 4096 (fun _ => none) = some frame ∧
        frame.memFrame = 4096 ∧ frame.Fits (construct 10 3 1) :=
  ⟨by decide, by decide,
    (fits_initFrame 10 3 1 (by norm_num) (by norm_num) (by decide) 4096 fun _ => none).2.2⟩

end Layout

end PerThreadMemory
end BackEndFacility
