import BackEndFacility.HttpMessage
import BackEndFacility.RangeSearch

/-!
# The read and write buffers

Pointers into a buffer are offsets from `memory_`.  Consuming all of a read
buffer sends `curPtr_` back to the front of the memory, while the bytes that
were there stay: `window` is everything up to the end of the content, the
consumed bytes included.
-/

namespace BackEndFacility

@[ext]
structure HttpReadBuffer where
  size : Nat
  memory : Bytes
  curPtr : Nat
  curSize : Nat
  memory_length : memory.length = size
  inside : curPtr + curSize ≤ size
  rewound : curSize = 0 → curPtr = 0
deriving DecidableEq

namespace HttpReadBuffer

/-- A buffer over freshly allocated memory, which may hold any bytes. -/
def init (memory : Bytes) : HttpReadBuffer where
  size := memory.length
  memory := memory
  curPtr := 0
  curSize := 0
  memory_length := rfl
  inside := Nat.zero_le _
  rewound := fun _ => rfl

def getContenLen (buffer : HttpReadBuffer) : Nat :=
  buffer.curSize

def getContentStart (buffer : HttpReadBuffer) : Nat :=
  buffer.curPtr

def getContentEnd (buffer : HttpReadBuffer) : Nat :=
  buffer.curPtr + buffer.curSize

def content (buffer : HttpReadBuffer) : Bytes :=
  slice buffer.memory buffer.getContentStart buffer.getContentEnd

def window (buffer : HttpReadBuffer) : Bytes :=
  slice buffer.memory 0 buffer.getContentEnd

def resetBuffer (buffer : HttpReadBuffer) : HttpReadBuffer :=
  { buffer with
    curPtr := 0
    curSize := 0
    inside := Nat.zero_le _
    rewound := fun _ => rfl }

def consumeBuffer (buffer : HttpReadBuffer) (sz : Nat) : HttpReadBuffer :=
  { buffer with
    curPtr := if buffer.curSize ≤ sz then 0 else buffer.curPtr + sz
    curSize := buffer.curSize - min sz buffer.curSize
    inside := by
      have hinside := buffer.inside
      split_ifs <;> omega
    rewound := by
      intro hempty
      rw [if_pos (by omega)] }

def moveDataToFront (buffer : HttpReadBuffer) : HttpReadBuffer :=
  { buffer with
    memory := overwrite buffer.memory 0 buffer.content
    curPtr := 0
    memory_length := by
      have hlength := buffer.memory_length
      have hinside := buffer.inside
      rw [overwrite_length, hlength]
      unfold content getContentStart getContentEnd
      rw [slice_length (by omega)]
      omega
    inside := by
      have hinside := buffer.inside
      omega
    rewound := fun _ => rfl }

/-- `GetFreeBuffer`; the size it answers is the `freeSize` of the result. -/
def getFreeBuffer (buffer : HttpReadBuffer) : HttpReadBuffer :=
  let left := buffer.size - buffer.curPtr - buffer.curSize
  if left < 64 then buffer.moveDataToFront else buffer

def freeSize (buffer : HttpReadBuffer) : Nat :=
  buffer.size - (buffer.curPtr + buffer.curSize)

/-- The bytes a read stores at the free end, and `IncreaseContentRange` for them. -/
def increaseContentRange (buffer : HttpReadBuffer) (bytes : Bytes)
    (hroom : bytes.length ≤ buffer.freeSize) : HttpReadBuffer :=
  { buffer with
    memory := overwrite buffer.memory (buffer.curPtr + buffer.curSize) bytes
    curSize := buffer.curSize + bytes.length
    memory_length := by
      have hlength := buffer.memory_length
      have hinside := buffer.inside
      unfold freeSize at hroom
      rw [overwrite_length (by omega), hlength]
    inside := by
      have hinside := buffer.inside
      unfold freeSize at hroom
      omega
    rewound := fun hempty => buffer.rewound (by omega) }

theorem getContentEnd_le (buffer : HttpReadBuffer) :
    buffer.getContentEnd ≤ buffer.memory.length := by
  rw [buffer.memory_length]
  exact buffer.inside

theorem start_le_end (buffer : HttpReadBuffer) :
    buffer.getContentStart ≤ buffer.getContentEnd := by
  unfold getContentStart getContentEnd
  omega

@[simp]
theorem content_length (buffer : HttpReadBuffer) :
    buffer.content.length = buffer.curSize := by
  unfold content
  rw [slice_length buffer.getContentEnd_le]
  unfold getContentStart getContentEnd
  omega

theorem content_eq_nil_iff (buffer : HttpReadBuffer) :
    buffer.content = [] ↔ buffer.curSize = 0 := by
  rw [← List.length_eq_zero_iff, content_length]

theorem content_suffix_window (buffer : HttpReadBuffer) :
    buffer.content <:+ buffer.window := by
  unfold content window slice
  exact List.drop_suffix _ _

theorem consumeBuffer_memory (buffer : HttpReadBuffer) (sz : Nat) :
    (buffer.consumeBuffer sz).memory = buffer.memory := by
  rfl

theorem content_consumeBuffer
    {buffer : HttpReadBuffer} {u v : Bytes}
    (hcontent : buffer.content = u ++ v) :
    (buffer.consumeBuffer u.length).content = v := by
  have hlen : buffer.curSize = u.length + v.length := by
    rw [← content_length, hcontent, List.length_append]
  by_cases hv : v = []
  · rw [hv, content_eq_nil_iff]
    simp only [consumeBuffer, hlen, hv, List.length_nil]
    omega
  · have hpos : 0 < v.length := List.length_pos_iff.mpr hv
    have hright := slice_right hcontent
    unfold content getContentStart getContentEnd consumeBuffer
    simp only [if_neg (show ¬ buffer.curSize ≤ u.length by omega)]
    rw [show buffer.curPtr + u.length + (buffer.curSize - min u.length buffer.curSize) =
      buffer.getContentEnd by unfold getContentEnd; omega]
    exact hright

theorem content_drained
    {buffer : HttpReadBuffer} {sz : Nat}
    (hall : buffer.curSize ≤ sz) :
    (buffer.consumeBuffer sz).content = [] := by
  rw [content_eq_nil_iff]
  simp only [consumeBuffer]
  omega

/-- With the content used up, pointers kept from before span the whole window. -/
theorem start_drained
    {buffer : HttpReadBuffer} {sz : Nat}
    (hall : buffer.curSize ≤ sz) :
    (buffer.consumeBuffer sz).getContentStart = 0 := by
  unfold getContentStart consumeBuffer
  exact if_pos hall

theorem getFreeBuffer_of_empty
    {buffer : HttpReadBuffer}
    (hempty : buffer.curSize = 0) :
    buffer.getFreeBuffer = buffer := by
  have hfront : buffer.moveDataToFront = buffer := by
    have hcontent := (buffer.content_eq_nil_iff).mpr hempty
    refine HttpReadBuffer.ext rfl ?_ (buffer.rewound hempty).symm rfl
    simp [moveDataToFront, hcontent, overwrite]
  unfold getFreeBuffer
  simp only [hfront, ite_self]

theorem freeSize_of_empty
    {buffer : HttpReadBuffer}
    (hempty : buffer.curSize = 0) :
    buffer.freeSize = buffer.size := by
  unfold freeSize
  rw [hempty, buffer.rewound hempty]
  omega

theorem content_increaseContentRange
    {buffer : HttpReadBuffer} {bytes : Bytes}
    (hroom : bytes.length ≤ buffer.freeSize)
    (hempty : buffer.curSize = 0) :
    (buffer.increaseContentRange bytes hroom).content = bytes ∧
      (buffer.increaseContentRange bytes hroom).window = bytes := by
  have hptr := buffer.rewound hempty
  have hall : slice (overwrite buffer.memory 0 bytes) 0 bytes.length = bytes := by
    have hslice := slice_overwrite bytes (le_refl 0) (Nat.zero_le buffer.memory.length)
    rw [Nat.zero_add, slice_of_le (le_refl 0), List.nil_append] at hslice
    exact hslice
  unfold content window getContentStart getContentEnd increaseContentRange
  simp only [hptr, hempty, Nat.zero_add]
  exact ⟨hall, hall⟩

theorem content_resetBuffer (buffer : HttpReadBuffer) :
    buffer.resetBuffer.content = [] := by
  rw [content_eq_nil_iff]
  rfl

end HttpReadBuffer

/-! ## Write buffers -/

/-- A write buffer, told apart from the others by the allocation it came from;
`data` is what stands between `curPtr_` and `curPtr_ + curSize_`. -/
structure HttpBuffer where
  id : Nat
  size : Nat
  data : Bytes
deriving DecidableEq

structure HttpWriteBuffer where
  size : Nat
  numSlot : Nat
  freeBuffer : List (List HttpBuffer)
  allocated : Nat
deriving DecidableEq

namespace HttpWriteBuffer

def init (granularity num : Nat) : HttpWriteBuffer where
  size := granularity
  numSlot := 8
  freeBuffer :=
    (List.range num).reverse.map (fun id => ⟨id, granularity, []⟩) :: List.replicate 7 []
  allocated := num

def slotIndex (pool : HttpWriteBuffer) (sz : Nat) : Nat :=
  let mod := sz % pool.size
  let mod := if 0 < mod then pool.size - mod else 0
  (sz + mod) / pool.size - 1

def allocWriteBuffer (pool : HttpWriteBuffer) (sz : Int) :
    Option (HttpBuffer × HttpWriteBuffer) :=
  if sz ≤ 0 ∨ pool.numSlot * pool.size < sz then none
  else
    let index := pool.slotIndex sz.toNat
    match pool.freeBuffer.getD index [] with
    | [] =>
        some (⟨pool.allocated, (index + 1) * pool.size, []⟩,
          { pool with allocated := pool.allocated + 1 })
    | entity :: list =>
        some ({ entity with data := [] },
          { pool with freeBuffer := pool.freeBuffer.set index list })

def releaseWriteBuffer (pool : HttpWriteBuffer) (buffer : HttpBuffer) : HttpWriteBuffer :=
  let index := pool.slotIndex buffer.size
  { pool with
    freeBuffer :=
      pool.freeBuffer.set index ({ buffer with data := [] } :: pool.freeBuffer.getD index []) }

end HttpWriteBuffer

end BackEndFacility
