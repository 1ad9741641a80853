import BackEndFacility.HttpBuffer
import BackEndFacility.Machine

/-!
# The read buffer as a bounded byte queue

The memory level of `HttpReadBuffer`: four plain fields, `int` results that may be
negative, and an assertion that may fail.  What keeps the pointers inside is not a
part of the state here.  Every state that is reached is one of `HttpReadBuffer`, where
it is, and the content is the queue of the bytes received and not yet consumed.
-/

namespace BackEndFacility

/-- The members of the `HttpBuffer` behind a read buffer. -/
@[ext]
structure ReadMemory where
  size : ℕ
  memory : Bytes
  curPtr : ℕ
  curSize : ℕ
deriving DecidableEq

namespace ReadMemory

/-- `AllocHttpBuffer`, over memory that may hold any bytes. -/
def allocHttpBuffer (memory : Bytes) : ReadMemory :=
  ⟨memory.length, memory, 0, 0⟩

def resetBuffer (buff : ReadMemory) : ReadMemory :=
  { buff with curPtr := 0, curSize := 0 }

def consumeBuffer (buff : ReadMemory) (sz : ℕ) : ReadMemory :=
  let sz := if sz > buff.curSize then buff.curSize else sz
  { buff with
    curPtr := if sz = buff.curSize then 0 else buff.curPtr + sz
    curSize := buff.curSize - sz }

def moveDataToFront (buff : ReadMemory) : ReadMemory :=
  { buff with
    memory := overwrite buff.memory 0 (slice buff.memory buff.curPtr (buff.curPtr + buff.curSize))
    curPtr := 0 }

/-- `GetFreeBuffer` with the pointer it returns and the size it answers. -/
def getFreeBuffer (buff : ReadMemory) : ReadMemory × ℕ × ℤ :=
  let left : ℤ := buff.size - buff.curPtr - buff.curSize
  let buff := if left < 64 then buff.moveDataToFront else buff
  (buff, buff.curPtr + buff.curSize, buff.size - (buff.curPtr + buff.curSize))

/-- `IncreaseContentRange`; no result when its assertion fails. -/
def increaseContentRange (buff : ReadMemory) (sz : ℕ) : Option ReadMemory :=
  let buff := { buff with curSize := buff.curSize + sz }
  if buff.curPtr + buff.curSize ≤ buff.size then some buff else none

def content (buff : ReadMemory) : Bytes :=
  slice buff.memory buff.curPtr (buff.curPtr + buff.curSize)

/-! ## Steps -/

inductive Step where
  | receive (bytes : Bytes)
  | consume (sz : ℕ)
  | reset
deriving DecidableEq

/-- What `ReadHttpData` does with the bytes that came in, and the other two steps. -/
def step (buff : ReadMemory) : Step → Option ReadMemory
  | .receive bytes =>
      match buff.getFreeBuffer with
      | (buff, point, _) =>
          { buff with memory := overwrite buff.memory point bytes }.increaseContentRange
            bytes.length
  | .consume sz => some (buff.consumeBuffer sz)
  | .reset => some buff.resetBuffer

def machine (memory : Bytes) : Machine ReadMemory Step where
  start := allocHttpBuffer memory
  step := step

/-- Nobody stores more bytes than `GetFreeBuffer` answered. -/
def WithinAnswer (buff : ReadMemory) : Step → Prop
  | .receive bytes => (bytes.length : ℤ) ≤ buff.getFreeBuffer.2.2
  | _ => True

instance decidableWithinAnswer (buff : ReadMemory) :
    ∀ step, Decidable (buff.WithinAnswer step)
  | .receive bytes => inferInstanceAs (Decidable ((bytes.length : ℤ) ≤ buff.getFreeBuffer.2.2))
  | .consume _ => isTrue trivial
  | .reset => isTrue trivial

/-- The queue of bytes after a step. -/
def enqueue (queue : Bytes) : Step → Bytes
  | .receive bytes => queue ++ bytes
  | .consume sz => queue.drop sz
  | .reset => []

def byteQueue (steps : List Step) : Bytes := steps.foldl enqueue []

end ReadMemory

/-! ## The buffer with its invariant -/

namespace HttpReadBuffer

/-- The plain fields. -/
def raw (buffer : HttpReadBuffer) : ReadMemory :=
  ⟨buffer.size, buffer.memory, buffer.curPtr, buffer.curSize⟩

theorem raw_content (buffer : HttpReadBuffer) : buffer.raw.content = buffer.content := rfl

theorem raw_resetBuffer (buffer : HttpReadBuffer) :
    buffer.raw.resetBuffer = buffer.resetBuffer.raw := rfl

theorem raw_consumeBuffer (buffer : HttpReadBuffer) (sz : ℕ) :
    buffer.raw.consumeBuffer sz = (buffer.consumeBuffer sz).raw := by
  unfold ReadMemory.consumeBuffer HttpReadBuffer.consumeBuffer raw
  by_cases hmore : sz > buffer.curSize
  · simp only [if_pos hmore, if_pos (Nat.le_of_lt hmore), if_true]
    rw [min_eq_right (Nat.le_of_lt hmore)]
  · have hle : sz ≤ buffer.curSize := Nat.le_of_not_lt hmore
    simp only [if_neg hmore, min_eq_left hle]
    by_cases hall : sz = buffer.curSize
    · rw [if_pos hall, if_pos hall.ge]
    · rw [if_neg hall, if_neg (by omega)]

theorem raw_getFreeBuffer (buffer : HttpReadBuffer) :
    buffer.raw.getFreeBuffer =
      (buffer.getFreeBuffer.raw, buffer.getFreeBuffer.curPtr + buffer.getFreeBuffer.curSize,
        (buffer.getFreeBuffer.freeSize : ℤ)) := by
  have hfree : ∀ other : HttpReadBuffer,
      ((other.size : ℤ) - (other.curPtr + other.curSize)) = other.freeSize := by
    intro other
    have hinside := other.inside
    unfold freeSize
    omega
  have hinside := buffer.inside
  have hleft : ((buffer.size : ℤ) - buffer.curPtr - buffer.curSize < 64) ↔
      buffer.size - buffer.curPtr - buffer.curSize < 64 := by
    omega
  rw [← hfree]
  unfold ReadMemory.getFreeBuffer getFreeBuffer
  simp only [raw, hleft]
  by_cases hshort : buffer.size - buffer.curPtr - buffer.curSize < 64
  · simp only [if_pos hshort]
    rfl
  · simp only [if_neg hshort]

theorem getFreeBuffer_eq (buffer : HttpReadBuffer) :
    buffer.getFreeBuffer = if buffer.size - buffer.curPtr - buffer.curSize < 64 then
      buffer.moveDataToFront else buffer := rfl

theorem content_moveDataToFront (buffer : HttpReadBuffer) :
    buffer.moveDataToFront.content = buffer.content := by
  have hslice := slice_overwrite buffer.content (le_refl 0) (Nat.zero_le buffer.memory.length)
  rw [slice_of_le (le_refl 0), List.nil_append, content_length] at hslice
  exact hslice

theorem content_getFreeBuffer (buffer : HttpReadBuffer) :
    buffer.getFreeBuffer.content = buffer.content := by
  rw [getFreeBuffer_eq]
  split_ifs
  · exact buffer.content_moveDataToFront
  · rfl

/-- The answer of `GetFreeBuffer` is short only when the buffer is full. -/
theorem le_freeSize_getFreeBuffer (buffer : HttpReadBuffer) :
    min 64 (buffer.size - buffer.content.length) ≤ buffer.getFreeBuffer.freeSize := by
  rw [content_length, getFreeBuffer_eq]
  split_ifs with hshort
  · unfold freeSize moveDataToFront
    simp only
    omega
  · unfold freeSize
    omega

theorem content_append
    {buffer : HttpReadBuffer} {bytes : Bytes} (hroom : bytes.length ≤ buffer.freeSize) :
    (buffer.increaseContentRange bytes hroom).content = buffer.content ++ bytes := by
  have hinside := buffer.inside
  have hlength := buffer.memory_length
  have hslice := @slice_overwrite UInt8 buffer.memory buffer.curPtr
    (buffer.curPtr + buffer.curSize) bytes (Nat.le_add_right _ _) (by omega)
  rw [Nat.add_assoc] at hslice
  exact hslice

theorem content_consumed (buffer : HttpReadBuffer) (sz : ℕ) :
    (buffer.consumeBuffer sz).content = buffer.content.drop sz := by
  by_cases hall : buffer.curSize ≤ sz
  · rw [content_drained hall, List.drop_of_length_le (by rwa [content_length])]
  · have htaken : (buffer.content.take sz).length = sz := by
      rw [List.length_take, content_length]
      omega
    have hconsumed := @content_consumeBuffer buffer (buffer.content.take sz)
      (buffer.content.drop sz) (List.take_append_drop sz buffer.content).symm
    rwa [htaken] at hconsumed

theorem raw_increaseContentRange
    {buffer : HttpReadBuffer} {bytes : Bytes} (hroom : bytes.length ≤ buffer.freeSize) :
    ReadMemory.increaseContentRange
        { buffer.raw with
          memory := overwrite buffer.memory (buffer.curPtr + buffer.curSize) bytes }
        bytes.length =
      some (buffer.increaseContentRange bytes hroom).raw := by
  have hinside := (buffer.increaseContentRange bytes hroom).inside
  exact if_pos hinside

/-- Every step that keeps to the answer of `GetFreeBuffer` succeeds, leads to a buffer
that keeps the invariant, and does to its content what it does to the queue. -/
theorem raw_step
    (buffer : HttpReadBuffer) (step : ReadMemory.Step) (hwithin : buffer.raw.WithinAnswer step) :
    ∃ next : HttpReadBuffer, buffer.raw.step step = some next.raw ∧ next.size = buffer.size ∧
      next.content = ReadMemory.enqueue buffer.content step := by
  cases step with
  | receive bytes =>
      unfold ReadMemory.WithinAnswer at hwithin
      simp only [raw_getFreeBuffer, Nat.cast_le] at hwithin
      have hsize : buffer.getFreeBuffer.size = buffer.size := by
        rw [getFreeBuffer_eq]
        split_ifs
        · rfl
        · rfl
      refine ⟨buffer.getFreeBuffer.increaseContentRange bytes hwithin, ?_, hsize, ?_⟩
      · simp only [ReadMemory.step, raw_getFreeBuffer]
        exact raw_increaseContentRange hwithin
      · rw [content_append, content_getFreeBuffer]
        rfl
  | consume sz =>
      exact ⟨buffer.consumeBuffer sz, congrArg some (buffer.raw_consumeBuffer sz), rfl,
        buffer.content_consumed sz⟩
  | reset =>
      exact ⟨buffer.resetBuffer, congrArg some buffer.raw_resetBuffer, rfl,
        buffer.content_resetBuffer⟩

end HttpReadBuffer

/-! ## Every sequence of steps -/

namespace ReadMemory

theorem runFrom_raw
    (memory : Bytes) (buffer : HttpReadBuffer) (steps : List Step)
    (hwithin : (machine memory).Admits WithinAnswer buffer.raw steps) :
    ∃ final : HttpReadBuffer, (machine memory).runFrom buffer.raw steps = some final.raw ∧
      final.size = buffer.size ∧ final.content = steps.foldl enqueue buffer.content := by
  induction steps generalizing buffer with
  | nil => exact ⟨buffer, rfl, rfl, rfl⟩
  | cons step rest ih =>
      obtain ⟨hfirst, hrest⟩ := hwithin
      obtain ⟨next, hstep, hsize, hcontent⟩ := buffer.raw_step step hfirst
      obtain ⟨final, hrun, hfinalSize, hfinal⟩ := ih next (hrest next.raw hstep)
      refine ⟨final, ?_, hfinalSize.trans hsize, ?_⟩
      · have htaken : (machine memory).step buffer.raw step = some next.raw := hstep
        simp only [Machine.runFrom, htaken, hrun]
      · rw [hfinal, hcontent, List.foldl_cons]

/-- Over every sequence of steps that store no more than they were offered, no
assertion fails, the pointers stay inside the memory, the content is the queue of the
bytes received and not yet consumed, and `GetFreeBuffer` keeps it and offers room. -/
theorem content_eq_byteQueue
    (memory : Bytes) (steps : List Step)
    (hwithin : (machine memory).Admits WithinAnswer (allocHttpBuffer memory) steps) :
    ∃ buff, (machine memory).run steps = some buff ∧ buff.content = byteQueue steps ∧
      buff.size = memory.length ∧ buff.memory.length = buff.size ∧
        buff.curPtr ≤ buff.size ∧ buff.curPtr + buff.curSize ≤ buff.size ∧
          buff.content.length = buff.curSize ∧
            buff.getFreeBuffer.1.content = buff.content ∧
              min 64 ((buff.size : ℤ) - buff.content.length) ≤ buff.getFreeBuffer.2.2 := by
  obtain ⟨final, hrun, hsize, hcontent⟩ := runFrom_raw memory (.init memory) steps hwithin
  have hinside := final.inside
  have hroom := final.le_freeSize_getFreeBuffer
  have hlength := final.content_length
  have hbound : final.content.length ≤ final.size := by omega
  refine ⟨final.raw, hrun, ?_, hsize, final.memory_length, ?_, hinside, hlength, ?_, ?_⟩
  · have hempty : (HttpReadBuffer.init memory).content = [] := rfl
    rw [final.raw_content, hcontent, hempty]
    rfl
  · exact Nat.le_trans (Nat.le_add_right _ _) hinside
  · rw [final.raw_getFreeBuffer]
    exact final.content_getFreeBuffer
  · rw [final.raw_getFreeBuffer, final.raw_content]
    simp only [HttpReadBuffer.raw]
    omega

/-- Eight bytes of memory: five come in, three leave, and five more come in after the
rest has moved to the front. -/
theorem content_movedToFront :
    ∃ buff, (machine (List.replicate 8 0)).run
        [.receive [1, 2, 3, 4, 5], .consume 3, .receive [6, 7, 8, 9, 10]] = some buff ∧
      buff.content = byteQueue
        [.receive [1, 2, 3, 4, 5], .consume 3, .receive [6, 7, 8, 9, 10]] ∧
      buff.size = (List.replicate 8 (0 : UInt8)).length ∧ buff.memory.length = buff.size ∧
        buff.curPtr ≤ buff.size ∧ buff.curPtr + buff.curSize ≤ buff.size ∧
          buff.content.length = buff.curSize ∧
            buff.getFreeBuffer.1.content = buff.content ∧
              min 64 ((buff.size : ℤ) - buff.content.length) ≤ buff.getFreeBuffer.2.2 :=
  content_eq_byteQueue (List.replicate 8 0)
    [.receive [1, 2, 3, 4, 5], .consume 3, .receive [6, 7, 8, 9, 10]] (by decide)

end ReadMemory

end BackEndFacility
