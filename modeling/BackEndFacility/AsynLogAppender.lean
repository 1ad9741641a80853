import BackEndFacility.LogFile
import BackEndFacility.Machine
import BackEndFacility.RecycledBuffers

/-!
# The asynchronous log of `slog/AsynLogAppender.cc`

Producer threads copy their messages into buffers of their own and push a
slice for each of them into the vector under `m_pb1`.  The logging thread
swaps the two vectors, copies the messages into the log file and recycles the
buffers for which it finds a slice of length zero.

Every section that is protected by a mutex is one step, and so is every
message the logging thread deals with.  The logging thread may wake up from
its timed wait at any time, so `m_curPendingMsg`, which only decides when to
signal it, is left out.
-/

namespace BackEndFacility
namespace AsynLog

/-- `S_BUFF_SIZE`. -/
def buffSize : ℕ := 256 * 1024

/-! ## Buffers and their pool -/

structure FixedBuffer where
  cur : ℕ
  bytes : ℕ → UInt8

namespace FixedBuffer

def construct (memory : ℕ → UInt8) : FixedBuffer :=
  ⟨0, Function.update memory 0 0⟩

def append (buffer : FixedBuffer) (msg : List UInt8) : FixedBuffer where
  cur := buffer.cur + msg.length
  bytes := fun i =>
    if buffer.cur ≤ i ∧ i < buffer.cur + msg.length then
      msg.getD (i - buffer.cur) 0
    else buffer.bytes i

def reset (buffer : FixedBuffer) : FixedBuffer := { buffer with cur := 0 }

def available (buffer : FixedBuffer) : ℕ := buffSize - buffer.cur

end FixedBuffer

/-- The pool of free buffers, with the buffers themselves: all those below
`next` have been created, and `memory` is what they hold. -/
structure FixedBufferPool where
  pool : List ℕ
  unrecycled : ℕ
  next : ℕ
  memory : ℕ → FixedBuffer

namespace FixedBufferPool

def fixSize : ℕ := 32

def incGran : ℕ := 16

def construct (garbage : ℕ → ℕ → UInt8) : FixedBufferPool where
  pool := List.range fixSize
  unrecycled := 0
  next := fixSize
  memory := fun buffer => .construct (garbage buffer)

/-- `EnlargePoolUnsafe`, of which the first `fresh` allocations succeed. -/
def enlarge (fresh : ℕ) (this : FixedBufferPool) : FixedBufferPool :=
  if 1024 * fixSize < this.unrecycled then this
  else
    { this with
      pool := this.pool ++ List.range' this.next (min fresh incGran)
      next := this.next + min fresh incGran
      memory := fun buffer =>
        if this.next ≤ buffer ∧ buffer < this.next + min fresh incGran then
          .construct (this.memory buffer).bytes
        else this.memory buffer }

/-- `GetBuff`: the last buffer of the pool, or null. -/
def getBuff (fresh : ℕ) (this : FixedBufferPool) :
    Option ℕ × FixedBufferPool :=
  let full := if this.pool = [] then this.enlarge fresh else this
  match full.pool.getLast? with
  | none => (none, full)
  | some buffer =>
      (some buffer, { full with
        pool := full.pool.dropLast
        unrecycled := full.unrecycled + 1 })

def recycle (buffer : ℕ) (this : FixedBufferPool) : FixedBufferPool :=
  { this with
    pool := this.pool ++ [buffer]
    unrecycled := (this.unrecycled + (2 ^ 64 - 1)) % 2 ^ 64
    memory := Function.update this.memory buffer
      (this.memory buffer).reset }

def shrink (this : FixedBufferPool) : FixedBufferPool :=
  if fixSize < this.pool.length then
    { this with pool := this.pool.take fixSize }
  else this

def write (buffer : ℕ) (msg : List UInt8) (this : FixedBufferPool) :
    FixedBufferPool :=
  { this with
    memory := Function.update this.memory buffer
      ((this.memory buffer).append msg) }

end FixedBufferPool

/-! ## Threads -/

abbrev LogMsg := BufferSlice

/-- Where a producer is in `Append`, or in the destructor of its
`PerThreadItem` when it exits. -/
inductive ProducerPc where
  | idle
  | firstBuff (msg : List UInt8)
  | check (msg : List UInt8)
  | pushRetired (msg : List UInt8)
  | getBuff (msg : List UInt8)
  | write (msg : List UInt8)
  | push (msg : List UInt8) (offset : ℕ)
  | exitPush
  | exited
  deriving DecidableEq, Repr

/-- The second component is `tl_buff_info`: unset, or a `buff` that may be
null. -/
structure Producer where
  pc : ProducerPc
  item : Option (Option ℕ)
  deriving DecidableEq, Repr

inductive LoggerPc where
  | top
  | waiting (idle : ℕ)
  | writing (i : ℕ)
  | clearing
  | terminated
  deriving DecidableEq, Repr

/-- `returned` records the messages whose `Append` returned their length, in
the order of their pushes.  An assertion that fails ends the process, and
`corrupted` marks a copy beyond the end of a buffer. -/
structure State where
  running : Bool
  pool : FixedBufferPool
  pb1 : List LogMsg
  pb2 : List LogMsg
  logFile : LogFile
  logger : LoggerPc
  producers : ℕ → Producer
  aborted : Bool
  corrupted : Bool
  returned : List (ℕ × List UInt8)

/-- `fresh` is the number of allocations that succeed in this step, `script`
the answers of `write(2)`, and the two flags tell which of the pending
vectors have grown beyond their normal capacity. -/
inductive Action where
  | append (thread : ℕ) (msg : List UInt8)
  | produce (thread : ℕ) (fresh : ℕ)
  | exit (thread : ℕ)
  | stop
  | log (script : List WriteResult) (grown1 grown2 : Bool)

def start (garbage : ℕ → ℕ → UInt8) : State where
  running := true
  pool := .construct garbage
  pb1 := []
  pb2 := []
  logFile := ⟨[], []⟩
  logger := .top
  producers := fun _ => ⟨.idle, none⟩
  aborted := false
  corrupted := false
  returned := []

namespace State

def setProducer (state : State) (thread : ℕ) (producer : Producer) : State :=
  { state with producers := Function.update state.producers thread producer }

/-- `AddToWriter`, without the thread that calls it moving on. -/
def addToWriter (state : State) (msg : LogMsg) : State :=
  if state.running then { state with pb1 := state.pb1 ++ [msg] }
  else { state with aborted := true }

/-! ## Steps -/

def produce (state : State) (thread fresh : ℕ) : Option State :=
  let producer := state.producers thread
  match producer.pc with
  | .idle => none
  | .firstBuff msg =>
      let got := state.pool.getBuff fresh
      some ({ state with pool := got.2 }.setProducer thread
        ⟨.check msg, some got.1⟩)
  | .check msg =>
      match producer.item with
      | some (some buffer) =>
          if (state.pool.memory buffer).available < msg.length then
            some (state.setProducer thread
              { producer with pc := .pushRetired msg })
          else
            some (state.setProducer thread { producer with pc := .write msg })
      | _ =>
          some (state.setProducer thread { producer with pc := .getBuff msg })
  | .pushRetired msg =>
      match producer.item with
      | some (some buffer) =>
          some ((state.addToWriter (.retire buffer)).setProducer thread
            { producer with pc := .getBuff msg })
      | _ => some { state with aborted := true }
  | .getBuff msg =>
      let got := state.pool.getBuff fresh
      match got.1 with
      | none =>
          some ({ state with pool := got.2 }.setProducer thread
            ⟨.idle, some none⟩)
      | some buffer =>
          some ({ state with pool := got.2 }.setProducer thread
            ⟨.write msg, some (some buffer)⟩)
  | .write msg =>
      match producer.item with
      | some (some buffer) =>
          if (state.pool.memory buffer).cur + msg.length ≤ buffSize then
            some ({ state with
              pool := state.pool.write buffer msg }.setProducer thread
                { producer with
                  pc := .push msg (state.pool.memory buffer).cur })
          else some { state with corrupted := true }
      | _ => some { state with aborted := true }
  | .push msg offset =>
      match producer.item with
      | some (some buffer) =>
          if state.running then
            some ({ state.addToWriter ⟨msg.length, buffer, offset⟩ with
              returned := state.returned ++ [(thread, msg)] }.setProducer
                thread { producer with pc := .idle })
          else
            some (state.addToWriter ⟨msg.length, buffer, offset⟩)
      | _ => some { state with aborted := true }
  | .exitPush =>
      match producer.item with
      | some (some buffer) =>
          some ((state.addToWriter (.retire buffer)).setProducer thread
            ⟨.exited, none⟩)
      | _ => some { state with aborted := true }
  | .exited => none

/-- `ShrinkMemoryUsageUnlock`. -/
def shrinkMemoryUsage (state : State) (grown1 grown2 : Bool) : State :=
  { state with
    pool := state.pool.shrink
    pb1 := if grown1 then [] else state.pb1
    pb2 := if grown2 then [] else state.pb2 }

/-- The end of the section in which the logging thread holds the lock. -/
def swapOrLeave (state : State) : State :=
  if !state.running && state.pb1.isEmpty then
    { state with logger := .terminated }
  else
    { state with
      logger := .writing 0
      pb1 := state.pb2
      pb2 := state.pb1 }

def log (state : State) (script : List WriteResult)
    (grown1 grown2 : Bool) : Option State :=
  match state.logger with
  | .top =>
      if state.running then some { state with logger := .waiting 0 }
      else some state.swapOrLeave
  | .waiting idle =>
      if state.pb1.isEmpty then
        let shrunk :=
          if idle + 1 = 8 then state.shrinkMemoryUsage grown1 grown2
          else state
        if shrunk.running then
          some { shrunk with logger := .waiting (idle + 1) }
        else some shrunk.swapOrLeave
      else some state.swapOrLeave
  | .writing i =>
      match state.pb2[i]? with
      | none =>
          match state.logFile.flush script with
          | none => none
          | some (logFile, _) =>
              some { state with
                logFile := logFile
                logger := .clearing }
      | some msg =>
          if msg.len = 0 then
            some { state with
              pool := state.pool.recycle msg.buffer
              logger := .writing (i + 1) }
          else if LogFile.defBuffSize < msg.len then
            some { state with aborted := true }
          else
            match state.logFile.append script
                (msg.read fun buffer => (state.pool.memory buffer).bytes) with
            | none => none
            | some (logFile, _) =>
                some { state with
                  logFile := logFile
                  logger := .writing (i + 1) }
  | .clearing => some { state with pb2 := [], logger := .top }
  | .terminated => none

def step (state : State) (action : Action) : Option State :=
  if state.aborted || state.corrupted then none
  else
    match action with
    | .append thread msg =>
        let producer := state.producers thread
        match producer.pc with
        | .idle =>
            if msg = [] then some { state with aborted := true }
            else if producer.item = none then
              some (state.setProducer thread
                { producer with pc := .firstBuff msg })
            else
              some (state.setProducer thread
                { producer with pc := .check msg })
        | _ => none
    | .produce thread fresh => state.produce thread fresh
    | .exit thread =>
        let producer := state.producers thread
        match producer.pc, producer.item with
        | .idle, some _ =>
            if state.running then
              some (state.setProducer thread
                { producer with pc := .exitPush })
            else some (state.setProducer thread ⟨.exited, none⟩)
        | .idle, none => some (state.setProducer thread ⟨.exited, none⟩)
        | _, _ => none
    | .stop =>
        if state.running then some { state with running := false } else none
    | .log script grown1 grown2 => state.log script grown1 grown2

end State

def machine (garbage : ℕ → ℕ → UInt8) : Machine State Action where
  start := start garbage
  step := State.step

/-- The assumptions on the callers and on `write(2)`: no `Append` starts after
`Stop`, a message fits into a buffer, and `write(2)` has short writes and
interruptions only. -/
def Assumed (state : State) : Action → Prop
  | .append _ msg => state.running = true ∧ msg.length ≤ buffSize
  | .log script _ _ => LogFile.Reliable script
  | _ => True

instance decidableAssumed (state : State) :
    ∀ action, Decidable (Assumed state action)
  | .append _ msg =>
      inferInstanceAs
        (Decidable (state.running = true ∧ msg.length ≤ buffSize))
  | .log script _ _ => inferInstanceAs (Decidable (.failed ∉ script))
  | .produce _ _ => isTrue trivial
  | .exit _ => isTrue trivial
  | .stop => isTrue trivial

end AsynLog
end BackEndFacility
