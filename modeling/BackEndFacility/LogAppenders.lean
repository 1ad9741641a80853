import BackEndFacility.AsynLogDelivery
import BackEndFacility.SharedBuffers

/-!
# Several asynchronous appenders

Pools, pending vectors, files and logging threads are per appender, while the
buffer of a thread is in the one slot `tl_buff_info`, whatever appender it came
from.  What a thread or a logging thread does is what it does in the model of a
single appender, on the part of the state that the appender sees: `view` is that
part, and `absorb` puts it back.

An appender is stopped by its destructor, so the weak pointer in `tl_buff_info`
is void as soon as it does not run any more.
-/

namespace BackEndFacility
namespace LogAppenders

open AsynLog

/-- `outstanding` holds the buffers taken from the pool and not recycled into it
since, `returned` the messages whose `Append` to this appender has returned. -/
structure Appender where
  created : Bool
  running : Bool
  pool : List ℕ
  unrecycled : ℕ
  pb1 : List LogMsg
  pb2 : List LogMsg
  logFile : LogFile
  logger : LoggerPc
  outstanding : Finset ℕ
  returned : List (ℕ × List UInt8)

/-- `app` is the appender that made the item. -/
structure PerThreadItem where
  buff : Option ℕ
  app : ℕ
  deriving DecidableEq, Repr

/-- `target` is the appender of the call in progress. -/
structure Producer where
  pc : ProducerPc
  target : ℕ
  item : Option PerThreadItem
  deriving DecidableEq, Repr

structure State where
  appenders : ℕ → Appender
  next : ℕ
  memory : ℕ → FixedBuffer
  producers : ℕ → Producer
  aborted : Bool
  corrupted : Bool

inductive Action where
  | create (app : ℕ)
  | append (thread app : ℕ) (msg : List UInt8)
  | produce (thread fresh : ℕ)
  | exit (thread : ℕ)
  | stop (app : ℕ)
  | log (app : ℕ) (script : List WriteResult) (grown1 grown2 : Bool)

def Appender.absent : Appender where
  created := false
  running := false
  pool := []
  unrecycled := 0
  pb1 := []
  pb2 := []
  logFile := ⟨[], []⟩
  logger := .terminated
  outstanding := ∅
  returned := []

def start (garbage : ℕ → ℕ → UInt8) : State where
  appenders := fun _ => .absent
  next := 0
  memory := fun buffer => ⟨0, garbage buffer⟩
  producers := fun _ => ⟨.idle, 0, none⟩
  aborted := false
  corrupted := false

def Producer.view (producer : Producer) : AsynLog.Producer :=
  ⟨producer.pc, producer.item.map PerThreadItem.buff⟩

/-- The item after a step of `app`. -/
def PerThreadItem.absorb (app : ℕ) (item : Option PerThreadItem) (buff : Option (Option ℕ)) :
    Option PerThreadItem :=
  buff.map fun buff => ⟨buff, (item.map PerThreadItem.app).getD app⟩

/-- The buffer that the next step of a thread takes from the pool. -/
def taken (state : AsynLog.State) (thread fresh : ℕ) : Option ℕ :=
  match (state.producers thread).pc with
  | .firstBuff _ | .getBuff _ => (state.pool.getBuff fresh).1
  | _ => none

/-- The buffer that the next step of the logging thread recycles. -/
def due (state : AsynLog.State) : Option ℕ :=
  match state.logger with
  | .writing i =>
      match state.pb2[i]? with
      | none => none
      | some msg => if msg.len = 0 then some msg.buffer else none
  | _ => none

namespace State

def pool (state : State) (app : ℕ) : FixedBufferPool where
  pool := (state.appenders app).pool
  unrecycled := (state.appenders app).unrecycled
  next := state.next
  memory := state.memory

/-- What one appender sees. -/
def view (state : State) (app : ℕ) : AsynLog.State where
  running := (state.appenders app).running
  pool := state.pool app
  pb1 := (state.appenders app).pb1
  pb2 := (state.appenders app).pb2
  logFile := (state.appenders app).logFile
  logger := (state.appenders app).logger
  producers := fun thread => (state.producers thread).view
  aborted := state.aborted
  corrupted := state.corrupted
  returned := (state.appenders app).returned

/-- The outstanding buffers after a step: `GetBuff` adds one, `Recycle` removes
one. -/
def outstanding (state : State) (app : ℕ) : AsynLog.Action → Finset ℕ
  | .produce thread fresh =>
      match taken (state.view app) thread fresh with
      | none => (state.appenders app).outstanding
      | some buffer => insert buffer (state.appenders app).outstanding
  | .log _ _ _ =>
      match due (state.view app) with
      | none => (state.appenders app).outstanding
      | some buffer => (state.appenders app).outstanding.erase buffer
  | _ => (state.appenders app).outstanding

/-- Put back what an appender has changed; `m_unrecyled` has 64 bits. -/
def absorb (state : State) (app : ℕ) (outstanding : Finset ℕ) (seen : AsynLog.State) :
    State where
  appenders := Function.update state.appenders app
    { state.appenders app with
      running := seen.running
      pool := seen.pool.pool
      unrecycled := seen.pool.unrecycled % 2 ^ 64
      pb1 := seen.pb1
      pb2 := seen.pb2
      logFile := seen.logFile
      logger := seen.logger
      outstanding := outstanding
      returned := seen.returned }
  next := seen.pool.next
  memory := seen.pool.memory
  producers := fun thread =>
    { state.producers thread with
      pc := (seen.producers thread).pc
      item := PerThreadItem.absorb app (state.producers thread).item
        (seen.producers thread).item }
  aborted := seen.aborted
  corrupted := seen.corrupted

/-- One step of a thread or of a logging thread on one appender. -/
def perform (state : State) (app : ℕ) (action : AsynLog.Action) : Option State :=
  match (state.view app).step action with
  | none => none
  | some seen => some (state.absorb app (state.outstanding app action) seen)

def aim (state : State) (thread app : ℕ) : State :=
  { state with
    producers := Function.update state.producers thread
      { state.producers thread with target := app } }

/-- A thread that never logged exits. -/
def leave (state : State) (thread : ℕ) : Option State :=
  if state.aborted || state.corrupted then none
  else if (state.producers thread).pc = .idle then
    some { state with
      producers := Function.update state.producers thread
        { state.producers thread with pc := .exited } }
  else none

/-- The constructor of an appender. -/
def create (state : State) (app : ℕ) : State :=
  { state with
    appenders := Function.update state.appenders app
      { Appender.absent with
        created := true
        running := true
        pool := List.range' state.next FixedBufferPool.fixSize
        logger := .top }
    next := state.next + FixedBufferPool.fixSize
    memory := fun buffer =>
      if state.next ≤ buffer ∧ buffer < state.next + FixedBufferPool.fixSize then
        .construct (state.memory buffer).bytes
      else state.memory buffer }

def step (state : State) : Action → Option State
  | .create app =>
      if state.aborted || state.corrupted || (state.appenders app).created then none
      else some (state.create app)
  | .append thread app msg =>
      if (state.appenders app).created then
        (state.aim thread app).perform app (.append thread msg)
      else none
  | .produce thread fresh =>
      state.perform (state.producers thread).target (.produce thread fresh)
  | .exit thread =>
      match (state.producers thread).item with
      | none => state.leave thread
      | some item => (state.aim thread item.app).perform item.app (.exit thread)
  | .stop app => state.perform app .stop
  | .log app script grown1 grown2 => state.perform app (.log script grown1 grown2)

end State

def machine (garbage : ℕ → ℕ → UInt8) : Machine State Action where
  start := start garbage
  step := State.step

/-! ## Interference -/

/-- The file of an appender gets the messages that were given to it, and
`m_unrecyled` counts the buffers of its pool that are outstanding. -/
structure State.Undisturbed (state : State) (app : ℕ) : Prop where
  bytes : (state.appenders app).logFile.contents <+:
    (state.appenders app).returned.flatMap Prod.snd
  complete : (state.appenders app).logger = .terminated →
    (state.appenders app).logFile.written = (state.appenders app).returned.flatMap Prod.snd
  counted : (state.appenders app).unrecycled = (state.appenders app).outstanding.card

/-- The buffer a thread is about to retire. -/
def Producer.retiring (producer : Producer) : Option ℕ :=
  match producer.pc with
  | .pushRetired _ | .exitPush => producer.item.bind PerThreadItem.buff
  | _ => none

/-- A buffer is retired only to the appender from whose pool it was taken, and
only when no other appender has a message in it still to write.  Messages fit a
buffer, no `Append` starts on an appender that is stopped, and `write(2)` has
short writes and interruptions only. -/
def RetiresHome (state : State) : Action → Prop
  | .append _ app msg => (state.appenders app).running = true ∧ msg.length ≤ buffSize
  | .produce thread _ =>
      ∀ buffer, (state.producers thread).retiring = some buffer →
        buffer ∈ (state.appenders (state.producers thread).target).outstanding ∧
          ∀ app, app ≠ (state.producers thread).target →
            ∀ slice ∈ (state.view app).remaining, slice.buffer ≠ buffer
  | .log _ script _ _ => LogFile.Reliable script
  | _ => True

/-- Thread 0 logs `A` to the first appender and `B` to the second, both in one
buffer, and exits.  The first appender recycles the buffer, thread 1 logs `C` and
`D` into it, and the second appender writes `D` where `B` was. -/
def switchThenExit : List Action :=
  [.create 0, .create 1,
    .append 0 0 [65], .produce 0 0, .produce 0 0, .produce 0 0, .produce 0 0,
    .append 0 1 [66], .produce 0 0, .produce 0 0, .produce 0 0,
    .exit 0, .produce 0 0,
    .log 0 [] false false, .log 0 [] false false, .log 0 [] false false,
    .log 0 [] false false,
    .append 1 0 [67], .produce 1 0, .produce 1 0, .produce 1 0, .produce 1 0,
    .append 1 0 [68], .produce 1 0, .produce 1 0, .produce 1 0,
    .log 1 [] false false, .log 1 [] false false, .log 1 [] false false]

theorem not_undisturbed_switchThenExit :
    ¬ ∀ garbage state, (machine garbage).Reachable state → ∀ app, state.Undisturbed app := by
  intro hall
  have hmixed : ((machine fun _ _ => 0).run switchThenExit).map
        (fun state => ((state.appenders 1).logFile, (state.appenders 1).returned)) =
      some (⟨[], [68]⟩, [(0, [66])]) := by
    decide +kernel
  rw [Option.map_eq_some_iff] at hmixed
  obtain ⟨state, hrun, hfound⟩ := hmixed
  have hreached : (machine fun _ _ => 0).Reachable state :=
    Machine.Reachable.runFrom .start hrun
  have hbytes := (hall _ state hreached 1).bytes
  rw [(Prod.mk.inj hfound).1, (Prod.mk.inj hfound).2] at hbytes
  revert hbytes
  decide

end LogAppenders
end BackEndFacility
