import BackEndFacility.AsynLogDelivery
import BackEndFacility.Placement

/-!
# Who deletes the log buffers

A buffer that `new` made is deleted by `Shrink`, by the destructor of the pool, or by the
destructor of the `PerThreadItem` of a thread that exits when the appender is gone.  The
machine of the appender is followed here up to its destruction, with a list of the buffers
that were deleted.

The appender is destroyed when no thread is inside `Append` or holds it through the
pointer that an exiting thread gets from `lock()`; `inside` is the set of these threads.  Its
destructor calls `Stop` and then destroys the pool.
-/

namespace BackEndFacility
namespace AsynLog

/-- `deleted` lists the calls of `delete` with a buffer. -/
structure Ownership where
  log : State
  inside : Finset ℕ
  destroyed : Bool
  deleted : List ℕ

inductive OwnershipAction where
  | run (action : Action)
  | destroyMembers

/-- `FreeUnrecycledBuff`; to delete the null pointer does nothing. -/
def freeUnrecycledBuff (buff : Option ℕ) : List ℕ := buff.toList

/-- What `~PerThreadItem` deletes when `lock()` has failed, with the test of the source. -/
def PerThreadItem.freed (buff : Option ℕ) : List ℕ :=
  if buff.isNone then freeUnrecycledBuff buff else []

def FixedBufferPool.shrunk (this : FixedBufferPool) : List ℕ :=
  if fixSize < this.pool.length then this.pool.drop fixSize else []

/-- What a step of the appender deletes. -/
def State.freed (state : State) : Action → List ℕ
  | .exit thread =>
      match state.running, (state.producers thread).item with
      | false, some buff => PerThreadItem.freed buff
      | _, _ => []
  | .log _ _ _ =>
      match state.logger with
      | .waiting idle =>
          if state.pb1.isEmpty ∧ idle + 1 = 8 then state.pool.shrunk else []
      | _ => []
  | _ => []

/-- The thread is inside `Append` or the destructor of its item. -/
def ProducerPc.Inside : ProducerPc → Prop
  | .idle | .exited => False
  | _ => True

instance decidableInside : ∀ pc : ProducerPc, Decidable pc.Inside
  | .idle | .exited => isFalse id
  | .firstBuff _ | .check _ | .pushRetired _ | .getBuff _ | .write _ | .push _ _ | .exitPush =>
      isTrue trivial

namespace Ownership

def start (garbage : ℕ → ℕ → UInt8) : Ownership where
  log := AsynLog.start garbage
  inside := ∅
  destroyed := false
  deleted := []

/-- Nobody calls an appender whose destruction has begun, and it does not begin while a
thread is inside. -/
def permits (this : Ownership) : Action → Bool
  | .append _ _ => this.log.running
  | .stop => decide (this.inside = ∅)
  | _ => true

def track (this : Ownership) (next : State) : Action → Finset ℕ
  | .append thread _ | .produce thread _ | .exit thread =>
      if (next.producers thread).pc.Inside then insert thread this.inside
      else this.inside.erase thread
  | .stop | .log _ _ _ => this.inside

def step (this : Ownership) : OwnershipAction → Option Ownership
  | .run action =>
      if this.permits action then
        match this.log.step action with
        | none => none
        | some next =>
            some { this with
              log := next
              inside := this.track next action
              deleted := this.deleted ++ this.log.freed action }
      else none
  | .destroyMembers =>
      if this.log.logger = .terminated ∧ this.destroyed = false then
        some { this with
          log := { this.log with pool := { this.log.pool with pool := [] } }
          destroyed := true
          deleted := this.deleted ++ this.log.pool.pool }
      else none

end Ownership

def ownershipMachine (garbage : ℕ → ℕ → UInt8) : Machine Ownership OwnershipAction where
  start := .start garbage
  step := Ownership.step

/-! ## Where a buffer is -/

inductive Spot where
  | pool
  | item (thread : ℕ)
  | recycleEntry
  deriving DecidableEq, Repr

def recycled (msgs : List LogMsg) : List ℕ :=
  (msgs.filter fun msg => msg.len = 0).map BufferSlice.buffer

/-- A thread has its buffer until it pushes the entry that retires it, and an entry is
pending until the logging thread deals with it. -/
def Ownership.At (this : Ownership) : Spot → ℕ → Prop
  | .pool, buffer => this.destroyed = false ∧ buffer ∈ this.log.pool.pool
  | .item thread, buffer => (this.log.producers thread).owned = some buffer
  | .recycleEntry, buffer => buffer ∈ recycled this.log.remaining

/-- Each buffer that was created and not deleted is in one place, and once; nothing that is
in use is deleted, and nothing twice; and when the appender is destroyed and no thread has
an item left, there is no buffer left. -/
structure Ownership.Partitioned (this : Ownership) : Prop where
  placed : ∀ buffer < this.log.pool.next, buffer ∉ this.deleted →
    ∃! spot, this.At spot buffer
  poolOnce : this.log.pool.pool.Nodup
  entryOnce : (recycled this.log.remaining).Nodup
  undeleted : ∀ spot buffer, this.At spot buffer → buffer ∉ this.deleted
  deletedOnce : this.deleted.Nodup
  freed : this.destroyed = true → (∀ thread, (this.log.producers thread).item = none) →
    ∀ buffer < this.log.pool.next, buffer ∈ this.deleted

/-- A thread that exits when the appender is gone has no buffer. -/
def ReturnsBuffer (this : Ownership) : OwnershipAction → Prop
  | .run (.exit thread) =>
      this.log.running = true ∨ (this.log.producers thread).item.join = none
  | _ => True

instance decidableReturnsBuffer (this : Ownership) :
    ∀ action, Decidable (ReturnsBuffer this action)
  | .run (.exit thread) =>
      inferInstanceAs (Decidable
        (this.log.running = true ∨ (this.log.producers thread).item.join = none))
  | .run (.append _ _) => isTrue trivial
  | .run (.produce _ _) => isTrue trivial
  | .run .stop => isTrue trivial
  | .run (.log _ _ _) => isTrue trivial
  | .destroyMembers => isTrue trivial

/-! ## A thread that outlives the appender -/

/-- Thread 0 logs `A`, the appender is destroyed, and the thread exits. -/
def outlives : List OwnershipAction :=
  [.run (.append 0 [65]), .run (.produce 0 0), .run (.produce 0 0), .run (.produce 0 0),
    .run (.produce 0 0), .run .stop,
    .run (.log [] false false), .run (.log [] false false), .run (.log [.wrote 1] false false),
    .run (.log [] false false), .run (.log [] false false), .destroyMembers, .run (.exit 0)]

theorem not_partitioned_outlives :
    ¬ ∀ garbage this, (ownershipMachine garbage).Reachable this → this.Partitioned := by
  intro hall
  have hleak : ∃ this, (ownershipMachine fun _ _ => 0).run outlives = some this ∧
      this.log.pool.next = 32 ∧ this.deleted = List.range 31 ∧ this.destroyed = true ∧
        this.log.producers 0 = ⟨.exited, none⟩ ∧
          ∀ thread, (this.log.producers (thread + 1)).item = none := by
    refine ⟨_, rfl, rfl, rfl, rfl, rfl, fun thread => rfl⟩
  obtain ⟨this, hrun, hnext, hdeleted, hdestroyed, hexited, hothers⟩ := hleak
  have hfreed := (hall _ this (Machine.Reachable.runFrom .start hrun)).freed hdestroyed
  have hitems : ∀ thread, (this.log.producers thread).item = none := by
    intro thread
    cases thread with
    | zero => rw [hexited]
    | succ thread => exact hothers thread
  have hlost := hfreed hitems 31 (by rw [hnext]; decide)
  rw [hdeleted, List.mem_range] at hlost
  exact absurd hlost (by decide)

/-! ## Custody of the buffers -/

/-- The buffers that no thread has. -/
def State.listed (state : State) (deleted : List ℕ) : List ℕ :=
  state.pool.pool ++ (recycled state.remaining ++ deleted)

/-- A thread logs no empty message, and takes its first buffer when it has no item. -/
def Producer.Begun (producer : Producer) : Prop :=
  match producer.pc with
  | .firstBuff msg => msg ≠ [] ∧ producer.item = none
  | .check msg | .pushRetired msg | .getBuff msg | .write msg | .push msg _ => msg ≠ []
  | _ => True

/-- Every buffer is with one thread, in the pool, in one entry or deleted. -/
structure State.Kept (state : State) (deleted : List ℕ) : Prop where
  custody : Custody (fun buffer => buffer < state.pool.next) (state.listed deleted)
    fun thread => (state.producers thread).owned
  begun : ∀ thread, (state.producers thread).Begun
  cleared : state.logger.Resting → state.pb2 = []
  final : state.logger = .terminated → state.running = false ∧ state.pb1 = []

theorem recycled_append (first second : List LogMsg) :
    recycled (first ++ second) = recycled first ++ recycled second := by
  unfold recycled
  rw [List.filter_append, List.map_append]

theorem recycled_retire (buffer : ℕ) : recycled [.retire buffer] = [buffer] := rfl

theorem recycled_posted {msg : LogMsg} (hlen : msg.len ≠ 0) : recycled [msg] = [] := by
  simp [recycled, hlen]

namespace FixedBufferPool

variable {this : FixedBufferPool} {owned : ℕ → Option ℕ} {others : List ℕ}

theorem enlarge_custody
    (hcustody : Custody (fun buffer => buffer < this.next) (this.pool ++ others) owned)
    (fresh : ℕ) :
    Custody (fun buffer => buffer < (this.enlarge fresh).next)
      ((this.enlarge fresh).pool ++ others) owned := by
  unfold enlarge
  split
  · exact hcustody
  · have hcreated := @Custody.create ℕ ℕ _ _ _
      (fun buffer => buffer < this.next + min fresh incGran)
      (List.range' this.next (min fresh incGran)) hcustody
      (by
        intro buffer hfresh
        rw [List.mem_range'_1] at hfresh
        omega)
      (List.nodup_range' ..)
      (by
        intro buffer
        rw [List.mem_range'_1]
        omega)
    apply hcreated.perm
    rw [List.append_assoc, ← List.append_assoc, ← List.append_assoc]
    exact List.perm_append_comm.append_right others

theorem getBuff_custody
    (hcustody : Custody (fun buffer => buffer < this.next) (this.pool ++ others) owned)
    (fresh : ℕ) {thread : ℕ} (hfree : owned thread = none) :
    Custody (fun buffer => buffer < (this.getBuff fresh).2.next)
      ((this.getBuff fresh).2.pool ++ others)
      (Function.update owned thread (this.getBuff fresh).1) := by
  have hfull : Custody
      (fun buffer => buffer < (if this.pool = [] then this.enlarge fresh else this).next)
      ((if this.pool = [] then this.enlarge fresh else this).pool ++ others) owned := by
    split
    · exact enlarge_custody hcustody fresh
    · exact hcustody
  unfold getBuff
  simp only
  generalize (if this.pool = [] then this.enlarge fresh else this) = full at hfull
  cases hlast : full.pool.getLast? with
  | none =>
      simp only
      rw [← hfree, Function.update_eq_self]
      exact hfull
  | some buffer =>
      simp only
      apply Custody.take (hfull.perm ?_) hfree
      have hsplit := List.dropLast_append_getLast? buffer hlast
      rw [← List.cons_append]
      apply List.Perm.append_right
      nth_rewrite 2 [← hsplit]
      exact (List.perm_append_singleton buffer full.pool.dropLast).symm

end FixedBufferPool

namespace State.Kept

variable {state : State} {deleted : List ℕ}

theorem begun_update (hkept : state.Kept deleted) {thread : ℕ} {producer : Producer}
    (hbegun : producer.Begun) :
    ∀ other, (Function.update state.producers thread producer other).Begun := by
  intro other
  by_cases heq : other = thread
  · rw [heq, Function.update_self]
    exact hbegun
  · rw [Function.update_of_ne heq]
    exact hkept.begun other

theorem moveOn (hkept : state.Kept deleted) (thread : ℕ) {producer : Producer}
    (howned : producer.owned = (state.producers thread).owned) (hbegun : producer.Begun) :
    (state.setProducer thread producer).Kept deleted := by
  refine ⟨?_, hkept.begun_update hbegun, hkept.cleared, hkept.final⟩
  unfold setProducer
  simp only [owned_update]
  rw [howned, Function.update_eq_self]
  exact hkept.custody

theorem getBuff (hkept : state.Kept deleted) (fresh : ℕ) {thread : ℕ} {pc : ProducerPc}
    (hfree : (state.producers thread).owned = none)
    (howned : (Producer.mk pc (some (state.pool.getBuff fresh).1)).owned =
      (state.pool.getBuff fresh).1)
    (hbegun : (Producer.mk pc (some (state.pool.getBuff fresh).1)).Begun) :
    ({ state with pool := (state.pool.getBuff fresh).2 }.setProducer thread
      ⟨pc, some (state.pool.getBuff fresh).1⟩).Kept deleted := by
  refine ⟨?_, hkept.begun_update hbegun, hkept.cleared, hkept.final⟩
  unfold setProducer
  simp only [owned_update, howned]
  exact FixedBufferPool.getBuff_custody hkept.custody fresh hfree

/-- A thread pushes the entry that retires its buffer. -/
theorem retire (hkept : state.Kept deleted) {thread buffer : ℕ} {producer : Producer}
    (hrunning : state.running = true)
    (hbuffer : (state.producers thread).owned = some buffer)
    (howned : producer.owned = none) (hbegun : producer.Begun) :
    ((state.addToWriter (.retire buffer)).setProducer thread producer).Kept deleted := by
  have hnotfinal : state.logger ≠ .terminated := by
    intro hterminated
    rw [(hkept.final hterminated).1] at hrunning
    cases hrunning
  unfold addToWriter
  rw [if_pos hrunning]
  refine ⟨?_, hkept.begun_update hbegun, hkept.cleared,
    fun hterminated => absurd hterminated hnotfinal⟩
  unfold setProducer listed
  simp only [owned_update, howned]
  apply (hkept.custody.give hbuffer).perm
  have hremaining := state.remaining_push (.retire buffer)
  change (state.pool.pool ++ (recycled
    ({ state with pb1 := state.pb1 ++ [.retire buffer] } : State).remaining ++ deleted)).Perm _
  rw [hremaining, recycled_append, recycled_retire]
  unfold listed
  rw [List.append_assoc (recycled state.remaining), List.singleton_append]
  refine (List.Perm.append_left _ List.perm_middle).trans ?_
  exact List.perm_middle

theorem post (hkept : state.Kept deleted) {msg : LogMsg} (hrunning : state.running = true)
    (hlen : msg.len ≠ 0) : (state.addToWriter msg).Kept deleted := by
  have hnotfinal : state.logger ≠ .terminated := by
    intro hterminated
    rw [(hkept.final hterminated).1] at hrunning
    cases hrunning
  unfold addToWriter
  rw [if_pos hrunning]
  refine ⟨?_, hkept.begun, hkept.cleared, fun hterminated => absurd hterminated hnotfinal⟩
  have hlisted : ({ state with pb1 := state.pb1 ++ [msg] } : State).listed deleted =
      state.listed deleted := by
    unfold listed
    rw [remaining_push, recycled_append, recycled_posted hlen, List.append_nil]
  rw [hlisted]
  exact hkept.custody

theorem abort (hkept : state.Kept deleted) :
    ({ state with aborted := true } : State).Kept deleted :=
  ⟨hkept.custody, hkept.begun, hkept.cleared, hkept.final⟩

theorem produce (hkept : state.Kept deleted) {thread fresh : ℕ} {next : State}
    (hrunning : state.running = true)
    (hstep : state.produce thread fresh = some next) : next.Kept deleted := by
  have hbegun := hkept.begun thread
  unfold Producer.Begun at hbegun
  unfold State.produce at hstep
  cases hpc : (state.producers thread).pc with
  | idle => simp [hpc] at hstep
  | firstBuff msg =>
      simp only [hpc, Option.some.injEq] at hstep hbegun
      subst hstep
      apply hkept.getBuff
      · simp [Producer.owned, hpc, hbegun.2]
      · rfl
      · exact hbegun.1
  | check msg =>
      simp only [hpc] at hstep hbegun
      split at hstep
      next buffer hitem =>
          split at hstep
          · cases hstep
            exact hkept.moveOn thread (by simp [Producer.owned, hpc]) hbegun
          · cases hstep
            exact hkept.moveOn thread (by simp [Producer.owned, hpc]) hbegun
      next hitem =>
          cases hstep
          refine hkept.moveOn thread ?_ hbegun
          have hnull : (state.producers thread).item.join = none := by
            cases hbuff : (state.producers thread).item with
            | none => rfl
            | some buff =>
                cases buff with
                | none => rfl
                | some buffer => exact absurd hbuff (hitem buffer)
          simp [Producer.owned, hpc, hnull]
  | pushRetired msg =>
      simp only [hpc] at hstep hbegun
      split at hstep
      next buffer hitem =>
          cases hstep
          exact hkept.retire hrunning (by simp [Producer.owned, hpc, hitem]) rfl hbegun
      next =>
          cases hstep
          exact hkept.abort
  | getBuff msg =>
      simp only [hpc] at hstep hbegun
      have hnone : (state.producers thread).owned = none := by
        simp [Producer.owned, hpc]
      split at hstep
      next hnull =>
          cases hstep
          have hafter := @getBuff state deleted hkept fresh thread .idle hnone rfl trivial
          rw [hnull] at hafter
          exact hafter
      next buffer hbuffer =>
          cases hstep
          have hafter := @getBuff state deleted hkept fresh thread (.write msg) hnone rfl hbegun
          rw [hbuffer] at hafter
          exact hafter
  | write msg =>
      simp only [hpc] at hstep hbegun
      split at hstep
      next buffer hitem =>
          split at hstep
          · cases hstep
            have hmoved := @moveOn state deleted hkept thread
              ⟨.push msg (state.pool.memory buffer).cur, (state.producers thread).item⟩
              (by simp [Producer.owned, hpc]) hbegun
            exact ⟨hmoved.custody, hmoved.begun, hmoved.cleared, hmoved.final⟩
          · cases hstep
            exact ⟨hkept.custody, hkept.begun, hkept.cleared, hkept.final⟩
      next =>
          cases hstep
          exact hkept.abort
  | push msg offset =>
      simp only [hpc] at hstep hbegun
      split at hstep
      next buffer hitem =>
          rw [if_pos hrunning] at hstep
          cases hstep
          have hlen : msg.length ≠ 0 := by simpa using hbegun
          have hposted := @post state deleted hkept ⟨msg.length, buffer, offset⟩ hrunning hlen
          have hmoved := @moveOn _ deleted hposted thread ⟨.idle, (state.producers thread).item⟩
            (by simp [addToWriter, hrunning, Producer.owned, hpc]) trivial
          exact ⟨hmoved.custody, hmoved.begun, hmoved.cleared, hmoved.final⟩
      next =>
          cases hstep
          exact hkept.abort
  | exitPush =>
      simp only [hpc] at hstep
      split at hstep
      next buffer hitem =>
          cases hstep
          exact hkept.retire hrunning (by simp [Producer.owned, hpc, hitem]) rfl trivial
      next =>
          cases hstep
          exact hkept.abort
  | exited => simp [hpc] at hstep

/-! ### The logging thread -/

theorem swapOrLeave (hkept : state.Kept deleted) (hresting : state.logger.Resting) :
    state.swapOrLeave.Kept deleted := by
  have hidle : ∀ i, state.logger ≠ .writing i := by
    rintro i hwriting
    rw [hwriting] at hresting
    exact hresting
  have hremaining := remaining_of_not_writing hidle
  have hempty := hkept.cleared hresting
  have hcustody := hkept.custody
  unfold listed at hcustody
  rw [hremaining] at hcustody
  unfold State.swapOrLeave
  split
  next hleave =>
      rw [Bool.and_eq_true, Bool.not_eq_true', List.isEmpty_iff] at hleave
      exact ⟨hcustody, hkept.begun, fun _ => hempty, fun _ => hleave⟩
  next =>
      refine ⟨?_, hkept.begun, fun hwriting => absurd hwriting id, nofun⟩
      unfold listed remaining
      simp only [hempty, List.drop_zero, List.append_nil]
      exact hcustody

theorem shrinkMemoryUsage (hkept : state.Kept deleted) (hresting : state.logger.Resting)
    (hempty : state.pb1 = []) (grown1 grown2 : Bool) :
    (state.shrinkMemoryUsage grown1 grown2).Kept (deleted ++ state.pool.shrunk) := by
  have hsame : state.shrinkMemoryUsage grown1 grown2 =
      { state with pool := state.pool.shrink } := by
    unfold State.shrinkMemoryUsage
    rw [hempty, hkept.cleared hresting, ite_self, ite_self]
  rw [hsame]
  refine ⟨?_, hkept.begun, hkept.cleared, hkept.final⟩
  have hnext : state.pool.shrink.next = state.pool.next := by
    unfold FixedBufferPool.shrink
    split <;> rfl
  have hpool : state.pool.shrink.pool ++ state.pool.shrunk = state.pool.pool := by
    unfold FixedBufferPool.shrink FixedBufferPool.shrunk
    split_ifs
    · exact List.take_append_drop FixedBufferPool.fixSize state.pool.pool
    · exact List.append_nil _
  unfold listed
  simp only [hnext]
  apply hkept.custody.perm
  unfold listed
  rw [← hpool, List.append_assoc state.pool.shrink.pool, ← List.append_assoc (recycled _)]
  exact List.Perm.append_left _ List.perm_append_comm

/-- The logging thread returns a buffer to the pool. -/
theorem recycle (hkept : state.Kept deleted) {i : ℕ} {msg : LogMsg}
    (hlogger : state.logger = .writing i) (hmsg : state.pb2[i]? = some msg) (hlen : msg.len = 0) :
    ({ state with
      pool := state.pool.recycle msg.buffer
      logger := .writing (i + 1) } : State).Kept deleted := by
  refine ⟨?_, hkept.begun, fun hresting => absurd hresting id, nofun⟩
  apply hkept.custody.perm
  unfold listed
  rw [remaining_writing hlogger hmsg]
  have hfirst : recycled (msg :: ({ state with logger := .writing (i + 1) } : State).remaining) =
      msg.buffer :: recycled ({ state with logger := .writing (i + 1) } : State).remaining := by
    unfold recycled
    rw [List.filter_cons_of_pos (by simp [hlen]), List.map_cons]
  rw [hfirst]
  change (state.pool.pool ++ [msg.buffer] ++ _).Perm _
  rw [List.append_assoc, List.singleton_append]
  rfl

theorem advance (hkept : state.Kept deleted) {i : ℕ} {msg : LogMsg} (logFile : LogFile)
    (hlogger : state.logger = .writing i) (hmsg : state.pb2[i]? = some msg) (hlen : msg.len ≠ 0) :
    ({ state with logFile := logFile, logger := .writing (i + 1) } : State).Kept deleted := by
  refine ⟨?_, hkept.begun, fun hresting => absurd hresting id, nofun⟩
  have hcustody := hkept.custody
  unfold listed at hcustody
  rw [remaining_writing hlogger hmsg] at hcustody
  have hfirst : recycled (msg :: ({ state with logger := .writing (i + 1) } : State).remaining) =
      recycled ({ state with logger := .writing (i + 1) } : State).remaining := by
    unfold recycled
    rw [List.filter_cons_of_neg (by simp [hlen])]
  rw [hfirst] at hcustody
  exact hcustody

theorem log (hkept : state.Kept deleted) {script : List WriteResult} {grown1 grown2 : Bool}
    {next : State} (hstep : state.log script grown1 grown2 = some next) :
    next.Kept (deleted ++ state.freed (.log script grown1 grown2)) := by
  unfold State.freed
  unfold State.log at hstep
  cases hlogger : state.logger with
  | top =>
      simp only [hlogger, List.append_nil] at hstep ⊢
      have hresting : state.logger.Resting := by
        rw [hlogger]
        trivial
      split at hstep
      · cases hstep
        have hcleared := hkept.cleared hresting
        have hcustody := hkept.custody
        unfold listed remaining at hcustody
        rw [hlogger] at hcustody
        exact ⟨hcustody, hkept.begun, fun _ => hcleared, nofun⟩
      · cases hstep
        exact hkept.swapOrLeave hresting
  | waiting idle =>
      have hresting : state.logger.Resting := by
        rw [hlogger]
        trivial
      simp only [hlogger] at hstep ⊢
      by_cases hempty : state.pb1.isEmpty
      · rw [if_pos hempty] at hstep
        have hshrunk : ∃ deletions : List ℕ,
            deletions = (if state.pb1.isEmpty ∧ idle + 1 = 8 then state.pool.shrunk else []) ∧
            (if idle + 1 = 8 then state.shrinkMemoryUsage grown1 grown2 else state).Kept
              (deleted ++ deletions) ∧
            (if idle + 1 = 8 then state.shrinkMemoryUsage grown1 grown2 else state).logger =
              .waiting idle := by
          refine ⟨_, rfl, ?_⟩
          by_cases height : idle + 1 = 8
          · rw [if_pos height, if_pos ⟨hempty, height⟩]
            exact ⟨hkept.shrinkMemoryUsage hresting (List.isEmpty_iff.mp hempty) grown1 grown2,
              hlogger⟩
          · rw [if_neg height, if_neg (fun hboth => height hboth.2), List.append_nil]
            exact ⟨hkept, hlogger⟩
        obtain ⟨deletions, heq, hnow, hwaiting⟩ := hshrunk
        rw [← heq]
        generalize (if idle + 1 = 8 then state.shrinkMemoryUsage grown1 grown2 else state) =
          shrunk at hstep hnow hwaiting
        have hrests : shrunk.logger.Resting := by
          rw [hwaiting]
          trivial
        split at hstep
        · cases hstep
          have hcleared := hnow.cleared hrests
          have hcustody := hnow.custody
          unfold listed remaining at hcustody
          rw [hwaiting] at hcustody
          exact ⟨hcustody, hnow.begun, fun _ => hcleared, nofun⟩
        · cases hstep
          exact hnow.swapOrLeave hrests
      · rw [if_neg hempty] at hstep
        cases hstep
        rw [if_neg (fun hboth => hempty hboth.1), List.append_nil]
        exact hkept.swapOrLeave hresting
  | writing i =>
      simp only [hlogger, List.append_nil] at hstep ⊢
      split at hstep
      next hdone =>
          split at hstep
          · cases hstep
          · cases hstep
            refine ⟨?_, hkept.begun, fun hresting => absurd hresting id, nofun⟩
            have hcustody := hkept.custody
            unfold listed remaining at hcustody
            simp only [hlogger] at hcustody
            rw [List.drop_eq_nil_of_le (List.getElem?_eq_none_iff.mp hdone),
              List.nil_append] at hcustody
            exact hcustody
      next msg hmsg =>
          split at hstep
          next hlen =>
              cases hstep
              exact hkept.recycle hlogger hmsg hlen
          next hlen =>
              split at hstep
              · cases hstep
                rw [← hlogger]
                exact hkept.abort
              · split at hstep
                · cases hstep
                next logFile rest hwritten =>
                    cases hstep
                    exact hkept.advance logFile hlogger hmsg hlen
  | clearing =>
      simp only [hlogger, Option.some.injEq, List.append_nil] at hstep ⊢
      subst hstep
      have hcustody := hkept.custody
      unfold listed remaining at hcustody
      rw [hlogger] at hcustody
      exact ⟨hcustody, hkept.begun, fun _ => rfl, nofun⟩
  | terminated => simp [hlogger] at hstep

end State.Kept

/-! ## What a step leaves alone -/

namespace State

variable {state next : State}

theorem addToWriter_frame (state : State) (msg : LogMsg) :
    (state.addToWriter msg).running = state.running ∧
      (state.addToWriter msg).producers = state.producers := by
  unfold addToWriter
  split
  · exact ⟨rfl, rfl⟩
  · exact ⟨rfl, rfl⟩

theorem setProducer_frame (state : State) (thread : ℕ) (producer : Producer) :
    (state.setProducer thread producer).running = state.running ∧
      ∀ other, other ≠ thread →
        (state.setProducer thread producer).producers other = state.producers other :=
  ⟨rfl, fun _ hne => Function.update_of_ne hne _ _⟩

theorem produce_frame {thread fresh : ℕ} (hstep : state.produce thread fresh = some next) :
    next.running = state.running ∧
      ∀ other, other ≠ thread → next.producers other = state.producers other := by
  unfold produce at hstep
  simp only at hstep
  repeat' split at hstep
  all_goals cases hstep
  all_goals
    first
    | exact ⟨rfl, fun _ _ => rfl⟩
    | exact setProducer_frame _ _ _
    | (obtain ⟨hrunning, hproducers⟩ := addToWriter_frame state _
       refine ⟨hrunning, fun other hne => ?_⟩
       first
       | exact congrFun hproducers other
       | exact ((setProducer_frame _ _ _).2 other hne).trans (congrFun hproducers other))

theorem swapOrLeave_frame (state : State) :
    state.swapOrLeave.running = state.running ∧ state.swapOrLeave.producers = state.producers := by
  unfold swapOrLeave
  split
  · exact ⟨rfl, rfl⟩
  · exact ⟨rfl, rfl⟩

theorem log_frame {script : List WriteResult} {grown1 grown2 : Bool}
    (hstep : state.log script grown1 grown2 = some next) :
    next.running = state.running ∧ next.producers = state.producers := by
  have hshrunk : ∀ idle : ℕ,
      (if idle + 1 = 8 then state.shrinkMemoryUsage grown1 grown2 else state).running =
        state.running ∧
      (if idle + 1 = 8 then state.shrinkMemoryUsage grown1 grown2 else state).producers =
        state.producers := by
    intro idle
    split
    · exact ⟨rfl, rfl⟩
    · exact ⟨rfl, rfl⟩
  unfold log at hstep
  split at hstep
  · split at hstep
    · cases hstep
      exact ⟨rfl, rfl⟩
    · cases hstep
      exact state.swapOrLeave_frame
  next idle hlogger =>
      obtain ⟨hrunning, hproducers⟩ := hshrunk idle
      split at hstep
      · generalize (if idle + 1 = 8 then state.shrinkMemoryUsage grown1 grown2 else state) =
          shrunk at hstep hrunning hproducers
        simp only at hstep
        split at hstep
        · cases hstep
          exact ⟨hrunning, hproducers⟩
        · cases hstep
          have hframe := shrunk.swapOrLeave_frame
          exact ⟨hframe.1.trans hrunning, hframe.2.trans hproducers⟩
      · cases hstep
        exact state.swapOrLeave_frame
  · repeat' split at hstep
    all_goals
      cases hstep
      try exact ⟨rfl, rfl⟩
  · cases hstep
    exact ⟨rfl, rfl⟩
  · cases hstep

end State

/-! ## The invariant -/

namespace Ownership

/-- While the destructor runs no thread is inside, and it leaves the pool empty. -/
structure Invariant (this : Ownership) : Prop where
  kept : this.log.Kept this.deleted
  tracked : ∀ thread, thread ∈ this.inside ↔ (this.log.producers thread).pc.Inside
  outside : this.log.running = false → this.inside = ∅
  emptied : this.destroyed = true → this.log.logger = .terminated ∧ this.log.pool.pool = []

namespace Invariant

variable {this : Ownership}

theorem start (garbage : ℕ → ℕ → UInt8) : (Ownership.start garbage).Invariant := by
  have hlisted : (AsynLog.start garbage).listed [] = List.range FixedBufferPool.fixSize := by
    change List.range FixedBufferPool.fixSize ++ [] = _
    rw [List.append_nil]
  refine ⟨⟨?_, fun _ => trivial, fun _ => rfl, nofun⟩, fun thread => ?_, nofun, nofun⟩
  · change Custody _ ((AsynLog.start garbage).listed []) _
    rw [hlisted]
    refine ⟨List.nodup_range, nofun, nofun, fun buffer => ?_⟩
    constructor
    · exact fun hlt => .inl (List.mem_range.mpr hlt)
    · rintro (hmem | ⟨thread, howned⟩)
      · exact List.mem_range.mp hmem
      · cases howned
  · exact ⟨fun hmem => absurd hmem (Finset.notMem_empty thread), fun hinside => absurd hinside id⟩

theorem alive (hinv : this.Invariant) (hrunning : this.log.running = true) :
    this.destroyed = false ∧ this.log.logger ≠ .terminated := by
  have hnotfinal : this.log.logger ≠ .terminated := by
    intro hterminated
    rw [(hinv.kept.final hterminated).1] at hrunning
    cases hrunning
  refine ⟨?_, hnotfinal⟩
  cases hdestroyed : this.destroyed with
  | false => rfl
  | true => exact absurd (hinv.emptied hdestroyed).1 hnotfinal

theorem tracked_update (hinv : this.Invariant) {next : State} {thread : ℕ}
    (hothers : ∀ other, other ≠ thread → next.producers other = this.log.producers other)
    (other : ℕ) :
    (other ∈ if (next.producers thread).pc.Inside then insert thread this.inside
      else this.inside.erase thread) ↔ (next.producers other).pc.Inside := by
  by_cases heq : other = thread
  · subst heq
    split_ifs with hinside
    · simp [hinside]
    · simp [hinside]
  · rw [hothers other heq, ← hinv.tracked other]
    split_ifs
    · simp [heq]
    · simp [heq]

theorem append (hinv : this.Invariant) {thread : ℕ} {msg : List UInt8} {next : State}
    (hstep : this.log.step (.append thread msg) = some next) :
    next.Kept this.deleted ∧ next.running = this.log.running ∧
      ∀ other, other ≠ thread → next.producers other = this.log.producers other := by
  simp only [State.step] at hstep
  split at hstep
  · cases hstep
  split at hstep
  next hpc =>
      split_ifs at hstep with hnil hitem
      · cases hstep
        exact ⟨hinv.kept.abort, rfl, fun _ _ => rfl⟩
      · cases hstep
        refine ⟨hinv.kept.moveOn thread ?_ ⟨hnil, hitem⟩, State.setProducer_frame ..⟩
        simp [Producer.owned, hpc]
      · cases hstep
        refine ⟨hinv.kept.moveOn thread ?_ hnil, State.setProducer_frame ..⟩
        simp [Producer.owned, hpc]
  next => cases hstep

theorem exit (hinv : this.Invariant) {thread : ℕ} {next : State}
    (hreturns : ReturnsBuffer this (.run (.exit thread)))
    (hstep : this.log.step (.exit thread) = some next) :
    ∃ producer, next = this.log.setProducer thread producer ∧ next.Kept this.deleted ∧
      (this.log.running = false → producer.pc = .exited) := by
  simp only [State.step] at hstep
  split at hstep
  · cases hstep
  split at hstep
  next buff hpc hitem =>
      split_ifs at hstep with hrunning
      · cases hstep
        refine ⟨_, rfl, hinv.kept.moveOn thread ?_ trivial, fun hstopped => ?_⟩
        · simp [Producer.owned, hpc]
        · rw [hrunning] at hstopped
          cases hstopped
      · cases hstep
        have hnone : (this.log.producers thread).item.join = none :=
          hreturns.resolve_left hrunning
        refine ⟨_, rfl, hinv.kept.moveOn thread ?_ trivial, fun _ => rfl⟩
        simp [Producer.owned, hpc, hnone]
  next hpc hitem =>
      cases hstep
      refine ⟨_, rfl, hinv.kept.moveOn thread ?_ trivial, fun _ => rfl⟩
      simp [Producer.owned, hpc, hitem]
  next => cases hstep

theorem freed_exit (state : State) (thread : ℕ) : state.freed (.exit thread) = [] := by
  unfold State.freed
  simp only
  split
  next buff _ _ =>
      cases buff with
      | none => rfl
      | some buffer => rfl
  next => rfl

theorem threadStep (hinv : this.Invariant) {next : State} {thread : ℕ}
    (hkept : next.Kept this.deleted) (hrunning : next.running = this.log.running)
    (hothers : ∀ other, other ≠ thread → next.producers other = this.log.producers other)
    (houtside : this.log.running = false → ¬ (next.producers thread).pc.Inside)
    (hemptied : this.destroyed = true → next.logger = .terminated ∧ next.pool.pool = []) :
    ({ this with
      log := next
      inside :=
        if (next.producers thread).pc.Inside then insert thread this.inside
        else this.inside.erase thread
      deleted := this.deleted ++ [] } : Ownership).Invariant := by
  rw [List.append_nil]
  refine ⟨hkept, hinv.tracked_update hothers, fun hstopped => ?_, hemptied⟩
  rw [hrunning] at hstopped
  rw [if_neg (houtside hstopped), hinv.outside hstopped, Finset.erase_empty]

theorem step (hinv : this.Invariant) {action : OwnershipAction} {next : Ownership}
    (hreturns : ReturnsBuffer this action) (hstep : this.step action = some next) :
    next.Invariant := by
  cases action with
  | destroyMembers =>
      simp only [Ownership.step] at hstep
      split_ifs at hstep with hguard
      cases hstep
      have hkept := hinv.kept
      refine ⟨⟨?_, hkept.begun, hkept.cleared, hkept.final⟩, hinv.tracked, hinv.outside,
        fun _ => ⟨hguard.1, rfl⟩⟩
      apply hkept.custody.perm
      change ([] ++ (recycled this.log.remaining ++ (this.deleted ++ this.log.pool.pool))).Perm
        (this.log.pool.pool ++ (recycled this.log.remaining ++ this.deleted))
      rw [List.nil_append, ← List.append_assoc]
      exact List.perm_append_comm
  | run action =>
      simp only [Ownership.step] at hstep
      split_ifs at hstep with hpermits
      split at hstep
      · cases hstep
      next after hafter =>
          cases hstep
          cases action with
          | append thread msg =>
              have hrunning : this.log.running = true := hpermits
              obtain ⟨hkept, hsame, hothers⟩ := hinv.append hafter
              apply hinv.threadStep hkept hsame hothers
              · intro hstopped
                rw [hrunning] at hstopped
                cases hstopped
              · intro hdestroyed
                rw [(hinv.alive hrunning).1] at hdestroyed
                cases hdestroyed
          | produce thread fresh =>
              simp only [State.step] at hafter
              split_ifs at hafter
              have hrunning : this.log.running = true := by
                cases hstopped : this.log.running with
                | true => rfl
                | false =>
                    have hout : ¬ (this.log.producers thread).pc.Inside := by
                      rw [← hinv.tracked thread, hinv.outside hstopped]
                      exact Finset.notMem_empty thread
                    exfalso
                    unfold State.produce at hafter
                    cases hpc : (this.log.producers thread).pc with
                    | idle => simp [hpc] at hafter
                    | exited => simp [hpc] at hafter
                    | _ => exact hout (by rw [hpc]; trivial)
              obtain ⟨hsame, hothers⟩ := State.produce_frame hafter
              apply hinv.threadStep (hinv.kept.produce hrunning hafter) hsame hothers
              · intro hstopped
                rw [hrunning] at hstopped
                cases hstopped
              · intro hdestroyed
                rw [(hinv.alive hrunning).1] at hdestroyed
                cases hdestroyed
          | exit thread =>
              obtain ⟨producer, rfl, hkept, hexited⟩ := hinv.exit hreturns hafter
              obtain ⟨hsame, hothers⟩ := this.log.setProducer_frame thread producer
              rw [freed_exit]
              apply hinv.threadStep hkept hsame hothers
              · intro hstopped
                unfold State.setProducer
                simp only [Function.update_self]
                rw [hexited hstopped]
                exact id
              · exact hinv.emptied
          | stop =>
              simp only [State.step] at hafter
              split_ifs at hafter with _ hrunning
              cases hafter
              have hkept := hinv.kept
              have hnotfinal := (hinv.alive hrunning).2
              change Invariant { this with
                log := { this.log with running := false }
                deleted := this.deleted ++ [] }
              rw [List.append_nil]
              exact ⟨⟨hkept.custody, hkept.begun, hkept.cleared,
                fun hterminated => absurd hterminated hnotfinal⟩, hinv.tracked,
                fun _ => of_decide_eq_true hpermits, hinv.emptied⟩
          | log script grown1 grown2 =>
              simp only [State.step] at hafter
              split_ifs at hafter
              obtain ⟨hsame, hproducers⟩ := State.log_frame hafter
              refine ⟨hinv.kept.log hafter, fun thread => ?_, fun hstopped => ?_,
                fun hdestroyed => ?_⟩
              · rw [hproducers]
                exact hinv.tracked thread
              · rw [hsame] at hstopped
                exact hinv.outside hstopped
              · simp [State.log, (hinv.emptied hdestroyed).1] at hafter

theorem partitioned (hinv : this.Invariant) : this.Partitioned := by
  have hcustody := hinv.kept.custody
  have honce := hcustody.once
  unfold State.listed at honce
  rw [List.nodup_append, List.nodup_append] at honce
  obtain ⟨hpool, ⟨hentries, hdeleted, hgone⟩, hapart⟩ := honce
  have howned : ∀ thread buffer, (this.log.producers thread).owned = some buffer →
      buffer ∉ this.log.pool.pool ∧ buffer ∉ recycled this.log.remaining ∧
        buffer ∉ this.deleted := by
    intro thread buffer hbuffer
    have hout := hcustody.apart thread buffer hbuffer
    unfold State.listed at hout
    rw [List.mem_append, List.mem_append, not_or, not_or] at hout
    exact hout
  have hlive : ∀ buffer, buffer ∈ this.log.pool.pool → this.destroyed = false := by
    intro buffer hbuffer
    cases hdestroyed : this.destroyed with
    | false => rfl
    | true =>
        rw [(hinv.emptied hdestroyed).2] at hbuffer
        exact absurd hbuffer List.not_mem_nil
  have hplaced : ∀ buffer < this.log.pool.next, buffer ∉ this.deleted →
      ∃! spot, this.At spot buffer := by
    intro buffer hvalid hkeptAlive
    rcases (hcustody.complete buffer).mp hvalid with hlisted | ⟨thread, hheld⟩
    · unfold State.listed at hlisted
      rcases List.mem_append.mp hlisted with hin | hrest
      · refine ⟨.pool, ⟨hlive buffer hin, hin⟩, ?_⟩
        intro spot hat
        cases spot with
        | pool => rfl
        | item other => exact absurd hin (howned other buffer hat).1
        | recycleEntry =>
            exact absurd rfl (hapart buffer hin buffer (List.mem_append_left _ hat))
      · rcases List.mem_append.mp hrest with hentry | hdead
        · refine ⟨.recycleEntry, hentry, ?_⟩
          intro spot hat
          cases spot with
          | pool =>
              exact absurd rfl (hapart buffer hat.2 buffer (List.mem_append_left _ hentry))
          | item other => exact absurd hentry (howned other buffer hat).2.1
          | recycleEntry => rfl
        · exact absurd hdead hkeptAlive
    · refine ⟨.item thread, hheld, ?_⟩
      intro spot hat
      cases spot with
      | pool => exact absurd hat.2 (howned thread buffer hheld).1
      | item other => rw [hcustody.alone other thread buffer hat hheld]
      | recycleEntry => exact absurd hat (howned thread buffer hheld).2.1
  refine ⟨hplaced, hpool, hentries, ?_, hdeleted, ?_⟩
  · intro spot buffer hat hdead
    cases spot with
    | pool => exact hapart buffer hat.2 buffer (List.mem_append_right _ hdead) rfl
    | item thread => exact (howned thread buffer hat).2.2 hdead
    | recycleEntry => exact hgone buffer hat buffer hdead rfl
  · intro hdestroyed hitems buffer hvalid
    by_contra hkeptAlive
    obtain ⟨spot, hat, -⟩ := hplaced buffer hvalid hkeptAlive
    obtain ⟨hterminated, hempty⟩ := hinv.emptied hdestroyed
    cases spot with
    | pool =>
        rw [hat.1] at hdestroyed
        cases hdestroyed
    | item thread =>
        have hnone : (this.log.producers thread).owned = none := by
          unfold Producer.owned
          rw [hitems thread]
          split <;> rfl
        have hheld : (this.log.producers thread).owned = some buffer := hat
        rw [hnone] at hheld
        cases hheld
    | recycleEntry =>
        have hnothing : this.log.remaining = [] := by
          unfold State.remaining
          rw [hterminated]
          exact (hinv.kept.final hterminated).2
        have hentry : buffer ∈ recycled this.log.remaining := hat
        rw [hnothing] at hentry
        exact absurd hentry List.not_mem_nil

end Invariant

end Ownership

/-- In every run in which no thread exits with a buffer when the appender is gone, each
buffer is in one place until it is deleted once. -/
theorem partitioned_of_returnsBuffer {garbage : ℕ → ℕ → UInt8} {this : Ownership}
    (hreached : (ownershipMachine garbage).ReachedBy ReturnsBuffer this) : this.Partitioned :=
  (Machine.ReachedBy.invariant Ownership.Invariant (.start garbage)
    (fun _ _ _ hinv hreturns hstep => hinv.step hreturns hstep) hreached).partitioned

/-- Thread 0 logs `A` and exits, and the appender is destroyed. -/
def returnsFirst : List OwnershipAction :=
  [.run (.append 0 [65]), .run (.produce 0 0), .run (.produce 0 0), .run (.produce 0 0),
    .run (.produce 0 0), .run (.exit 0), .run (.produce 0 0), .run .stop,
    .run (.log [] false false), .run (.log [] false false), .run (.log [] false false),
    .run (.log [.wrote 1] false false), .run (.log [] false false), .run (.log [] false false),
    .destroyMembers]

theorem partitioned_returnsFirst :
    ∃ this, (ownershipMachine fun _ _ => 0).run returnsFirst = some this ∧
      this.deleted = List.range 32 ∧ this.Partitioned := by
  have hrun : ∃ this, (ownershipMachine fun _ _ => 0).run returnsFirst = some this ∧
      this.deleted = List.range 32 :=
    ⟨_, rfl, rfl⟩
  obtain ⟨this, hthis, hdeleted⟩ := hrun
  refine ⟨this, hthis, hdeleted, ?_⟩
  apply partitioned_of_returnsBuffer
  exact Machine.ReachedBy.runFrom .start (by decide +kernel) hthis

end AsynLog
end BackEndFacility
