import BackEndFacility.AsynLogAppender

/-!
# What the asynchronous log delivers

The slices that the logging thread has not dealt with yet are those left in
the vector it works on, followed by those under `m_pb1`.  Together with the
pool and the buffers the producers own they obey the ledger of recycled
buffers, so every slice still refers to the bytes of its message.  Hence what
has been handed to the log file, followed by what the remaining slices refer
to, is the concatenation of the messages pushed so far.
-/

namespace BackEndFacility
namespace AsynLog

def FixedBufferPool.used (this : FixedBufferPool) (buffer : ℕ) : ℕ :=
  (this.memory buffer).cur

def FixedBufferPool.content (this : FixedBufferPool) (buffer : ℕ) :
    ℕ → UInt8 :=
  (this.memory buffer).bytes

/-! ## The pool keeps the ledger -/

namespace FixedBufferPool

variable {Thread : Type*} {this : FixedBufferPool}
  {owned : Thread → Option ℕ} {slices : List LogMsg}

theorem enlarge_ledger
    (hledger : BufferLedger this.used this.next this.pool owned slices)
    (hempty : this.pool = []) (fresh : ℕ) :
    BufferLedger (this.enlarge fresh).used (this.enlarge fresh).next
      (this.enlarge fresh).pool owned slices ∧
    ∀ buffer < this.next,
      (this.enlarge fresh).memory buffer = this.memory buffer := by
  unfold enlarge
  split
  · exact ⟨hledger, fun _ _ => rfl⟩
  · rw [hempty] at hledger
    constructor
    · have hgrown := hledger.grow (min fresh incGran)
      simp only [hempty, List.nil_append]
      convert hgrown using 1
      funext buffer
      unfold used
      simp only
      split <;> rfl
    · intro buffer hold
      have hnot : ¬ (this.next ≤ buffer ∧
          buffer < this.next + min fresh incGran) := by omega
      simp only [if_neg hnot]

theorem getBuff_ledger [DecidableEq Thread]
    (hledger : BufferLedger this.used this.next this.pool owned slices)
    (fresh : ℕ) {thread : Thread} (howned : owned thread = none) :
    BufferLedger (this.getBuff fresh).2.used (this.getBuff fresh).2.next
      (this.getBuff fresh).2.pool
      (Function.update owned thread (this.getBuff fresh).1) slices ∧
    (∀ buffer < this.next,
      (this.getBuff fresh).2.memory buffer = this.memory buffer) ∧
    ∀ buffer, (this.getBuff fresh).1 = some buffer →
      (this.getBuff fresh).2.used buffer = 0 := by
  have hfull : ∃ full : FixedBufferPool,
      full = (if this.pool = [] then this.enlarge fresh else this) ∧
      BufferLedger full.used full.next full.pool owned slices ∧
      ∀ buffer < this.next, full.memory buffer = this.memory buffer := by
    refine ⟨_, rfl, ?_⟩
    split
    next hempty => exact enlarge_ledger hledger hempty fresh
    next => exact ⟨hledger, fun _ _ => rfl⟩
  obtain ⟨full, heq, hfullLedger, hmemory⟩ := hfull
  unfold getBuff
  simp only [← heq]
  cases hlast : full.pool.getLast? with
  | none =>
      refine ⟨?_, hmemory, by simp⟩
      exact hfullLedger.keep thread howned.symm
  | some buffer =>
      have hsplit : full.pool = full.pool.dropLast ++ [buffer] :=
        (List.dropLast_append_getLast? buffer hlast).symm
      refine ⟨?_, hmemory, ?_⟩
      · rw [hsplit] at hfullLedger
        exact hfullLedger.take thread
      · intro taken htaken
        obtain rfl := Option.some.inj htaken
        exact hfullLedger.poolEmpty buffer (by rw [hsplit]; simp)

theorem recycle_used (this : FixedBufferPool) (buffer : ℕ) :
    (this.recycle buffer).used = Function.update this.used buffer 0 := by
  funext other
  unfold used recycle
  by_cases heq : other = buffer
  · subst heq
    simp [FixedBuffer.reset]
  · simp [Function.update, heq]

theorem recycle_content (this : FixedBufferPool) (buffer : ℕ) :
    (this.recycle buffer).content = this.content := by
  funext other
  unfold content recycle
  by_cases heq : other = buffer
  · subst heq
    simp [FixedBuffer.reset]
  · simp [Function.update, heq]

theorem write_used (this : FixedBufferPool) (buffer : ℕ)
    (msg : List UInt8) :
    (this.write buffer msg).used =
      Function.update this.used buffer
        (this.used buffer + msg.length) := by
  funext other
  unfold used write
  by_cases heq : other = buffer
  · subst heq
    simp [FixedBuffer.append]
  · simp [Function.update, heq]

/-- A copy leaves what it does not overlap. -/
theorem write_read_apart (this : FixedBufferPool) (buffer : ℕ)
    (msg : List UInt8) {slice : LogMsg}
    (hapart : slice.len ≠ 0 → slice.buffer = buffer →
      this.used buffer + msg.length ≤ slice.offset ∨
        slice.offset + slice.len ≤ this.used buffer) :
    slice.read (this.write buffer msg).content =
      slice.read this.content := by
  apply BufferSlice.read_congr
  intro i hi
  unfold content write
  by_cases heq : slice.buffer = buffer
  · have hfree := hapart (by omega) heq
    subst heq
    unfold used at hfree
    have hbefore : ¬ ((this.memory slice.buffer).cur ≤ slice.offset + i ∧
        slice.offset + i < (this.memory slice.buffer).cur + msg.length) := by
      omega
    simp [FixedBuffer.append, hbefore]
  · simp [Function.update, heq]

/-- A copy into a buffer leaves what was filled before. -/
theorem write_read (this : FixedBufferPool) (buffer : ℕ) (msg : List UInt8)
    {slice : LogMsg}
    (hplaced : slice.len ≠ 0 →
      slice.offset + slice.len ≤ this.used slice.buffer) :
    slice.read (this.write buffer msg).content =
      slice.read this.content :=
  this.write_read_apart buffer msg fun hlen heq =>
    .inr (heq ▸ hplaced hlen)

/-- What was copied is read back. -/
theorem write_read_self (this : FixedBufferPool) (buffer : ℕ)
    (msg : List UInt8) :
    (BufferSlice.mk msg.length buffer (this.used buffer)).read
      (this.write buffer msg).content = msg := by
  unfold BufferSlice.read
  apply List.ext_getElem
  · simp
  · intro i hi hmsg
    simp [content, write, FixedBuffer.append, used, hmsg]

end FixedBufferPool

/-! ## The invariant -/

/-- The slices the logging thread has still to deal with. -/
def State.remaining (state : State) : List LogMsg :=
  match state.logger with
  | .writing i => state.pb2.drop i ++ state.pb1
  | _ => state.pb1

/-- The buffer a producer may still write into.  Once it has pushed the slice
that retires its buffer it no longer owns it. -/
def Producer.owned (producer : Producer) : Option ℕ :=
  match producer.pc with
  | .getBuff _ => none
  | .exited => none
  | _ => producer.item.join

def Fits (msg : List UInt8) : Prop := msg ≠ [] ∧ msg.length ≤ buffSize

/-- What a producer may rely on between its own steps. -/
def Producer.Sound (pool : FixedBufferPool) (producer : Producer) : Prop :=
  match producer.pc with
  | .firstBuff msg => Fits msg ∧ producer.item = none
  | .check msg => Fits msg
  | .pushRetired msg => Fits msg
  | .getBuff msg => Fits msg
  | .write msg => Fits msg ∧ ∀ buffer, producer.item = some (some buffer) →
      pool.used buffer + msg.length ≤ buffSize
  | .push msg offset => Fits msg ∧
      ∀ buffer, producer.item = some (some buffer) →
        (BufferSlice.mk msg.length buffer offset).read pool.content = msg ∧
          offset + msg.length ≤ pool.used buffer
  | _ => True

/-- The logging thread is between two batches. -/
def LoggerPc.Resting : LoggerPc → Prop
  | .writing _ => False
  | .clearing => False
  | _ => True

structure State.Invariant (state : State) : Prop where
  ledger : BufferLedger state.pool.used state.pool.next state.pool.pool
    (fun thread => (state.producers thread).owned) state.remaining
  delivered : state.logFile.contents ++
    state.remaining.flatMap (BufferSlice.read state.pool.content) =
      state.returned.flatMap Prod.snd
  sound : ∀ thread, (state.producers thread).Sound state.pool
  cleared : state.logger.Resting → state.pb2 = []
  flushed : (∀ i, state.logger ≠ .writing i) → state.logFile.fileBuff = []
  final : state.logger = .terminated →
    state.running = false ∧ state.pb1 = []
  intact : state.corrupted = false

/-- When the logging thread has terminated, the file holds the messages in
the order of their pushes. -/
structure State.Delivered (state : State) : Prop where
  intact : state.corrupted = false
  complete : state.logger = .terminated →
    state.logFile.written = state.returned.flatMap Prod.snd

theorem State.Invariant.delivered_all {state : State}
    (hinv : state.Invariant) : state.Delivered := by
  constructor
  · exact hinv.intact
  · intro hterminated
    have hnothing : state.remaining = [] := by
      unfold State.remaining
      rw [hterminated]
      exact (hinv.final hterminated).2
    have hbuff : state.logFile.fileBuff = [] :=
      hinv.flushed (by simp [hterminated])
    have hall := hinv.delivered
    rw [hnothing] at hall
    simpa [LogFile.contents, hbuff] using hall

theorem owned_update (producers : ℕ → Producer) (thread : ℕ)
    (producer : Producer) :
    (fun other => (Function.update producers thread producer other).owned) =
      Function.update (fun other => (producers other).owned) thread
        producer.owned := by
  funext other
  by_cases heq : other = thread
  · subst heq
    simp
  · simp [Function.update, heq]

theorem Producer.Sound.congr {pool pool' : FixedBufferPool}
    {producer : Producer} (hsound : producer.Sound pool)
    (hmemory : ∀ buffer, producer.owned = some buffer →
      pool'.memory buffer = pool.memory buffer) :
    producer.Sound pool' := by
  obtain ⟨pc, item⟩ := producer
  cases pc with
  | write msg =>
      refine ⟨hsound.1, fun buffer hitem => ?_⟩
      have hitem' : item = some (some buffer) := hitem
      have hsame := hmemory buffer (by simp [Producer.owned, hitem'])
      unfold FixedBufferPool.used
      rw [hsame]
      exact hsound.2 buffer hitem
  | push msg offset =>
      refine ⟨hsound.1, fun buffer hitem => ?_⟩
      have hitem' : item = some (some buffer) := hitem
      have hsame := hmemory buffer (by simp [Producer.owned, hitem'])
      obtain ⟨hread, hplaced⟩ := hsound.2 buffer hitem
      constructor
      · refine (BufferSlice.read_congr fun i _ => ?_).trans hread
        unfold FixedBufferPool.content
        rw [hsame]
      · unfold FixedBufferPool.used at hplaced ⊢
        rw [hsame]
        exact hplaced
  | _ => exact hsound

namespace State

theorem remaining_push (state : State) (msg : LogMsg) :
    { state with pb1 := state.pb1 ++ [msg] }.remaining =
      state.remaining ++ [msg] := by
  unfold remaining
  cases state.logger <;> simp

theorem remaining_writing {state : State} {i : ℕ} {msg : LogMsg}
    (hlogger : state.logger = .writing i) (hmsg : state.pb2[i]? = some msg) :
    state.remaining =
      msg :: { state with logger := .writing (i + 1) }.remaining := by
  obtain ⟨hlt, hget⟩ := List.getElem?_eq_some_iff.mp hmsg
  unfold remaining
  simp only [hlogger]
  rw [List.drop_eq_getElem_cons hlt, hget, List.cons_append]

theorem remaining_of_not_writing {state : State}
    (hidle : ∀ i, state.logger ≠ .writing i) :
    state.remaining = state.pb1 := by
  unfold remaining
  cases hlogger : state.logger with
  | writing i => exact absurd hlogger (hidle i)
  | _ => rfl

end State

namespace State.Invariant

variable {state : State}

theorem abort (hinv : state.Invariant) :
    { state with aborted := true }.Invariant :=
  ⟨hinv.ledger, hinv.delivered, hinv.sound, hinv.cleared, hinv.flushed,
    hinv.final, hinv.intact⟩

/-! ## Steps of a producer -/

/-- A producer moves on; the pool and the vector under `m_pb1` may change. -/
theorem producerStep (hinv : state.Invariant) {thread : ℕ}
    {producer : Producer} {pool : FixedBufferPool} {pb1 : List LogMsg}
    {returned : List (ℕ × List UInt8)}
    (hledger : BufferLedger pool.used pool.next pool.pool
      (Function.update (fun other => (state.producers other).owned) thread
        producer.owned)
      { state with pb1 := pb1 }.remaining)
    (hdelivered : state.logFile.contents ++
      { state with pb1 := pb1 }.remaining.flatMap
        (BufferSlice.read pool.content) = returned.flatMap Prod.snd)
    (hmemory : ∀ other buffer, other ≠ thread →
      (state.producers other).owned = some buffer →
        pool.memory buffer = state.pool.memory buffer)
    (hsound : producer.Sound pool)
    (hfinal : state.running = true ∨ pb1 = state.pb1) :
    ({ state with
      pool := pool
      pb1 := pb1
      returned := returned }.setProducer thread producer).Invariant := by
  constructor
  · simp only [State.setProducer, owned_update]
    exact hledger
  · exact hdelivered
  · refine (Function.forall_update_iff state.producers
      fun _ other => other.Sound pool).mpr ⟨hsound, ?_⟩
    intro other hother
    exact (hinv.sound other).congr fun buffer howned =>
      hmemory other buffer hother howned
  · exact hinv.cleared
  · exact hinv.flushed
  · intro hterminated
    obtain ⟨hstopped, hempty⟩ := hinv.final hterminated
    rcases hfinal with hrunning | hsame
    · rw [hstopped] at hrunning
      cases hrunning
    · exact ⟨hstopped, hsame.trans hempty⟩
  · exact hinv.intact

/-- A producer moves on without touching anything shared. -/
theorem moveOn (hinv : state.Invariant) {thread : ℕ} {producer : Producer}
    (howned : producer.owned = (state.producers thread).owned)
    (hsound : producer.Sound state.pool) :
    (state.setProducer thread producer).Invariant :=
  hinv.producerStep (hinv.ledger.keep thread howned) hinv.delivered
    (fun _ _ _ _ => rfl) hsound (.inr rfl)

theorem getBuff (hinv : state.Invariant) {thread : ℕ} (fresh : ℕ)
    (pc : ProducerPc)
    (hnone : (state.producers thread).owned = none)
    (howned : (Producer.mk pc (some (state.pool.getBuff fresh).1)).owned =
      (state.pool.getBuff fresh).1)
    (hsound : (∀ buffer, (state.pool.getBuff fresh).1 = some buffer →
      (state.pool.getBuff fresh).2.used buffer = 0) →
        (Producer.mk pc (some (state.pool.getBuff fresh).1)).Sound
          (state.pool.getBuff fresh).2) :
    ({ state with pool := (state.pool.getBuff fresh).2 }.setProducer thread
      ⟨pc, some (state.pool.getBuff fresh).1⟩).Invariant := by
  obtain ⟨hledger, hmemory, hempty⟩ :=
    FixedBufferPool.getBuff_ledger hinv.ledger fresh hnone
  have hread : state.remaining.flatMap
      (BufferSlice.read (state.pool.getBuff fresh).2.content) =
      state.remaining.flatMap (BufferSlice.read state.pool.content) := by
    apply List.flatMap_congr
    intro slice hslice
    apply BufferSlice.read_congr
    intro i _
    unfold FixedBufferPool.content
    rw [hmemory slice.buffer (hinv.ledger.slicesOld slice hslice)]
  refine hinv.producerStep ?_ ?_ ?_ (hsound hempty) (.inr rfl)
  · rw [howned]
    exact hledger
  · exact hread ▸ hinv.delivered
  · intro other buffer _ hother
    exact hmemory buffer (hinv.ledger.ownedOld other buffer hother)

/-- A producer pushes the slice that retires its buffer. -/
theorem retire (hinv : state.Invariant) {thread buffer : ℕ}
    {producer : Producer}
    (howned : (state.producers thread).owned = some buffer)
    (hgone : producer.owned = none) (hsound : producer.Sound state.pool) :
    ((state.addToWriter (.retire buffer)).setProducer thread
      producer).Invariant := by
  unfold State.addToWriter
  split
  next hrunning =>
      refine hinv.producerStep ?_ ?_ (fun _ _ _ _ => rfl) hsound
        (.inl hrunning)
      · rw [State.remaining_push, hgone]
        exact hinv.ledger.retire howned
      · rw [State.remaining_push]
        simpa using hinv.delivered
  next =>
      have hforgot := hinv.ledger.forget thread
      rw [← hgone] at hforgot
      exact (hinv.producerStep hforgot hinv.delivered (fun _ _ _ _ => rfl)
        hsound (.inr rfl)).abort

theorem write (hinv : state.Invariant) {thread buffer : ℕ}
    {msg : List UInt8} (hpc : (state.producers thread).pc = .write msg)
    (hitem : (state.producers thread).item = some (some buffer)) :
    ({ state with pool := state.pool.write buffer msg }.setProducer thread
      { state.producers thread with
        pc := .push msg (state.pool.memory buffer).cur }).Invariant := by
  have howned : (state.producers thread).owned = some buffer := by
    simp [Producer.owned, hpc, hitem]
  have hsound := hinv.sound thread
  unfold Producer.Sound at hsound
  simp only [hpc] at hsound
  have hread : state.remaining.flatMap
      (BufferSlice.read (state.pool.write buffer msg).content) =
      state.remaining.flatMap (BufferSlice.read state.pool.content) := by
    apply List.flatMap_congr
    intro slice hslice
    exact state.pool.write_read buffer msg (hinv.ledger.placed slice hslice)
  refine hinv.producerStep ?_ ?_ ?_ ?_ (.inr rfl)
  · have hledger := hinv.ledger.write howned msg.length
    rw [← FixedBufferPool.write_used] at hledger
    exact hledger.keep thread (by simp [Producer.owned, hpc])
  · exact hread ▸ hinv.delivered
  · intro other taken hne hother
    have hdifferent : taken ≠ buffer := by
      intro heq
      subst heq
      exact hne (hinv.ledger.ownedUnique other thread taken hother howned)
    simp [FixedBufferPool.write, Function.update, hdifferent]
  · refine ⟨hsound.1, fun taken htaken => ?_⟩
    have heq : buffer = taken := by simpa [hitem] using htaken
    subst heq
    constructor
    · exact state.pool.write_read_self buffer msg
    · rw [FixedBufferPool.write_used, Function.update_self]
      exact le_rfl

theorem push (hinv : state.Invariant) {thread buffer offset : ℕ}
    {msg : List UInt8}
    (hpc : (state.producers thread).pc = .push msg offset)
    (hitem : (state.producers thread).item = some (some buffer))
    (hrunning : state.running = true) :
    ({ state.addToWriter ⟨msg.length, buffer, offset⟩ with
      returned := state.returned ++ [(thread, msg)] }.setProducer thread
        { state.producers thread with pc := .idle }).Invariant := by
  have howned : (state.producers thread).owned = some buffer := by
    simp [Producer.owned, hpc, hitem]
  have hsound := hinv.sound thread
  unfold Producer.Sound at hsound
  simp only [hpc] at hsound
  obtain ⟨hread, hplaced⟩ := hsound.2 buffer hitem
  have hlen : msg.length ≠ 0 := by
    simpa using hsound.1.1
  unfold State.addToWriter
  rw [if_pos hrunning]
  refine hinv.producerStep ?_ ?_ (fun _ _ _ _ => rfl) trivial
    (.inl hrunning)
  · rw [State.remaining_push]
    exact (hinv.ledger.post howned hlen hplaced).keep thread
      (by simp [Producer.owned, hpc])
  · rw [State.remaining_push]
    simp only [List.flatMap_append, List.flatMap_cons, List.flatMap_nil,
      List.append_nil, hread]
    rw [← List.append_assoc, hinv.delivered]

theorem produce (hinv : state.Invariant) {thread fresh : ℕ}
    {state' : State} (hstep : state.produce thread fresh = some state') :
    state'.Invariant := by
  have hsound := hinv.sound thread
  unfold Producer.Sound at hsound
  unfold State.produce at hstep
  cases hpc : (state.producers thread).pc with
  | idle => simp [hpc] at hstep
  | firstBuff msg =>
      simp only [hpc, Option.some.injEq] at hstep hsound
      subst hstep
      apply hinv.getBuff
      · simp [Producer.owned, hpc, hsound.2]
      · simp [Producer.owned]
      · intro _
        exact hsound.1
  | check msg =>
      simp only [hpc] at hstep hsound
      split at hstep
      next buffer hitem =>
          split at hstep
          · obtain rfl := Option.some.inj hstep
            exact hinv.moveOn (by simp [Producer.owned, hpc]) hsound
          next hroom =>
            obtain rfl := Option.some.inj hstep
            refine hinv.moveOn (by simp [Producer.owned, hpc]) ⟨hsound, ?_⟩
            intro taken htaken
            have heq : buffer = taken := by simpa [hitem] using htaken
            subst heq
            have hlen : msg.length ≠ 0 := by simpa using hsound.1
            unfold FixedBuffer.available at hroom
            unfold FixedBufferPool.used
            omega
      next hitem =>
          obtain rfl := Option.some.inj hstep
          refine hinv.moveOn ?_ hsound
          have hnull : (state.producers thread).item.join = none := by
            cases hbuff : (state.producers thread).item with
            | none => rfl
            | some buff =>
                cases buff with
                | none => rfl
                | some buffer => exact absurd hbuff (hitem buffer)
          simp [Producer.owned, hpc, hnull]
  | pushRetired msg =>
      simp only [hpc] at hstep hsound
      split at hstep
      next buffer hitem =>
          obtain rfl := Option.some.inj hstep
          exact hinv.retire (by simp [Producer.owned, hpc, hitem])
            (by simp [Producer.owned]) hsound
      next =>
          obtain rfl := Option.some.inj hstep
          exact hinv.abort
  | getBuff msg =>
      simp only [hpc] at hstep hsound
      have hnone : (state.producers thread).owned = none := by
        simp [Producer.owned, hpc]
      split at hstep
      next hnull =>
          obtain rfl := Option.some.inj hstep
          have hafter := hinv.getBuff fresh .idle hnone
            (by simp [Producer.owned]) (fun _ => trivial)
          rw [hnull] at hafter
          exact hafter
      next buffer hbuffer =>
          obtain rfl := Option.some.inj hstep
          have hafter := hinv.getBuff fresh (.write msg) hnone
            (by simp [Producer.owned]) ?_
          · rw [hbuffer] at hafter
            exact hafter
          · intro hempty
            refine ⟨hsound, fun taken htaken => ?_⟩
            rw [hempty taken (by simpa using htaken)]
            simpa using hsound.2
  | write msg =>
      simp only [hpc] at hstep hsound
      split at hstep
      next buffer hitem =>
          have hroom := hsound.2 buffer hitem
          unfold FixedBufferPool.used at hroom
          rw [if_pos hroom] at hstep
          obtain rfl := Option.some.inj hstep
          exact hinv.write hpc hitem
      next =>
          obtain rfl := Option.some.inj hstep
          exact hinv.abort
  | push msg offset =>
      simp only [hpc] at hstep
      split at hstep
      next buffer hitem =>
          split at hstep
          next hrunning =>
              obtain rfl := Option.some.inj hstep
              exact hinv.push hpc hitem hrunning
          next hstopped =>
              obtain rfl := Option.some.inj hstep
              unfold State.addToWriter
              rw [if_neg hstopped]
              exact hinv.abort
      next =>
          obtain rfl := Option.some.inj hstep
          exact hinv.abort
  | exitPush =>
      simp only [hpc] at hstep
      split at hstep
      next buffer hitem =>
          obtain rfl := Option.some.inj hstep
          exact hinv.retire (by simp [Producer.owned, hpc, hitem])
            (by simp [Producer.owned]) trivial
      next =>
          obtain rfl := Option.some.inj hstep
          exact hinv.abort
  | exited => simp [hpc] at hstep

/-! ## Steps of the logging thread -/

/-- The lock is held, and the vector the logging thread worked on is empty. -/
theorem swapOrLeave (hinv : state.Invariant)
    (hresting : state.logger.Resting)
    (hidle : ∀ i, state.logger ≠ .writing i) :
    state.swapOrLeave.Invariant := by
  have hremaining := State.remaining_of_not_writing hidle
  have hledger := hinv.ledger
  have hdelivered := hinv.delivered
  rw [hremaining] at hledger hdelivered
  unfold State.swapOrLeave
  split
  next hover =>
      simp only [Bool.and_eq_true, Bool.not_eq_true', List.isEmpty_iff]
        at hover
      exact ⟨hledger, hdelivered, hinv.sound, fun _ => hinv.cleared hresting,
        fun _ => hinv.flushed hidle, fun _ => hover, hinv.intact⟩
  next =>
      have hempty := hinv.cleared hresting
      refine ⟨?_, ?_, hinv.sound, fun hfalse => hfalse.elim,
        fun hwriting => absurd rfl (hwriting 0), nofun,
        hinv.intact⟩
      · simpa [State.remaining, hempty] using hledger
      · simpa [State.remaining, hempty] using hdelivered

theorem shrinkMemoryUsage (hinv : state.Invariant)
    (hresting : state.logger.Resting) (hempty : state.pb1 = [])
    (grown1 grown2 : Bool) :
    (state.shrinkMemoryUsage grown1 grown2).Invariant := by
  have hcleared := hinv.cleared hresting
  have hpb1 : (if grown1 then [] else state.pb1) = state.pb1 := by
    rw [hempty]
    simp
  have hpb2 : (if grown2 then [] else state.pb2) = state.pb2 := by
    rw [hcleared]
    simp
  have hmemory : state.pool.shrink.memory = state.pool.memory ∧
      state.pool.shrink.next = state.pool.next ∧
      state.pool.shrink.pool.Sublist state.pool.pool := by
    unfold FixedBufferPool.shrink
    split
    · exact ⟨rfl, rfl, List.take_sublist _ _⟩
    · exact ⟨rfl, rfl, List.Sublist.refl _⟩
  obtain ⟨hsame, hnext, hkept⟩ := hmemory
  have hused : state.pool.shrink.used = state.pool.used := by
    unfold FixedBufferPool.used
    rw [hsame]
  have hcontent : state.pool.shrink.content = state.pool.content := by
    unfold FixedBufferPool.content
    rw [hsame]
  unfold State.shrinkMemoryUsage
  rw [hpb1, hpb2]
  constructor
  · simp only
    rw [hused, hnext]
    exact hinv.ledger.shrink hkept
  · simp only
    rw [hcontent]
    exact hinv.delivered
  · intro thread
    exact (hinv.sound thread).congr fun buffer _ => by rw [hsame]
  · exact hinv.cleared
  · exact hinv.flushed
  · exact hinv.final
  · exact hinv.intact

theorem wait (hinv : state.Invariant) (hresting : state.logger.Resting)
    (hidle : ∀ i, state.logger ≠ .writing i) (idle : ℕ) :
    { state with logger := .waiting idle }.Invariant := by
  have hremaining := State.remaining_of_not_writing hidle
  have hledger := hinv.ledger
  have hdelivered := hinv.delivered
  rw [hremaining] at hledger hdelivered
  exact ⟨hledger, hdelivered, hinv.sound, fun _ => hinv.cleared hresting,
    fun _ => hinv.flushed hidle, nofun, hinv.intact⟩

theorem recycle (hinv : state.Invariant) {i : ℕ} {msg : LogMsg}
    (hlogger : state.logger = .writing i) (hmsg : state.pb2[i]? = some msg)
    (hzero : msg.len = 0) :
    { state with
      pool := state.pool.recycle msg.buffer
      logger := .writing (i + 1) }.Invariant := by
  have hremaining := State.remaining_writing hlogger hmsg
  have hledger := hinv.ledger
  have hdelivered := hinv.delivered
  rw [hremaining] at hledger hdelivered
  constructor
  · have hrecycled := hledger.recycle hzero
    rw [← FixedBufferPool.recycle_used] at hrecycled
    exact hrecycled
  · rw [List.flatMap_cons, BufferSlice.read_of_len_eq_zero _ hzero,
      List.nil_append] at hdelivered
    simp only
    rw [FixedBufferPool.recycle_content]
    exact hdelivered
  · intro thread
    apply (hinv.sound thread).congr
    intro buffer howned
    have hne : buffer ≠ msg.buffer := by
      intro heq
      exact hledger.ownedLive thread buffer howned msg (by simp) hzero
        heq.symm
    simp [FixedBufferPool.recycle, Function.update, hne]
  · exact fun hfalse => hfalse.elim
  · exact fun hwriting => absurd rfl (hwriting (i + 1))
  · nofun
  · exact hinv.intact

theorem append (hinv : state.Invariant) {i : ℕ} {msg : LogMsg}
    {script rest : List WriteResult} {logFile : LogFile}
    (hlogger : state.logger = .writing i) (hmsg : state.pb2[i]? = some msg)
    (hreliable : LogFile.Reliable script)
    (happend : state.logFile.append script
      (msg.read state.pool.content) = some (logFile, rest)) :
    { state with
      logFile := logFile
      logger := .writing (i + 1) }.Invariant := by
  have hremaining := State.remaining_writing hlogger hmsg
  have hledger := hinv.ledger
  have hdelivered := hinv.delivered
  rw [hremaining] at hledger hdelivered
  have hcontents := LogFile.append_contents hreliable happend
  refine ⟨hledger.drop, ?_, hinv.sound, fun hfalse => hfalse.elim,
    fun hwriting => absurd rfl (hwriting (i + 1)), nofun, hinv.intact⟩
  simp only
  rw [hcontents, List.append_assoc, ← hdelivered, List.flatMap_cons]
  rfl

theorem flush (hinv : state.Invariant) {i : ℕ}
    {script rest : List WriteResult} {logFile : LogFile}
    (hlogger : state.logger = .writing i) (hend : state.pb2[i]? = none)
    (hreliable : LogFile.Reliable script)
    (hflush : state.logFile.flush script = some (logFile, rest)) :
    { state with
      logFile := logFile
      logger := .clearing }.Invariant := by
  have hremaining : state.remaining = state.pb1 := by
    unfold State.remaining
    simp only [hlogger]
    rw [List.drop_eq_nil_of_le (List.getElem?_eq_none_iff.mp hend),
      List.nil_append]
  have hledger := hinv.ledger
  have hdelivered := hinv.delivered
  rw [hremaining] at hledger hdelivered
  obtain ⟨hcontents, hbuff⟩ := LogFile.flush_contents hreliable hflush
  refine ⟨hledger, ?_, hinv.sound, fun hfalse => hfalse.elim,
    fun _ => hbuff, nofun, hinv.intact⟩
  simp only
  rw [hcontents]
  exact hdelivered

theorem log (hinv : state.Invariant) {script : List WriteResult}
    {grown1 grown2 : Bool} {state' : State}
    (hreliable : LogFile.Reliable script)
    (hstep : state.log script grown1 grown2 = some state') :
    state'.Invariant := by
  unfold State.log at hstep
  cases hlogger : state.logger with
  | top =>
      have hresting : state.logger.Resting := by rw [hlogger]; trivial
      have hidle : ∀ i, state.logger ≠ .writing i := by simp [hlogger]
      simp only [hlogger] at hstep
      split at hstep
      · obtain rfl := Option.some.inj hstep
        exact hinv.wait hresting hidle 0
      · obtain rfl := Option.some.inj hstep
        exact hinv.swapOrLeave hresting hidle
  | waiting idle =>
      have hresting : state.logger.Resting := by rw [hlogger]; trivial
      have hidle : ∀ i, state.logger ≠ .writing i := by simp [hlogger]
      simp only [hlogger] at hstep
      split at hstep
      next hempty =>
          have hshrunk : (if idle + 1 = 8 then
              state.shrinkMemoryUsage grown1 grown2 else state).Invariant ∧
              (if idle + 1 = 8 then state.shrinkMemoryUsage grown1 grown2
                else state).logger = state.logger := by
            split
            · exact ⟨hinv.shrinkMemoryUsage hresting
                (List.isEmpty_iff.mp hempty) grown1 grown2, rfl⟩
            · exact ⟨hinv, rfl⟩
          generalize (if idle + 1 = 8 then
            state.shrinkMemoryUsage grown1 grown2 else state) = shrunk
              at hstep hshrunk
          obtain ⟨hafter, hsame⟩ := hshrunk
          rw [← hsame] at hresting hidle
          split at hstep
          · obtain rfl := Option.some.inj hstep
            exact hafter.wait hresting hidle (idle + 1)
          · obtain rfl := Option.some.inj hstep
            exact hafter.swapOrLeave hresting hidle
      next =>
          obtain rfl := Option.some.inj hstep
          exact hinv.swapOrLeave hresting hidle
  | writing i =>
      simp only [hlogger] at hstep
      split at hstep
      next hend =>
          split at hstep
          · cases hstep
          next logFile rest hflush =>
              obtain rfl := Option.some.inj hstep
              exact hinv.flush hlogger hend hreliable hflush
      next msg hmsg =>
          split at hstep
          next hzero =>
              obtain rfl := Option.some.inj hstep
              exact hinv.recycle hlogger hmsg hzero
          next =>
              split at hstep
              · obtain rfl := Option.some.inj hstep
                rw [← hlogger]
                exact hinv.abort
              · split at hstep
                · cases hstep
                next logFile rest happend =>
                    obtain rfl := Option.some.inj hstep
                    exact hinv.append hlogger hmsg hreliable happend
  | clearing =>
      simp only [hlogger, Option.some.injEq] at hstep
      subst hstep
      have hremaining := State.remaining_of_not_writing
        (show ∀ i, state.logger ≠ .writing i by simp [hlogger])
      have hledger := hinv.ledger
      have hdelivered := hinv.delivered
      rw [hremaining] at hledger hdelivered
      exact ⟨hledger, hdelivered, hinv.sound, fun _ => rfl,
        fun _ => hinv.flushed (by simp [hlogger]), nofun, hinv.intact⟩
  | terminated => simp [hlogger] at hstep

/-! ## Whole runs -/

theorem step (hinv : state.Invariant) {action : Action}
    (hassumed : Assumed state action) {state' : State}
    (hstep : state.step action = some state') : state'.Invariant := by
  unfold State.step at hstep
  split at hstep
  · cases hstep
  cases action with
  | append thread msg =>
      obtain ⟨-, hfits⟩ := hassumed
      simp only at hstep
      split at hstep
      next hidle =>
          split at hstep
          · obtain rfl := Option.some.inj hstep
            exact hinv.abort
          next hne =>
              split at hstep
              next hitem =>
                  obtain rfl := Option.some.inj hstep
                  exact hinv.moveOn (by simp [Producer.owned, hidle])
                    ⟨⟨hne, hfits⟩, hitem⟩
              next =>
                  obtain rfl := Option.some.inj hstep
                  exact hinv.moveOn (by simp [Producer.owned, hidle])
                    ⟨hne, hfits⟩
      · cases hstep
  | produce thread fresh => exact hinv.produce hstep
  | exit thread =>
      simp only at hstep
      split at hstep
      next item hidle hitem =>
          split at hstep
          · obtain rfl := Option.some.inj hstep
            exact hinv.moveOn (by simp [Producer.owned, hidle]) trivial
          · obtain rfl := Option.some.inj hstep
            exact hinv.producerStep (hinv.ledger.forget thread)
              hinv.delivered (fun _ _ _ _ => rfl) trivial (.inr rfl)
      next hidle hitem =>
          obtain rfl := Option.some.inj hstep
          exact hinv.producerStep (hinv.ledger.forget thread)
            hinv.delivered (fun _ _ _ _ => rfl) trivial (.inr rfl)
      · cases hstep
  | stop =>
      simp only at hstep
      split at hstep
      · obtain rfl := Option.some.inj hstep
        exact ⟨hinv.ledger, hinv.delivered, hinv.sound, hinv.cleared,
          hinv.flushed, fun hover => ⟨rfl, (hinv.final hover).2⟩, hinv.intact⟩
      · cases hstep
  | log script grown1 grown2 => exact hinv.log hassumed hstep

end State.Invariant

theorem start_invariant (garbage : ℕ → ℕ → UInt8) :
    (start garbage).Invariant := by
  constructor
  · apply BufferLedger.start
    · exact List.nodup_range
    · intro buffer hmem
      exact List.mem_range.mp hmem
    · intro buffer _
      rfl
    · intro thread
      rfl
  · rfl
  · intro thread
    trivial
  · intro _
    rfl
  · intro _
    rfl
  · nofun
  · rfl

theorem delivered_of_assumed (garbage : ℕ → ℕ → UInt8) {state : State}
    (hreached : (machine garbage).ReachedBy Assumed state) :
    state.Delivered := by
  have hinv : state.Invariant := by
    refine hreached.invariant State.Invariant (start_invariant garbage) ?_
    intro state action next hstate hassumed hstep
    exact hstate.step hassumed hstep
  exact hinv.delivered_all

/-- Two threads log, and one of them exits.  The batch takes a short write and an
interrupted one, and the buffer of that thread goes to a third one, which logs before the
log is stopped. -/
def logsReusedBuffer : List Action :=
  [.append 0 [104, 105], .produce 0 0, .produce 0 0, .produce 0 0, .produce 0 0,
    .append 1 [33], .produce 1 0, .produce 1 0, .produce 1 0, .produce 1 0,
    .exit 0, .produce 0 0,
    .log [] false false, .log [] false false, .log [] false false, .log [] false false,
    .log [] false false, .log [.wrote 1, .interrupted, .wrote 2] false false,
    .log [] false false,
    .append 2 [72], .produce 2 0, .produce 2 0, .produce 2 0, .produce 2 0, .stop,
    .log [] false false, .log [] false false, .log [.wrote 1] false false,
    .log [] false false, .log [] false false]

theorem delivered_logsReusedBuffer :
    ∃ state, (machine fun _ _ => 0).run logsReusedBuffer = some state ∧
      (state.producers 2).item = some (some 31) ∧
      state.logger = .terminated ∧ state.logFile.written = [104, 105, 33, 72] ∧
        state.Delivered := by
  have hreached : ∀ state,
      (machine fun _ _ => 0).run logsReusedBuffer = some state →
        (machine fun _ _ => 0).ReachedBy Assumed state := by
    intro state hrun
    exact Machine.ReachedBy.runFrom .start (by decide +kernel) hrun
  refine ⟨_, rfl, rfl, rfl, rfl, ?_⟩
  exact delivered_of_assumed (fun _ _ => 0) (hreached _ rfl)

end AsynLog
end BackEndFacility
