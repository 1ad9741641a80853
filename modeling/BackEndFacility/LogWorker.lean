import BackEndFacility.AtomicOps
import BackEndFacility.Machine
import BackEndFacility.Placement

/-!
# The log worker of `sys/src/Logger.cc`

Every message of the old logger travels in one buffer of the pool `buffer_`:
`Log` allocates it, `DoLog` puts it on the queue `pendingMsg_`, and `Flush`
takes it off, writes it to the stream it is meant for and gives it back.  The
pool and the queue are atomic here; the queue has `size_ + 1` nodes, one of
which is always the dummy, so it holds at most `size_` entries.

Each operation on the pool, the queue, the message counter or a stream is one
step.  Any thread may call `Log` or `Flush` at any time, which covers the
worker's own loop whatever `sig_` does, and a stream may go bad or good at any
time.  `Logger.h` defines `LOG_NO_PENDING`, so `DoLog` counts every attempt.
-/

namespace BackEndFacility
namespace LogWorker

/-! ## The worker and its callers -/

/-- A buffer and the stream its text is meant for. -/
structure LogEntity where
  buffer : ℕ
  fout : ℕ
  deriving DecidableEq, Repr

/-- The next operation of a thread inside `Log` or `Flush`. -/
inductive Pc where
  | idle
  | logAlloc (fout : ℕ)
  | logStamp (log : LogEntity)
  | logPush (log : LogEntity) (retry : ℕ)
  | flushPop
  | flushCheck (log : LogEntity)
  | flushWrite (log : LogEntity)
  | flushRelease (log : LogEntity)
  deriving DecidableEq, Repr

/-- `written` lists the entities put on their streams, `returned` the results
of `Log` with the thread that called it. -/
structure State where
  free : List ℕ
  pending : List LogEntity
  counter : ℕ
  good : ℕ → Bool
  written : List LogEntity
  returned : List (ℕ × ℕ)
  callers : ℕ → Pc

/-- The two overloads of `Log`, `Flush`, the next step of a thread, and a
stream that changes its state. -/
inductive Action where
  | logString (thread fout sz : ℕ)
  | logFormat (thread fout : ℕ)
  | flush (thread : ℕ)
  | advance (thread : ℕ)
  | turn (fout : ℕ) (good : Bool)
  deriving DecidableEq, Repr

def construct (size : ℕ) : State where
  free := List.range size
  pending := []
  counter := 0
  good := fun _ => true
  written := []
  returned := []
  callers := fun _ => .idle

def State.goto (state : State) (thread : ℕ) (pc : Pc) : State :=
  { state with callers := Function.update state.callers thread pc }

/-- `Log` returns. -/
def State.finishLog (state : State) (thread result : ℕ) : State :=
  { state with
    returned := state.returned ++ [(thread, result)] }.goto thread .idle

def maxRetry : ℕ := 32

/-- One round of the loop of `DoLog`. -/
def State.doLog (size granularity : ℕ) (state : State) (thread : ℕ)
    (log : LogEntity) (retry : ℕ) : State :=
  if state.pending.length < size then
    { state with pending := state.pending ++ [log] }.finishLog thread
      (if retry < maxRetry then granularity - 1 else 0)
  else if retry < maxRetry then
    state.goto thread (.logPush log (retry + 1))
  else
    state.finishLog thread 0

/-- The next step of a thread that is inside a call. -/
def State.advance (size granularity : ℕ) (state : State) (thread : ℕ) :
    Option State :=
  match state.callers thread with
  | .idle => none
  | .logAlloc fout =>
      match state.free with
      | [] => some (state.finishLog thread 0)
      | buffer :: rest =>
          some ({ state with free := rest }.goto thread
            (.logStamp ⟨buffer, fout⟩))
  | .logStamp log =>
      some ({ state with
        counter := atomicIncrement state.counter }.goto thread
          (.logPush log 0))
  | .logPush log retry =>
      some (state.doLog size granularity thread log retry)
  | .flushPop =>
      match state.pending with
      | [] => some (state.goto thread .idle)
      | log :: rest =>
          some ({ state with pending := rest }.goto thread (.flushCheck log))
  | .flushCheck log =>
      if state.good log.fout then
        some (state.goto thread (.flushWrite log))
      else
        some (state.goto thread .flushPop)
  | .flushWrite log =>
      some ({ state with written := state.written ++ [log] }.goto thread
        (.flushRelease log))
  | .flushRelease log =>
      some ({ state with free := log.buffer :: state.free }.goto thread
        .flushPop)

def State.step (size granularity : ℕ) (state : State) :
    Action → Option State
  | .logString thread fout sz =>
      if state.callers thread = .idle then
        if sz = 0 then some (state.finishLog thread 0)
        else some (state.goto thread (.logAlloc fout))
      else none
  | .logFormat thread fout =>
      if state.callers thread = .idle then
        some (state.goto thread (.logAlloc fout))
      else none
  | .flush thread =>
      if state.callers thread = .idle then
        some (state.goto thread .flushPop)
      else none
  | .advance thread => state.advance size granularity thread
  | .turn fout good =>
      some { state with good := Function.update state.good fout good }

def machine (size granularity : ℕ) : Machine State Action where
  start := construct size
  step := State.step size granularity

/-! ## Conservation -/

/-- Between calls every buffer is free or queued, and none is both. -/
structure State.Conserved (size : ℕ) (state : State) : Prop where
  buffers : (state.free ++ state.pending.map LogEntity.buffer).Perm
    (List.range size)
  count : state.free.length + state.pending.length = size

/-- `Flush` finds the stream of every entry it takes good. -/
def FindsGood (state : State) : Action → Prop
  | .advance thread =>
      ∀ log, state.callers thread = .flushCheck log →
        state.good log.fout = true
  | _ => True

instance decidableFindsGood (state : State) :
    ∀ action, Decidable (FindsGood state action)
  | .logString _ _ _ => isTrue trivial
  | .logFormat _ _ => isTrue trivial
  | .flush _ => isTrue trivial
  | .turn _ _ => isTrue trivial
  | .advance thread =>
      match hpc : state.callers thread with
      | .flushCheck log =>
          decidable_of_iff (state.good log.fout = true)
            (by simp [FindsGood, hpc])
      | .idle => isTrue (by simp [FindsGood, hpc])
      | .logAlloc _ => isTrue (by simp [FindsGood, hpc])
      | .logStamp _ => isTrue (by simp [FindsGood, hpc])
      | .logPush _ _ => isTrue (by simp [FindsGood, hpc])
      | .flushPop => isTrue (by simp [FindsGood, hpc])
      | .flushWrite _ => isTrue (by simp [FindsGood, hpc])
      | .flushRelease _ => isTrue (by simp [FindsGood, hpc])

/-- A message is logged, its stream goes bad, and a flush drops the entry
together with its buffer. -/
def badStream : List Action :=
  [.logFormat 0 7, .advance 0, .advance 0, .advance 0, .turn 7 false,
    .flush 1, .advance 1, .advance 1, .advance 1]

theorem not_conserved_badStream :
    ¬ ∀ size granularity state,
      (machine size granularity).Reachable state →
        (∀ thread, state.callers thread = .idle) →
          state.Conserved size := by
  intro hall
  have hlost : ∃ state, (machine 64 256).run badStream = some state ∧
      (∀ thread, state.callers thread = .idle) ∧
        state.free.length + state.pending.length = 63 := by
    refine ⟨_, rfl, ?_, rfl⟩
    intro thread
    match thread with
    | 0 => rfl
    | 1 => rfl
    | _ + 2 => rfl
  obtain ⟨state, hrun, hidle, hcount⟩ := hlost
  have hreached : (machine 64 256).Reachable state :=
    Machine.Reachable.runFrom .start hrun
  have hsize := (hall 64 256 state hreached hidle).count
  rw [hcount] at hsize
  cases hsize

/-! ## The invariant -/

/-- The buffer a call in progress has in its hands. -/
def Pc.holds : Pc → Option ℕ
  | .logStamp log => some log.buffer
  | .logPush log _ => some log.buffer
  | .flushCheck log => some log.buffer
  | .flushWrite log => some log.buffer
  | .flushRelease log => some log.buffer
  | _ => none

inductive Place where
  | free
  | queued
  | held (thread : ℕ)
  deriving DecidableEq, Repr

def Located (state : State) : Place → ℕ → Prop
  | .free, buffer => buffer ∈ state.free
  | .queued, buffer => buffer ∈ state.pending.map LogEntity.buffer
  | .held thread, buffer => (state.callers thread).holds = some buffer

structure State.Invariant (size : ℕ) (place : ℕ → Place) (state : State) :
    Prop where
  freeOnce : state.free.Nodup
  queuedOnce : (state.pending.map LogEntity.buffer).Nodup
  located : Placed (· < size) (Located state) place

theorem invariant_construct (size : ℕ) :
    (construct size).Invariant size fun _ => .free := by
  refine ⟨List.nodup_range, List.nodup_nil, ?_⟩
  intro buffer spot
  cases spot with
  | free => simp [Located, construct]
  | queued => simp [Located, construct]
  | held thread => simp [Located, construct, Pc.holds]

@[simp] theorem located_held_goto (state : State) (thread other buffer : ℕ)
    (pc : Pc) :
    Located (state.goto thread pc) (.held other) buffer ↔
      if other = thread then pc.holds = some buffer
      else (state.callers other).holds = some buffer := by
  by_cases heq : other = thread
  · subst heq
    simp [Located, State.goto]
  · simp [Located, State.goto, heq]

namespace State.Invariant

variable {size : ℕ} {place : ℕ → Place} {state : State}

/-- A step that takes no buffer and gives none away. -/
theorem stay (hinv : state.Invariant size place) {next : State}
    {thread : ℕ} {pc : Pc} (hfree : next.free = state.free)
    (hpending : next.pending = state.pending)
    (hcallers : next.callers = Function.update state.callers thread pc)
    (hholds : pc.holds = (state.callers thread).holds) :
    next.Invariant size place := by
  refine ⟨by rw [hfree]; exact hinv.freeOnce,
    by rw [hpending]; exact hinv.queuedOnce, ?_⟩
  apply hinv.located.congr
  intro buffer spot
  cases spot with
  | free => simp [Located, hfree]
  | queued => simp [Located, hpending]
  | held other =>
      simp only [Located, hcallers]
      by_cases heq : other = thread
      · subst heq
        rw [Function.update_self, hholds]
      · rw [Function.update_of_ne heq]

theorem take (hinv : state.Invariant size place) {thread buffer : ℕ}
    {rest : List ℕ} {pc : Pc} (hfree : state.free = buffer :: rest)
    (hbefore : (state.callers thread).holds = none)
    (hafter : pc.holds = some buffer) :
    ({ state with free := rest }.goto thread pc).Invariant size
      (Function.update place buffer (.held thread)) := by
  have honce := hinv.freeOnce
  rw [hfree, List.nodup_cons] at honce
  refine ⟨honce.2, hinv.queuedOnce, ?_⟩
  apply hinv.located.move .free
  · simp [Located, hfree]
  · intro spot
    cases spot with
    | free => simpa [Located, State.goto] using honce.1
    | queued => simp [Located, State.goto]
    | held other =>
        rw [located_held_goto]
        split <;> simp_all [Located]
  · intro item spot hne
    cases spot with
    | free => simp [Located, State.goto, hfree, hne]
    | queued => rfl
    | held other =>
        rw [located_held_goto]
        split <;> simp_all [Located, hne.symm]

theorem enqueue (hinv : state.Invariant size place) {thread : ℕ}
    {log : LogEntity} {next : State}
    (hfree : next.free = state.free)
    (hpending : next.pending = state.pending ++ [log])
    (hcallers : next.callers = Function.update state.callers thread .idle)
    (hbefore : (state.callers thread).holds = some log.buffer) :
    next.Invariant size (Function.update place log.buffer .queued) := by
  have hfresh : log.buffer ∉ state.pending.map LogEntity.buffer := by
    intro hmem
    cases hinv.located.unique
      (show Located state .queued log.buffer from hmem)
      (show Located state (.held thread) log.buffer from hbefore)
  refine ⟨by rw [hfree]; exact hinv.freeOnce, ?_, ?_⟩
  · rw [hpending, List.map_append]
    exact hinv.queuedOnce.append (List.nodup_singleton _) (by simpa using hfresh)
  · apply hinv.located.move (.held thread) hbefore
    · intro spot
      cases spot with
      | free => simp [Located, hfree]
      | queued => simp [Located, hpending]
      | held other =>
          simp only [Located, hcallers]
          by_cases heq : other = thread
          · simp [heq, Pc.holds]
          · simp [heq]
    · intro item spot hne
      cases spot with
      | free => simp [Located, hfree]
      | queued => simp [Located, hpending, hne]
      | held other =>
          simp only [Located, hcallers]
          by_cases heq : other = thread
          · subst heq
            rw [Function.update_self, hbefore]
            simp [Pc.holds, hne.symm]
          · simp [heq]

theorem dequeue (hinv : state.Invariant size place) {thread : ℕ}
    {log : LogEntity} {rest : List LogEntity} {pc : Pc}
    (hpending : state.pending = log :: rest)
    (hbefore : (state.callers thread).holds = none)
    (hafter : pc.holds = some log.buffer) :
    ({ state with pending := rest }.goto thread pc).Invariant size
      (Function.update place log.buffer (.held thread)) := by
  have honce := hinv.queuedOnce
  rw [hpending, List.map_cons, List.nodup_cons] at honce
  refine ⟨hinv.freeOnce, honce.2, ?_⟩
  apply hinv.located.move .queued
  · simp [Located, hpending]
  · intro spot
    cases spot with
    | free => simp [Located, State.goto]
    | queued => simpa [Located, State.goto] using honce.1
    | held other =>
        rw [located_held_goto]
        split <;> simp_all [Located]
  · intro item spot hne
    cases spot with
    | free => rfl
    | queued => simp [Located, State.goto, hpending, hne]
    | held other =>
        rw [located_held_goto]
        split <;> simp_all [Located, hne.symm]

theorem release (hinv : state.Invariant size place) {thread buffer : ℕ}
    {pc : Pc} (hbefore : (state.callers thread).holds = some buffer)
    (hafter : pc.holds = none) :
    ({ state with free := buffer :: state.free }.goto thread pc).Invariant
      size (Function.update place buffer .free) := by
  have hfresh : buffer ∉ state.free := by
    intro hmem
    cases hinv.located.unique (show Located state .free buffer from hmem)
      (show Located state (.held thread) buffer from hbefore)
  refine ⟨List.nodup_cons.mpr ⟨hfresh, hinv.freeOnce⟩, hinv.queuedOnce, ?_⟩
  apply hinv.located.move (.held thread) hbefore
  · intro spot
    cases spot with
    | free => simp [Located, State.goto]
    | queued => simp [Located, State.goto]
    | held other =>
        rw [located_held_goto]
        split <;> simp_all [Located]
  · intro item spot hne
    cases spot with
    | free => simp [Located, State.goto, hne]
    | queued => rfl
    | held other =>
        rw [located_held_goto]
        split <;> simp_all [Located, hne.symm]

/-- While a call holds a buffer the queue has room for it, so `DoLog`
succeeds at its first attempt. -/
theorem pending_lt (hinv : state.Invariant size place) {thread buffer : ℕ}
    (hholds : (state.callers thread).holds = some buffer) :
    state.pending.length < size := by
  have hfresh : buffer ∉ state.pending.map LogEntity.buffer := by
    intro hmem
    cases hinv.located.unique (show Located state .queued buffer from hmem)
      (show Located state (.held thread) buffer from hholds)
  have hsubset : buffer :: state.pending.map LogEntity.buffer ⊆
      List.range size := by
    intro item hitem
    rw [List.mem_range]
    rcases List.mem_cons.mp hitem with rfl | hmem
    · exact hinv.located.valid
        (show Located state (.held thread) item from hholds)
    · exact hinv.located.valid (show Located state .queued item from hmem)
  have hlength := (List.subperm_of_subset
    (List.nodup_cons.mpr ⟨hfresh, hinv.queuedOnce⟩) hsubset).length_le
  rw [List.length_cons, List.length_map, List.length_range] at hlength
  exact hlength

theorem conserved (hinv : state.Invariant size place)
    (hidle : ∀ thread, state.callers thread = .idle) :
    state.Conserved size := by
  have hbuffers : (state.free ++ state.pending.map LogEntity.buffer).Perm
      (List.range size) := by
    rw [List.perm_ext_iff_of_nodup _ List.nodup_range]
    · intro buffer
      rw [List.mem_append, List.mem_range]
      constructor
      · rintro (hfree | hqueued)
        · exact hinv.located.valid
            (show Located state .free buffer from hfree)
        · exact hinv.located.valid
            (show Located state .queued buffer from hqueued)
      · intro hlt
        obtain ⟨spot, hat, -⟩ := hinv.located.existsUnique hlt
        cases spot with
        | free => exact .inl hat
        | queued => exact .inr hat
        | held thread =>
            simp [Located, hidle thread, Pc.holds] at hat
    · apply hinv.freeOnce.append hinv.queuedOnce
      intro buffer hfree hqueued
      cases hinv.located.unique (show Located state .free buffer from hfree)
        (show Located state .queued buffer from hqueued)
  refine ⟨hbuffers, ?_⟩
  have hlength := hbuffers.length_eq
  rwa [List.length_append, List.length_map, List.length_range] at hlength

end State.Invariant

/-! ## Every step -/

def State.Kept (size : ℕ) (state : State) : Prop :=
  ∃ place, state.Invariant size place

theorem State.Kept.advance {size granularity : ℕ} {state next : State}
    {thread : ℕ} (hkept : state.Kept size)
    (hgood : FindsGood state (.advance thread))
    (hstep : state.advance size granularity thread = some next) :
    next.Kept size := by
  obtain ⟨place, hinv⟩ := hkept
  unfold State.advance at hstep
  cases hpc : state.callers thread with
  | idle => simp [hpc] at hstep
  | logAlloc fout =>
      simp only [hpc] at hstep
      split at hstep
      next =>
        cases hstep
        exact ⟨place, hinv.stay rfl rfl rfl (by rw [hpc]; rfl)⟩
      next buffer rest hfree =>
        cases hstep
        exact ⟨_, hinv.take hfree (by rw [hpc]; rfl) rfl⟩
  | logStamp log =>
      simp only [hpc, Option.some.injEq] at hstep
      subst next
      exact ⟨place, hinv.stay rfl rfl rfl (by rw [hpc]; rfl)⟩
  | logPush log retry =>
      have hholds : (state.callers thread).holds = some log.buffer := by
        rw [hpc]
        rfl
      simp only [hpc, State.doLog, if_pos (hinv.pending_lt hholds),
        Option.some.injEq] at hstep
      subst next
      exact ⟨_, hinv.enqueue rfl rfl rfl hholds⟩
  | flushPop =>
      simp only [hpc] at hstep
      split at hstep
      next =>
        cases hstep
        exact ⟨place, hinv.stay rfl rfl rfl (by rw [hpc]; rfl)⟩
      next log rest hpending =>
        cases hstep
        exact ⟨_, hinv.dequeue hpending (by rw [hpc]; rfl) rfl⟩
  | flushCheck log =>
      simp only [hpc, hgood log hpc, if_true, Option.some.injEq] at hstep
      subst next
      exact ⟨place, hinv.stay rfl rfl rfl (by rw [hpc]; rfl)⟩
  | flushWrite log =>
      simp only [hpc, Option.some.injEq] at hstep
      subst next
      exact ⟨place, hinv.stay rfl rfl rfl (by rw [hpc]; rfl)⟩
  | flushRelease log =>
      simp only [hpc, Option.some.injEq] at hstep
      subst next
      exact ⟨_, hinv.release (by rw [hpc]; rfl) rfl⟩

theorem State.Kept.step {size granularity : ℕ} {state next : State}
    {action : Action} (hkept : state.Kept size)
    (hgood : FindsGood state action)
    (hstep : state.step size granularity action = some next) :
    next.Kept size := by
  cases action with
  | advance thread => exact hkept.advance hgood hstep
  | logString thread fout sz =>
      obtain ⟨place, hinv⟩ := hkept
      simp only [State.step] at hstep
      split at hstep
      next hidle =>
        split at hstep
        all_goals
          cases hstep
          exact ⟨place, hinv.stay rfl rfl rfl (by simp [hidle, Pc.holds])⟩
      next => cases hstep
  | logFormat thread fout =>
      obtain ⟨place, hinv⟩ := hkept
      simp only [State.step] at hstep
      split at hstep
      next hidle =>
        cases hstep
        exact ⟨place, hinv.stay rfl rfl rfl (by rw [hidle]; rfl)⟩
      next => cases hstep
  | flush thread =>
      obtain ⟨place, hinv⟩ := hkept
      simp only [State.step] at hstep
      split at hstep
      next hidle =>
        cases hstep
        exact ⟨place, hinv.stay rfl rfl rfl (by rw [hidle]; rfl)⟩
      next => cases hstep
  | turn fout good =>
      obtain ⟨place, hinv⟩ := hkept
      simp only [State.step, Option.some.injEq] at hstep
      subst next
      exact ⟨place, hinv.freeOnce, hinv.queuedOnce, hinv.located⟩

/-! ## Every run in which no entry meets a bad stream -/

theorem conserved_of_findsGood {size granularity : ℕ} {state : State}
    (hreached : (machine size granularity).ReachedBy FindsGood state)
    (hidle : ∀ thread, state.callers thread = .idle) :
    state.Conserved size := by
  have hkept : state.Kept size :=
    Machine.ReachedBy.invariant (State.Kept size)
      ⟨_, invariant_construct size⟩
      (fun _ _ _ hkept hgood hstep => hkept.step hgood hstep) hreached
  obtain ⟨place, hinv⟩ := hkept
  exact hinv.conserved hidle

/-- A message is logged and flushed to a good stream. -/
def goodStream : List Action :=
  [.logFormat 0 7, .advance 0, .advance 0, .advance 0, .flush 1, .advance 1,
    .advance 1, .advance 1, .advance 1, .advance 1]

theorem conserved_goodStream :
    ∃ state, (machine 2 256).run goodStream = some state ∧
      state.written = [⟨0, 7⟩] ∧ state.Conserved 2 := by
  have hreached : ∀ state, (machine 2 256).run goodStream = some state →
      (machine 2 256).ReachedBy FindsGood state := by
    intro state hrun
    exact Machine.ReachedBy.runFrom .start (by decide) hrun
  refine ⟨_, rfl, rfl, conserved_of_findsGood (hreached _ rfl) ?_⟩
  intro thread
  match thread with
  | 0 => rfl
  | 1 => rfl
  | _ + 2 => rfl

end LogWorker
end BackEndFacility
