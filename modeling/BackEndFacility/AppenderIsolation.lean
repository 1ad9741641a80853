import BackEndFacility.LogAppenders

/-!
# Appenders that do not disturb each other

Every buffer is in one place, and the slices of a retired buffer are all in the
queue that retires it.  So a buffer is not taken again before every appender has
written what is in it, and each appender writes what it was given.  The counter of
a pool follows the buffers that are outstanding, as long as a buffer returns to
the pool it was taken from.
-/

namespace BackEndFacility
namespace LogAppenders

open AsynLog

/-! ## One appender at a time -/

/-- The logging thread has handed over a prefix of the messages, in order. -/
structure Ordered (state : AsynLog.State) : Prop where
  delivered : state.logFile.contents ++
    state.remaining.flatMap (BufferSlice.read state.pool.content) =
      state.returned.flatMap Prod.snd
  cleared : state.logger.Resting → state.pb2 = []
  flushed : (∀ i, state.logger ≠ .writing i) → state.logFile.fileBuff = []
  final : state.logger = .terminated → state.running = false ∧ state.pb1 = []

/-- What a step of the logging thread does to the pool and to the slices that
remain: some buffers may be freed, or the first slice is dealt with. -/
inductive Effect (state next : AsynLog.State) : Prop
  | rest (kept : List ℕ) (hkept : kept.Sublist state.pool.pool)
      (hpool : next.pool = { state.pool with pool := kept })
      (hremaining : next.remaining = state.remaining) (hdue : due state = none)
  | recycle (slice : LogMsg) (hzero : slice.len = 0)
      (hpool : next.pool = state.pool.recycle slice.buffer)
      (hremaining : state.remaining = slice :: next.remaining)
      (hdue : due state = some slice.buffer)
  | append (slice : LogMsg) (hpool : next.pool = state.pool)
      (hremaining : state.remaining = slice :: next.remaining) (hdue : due state = none)

namespace Ordered

variable {state next : AsynLog.State}

theorem due_of_not_writing (hidle : ∀ i, state.logger ≠ .writing i) : due state = none := by
  unfold due
  cases hlogger : state.logger with
  | writing i => exact absurd hlogger (hidle i)
  | _ => rfl

/-- The logging thread moves on between two batches. -/
theorem still (hordered : Ordered state) (hidle : ∀ i, state.logger ≠ .writing i)
    {kept : List ℕ} (hkept : kept.Sublist state.pool.pool)
    (hpool : next.pool = { state.pool with pool := kept })
    (hlogFile : next.logFile = state.logFile) (hreturned : next.returned = state.returned)
    (hremaining : next.remaining = state.pb1)
    (hcleared : next.logger.Resting → next.pb2 = [])
    (hfinal : next.logger = .terminated → next.running = false ∧ next.pb1 = []) :
    Ordered next ∧ Effect state next := by
  have hsame := State.remaining_of_not_writing hidle
  have hcontent : next.pool.content = state.pool.content := by
    rw [hpool]
    rfl
  refine ⟨⟨?_, hcleared, ?_, hfinal⟩,
    .rest kept hkept hpool (hremaining.trans hsame.symm) (due_of_not_writing hidle)⟩
  · rw [hlogFile, hreturned, hremaining, hcontent, ← hsame]
    exact hordered.delivered
  · intro _
    rw [hlogFile]
    exact hordered.flushed hidle

/-- The state after `Shrink` has left these buffers. -/
def trim (state : AsynLog.State) (kept : List ℕ) : AsynLog.State :=
  { state with pool := { state.pool with pool := kept } }

theorem swapOrLeave (hordered : Ordered state) (hresting : state.logger.Resting)
    (hidle : ∀ i, state.logger ≠ .writing i) {kept : List ℕ}
    (hkept : kept.Sublist state.pool.pool) :
    Ordered (trim state kept).swapOrLeave ∧ Effect state (trim state kept).swapOrLeave := by
  have hempty := hordered.cleared hresting
  unfold State.swapOrLeave
  split
  next hover =>
      simp only [Bool.and_eq_true, Bool.not_eq_true', List.isEmpty_iff] at hover
      exact hordered.still hidle hkept rfl rfl rfl rfl (fun _ => hempty) (fun _ => hover)
  next =>
      refine hordered.still hidle hkept rfl rfl rfl ?_ (fun hfalse => hfalse.elim) nofun
      simp [State.remaining, trim, hempty]

theorem wait (hordered : Ordered state) (hresting : state.logger.Resting)
    (hidle : ∀ i, state.logger ≠ .writing i) {kept : List ℕ}
    (hkept : kept.Sublist state.pool.pool) (idle : ℕ) :
    Ordered { trim state kept with logger := .waiting idle } ∧
      Effect state { trim state kept with logger := .waiting idle } :=
  hordered.still hidle hkept rfl rfl rfl rfl (fun _ => hordered.cleared hresting) nofun

theorem shrinkMemoryUsage_eq (hempty : state.pb1 = []) (hcleared : state.pb2 = [])
    (idle : ℕ) (grown1 grown2 : Bool) :
    ∃ kept, kept.Sublist state.pool.pool ∧
      (if idle + 1 = 8 then state.shrinkMemoryUsage grown1 grown2 else state) =
        trim state kept := by
  split
  · have hshrink : ∃ kept, kept.Sublist state.pool.pool ∧
        state.pool.shrink = { state.pool with pool := kept } := by
      unfold FixedBufferPool.shrink
      split
      · exact ⟨_, List.take_sublist _ _, rfl⟩
      · exact ⟨_, List.Sublist.refl _, rfl⟩
    obtain ⟨kept, hkept, heq⟩ := hshrink
    refine ⟨kept, hkept, ?_⟩
    unfold State.shrinkMemoryUsage trim
    rw [heq, hempty, hcleared]
    simp
  · exact ⟨state.pool.pool, List.Sublist.refl _, rfl⟩

theorem log (hordered : Ordered state) {script : List WriteResult} {grown1 grown2 : Bool}
    (hreliable : LogFile.Reliable script)
    (hstep : state.log script grown1 grown2 = some next) :
    Ordered next ∧ Effect state next := by
  unfold State.log at hstep
  cases hlogger : state.logger with
  | top =>
      have hresting : state.logger.Resting := by rw [hlogger]; trivial
      have hidle : ∀ i, state.logger ≠ .writing i := by simp [hlogger]
      simp only [hlogger] at hstep
      split at hstep
      · cases hstep
        exact hordered.wait hresting hidle (List.Sublist.refl _) 0
      · cases hstep
        exact hordered.swapOrLeave hresting hidle (List.Sublist.refl _)
  | waiting idle =>
      have hresting : state.logger.Resting := by rw [hlogger]; trivial
      have hidle : ∀ i, state.logger ≠ .writing i := by simp [hlogger]
      simp only [hlogger] at hstep
      split at hstep
      next hempty =>
          obtain ⟨kept, hkept, heq⟩ := shrinkMemoryUsage_eq (List.isEmpty_iff.mp hempty)
            (hordered.cleared hresting) idle grown1 grown2
          rw [heq] at hstep
          split at hstep
          · cases hstep
            exact hordered.wait hresting hidle hkept (idle + 1)
          · cases hstep
            exact hordered.swapOrLeave hresting hidle hkept
      next =>
          cases hstep
          exact hordered.swapOrLeave hresting hidle (List.Sublist.refl _)
  | writing i =>
      simp only [hlogger] at hstep
      split at hstep
      next hend =>
          have hdue : due state = none := by simp [due, hlogger, hend]
          have hremaining : state.remaining = state.pb1 := by
            unfold State.remaining
            simp only [hlogger]
            rw [List.drop_eq_nil_of_le (List.getElem?_eq_none_iff.mp hend), List.nil_append]
          split at hstep
          · cases hstep
          next logFile rest hflush =>
              cases hstep
              obtain ⟨hcontents, hbuff⟩ := LogFile.flush_contents hreliable hflush
              refine ⟨⟨?_, fun hfalse => hfalse.elim, fun _ => hbuff, nofun⟩,
                .rest state.pool.pool (List.Sublist.refl _) rfl hremaining.symm hdue⟩
              have hdelivered := hordered.delivered
              rw [hremaining] at hdelivered
              simp only
              rw [hcontents]
              exact hdelivered
      next msg hmsg =>
          have hremaining := State.remaining_writing hlogger hmsg
          have hdelivered := hordered.delivered
          rw [hremaining] at hdelivered
          split at hstep
          next hzero =>
              cases hstep
              have hdue : due state = some msg.buffer := by simp [due, hlogger, hmsg, hzero]
              refine ⟨⟨?_, fun hfalse => hfalse.elim, fun hwriting => absurd rfl (hwriting (i + 1)),
                nofun⟩, .recycle msg hzero rfl hremaining hdue⟩
              rw [List.flatMap_cons, BufferSlice.read_of_len_eq_zero _ hzero,
                List.nil_append] at hdelivered
              simp only
              rw [FixedBufferPool.recycle_content]
              exact hdelivered
          next hlen =>
              have hdue : due state = none := by simp [due, hlogger, hmsg, hlen]
              split at hstep
              · cases hstep
                rw [← hlogger]
                exact ⟨⟨hordered.delivered, hordered.cleared, hordered.flushed,
                  hordered.final⟩, .rest state.pool.pool (List.Sublist.refl _) rfl rfl hdue⟩
              · split at hstep
                · cases hstep
                next logFile rest happend =>
                    cases hstep
                    have hcontents := LogFile.append_contents hreliable happend
                    refine ⟨⟨?_, fun hfalse => hfalse.elim,
                      fun hwriting => absurd rfl (hwriting (i + 1)), nofun⟩,
                      .append msg rfl hremaining hdue⟩
                    simp only
                    rw [hcontents, List.append_assoc, ← hdelivered, List.flatMap_cons]
                    rfl
  | clearing =>
      have hidle : ∀ i, state.logger ≠ .writing i := by simp [hlogger]
      simp only [hlogger, Option.some.injEq] at hstep
      subst hstep
      exact hordered.still hidle (List.Sublist.refl _) rfl rfl rfl rfl (fun _ => rfl) nofun
  | terminated => simp [hlogger] at hstep

end Ordered

theorem log_frame {state next : AsynLog.State} {script : List WriteResult}
    {grown1 grown2 : Bool} (hstep : state.log script grown1 grown2 = some next) :
    next.producers = state.producers ∧ next.corrupted = state.corrupted := by
  have hshrink : ∀ shrunk : AsynLog.State, shrunk.swapOrLeave.producers = shrunk.producers ∧
      shrunk.swapOrLeave.corrupted = shrunk.corrupted := by
    intro shrunk
    unfold State.swapOrLeave
    split
    · exact ⟨rfl, rfl⟩
    · exact ⟨rfl, rfl⟩
  unfold State.log at hstep
  cases hlogger : state.logger with
  | top =>
      simp only [hlogger] at hstep
      split at hstep
      · cases hstep
        exact ⟨rfl, rfl⟩
      · cases hstep
        exact hshrink state
  | waiting idle =>
      simp only [hlogger] at hstep
      split at hstep
      · have hsame : ∀ shrunk, shrunk = (if idle + 1 = 8 then
            state.shrinkMemoryUsage grown1 grown2 else state) →
            shrunk.producers = state.producers ∧ shrunk.corrupted = state.corrupted := by
          intro shrunk heq
          rw [heq]
          split
          · exact ⟨rfl, rfl⟩
          · exact ⟨rfl, rfl⟩
        generalize hshrunk : (if idle + 1 = 8 then
          state.shrinkMemoryUsage grown1 grown2 else state) = shrunk at hstep
        have hkeeps := hsame shrunk hshrunk.symm
        split at hstep
        · cases hstep
          exact hkeeps
        · cases hstep
          exact ⟨(hshrink shrunk).1.trans hkeeps.1, (hshrink shrunk).2.trans hkeeps.2⟩
      · cases hstep
        exact hshrink state
  | writing i =>
      simp only [hlogger] at hstep
      split at hstep
      · split at hstep
        · cases hstep
        · cases hstep
          exact ⟨rfl, rfl⟩
      · split at hstep
        · cases hstep
          exact ⟨rfl, rfl⟩
        · split at hstep
          · cases hstep
            exact ⟨rfl, rfl⟩
          · split at hstep
            · cases hstep
            · cases hstep
              exact ⟨rfl, rfl⟩
  | clearing =>
      simp only [hlogger, Option.some.injEq] at hstep
      subst hstep
      exact ⟨rfl, rfl⟩
  | terminated => simp [hlogger] at hstep

/-! ## The counters -/

/-- `EnlargePoolUnsafe` refuses beyond `1024 * m_fix_sz` unrecycled buffers. -/
def maxBuffers : ℕ := 1024 * FixedBufferPool.fixSize + FixedBufferPool.incGran

/-- Every counter is the number of outstanding buffers, which are in no pool and
belong to one appender each. -/
structure Accounts (next : ℕ) (pools : ℕ → List ℕ) (unrecycled : ℕ → ℕ)
    (outstanding : ℕ → Finset ℕ) : Prop where
  counted : ∀ app, unrecycled app = (outstanding app).card
  outside : ∀ app pool, ∀ buffer ∈ pools pool, buffer ∉ outstanding app
  once : ∀ first second, ∀ buffer ∈ outstanding first, buffer ∈ outstanding second →
    first = second
  born : ∀ app, ∀ buffer ∈ outstanding app, buffer < next
  bounded : ∀ app, unrecycled app + (pools app).length ≤ maxBuffers

namespace Accounts

variable {next : ℕ} {pools : ℕ → List ℕ} {unrecycled : ℕ → ℕ}
  {outstanding : ℕ → Finset ℕ} {app : ℕ}

theorem same (haccounts : Accounts next pools unrecycled outstanding) (app : ℕ) :
    Accounts next pools (Function.update unrecycled app (unrecycled app % 2 ^ 64))
      (Function.update outstanding app (outstanding app)) := by
  have hwrap : unrecycled app % 2 ^ 64 = unrecycled app := by
    have hbounded := haccounts.bounded app
    unfold maxBuffers FixedBufferPool.fixSize FixedBufferPool.incGran at hbounded
    apply Nat.mod_eq_of_lt
    omega
  rw [hwrap, Function.update_eq_self, Function.update_eq_self]
  exact haccounts

theorem shrink (haccounts : Accounts next pools unrecycled outstanding) {kept : List ℕ}
    (hkept : kept.Sublist (pools app)) :
    Accounts next (Function.update pools app kept) unrecycled outstanding := by
  refine { haccounts with outside := ?_, bounded := ?_ }
  · intro other pool buffer hbuffer
    by_cases heq : pool = app
    · rw [heq, Function.update_self] at hbuffer
      exact haccounts.outside other app buffer (hkept.subset hbuffer)
    · rw [Function.update_of_ne heq] at hbuffer
      exact haccounts.outside other pool buffer hbuffer
  · intro other
    have hbounded := haccounts.bounded other
    by_cases heq : other = app
    · rw [heq] at hbounded ⊢
      rw [Function.update_self]
      have hlength := hkept.length_le
      omega
    · rw [Function.update_of_ne heq]
      exact hbounded

theorem grow (haccounts : Accounts next pools unrecycled outstanding) {count : ℕ}
    (hcount : unrecycled app + count ≤ maxBuffers) :
    Accounts (next + count) (Function.update pools app (List.range' next count)) unrecycled
      outstanding := by
  refine { haccounts with outside := ?_, born := ?_, bounded := ?_ }
  · intro other pool buffer hbuffer hout
    by_cases heq : pool = app
    · rw [heq, Function.update_self, List.mem_range'_1] at hbuffer
      have hborn := haccounts.born other buffer hout
      omega
    · rw [Function.update_of_ne heq] at hbuffer
      exact haccounts.outside other pool buffer hbuffer hout
  · intro other buffer hbuffer
    have hborn := haccounts.born other buffer hbuffer
    omega
  · intro other
    by_cases heq : other = app
    · rw [heq, Function.update_self, List.length_range']
      exact hcount
    · rw [Function.update_of_ne heq]
      exact haccounts.bounded other

theorem take (haccounts : Accounts next pools unrecycled outstanding) {rest : List ℕ}
    {buffer : ℕ} (hpool : pools app = rest ++ [buffer])
    (hnodup : (pools app).Nodup) (hapart : ∀ pool, pool ≠ app → buffer ∉ pools pool)
    (hborn : buffer < next) :
    Accounts next (Function.update pools app rest)
      (Function.update unrecycled app ((unrecycled app + 1) % 2 ^ 64))
      (Function.update outstanding app (insert buffer (outstanding app))) := by
  have hmem : buffer ∈ pools app := by
    rw [hpool]
    simp
  have hfresh : ∀ other, buffer ∉ outstanding other := fun other =>
    haccounts.outside other app buffer hmem
  have hroom := haccounts.bounded app
  rw [hpool, List.length_append, List.length_singleton] at hroom
  have hwrap : (unrecycled app + 1) % 2 ^ 64 = unrecycled app + 1 := by
    apply Nat.mod_eq_of_lt
    unfold maxBuffers FixedBufferPool.fixSize FixedBufferPool.incGran at hroom
    omega
  have hcases : ∀ other found,
      found ∈ Function.update outstanding app (insert buffer (outstanding app)) other →
        found ∈ outstanding other ∨ (other = app ∧ found = buffer) := by
    intro other found hfound
    by_cases heq : other = app
    · rw [heq, Function.update_self, Finset.mem_insert] at hfound
      rcases hfound with hnew | hold
      · exact .inr ⟨heq, hnew⟩
      · exact .inl (heq ▸ hold)
    · rw [Function.update_of_ne heq] at hfound
      exact .inl hfound
  refine ⟨fun other => ?_, fun other pool found hfound hout => ?_,
    fun first second found hfirst hsecond => ?_, fun other found hfound => ?_, fun other => ?_⟩
  · by_cases heq : other = app
    · rw [heq, Function.update_self, Function.update_self, hwrap,
        Finset.card_insert_of_notMem (hfresh app), haccounts.counted app]
    · rw [Function.update_of_ne heq, Function.update_of_ne heq]
      exact haccounts.counted other
  · have hold : found ∈ pools pool ∧ found ≠ buffer := by
      by_cases heq : pool = app
      · rw [heq, Function.update_self] at hfound
        rw [hpool, List.nodup_append] at hnodup
        refine ⟨?_, fun hsame => hnodup.2.2 found hfound buffer (by simp) hsame⟩
        rw [heq, hpool]
        exact List.mem_append_left _ hfound
      · rw [Function.update_of_ne heq] at hfound
        refine ⟨hfound, fun hsame => ?_⟩
        rw [hsame] at hfound
        exact hapart pool heq hfound
    rcases hcases other found hout with hout | ⟨-, hsame⟩
    · exact haccounts.outside other pool found hold.1 hout
    · exact hold.2 hsame
  · rcases hcases first found hfirst with hold | ⟨hfirst, hsame⟩
    · rcases hcases second found hsecond with hold' | ⟨-, hsame⟩
      · exact haccounts.once first second found hold hold'
      · rw [hsame] at hold
        exact absurd hold (hfresh first)
    · rcases hcases second found hsecond with hold | ⟨hsecond, -⟩
      · rw [hsame] at hold
        exact absurd hold (hfresh second)
      · rw [hfirst, hsecond]
  · rcases hcases other found hfound with hold | ⟨-, hsame⟩
    · exact haccounts.born other found hold
    · rw [hsame]
      exact hborn
  · by_cases heq : other = app
    · rw [heq, Function.update_self, Function.update_self, hwrap]
      omega
    · rw [Function.update_of_ne heq, Function.update_of_ne heq]
      exact haccounts.bounded other

theorem recycle (haccounts : Accounts next pools unrecycled outstanding) {buffer : ℕ}
    (hout : buffer ∈ outstanding app) :
    Accounts next (Function.update pools app (pools app ++ [buffer]))
      (Function.update unrecycled app ((unrecycled app + (2 ^ 64 - 1)) % 2 ^ 64 % 2 ^ 64))
      (Function.update outstanding app ((outstanding app).erase buffer)) := by
  have hroom := haccounts.bounded app
  have hpos : 0 < unrecycled app := by
    rw [haccounts.counted app]
    exact Finset.card_pos.mpr ⟨buffer, hout⟩
  have hwrap : (unrecycled app + (2 ^ 64 - 1)) % 2 ^ 64 % 2 ^ 64 = unrecycled app - 1 := by
    unfold maxBuffers FixedBufferPool.fixSize FixedBufferPool.incGran at hroom
    omega
  have hcases : ∀ other found,
      found ∈ Function.update outstanding app ((outstanding app).erase buffer) other →
        found ∈ outstanding other ∧ found ≠ buffer := by
    intro other found hfound
    by_cases heq : other = app
    · rw [heq, Function.update_self, Finset.mem_erase] at hfound
      rw [heq]
      exact hfound.symm
    · rw [Function.update_of_ne heq] at hfound
      refine ⟨hfound, fun hsame => heq ?_⟩
      rw [hsame] at hfound
      exact haccounts.once other app buffer hfound hout
  refine ⟨fun other => ?_, fun other pool found hfound hstill => ?_,
    fun first second found hfirst hsecond => ?_, fun other found hfound => ?_, fun other => ?_⟩
  · by_cases heq : other = app
    · rw [heq, Function.update_self, Function.update_self, hwrap, Finset.card_erase_of_mem hout,
        haccounts.counted app]
    · rw [Function.update_of_ne heq, Function.update_of_ne heq]
      exact haccounts.counted other
  · obtain ⟨hold, hne⟩ := hcases other found hstill
    by_cases heq : pool = app
    · rw [heq, Function.update_self, List.mem_append, List.mem_singleton] at hfound
      rcases hfound with hfound | hfound
      · exact haccounts.outside other app found hfound hold
      · exact hne hfound
    · rw [Function.update_of_ne heq] at hfound
      exact haccounts.outside other pool found hfound hold
  · exact haccounts.once first second found (hcases first found hfirst).1
      (hcases second found hsecond).1
  · exact haccounts.born other found (hcases other found hfound).1
  · by_cases heq : other = app
    · rw [heq, Function.update_self, Function.update_self, hwrap, List.length_append,
        List.length_singleton]
      omega
    · rw [Function.update_of_ne heq, Function.update_of_ne heq]
      exact haccounts.bounded other

end Accounts

/-! ## The invariant -/

/-- The appender of the call in progress exists, and so does the one that made
the item. -/
def Producer.Aimed (created : ℕ → Prop) (producer : Producer) : Prop :=
  (producer.pc ≠ .idle → producer.pc ≠ .exited → created producer.target) ∧
    ∀ item, producer.item = some item → created item.app

namespace State

def pools (state : State) (app : ℕ) : List ℕ :=
  (state.appenders app).pool

def unrecycled (state : State) (app : ℕ) : ℕ :=
  (state.appenders app).unrecycled

def out (state : State) (app : ℕ) : Finset ℕ :=
  (state.appenders app).outstanding

def owned (state : State) (thread : ℕ) : Option ℕ :=
  (state.producers thread).view.owned

def queue (state : State) (app : ℕ) : List LogMsg :=
  (state.view app).remaining

def used (state : State) (buffer : ℕ) : ℕ :=
  (state.memory buffer).cur

def Exists (state : State) (app : ℕ) : Prop :=
  (state.appenders app).created = true

structure Kept (state : State) : Prop where
  ledger : ∃ place, SharedLedger place state.used state.next state.pools state.owned state.queue
  accounts : Accounts state.next state.pools state.unrecycled state.out
  ordered : ∀ app, Ordered (state.view app)
  sound : ∀ thread, (state.producers thread).view.Sound (state.pool 0)
  home : ∀ app, ∀ slice ∈ state.queue app, slice.len = 0 → slice.buffer ∈ state.out app
  absent : ∀ app, ¬ state.Exists app → state.appenders app = .absent
  aimed : ∀ thread, (state.producers thread).Aimed state.Exists
  intact : state.corrupted = false

theorem Kept.undisturbed {state : State} (hkept : state.Kept) (app : ℕ) :
    state.Undisturbed app := by
  have hordered := hkept.ordered app
  refine ⟨⟨_, hordered.delivered⟩, fun hterminated => ?_, hkept.accounts.counted app⟩
  have hnothing : (state.view app).remaining = [] := by
    unfold AsynLog.State.remaining
    rw [show (state.view app).logger = .terminated from hterminated]
    exact (hordered.final hterminated).2
  have hbuff : (state.appenders app).logFile.fileBuff = [] :=
    hordered.flushed fun i hwriting => by
      rw [show (state.view app).logger = .terminated from hterminated] at hwriting
      cases hwriting
  have hall := hordered.delivered
  rw [hnothing] at hall
  simpa [LogFile.contents, view, hbuff] using hall

section Absorb

variable {state : State} {app : ℕ} {outstanding : Finset ℕ} {seen : AsynLog.State}

theorem absorb_pools :
    (state.absorb app outstanding seen).pools =
      Function.update state.pools app seen.pool.pool :=
  Function.comp_update Appender.pool state.appenders app _

theorem absorb_unrecycled :
    (state.absorb app outstanding seen).unrecycled =
      Function.update state.unrecycled app (seen.pool.unrecycled % 2 ^ 64) :=
  Function.comp_update Appender.unrecycled state.appenders app _

theorem absorb_out :
    (state.absorb app outstanding seen).out =
      Function.update state.out app outstanding :=
  Function.comp_update Appender.outstanding state.appenders app _

theorem absorb_view_producers :
    (fun thread => ((state.absorb app outstanding seen).producers thread).view) =
      seen.producers := by
  funext thread
  have hitem : (PerThreadItem.absorb app (state.producers thread).item
      (seen.producers thread).item).map PerThreadItem.buff = (seen.producers thread).item := by
    unfold PerThreadItem.absorb
    cases (seen.producers thread).item <;> rfl
  unfold absorb Producer.view
  simp only [hitem]

theorem absorb_owned :
    (state.absorb app outstanding seen).owned = fun thread => (seen.producers thread).owned := by
  funext thread
  exact congrArg AsynLog.Producer.owned (congrFun absorb_view_producers thread)

theorem absorb_queue :
    (state.absorb app outstanding seen).queue =
      Function.update state.queue app seen.remaining := by
  funext other
  by_cases heq : other = app
  · subst heq
    rw [Function.update_self]
    unfold queue view absorb AsynLog.State.remaining
    simp only [Function.update_self]
  · rw [Function.update_of_ne heq]
    unfold queue view absorb AsynLog.State.remaining
    simp only [Function.update_of_ne heq]

theorem absorb_exists : (state.absorb app outstanding seen).Exists = state.Exists := by
  funext other
  unfold Exists absorb
  by_cases heq : other = app
  · simp [heq]
  · simp [heq]

/-- One appender makes a step.  The others see its threads and its buffers, but
nothing of what they still have to write has changed. -/
theorem Kept.absorbed (hkept : state.Kept)
    (hledger : ∃ place, SharedLedger place seen.pool.used seen.pool.next
      (Function.update state.pools app seen.pool.pool)
      (fun thread => (seen.producers thread).owned)
      (Function.update state.queue app seen.remaining))
    (haccounts : Accounts seen.pool.next (Function.update state.pools app seen.pool.pool)
      (Function.update state.unrecycled app (seen.pool.unrecycled % 2 ^ 64))
      (Function.update state.out app outstanding))
    (hordered : Ordered seen)
    (hread : ∀ other, ∀ slice ∈ state.queue other,
      slice.read seen.pool.content = slice.read (state.pool 0).content)
    (hsound : ∀ thread, (seen.producers thread).Sound seen.pool)
    (hhome : ∀ slice ∈ seen.remaining, slice.len = 0 → slice.buffer ∈ outstanding)
    (hcreated : state.Exists app)
    (haimed : ∀ thread, (seen.producers thread).pc = (state.producers thread).pc ∨
      (state.producers thread).target = app)
    (hintact : seen.corrupted = false) :
    (state.absorb app outstanding seen).Kept := by
  have hproducers : (fun thread => ((state.absorb app outstanding seen).producers thread).view) =
      seen.producers := absorb_view_producers
  refine ⟨?_, ?_, fun other => ?_, fun thread => ?_, fun other => ?_, fun other => ?_,
    fun thread => ?_, hintact⟩
  · rw [absorb_pools, absorb_owned, absorb_queue]
    exact hledger
  · rw [absorb_pools, absorb_unrecycled, absorb_out]
    exact haccounts
  · by_cases heq : other = app
    · subst heq
      refine ⟨?_, ?_, ?_, ?_⟩
      · have hdelivered := hordered.delivered
        unfold view absorb AsynLog.State.remaining
        simp only [Function.update_self]
        exact hdelivered
      · unfold view absorb
        simp only [Function.update_self]
        exact hordered.cleared
      · unfold view absorb
        simp only [Function.update_self]
        exact hordered.flushed
      · unfold view absorb
        simp only [Function.update_self]
        exact hordered.final
    · have hold := hkept.ordered other
      have hsame : (state.queue other).flatMap (BufferSlice.read seen.pool.content) =
          (state.queue other).flatMap (BufferSlice.read (state.pool 0).content) :=
        List.flatMap_congr (hread other)
      have hqueue : ((state.absorb app outstanding seen).view other).remaining =
          state.queue other := by
        have hall : (state.absorb app outstanding seen).queue other = state.queue other := by
          rw [absorb_queue, Function.update_of_ne heq]
        exact hall
      refine ⟨?_, ?_, ?_, ?_⟩
      · rw [hqueue]
        have hdelivered := hold.delivered
        unfold view absorb
        simp only [Function.update_of_ne heq]
        exact (congrArg _ hsame).trans hdelivered
      · unfold view absorb
        simp only [Function.update_of_ne heq]
        exact hold.cleared
      · unfold view absorb
        simp only [Function.update_of_ne heq]
        exact hold.flushed
      · unfold view absorb
        simp only [Function.update_of_ne heq]
        exact hold.final
  · rw [congrFun hproducers thread]
    exact hsound thread
  · rw [absorb_queue, absorb_out]
    by_cases heq : other = app
    · rw [heq, Function.update_self, Function.update_self]
      exact hhome
    · rw [Function.update_of_ne heq, Function.update_of_ne heq]
      exact hkept.home other
  · rw [absorb_exists]
    by_cases heq : other = app
    · rw [heq]
      exact fun hnot => absurd hcreated hnot
    · unfold absorb
      simp only [Function.update_of_ne heq]
      exact hkept.absent other
  · rw [absorb_exists]
    obtain ⟨htarget, hitem⟩ := hkept.aimed thread
    refine ⟨fun hidle hexited => ?_, fun item hmade => ?_⟩
    · rcases haimed thread with hsame | haimed
      · have hpc : ((state.absorb app outstanding seen).producers thread).pc =
            (state.producers thread).pc := hsame
        rw [hpc] at hidle hexited
        exact htarget hidle hexited
      · exact haimed ▸ hcreated
    · have hmade : PerThreadItem.absorb app (state.producers thread).item
          (seen.producers thread).item = some item := hmade
      unfold PerThreadItem.absorb at hmade
      rw [Option.map_eq_some_iff] at hmade
      obtain ⟨buff, -, rfl⟩ := hmade
      cases hold : (state.producers thread).item with
      | none => exact hcreated
      | some item => exact hitem item hold

end Absorb

end State

/-! ## Taking a buffer -/

section GetBuff

variable {place : ℕ → BufferPlace ℕ ℕ} {pools : ℕ → List ℕ} {unrecycled : ℕ → ℕ}
  {outstanding : ℕ → Finset ℕ} {owned : ℕ → Option ℕ} {queue : ℕ → List LogMsg}
  {pool : FixedBufferPool} {app : ℕ}

theorem enlarge_shared
    (hledger : SharedLedger place pool.used pool.next pools owned queue)
    (haccounts : Accounts pool.next pools unrecycled outstanding)
    (hpool : pool.pool = pools app) (hcount : pool.unrecycled = unrecycled app)
    (hempty : pool.pool = []) (fresh : ℕ) :
    ∃ place', SharedLedger place' (pool.enlarge fresh).used (pool.enlarge fresh).next
        (Function.update pools app (pool.enlarge fresh).pool) owned queue ∧
      Accounts (pool.enlarge fresh).next
        (Function.update pools app (pool.enlarge fresh).pool) unrecycled outstanding ∧
      (pool.enlarge fresh).unrecycled = unrecycled app ∧
      ∀ buffer < pool.next, (pool.enlarge fresh).memory buffer = pool.memory buffer := by
  unfold FixedBufferPool.enlarge
  split
  · refine ⟨place, ?_, ?_, hcount, fun _ _ => rfl⟩
    · rw [hpool, Function.update_eq_self]
      exact hledger
    · rw [hpool, Function.update_eq_self]
      exact haccounts
  next hfew =>
      have hnone : pools app = [] := hpool ▸ hempty
      obtain ⟨place', hgrown, -⟩ := hledger.grow hnone (min fresh FixedBufferPool.incGran)
      refine ⟨place', ?_, ?_, hcount, fun buffer hold => ?_⟩
      · simp only [hempty, List.nil_append]
        convert hgrown using 1
        funext buffer
        unfold FixedBufferPool.used
        simp only
        split <;> rfl
      · simp only [hempty, List.nil_append]
        apply haccounts.grow
        unfold maxBuffers
        omega
      · have hnot : ¬ (pool.next ≤ buffer ∧
            buffer < pool.next + min fresh FixedBufferPool.incGran) := by omega
        simp only [if_neg hnot]

/-- `GetBuff` on one of the pools. -/
theorem getBuff_shared
    (hledger : SharedLedger place pool.used pool.next pools owned queue)
    (haccounts : Accounts pool.next pools unrecycled outstanding)
    (hpool : pool.pool = pools app) (hcount : pool.unrecycled = unrecycled app)
    {thread : ℕ} (hnone : owned thread = none) (fresh : ℕ) :
    (∃ place', SharedLedger place' (pool.getBuff fresh).2.used (pool.getBuff fresh).2.next
      (Function.update pools app (pool.getBuff fresh).2.pool)
      (Function.update owned thread (pool.getBuff fresh).1) queue) ∧
    Accounts (pool.getBuff fresh).2.next
      (Function.update pools app (pool.getBuff fresh).2.pool)
      (Function.update unrecycled app ((pool.getBuff fresh).2.unrecycled % 2 ^ 64))
      (Function.update outstanding app
        (match (pool.getBuff fresh).1 with
        | none => outstanding app
        | some buffer => insert buffer (outstanding app))) ∧
    (∀ buffer < pool.next, (pool.getBuff fresh).2.memory buffer = pool.memory buffer) ∧
    ∀ buffer, (pool.getBuff fresh).1 = some buffer →
      (pool.getBuff fresh).2.used buffer = 0 := by
  have hfull : ∃ full : FixedBufferPool,
      full = (if pool.pool = [] then pool.enlarge fresh else pool) ∧
      (∃ place', SharedLedger place' full.used full.next
        (Function.update pools app full.pool) owned queue) ∧
      Accounts full.next (Function.update pools app full.pool) unrecycled outstanding ∧
      full.unrecycled = unrecycled app ∧
      ∀ buffer < pool.next, full.memory buffer = pool.memory buffer := by
    refine ⟨_, rfl, ?_⟩
    split
    next hempty =>
        obtain ⟨place', hgrown, hgrownAccounts, hsame, hmemory⟩ :=
          enlarge_shared hledger haccounts hpool hcount hempty fresh
        exact ⟨⟨place', hgrown⟩, hgrownAccounts, hsame, hmemory⟩
    next =>
        rw [hpool, Function.update_eq_self]
        exact ⟨⟨place, hledger⟩, haccounts, hcount, fun _ _ => rfl⟩
  obtain ⟨full, heq, ⟨place', hfullLedger⟩, hfullAccounts, hfullCount, hmemory⟩ := hfull
  unfold FixedBufferPool.getBuff
  simp only [← heq]
  cases hlast : full.pool.getLast? with
  | none =>
      have hsmall : full.unrecycled % 2 ^ 64 = unrecycled app := by
        have hbounded := hfullAccounts.bounded app
        unfold maxBuffers FixedBufferPool.fixSize FixedBufferPool.incGran at hbounded
        rw [hfullCount]
        apply Nat.mod_eq_of_lt
        omega
      have howned : Function.update owned thread none = owned := by
        conv_rhs => rw [← Function.update_eq_self thread owned, hnone]
      refine ⟨⟨place', ?_⟩, ?_, hmemory, by simp⟩
      · rw [howned]
        exact hfullLedger
      · rw [hsmall, Function.update_eq_self, Function.update_eq_self]
        exact hfullAccounts
  | some buffer =>
      have hsplit : full.pool = full.pool.dropLast ++ [buffer] :=
        (List.dropLast_append_getLast? buffer hlast).symm
      have happ : Function.update pools app full.pool app = full.pool.dropLast ++ [buffer] := by
        rw [Function.update_self]
        exact hsplit
      have hplace : place' buffer = .pooled app := by
        refine (hfullLedger.pooled app buffer).mp ?_
        rw [happ]
        simp
      have hborn : place' buffer ≠ .unborn := by
        rw [hplace]
        intro hunborn
        cases hunborn
      have htaken := hfullLedger.take happ hnone
      have hcounted := hfullAccounts.take happ (hfullLedger.poolNodup app)
        (fun other hother hmem => ?_) (hfullLedger.born hborn)
      · rw [Function.update_idem] at htaken hcounted
        refine ⟨⟨_, htaken⟩, ?_, hmemory, ?_⟩
        · simp only
          rw [hfullCount]
          exact hcounted
        · intro found hfound
          cases hfound
          exact hfullLedger.poolEmpty app buffer hplace
      · rw [hfullLedger.pooled other buffer, hplace] at hmem
        cases hmem
        exact hother rfl

end GetBuff

/-! ## Steps of a thread -/

namespace State
namespace Kept

variable {state : State} {app thread : ℕ}

theorem accounts_same (hkept : state.Kept) (app : ℕ) :
    Accounts state.next (Function.update state.pools app (state.pools app))
      (Function.update state.unrecycled app (state.unrecycled app % 2 ^ 64))
      (Function.update state.out app (state.out app)) := by
  have hsame := hkept.accounts.same app
  rwa [← Function.update_eq_self app state.pools] at hsame

theorem ledger_same (hkept : state.Kept) (app : ℕ) :
    ∃ place, SharedLedger place state.used state.next
      (Function.update state.pools app (state.pools app)) state.owned
      (Function.update state.queue app (state.queue app)) := by
  rw [Function.update_eq_self, Function.update_eq_self]
  exact hkept.ledger

theorem abort (hkept : state.Kept) : { state with aborted := true }.Kept :=
  ⟨hkept.ledger, hkept.accounts,
    fun app => ⟨(hkept.ordered app).delivered, (hkept.ordered app).cleared,
      (hkept.ordered app).flushed, (hkept.ordered app).final⟩,
    hkept.sound, hkept.home, hkept.absent, hkept.aimed, hkept.intact⟩

/-- A thread makes a step on its appender; the pool and the vector under `m_pb1`
may change. -/
theorem producerStep (hkept : state.Kept) (hcreated : state.Exists app)
    (htarget : (state.producers thread).target = app)
    {producer : AsynLog.Producer} {pool : FixedBufferPool} {pb1 : List LogMsg}
    {returned : List (ℕ × List UInt8)} {outstanding : Finset ℕ}
    (hledger : ∃ place, SharedLedger place pool.used pool.next
      (Function.update state.pools app pool.pool)
      (Function.update state.owned thread producer.owned)
      (Function.update state.queue app { state.view app with pb1 := pb1 }.remaining))
    (haccounts : Accounts pool.next (Function.update state.pools app pool.pool)
      (Function.update state.unrecycled app (pool.unrecycled % 2 ^ 64))
      (Function.update state.out app outstanding))
    (hdelivered : (state.view app).logFile.contents ++
      { state.view app with pb1 := pb1 }.remaining.flatMap
        (BufferSlice.read pool.content) = returned.flatMap Prod.snd)
    (hread : ∀ other, ∀ slice ∈ state.queue other,
      slice.read pool.content = slice.read (state.pool 0).content)
    (hmemory : ∀ other buffer, other ≠ thread → state.owned other = some buffer →
      pool.memory buffer = state.memory buffer)
    (hsound : producer.Sound pool)
    (hhome : ∀ slice ∈ { state.view app with pb1 := pb1 }.remaining, slice.len = 0 →
      slice.buffer ∈ outstanding)
    (hfinal : (state.view app).running = true ∨ pb1 = (state.view app).pb1) :
    (state.absorb app outstanding ({ state.view app with
      pool := pool
      pb1 := pb1
      returned := returned }.setProducer thread producer)).Kept := by
  have hold := hkept.ordered app
  have howned : (fun other => (Function.update (state.view app).producers thread producer
      other).owned) = Function.update state.owned thread producer.owned :=
    owned_update (state.view app).producers thread producer
  refine hkept.absorbed ?_ haccounts ?_ hread ?_ hhome hcreated ?_ hkept.intact
  · simp only [AsynLog.State.setProducer]
    rw [howned]
    exact hledger
  · refine ⟨hdelivered, hold.cleared, hold.flushed, fun hterminated => ?_⟩
    obtain ⟨hstopped, hempty⟩ := hold.final hterminated
    rcases hfinal with hrunning | hsame
    · rw [hstopped] at hrunning
      cases hrunning
    · exact ⟨hstopped, hsame.trans hempty⟩
  · refine (Function.forall_update_iff (state.view app).producers
      fun _ other => other.Sound pool).mpr ⟨hsound, ?_⟩
    intro other hother
    exact (hkept.sound other).congr fun buffer hother' => hmemory other buffer hother hother'
  · intro other
    by_cases heq : other = thread
    · rw [heq]
      exact .inr htarget
    · refine .inl ?_
      simp only [AsynLog.State.setProducer, Function.update_of_ne heq]
      rfl

/-- A thread moves on without touching anything shared. -/
theorem moveOn (hkept : state.Kept) (hcreated : state.Exists app)
    (htarget : (state.producers thread).target = app) {producer : AsynLog.Producer}
    (howned : producer.owned = state.owned thread)
    (hsound : producer.Sound (state.view app).pool) :
    (state.absorb app (state.out app) ((state.view app).setProducer thread producer)).Kept := by
  refine hkept.producerStep hcreated htarget ?_ (hkept.accounts_same app)
    (hkept.ordered app).delivered (fun _ _ _ => rfl) (fun _ _ _ _ => rfl) hsound
    (hkept.home app) (.inr rfl)
  rw [howned, Function.update_eq_self]
  exact hkept.ledger_same app

theorem abortOn (hkept : state.Kept) (hcreated : state.Exists app)
    (htarget : (state.producers thread).target = app) :
    (state.absorb app (state.out app) { state.view app with aborted := true }).Kept := by
  have hstill := hkept.moveOn hcreated htarget rfl ((hkept.sound thread).congr fun _ _ => rfl)
  have hview : (state.view app).setProducer thread (state.producers thread).view =
      state.view app := by
    unfold AsynLog.State.setProducer
    rw [show (state.producers thread).view = (state.view app).producers thread from rfl,
      Function.update_eq_self]
  rw [hview] at hstill
  exact hstill.abort

theorem getBuff (hkept : state.Kept) (hcreated : state.Exists app)
    (htarget : (state.producers thread).target = app) (fresh : ℕ) (pc : ProducerPc)
    (hnone : state.owned thread = none)
    (howned : (AsynLog.Producer.mk pc (some ((state.pool app).getBuff fresh).1)).owned =
      ((state.pool app).getBuff fresh).1)
    (hsound : (∀ buffer, ((state.pool app).getBuff fresh).1 = some buffer →
      ((state.pool app).getBuff fresh).2.used buffer = 0) →
        (AsynLog.Producer.mk pc (some ((state.pool app).getBuff fresh).1)).Sound
          ((state.pool app).getBuff fresh).2) :
    (state.absorb app
      (match ((state.pool app).getBuff fresh).1 with
      | none => state.out app
      | some buffer => insert buffer (state.out app))
      ({ state.view app with pool := ((state.pool app).getBuff fresh).2 }.setProducer thread
        ⟨pc, some ((state.pool app).getBuff fresh).1⟩)).Kept := by
  obtain ⟨place, hledger⟩ := hkept.ledger
  obtain ⟨htaken, haccounts, hmemory, hempty⟩ :=
    @getBuff_shared place state.pools state.unrecycled state.out state.owned state.queue
      (state.pool app) app hledger hkept.accounts rfl rfl thread hnone fresh
  have hread : ∀ other, ∀ slice ∈ state.queue other,
      slice.read ((state.pool app).getBuff fresh).2.content =
        slice.read (state.pool 0).content := by
    intro other slice hslice
    apply BufferSlice.read_congr
    intro i _
    unfold FixedBufferPool.content
    rw [hmemory slice.buffer (hledger.slice_born hslice)]
    rfl
  refine hkept.producerStep hcreated htarget ?_ haccounts ?_ hread ?_ (hsound hempty) ?_
    (.inr rfl)
  · rw [howned]
    obtain ⟨place', htaken⟩ := htaken
    refine ⟨place', ?_⟩
    have hqueue : Function.update state.queue app (state.queue app) = state.queue :=
      Function.update_eq_self app state.queue
    rw [← hqueue] at htaken
    exact htaken
  · have hsame := List.flatMap_congr (hread app)
    exact (congrArg _ hsame).trans (hkept.ordered app).delivered
  · intro other buffer _ hother
    exact hmemory buffer (hledger.owned_born hother)
  · intro slice hslice hzero
    have hout := hkept.home app slice hslice hzero
    split
    · exact hout
    · exact Finset.mem_insert_of_mem hout

/-- A thread pushes the slice that retires its buffer. -/
theorem retire (hkept : state.Kept) (hcreated : state.Exists app)
    (htarget : (state.producers thread).target = app) {buffer : ℕ}
    {producer : AsynLog.Producer} (howned : state.owned thread = some buffer)
    (hgone : producer.owned = none) (hsound : producer.Sound (state.view app).pool)
    (hout : buffer ∈ state.out app)
    (halone : ∀ other, other ≠ app → ∀ slice ∈ state.queue other, slice.buffer ≠ buffer) :
    (state.absorb app (state.out app)
      (((state.view app).addToWriter (.retire buffer)).setProducer thread producer)).Kept := by
  obtain ⟨place, hledger⟩ := hkept.ledger
  unfold AsynLog.State.addToWriter
  split
  next hrunning =>
      refine hkept.producerStep hcreated htarget ?_ (hkept.accounts_same app) ?_
        (fun _ _ _ => rfl) (fun _ _ _ _ => rfl) hsound ?_ (.inl hrunning)
      · rw [State.remaining_push, hgone]
        have hretired := hledger.retire howned halone
        have hpools : Function.update state.pools app (state.pools app) = state.pools :=
          Function.update_eq_self app state.pools
        rw [← hpools] at hretired
        exact ⟨_, hretired⟩
      · rw [State.remaining_push]
        simpa using (hkept.ordered app).delivered
      · intro slice hslice hzero
        rw [State.remaining_push, List.mem_append, List.mem_singleton] at hslice
        rcases hslice with hold | rfl
        · exact hkept.home app slice hold hzero
        · exact hout
  next =>
      refine (hkept.producerStep hcreated htarget ?_ (hkept.accounts_same app)
        (hkept.ordered app).delivered (fun _ _ _ => rfl) (fun _ _ _ _ => rfl) hsound
        (hkept.home app) (.inr rfl)).abort
      rw [hgone]
      obtain ⟨place, hsame⟩ := hkept.ledger_same app
      exact hsame.forget thread

theorem write (hkept : state.Kept) (hcreated : state.Exists app)
    (htarget : (state.producers thread).target = app) {buffer : ℕ} {msg : List UInt8}
    (hpc : ((state.view app).producers thread).pc = .write msg)
    (hitem : ((state.view app).producers thread).item = some (some buffer)) :
    (state.absorb app (state.out app)
      ({ state.view app with pool := (state.pool app).write buffer msg }.setProducer thread
        { (state.view app).producers thread with
          pc := .push msg (state.memory buffer).cur })).Kept := by
  have howned : state.owned thread = some buffer := by
    have hview : (state.producers thread).view.owned = some buffer := by
      unfold AsynLog.Producer.owned
      rw [show (state.producers thread).view.pc = .write msg from hpc,
        show (state.producers thread).view.item = some (some buffer) from hitem]
      rfl
    exact hview
  have hsound := hkept.sound thread
  unfold AsynLog.Producer.Sound at hsound
  rw [show (state.producers thread).view.pc = .write msg from hpc] at hsound
  obtain ⟨place, hledger⟩ := hkept.ledger
  have hread : ∀ other, ∀ slice ∈ state.queue other,
      slice.read ((state.pool app).write buffer msg).content =
        slice.read (state.pool 0).content := fun other slice hslice =>
    (state.pool app).write_read buffer msg (hledger.placed other slice hslice)
  refine hkept.producerStep hcreated htarget ?_ (hkept.accounts_same app) ?_ hread ?_ ?_
    (hkept.home app) (.inr rfl)
  · obtain ⟨place, hsame⟩ := hkept.ledger_same app
    have hwritten := hsame.write howned msg.length
    have hkeeps : AsynLog.Producer.owned { (state.view app).producers thread with
        pc := .push msg (state.memory buffer).cur } = state.owned thread := by
      rw [howned]
      unfold AsynLog.Producer.owned
      simp only [hitem]
      rfl
    refine ⟨place, ?_⟩
    rw [hkeeps, Function.update_eq_self, FixedBufferPool.write_used]
    exact hwritten
  · have hsame := List.flatMap_congr (hread app)
    exact (congrArg _ hsame).trans (hkept.ordered app).delivered
  · intro other held hne hother
    have hdifferent : held ≠ buffer := by
      intro heq
      rw [heq] at hother
      exact hne (hledger.owned_unique hother howned)
    simp [FixedBufferPool.write, Function.update, hdifferent, State.pool]
  · refine ⟨hsound.1, fun held hheld => ?_⟩
    have heq : buffer = held := by simpa [hitem] using hheld
    subst heq
    constructor
    · exact (state.pool app).write_read_self buffer msg
    · rw [FixedBufferPool.write_used, Function.update_self]
      exact le_rfl

theorem push (hkept : state.Kept) (hcreated : state.Exists app)
    (htarget : (state.producers thread).target = app) {buffer offset : ℕ} {msg : List UInt8}
    (hpc : ((state.view app).producers thread).pc = .push msg offset)
    (hitem : ((state.view app).producers thread).item = some (some buffer))
    (hrunning : (state.view app).running = true) :
    (state.absorb app (state.out app)
      ({ (state.view app).addToWriter ⟨msg.length, buffer, offset⟩ with
        returned := (state.view app).returned ++ [(thread, msg)] }.setProducer thread
          { (state.view app).producers thread with pc := .idle })).Kept := by
  have howned : state.owned thread = some buffer := by
    have hview : (state.producers thread).view.owned = some buffer := by
      unfold AsynLog.Producer.owned
      rw [show (state.producers thread).view.pc = .push msg offset from hpc,
        show (state.producers thread).view.item = some (some buffer) from hitem]
      rfl
    exact hview
  have hsound := hkept.sound thread
  unfold AsynLog.Producer.Sound at hsound
  rw [show (state.producers thread).view.pc = .push msg offset from hpc] at hsound
  obtain ⟨hread, hplaced⟩ := hsound.2 buffer hitem
  have hlen : msg.length ≠ 0 := by simpa using hsound.1.1
  unfold AsynLog.State.addToWriter
  rw [if_pos hrunning]
  refine hkept.producerStep hcreated htarget ?_ (hkept.accounts_same app) ?_ (fun _ _ _ => rfl)
    (fun _ _ _ _ => rfl) trivial ?_ (.inl hrunning)
  · rw [State.remaining_push]
    obtain ⟨place, hledger⟩ := hkept.ledger
    have hposted : SharedLedger place state.used state.next state.pools state.owned
        (Function.update state.queue app
          (state.queue app ++ [⟨msg.length, buffer, offset⟩])) :=
      hledger.post howned hlen hplaced
    have hpools : Function.update state.pools app (state.pools app) = state.pools :=
      Function.update_eq_self app state.pools
    have hkeeps : AsynLog.Producer.owned { (state.view app).producers thread with
        pc := .idle } = state.owned thread := by
      rw [howned]
      unfold AsynLog.Producer.owned
      simp only [hitem]
      rfl
    rw [← hpools] at hposted
    refine ⟨place, ?_⟩
    rw [hkeeps, Function.update_eq_self]
    exact hposted
  · rw [State.remaining_push]
    simp only [List.flatMap_append, List.flatMap_cons, List.flatMap_nil, List.append_nil]
    have hdelivered := (hkept.ordered app).delivered
    have hread' : (BufferSlice.mk msg.length buffer offset).read (state.view app).pool.content =
        msg := hread
    rw [hread', ← List.append_assoc, hdelivered]
  · intro slice hslice hzero
    rw [State.remaining_push, List.mem_append, List.mem_singleton] at hslice
    rcases hslice with hold | rfl
    · exact hkept.home app slice hold hzero
    · exact absurd hzero hlen

theorem outstanding_quiet {fresh : ℕ} (htaken : taken (state.view app) thread fresh = none) :
    state.outstanding app (.produce thread fresh) = state.out app := by
  simp only [outstanding, htaken]
  rfl

theorem outstanding_taken {fresh : ℕ}
    (htaken : taken (state.view app) thread fresh = ((state.pool app).getBuff fresh).1) :
    state.outstanding app (.produce thread fresh) =
      match ((state.pool app).getBuff fresh).1 with
      | none => state.out app
      | some buffer => insert buffer (state.out app) := by
  simp only [outstanding, htaken]
  rfl

/-- A thread retires its buffer to the appender of its call. -/
theorem retireTo (hkept : state.Kept) (hcreated : state.Exists app)
    (htarget : (state.producers thread).target = app) {fresh buffer : ℕ}
    (hretires : RetiresHome state (.produce thread fresh)) {producer : AsynLog.Producer}
    (hitem : ((state.view app).producers thread).item = some (some buffer))
    (hretiring : (state.producers thread).retiring =
      (state.producers thread).item.bind PerThreadItem.buff)
    (howned : ((state.view app).producers thread).owned = some buffer)
    (hgone : producer.owned = none) (hsound : producer.Sound (state.view app).pool) :
    (state.absorb app (state.out app)
      (((state.view app).addToWriter (.retire buffer)).setProducer thread producer)).Kept := by
  have hbuff : (state.producers thread).retiring = some buffer := by
    have hview : (state.producers thread).item.map PerThreadItem.buff = some (some buffer) :=
      hitem
    rw [hretiring]
    cases hold : (state.producers thread).item with
    | none => simp [hold] at hview
    | some item => simpa [hold] using hview
  obtain ⟨hout, halone⟩ := hretires buffer hbuff
  rw [htarget] at hout halone
  exact hkept.retire hcreated htarget howned hgone hsound hout halone

theorem produce (hkept : state.Kept) (htarget : (state.producers thread).target = app)
    {fresh : ℕ} (hretires : RetiresHome state (.produce thread fresh))
    {seen : AsynLog.State} (hstep : (state.view app).produce thread fresh = some seen) :
    (state.absorb app (state.outstanding app (.produce thread fresh)) seen).Kept := by
  have hsound : ((state.view app).producers thread).Sound (state.view app).pool :=
    (hkept.sound thread).congr fun _ _ => rfl
  have hactive : ((state.view app).producers thread).pc ≠ .idle →
      ((state.view app).producers thread).pc ≠ .exited → state.Exists app := by
    rw [← htarget]
    exact (hkept.aimed thread).1
  unfold AsynLog.Producer.Sound at hsound
  unfold AsynLog.State.produce at hstep
  cases hpc : ((state.view app).producers thread).pc with
  | idle => simp [hpc] at hstep
  | firstBuff msg =>
      simp only [hpc] at hstep hsound
      have hcreated := hactive (by simp [hpc]) (by simp [hpc])
      rw [outstanding_taken (by simp only [taken, hpc]; rfl)]
      cases hstep
      refine hkept.getBuff hcreated htarget fresh (.check msg) ?_ rfl fun _ => hsound.1
      unfold owned AsynLog.Producer.owned
      rw [show (state.producers thread).view.item = none from hsound.2]
      split <;> rfl
  | check msg =>
      simp only [hpc] at hstep hsound
      have hcreated := hactive (by simp [hpc]) (by simp [hpc])
      rw [outstanding_quiet (by simp only [taken, hpc])]
      split at hstep
      next buffer hitem =>
          have howned : ∀ pc, (∀ msg, pc ≠ ProducerPc.getBuff msg) → pc ≠ .exited →
              AsynLog.Producer.owned { (state.view app).producers thread with pc := pc } =
                state.owned thread := by
            intro pc hget hexited
            have hself : state.owned thread = some buffer := by
              show ((state.view app).producers thread).owned = some buffer
              simp [AsynLog.Producer.owned, hpc, hitem]
            rw [hself]
            cases pc <;> simp_all [AsynLog.Producer.owned]
          split at hstep
          · cases hstep
            exact hkept.moveOn hcreated htarget (howned _ (by simp) (by simp)) hsound
          next hroom =>
              cases hstep
              refine hkept.moveOn hcreated htarget (howned _ (by simp) (by simp))
                ⟨hsound, fun held hheld => ?_⟩
              have heq : buffer = held := by simpa [hitem] using hheld
              subst heq
              have hlen : msg.length ≠ 0 := by simpa using hsound.1
              unfold FixedBuffer.available at hroom
              unfold FixedBufferPool.used
              omega
      next hitem =>
          cases hstep
          refine hkept.moveOn hcreated htarget ?_ hsound
          have hnull : ((state.view app).producers thread).item.join = none := by
            cases hbuff : ((state.view app).producers thread).item with
            | none => rfl
            | some buff =>
                cases buff with
                | none => rfl
                | some buffer => exact absurd hbuff (hitem buffer)
          show none = ((state.view app).producers thread).owned
          simp [AsynLog.Producer.owned, hpc, hnull]
  | pushRetired msg =>
      simp only [hpc] at hstep hsound
      have hcreated := hactive (by simp [hpc]) (by simp [hpc])
      rw [outstanding_quiet (by simp only [taken, hpc])]
      split at hstep
      next buffer hitem =>
          cases hstep
          refine hkept.retireTo hcreated htarget hretires hitem ?_ ?_ rfl hsound
          · unfold Producer.retiring
            rw [show (state.producers thread).pc = .pushRetired msg from hpc]
          · simp [AsynLog.Producer.owned, hpc, hitem]
      next =>
          cases hstep
          exact hkept.abortOn hcreated htarget
  | getBuff msg =>
      simp only [hpc] at hstep hsound
      have hcreated := hactive (by simp [hpc]) (by simp [hpc])
      rw [outstanding_taken (by simp only [taken, hpc]; rfl)]
      have hnone : state.owned thread = none := by
        show ((state.view app).producers thread).owned = none
        simp [AsynLog.Producer.owned, hpc]
      split at hstep
      next hnull =>
          cases hstep
          have hafter := hkept.getBuff hcreated htarget fresh .idle hnone rfl fun _ => trivial
          rw [show ((state.pool app).getBuff fresh).1 = none from hnull] at hafter ⊢
          exact hafter
      next buffer hbuffer =>
          cases hstep
          have hafter := hkept.getBuff hcreated htarget fresh (.write msg) hnone rfl ?_
          · rw [show ((state.pool app).getBuff fresh).1 = some buffer from hbuffer] at hafter ⊢
            exact hafter
          · intro hempty
            refine ⟨hsound, fun held hheld => ?_⟩
            rw [hempty held (by simpa using hheld)]
            simpa using hsound.2
  | write msg =>
      simp only [hpc] at hstep hsound
      have hcreated := hactive (by simp [hpc]) (by simp [hpc])
      rw [outstanding_quiet (by simp only [taken, hpc])]
      split at hstep
      next buffer hitem =>
          have hroom := hsound.2 buffer hitem
          unfold FixedBufferPool.used at hroom
          rw [if_pos hroom] at hstep
          cases hstep
          exact hkept.write hcreated htarget hpc hitem
      next =>
          cases hstep
          exact hkept.abortOn hcreated htarget
  | push msg offset =>
      simp only [hpc] at hstep
      have hcreated := hactive (by simp [hpc]) (by simp [hpc])
      rw [outstanding_quiet (by simp only [taken, hpc])]
      split at hstep
      next buffer hitem =>
          split at hstep
          next hrunning =>
              cases hstep
              exact hkept.push hcreated htarget hpc hitem hrunning
          next hstopped =>
              cases hstep
              unfold AsynLog.State.addToWriter
              rw [if_neg hstopped]
              exact hkept.abortOn hcreated htarget
      next =>
          cases hstep
          exact hkept.abortOn hcreated htarget
  | exitPush =>
      simp only [hpc] at hstep
      have hcreated := hactive (by simp [hpc]) (by simp [hpc])
      rw [outstanding_quiet (by simp only [taken, hpc])]
      split at hstep
      next buffer hitem =>
          cases hstep
          refine hkept.retireTo hcreated htarget hretires hitem ?_ ?_ rfl trivial
          · unfold Producer.retiring
            rw [show (state.producers thread).pc = .exitPush from hpc]
          · simp [AsynLog.Producer.owned, hpc, hitem]
      next =>
          cases hstep
          exact hkept.abortOn hcreated htarget
  | exited => simp [hpc] at hstep

/-! ## The other steps -/

theorem aim_view (state : State) (thread app other : ℕ) :
    (state.aim thread app).view other = state.view other := by
  have hproducers : (fun found => ((state.aim thread app).producers found).view) =
      fun found => (state.producers found).view := by
    funext found
    unfold aim
    by_cases heq : found = thread
    · simp [heq, Producer.view]
    · simp [heq]
  unfold view
  rw [hproducers]
  rfl

/-- An idle thread turns to another appender. -/
theorem aim (hkept : state.Kept) (hidle : (state.producers thread).pc = .idle) (app : ℕ) :
    (state.aim thread app).Kept := by
  have hview : ∀ other, ((state.aim thread app).producers other).view =
      (state.producers other).view := fun other =>
    congrFun (congrArg AsynLog.State.producers (aim_view state thread app app)) other
  have howned : (state.aim thread app).owned = state.owned := by
    funext other
    exact congrArg AsynLog.Producer.owned (hview other)
  have hqueue : (state.aim thread app).queue = state.queue := by
    funext other
    exact congrArg AsynLog.State.remaining (aim_view state thread app other)
  refine ⟨?_, hkept.accounts, fun other => ?_, fun other => ?_, ?_, hkept.absent,
    fun other => ?_, hkept.intact⟩
  · rw [howned, hqueue]
    exact hkept.ledger
  · rw [aim_view]
    exact hkept.ordered other
  · rw [hview other]
    exact hkept.sound other
  · rw [hqueue]
    exact hkept.home
  · by_cases heq : other = thread
    · subst heq
      refine ⟨fun hactive => ?_, ?_⟩
      · simp [State.aim, hidle] at hactive
      · have hitem := (hkept.aimed other).2
        simp only [State.aim, Function.update_self]
        exact hitem
    · have haimed := hkept.aimed other
      simp only [State.aim, Function.update_of_ne heq]
      exact haimed

theorem append (hkept : state.Kept) (hcreated : state.Exists app)
    (htarget : (state.producers thread).target = app) {msg : List UInt8}
    (hfits : msg.length ≤ buffSize) {seen : AsynLog.State}
    (hstep : (state.view app).step (.append thread msg) = some seen) :
    (state.absorb app (state.out app) seen).Kept := by
  have howned : ∀ pc, (∀ msg, pc ≠ ProducerPc.getBuff msg) → pc ≠ .exited →
      ((state.view app).producers thread).pc = .idle →
        AsynLog.Producer.owned { (state.view app).producers thread with pc := pc } =
          state.owned thread := by
    intro pc hget hexited hidle
    show _ = ((state.view app).producers thread).owned
    cases pc <;> simp_all [AsynLog.Producer.owned]
  unfold AsynLog.State.step at hstep
  split at hstep
  · cases hstep
  simp only at hstep
  split at hstep
  next hidle =>
      split at hstep
      · cases hstep
        exact hkept.abortOn hcreated htarget
      next hne =>
          split at hstep
          next hitem =>
              cases hstep
              exact hkept.moveOn hcreated htarget (howned _ (by simp) (by simp) hidle)
                ⟨⟨hne, hfits⟩, hitem⟩
          next =>
              cases hstep
              exact hkept.moveOn hcreated htarget (howned _ (by simp) (by simp) hidle)
                ⟨hne, hfits⟩
  · cases hstep

/-- A thread gives its buffer up, because its appender has been stopped. -/
theorem forget (hkept : state.Kept) (hcreated : state.Exists app)
    (htarget : (state.producers thread).target = app) :
    (state.absorb app (state.out app)
      ((state.view app).setProducer thread ⟨.exited, none⟩)).Kept := by
  refine hkept.producerStep hcreated htarget ?_ (hkept.accounts_same app)
    (hkept.ordered app).delivered (fun _ _ _ => rfl) (fun _ _ _ _ => rfl) trivial
    (hkept.home app) (.inr rfl)
  obtain ⟨place, hsame⟩ := hkept.ledger_same app
  exact hsame.forget thread

theorem exit (hkept : state.Kept) (hcreated : state.Exists app)
    (htarget : (state.producers thread).target = app) {seen : AsynLog.State}
    (hstep : (state.view app).step (.exit thread) = some seen) :
    (state.absorb app (state.out app) seen).Kept := by
  unfold AsynLog.State.step at hstep
  split at hstep
  · cases hstep
  simp only at hstep
  split at hstep
  next item hidle hitem =>
      split at hstep
      · cases hstep
        refine hkept.moveOn hcreated htarget ?_ trivial
        show _ = ((state.view app).producers thread).owned
        simp [AsynLog.Producer.owned, hidle]
      · cases hstep
        exact hkept.forget hcreated htarget
  next hidle hitem =>
      cases hstep
      exact hkept.forget hcreated htarget
  · cases hstep

theorem leave (hkept : state.Kept) (hitem : (state.producers thread).item = none)
    {next : State} (hstep : state.leave thread = some next) : next.Kept := by
  unfold State.leave at hstep
  split_ifs at hstep with _ hidle
  cases hstep
  have howned : ({ state with
      producers := Function.update state.producers thread
        { state.producers thread with pc := .exited } } : State).owned = state.owned := by
    funext other
    unfold owned
    by_cases heq : other = thread
    · subst heq
      simp [Producer.view, AsynLog.Producer.owned, hidle, hitem]
    · simp [heq]
  refine ⟨?_, hkept.accounts, fun app => ?_, fun other => ?_, hkept.home, hkept.absent,
    fun other => ?_, hkept.intact⟩
  · rw [howned]
    exact hkept.ledger
  · have hordered := hkept.ordered app
    exact ⟨hordered.delivered, hordered.cleared, hordered.flushed, hordered.final⟩
  · by_cases heq : other = thread
    · simp only [heq, Function.update_self]
      trivial
    · simp only [Function.update_of_ne heq]
      exact hkept.sound other
  · by_cases heq : other = thread
    · simp only [heq, Function.update_self]
      exact ⟨fun _ hexited => absurd rfl hexited, (hkept.aimed thread).2⟩
    · simp only [Function.update_of_ne heq]
      exact hkept.aimed other

theorem stop (hkept : state.Kept) {seen : AsynLog.State}
    (hstep : (state.view app).step .stop = some seen) :
    (state.absorb app (state.out app) seen).Kept := by
  unfold AsynLog.State.step at hstep
  split at hstep
  · cases hstep
  simp only at hstep
  split at hstep
  next hrunning =>
      cases hstep
      have hcreated : state.Exists app := by
        by_contra hnot
        have habsent := hkept.absent app hnot
        simp [view, habsent, Appender.absent] at hrunning
      have hordered := hkept.ordered app
      refine hkept.absorbed (hkept.ledger_same app) (hkept.accounts_same app)
        ⟨hordered.delivered, hordered.cleared, hordered.flushed, fun hover => ?_⟩
        (fun _ _ _ => rfl) (fun other => (hkept.sound other).congr fun _ _ => rfl)
        (hkept.home app) hcreated (fun _ => .inl rfl) hkept.intact
      exact ⟨rfl, (hordered.final hover).2⟩
  · cases hstep

theorem create (hkept : state.Kept) (hnot : ¬ state.Exists app) : (state.create app).Kept := by
  have habsent := hkept.absent app hnot
  have hempty : state.pools app = [] := by simp [pools, habsent, Appender.absent]
  have hpools : (state.create app).pools =
      Function.update state.pools app (List.range' state.next FixedBufferPool.fixSize) :=
    Function.comp_update Appender.pool state.appenders app _
  have hunrecycled : (state.create app).unrecycled = state.unrecycled := by
    funext other
    unfold unrecycled State.create
    by_cases heq : other = app
    · simp [heq, habsent, Appender.absent]
    · simp [heq]
  have hout : (state.create app).out = state.out := by
    funext other
    unfold out State.create
    by_cases heq : other = app
    · simp [heq, habsent, Appender.absent]
    · simp [heq]
  have hqueue : (state.create app).queue = state.queue := by
    funext other
    unfold queue view State.create AsynLog.State.remaining
    by_cases heq : other = app
    · simp [heq, habsent, Appender.absent]
    · simp [heq]
  have hmemory : ∀ buffer < state.next, (state.create app).memory buffer =
      state.memory buffer := by
    intro buffer hlt
    have hold : ¬ (state.next ≤ buffer ∧ buffer < state.next + FixedBufferPool.fixSize) := by
      omega
    simp only [State.create, if_neg hold]
  have hused : (state.create app).used = fun buffer =>
      if state.next ≤ buffer ∧ buffer < state.next + FixedBufferPool.fixSize then 0
      else state.used buffer := by
    funext buffer
    unfold used State.create
    simp only
    split <;> rfl
  obtain ⟨place, hledger⟩ := hkept.ledger
  refine ⟨?_, ?_, fun other => ?_, fun thread => ?_, ?_, fun other => ?_, fun thread => ?_,
    hkept.intact⟩
  · obtain ⟨place', hgrown, -⟩ := hledger.grow hempty FixedBufferPool.fixSize
    refine ⟨place', ?_⟩
    rw [hused, hpools, hqueue]
    exact hgrown
  · rw [hpools, hunrecycled, hout]
    apply hkept.accounts.grow
    have hzero : state.unrecycled app = 0 := by simp [unrecycled, habsent, Appender.absent]
    rw [hzero]
    decide
  · have hold := hkept.ordered other
    by_cases heq : other = app
    · subst heq
      have hview : (state.create other).view other = { (state.create other).view other with
          pb1 := []
          pb2 := []
          logFile := ⟨[], []⟩
          logger := .top
          returned := [] } := by
        unfold view State.create
        simp [Appender.absent]
      rw [hview]
      exact ⟨rfl, fun _ => rfl, fun _ => rfl, nofun⟩
    · have hsame : (state.queue other).flatMap
          (BufferSlice.read ((state.create app).view other).pool.content) =
          (state.queue other).flatMap (BufferSlice.read (state.view other).pool.content) := by
        apply List.flatMap_congr
        intro slice hslice
        apply BufferSlice.read_congr
        intro i _
        exact congrFun (congrArg FixedBuffer.bytes
          (hmemory slice.buffer (hledger.slice_born hslice))) _
      have hremaining : ((state.create app).view other).remaining = state.queue other :=
        congrFun hqueue other
      have happender : (state.create app).appenders other = state.appenders other := by
        simp [State.create, heq]
      refine ⟨?_, ?_, ?_, ?_⟩
      · rw [hremaining, hsame]
        unfold view
        simp only [happender]
        exact hold.delivered
      · unfold view
        simp only [happender]
        exact hold.cleared
      · unfold view
        simp only [happender]
        exact hold.flushed
      · unfold view
        simp only [happender]
        exact hold.final
  · exact (hkept.sound thread).congr fun buffer howned =>
      hmemory buffer (hledger.owned_born howned)
  · rw [hqueue, hout]
    exact hkept.home
  · by_cases heq : other = app
    · intro hmissing
      simp [Exists, State.create, heq] at hmissing
    · have hold := hkept.absent other
      unfold Exists State.create
      simp only [Function.update_of_ne heq]
      exact hold
  · have hmore : ∀ other, state.Exists other → (state.create app).Exists other := by
      intro other hexists
      unfold Exists State.create
      by_cases heq : other = app
      · simp [heq]
      · unfold Exists at hexists
        simpa [heq] using hexists
    obtain ⟨htarget, hitem⟩ := hkept.aimed thread
    exact ⟨fun hidle hexited => hmore _ (htarget hidle hexited),
      fun item hmade => hmore _ (hitem item hmade)⟩

theorem log (hkept : state.Kept) {script : List WriteResult} {grown1 grown2 : Bool}
    (hreliable : LogFile.Reliable script) {seen : AsynLog.State}
    (hstep : (state.view app).log script grown1 grown2 = some seen) :
    (state.absorb app (state.outstanding app (.log script grown1 grown2)) seen).Kept := by
  have hcreated : state.Exists app := by
    by_contra hnot
    have habsent := hkept.absent app hnot
    simp [AsynLog.State.log, view, habsent, Appender.absent] at hstep
  obtain ⟨hproducers, hcorrupted⟩ := log_frame hstep
  obtain ⟨hordered, heffect⟩ := (hkept.ordered app).log hreliable hstep
  have hintact : seen.corrupted = false := hcorrupted.trans hkept.intact
  have haimed : ∀ thread, (seen.producers thread).pc = (state.producers thread).pc ∨
      (state.producers thread).target = app := by
    intro thread
    rw [hproducers]
    exact .inl rfl
  obtain ⟨place, hledger⟩ := hkept.ledger
  cases heffect with
  | rest kept hsub hpool hremaining hdue =>
      rw [show state.outstanding app (.log script grown1 grown2) = state.out app by
        simp only [outstanding, hdue]; rfl]
      obtain ⟨place', hshrunk⟩ := hledger.shrink (show kept.Sublist (state.pools app) from hsub)
      refine hkept.absorbed ⟨place', ?_⟩ ?_ hordered ?_ ?_ ?_
        hcreated haimed hintact
      · rw [hproducers, hremaining, hpool,
          show (state.view app).remaining = state.queue app from rfl, Function.update_eq_self]
        exact hshrunk
      · rw [hpool]
        exact (hkept.accounts.shrink hsub).same app
      · intro other slice _
        rw [hpool]
        rfl
      · intro thread
        rw [hproducers, hpool]
        exact (hkept.sound thread).congr fun _ _ => rfl
      · rw [hremaining]
        exact hkept.home app
  | recycle slice hzero hpool hremaining hdue =>
      have hqueue : state.queue app = slice :: seen.remaining := hremaining
      have hfirst : slice ∈ state.queue app := by
        rw [hqueue]
        exact List.mem_cons_self
      have hplace := hledger.retiredIn app slice hfirst hzero
      rw [show state.outstanding app (.log script grown1 grown2) =
        (state.out app).erase slice.buffer by simp only [outstanding, hdue]; rfl]
      have hrecycled := hledger.recycle hqueue hzero
      refine hkept.absorbed ?_ ?_ hordered ?_ ?_ ?_ hcreated haimed hintact
      · rw [hproducers, hpool, FixedBufferPool.recycle_used]
        exact ⟨_, hrecycled⟩
      · rw [hpool]
        exact hkept.accounts.recycle (hkept.home app slice hfirst hzero)
      · intro other found _
        rw [hpool, FixedBufferPool.recycle_content]
        rfl
      · intro thread
        rw [hproducers, hpool]
        apply (hkept.sound thread).congr
        intro buffer howned
        have hne : buffer ≠ slice.buffer := by
          intro heq
          rw [heq] at howned
          have hheld := (hledger.ownedBy thread slice.buffer).mp howned
          rw [hplace] at hheld
          cases hheld
        simp [FixedBufferPool.recycle, Function.update, hne, view, State.pool]
      · intro found hfound hlen
        have hlast := hledger.retiredLast app
        rw [hqueue, List.pairwise_cons] at hlast
        rw [Finset.mem_erase]
        refine ⟨hlast.1 found hfound hzero, hkept.home app found ?_ hlen⟩
        rw [hqueue]
        exact List.mem_cons_of_mem slice hfound
  | append slice hpool hremaining hdue =>
      have hqueue : state.queue app = slice :: seen.remaining := hremaining
      rw [show state.outstanding app (.log script grown1 grown2) = state.out app by
        simp only [outstanding, hdue]; rfl]
      refine hkept.absorbed ⟨place, ?_⟩ ?_ hordered ?_ ?_ ?_
        hcreated haimed hintact
      · have hdropped := hledger.drop hqueue
        rw [← Function.update_eq_self app state.pools] at hdropped
        rw [hproducers, hpool]
        exact hdropped
      · rw [hpool]
        exact hkept.accounts_same app
      · intro other found _
        rw [hpool]
        rfl
      · intro thread
        rw [hproducers, hpool]
        exact (hkept.sound thread).congr fun _ _ => rfl
      · intro found hfound
        refine hkept.home app found ?_
        rw [hqueue]
        exact List.mem_cons_of_mem slice hfound

/-! ## Whole runs -/

theorem perform_eq_some {action : AsynLog.Action} {next : State}
    (hstep : state.perform app action = some next) :
    ∃ seen, (state.view app).step action = some seen ∧
      next = state.absorb app (state.outstanding app action) seen := by
  unfold State.perform at hstep
  split at hstep
  · cases hstep
  next seen hseen =>
      cases hstep
      exact ⟨seen, hseen, rfl⟩

theorem idle_of_append {seen : AsynLog.State} {msg : List UInt8}
    (hstep : (state.view app).step (.append thread msg) = some seen) :
    (state.producers thread).pc = .idle := by
  unfold AsynLog.State.step at hstep
  split at hstep
  · cases hstep
  simp only at hstep
  split at hstep
  next hidle => exact hidle
  · cases hstep

theorem idle_of_exit {seen : AsynLog.State}
    (hstep : (state.view app).step (.exit thread) = some seen) :
    (state.producers thread).pc = .idle := by
  unfold AsynLog.State.step at hstep
  split at hstep
  · cases hstep
  simp only at hstep
  split at hstep
  next hidle _ => exact hidle
  next hidle _ => exact hidle
  · cases hstep

theorem step (hkept : state.Kept) {action : Action} (hretires : RetiresHome state action)
    {next : State} (hstep : state.step action = some next) : next.Kept := by
  unfold State.step at hstep
  cases action with
  | create app =>
      simp only at hstep
      split at hstep
      · cases hstep
      next hfree =>
          cases hstep
          refine hkept.create fun hexists => hfree ?_
          rw [show (state.appenders app).created = true from hexists, Bool.or_true]
  | append thread app msg =>
      simp only at hstep
      split at hstep
      next hcreated =>
          obtain ⟨seen, hseen, rfl⟩ := perform_eq_some hstep
          have hidle : (state.producers thread).pc = .idle := by
            rw [aim_view] at hseen
            exact idle_of_append hseen
          exact (hkept.aim hidle app).append hcreated (by simp [State.aim]) hretires.2 hseen
      · cases hstep
  | produce thread fresh =>
      obtain ⟨seen, hseen, rfl⟩ := perform_eq_some hstep
      unfold AsynLog.State.step at hseen
      split at hseen
      · cases hseen
      · exact hkept.produce rfl hretires hseen
  | exit thread =>
      simp only at hstep
      split at hstep
      next hitem => exact hkept.leave hitem hstep
      next item hitem =>
          obtain ⟨seen, hseen, rfl⟩ := perform_eq_some hstep
          have hidle : (state.producers thread).pc = .idle := by
            rw [aim_view] at hseen
            exact idle_of_exit hseen
          exact (hkept.aim hidle item.app).exit ((hkept.aimed thread).2 item hitem)
            (by simp [State.aim]) hseen
  | stop app =>
      obtain ⟨seen, hseen, rfl⟩ := perform_eq_some hstep
      exact hkept.stop hseen
  | log app script grown1 grown2 =>
      obtain ⟨seen, hseen, rfl⟩ := perform_eq_some hstep
      unfold AsynLog.State.step at hseen
      split at hseen
      · cases hseen
      · exact hkept.log hretires hseen

end Kept
end State

theorem start_kept (garbage : ℕ → ℕ → UInt8) : (start garbage).Kept := by
  refine ⟨⟨_, SharedLedger.start (fun _ => rfl) (fun _ => rfl) fun _ => rfl⟩, ?_, fun app => ?_,
    fun thread => ?_, ?_, fun _ _ => rfl, fun thread => ?_, rfl⟩
  · refine ⟨fun _ => rfl, ?_, ?_, ?_, fun _ => Nat.zero_le _⟩
    · intro app pool buffer hbuffer
      cases hbuffer
    · intro first second buffer hfirst
      simp [State.out, start, Appender.absent] at hfirst
    · intro app buffer hbuffer
      simp [State.out, start, Appender.absent] at hbuffer
  · exact ⟨rfl, fun _ => rfl, fun _ => rfl, fun _ => ⟨rfl, rfl⟩⟩
  · trivial
  · intro app slice hslice
    cases hslice
  · exact ⟨fun hidle => absurd rfl hidle, nofun⟩

theorem kept_of_retiresHome {garbage : ℕ → ℕ → UInt8} {state : State}
    (hreached : (machine garbage).ReachedBy RetiresHome state) : state.Kept := by
  refine hreached.invariant State.Kept (start_kept garbage) ?_
  intro state action next hstate hretires hstep
  exact hstate.step hretires hstep

/-- While every buffer returns to the appender it was taken from, and only once
no other appender needs it, what one appender writes and counts does not depend
on the others. -/
theorem undisturbed_of_retiresHome (garbage : ℕ → ℕ → UInt8) {state : State}
    (hreached : (machine garbage).ReachedBy RetiresHome state) (app : ℕ) :
    state.Undisturbed app :=
  (kept_of_retiresHome hreached).undisturbed app

/-- An appender exists only after its constructor has run. -/
theorem exists_of_step {state next : State} {action : Action}
    (hstep : state.step action = some next) {app : ℕ} (hexists : next.Exists app) :
    state.Exists app ∨ action = .create app := by
  have hperform : ∀ {before : State} {other : ℕ} {act : AsynLog.Action},
      before.perform other act = some next → before.Exists app := by
    intro before other act hperformed
    obtain ⟨seen, -, rfl⟩ := State.Kept.perform_eq_some hperformed
    rwa [State.absorb_exists] at hexists
  unfold State.step at hstep
  cases action with
  | create created =>
      simp only at hstep
      split at hstep
      · cases hstep
      · cases hstep
        by_cases heq : app = created
        · exact .inr (by rw [heq])
        · refine .inl ?_
          unfold State.Exists State.create at hexists
          simp only [Function.update_of_ne heq] at hexists
          exact hexists
  | append thread target msg =>
      simp only at hstep
      split at hstep
      · have hbefore : (state.aim thread target).Exists app := hperform hstep
        exact .inl hbefore
      · cases hstep
  | produce thread fresh => exact .inl (hperform hstep)
  | exit thread =>
      simp only at hstep
      split at hstep
      next =>
          unfold State.leave at hstep
          split_ifs at hstep
          cases hstep
          exact .inl hexists
      next item _ =>
          have hbefore : (state.aim thread item.app).Exists app := hperform hstep
          exact .inl hbefore
  | stop target => exact .inl (hperform hstep)
  | log target script grown1 grown2 => exact .inl (hperform hstep)

theorem exists_of_runFrom {garbage : ℕ → ℕ → UInt8} {schedule : List Action}
    {state final : State} (hrun : (machine garbage).runFrom state schedule = some final)
    {app : ℕ} (hexists : final.Exists app) : state.Exists app ∨ .create app ∈ schedule := by
  induction schedule generalizing state with
  | nil =>
      cases hrun
      exact .inl hexists
  | cons action rest ih =>
      unfold Machine.runFrom at hrun
      split at hrun
      · cases hrun
      next next hnext =>
          rcases ih hrun with hbefore | hmem
          · rcases exists_of_step hnext hbefore with hold | rfl
            · exact .inl hold
            · exact .inr List.mem_cons_self
          · exact .inr (List.mem_cons_of_mem action hmem)

/-- The condition on the steps that retire nothing. -/
def Calm (state : State) : Action → Bool
  | .append _ app msg => (state.appenders app).running && msg.length ≤ buffSize
  | .produce thread _ => (state.producers thread).retiring = none
  | .log _ script _ _ => .failed ∉ script
  | _ => true

theorem retiresHome_of_calm (state : State) (action : Action)
    (hcalm : Calm state action = true) : RetiresHome state action := by
  cases action with
  | append thread app msg =>
      simpa [Calm, RetiresHome] using hcalm
  | produce thread fresh =>
      intro buffer hretiring
      have hnone : (state.producers thread).retiring = none := by simpa [Calm] using hcalm
      rw [hnone] at hretiring
      cases hretiring
  | log app script grown1 grown2 =>
      have hnot : .failed ∉ script := by simpa [Calm] using hcalm
      exact hnot
  | _ => trivial

/-- A thread logs `A` to the first appender and `B` to the second, both in one
buffer, and exits when the second has written `B`. -/
def switchThenWait : List Action :=
  [.create 0, .create 1,
    .append 0 0 [65], .produce 0 0, .produce 0 0, .produce 0 0, .produce 0 0,
    .append 0 1 [66], .produce 0 0, .produce 0 0, .produce 0 0,
    .log 1 [] false false, .log 1 [] false false, .log 1 [] false false,
    .log 1 [.wrote 1] false false, .exit 0]

/-- The first appender recycles the buffer, and another thread logs `C` into
it. -/
def thenReuse : List Action :=
  [.log 0 [] false false, .log 0 [] false false, .log 0 [] false false,
    .log 0 [] false false, .log 0 [.wrote 1] false false,
    .append 1 0 [67], .produce 1 0, .produce 1 0, .produce 1 0, .produce 1 0]

theorem undisturbed_switchThenWait :
    ∃ waited next final, (machine fun _ _ => 0).run switchThenWait = some waited ∧
      waited.step (.produce 0 0) = some next ∧
      (machine fun _ _ => 0).runFrom next thenReuse = some final ∧
      (final.appenders 0).logFile.written = [65] ∧
      (final.appenders 1).logFile.written = [66] ∧
      final.Undisturbed 0 ∧ final.Undisturbed 1 := by
  have hwaited : ((machine fun _ _ => 0).run switchThenWait).map (fun waited =>
      ((waited.producers 0).retiring, (waited.producers 0).target,
        (waited.appenders 0).outstanding, waited.queue 1)) = some (some 31, 0, {31}, []) := by
    decide +kernel
  have hreused : ((machine fun _ _ => 0).run switchThenWait).map (fun waited =>
      (waited.step (.produce 0 0)).map fun next =>
        (decide ((machine fun _ _ => 0).Admits (fun state action => Calm state action = true)
          next thenReuse),
          ((machine fun _ _ => 0).runFrom next thenReuse).map fun final =>
            ((final.appenders 0).logFile.written, (final.appenders 1).logFile.written))) =
      some (some (true, some ([65], [66]))) := by
    decide +kernel
  have hcalm : (machine fun _ _ => 0).Admits (fun state action => Calm state action = true)
      (machine fun _ _ => 0).start switchThenWait := by
    decide +kernel
  rw [Option.map_eq_some_iff] at hwaited
  obtain ⟨waited, hrun, hwaited⟩ := hwaited
  simp only [Prod.mk.injEq] at hwaited
  obtain ⟨hretiring, htarget, hout, hwritten⟩ := hwaited
  rw [hrun, Option.map_some, Option.some.injEq, Option.map_eq_some_iff] at hreused
  obtain ⟨next, hnext, hafter⟩ := hreused
  simp only [Prod.mk.injEq, decide_eq_true_eq, Option.map_eq_some_iff] at hafter
  obtain ⟨hcalmAfter, final, hfinal, hfirst, hsecond⟩ := hafter
  have hreached : (machine fun _ _ => 0).ReachedBy RetiresHome waited :=
    (Machine.ReachedBy.runFrom .start hcalm hrun).mono retiresHome_of_calm
  have hothers : ∀ app, app ≠ 0 → app ≠ 1 → waited.queue app = [] := by
    intro app hzero hone
    have hmissing : ¬ waited.Exists app := by
      intro hexists
      rcases exists_of_runFrom hrun hexists with hstart | hcreate
      · cases hstart
      · simp [switchThenWait, hzero, hone] at hcreate
    have habsent := (kept_of_retiresHome hreached).absent app hmissing
    simp [State.queue, State.view, AsynLog.State.remaining, habsent, Appender.absent]
  have hhome : RetiresHome waited (.produce 0 0) := by
    intro buffer hbuffer
    rw [hretiring] at hbuffer
    cases hbuffer
    rw [htarget, hout]
    refine ⟨by decide, fun app happ slice hslice => ?_⟩
    have hnothing : waited.queue app = [] := by
      by_cases heq : app = 1
      · rw [heq]
        exact hwritten
      · exact hothers app happ heq
    have hslice : slice ∈ waited.queue app := hslice
    rw [hnothing] at hslice
    cases hslice
  have hlast : (machine fun _ _ => 0).ReachedBy RetiresHome final := by
    refine Machine.ReachedBy.runFrom (.step hreached hhome hnext) ?_ hfinal
    exact hcalmAfter.mono retiresHome_of_calm
  exact ⟨waited, next, final, hrun, hnext, hfinal, hfirst, hsecond,
    undisturbed_of_retiresHome _ hlast 0, undisturbed_of_retiresHome _ hlast 1⟩

end LogAppenders
end BackEndFacility
