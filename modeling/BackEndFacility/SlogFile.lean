import BackEndFacility.SlogLogger
import BackEndFacility.SynLogAppender

/-!
# Threads that log into one file

Any number of threads run log statements of `slog`, each with its own stream and cached
time stamp, and give the lines to one `SynLogAppender`.  A statement goes on once its line
has been appended, and one of the level `LL_ABORT` then ends the process.
-/

namespace BackEndFacility
namespace SlogFile

open SlogLogger (Statement LogLevel Thread tryLog)
open SynLogAppender (Call Place Result Answered lines code Holds)

/-! ## The process -/

/-- `said` are the statements that a thread has come to. -/
structure State where
  appender : CriticalSection.State LogFileState Call Place Result
  threads : ℕ → Thread
  said : ℕ → List Statement
  ended : Bool

/-- A statement, `FlushPendingLog`, and the next step of a thread inside the appender. -/
inductive Action where
  | log (thread : ℕ) (statement : Statement)
  | flush (thread : ℕ)
  | advance (thread : ℕ) (answer : WriteResult)

namespace State

/-- The message that a statement has for the appender, if there is one. -/
def message (before after : Thread) : Option (List UInt8) :=
  (after.appended.drop before.appended.length).head?

/-- `TRY_LOG` up to the call of `Append`, whose assertion the message has to pass. -/
def log (localtime : ℕ → CacheTimeStamp.Tm) (globalLevel : LogLevel) (state : State)
    (thread : ℕ) (statement : Statement) : Option State :=
  match state.appender.callers thread, tryLog localtime globalLevel (state.threads thread)
      statement with
  | .idle, some after =>
      let said := Function.update state.said thread (state.said thread ++ [statement])
      let threads := Function.update state.threads thread after
      match message (state.threads thread) after with
      | none => some { state with threads := threads, said := said }
      | some msg =>
          if hmsg : msg.length ≤ LogFile.defBuffSize then
            (state.appender.step code (.invoke thread (.append ⟨msg, hmsg⟩))).map
              fun appender =>
                { state with appender := appender, threads := threads, said := said }
          else none
  | _, _ => none

def flush (state : State) (thread : ℕ) : Option State :=
  (state.appender.step code (.invoke thread .flush)).map fun appender =>
    { state with appender := appender }

/-- `Append` returns to `~Logger`. -/
def returns (state : State) (thread : ℕ) : Bool :=
  match state.appender.callers thread with
  | .returning _ => true
  | _ => false

def advance (state : State) (thread : ℕ) (answer : WriteResult) : Option State :=
  (state.appender.step code (.advance thread answer)).map fun appender =>
    { state with
      appender := appender
      ended := state.returns thread && (state.threads thread).aborted }

def step (localtime : ℕ → CacheTimeStamp.Tm) (globalLevel : LogLevel) (state : State)
    (action : Action) : Option State :=
  if state.ended then none
  else
    match action with
    | .log thread statement => state.log localtime globalLevel thread statement
    | .flush thread => state.flush thread
    | .advance thread answer => state.advance thread answer

end State

def machine (localtime : ℕ → CacheTimeStamp.Tm) (globalLevel : LogLevel) (cell : ℕ → UInt8) :
    Machine State Action where
  start :=
    { appender := (SynLogAppender.machine cell).start
      threads := fun _ => (SlogLogger.machine localtime globalLevel).start
      said := fun _ => []
      ended := false }
  step := State.step localtime globalLevel

/-- Statements that are shown have a date and fit, and `write(2)` does not fail. -/
def Good (localtime : ℕ → CacheTimeStamp.Tm) (globalLevel : LogLevel) (_ : State) :
    Action → Prop
  | .log _ statement => statement.Shown globalLevel →
      statement.Dated localtime ∧ statement.Fits localtime
  | .flush _ => True
  | .advance _ answer => Answered answer

/-- The line with which a thread has called the appender and which is not yet in the
file. -/
def State.waiting (state : State) (thread : ℕ) : List (List UInt8) :=
  match state.appender.callers thread with
  | .locking call => call.pending.toList
  | .inside call _ => call.pending.toList
  | _ => []

/-! ## The appender -/

section Appender

variable {appender next : CriticalSection.State LogFileState Call Place Result}
  {config : SequentialObject.Config (List (List UInt8)) Call Result}
  {commits : List (ℕ × Call)} {invoked : ℕ → List Call}

theorem invoke_ordered {thread : ℕ} {call : Call}
    (hsim : CriticalSection.Simulates code Answered Holds appender config)
    (hordered : lines.Ordered config commits invoked)
    (hstep : appender.step code (.invoke thread call) = some next) :
    ∃ after later, CriticalSection.Simulates code Answered Holds next after ∧
      lines.Ordered after later (Function.update invoked thread (invoked thread ++ [call])) := by
  have hanswers : CriticalSection.Answers Answered appender (.invoke thread call) := trivial
  obtain ⟨after, hsteps, hafter⟩ := hsim.step SynLogAppender.implements_lines hanswers hstep
  obtain ⟨later, hlater⟩ := hordered.steps hsteps
  exact ⟨after, later, hafter, hlater⟩

theorem advance_ordered {thread : ℕ} {answer : WriteResult} (hanswered : Answered answer)
    (hsim : CriticalSection.Simulates code Answered Holds appender config)
    (hordered : lines.Ordered config commits invoked)
    (hstep : appender.step code (.advance thread answer) = some next) :
    ∃ after later, CriticalSection.Simulates code Answered Holds next after ∧
      lines.Ordered after later invoked := by
  have hanswers : CriticalSection.Answers Answered appender (.advance thread answer) :=
    hanswered
  obtain ⟨after, hsteps, hafter⟩ := hsim.step SynLogAppender.implements_lines hanswers hstep
  obtain ⟨later, hlater⟩ := hordered.steps hsteps
  have hnone : (code.observe appender (.advance thread answer)).foldl
      (fun invoked event => event.note invoked) invoked = invoked := by
    simp only [CriticalSection.observe]
    split
    · split
      · rfl
      · rfl
    · rfl
    · rfl
  rw [hnone] at hlater
  exact ⟨after, later, hafter, hlater⟩

/-- The lines of the calls that have taken effect, with their threads. -/
def merge (commits : List (ℕ × Call)) : List (ℕ × List UInt8) :=
  commits.flatMap fun commit => commit.2.pending.toList.map fun line => (commit.1, line)

theorem merge_cons (commit : ℕ × Call) (rest : List (ℕ × Call)) :
    merge (commit :: rest) =
      commit.2.pending.toList.map (fun line => (commit.1, line)) ++ merge rest :=
  List.flatMap_cons ..

theorem merge_lines (commits : List (ℕ × Call)) (log : List (List UInt8)) :
    commits.foldl (fun object commit => (lines.apply object commit.2).1) log =
      log ++ (merge commits).map Prod.snd := by
  induction commits generalizing log with
  | nil => exact (List.append_nil log).symm
  | cons commit rest ih =>
      rw [List.foldl_cons, ih, merge_cons, List.map_append, ← List.append_assoc]
      simp [lines]

theorem merge_thread (commits : List (ℕ × Call)) (thread : ℕ) :
    ((merge commits).filter fun entry => entry.1 = thread).map Prod.snd =
      ((commits.filter fun commit => commit.1 = thread).map Prod.snd).flatMap
        fun call => call.pending.toList := by
  induction commits with
  | nil => rfl
  | cons commit rest ih =>
      obtain ⟨other, call⟩ := commit
      rw [merge_cons, List.filter_append, List.map_append, ih]
      by_cases heq : other = thread
      · rw [List.filter_cons_of_pos (by simpa using heq), List.map_cons, List.flatMap_cons]
        cases call.pending with
        | none => rfl
        | some line => simp [heq]
      · rw [List.filter_cons_of_neg (by simpa using heq)]
        cases call.pending with
        | none => rfl
        | some line => simp [heq]

end Appender

/-! ## Every step -/

section Steps

variable {localtime : ℕ → CacheTimeStamp.Tm} {globalLevel : LogLevel} {state next : State}

/-- The lines of the statements that are shown. -/
def shownLines (localtime : ℕ → CacheTimeStamp.Tm) (globalLevel : LogLevel)
    (statements : List Statement) : List (List UInt8) :=
  (statements.filter fun statement => statement.Shown globalLevel).map (Statement.line localtime)

theorem shownLines_concat (statements : List Statement) (statement : Statement) :
    shownLines localtime globalLevel (statements ++ [statement]) =
      shownLines localtime globalLevel statements ++
        (if statement.Shown globalLevel then [statement.line localtime] else []) := by
  rw [shownLines, List.filter_append, List.map_append]
  by_cases hshown : statement.Shown globalLevel
  · rw [if_pos hshown, List.filter_cons_of_pos (by simpa using hshown)]
    rfl
  · rw [if_neg hshown, List.filter_cons_of_neg (by simpa using hshown)]
    rfl

/-- Each thread has called the appender with the lines of what it has said. -/
structure Tells (localtime : ℕ → CacheTimeStamp.Tm) (globalLevel : LogLevel) (state : State)
    (invoked : ℕ → List Call) : Prop where
  called : ∀ thread, (invoked thread).flatMap (fun call => call.pending.toList) =
    (state.threads thread).appended
  said : ∀ thread, (state.threads thread).appended =
    shownLines localtime globalLevel (state.said thread)
  cache : ∀ thread, ∃ past, CacheTimeStamp.Holds localtime past (state.threads thread).cache

theorem Tells.update {invoked noted : ℕ → List Call} {thread : ℕ} {after : Thread}
    {said : List Statement} (htells : Tells localtime globalLevel state invoked)
    (hthreads : next.threads = Function.update state.threads thread after)
    (hnext : next.said = Function.update state.said thread said)
    (hnoted : ∀ other, other ≠ thread → noted other = invoked other)
    (hcalled : (noted thread).flatMap (fun call => call.pending.toList) = after.appended)
    (hsaid : after.appended = shownLines localtime globalLevel said)
    (hcache : ∃ past, CacheTimeStamp.Holds localtime past after.cache) :
    Tells localtime globalLevel next noted where
  called := by
    intro other
    rw [hthreads]
    by_cases heq : other = thread
    · subst heq
      rw [Function.update_self]
      exact hcalled
    · rw [Function.update_of_ne heq, hnoted other heq]
      exact htells.called other
  said := by
    intro other
    rw [hthreads, hnext]
    by_cases heq : other = thread
    · subst heq
      rw [Function.update_self, Function.update_self]
      exact hsaid
    · rw [Function.update_of_ne heq, Function.update_of_ne heq]
      exact htells.said other
  cache := by
    intro other
    rw [hthreads]
    by_cases heq : other = thread
    · subst heq
      rw [Function.update_self]
      exact hcache
    · rw [Function.update_of_ne heq]
      exact htells.cache other

/-- The invariant: the appender does what the atomic log does, in some order of the calls
that keeps the order of each thread. -/
def Kept (localtime : ℕ → CacheTimeStamp.Tm) (globalLevel : LogLevel) (state : State) : Prop :=
  ∃ config commits invoked,
    CriticalSection.Simulates code Answered Holds state.appender config ∧
      lines.Ordered config commits invoked ∧ Tells localtime globalLevel state invoked

theorem Kept.log {thread : ℕ} {statement : Statement}
    (hkept : Kept localtime globalLevel state)
    (hgood : statement.Shown globalLevel → statement.Dated localtime ∧ statement.Fits localtime)
    (hstep : state.log localtime globalLevel thread statement = some next) :
    Kept localtime globalLevel next := by
  obtain ⟨config, commits, invoked, hsim, hordered, htells⟩ := hkept
  unfold State.log at hstep
  split at hstep
  · rename_i after hidle htry
    obtain ⟨past, hholds⟩ := htells.cache thread
    have halive : (state.threads thread).aborted = false := by
      by_contra hdone
      rw [tryLog, if_pos (Bool.not_eq_false _ ▸ hdone)] at htry
      cases htry
    obtain ⟨logged, later, hlogged, hcache, happended, -⟩ :=
      SlogLogger.tryLog_line halive hholds hgood
    rw [htry] at hlogged
    obtain rfl := Option.some.inj hlogged
    have hsaid : after.appended =
        shownLines localtime globalLevel (state.said thread ++ [statement]) := by
      rw [shownLines_concat, ← htells.said, happended]
    have hmessage : State.message (state.threads thread) after =
        (if statement.Shown globalLevel then [statement.line localtime] else []).head? := by
      rw [State.message, happended, List.drop_left]
    dsimp only at hstep
    rw [hmessage] at hstep
    by_cases hshown : statement.Shown globalLevel
    · simp only [if_pos hshown, List.head?_cons] at hstep happended
      split_ifs at hstep with hmsg
      obtain ⟨appender, happender, rfl⟩ := Option.map_eq_some_iff.mp hstep
      obtain ⟨config', commits', hsim', hordered'⟩ := invoke_ordered hsim hordered happender
      refine ⟨config', commits', _, hsim', hordered', htells.update rfl rfl ?_ ?_ hsaid
        ⟨later, hcache⟩⟩
      · intro other hother
        exact Function.update_of_ne hother _ _
      · rw [Function.update_self, List.flatMap_append, htells.called, happended]
        rfl
    · simp only [if_neg hshown, List.head?_nil, Option.some.injEq,
        List.append_nil] at hstep happended
      subst next
      refine ⟨config, commits, invoked, hsim, hordered, htells.update rfl rfl (fun _ _ => rfl) ?_
        hsaid ⟨later, hcache⟩⟩
      rw [htells.called, happended]
  · cases hstep

theorem Kept.flush {thread : ℕ} (hkept : Kept localtime globalLevel state)
    (hstep : state.flush thread = some next) : Kept localtime globalLevel next := by
  obtain ⟨config, commits, invoked, hsim, hordered, htells⟩ := hkept
  obtain ⟨appender, happender, rfl⟩ := Option.map_eq_some_iff.mp hstep
  obtain ⟨config', commits', hsim', hordered'⟩ := invoke_ordered hsim hordered happender
  refine ⟨config', commits', _, hsim', hordered', htells.update
    (Function.update_eq_self thread _).symm (Function.update_eq_self thread _).symm ?_ ?_
    (htells.said thread) (htells.cache thread)⟩
  · intro other hother
    exact Function.update_of_ne hother _ _
  · rw [Function.update_self, List.flatMap_append, htells.called]
    exact List.append_nil _

theorem Kept.advance {thread : ℕ} {answer : WriteResult} (hkept : Kept localtime globalLevel state)
    (hanswered : Answered answer) (hstep : state.advance thread answer = some next) :
    Kept localtime globalLevel next := by
  obtain ⟨config, commits, invoked, hsim, hordered, htells⟩ := hkept
  obtain ⟨appender, happender, rfl⟩ := Option.map_eq_some_iff.mp hstep
  obtain ⟨config', commits', hsim', hordered'⟩ :=
    advance_ordered hanswered hsim hordered happender
  exact ⟨config', commits', invoked, hsim', hordered',
    htells.called, htells.said, htells.cache⟩

theorem Kept.step {action : Action} (hkept : Kept localtime globalLevel state)
    (hgood : Good localtime globalLevel state action)
    (hstep : state.step localtime globalLevel action = some next) :
    Kept localtime globalLevel next := by
  unfold State.step at hstep
  split_ifs at hstep
  cases action with
  | log thread statement => exact hkept.log hgood hstep
  | flush thread => exact hkept.flush hstep
  | advance thread answer => exact hkept.advance hgood hstep

theorem kept_start (localtime : ℕ → CacheTimeStamp.Tm) (globalLevel : LogLevel)
    (cell : ℕ → UInt8) : Kept localtime globalLevel (machine localtime globalLevel cell).start :=
  ⟨lines.start, [], fun _ => [], .start (SynLogAppender.construct_holds cell),
    lines.ordered_start, fun _ => rfl, fun _ => rfl, fun _ => ⟨[], .initial localtime⟩⟩

end Steps

/-! ## Every run -/

theorem waiting_of_simulates {state : State}
    {config : SequentialObject.Config (List (List UInt8)) Call Result}
    (hsim : CriticalSection.Simulates code Answered Holds state.appender config) (thread : ℕ) :
    (config.phases thread).waiting.flatMap (fun call => call.pending.toList) =
      state.waiting thread := by
  have hmatches := hsim.callers thread
  unfold State.waiting
  cases hpc : state.appender.callers thread with
  | idle =>
      rw [hpc] at hmatches
      rw [hmatches]
      rfl
  | locking call =>
      rw [hpc] at hmatches
      rw [hmatches]
      exact List.append_nil _
  | inside call place =>
      rw [hpc] at hmatches
      rw [hmatches.1]
      exact List.append_nil _
  | unlocking result =>
      rw [hpc] at hmatches
      rw [hmatches]
      rfl
  | returning result =>
      rw [hpc] at hmatches
      rw [hmatches]
      rfl

/-- However many threads log at once and however the file is written: what has gone to the
file, followed by what is still in the buffer, is made up of whole lines, and those of each
thread are the lines of the statements it has come to, in their order, each once, except
for one that is still on its way. -/
theorem file_tells (localtime : ℕ → CacheTimeStamp.Tm) (globalLevel : LogLevel)
    (cell : ℕ → UInt8) (state : State)
    (hreached : (machine localtime globalLevel cell).ReachedBy (Good localtime globalLevel)
      state) :
    ∃ merged : List (ℕ × List UInt8),
      state.appender.object.written ++ state.appender.object.unwritten =
          (merged.map Prod.snd).flatten ∧
      ∀ thread, (merged.filter fun entry => entry.1 = thread).map Prod.snd ++
          state.waiting thread =
        ((state.said thread).filter fun statement => statement.Shown globalLevel).map
          (Statement.line localtime) := by
  obtain ⟨config, commits, invoked, hsim, hordered, htells⟩ :=
    hreached.invariant (Kept localtime globalLevel) (kept_start localtime globalLevel cell)
      fun _ _ _ hkept hgood hstep => hkept.step hgood hstep
  obtain ⟨hsound, happended⟩ := SynLogAppender.object_of_simulates hsim
  refine ⟨merge commits, ?_, fun thread => ?_⟩
  · rw [hsound.contents_eq, happended, hordered.object, merge_lines]
    rfl
  · rw [merge_thread, ← waiting_of_simulates hsim, ← List.flatMap_append, hordered.order,
      htells.called, htells.said]
    rfl

/-- Two threads log at once, and the second one takes the lock first. -/
def twoThreads : List Action :=
  [.log 0 (SlogLogger.note .info [97] [45] [102]), .log 1 (SlogLogger.note .warn [98] [45] [103]),
    .advance 1 .interrupted, .advance 0 .interrupted, .advance 1 .interrupted,
    .advance 1 .interrupted, .advance 1 .interrupted,
    .log 1 (SlogLogger.note .debug [99] [45] [103]), .flush 1, .advance 1 .interrupted,
    .advance 1 .interrupted, .advance 1 (.wrote 20)]

theorem file_tells_twoThreads :
    ∃ state, (machine CacheTimeStamp.firstDay .info fun _ => 0).run twoThreads = some state ∧
      state.appender.object.written.length = 20 ∧ (state.said 1).length = 2 ∧
      ∃ merged : List (ℕ × List UInt8),
        state.appender.object.written ++ state.appender.object.unwritten =
          (merged.map Prod.snd).flatten := by
  have hrun : ((machine CacheTimeStamp.firstDay .info fun _ => 0).run twoThreads).map
      (fun state => (state.appender.object.written.length, (state.said 1).length)) =
        some (20, 2) := by
    decide +kernel
  have hgood : ∀ action ∈ twoThreads, ∀ state,
      Good CacheTimeStamp.firstDay .info state action := by
    simp only [twoThreads, List.forall_mem_cons, List.not_mem_nil, Good, Answered]
    simp [SlogLogger.note_good]
  obtain ⟨state, hstate, hlengths⟩ := Option.map_eq_some_iff.mp hrun
  obtain ⟨merged, hmerged, -⟩ := file_tells _ _ _ state
    (Machine.ReachedBy.runFrom .start (Machine.admits_of_forall hgood _) hstate)
  exact ⟨state, hstate, congrArg Prod.fst hlengths, congrArg Prod.snd hlengths, merged, hmerged⟩

end SlogFile
end BackEndFacility
