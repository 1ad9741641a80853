import BackEndFacility.LockedObject
import BackEndFacility.LogFileBuffer

/-!
# The synchronous appender of `slog/LogFileAppender.h`

`SynLogAppender` is a `LogFile` whose `Append` and `Flush` hold a mutex.  Any number of
threads log, and the holder may be in the middle of the loop of `AppendRaw`: each
answer of `write(2)` is a step of its own.

What the file is for is a list of lines to which the threads add one at a time.
-/

namespace BackEndFacility
namespace SynLogAppender

/-- A message that passes the assertion of `Append`. -/
abbrev Line := {msg : List UInt8 // msg.length ≤ LogFile.defBuffSize}

inductive Call where
  | append (line : Line)
  | flush

inductive Result where
  | appended (len : ℕ)
  | flushed
  deriving DecidableEq

/-- `raw` is the loop of `AppendRaw`. -/
inductive Place where
  | append (line : Line)
  | flush
  | raw (result : Result)

/-- What a call answers when it returns. -/
def Call.result : Call → Result
  | .append line => .appended line.val.length
  | .flush => .flushed

/-- The message that is still to be copied when the buffer has been written. -/
def Call.pending : Call → Option (List UInt8)
  | .append line => some line.val
  | .flush => none

/-- The call goes on in the loop, or is over. -/
def after (state : LogFileState) (result : Result) : LogFileState × (Place ⊕ Result) :=
  match state.loop with
  | none => (state, .inr result)
  | some _ => (state, .inl (.raw result))

/-- The code between the two operations of the mutex. -/
def code : CriticalSection LogFileState Call Place WriteResult Result where
  enter := fun call =>
    match call with
    | .append line => .append line
    | .flush => .flush
  access := fun state place answer =>
    match place with
    | .append line =>
        (state.append line.val).map fun next => after next (Call.append line).result
    | .flush => some (after (state.flush none) .flushed)
    | .raw result =>
        match state.loop with
        | none => none
        | some loop => (state.write loop answer).map fun next => after next result

/-- `cell` is what the buffer holds before anything is written there. -/
def machine (cell : ℕ → UInt8) :
    Machine (CriticalSection.State LogFileState Call Place Result)
      (CriticalSection.Action Call WriteResult) :=
  CriticalSection.machine code (LogFileState.construct cell)

/-- The log as the threads are to see it. -/
def lines : SequentialObject (List (List UInt8)) Call Result where
  initial := []
  apply := fun log call => (log ++ call.pending.toList, call.result)

/-- `write(2)` has short writes and interruptions, and no other failure. -/
def Answered : WriteResult → Prop
  | .failed => False
  | .wrote count => 0 < count
  | .interrupted => True

theorem Answered.writes {answer : WriteResult} (hanswered : Answered answer)
    (state : LogFileState) : state.Writes (.write answer) := by
  cases answer with
  | failed => exact hanswered
  | wrote count => exact hanswered
  | interrupted => trivial

/-- No thread is in the file, and it holds these lines. -/
structure Holds (state : LogFileState) (log : List (List UInt8)) : Prop where
  sound : state.Sound
  idle : state.loop = none
  appended : state.appended = log

/-! ## One call -/

/-- What the file is like after a part of a call that has `pending` still to copy:
either the call is over, and has done so, or it is in the loop. -/
structure Took (log : List (List UInt8)) (pending : Option (List UInt8))
    (next : LogFileState) : Prop where
  ended : next.loop = none → next.appended = log ++ pending.toList
  emptied : next.loop = none → pending = none → next.cur = 0
  goes_on : ∀ loop, next.loop = some loop →
    loop.pending = pending ∧ next.appended = log

theorem finish_took (state : LogFileState) (pending : Option (List UInt8)) :
    Took state.appended pending (state.finish pending) := by
  cases pending with
  | none => exact ⟨fun _ => (List.append_nil _).symm, fun _ _ => rfl, fun _ hloop => nomatch hloop⟩
  | some msg => exact ⟨fun _ => rfl, fun _ hnone => (nomatch hnone), fun _ hloop => nomatch hloop⟩

theorem appendRaw_took (state : LogFileState) (msg len : ℕ) (pending : Option (List UInt8)) :
    Took state.appended pending (state.appendRaw msg len pending) := by
  unfold LogFileState.appendRaw
  split_ifs with hlen
  · exact finish_took state pending
  · refine ⟨fun hended => (nomatch hended), fun hended => (nomatch hended), ?_⟩
    intro loop hloop
    cases hloop
    exact ⟨rfl, rfl⟩

theorem append_took {state next : LogFileState} {msg : List UInt8} (hidle : state.loop = none)
    (happend : state.append msg = some next) : Took state.appended (some msg) next := by
  unfold LogFileState.append at happend
  split_ifs at happend with hassert hfull
  · cases happend
    exact appendRaw_took state 0 state.cur (some msg)
  · cases happend
    refine ⟨fun _ => rfl, fun _ hnone => (nomatch hnone), fun loop hloop => ?_⟩
    exact absurd (hidle.symm.trans hloop) (Option.some_ne_none loop).symm

theorem write_took {state next : LogFileState} {loop : WriteLoop} {answer : WriteResult}
    (hloop : state.loop = some loop) (hanswered : Answered answer)
    (hwrite : state.write loop answer = some next) : Took state.appended loop.pending next := by
  cases answer with
  | failed => exact hanswered.elim
  | interrupted =>
      cases hwrite
      have hgoes : state.loop ≠ none := by
        rw [hloop]
        exact Option.some_ne_none loop
      refine ⟨fun hended => absurd hended hgoes, fun hended => absurd hended hgoes, ?_⟩
      intro other hother
      rw [hloop] at hother
      cases hother
      exact ⟨rfl, rfl⟩
  | wrote count =>
      simp only [LogFileState.write] at hwrite
      split_ifs at hwrite with hcount
      cases hwrite
      exact appendRaw_took { state with
        written := state.written ++ state.fileBuff.read loop.msg count } _ _ loop.pending

/-- What holds between the steps of a call that found `log` in the file. -/
def InCall (call : Call) (log : List (List UInt8)) (state : LogFileState) : Place → Prop
  | .append line => call = .append line ∧ Holds state log
  | .flush => call = .flush ∧ Holds state log
  | .raw result => result = call.result ∧ state.Sound ∧ state.appended = log ∧
      ∃ loop, state.loop = some loop ∧ loop.pending = call.pending

theorem enter_inCall {state : LogFileState} {log : List (List UInt8)}
    (hholds : Holds state log) (call : Call) : InCall call log state (code.enter call) := by
  cases call with
  | append line => exact ⟨rfl, hholds⟩
  | flush => exact ⟨rfl, hholds⟩

/-- The last step of a call leaves the file as the call should, and the others leave the
call under way. -/
def Goes (call : Call) (log : List (List UInt8)) (next : LogFileState) :
    Place ⊕ Result → Prop
  | .inl place => InCall call log next place
  | .inr result => result = call.result ∧ Holds next (log ++ call.pending.toList) ∧
      (call.pending = none → next.cur = 0)

theorem after_goes {next : LogFileState} {call : Call} {log : List (List UInt8)}
    (hsound : next.Sound) (htook : Took log call.pending next) :
    Goes call log (after next call.result).1 (after next call.result).2 := by
  unfold after
  cases hloop : next.loop with
  | none =>
      exact ⟨rfl, ⟨hsound, hloop, htook.ended hloop⟩, htook.emptied hloop⟩
  | some loop =>
      obtain ⟨hpending, hsame⟩ := htook.goes_on loop hloop
      exact ⟨rfl, hsound, hsame, loop, hloop, hpending⟩

theorem access_goes {state next : LogFileState} {call : Call} {log : List (List UInt8)}
    {place : Place} {answer : WriteResult} {rest : Place ⊕ Result}
    (hcall : InCall call log state place) (hanswered : Answered answer)
    (haccess : code.access state place answer = some (next, rest)) :
    Goes call log next rest := by
  cases place with
  | append line =>
      obtain ⟨rfl, hholds⟩ := hcall
      simp only [code, Option.map_eq_some_iff] at haccess
      obtain ⟨appended, happend, hafter⟩ := haccess
      have hgoes : Goes (.append line) log (after appended (Call.append line).result).1
          (after appended (Call.append line).result).2 :=
        after_goes (LogFileState.append_sound hholds.sound hholds.idle happend)
          (hholds.appended ▸ append_took hholds.idle happend)
      rwa [hafter] at hgoes
  | flush =>
      obtain ⟨rfl, hholds⟩ := hcall
      simp only [code, Option.some.injEq] at haccess
      have hsound : (state.flush none).Sound :=
        LogFileState.flush_sound hholds.sound hholds.idle fun msg hmsg => nomatch hmsg
      have hgoes : Goes .flush log (after (state.flush none) Call.flush.result).1
          (after (state.flush none) Call.flush.result).2 :=
        after_goes hsound (hholds.appended ▸ appendRaw_took state 0 state.cur none)
      change Goes .flush log (after (state.flush none) .flushed).1
        (after (state.flush none) .flushed).2 at hgoes
      rwa [haccess] at hgoes
  | raw result =>
      obtain ⟨rfl, hsound, happended, loop, hloop, hpending⟩ := hcall
      simp only [code, hloop, Option.map_eq_some_iff] at haccess
      obtain ⟨written, hwrite, hafter⟩ := haccess
      have htook := write_took hloop hanswered hwrite
      rw [hpending, happended] at htook
      have hgoes := after_goes
        (LogFileState.write_sound hsound hloop (hanswered.writes state) hwrite) htook
      rwa [hafter] at hgoes

theorem inCall_of_moves {state reached : LogFileState} {call : Call} {log : List (List UInt8)}
    {place : Place} (hholds : Holds state log)
    (hruns : Relation.ReflTransGen (code.Moves Answered) (state, code.enter call)
      (reached, place)) : InCall call log reached place := by
  have hall : ∀ found : LogFileState × Place,
      Relation.ReflTransGen (code.Moves Answered) (state, code.enter call) found →
        InCall call log found.1 found.2 := by
    intro found hfound
    induction hfound with
    | refl => exact enter_inCall hholds call
    | tail _ hmove ih =>
        obtain ⟨answer, hanswered, haccess⟩ := hmove
        exact access_goes ih hanswered haccess
  exact hall _ hruns

theorem implements_lines : code.Implements Answered lines Holds := by
  intro state log call reached place answer final result hholds hruns hanswered haccess
  obtain ⟨hresult, hfinal, -⟩ := access_goes (inCall_of_moves hholds hruns) hanswered haccess
  exact ⟨hresult.symm, hfinal⟩

/-! ## A call ends, also after writes that failed -/

/-- What the calls answer does not depend on the file. -/
def answers : SequentialObject Unit Call Result where
  initial := ()
  apply := fun _ call => ((), call.result)

def Idle (state : LogFileState) (_ : Unit) : Prop := state.loop = none

def Busy (call : Call) (state : LogFileState) : Place → Prop
  | .append line => call = .append line ∧ state.loop = none
  | .flush => call = .flush ∧ state.loop = none
  | .raw result => result = call.result ∧ ∃ loop, state.loop = some loop ∧ 0 < loop.len

def Leaves (call : Call) (next : LogFileState) : Place ⊕ Result → Prop
  | .inl place => Busy call next place
  | .inr result => result = call.result ∧ next.loop = none

theorem appendRaw_len_pos {state : LogFileState} {msg len : ℕ} {pending : Option (List UInt8)}
    {loop : WriteLoop} (hloop : (state.appendRaw msg len pending).loop = some loop) :
    0 < loop.len := by
  unfold LogFileState.appendRaw at hloop
  split_ifs at hloop with hlen
  · rw [LogFileState.finish_loop] at hloop
    cases hloop
  · cases hloop
    exact Nat.pos_of_ne_zero hlen

theorem after_leaves {next : LogFileState} (call : Call)
    (hpos : ∀ loop, next.loop = some loop → 0 < loop.len) :
    Leaves call (after next call.result).1 (after next call.result).2 := by
  unfold after
  cases hloop : next.loop with
  | none => exact ⟨rfl, hloop⟩
  | some loop => exact ⟨rfl, loop, hloop, hpos loop hloop⟩

theorem access_leaves {state next : LogFileState} {call : Call} {place : Place}
    {answer : WriteResult} {rest : Place ⊕ Result} (hbusy : Busy call state place)
    (haccess : code.access state place answer = some (next, rest)) : Leaves call next rest := by
  cases place with
  | append line =>
      obtain ⟨rfl, hidle⟩ := hbusy
      simp only [code, Option.map_eq_some_iff] at haccess
      obtain ⟨appended, happend, hafter⟩ := haccess
      have hleaves : Leaves (.append line) (after appended (Call.append line).result).1
          (after appended (Call.append line).result).2 := by
        refine after_leaves (.append line) fun loop hloop => ?_
        unfold LogFileState.append at happend
        split_ifs at happend
        · cases happend
          exact appendRaw_len_pos hloop
        · cases happend
          exact absurd (hidle.symm.trans hloop) (Option.some_ne_none loop).symm
      rwa [hafter] at hleaves
  | flush =>
      obtain ⟨rfl, -⟩ := hbusy
      simp only [code, Option.some.injEq] at haccess
      have hleaves : Leaves .flush (after (state.flush none) .flushed).1
          (after (state.flush none) .flushed).2 :=
        after_leaves .flush fun _ hloop => appendRaw_len_pos hloop
      rwa [haccess] at hleaves
  | raw result =>
      obtain ⟨rfl, loop, hloop, hpos⟩ := hbusy
      simp only [code, hloop, Option.map_eq_some_iff] at haccess
      obtain ⟨written, hwrite, hafter⟩ := haccess
      have hleaves : Leaves call (after written call.result).1 (after written call.result).2 := by
        refine after_leaves call fun left hleft => ?_
        cases answer with
        | failed =>
            cases hwrite
            rw [LogFileState.finish_loop] at hleft
            cases hleft
        | interrupted =>
            cases hwrite
            rw [hloop] at hleft
            cases hleft
            exact hpos
        | wrote count =>
            simp only [LogFileState.write] at hwrite
            split_ifs at hwrite
            cases hwrite
            exact appendRaw_len_pos hleft
      rwa [hafter] at hleaves

theorem busy_of_moves {state reached : LogFileState} {call : Call} {place : Place}
    (hidle : state.loop = none)
    (hruns : Relation.ReflTransGen (code.Moves fun _ => True) (state, code.enter call)
      (reached, place)) : Busy call reached place := by
  have hall : ∀ found : LogFileState × Place,
      Relation.ReflTransGen (code.Moves fun _ => True) (state, code.enter call) found →
        Busy call found.1 found.2 := by
    intro found hfound
    induction hfound with
    | refl =>
        cases call with
        | append line => exact ⟨rfl, hidle⟩
        | flush => exact ⟨rfl, hidle⟩
    | tail _ hmove ih =>
        obtain ⟨answer, -, haccess⟩ := hmove
        exact access_leaves ih haccess
  exact hall _ hruns

theorem raw_finishes {state : LogFileState} {loop : WriteLoop} {result : Result}
    (hloop : state.loop = some loop) (hpos : 0 < loop.len) :
    code.Finishes Answered state (.raw result) := by
  have hwrite : state.write loop (.wrote loop.len) = some
      (({ state with written := state.written ++ state.fileBuff.read loop.msg loop.len }
        : LogFileState).finish loop.pending) := by
    simp only [LogFileState.write, le_refl, if_true, Nat.sub_self, LogFileState.appendRaw]
  have hlast : code.access state (.raw result) (.wrote loop.len) = some
      (({ state with written := state.written ++ state.fileBuff.read loop.msg loop.len }
        : LogFileState).finish loop.pending, .inr result) := by
    simp only [code, hloop, hwrite, Option.map_some, after, LogFileState.finish_loop]
  exact .last (.wrote loop.len) hpos hlast

theorem after_finishes {state next : LogFileState} {call : Call} {place : Place}
    (hbusy : Busy call state place)
    (haccess : code.access state place .interrupted = some (after next call.result)) :
    code.Finishes Answered state place := by
  have hleaves := access_leaves hbusy haccess
  unfold after at haccess hleaves
  cases hloop : next.loop with
  | none =>
      simp only [hloop] at haccess
      exact .last .interrupted trivial haccess
  | some loop =>
      simp only [hloop] at haccess hleaves
      obtain ⟨-, left, hleft, hpos⟩ := hleaves
      exact .more .interrupted trivial haccess (raw_finishes hleft hpos)

theorem canFinish : code.CanFinish (fun _ => True) Answered Idle := by
  intro state held call reached place hidle hruns
  have hbusy := busy_of_moves hidle hruns
  cases place with
  | raw result =>
      obtain ⟨-, loop, hloop, hpos⟩ := hbusy
      exact raw_finishes hloop hpos
  | flush =>
      have hflush : code.access reached .flush .interrupted =
          some (after (reached.flush none) call.result) := by
        rw [hbusy.1]
        rfl
      exact after_finishes hbusy hflush
  | append line =>
      obtain ⟨next, happend⟩ : ∃ next, reached.append line.val = some next := by
        unfold LogFileState.append
        rw [if_pos line.property]
        split_ifs
        · exact ⟨_, rfl⟩
        · exact ⟨_, rfl⟩
      have hopen : code.access reached (.append line) .interrupted =
          some (after next call.result) := by
        rw [hbusy.1]
        simp only [code, happend, Option.map_some]
      exact after_finishes hbusy hopen

/-! ## Every run -/

section Runs

variable {cell : ℕ → UInt8}
  {state next : CriticalSection.State LogFileState Call Place Result}
  {config : SequentialObject.Config (List (List UInt8)) Call Result}

theorem object_of_simulates
    (hsim : CriticalSection.Simulates code Answered Holds state config) :
    state.object.Sound ∧ state.object.appended = config.object := by
  by_cases hinside : ∃ thread, (state.callers thread).Inside
  · obtain ⟨thread, hinside⟩ := hinside
    have hmatches := hsim.callers thread
    cases hpc : state.callers thread with
    | inside call place =>
        rw [hpc] at hmatches
        obtain ⟨-, found, hholds, hruns⟩ := hmatches
        have hcall := inCall_of_moves hholds hruns
        cases place with
        | append line => exact ⟨hcall.2.sound, hcall.2.appended⟩
        | flush => exact ⟨hcall.2.sound, hcall.2.appended⟩
        | raw result => exact ⟨hcall.2.1, hcall.2.2.1⟩
    | idle => exact absurd hinside (by rw [hpc]; exact id)
    | locking call => exact absurd hinside (by rw [hpc]; exact id)
    | unlocking result => exact absurd hinside (by rw [hpc]; exact id)
    | returning result => exact absurd hinside (by rw [hpc]; exact id)
  · have hholds := hsim.object fun thread hthread => hinside ⟨thread, hthread⟩
    exact ⟨hholds.sound, hholds.appended⟩

theorem construct_holds (cell : ℕ → UInt8) : Holds (LogFileState.construct cell) [] :=
  ⟨LogFileState.construct_sound cell, rfl, rfl⟩

theorem cur_of_flushed {thread : ℕ} {answer : WriteResult}
    (hsim : CriticalSection.Simulates code Answered Holds state config)
    (hanswered : Answered answer) (hstep : state.advance code thread answer = some next)
    (hflushed : next.callers thread = .unlocking .flushed) :
    Holds next.object config.object ∧ next.object.cur = 0 := by
  obtain ⟨call, place, hpc, haccess⟩ := CriticalSection.advance_unlocking hstep hflushed
  have hmatches := hsim.callers thread
  rw [hpc] at hmatches
  obtain ⟨-, found, hholds, hruns⟩ := hmatches
  obtain ⟨hresult, hfinal, hcur⟩ :=
    access_goes (inCall_of_moves hholds hruns) hanswered haccess
  cases call with
  | append line => cases hresult
  | flush =>
      rw [show Call.flush.pending.toList = [] from rfl, List.append_nil] at hfinal
      exact ⟨hfinal, hcur rfl⟩

end Runs

/-- However many threads log at once, and however `write(2)` splits and interrupts the
writing: every run is one of a list of lines to which the threads add one at a time, and at
each moment what has gone to the descriptor, followed by what has not, is that list, each
line whole.  The buffer is never overrun. -/
theorem linearizable_lines (cell : ℕ → UInt8)
    (schedule : List (CriticalSection.Action Call WriteResult))
    (final : CriticalSection.State LogFileState Call Place Result)
    (hadmits : (machine cell).Admits (CriticalSection.Answers Answered) (machine cell).start
      schedule)
    (hrun : (machine cell).run schedule = some final) :
    final.Exclusive ∧ final.object.fileBuff.extent ≤ LogFile.defBuffSize ∧
      ∃ config, lines.Steps lines.start
          ((machine cell).history code.observe (machine cell).start schedule) config ∧
        final.object.appended = config.object ∧
        final.object.written ++ final.object.unwritten = config.object.flatten := by
  obtain ⟨config, hsteps, hsim⟩ :=
    CriticalSection.linearizable implements_lines (construct_holds cell) hadmits hrun
  obtain ⟨hsound, happended⟩ := object_of_simulates hsim
  refine ⟨hsim.exclusive, hsound.extent_le, config, hsteps, happended, ?_⟩
  rw [← happended]
  exact hsound.contents_eq

/-- One thread flushes and is interrupted after a part of its line, while another one
waits to append. -/
def appendWhileFlushing : List (CriticalSection.Action Call WriteResult) :=
  [.invoke 0 (.append ⟨[97, 98, 10], by decide⟩), .advance 0 .interrupted,
    .advance 0 .interrupted, .advance 0 .interrupted, .advance 0 .interrupted,
    .invoke 0 .flush, .advance 0 .interrupted, .advance 0 .interrupted,
    .invoke 1 (.append ⟨[99, 10], by decide⟩), .advance 1 .interrupted,
    .advance 0 (.wrote 2)]

theorem linearizable_appendWhileFlushing :
    ∃ final, (machine fun _ => 0).run appendWhileFlushing = some final ∧
      final.object.written = [97, 98] ∧ final.Exclusive := by
  refine ⟨_, rfl, rfl, ?_⟩
  have hadmits : (machine fun _ => 0).Admits (CriticalSection.Answers Answered)
      (machine fun _ => 0).start appendWhileFlushing := by
    simp [appendWhileFlushing, Machine.Admits, CriticalSection.Answers, Answered]
  exact (linearizable_lines (fun _ => 0) appendWhileFlushing _ hadmits rfl).1

/-- When a `Flush` takes effect, all the lines appended before it are in the file. -/
theorem flush_writes (cell : ℕ → UInt8)
    (state next : CriticalSection.State LogFileState Call Place Result)
    (hreached : (machine cell).ReachedBy (CriticalSection.Answers Answered) state)
    (thread : ℕ) (answer : WriteResult) (hanswered : Answered answer)
    (hstep : (machine cell).step state (.advance thread answer) = some next)
    (hflushed : next.callers thread = .unlocking .flushed) :
    next.object.written = state.object.appended.flatten ∧
      next.object.appended = state.object.appended ∧
      next.object.loop = none ∧ next.object.cur = 0 := by
  obtain ⟨config, hsim⟩ :=
    CriticalSection.simulates_of_reached implements_lines (construct_holds cell) hreached
  obtain ⟨hholds, hcur⟩ := cur_of_flushed hsim hanswered hstep hflushed
  obtain ⟨-, hbefore⟩ := object_of_simulates hsim
  have hcontents := hholds.sound.contents_eq
  rw [LogFileState.unwritten, hholds.idle, hcur] at hcontents
  simp only [Arena.read, List.append_nil] at hcontents
  rw [hcontents, hholds.appended, hbefore]
  exact ⟨rfl, rfl, hholds.idle, hcur⟩

/-- The `Flush` has written a part of its line. -/
def partlyFlushed : List (CriticalSection.Action Call WriteResult) :=
  appendWhileFlushing ++ [.advance 0 .interrupted]

theorem partlyFlushed_admits : (machine fun _ => 0).Admits (CriticalSection.Answers Answered)
    (machine fun _ => 0).start partlyFlushed := by
  simp [partlyFlushed, appendWhileFlushing, Machine.Admits, CriticalSection.Answers, Answered]

theorem flush_writes_partlyFlushed :
    ∃ state next, (machine fun _ => 0).run partlyFlushed = some state ∧
      (machine fun _ => 0).step state (.advance 0 (.wrote 1)) = some next ∧
      next.callers 0 = .unlocking .flushed ∧
      next.object.written = state.object.appended.flatten := by
  obtain ⟨state, hrun⟩ : ∃ state, (machine fun _ => 0).run partlyFlushed = some state := ⟨_, rfl⟩
  obtain ⟨next, hstep⟩ : ∃ next,
      (machine fun _ => 0).step state (.advance 0 (.wrote 1)) = some next := by
    cases hrun
    exact ⟨_, rfl⟩
  have hflushed : next.callers 0 = .unlocking .flushed := by
    cases hrun
    cases hstep
    rfl
  refine ⟨state, next, hrun, hstep, hflushed, ?_⟩
  exact (flush_writes (fun _ => 0) state next
    (Machine.ReachedBy.runFrom .start partlyFlushed_admits hrun) 0 (.wrote 1) Nat.one_pos hstep
    hflushed).1

end SynLogAppender
end BackEndFacility
