import BackEndFacility.Arena
import BackEndFacility.LogFile
import BackEndFacility.Machine

/-!
# The memory of the log file

`m_file_buff` cell by cell, and `AppendRaw` one `write(2)` at a time.  A call of
`Append` or `Flush` starts with an action of its own; each answer of `write(2)` to
the loop in `AppendRaw` is a further action.

The operations of `LogFile` are the whole calls of this machine, with the answers
collected in a script.
-/

namespace BackEndFacility

/-- The loop of `AppendRaw` over the buffer: `msg` and `len`, and the message of the
`Append` that waits for the flush. -/
structure WriteLoop where
  msg : ℕ
  len : ℕ
  pending : Option (List UInt8)
  deriving DecidableEq, Repr

/-- `appended` lists the messages of the calls of `Append` that have returned. -/
structure LogFileState where
  written : List UInt8
  fileBuff : Arena UInt8
  cur : ℕ
  loop : Option WriteLoop
  appended : List (List UInt8)

inductive LogFileAction where
  | append (msg : List UInt8)
  | flush
  | write (result : WriteResult)
  deriving DecidableEq, Repr

namespace LogFileState

/-- A new log file; the rest of its buffer may hold anything. -/
def construct (cell : ℕ → UInt8) : LogFileState where
  written := []
  fileBuff := (Arena.fresh cell).store 0 0
  cur := 0
  loop := none
  appended := []

/-- The copy at the end of `Append`. -/
def store (state : LogFileState) (msg : List UInt8) : LogFileState :=
  { state with
    fileBuff := state.fileBuff.copy state.cur msg
    cur := state.cur + msg.length
    appended := state.appended ++ [msg] }

/-- `Flush` after its loop, and then the rest of the `Append` that called it. -/
def finish (state : LogFileState) (pending : Option (List UInt8)) : LogFileState :=
  let state := { state with cur := 0, loop := none }
  match pending with
  | none => state
  | some msg => state.store msg

/-- The loop condition of `AppendRaw`. -/
def appendRaw (state : LogFileState) (msg len : ℕ) (pending : Option (List UInt8)) :
    LogFileState :=
  if len = 0 then state.finish pending else { state with loop := some ⟨msg, len, pending⟩ }

def flush (state : LogFileState) (pending : Option (List UInt8)) : LogFileState :=
  state.appendRaw 0 state.cur pending

/-- `Append`; no result when its assertion fails. -/
def append (state : LogFileState) (msg : List UInt8) : Option LogFileState :=
  if msg.length ≤ LogFile.defBuffSize then
    if LogFile.defBuffSize - msg.length < state.cur then some (state.flush (some msg))
    else some (state.store msg)
  else none

/-- The answer of `write(2)` in the loop. -/
def write (state : LogFileState) (loop : WriteLoop) : WriteResult → Option LogFileState
  | .failed => some (state.finish loop.pending)
  | .interrupted => some state
  | .wrote count =>
      if count ≤ loop.len then
        some ({ state with
          written := state.written ++ state.fileBuff.read loop.msg count }.appendRaw
            (loop.msg + count) (loop.len - count) loop.pending)
      else none

def step (state : LogFileState) (action : LogFileAction) : Option LogFileState :=
  match state.loop, action with
  | none, .append msg => state.append msg
  | none, .flush => some (state.flush none)
  | some loop, .write result => state.write loop result
  | _, _ => none

def machine (cell : ℕ → UInt8) : Machine LogFileState LogFileAction where
  start := construct cell
  step := step

/-- `write(2)` has short writes and interruptions; a write that succeeds takes at
least one byte. -/
def Writes (_ : LogFileState) : LogFileAction → Prop
  | .write .failed => False
  | .write (.wrote count) => 0 < count
  | _ => True

/-! ## Nothing is lost or written twice -/

/-- What has not been written yet: what the loop still has to write, or else the
whole of the buffer. -/
def unwritten (state : LogFileState) : List UInt8 :=
  match state.loop with
  | none => state.fileBuff.read 0 state.cur
  | some loop => state.fileBuff.read loop.msg loop.len

structure Sound (state : LogFileState) : Prop where
  cur_le : state.cur ≤ LogFile.defBuffSize
  extent_le : state.fileBuff.extent ≤ LogFile.defBuffSize
  contents_eq : state.written ++ state.unwritten = state.appended.flatten
  loop_end : ∀ loop, state.loop = some loop → 0 < loop.len ∧ loop.msg + loop.len = state.cur
  pending_le : ∀ loop msg, state.loop = some loop → loop.pending = some msg →
    msg.length ≤ LogFile.defBuffSize

theorem construct_sound (cell : ℕ → UInt8) : (construct cell).Sound where
  cur_le := Nat.zero_le _
  extent_le := by
    change max 0 1 ≤ LogFile.defBuffSize
    decide
  contents_eq := rfl
  loop_end := fun _ hloop => nomatch hloop
  pending_le := fun _ _ hloop => nomatch hloop

theorem store_sound
    {state : LogFileState} {msg : List UInt8} (hsound : state.Sound) (hidle : state.loop = none)
    (hroom : state.cur + msg.length ≤ LogFile.defBuffSize) :
    (state.store msg).Sound where
  cur_le := hroom
  extent_le := Arena.copy_extent_le hsound.extent_le hroom
  contents_eq := by
    have hbefore := hsound.contents_eq
    unfold unwritten at hbefore ⊢
    simp only [store, hidle] at hbefore ⊢
    have hread := Arena.read_copy_append state.fileBuff 0 state.cur msg
    rw [Nat.zero_add] at hread
    rw [hread, ← List.append_assoc, hbefore, List.flatten_append, List.flatten_singleton]
  loop_end := by
    intro loop hloop
    exact absurd (hidle.symm.trans hloop) (Option.some_ne_none loop).symm
  pending_le := by
    intro loop msg hloop
    exact absurd (hidle.symm.trans hloop) (Option.some_ne_none loop).symm

theorem finish_sound
    {state : LogFileState} {pending : Option (List UInt8)}
    (hextent : state.fileBuff.extent ≤ LogFile.defBuffSize)
    (hwritten : state.written = state.appended.flatten)
    (hpending : ∀ msg, pending = some msg → msg.length ≤ LogFile.defBuffSize) :
    (state.finish pending).Sound := by
  have hempty : ({ state with cur := 0, loop := none } : LogFileState).Sound :=
    { cur_le := Nat.zero_le _
      extent_le := hextent
      contents_eq := by
        rw [← hwritten]
        exact List.append_nil state.written
      loop_end := fun _ hloop => nomatch hloop
      pending_le := fun _ _ hloop => nomatch hloop }
  cases pending with
  | none => exact hempty
  | some msg =>
      refine store_sound hempty rfl ?_
      rw [Nat.zero_add]
      exact hpending msg rfl

theorem appendRaw_sound
    {state : LogFileState} {msg len : ℕ} {pending : Option (List UInt8)}
    (hcur : state.cur ≤ LogFile.defBuffSize)
    (hextent : state.fileBuff.extent ≤ LogFile.defBuffSize)
    (hcontents : state.written ++ state.fileBuff.read msg len = state.appended.flatten)
    (hend : msg + len = state.cur)
    (hpending : ∀ msg, pending = some msg → msg.length ≤ LogFile.defBuffSize) :
    (state.appendRaw msg len pending).Sound := by
  unfold appendRaw
  split_ifs with hlen
  · refine finish_sound hextent ?_ hpending
    rw [hlen, Arena.read, List.append_nil] at hcontents
    exact hcontents
  · refine ⟨hcur, hextent, hcontents, ?_, ?_⟩
    · intro loop hloop
      cases hloop
      exact ⟨Nat.pos_of_ne_zero hlen, hend⟩
    · intro loop msg hloop hmsg
      cases hloop
      exact hpending msg hmsg

theorem flush_sound
    {state : LogFileState} {pending : Option (List UInt8)} (hsound : state.Sound)
    (hidle : state.loop = none)
    (hpending : ∀ msg, pending = some msg → msg.length ≤ LogFile.defBuffSize) :
    (state.flush pending).Sound := by
  have hcontents := hsound.contents_eq
  unfold unwritten at hcontents
  rw [hidle] at hcontents
  exact appendRaw_sound hsound.cur_le hsound.extent_le hcontents (Nat.zero_add state.cur) hpending

theorem append_sound
    {state next : LogFileState} {msg : List UInt8} (hsound : state.Sound)
    (hidle : state.loop = none) (happend : state.append msg = some next) :
    next.Sound := by
  unfold append at happend
  split_ifs at happend with hassert hfull
  · cases happend
    refine flush_sound hsound hidle fun msg hmsg => ?_
    cases hmsg
    exact hassert
  · cases happend
    exact store_sound hsound hidle (by omega)

theorem write_sound
    {state next : LogFileState} {loop : WriteLoop} {result : WriteResult}
    (hsound : state.Sound) (hloop : state.loop = some loop)
    (hwrites : state.Writes (.write result)) (hwrite : state.write loop result = some next) :
    next.Sound := by
  cases result with
  | failed => exact hwrites.elim
  | interrupted =>
      cases hwrite
      exact hsound
  | wrote count =>
      have hcontents := hsound.contents_eq
      obtain ⟨-, hend⟩ := hsound.loop_end loop hloop
      unfold unwritten at hcontents
      rw [hloop] at hcontents
      simp only [write] at hwrite
      split_ifs at hwrite with hcount
      cases hwrite
      refine appendRaw_sound hsound.cur_le hsound.extent_le ?_ (by simp only; omega)
        (fun msg hmsg => hsound.pending_le loop msg hloop hmsg)
      have hsplit := Arena.read_add state.fileBuff loop.msg count (loop.len - count)
      rw [Nat.add_sub_of_le hcount] at hsplit
      rw [List.append_assoc, ← hsplit]
      exact hcontents

theorem step_sound
    {state next : LogFileState} {action : LogFileAction} (hsound : state.Sound)
    (hwrites : state.Writes action) (hstep : state.step action = some next) :
    next.Sound := by
  unfold step at hstep
  split at hstep
  · rename_i hidle
    exact append_sound hsound hidle hstep
  · rename_i hidle
    cases hstep
    exact flush_sound hsound hidle fun msg hmsg => nomatch hmsg
  · rename_i hloop
    exact write_sound hsound hloop hwrites hstep
  · cases hstep

theorem sound_of_writes
    {cell : ℕ → UInt8} {state : LogFileState}
    (hreached : (machine cell).ReachedBy Writes state) :
    state.Sound :=
  hreached.invariant Sound (construct_sound cell)
    (fun _ _ _ hsound hwrites hstep => step_sound hsound hwrites hstep)

/-! ## The loop ends -/

/-- The answers in which `write(2)` took something. -/
def successes (results : List WriteResult) : ℕ :=
  results.countP fun result => result ≠ .interrupted

theorem write_progress
    {state next : LogFileState} {loop left : WriteLoop} {result : WriteResult}
    (hloop : state.loop = some loop) (hwrites : state.Writes (.write result))
    (hwrite : state.write loop result = some next) (hleft : next.loop = some left) :
    successes [result] + left.len ≤ loop.len := by
  cases result with
  | failed => exact hwrites.elim
  | interrupted =>
      cases hwrite
      rw [hloop] at hleft
      cases hleft
      exact (Nat.zero_add loop.len).le
  | wrote count =>
      have hpos : 0 < count := hwrites
      have hone : successes [.wrote count] = 1 := rfl
      simp only [write] at hwrite
      split_ifs at hwrite with hcount
      cases hwrite
      unfold appendRaw at hleft
      split_ifs at hleft with hlen
      · cases hpending : loop.pending with
        | none =>
            rw [hpending] at hleft
            cases hleft
        | some msg =>
            rw [hpending] at hleft
            cases hleft
      · cases hleft
        simp only [hone]
        omega

theorem writes_progress
    {cell : ℕ → UInt8} {state final : LogFileState} {loop left : WriteLoop}
    {results : List WriteResult} (hloop : state.loop = some loop)
    (hwrites : ∀ result ∈ results, state.Writes (.write result))
    (hrun : (machine cell).runFrom state (results.map .write) = some final)
    (hleft : final.loop = some left) :
    successes results + left.len ≤ loop.len := by
  induction results generalizing state loop with
  | nil =>
      cases hrun
      rw [hloop, Option.some.injEq] at hleft
      rw [hleft]
      exact (Nat.zero_add left.len).le
  | cons result rest ih =>
      have hsplit : successes (result :: rest) = successes [result] + successes rest := by
        unfold successes
        rw [← List.countP_append]
        rfl
      have hhead := hwrites result List.mem_cons_self
      simp only [List.map_cons, Machine.runFrom, machine, step, hloop] at hrun
      cases hwrite : state.write loop result with
      | none => simp [hwrite] at hrun
      | some next =>
          simp only [hwrite] at hrun
          cases hnext : next.loop with
          | none =>
              cases rest with
              | nil =>
                  cases hrun
                  rw [hnext] at hleft
                  cases hleft
              | cons other rest => simp [Machine.runFrom, step, hnext] at hrun
          | some middle =>
              have hfirst := write_progress hloop hhead hwrite hnext
              have hlater := ih hnext
                (fun result hmem => hwrites result (List.mem_cons_of_mem _ hmem)) hrun
              omega

theorem admits_writes
    {cell : ℕ → UInt8} {state : LogFileState} {results : List WriteResult}
    (hwrites : ∀ result ∈ results, state.Writes (.write result)) :
    (machine cell).Admits Writes state (results.map .write) := by
  induction results generalizing state with
  | nil => trivial
  | cons result rest ih =>
      exact ⟨hwrites result List.mem_cons_self, fun next _ =>
        ih fun result hmem => hwrites result (List.mem_cons_of_mem _ hmem)⟩

/-- Buffering is transparent: whatever short writes and interruptions there are, the
bytes written and what stands in the buffer are the messages in order.  Also while
the buffer is being written nothing is missing or doubled, and the loop is over
after as many successful writes as it had bytes to write. -/
theorem buffering_transparent
    {cell : ℕ → UInt8} {state : LogFileState}
    (hreached : (machine cell).ReachedBy Writes state) :
    state.cur ≤ LogFile.defBuffSize ∧
      state.fileBuff.extent ≤ LogFile.defBuffSize ∧
      (state.loop = none →
        state.written ++ state.fileBuff.read 0 state.cur = state.appended.flatten) ∧
      ∀ loop, state.loop = some loop →
        state.written ++ state.fileBuff.read loop.msg loop.len = state.appended.flatten ∧
          ∀ results final, (∀ result ∈ results, state.Writes (.write result)) →
            (machine cell).runFrom state (results.map .write) = some final →
            loop.len ≤ successes results → final.loop = none := by
  have hsound := sound_of_writes hreached
  have hcontents := hsound.contents_eq
  refine ⟨hsound.cur_le, hsound.extent_le, fun hidle => ?_, fun loop hloop => ⟨?_, ?_⟩⟩
  · unfold unwritten at hcontents
    rw [hidle] at hcontents
    exact hcontents
  · unfold unwritten at hcontents
    rw [hloop] at hcontents
    exact hcontents
  · intro results final hwrites hrun henough
    have hlast := sound_of_writes (hreached.runFrom (admits_writes hwrites) hrun)
    cases hfinal : final.loop with
    | none => rfl
    | some left =>
        have hprogress := writes_progress hloop hwrites hrun hfinal
        have hpos := (hlast.loop_end left hfinal).1
        omega

/-- A message is appended; the flush is interrupted, then written in two pieces. -/
def twoPieces : List LogFileAction :=
  [.append [97, 98, 99], .flush, .write .interrupted, .write (.wrote 2)]

theorem buffering_transparent_twoPieces :
    ∃ state, (machine fun _ => 0).run twoPieces = some state ∧
      state.loop = some ⟨2, 1, none⟩ ∧ state.cur ≤ LogFile.defBuffSize ∧
      state.written ++ state.fileBuff.read 2 1 = [97, 98, 99] := by
  have hrun : ∃ state, (machine fun _ => 0).run twoPieces = some state ∧
      state.loop = some ⟨2, 1, none⟩ ∧ state.appended = [[97, 98, 99]] := ⟨_, rfl, rfl, rfl⟩
  obtain ⟨state, hrun, hloop, happended⟩ := hrun
  have hadmits : (machine fun _ => 0).Admits Writes (machine fun _ => 0).start twoPieces :=
    ⟨trivial, fun _ _ => ⟨trivial, fun _ _ => ⟨trivial, fun _ _ =>
      ⟨Nat.two_pos, fun _ _ => trivial⟩⟩⟩⟩
  obtain ⟨hcur, -, -, hlooping⟩ := buffering_transparent (.runFrom .start hadmits hrun)
  have hcontents := (hlooping _ hloop).1
  rw [happended] at hcontents
  exact ⟨state, hrun, hloop, hcur, hcontents⟩

/-! ## Whole calls -/

/-- What `LogFile` keeps of the memory. -/
def file (state : LogFileState) : LogFile :=
  ⟨state.written, state.fileBuff.read 0 state.cur⟩

theorem file_store (state : LogFileState) (msg : List UInt8) :
    (state.store msg).file = { state.file with fileBuff := state.file.fileBuff ++ msg } := by
  have hread := Arena.read_copy_append state.fileBuff 0 state.cur msg
  rw [Nat.zero_add] at hread
  unfold file store
  simp only [hread]

theorem finish_loop (state : LogFileState) (pending : Option (List UInt8)) :
    (state.finish pending).loop = none := by
  cases pending with
  | none => rfl
  | some msg => rfl

theorem appendRaw_setLoop (state : LogFileState) (loop : Option WriteLoop) (msg len : ℕ)
    (pending : Option (List UInt8)) :
    ({ state with loop := loop }.appendRaw msg len pending) = state.appendRaw msg len pending := by
  unfold appendRaw
  split_ifs
  · cases pending with
    | none => rfl
    | some msg => rfl
  · rfl

theorem appendRaw_wrote (fileBuff : Arena UInt8) {msg len count : ℕ} {written : List UInt8}
    {rest : List WriteResult} (hlen : 0 < len) :
    LogFile.appendRaw (.wrote count :: rest) (fileBuff.read msg len) written =
      if count ≤ len then
        LogFile.appendRaw rest (fileBuff.read (msg + count) (len - count))
          (written ++ fileBuff.read msg count)
      else none := by
  obtain ⟨len, rfl⟩ := Nat.exists_eq_succ_of_ne_zero hlen.ne'
  rw [Arena.read, LogFile.appendRaw, ← Arena.read, Arena.read_length]
  split_ifs with hcount
  · have hsplit := Arena.read_add fileBuff msg count (len + 1 - count)
    rw [Nat.add_sub_of_le hcount] at hsplit
    rw [hsplit, List.drop_left' (Arena.read_length _ _ _),
      List.take_left' (Arena.read_length _ _ _)]
  · rfl

theorem appendRaw_runs
    {cell : ℕ → UInt8} {state : LogFileState} {msg len : ℕ} {after : List UInt8}
    {script rest : List WriteResult} (pending : Option (List UInt8))
    (happend : LogFile.appendRaw script (state.fileBuff.read msg len) state.written =
      some (after, rest)) :
    ∃ used, script = used ++ rest ∧
      (machine cell).runFrom (state.appendRaw msg len pending) (used.map .write) =
        some ({ state with written := after }.finish pending) := by
  induction script generalizing state msg len with
  | nil =>
      cases len with
      | zero =>
          cases happend
          exact ⟨[], rfl, rfl⟩
      | succ len => cases happend
  | cons result script ih =>
      cases len with
      | zero =>
          cases happend
          exact ⟨[], rfl, rfl⟩
      | succ len =>
          cases result with
          | failed =>
              cases happend
              refine ⟨[.failed], rfl, ?_⟩
              cases pending with
              | none => rfl
              | some msg => rfl
          | interrupted =>
              rw [Arena.read, LogFile.appendRaw, ← Arena.read] at happend
              obtain ⟨used, hscript, hrun⟩ := ih happend
              exact ⟨.interrupted :: used, congrArg (List.cons _) hscript, hrun⟩
          | wrote count =>
              rw [appendRaw_wrote state.fileBuff (Nat.succ_pos len)] at happend
              split_ifs at happend with hcount
              obtain ⟨used, hscript, hrun⟩ := @ih
                { state with written := state.written ++ state.fileBuff.read msg count }
                (msg + count) (len + 1 - count) happend
              refine ⟨.wrote count :: used, congrArg (List.cons _) hscript, ?_⟩
              have hstep : (machine cell).step (state.appendRaw msg (len + 1) pending)
                  (.write (.wrote count)) = some ({ state with
                    written := state.written ++ state.fileBuff.read msg count }.appendRaw
                      (msg + count) (len + 1 - count) pending) := by
                rw [← appendRaw_setLoop _ (some ⟨msg, len + 1, pending⟩)]
                exact if_pos hcount
              rw [List.map_cons, Machine.runFrom, hstep]
              exact hrun

theorem flush_runs
    {cell : ℕ → UInt8} {state : LogFileState} {script rest : List WriteResult} {after : LogFile}
    (pending : Option (List UInt8)) (hflush : state.file.flush script = some (after, rest)) :
    ∃ used, script = used ++ rest ∧
      (machine cell).runFrom (state.flush pending) (used.map .write) =
        some ({ state with written := after.written }.finish pending) ∧ after.fileBuff = [] := by
  unfold LogFile.flush at hflush
  split at hflush
  · cases hflush
  · rename_i written left happend
    cases hflush
    obtain ⟨used, hscript, hrun⟩ := appendRaw_runs pending happend
    exact ⟨used, hscript, hrun, rfl⟩

theorem append_runs
    {cell : ℕ → UInt8} {state : LogFileState} {msg : List UInt8} {script rest : List WriteResult}
    {after : LogFile} (hidle : state.loop = none) (hassert : msg.length ≤ LogFile.defBuffSize)
    (happend : state.file.append script msg = some (after, rest)) :
    ∃ used final, script = used ++ rest ∧
      (machine cell).runFrom state (.append msg :: used.map .write) = some final ∧
      final.loop = none ∧ final.file = after := by
  have hlength : state.file.fileBuff.length = state.cur := Arena.read_length _ _ _
  have hstep : (machine cell).step state (.append msg) =
      if LogFile.defBuffSize - msg.length < state.cur then some (state.flush (some msg))
      else some (state.store msg) := by
    simp only [machine, step, hidle, append, if_pos hassert]
  unfold LogFile.append at happend
  rw [hlength] at happend
  split_ifs at happend with hfull
  · split at happend
    · cases happend
    · rename_i flushed left hflush
      cases happend
      obtain ⟨used, hscript, hrun, hempty⟩ := @flush_runs cell state _ _ _ (some msg) hflush
      refine ⟨used, { state with written := flushed.written }.finish (some msg), hscript, ?_,
        finish_loop _ (some msg), ?_⟩
      · rw [Machine.runFrom, hstep, if_pos hfull]
        exact hrun
      · change (store _ msg).file = _
        rw [file_store, hempty]
        rfl
  · cases happend
    refine ⟨[], state.store msg, rfl, ?_, hidle, file_store state msg⟩
    rw [List.map_nil, Machine.runFrom, hstep, if_neg hfull]
    rfl

end LogFileState

/-! ## Sequences of calls -/

/-- What the callers of the log file ask for. -/
inductive LogFileCall where
  | append (msg : List UInt8)
  | flush
  deriving DecidableEq, Repr

namespace LogFileCall

/-- The call as one operation on `LogFile`; no result when an assertion fails or when the
script ends before the call does. -/
def perform (call : LogFileCall) (script : List WriteResult) (file : LogFile) :
    Option (LogFile × List WriteResult) :=
  match call with
  | .append msg =>
      if msg.length ≤ LogFile.defBuffSize then file.append script msg else none
  | .flush => file.flush script

def performAll :
    List LogFileCall → List WriteResult → LogFile → Option (LogFile × List WriteResult)
  | [], script, file => some (file, script)
  | call :: rest, script, file =>
      match call.perform script file with
      | none => none
      | some (after, left) => performAll rest left after

def action : LogFileCall → LogFileAction
  | .append msg => .append msg
  | .flush => .flush

end LogFileCall

namespace LogFileAction

/-- The calls of a schedule. -/
def calls : List LogFileAction → List LogFileCall
  | [] => []
  | .append msg :: rest => .append msg :: calls rest
  | .flush :: rest => .flush :: calls rest
  | .write _ :: rest => calls rest

/-- The answers of `write(2)` in a schedule. -/
def answers : List LogFileAction → List WriteResult
  | [] => []
  | .write result :: rest => result :: answers rest
  | _ :: rest => answers rest

theorem calls_call (call : LogFileCall) (results : List WriteResult)
    (rest : List LogFileAction) :
    calls (call.action :: results.map .write ++ rest) = call :: calls rest := by
  have hwrites : calls (results.map .write ++ rest) = calls rest := by
    induction results with
    | nil => rfl
    | cons result results ih => exact ih
  cases call with
  | append msg => exact congrArg (List.cons _) hwrites
  | flush => exact congrArg (List.cons _) hwrites

theorem answers_call (call : LogFileCall) (results : List WriteResult)
    (rest : List LogFileAction) :
    answers (call.action :: results.map .write ++ rest) = results ++ answers rest := by
  have hwrites : answers (results.map .write ++ rest) = results ++ answers rest := by
    induction results with
    | nil => rfl
    | cons result results ih => exact congrArg (List.cons result) ih
  cases call with
  | append msg => exact hwrites
  | flush => exact hwrites

end LogFileAction

namespace LogFileState

open LogFileAction (calls answers)

theorem call_runs
    {cell : ℕ → UInt8} {state : LogFileState} {call : LogFileCall}
    {script rest : List WriteResult} {after : LogFile} (hidle : state.loop = none)
    (hperform : call.perform script state.file = some (after, rest)) :
    ∃ used final, script = used ++ rest ∧
      (machine cell).runFrom state (call.action :: used.map .write) = some final ∧
      final.loop = none ∧ final.file = after := by
  cases call with
  | append msg =>
      simp only [LogFileCall.perform] at hperform
      split_ifs at hperform with hassert
      exact append_runs hidle hassert hperform
  | flush =>
      obtain ⟨used, hscript, hrun, hempty⟩ := @flush_runs cell state _ _ _ none hperform
      refine ⟨used, { state with written := after.written }.finish none, hscript, ?_, rfl, ?_⟩
      · have hstep : (machine cell).step state .flush = some (state.flush none) := by
          simp only [machine, step, hidle]
        rw [LogFileCall.action, Machine.runFrom, hstep]
        exact hrun
      · cases after
        cases hempty
        rfl

theorem performAll_runs
    {cell : ℕ → UInt8} {state : LogFileState} {asked : List LogFileCall}
    {script : List WriteResult} {after : LogFile} (hidle : state.loop = none)
    (hperform : LogFileCall.performAll asked script state.file = some (after, [])) :
    ∃ schedule final, calls schedule = asked ∧ answers schedule = script ∧
      (machine cell).runFrom state schedule = some final ∧
      final.loop = none ∧ final.file = after := by
  induction asked generalizing state script with
  | nil =>
      cases hperform
      exact ⟨[], state, rfl, rfl, rfl, hidle, rfl⟩
  | cons call asked ih =>
      unfold LogFileCall.performAll at hperform
      split at hperform
      · cases hperform
      · rename_i middle left hcall
        obtain ⟨used, next, hscript, hfirst, hnext, hfile⟩ := @call_runs cell _ _ _ _ _ hidle hcall
        rw [← hfile] at hperform
        obtain ⟨schedule, final, hcalls, hanswers, hsecond, hfinal⟩ := ih hnext hperform
        refine ⟨call.action :: used.map .write ++ schedule, final, ?_, ?_,
          Machine.runFrom_append hfirst hsecond, hfinal⟩
        · rw [LogFileAction.calls_call, hcalls]
        · rw [LogFileAction.answers_call, hanswers, hscript]

/-- The rest of a run performs the calls in it with the answers in it; the first of these are
for the loop that is under way. -/
def Performs (schedule : List LogFileAction) (final state : LogFileState) : Prop :=
  match state.loop with
  | none =>
      LogFileCall.performAll (calls schedule) (answers schedule) state.file =
        some (final.file, [])
  | some loop =>
      ∃ written rest,
        LogFile.appendRaw (answers schedule) (state.fileBuff.read loop.msg loop.len)
          state.written = some (written, rest) ∧
        LogFileCall.performAll (calls schedule) rest
          ({ state with written := written }.finish loop.pending).file = some (final.file, [])

theorem appendRaw_performs
    {schedule : List LogFileAction} {final state : LogFileState} {msg len : ℕ}
    {pending : Option (List UInt8)}
    (hperforms : Performs schedule final (state.appendRaw msg len pending)) :
    ∃ written rest,
      LogFile.appendRaw (answers schedule) (state.fileBuff.read msg len) state.written =
        some (written, rest) ∧
      LogFileCall.performAll (calls schedule) rest
        ({ state with written := written }.finish pending).file = some (final.file, []) := by
  unfold appendRaw at hperforms
  split_ifs at hperforms with hlen
  · unfold Performs at hperforms
    rw [finish_loop] at hperforms
    subst hlen
    exact ⟨state.written, answers schedule, by rw [Arena.read, LogFile.appendRaw], hperforms⟩
  · obtain ⟨written, rest, happend, hrest⟩ := hperforms
    refine ⟨written, rest, happend, ?_⟩
    cases pending with
    | none => exact hrest
    | some msg => exact hrest

theorem flush_performs
    {schedule : List LogFileAction} {final state : LogFileState} {pending : Option (List UInt8)}
    (hperforms : Performs schedule final (state.flush pending)) :
    ∃ flushed rest, state.file.flush (answers schedule) = some (flushed, rest) ∧
      flushed.fileBuff = [] ∧
      LogFileCall.performAll (calls schedule) rest
        ({ state with written := flushed.written }.finish pending).file =
          some (final.file, []) := by
  obtain ⟨written, rest, happend, hrest⟩ := appendRaw_performs hperforms
  refine ⟨⟨written, []⟩, rest, ?_, rfl, hrest⟩
  change LogFile.appendRaw (answers schedule) state.file.fileBuff state.file.written = _ at happend
  rw [LogFile.flush, happend]

theorem append_performs
    {schedule : List LogFileAction} {final state next : LogFileState} {msg : List UInt8}
    (hidle : state.loop = none) (happend : state.append msg = some next)
    (hperforms : Performs schedule final next) :
    Performs (.append msg :: schedule) final state := by
  have hlength : state.file.fileBuff.length = state.cur := Arena.read_length _ _ _
  unfold Performs
  rw [hidle]
  simp only [calls, answers, LogFileCall.performAll, LogFileCall.perform]
  unfold append at happend
  split_ifs at happend with hassert hfull
  · cases happend
    obtain ⟨flushed, rest, hflush, hempty, hrest⟩ := flush_performs hperforms
    have hfile : ({ state with written := flushed.written }.finish (some msg)).file =
        { flushed with fileBuff := flushed.fileBuff ++ msg } := by
      change (store _ msg).file = _
      rw [file_store, hempty]
      rfl
    rw [hfile] at hrest
    rw [if_pos hassert, LogFile.append, hlength, if_pos hfull, hflush]
    exact hrest
  · cases happend
    unfold Performs at hperforms
    rw [show (state.store msg).loop = none from hidle, file_store] at hperforms
    rw [if_pos hassert, LogFile.append, hlength, if_neg hfull]
    exact hperforms

theorem write_performs
    {schedule : List LogFileAction} {final state next : LogFileState} {loop : WriteLoop}
    {result : WriteResult} (hloop : state.loop = some loop) (hpos : 0 < loop.len)
    (hwrite : state.write loop result = some next) (hperforms : Performs schedule final next) :
    Performs (.write result :: schedule) final state := by
  obtain ⟨len, hlen⟩ := Nat.exists_eq_succ_of_ne_zero hpos.ne'
  cases result with
  | failed =>
      cases hwrite
      unfold Performs at hperforms ⊢
      rw [finish_loop] at hperforms
      rw [hloop]
      refine ⟨state.written, answers schedule, ?_, hperforms⟩
      rw [hlen, Arena.read, answers, LogFile.appendRaw]
  | interrupted =>
      cases hwrite
      unfold Performs at hperforms ⊢
      rw [hloop] at hperforms ⊢
      obtain ⟨written, rest, happend, hrest⟩ := hperforms
      refine ⟨written, rest, ?_, hrest⟩
      rw [hlen, Arena.read] at happend ⊢
      rw [answers, LogFile.appendRaw]
      exact happend
  | wrote count =>
      simp only [write] at hwrite
      split_ifs at hwrite with hcount
      cases hwrite
      obtain ⟨written, rest, happend, hrest⟩ := appendRaw_performs hperforms
      unfold Performs
      rw [hloop]
      refine ⟨written, rest, ?_, ?_⟩
      · rw [answers, appendRaw_wrote state.fileBuff hpos, if_pos hcount]
        exact happend
      · cases hpending : loop.pending with
        | none =>
            rw [hpending] at hrest
            exact hrest
        | some msg =>
            rw [hpending] at hrest
            exact hrest

/-- A loop that goes on has something to write. -/
def Waits (state : LogFileState) : Prop := ∀ loop, state.loop = some loop → 0 < loop.len

theorem appendRaw_waits (state : LogFileState) (msg len : ℕ) (pending : Option (List UInt8)) :
    (state.appendRaw msg len pending).Waits := by
  intro loop hloop
  unfold appendRaw at hloop
  split_ifs at hloop with hlen
  · rw [finish_loop] at hloop
    cases hloop
  · cases hloop
    exact Nat.pos_of_ne_zero hlen

theorem step_waits
    {state next : LogFileState} {action : LogFileAction} (hwaits : state.Waits)
    (hstep : state.step action = some next) : next.Waits := by
  unfold step at hstep
  split at hstep
  · rename_i hidle
    unfold append at hstep
    split_ifs at hstep
    · cases hstep
      exact appendRaw_waits _ _ _ _
    · cases hstep
      exact fun loop hloop => hwaits loop hloop
  · cases hstep
    exact appendRaw_waits _ _ _ _
  · rename_i loop result hloop
    cases result with
    | failed =>
        cases hstep
        intro loop hloop
        rw [finish_loop] at hloop
        cases hloop
    | interrupted =>
        cases hstep
        exact hwaits
    | wrote count =>
        simp only [write] at hstep
        split_ifs at hstep
        cases hstep
        exact appendRaw_waits _ _ _ _
  · cases hstep

theorem step_performs
    {schedule : List LogFileAction} {final state next : LogFileState} {action : LogFileAction}
    (hwaits : state.Waits) (hstep : state.step action = some next)
    (hperforms : Performs schedule final next) :
    Performs (action :: schedule) final state := by
  unfold step at hstep
  split at hstep
  · rename_i hidle
    exact append_performs hidle hstep hperforms
  · rename_i hidle
    cases hstep
    obtain ⟨flushed, rest, hflush, hempty, hrest⟩ := flush_performs hperforms
    have hfile : ({ state with written := flushed.written }.finish none).file = flushed := by
      cases flushed
      cases hempty
      rfl
    unfold Performs
    rw [hidle]
    simp only [calls, answers, LogFileCall.performAll, LogFileCall.perform, hflush]
    rwa [hfile] at hrest
  · rename_i loop result hloop
    exact write_performs hloop (hwaits loop hloop) hstep hperforms
  · cases hstep

theorem run_performs
    {cell : ℕ → UInt8} {schedule : List LogFileAction} {final state : LogFileState}
    (hwaits : state.Waits) (hrun : (machine cell).runFrom state schedule = some final)
    (hidle : final.loop = none) : Performs schedule final state := by
  induction schedule generalizing state with
  | nil =>
      cases hrun
      unfold Performs
      rw [hidle]
      rfl
  | cons action schedule ih =>
      unfold Machine.runFrom at hrun
      split at hrun
      · cases hrun
      · rename_i next hstep
        exact step_performs hwaits hstep (ih (step_waits hwaits hstep) hrun)

/-- Call by call and one `write(2)` at a time are the same thing: a sequence of calls with the
answers that it gets leaves behind a log file just when the machine can come to it with these
calls and these answers. -/
theorem performAll_iff_run (cell : ℕ → UInt8) (asked : List LogFileCall)
    (script : List WriteResult) (file : LogFile) :
    LogFileCall.performAll asked script ⟨[], []⟩ = some (file, []) ↔
      ∃ schedule final, calls schedule = asked ∧ answers schedule = script ∧
        (machine cell).run schedule = some final ∧ final.loop = none ∧ final.file = file := by
  constructor
  · exact fun hperform => @performAll_runs cell (construct cell) asked script file rfl hperform
  · rintro ⟨schedule, final, rfl, rfl, hrun, hidle, rfl⟩
    have hwaits : (construct cell).Waits := by
      intro loop hloop
      cases hloop
    exact run_performs hwaits hrun hidle

end LogFileState

end BackEndFacility
