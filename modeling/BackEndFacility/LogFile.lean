import Mathlib.Data.List.Basic
import Mathlib.Tactic

/-!
# The buffered log file of `slog/LogFileAppender.cc`

The log file collects messages in a buffer of fixed size and hands the buffer
to `write(2)`.  What `write(2)` answers is given as a script, one result for
each call; a script that ends before the data is written stands for a call
that has not returned yet.
-/

namespace BackEndFacility

inductive WriteResult where
  | wrote (count : ℕ)
  | interrupted
  | failed
  deriving DecidableEq, Repr

/-- `S_DEF_BUFF_SZ`. -/
def LogFile.defBuffSize : ℕ := 256 * 1024

/-- The bytes written to the descriptor, and `m_file_buff[0..m_cur)`. -/
structure LogFile where
  written : List UInt8
  fileBuff : List UInt8
  deriving DecidableEq, Repr

namespace LogFile

/-- The bytes `AppendRaw` has written when it returns, and what is left of
the script.  A count beyond the bytes offered is not an answer of `write(2)`. -/
def appendRaw : List WriteResult → List UInt8 → List UInt8 →
    Option (List UInt8 × List WriteResult)
  | script, [], written => some (written, script)
  | [], _ :: _, _ => none
  | .failed :: rest, _ :: _, written => some (written, rest)
  | .interrupted :: rest, byte :: msg, written =>
      appendRaw rest (byte :: msg) written
  | .wrote count :: rest, byte :: msg, written =>
      if count ≤ (byte :: msg).length then
        appendRaw rest ((byte :: msg).drop count)
          (written ++ (byte :: msg).take count)
      else none

def flush (script : List WriteResult) (file : LogFile) :
    Option (LogFile × List WriteResult) :=
  match appendRaw script file.fileBuff file.written with
  | none => none
  | some (written, rest) => some (⟨written, []⟩, rest)

/-- `Append`, for a message that passes its assertion. -/
def append (script : List WriteResult) (file : LogFile) (msg : List UInt8) :
    Option (LogFile × List WriteResult) :=
  if defBuffSize - msg.length < file.fileBuff.length then
    match file.flush script with
    | none => none
    | some (flushed, rest) =>
        some ({ flushed with fileBuff := flushed.fileBuff ++ msg }, rest)
  else
    some ({ file with fileBuff := file.fileBuff ++ msg }, script)

/-- `write(2)` has short writes and interruptions, and no other failure. -/
def Reliable (script : List WriteResult) : Prop := .failed ∉ script

/-- What has been handed to the file so far. -/
def contents (file : LogFile) : List UInt8 := file.written ++ file.fileBuff

theorem appendRaw_written {script rest : List WriteResult}
    {msg before after : List UInt8} (hreliable : Reliable script)
    (hrun : appendRaw script msg before = some (after, rest)) :
    after = before ++ msg := by
  induction script generalizing msg before with
  | nil =>
      cases msg with
      | nil =>
          simp only [appendRaw, Option.some.injEq, Prod.mk.injEq] at hrun
          simpa using hrun.1.symm
      | cons byte msg => simp [appendRaw] at hrun
  | cons result script ih =>
      have hrest : Reliable script := fun hmem =>
        hreliable (List.mem_cons_of_mem result hmem)
      cases msg with
      | nil =>
          simp only [appendRaw, Option.some.injEq, Prod.mk.injEq] at hrun
          simpa using hrun.1.symm
      | cons byte msg =>
          cases result with
          | failed => exact absurd List.mem_cons_self hreliable
          | interrupted =>
              rw [appendRaw] at hrun
              exact ih hrest hrun
          | wrote count =>
              rw [appendRaw] at hrun
              split at hrun
              · rw [ih hrest hrun, List.append_assoc,
                  List.take_append_drop]
              · cases hrun

theorem appendRaw_rest {script rest : List WriteResult}
    {msg before after : List UInt8}
    (hrun : appendRaw script msg before = some (after, rest)) :
    rest <:+ script := by
  induction script generalizing msg before with
  | nil =>
      cases msg with
      | nil =>
          cases hrun
          exact List.suffix_refl _
      | cons byte msg => cases hrun
  | cons result script ih =>
      cases msg with
      | nil =>
          cases hrun
          exact List.suffix_refl _
      | cons byte msg =>
          have hlater : script <:+ result :: script := List.suffix_cons result script
          cases result with
          | failed =>
              cases hrun
              exact hlater
          | interrupted =>
              rw [appendRaw] at hrun
              exact (ih hrun).trans hlater
          | wrote count =>
              rw [appendRaw] at hrun
              split at hrun
              · exact (ih hrun).trans hlater
              · cases hrun

theorem Reliable.rest {script rest : List WriteResult}
    (hreliable : Reliable script) (hsuffix : rest <:+ script) :
    Reliable rest :=
  fun hmem => hreliable (hsuffix.subset hmem)

/-- One answer is enough when it takes all that is offered. -/
theorem appendRaw_whole (msg before : List UInt8) :
    ∃ script, Reliable script ∧ ∀ rest,
      appendRaw (script ++ rest) msg before = some (before ++ msg, rest) := by
  cases msg with
  | nil =>
      refine ⟨[], by simp [Reliable], fun rest => ?_⟩
      cases rest <;> simp [appendRaw]
  | cons byte msg =>
      refine ⟨[.wrote (byte :: msg).length], by simp [Reliable], fun rest => ?_⟩
      rw [List.singleton_append, appendRaw, if_pos le_rfl, List.drop_length,
        List.take_length]
      cases rest <;> rfl

theorem flush_contents {script rest : List WriteResult}
    {file after : LogFile} (hreliable : Reliable script)
    (hrun : file.flush script = some (after, rest)) :
    after.contents = file.contents ∧ after.fileBuff = [] := by
  unfold flush at hrun
  split at hrun
  · cases hrun
  next written left hwritten =>
      obtain ⟨rfl, -⟩ := Prod.mk.inj (Option.some.inj hrun)
      have hall := appendRaw_written hreliable hwritten
      simp [contents, hall]

theorem append_contents {script rest : List WriteResult}
    {file after : LogFile} {msg : List UInt8} (hreliable : Reliable script)
    (hrun : file.append script msg = some (after, rest)) :
    after.contents = file.contents ++ msg := by
  unfold append at hrun
  split at hrun
  · split at hrun
    · cases hrun
    next flushed left hflush =>
        obtain ⟨hcontents, -⟩ := flush_contents hreliable hflush
        obtain ⟨rfl, -⟩ := Prod.mk.inj (Option.some.inj hrun)
        rw [← hcontents]
        simp [contents]
  · obtain ⟨rfl, -⟩ := Prod.mk.inj (Option.some.inj hrun)
    simp [contents]

end LogFile

end BackEndFacility
