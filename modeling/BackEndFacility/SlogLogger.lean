import BackEndFacility.CacheTimeStamp
import BackEndFacility.LogStream

/-!
# Log statements of `slog/Logger.cc`

A statement makes a `Logger`, whose constructor writes the time and the level into a
stream of its own, puts its values there, and hands the line to the appender when the
`Logger` is destroyed.  The time stamps of a thread share one cached text.

A failed assertion ends the process, and so does a statement of the level `LL_ABORT`,
after its line was handed over.
-/

namespace BackEndFacility
namespace SlogLogger

open CacheTimeStamp (Cache Tm FourDigitYear fmtSec fmtSecLength msPerSec)

inductive LogLevel where
  | trace
  | debug
  | info
  | warn
  | error
  | fatal
  | abort
  deriving DecidableEq, Repr

/-- The enumerator as a number. -/
def LogLevel.value : LogLevel → ℕ
  | .trace => 0
  | .debug => 1
  | .info => 2
  | .warn => 3
  | .error => 4
  | .fatal => 5
  | .abort => 6

/-- The characters of `g_LogLvlName[lvl]` before the NUL. -/
def logLvlName (lvl : LogLevel) : List UInt8 :=
  (match lvl with
    | .trace => [' ', 'T', 'R', 'A', 'C', 'E', ' ']
    | .debug => [' ', 'D', 'E', 'B', 'U', 'G', ' ']
    | .info => [' ', 'I', 'N', 'F', 'O', ' ', ' ']
    | .warn => [' ', 'W', 'A', 'R', 'N', ' ', ' ']
    | .error => [' ', 'E', 'R', 'R', 'O', 'R', ' ']
    | .fatal => [' ', 'F', 'A', 'T', 'A', 'L', ' ']
    | .abort => [' ', 'A', 'B', 'O', 'R', 'T', ' ']).map Char.toUInt8

/-- `S_MAX_BUFF_SZ` of `LogStreamFixed` -/
def maxBuffSz : ℕ := 4 * 1024

theorem maxBuffSz_lt : maxBuffSz < 2 ^ 64 := by
  unfold maxBuffSz
  norm_num

/-- A log statement: what `gettimeofday` answers, the values that are put into the stream,
the literals for the place and the function, and what the buffer held before. -/
structure Statement where
  level : LogLevel
  microSec : ℕ
  values : List LogStream.Value
  loc : List UInt8
  func : List UInt8
  garbage : ℕ → UInt8

/-- The first characters of `tl_time_str`, an array that starts with NULs only. -/
def timeChars (cache : Cache) : List UInt8 :=
  (cache.timeStr ++ List.replicate fmtSecLength 0).take fmtSecLength

/-- What the constructor does with the stream. -/
def constructCalls (cache : Cache) (stamp : CacheTimeStamp) (lvl : LogLevel) :
    List LogStream.Call :=
  [.append (timeChars cache), .append [58],
    .output (.signed (Int64.ofInt stamp.trailingMs)), .append (logLvlName lvl)]

/-- What the destructor does with the stream. -/
def destroyCalls (loc func : List UInt8) : List LogStream.Call :=
  [.append loc, .append func, .append [10]]

/-- What a statement does with the stream. -/
def Statement.calls (statement : Statement) (cache : Cache) (stamp : CacheTimeStamp) :
    List LogStream.Call :=
  constructCalls cache stamp statement.level ++ statement.values.map LogStream.Call.output ++
    destroyCalls statement.loc statement.func

/-- `LogStreamFixed()` -/
def Statement.stream (statement : Statement) : LogStream :=
  .construct ((Arena.fresh statement.garbage).store 0 0) maxBuffSz maxBuffSz_lt

/-- A statement from the constructor of its `Logger` to the call of the appender, with the
stream as it is then. -/
def format (localtime : ℕ → Tm) (cache : Cache) (statement : Statement) :
    Option (LogStream × Cache) :=
  match CacheTimeStamp.construct localtime cache statement.microSec with
  | none => none
  | some (stamp, cache) =>
      match (LogStream.machine statement.garbage maxBuffSz maxBuffSz_lt).runFrom statement.stream
          (statement.calls cache stamp) with
      | none => none
      | some stream => some (stream, cache)

/-- A thread, with the messages it has given to the appender. -/
structure Thread where
  cache : Cache
  appended : List (List UInt8)
  aborted : Bool

/-- `TRY_LOG` -/
def tryLog (localtime : ℕ → Tm) (globalLevel : LogLevel) (thread : Thread)
    (statement : Statement) : Option Thread :=
  if thread.aborted then none
  else if globalLevel.value ≤ statement.level.value then
    match format localtime thread.cache statement with
    | none => none
    | some (stream, cache) =>
        some ⟨cache, thread.appended ++ [stream.contents], statement.level = .abort⟩
  else some thread

def machine (localtime : ℕ → Tm) (globalLevel : LogLevel) : Machine Thread Statement where
  start := ⟨.initial, [], false⟩
  step := tryLog localtime globalLevel

/-! ## The line of a statement -/

/-- The text of a value. -/
def text : LogStream.Value → List UInt8
  | .signed value => LogStream.decimalText value.toInt
  | .unsigned value => LogStream.decimalText value.toNat
  | .pointer value => LogStream.hexText value.toNat
  | .character value => [value]
  | .boolean value => [if value then 49 else 48]
  | .cString bytes => bytes.takeWhile (· != 0)
  | .array bytes => bytes.dropLast
  | .string bytes => bytes
  | .double text => text

/-- The time, the microseconds and the level. -/
structure Heading where
  tm : Tm
  micro : ℕ
  level : LogLevel

def Heading.text (heading : Heading) : List UInt8 :=
  fmtSec heading.tm ++ [58] ++ LogStream.decimalText heading.micro ++ logLvlName heading.level

namespace Statement

def heading (localtime : ℕ → Tm) (statement : Statement) : Heading :=
  ⟨localtime (statement.microSec / msPerSec), statement.microSec % msPerSec, statement.level⟩

/-- The line, up to its end. -/
def line (localtime : ℕ → Tm) (statement : Statement) : List UInt8 :=
  (statement.heading localtime).text ++ statement.values.flatMap SlogLogger.text ++
    (statement.loc ++ statement.func ++ [10])

/-- The line leaves the room that an integer asks for. -/
def Fits (localtime : ℕ → Tm) (statement : Statement) : Prop :=
  (statement.line localtime).length + 32 ≤ maxBuffSz

/-- The clock is past the first second of 1970, and before the year 10000. -/
def Dated (localtime : ℕ → Tm) (statement : Statement) : Prop :=
  statement.microSec / msPerSec ≠ 0 ∧ FourDigitYear (localtime (statement.microSec / msPerSec))

end Statement

/-! ## Calls with enough room -/

/-- The text was put behind what the stream held, inside its buffer. -/
structure Wrote (stream : LogStream) (text : List UInt8) (next : LogStream) : Prop where
  cur_eq : next.cur = stream.cur + text.length
  size_eq : next.size = stream.size
  contents_eq : next.contents = stream.contents ++ text
  inside : next.Inside

/-- The text of a call other than `Reset`. -/
def callText : LogStream.Call → List UInt8
  | .append data => data
  | .output value => text value
  | .fmtAppend text => text
  | .reset => []

section Calls

variable {stream next : LogStream}

theorem append_wrote {data : List UInt8} (hinside : stream.Inside)
    (hroom : stream.cur + data.length ≤ stream.size) :
    ∃ next, (stream.append data).map Prod.snd = some next ∧ Wrote stream data next := by
  have hleft := LogStream.left_eq hinside.cur_le
  have happend : stream.append data = some (data.length,
      (stream.setBuff (stream.buff.copy stream.cur data)).advance data.length) := by
    unfold LogStream.append
    rw [if_pos (by omega)]
  have hnext : (stream.append data).map Prod.snd =
      some ((stream.setBuff (stream.buff.copy stream.cur data)).advance data.length) := by
    rw [happend]
    rfl
  have hcur : ((stream.setBuff (stream.buff.copy stream.cur data)).advance data.length).cur =
      stream.cur + data.length := by
    rw [LogStream.cur_advance (by
      rw [LogStream.cur_setBuff, LogStream.size_setBuff]
      exact hroom), LogStream.cur_setBuff]
  refine ⟨_, hnext, hcur, rfl, ?_, LogStream.append_inside hinside hnext⟩
  have hread := Arena.read_copy_append stream.buff 0 stream.cur data
  rw [Nat.zero_add] at hread
  unfold LogStream.contents
  rw [hcur, LogStream.buff_advance, LogStream.buff_setBuff]
  exact hread

theorem fmtAppend_wrote {text : List UInt8} (hinside : stream.Inside)
    (hsmall : stream.size < 2 ^ 31) (hroom : stream.cur + text.length < stream.size) :
    ∃ next, (stream.fmtAppend text).map Prod.snd = some next ∧ Wrote stream text next := by
  have hleft := LogStream.left_eq hinside.cur_le
  have htext : text.length < 2 ^ 31 := by omega
  have hfmtRoom : stream.fmtRoom = stream.left := by
    have hbmod : (stream.left : ℤ).bmod (2 ^ 32) = stream.left :=
      Int.bmod_eq_of_le (by omega) (by omega)
    unfold LogStream.fmtRoom
    rw [hbmod]
    omega
  have hprinted : stream.buff.snprintf stream.cur stream.fmtRoom text =
      stream.buff.copy stream.cur (text ++ [0]) := by
    unfold Arena.snprintf
    rw [hfmtRoom, if_neg (by omega), List.take_of_length_le (by omega)]
  have hnext : (stream.fmtAppend text).map Prod.snd =
      some ((stream.setBuff (stream.buff.copy stream.cur (text ++ [0]))).advance
        text.length) := by
    rw [LogStream.fmtAppend_eq hinside htext, hprinted]
    rfl
  have hcur : ((stream.setBuff (stream.buff.copy stream.cur (text ++ [0]))).advance
      text.length).cur = stream.cur + text.length := by
    rw [LogStream.cur_advance (by
      rw [LogStream.cur_setBuff, LogStream.size_setBuff]
      exact hroom.le), LogStream.cur_setBuff]
  refine ⟨_, hnext, hcur, rfl, ?_, LogStream.fmtAppend_inside hinside hroom.le hnext⟩
  have hread := Arena.read_copy_append stream.buff 0 stream.cur text
  rw [Nat.zero_add] at hread
  unfold LogStream.contents
  rw [hcur, LogStream.buff_advance, LogStream.buff_setBuff, Arena.copy_append,
    Arena.read_copy_of_le (by omega)]
  exact hread

theorem wrote_of_appended {text : List UInt8} (hinside : stream.Inside)
    (happended : stream.Appended text next) (hroom : stream.cur + text.length < stream.size) :
    Wrote stream text next :=
  ⟨happended.cur_eq, happended.size_eq, happended.contents_eq, happended.inside hinside hroom⟩

theorem step_wrote {call : LogStream.Call} (hcall : call ≠ .reset) (hinside : stream.Inside)
    (hsmall : stream.size < 2 ^ 31)
    (hroom : stream.cur + (callText call).length + 32 ≤ stream.size) :
    ∃ next, stream.step call = some next ∧ Wrote stream (callText call) next := by
  have hstart : stream.cur + 32 ≤ stream.size := by omega
  cases call with
  | reset => exact absurd rfl hcall
  | append data => exact append_wrote hinside (by simp only [callText] at hroom; omega)
  | fmtAppend text =>
      exact fmtAppend_wrote hinside hsmall (by simp only [callText] at hroom; omega)
  | output value =>
      have hfits : stream.cur + (text value).length < stream.size := by
        simp only [callText] at hroom
        omega
      cases value with
      | signed value =>
          refine ⟨(stream.convert64 value).2, rfl, ?_⟩
          rw [LogStream.convert64_eq hstart]
          exact wrote_of_appended hinside (LogStream.turned_appended stream _) hfits
      | unsigned value =>
          refine ⟨(stream.convert64U value).2, rfl, ?_⟩
          rw [LogStream.convert64U_eq hstart]
          exact wrote_of_appended hinside (LogStream.turned_appended stream _) hfits
      | pointer value =>
          refine ⟨(stream.convertHex value).2, rfl, ?_⟩
          exact wrote_of_appended hinside (LogStream.convertHex_appended hfits.le) hfits
      | character value => exact append_wrote hinside hfits.le
      | boolean value => exact append_wrote hinside hfits.le
      | cString bytes => exact append_wrote hinside hfits.le
      | array bytes => exact append_wrote hinside hfits.le
      | string bytes => exact append_wrote hinside hfits.le
      | double text => exact fmtAppend_wrote hinside hsmall hfits

theorem calls_wrote {cell : ℕ → UInt8} {size : ℕ} {size_lt : size < 2 ^ 64}
    {calls : List LogStream.Call} (hcalls : LogStream.Call.reset ∉ calls)
    (hinside : stream.Inside) (hsmall : stream.size < 2 ^ 31)
    (hroom : stream.cur + (calls.flatMap callText).length + 32 ≤ stream.size) :
    ∃ next, (LogStream.machine cell size size_lt).runFrom stream calls = some next ∧
      Wrote stream (calls.flatMap callText) next := by
  induction calls generalizing stream with
  | nil => exact ⟨stream, rfl, rfl, rfl, (List.append_nil _).symm, hinside⟩
  | cons call rest ih =>
      rw [List.flatMap_cons, List.length_append] at hroom
      rw [List.mem_cons, not_or] at hcalls
      obtain ⟨middle, hstep, hwrote⟩ :=
        step_wrote (Ne.symm hcalls.1) hinside hsmall (by omega)
      obtain ⟨next, hrun, hlater⟩ := ih hcalls.2 hwrote.inside
        (by rw [hwrote.size_eq]; exact hsmall) (by rw [hwrote.cur_eq, hwrote.size_eq]; omega)
      refine ⟨next, ?_, ?_, hlater.size_eq.trans hwrote.size_eq, ?_, hlater.inside⟩
      · unfold Machine.runFrom
        rw [show (LogStream.machine cell size size_lt).step stream call = some middle from hstep]
        exact hrun
      · rw [hlater.cur_eq, hwrote.cur_eq, List.flatMap_cons, List.length_append, Nat.add_assoc]
      · rw [hlater.contents_eq, hwrote.contents_eq, List.flatMap_cons, List.append_assoc]

end Calls

/-! ## One statement -/

section Lines

variable {localtime : ℕ → Tm} {past : List ℕ} {cache : Cache} {statement : Statement}

theorem timeChars_eq {tm : Tm} (hyear : FourDigitYear tm) (htime : cache.timeStr = fmtSec tm) :
    timeChars cache = fmtSec tm := by
  unfold timeChars
  rw [htime, List.take_append_of_le_length (CacheTimeStamp.fmtSec_length hyear).ge,
    ← CacheTimeStamp.fmtSec_length hyear, List.take_length]

theorem toInt_micro (micro : ℕ) :
    (Int64.ofInt ((micro % msPerSec : ℕ) : ℤ)).toInt = (micro % msPerSec : ℕ) := by
  have hlt : micro % msPerSec < msPerSec := Nat.mod_lt micro (by decide)
  unfold msPerSec at hlt ⊢
  rw [Int64.toInt_ofInt_of_le (by norm_num; omega) (by norm_num; omega)]

theorem construct_text {stamp : CacheTimeStamp} (hdated : statement.Dated localtime)
    (htime : cache.timeStr = fmtSec (localtime (statement.microSec / msPerSec)))
    (hstamp : stamp.trailingMs = statement.microSec % msPerSec) :
    (constructCalls cache stamp statement.level).flatMap callText =
      (statement.heading localtime).text := by
  have hmicro := toInt_micro statement.microSec
  simp only [constructCalls, List.flatMap_cons, List.flatMap_nil, callText, text, hstamp, hmicro,
    timeChars_eq hdated.2 htime, Heading.text, Statement.heading, List.append_nil,
    List.append_assoc]

theorem calls_text {stamp : CacheTimeStamp} (hdated : statement.Dated localtime)
    (htime : cache.timeStr = fmtSec (localtime (statement.microSec / msPerSec)))
    (hstamp : stamp.trailingMs = statement.microSec % msPerSec) :
    (statement.calls cache stamp).flatMap callText = statement.line localtime := by
  have hvalues : (statement.values.map LogStream.Call.output).flatMap callText =
      statement.values.flatMap text := by
    rw [List.flatMap_map]
    rfl
  rw [Statement.calls, List.flatMap_append, List.flatMap_append,
    construct_text hdated htime hstamp, hvalues]
  simp only [destroyCalls, List.flatMap_cons, List.flatMap_nil, callText, List.append_nil,
    List.append_assoc, Statement.line]

theorem reset_notMem (stamp : CacheTimeStamp) :
    LogStream.Call.reset ∉ statement.calls cache stamp := by
  simp [Statement.calls, constructCalls, destroyCalls]

theorem stream_inside (statement : Statement) : statement.stream.Inside := by
  refine ⟨Nat.zero_le _, ?_⟩
  change max 0 1 ≤ maxBuffSz
  decide

theorem timeStr_of_holds {micro : ℕ} (hsec : micro / msPerSec ≠ 0)
    (hholds : CacheTimeStamp.Holds localtime (past ++ [micro]) cache) :
    cache.timeStr = fmtSec (localtime (micro / msPerSec)) := by
  have hlast : cache.lastSec = micro / msPerSec := by
    rw [hholds.lastSec, List.getLastD_concat]
  have hsome : ∃ old ∈ past ++ [micro], old / msPerSec ≠ 0 :=
    ⟨micro, List.mem_append_right past (List.mem_singleton_self micro), hsec⟩
  rw [hholds.timeStr, if_pos hsome, hlast]

theorem format_line (hholds : CacheTimeStamp.Holds localtime past cache)
    (hdated : statement.Dated localtime) (hfits : statement.Fits localtime) :
    ∃ stream next, format localtime cache statement = some (stream, next) ∧
      stream.contents = statement.line localtime ∧ stream.Inside ∧
      CacheTimeStamp.Holds localtime (past ++ [statement.microSec]) next := by
  obtain ⟨next, hconstruct, hnext⟩ := hholds.construct statement.microSec hdated.2
  have htime := timeStr_of_holds hdated.1 hnext
  have hcalls : (statement.calls next ⟨statement.microSec, statement.microSec % msPerSec⟩).flatMap
      callText = statement.line localtime := calls_text hdated htime rfl
  have hsmall : statement.stream.size < 2 ^ 31 := by
    change maxBuffSz < 2 ^ 31
    unfold maxBuffSz
    norm_num
  have hroom : statement.stream.cur + (statement.line localtime).length + 32 ≤
      statement.stream.size := by
    change 0 + _ + 32 ≤ maxBuffSz
    rw [Nat.zero_add]
    exact hfits
  rw [← hcalls] at hroom
  obtain ⟨stream, hrun, hwrote⟩ := @calls_wrote statement.stream statement.garbage maxBuffSz
    maxBuffSz_lt _ (reset_notMem _) (stream_inside statement) hsmall hroom
  refine ⟨stream, next, ?_, ?_, hwrote.inside, hnext⟩
  · unfold format
    simp only [hconstruct, hrun]
  · have hempty : statement.stream.contents = [] := rfl
    rw [hwrote.contents_eq, hcalls, hempty, List.nil_append]

theorem contents_of_format {stream : LogStream} {next : Cache}
    (hholds : CacheTimeStamp.Holds localtime past cache)
    (hdated : statement.Dated localtime) (hfits : statement.Fits localtime)
    (hformat : format localtime cache statement = some (stream, next)) :
    stream.contents = statement.line localtime := by
  obtain ⟨found, later, hfound, hcontents, -⟩ := format_line hholds hdated hfits
  rw [hformat] at hfound
  cases hfound
  exact hcontents

end Lines

/-! ## Every run of a thread -/

section Runs

variable {localtime : ℕ → Tm} {globalLevel : LogLevel} {thread : Thread} {past : List ℕ}

/-- The statement is not filtered out. -/
def Statement.Shown (globalLevel : LogLevel) (statement : Statement) : Prop :=
  globalLevel.value ≤ statement.level.value

instance decidableShown (globalLevel : LogLevel) (statement : Statement) :
    Decidable (statement.Shown globalLevel) :=
  inferInstanceAs (Decidable (globalLevel.value ≤ statement.level.value))

theorem shown_of_abort {statement : Statement} (habort : statement.level = .abort) :
    statement.Shown globalLevel := by
  unfold Statement.Shown
  rw [habort]
  cases globalLevel <;> decide

theorem tryLog_line {statement : Statement} (halive : thread.aborted = false)
    (hholds : CacheTimeStamp.Holds localtime past thread.cache)
    (hgood : statement.Shown globalLevel →
      statement.Dated localtime ∧ statement.Fits localtime) :
    ∃ next later, tryLog localtime globalLevel thread statement = some next ∧
      CacheTimeStamp.Holds localtime later next.cache ∧
      next.appended = thread.appended ++
        (if statement.Shown globalLevel then [statement.line localtime] else []) ∧
      (next.aborted = true ↔ statement.level = .abort) := by
  unfold tryLog
  rw [if_neg (by rw [halive]; exact Bool.false_ne_true)]
  by_cases hshown : statement.Shown globalLevel
  · obtain ⟨hdated, hfits⟩ := hgood hshown
    obtain ⟨stream, cache, hformat, hline, -, hnext⟩ := format_line hholds hdated hfits
    have hlevel : globalLevel.value ≤ statement.level.value := hshown
    refine ⟨⟨cache, thread.appended ++ [stream.contents], decide (statement.level = .abort)⟩, _,
      ?_, hnext, ?_, decide_eq_true_iff⟩
    · rw [if_pos hlevel, hformat]
    · rw [if_pos hshown, hline]
  · refine ⟨thread, past, if_neg hshown, hholds, ?_, ?_⟩
    · rw [if_neg hshown, List.append_nil]
    · rw [halive]
      exact iff_of_false Bool.false_ne_true fun habort => hshown (shown_of_abort habort)

theorem runFrom_lines {statements : List Statement} (halive : thread.aborted = false)
    (hholds : CacheTimeStamp.Holds localtime past thread.cache)
    (hgood : ∀ statement ∈ statements, statement.Shown globalLevel →
      statement.Dated localtime ∧ statement.Fits localtime)
    (habort : ∀ statement ∈ statements.dropLast, statement.level ≠ .abort) :
    ∃ final, (machine localtime globalLevel).runFrom thread statements = some final ∧
      final.appended = thread.appended ++
        (statements.filter fun statement => statement.Shown globalLevel).map
          (Statement.line localtime) ∧
      (final.aborted = true ↔ ∃ statement ∈ statements, statement.level = .abort) := by
  induction statements generalizing thread past with
  | nil =>
      refine ⟨thread, rfl, (List.append_nil _).symm, ?_⟩
      rw [halive]
      exact iff_of_false Bool.false_ne_true fun ⟨_, hnone, _⟩ => List.not_mem_nil hnone
  | cons statement rest ih =>
      obtain ⟨next, later, hstep, hnext, happended, haborted⟩ :=
        tryLog_line halive hholds (hgood statement List.mem_cons_self)
      have hfirst : (machine localtime globalLevel).step thread statement = some next := hstep
      have hline : (if statement.Shown globalLevel then [statement.line localtime] else []) ++
          (rest.filter fun statement => statement.Shown globalLevel).map
            (Statement.line localtime) =
          ((statement :: rest).filter fun statement => statement.Shown globalLevel).map
            (Statement.line localtime) := by
        by_cases hshown : statement.Shown globalLevel
        · rw [if_pos hshown, List.filter_cons_of_pos (by simpa using hshown)]
          rfl
        · rw [if_neg hshown, List.filter_cons_of_neg (by simpa using hshown)]
          rfl
      cases rest with
      | nil =>
          refine ⟨next, ?_, ?_, ?_⟩
          · simp only [Machine.runFrom, hfirst]
          · rw [happended, ← hline]
            simp
          · rw [haborted]
            simp
      | cons second rest =>
          have hgoes : statement.level ≠ .abort := habort statement List.mem_cons_self
          have hstill : next.aborted = false := by
            rw [Bool.eq_false_iff]
            exact fun hdone => hgoes (haborted.mp hdone)
          obtain ⟨final, hrun, hall, hends⟩ := ih hstill hnext
            (fun other hother => hgood other (List.mem_cons_of_mem _ hother))
            (fun other hother => habort other (List.mem_cons_of_mem _ hother))
          refine ⟨final, ?_, ?_, ?_⟩
          · unfold Machine.runFrom
            rw [hfirst]
            exact hrun
          · rw [hall, happended, List.append_assoc, hline]
          · rw [hends]
            simp [hgoes]

end Runs

/-- A thread logs what it is told: whatever the level that is set, and however many
statements there are, the appender gets the lines of those that are shown, in order and
exactly, and nothing else; after a statement of the level `LL_ABORT`, and only then, the
process has ended. -/
theorem thread_logs (localtime : ℕ → Tm) (globalLevel : LogLevel) (statements : List Statement)
    (hgood : ∀ statement ∈ statements, statement.Shown globalLevel →
      statement.Dated localtime ∧ statement.Fits localtime)
    (habort : ∀ statement ∈ statements.dropLast, statement.level ≠ .abort) :
    ∃ final, (machine localtime globalLevel).run statements = some final ∧
      final.appended =
        (statements.filter fun statement => statement.Shown globalLevel).map
          (Statement.line localtime) ∧
      (final.aborted = true ↔ ∃ statement ∈ statements, statement.level = .abort) := by
  exact @runFrom_lines localtime globalLevel (machine localtime globalLevel).start [] statements
    rfl (.initial localtime) hgood habort

theorem heading_length_le {heading : Heading} (hyear : FourDigitYear heading.tm)
    (hmicro : heading.micro < msPerSec) : heading.text.length ≤ 47 := by
  have hdigits : (LogStream.decimalText heading.micro).length ≤ 20 := by
    unfold LogStream.decimalText msPerSec at *
    rw [if_neg (not_lt.mpr (Int.natCast_nonneg heading.micro)), List.nil_append]
    exact LogStream.decimal_length_le (by rw [Int.natAbs_natCast]; omega)
  have hname : (logLvlName heading.level).length = 7 := by
    cases heading.level <;> rfl
  unfold Heading.text
  rw [List.length_append, List.length_append, List.length_append,
    CacheTimeStamp.fmtSec_length hyear, hname, List.length_singleton]
  unfold fmtSecLength
  omega

/-- A second and five microseconds after the start of 1970 some text is logged. -/
def note (level : LogLevel) (message loc func : List UInt8) : Statement :=
  ⟨level, 1000005, [.string message], loc, func, fun _ => 0⟩

theorem note_good (level : LogLevel) {message loc func : List UInt8}
    (hshort : message.length + loc.length + func.length ≤ 1000) :
    (note level message loc func).Dated CacheTimeStamp.firstDay ∧
      (note level message loc func).Fits CacheTimeStamp.firstDay := by
  have hyear := CacheTimeStamp.firstDay_fourDigitYear (1000005 / msPerSec)
  have hmicro : 1000005 % msPerSec < msPerSec := Nat.mod_lt _ (by decide)
  have hheading := @heading_length_le
    ((note level message loc func).heading CacheTimeStamp.firstDay) hyear hmicro
  have hsec : 1000005 / msPerSec ≠ 0 := by decide
  refine ⟨⟨hsec, hyear⟩, ?_⟩
  unfold Statement.Fits Statement.line maxBuffSz
  simp only [List.length_append, List.length_singleton]
  simp only [note, List.flatMap_cons, List.flatMap_nil, text, List.append_nil] at hheading ⊢
  omega

theorem thread_logs_abort :
    ∃ final, (machine CacheTimeStamp.firstDay .info).run
        [note .info [97] [45] [102], note .debug [98] [45] [102], note .abort [99] [45] [102]] =
          some final ∧
      final.appended =
        [(note .info [97] [45] [102]).line CacheTimeStamp.firstDay,
          (note .abort [99] [45] [102]).line CacheTimeStamp.firstDay] ∧
      final.aborted = true := by
  have hgood : ∀ statement ∈
      [note .info [97] [45] [102], note .debug [98] [45] [102], note .abort [99] [45] [102]],
      statement.Shown .info → statement.Dated CacheTimeStamp.firstDay ∧
        statement.Fits CacheTimeStamp.firstDay := by
    intro statement hmem _
    simp only [List.mem_cons, List.not_mem_nil, or_false] at hmem
    rcases hmem with rfl | rfl | rfl
    · exact note_good _ (by decide)
    · exact note_good _ (by decide)
    · exact note_good _ (by decide)
  have habort : ∀ statement ∈
      [note .info [97] [45] [102], note .debug [98] [45] [102],
        note .abort [99] [45] [102]].dropLast,
      statement.level ≠ .abort := by
    intro statement hmem
    simp only [List.dropLast_cons_cons, List.dropLast_singleton, List.mem_cons, List.not_mem_nil,
      or_false] at hmem
    rcases hmem with rfl | rfl
    · exact nofun
    · exact nofun
  obtain ⟨final, hrun, happended, haborted⟩ :=
    thread_logs CacheTimeStamp.firstDay .info _ hgood habort
  refine ⟨final, hrun, happended, haborted.mpr ⟨note .abort [99] [45] [102], ?_, rfl⟩⟩
  simp

/-! ## Reading a line -/

theorem takeWhile_digits (micro : ℕ) (level : LogLevel) (rest : List UInt8) :
    (LogStream.decimalText micro ++ (logLvlName level ++ rest)).takeWhile (· != 32) =
      LogStream.decimalText micro := by
  have hdigits : ∀ digit ∈ LogStream.decimalText micro, (digit != 32) = true := by
    intro digit hmem
    unfold LogStream.decimalText at hmem
    rw [if_neg (not_lt.mpr (Int.natCast_nonneg micro)), List.nil_append] at hmem
    obtain ⟨d, hd, rfl⟩ := mem_numeral LogStream.one_lt_ten hmem
    have hlower := (LogStream.decimalDigit_spec hd).2.1
    rw [bne_iff_ne]
    rintro heq
    rw [heq] at hlower
    exact absurd hlower (by decide)
  have hblank : (logLvlName level ++ rest).takeWhile (· != 32) = [] := by
    cases level <;> rfl
  rw [List.takeWhile_append_of_pos hdigits, hblank, List.append_nil]

theorem decimalText_inj {first second : ℕ}
    (heq : LogStream.decimalText first = LogStream.decimalText second) : first = second := by
  have hfirst := (LogStream.decimalText_canonical first).reads
  have hsecond := (LogStream.decimalText_canonical second).reads
  rw [heq, hsecond] at hfirst
  exact_mod_cast hfirst.symm

theorem logLvlName_inj {first second : LogLevel} (heq : logLvlName first = logLvlName second) :
    first = second := by
  cases first <;> cases second <;> first | rfl | exact absurd heq (by decide)

theorem heading_inj {first second : Heading} {rest other : List UInt8}
    (hfirst : FourDigitYear first.tm) (hsecond : FourDigitYear second.tm)
    (heq : first.text ++ rest = second.text ++ other) : first = second ∧ rest = other := by
  obtain ⟨tm, micro, level⟩ := first
  obtain ⟨tm', micro', level'⟩ := second
  unfold Heading.text at heq
  simp only [List.append_assoc] at heq
  obtain ⟨htime, hmiddle⟩ := List.append_inj heq
    ((CacheTimeStamp.fmtSec_length hfirst).trans (CacheTimeStamp.fmtSec_length hsecond).symm)
  have hbehind : LogStream.decimalText micro ++ (logLvlName level ++ rest) =
      LogStream.decimalText micro' ++ (logLvlName level' ++ other) :=
    List.append_cancel_left hmiddle
  have hdigits : LogStream.decimalText micro = LogStream.decimalText micro' := by
    rw [← takeWhile_digits micro level rest, hbehind, takeWhile_digits]
  obtain rfl : tm = tm' := CacheTimeStamp.fmtSec_inj hfirst hsecond htime
  obtain rfl : micro = micro' := decimalText_inj hdigits
  have hnames : logLvlName level ++ rest = logLvlName level' ++ other :=
    List.append_cancel_left hbehind
  have hlengths : (logLvlName level).length = (logLvlName level').length := by
    cases level <;> cases level' <;> rfl
  obtain ⟨hname, hrest⟩ := List.append_inj hnames hlengths
  obtain rfl : level = level' := logLvlName_inj hname
  exact ⟨rfl, hrest⟩

theorem line_eq (localtime : ℕ → Tm) (statement : Statement) :
    statement.line localtime = (statement.heading localtime).text ++
      (statement.values.flatMap text ++ (statement.loc ++ statement.func) ++ [10]) := by
  simp only [Statement.line, List.append_assoc]

/-- A line tells its time to the microsecond and its level, whatever is logged: two
statements that hand over the same line agree in these, and in the text behind them. -/
theorem line_tells (localtime : ℕ → Tm) (first second : Statement) (cache cache' : Cache)
    (past past' : List ℕ) (hholds : CacheTimeStamp.Holds localtime past cache)
    (hholds' : CacheTimeStamp.Holds localtime past' cache')
    (hfirst : first.Dated localtime ∧ first.Fits localtime)
    (hsecond : second.Dated localtime ∧ second.Fits localtime)
    (stream stream' : LogStream) (next next' : Cache)
    (hformat : format localtime cache first = some (stream, next))
    (hformat' : format localtime cache' second = some (stream', next'))
    (hsame : stream.contents = stream'.contents) :
    first.heading localtime = second.heading localtime ∧
      first.values.flatMap text ++ (first.loc ++ first.func) =
        second.values.flatMap text ++ (second.loc ++ second.func) := by
  have hline := contents_of_format hholds hfirst.1 hfirst.2 hformat
  have hline' := contents_of_format hholds' hsecond.1 hsecond.2 hformat'
  rw [hline, hline', line_eq, line_eq] at hsame
  have hyear : FourDigitYear (first.heading localtime).tm := hfirst.1.2
  have hyear' : FourDigitYear (second.heading localtime).tm := hsecond.1.2
  obtain ⟨hheading, hrest⟩ := heading_inj hyear hyear' hsame
  refine ⟨hheading, ?_⟩
  exact List.append_cancel_right hrest

/-- The place and the function cannot be told from each other. -/
theorem line_tells_sameLine :
    ∃ stream stream' next next',
      format CacheTimeStamp.firstDay .initial (note .info [97] [45, 102] [103]) =
        some (stream, next) ∧
      format CacheTimeStamp.firstDay .initial (note .info [97] [45] [102, 103]) =
        some (stream', next') ∧
      (note .info [97] [45, 102] [103]).heading CacheTimeStamp.firstDay =
        (note .info [97] [45] [102, 103]).heading CacheTimeStamp.firstDay := by
  have hfirst := @note_good .info [97] [45, 102] [103] (by decide)
  have hsecond := @note_good .info [97] [45] [102, 103] (by decide)
  obtain ⟨stream, next, hformat, hline, -⟩ :=
    format_line (.initial CacheTimeStamp.firstDay) hfirst.1 hfirst.2
  obtain ⟨stream', next', hformat', hline', -⟩ :=
    format_line (.initial CacheTimeStamp.firstDay) hsecond.1 hsecond.2
  have hsame : stream.contents = stream'.contents := by
    rw [hline, hline', line_eq, line_eq]
    rfl
  exact ⟨stream, stream', next, next', hformat, hformat',
    (line_tells CacheTimeStamp.firstDay _ _ _ _ [] [] (.initial CacheTimeStamp.firstDay)
      (.initial CacheTimeStamp.firstDay) hfirst hsecond stream stream' next next' hformat hformat'
      hsame).1⟩

end SlogLogger
end BackEndFacility
