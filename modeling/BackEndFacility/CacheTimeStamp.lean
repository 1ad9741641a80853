import BackEndFacility.Numeral

/-!
# The time stamp cache of `slog/CacheTimeStamp.cc`

All time stamps of a thread share one text, the local time of the second that was
constructed last.  A time stamp keeps its microseconds but not its text: what it
answers depends on what was constructed after it.  The thread starts with an empty
text and with second zero as the last one.

What `localtime_r` computes is a parameter.  Only its promised ranges are used.
-/

namespace BackEndFacility

/-- `m_micro_sec` and `m_trailing_ms`. -/
structure CacheTimeStamp where
  microSec : ℕ
  trailingMs : ℕ
deriving DecidableEq

namespace CacheTimeStamp

/-- `S_MS_PER_SEC` -/
def msPerSec : ℕ := 1000 * 1000

/-- `FmtSecLength` -/
def fmtSecLength : ℕ := 19

/-- The members of a `struct tm` that are printed, within the ranges of `localtime_r`. -/
@[ext]
structure Tm where
  year : ℕ
  mon : ℕ
  mday : ℕ
  hour : ℕ
  min : ℕ
  sec : ℕ
  mon_lt : mon < 12
  mday_le : mday ≤ 31
  hour_lt : hour < 24
  min_lt : min < 60
  sec_le : sec ≤ 60
deriving DecidableEq

/-- `%4d`, `%02d` and `%06d` differ in the filling and in the width. -/
def printed (fill : UInt8) (width n : ℕ) : List UInt8 :=
  paddedNumeral 10 decimalDigit fill width n

/-- The text of `"%4d_%02d_%02d-%02d_%02d_%02d"`. -/
def fmtSec (tm : Tm) : List UInt8 :=
  printed 32 4 (tm.year + 1900) ++ 95 :: (printed 48 2 (tm.mon + 1) ++
    95 :: (printed 48 2 tm.mday ++ 45 :: (printed 48 2 tm.hour ++
      95 :: (printed 48 2 tm.min ++ 95 :: printed 48 2 tm.sec))))

/-- The string that `snprintf` leaves in an array of `size` characters. -/
def snprintf (size : ℕ) (text : List UInt8) : List UInt8 := text.take (size - 1)

/-! ## The thread's cache -/

/-- `tl_last_sec` and the string in `tl_time_str`. -/
structure Cache where
  lastSec : ℕ
  timeStr : List UInt8
deriving DecidableEq

def Cache.initial : Cache := ⟨0, []⟩

variable (localtime : ℕ → Tm)

/-- The constructor; no result when its assertion fails. -/
def construct (cache : Cache) (microSec : ℕ) : Option (CacheTimeStamp × Cache) :=
  let stamp : CacheTimeStamp := ⟨microSec, microSec % msPerSec⟩
  let sec := microSec / msPerSec
  if cache.lastSec ≠ sec then
    let text := fmtSec (localtime sec)
    if text.length = fmtSecLength then some (stamp, ⟨sec, snprintf 32 text⟩)
    else none
  else some (stamp, cache)

/-- One construction after another. -/
def constructAll : Cache → List ℕ → Option (List CacheTimeStamp × Cache)
  | cache, [] => some ([], cache)
  | cache, microSec :: rest =>
      match construct localtime cache microSec with
      | none => none
      | some (stamp, cache) =>
          match constructAll cache rest with
          | none => none
          | some (stamps, cache) => some (stamp :: stamps, cache)

def getFmtSec (cache : Cache) (_stamp : CacheTimeStamp) : List UInt8 := cache.timeStr

def toString (cache : Cache) (stamp : CacheTimeStamp) : List UInt8 :=
  cache.timeStr ++ snprintf 16 (58 :: printed 48 6 stamp.trailingMs)

/-- The time stamp answers with its own second and its own microseconds. -/
def AnswersItself (cache : Cache) (stamp : CacheTimeStamp) : Prop :=
  getFmtSec cache stamp = fmtSec (localtime (stamp.microSec / msPerSec)) ∧
    toString cache stamp = fmtSec (localtime (stamp.microSec / msPerSec)) ++
      58 :: printed 48 6 (stamp.microSec % msPerSec)

def FourDigitYear (tm : Tm) : Prop := tm.year + 1900 < 10000

/-! ## The text tells the time -/

theorem printed_length {fill : UInt8} {width n : ℕ} (hwidth : 0 < width) (hn : n < 10 ^ width) :
    (printed fill width n).length = width :=
  paddedNumeral_length (by norm_num) hwidth hn

theorem printed_inj {fill : UInt8} {width n m : ℕ} (hfill : fill.toNat ≤ 48)
    (heq : printed fill width n = printed fill width m) : n = m := by
  have hvalue : ∀ d < 10, (decimalDigit d).toNat - 48 = d := by
    intro d hd
    rw [decimalDigit_toNat hd]
    omega
  have hzero : fill.toNat - 48 = 0 := by omega
  exact @paddedNumeral_inj UInt8 10 n m width decimalDigit (fun byte => byte.toNat - 48) fill
    hvalue hzero (by norm_num) heq

/-- The widths with which the members are printed. -/
theorem Tm.widths (tm : Tm) (hyear : FourDigitYear tm) :
    (printed 32 4 (tm.year + 1900)).length = 4 ∧ (printed 48 2 (tm.mon + 1)).length = 2 ∧
      (printed 48 2 tm.mday).length = 2 ∧ (printed 48 2 tm.hour).length = 2 ∧
        (printed 48 2 tm.min).length = 2 ∧ (printed 48 2 tm.sec).length = 2 := by
  have hmon := tm.mon_lt
  have hmday := tm.mday_le
  have hhour := tm.hour_lt
  have hmin := tm.min_lt
  have hsec := tm.sec_le
  have htwo : ∀ n, n < 100 → (printed 48 2 n).length = 2 := by
    intro n hn
    exact printed_length (by norm_num) hn
  refine ⟨printed_length (by norm_num) hyear, htwo _ ?_, htwo _ ?_, htwo _ ?_, htwo _ ?_,
    htwo _ ?_⟩ <;> omega

theorem fmtSec_length {tm : Tm} (hyear : FourDigitYear tm) :
    (fmtSec tm).length = fmtSecLength := by
  obtain ⟨hyear, hmon, hmday, hhour, hmin, hsec⟩ := tm.widths hyear
  simp only [fmtSec, List.length_append, List.length_cons, hyear, hmon, hmday, hhour, hmin, hsec]
  rfl

theorem fmtSec_inj
    {tm other : Tm} (hyear : FourDigitYear tm) (hother : FourDigitYear other)
    (heq : fmtSec tm = fmtSec other) : tm = other := by
  obtain ⟨hyear, hmon, hmday, hhour, hmin, -⟩ := tm.widths hyear
  obtain ⟨hyear', hmon', hmday', hhour', hmin', -⟩ := other.widths hother
  unfold fmtSec at heq
  obtain ⟨heqYear, heq⟩ := List.append_inj heq (hyear.trans hyear'.symm)
  obtain ⟨heqMon, heq⟩ := List.append_inj (List.tail_eq_of_cons_eq heq) (hmon.trans hmon'.symm)
  obtain ⟨heqMday, heq⟩ :=
    List.append_inj (List.tail_eq_of_cons_eq heq) (hmday.trans hmday'.symm)
  obtain ⟨heqHour, heq⟩ :=
    List.append_inj (List.tail_eq_of_cons_eq heq) (hhour.trans hhour'.symm)
  obtain ⟨heqMin, heq⟩ := List.append_inj (List.tail_eq_of_cons_eq heq) (hmin.trans hmin'.symm)
  have hzero : ∀ {n m : ℕ}, printed 48 2 n = printed 48 2 m → n = m :=
    fun heq => printed_inj (by decide) heq
  apply Tm.ext
  · exact Nat.add_right_cancel (printed_inj (by decide) heqYear)
  · exact Nat.add_right_cancel (hzero heqMon)
  · exact hzero heqMday
  · exact hzero heqHour
  · exact hzero heqMin
  · exact hzero (List.tail_eq_of_cons_eq heq)

theorem snprintf_of_lt {size : ℕ} {text : List UInt8} (hlength : text.length < size) :
    snprintf size text = text :=
  List.take_of_length_le (by omega)

/-! ## Every history -/

/-- What the cache holds after the constructions of `past`. -/
structure Holds (past : List ℕ) (cache : Cache) : Prop where
  lastSec : cache.lastSec = past.getLastD 0 / msPerSec
  timeStr : cache.timeStr =
    if ∃ microSec ∈ past, microSec / msPerSec ≠ 0 then fmtSec (localtime cache.lastSec) else []

theorem Holds.initial : Holds localtime [] Cache.initial where
  lastSec := rfl
  timeStr := by
    rw [if_neg (by simp)]
    rfl

variable {localtime}

theorem exists_of_getLastD_ne
    {past : List ℕ} (hne : past.getLastD 0 / msPerSec ≠ 0) :
    ∃ microSec ∈ past, microSec / msPerSec ≠ 0 := by
  rw [List.getLastD_eq_getLast?] at hne
  cases hcase : past.getLast? with
  | none =>
      rw [hcase] at hne
      exact absurd rfl hne
  | some microSec =>
      rw [hcase] at hne
      exact ⟨microSec, List.mem_of_getLast? hcase, hne⟩

theorem exists_append_iff
    {past : List ℕ} {microSec : ℕ} :
    (∃ old ∈ past ++ [microSec], old / msPerSec ≠ 0) ↔
      (∃ old ∈ past, old / msPerSec ≠ 0) ∨ microSec / msPerSec ≠ 0 := by
  simp only [List.mem_append, List.mem_singleton, or_and_right, exists_or, exists_eq_left]

theorem Holds.construct
    {past : List ℕ} {cache : Cache} (hholds : Holds localtime past cache) (microSec : ℕ)
    (hyear : FourDigitYear (localtime (microSec / msPerSec))) :
    ∃ next, CacheTimeStamp.construct localtime cache microSec =
        some (⟨microSec, microSec % msPerSec⟩, next) ∧
      Holds localtime (past ++ [microSec]) next := by
  have hlast : (past ++ [microSec]).getLastD 0 = microSec := by simp
  unfold CacheTimeStamp.construct
  by_cases hsame : cache.lastSec = microSec / msPerSec
  · refine ⟨cache, if_neg (not_not.mpr hsame), ?_, ?_⟩
    · rw [hlast, hsame]
    · have hiff : (∃ old ∈ past ++ [microSec], old / msPerSec ≠ 0) ↔
          ∃ old ∈ past, old / msPerSec ≠ 0 := by
        rw [exists_append_iff, or_iff_left_iff_imp, ← hsame, hholds.lastSec]
        exact exists_of_getLastD_ne
      rw [hholds.timeStr]
      exact if_congr hiff.symm rfl rfl
  · have hlength := fmtSec_length hyear
    have hfits : (fmtSec (localtime (microSec / msPerSec))).length < 32 := by
      rw [hlength]
      decide
    have hsome : ∃ old ∈ past ++ [microSec], old / msPerSec ≠ 0 := by
      rw [exists_append_iff]
      by_cases hzero : microSec / msPerSec = 0
      · rw [hholds.lastSec, hzero] at hsame
        exact Or.inl (exists_of_getLastD_ne hsame)
      · exact Or.inr hzero
    refine ⟨⟨microSec / msPerSec, snprintf 32 (fmtSec (localtime (microSec / msPerSec)))⟩, ?_,
      ?_, ?_⟩
    · rw [if_pos hsame]
      exact if_pos hlength
    · rw [hlast]
    · rw [snprintf_of_lt hfits, if_pos hsome]

theorem Holds.constructAll
    {past history : List ℕ} {cache : Cache} (hholds : Holds localtime past cache)
    (hyears : ∀ microSec ∈ history, FourDigitYear (localtime (microSec / msPerSec))) :
    ∃ stamps next, CacheTimeStamp.constructAll localtime cache history = some (stamps, next) ∧
      stamps = history.map (fun microSec => ⟨microSec, microSec % msPerSec⟩) ∧
        Holds localtime (past ++ history) next := by
  induction history generalizing past cache with
  | nil => exact ⟨[], cache, rfl, rfl, by rwa [List.append_nil]⟩
  | cons microSec rest ih =>
      obtain ⟨next, hconstruct, hnext⟩ :=
        hholds.construct microSec (hyears microSec List.mem_cons_self)
      obtain ⟨stamps, final, hall, hstamps, hfinal⟩ :=
        ih hnext (fun later hlater => hyears later (List.mem_cons_of_mem microSec hlater))
      refine ⟨⟨microSec, microSec % msPerSec⟩ :: stamps, final, ?_, ?_, ?_⟩
      · rw [CacheTimeStamp.constructAll, hconstruct]
        simp only [hall]
      · rw [hstamps, List.map_cons]
      · rwa [List.append_assoc] at hfinal

theorem getLastD_mem {history : List ℕ} (hne : history ≠ []) : history.getLastD 0 ∈ history := by
  rw [List.getLastD_eq_getLast?, List.getLast?_eq_some_getLast hne]
  exact List.getLast_mem hne

theorem Holds.answersItself
    {past : List ℕ} {cache : Cache} {microSec : ℕ} (hholds : Holds localtime past cache)
    (hyears : ∀ microSec ∈ past, FourDigitYear (localtime (microSec / msPerSec)))
    (hmem : microSec ∈ past) :
    AnswersItself localtime cache ⟨microSec, microSec % msPerSec⟩ ↔
      (∃ old ∈ past, old / msPerSec ≠ 0) ∧
        localtime (past.getLastD 0 / msPerSec) = localtime (microSec / msPerSec) := by
  have hsix : (printed 48 6 (microSec % msPerSec)).length = 6 :=
    printed_length (by norm_num) (Nat.mod_lt microSec (by decide))
  have hbuf : snprintf 16 (58 :: printed 48 6 (microSec % msPerSec)) =
      58 :: printed 48 6 (microSec % msPerSec) := by
    apply snprintf_of_lt
    rw [List.length_cons, hsix]
    norm_num
  have hown : AnswersItself localtime cache ⟨microSec, microSec % msPerSec⟩ ↔
      cache.timeStr = fmtSec (localtime (microSec / msPerSec)) := by
    unfold AnswersItself getFmtSec toString
    rw [hbuf, List.append_left_inj, and_self_iff]
  rw [hown, hholds.timeStr, hholds.lastSec]
  have hlast := hyears _ (getLastD_mem (List.ne_nil_of_mem hmem))
  split_ifs with hsome
  · rw [and_iff_right hsome]
    constructor
    · exact fmtSec_inj hlast (hyears microSec hmem)
    · exact congrArg fmtSec
  · constructor
    · intro hempty
      have hlength := fmtSec_length (hyears microSec hmem)
      rw [← hempty] at hlength
      exact absurd hlength (by decide)
    · intro hboth
      exact absurd hboth.1 hsome

variable (localtime)

/-- After every history of constructions, which never fail, a time stamp answers
with its own second exactly when the thread has met a second other than zero and the
last construction has the local time of this one. -/
theorem answersItself_iff_newest
    (history : List ℕ)
    (hyears : ∀ microSec ∈ history, FourDigitYear (localtime (microSec / msPerSec))) :
    ∃ stamps cache, constructAll localtime Cache.initial history = some (stamps, cache) ∧
      stamps.map microSec = history ∧ ∀ stamp ∈ stamps,
        (AnswersItself localtime cache stamp ↔
          (∃ old ∈ history, old / msPerSec ≠ 0) ∧
            localtime (history.getLastD 0 / msPerSec) =
              localtime (stamp.microSec / msPerSec)) := by
  obtain ⟨stamps, cache, hall, hstamps, hholds⟩ :=
    (Holds.initial localtime).constructAll hyears
  refine ⟨stamps, cache, hall, ?_, ?_⟩
  · rw [hstamps, List.map_map]
    exact List.map_id history
  · intro stamp hstamp
    rw [hstamps] at hstamp
    obtain ⟨micro, hmicro, rfl⟩ := List.mem_map.mp hstamp
    exact hholds.answersItself hyears hmicro

/-! ## The first day of 1970 -/

theorem firstDay_mon : 0 < 12 := by norm_num

theorem firstDay_mday : 1 ≤ 31 := by norm_num

theorem firstDay_hour (sec : ℕ) : sec / 3600 % 24 < 24 := Nat.mod_lt _ (by norm_num)

theorem firstDay_min (sec : ℕ) : sec / 60 % 60 < 60 := Nat.mod_lt _ (by norm_num)

theorem firstDay_sec (sec : ℕ) : sec % 60 ≤ 60 := (Nat.mod_lt sec (by norm_num)).le

/-- `localtime_r` with the time zone UTC, for the seconds of the first day. -/
def firstDay (sec : ℕ) : Tm :=
  ⟨70, 0, 1, sec / 3600 % 24, sec / 60 % 60, sec % 60, firstDay_mon, firstDay_mday,
    firstDay_hour sec, firstDay_min sec, firstDay_sec sec⟩

theorem firstDay_fourDigitYear (sec : ℕ) : FourDigitYear (firstDay sec) := by
  unfold FourDigitYear firstDay
  norm_num

/-- A second that is constructed twice and asked for last. -/
theorem answersItself_twice :
    ∃ stamps cache,
      constructAll firstDay Cache.initial [1000000, 2000000, 2000233] = some (stamps, cache) ∧
        stamps.map microSec = [1000000, 2000000, 2000233] ∧ ∀ stamp ∈ stamps,
          (AnswersItself firstDay cache stamp ↔
            (∃ old ∈ [1000000, 2000000, 2000233], old / msPerSec ≠ 0) ∧
              firstDay ([1000000, 2000000, 2000233].getLastD 0 / msPerSec) =
                firstDay (stamp.microSec / msPerSec)) :=
  answersItself_iff_newest firstDay [1000000, 2000000, 2000233]
    (fun _ _ => firstDay_fourDigitYear _)

/-- An older time stamp answers with the newer second, and second zero, when it is
the first one, with nothing at all. -/
theorem not_answersItself :
    (∃ stamps cache,
      constructAll firstDay Cache.initial [1000000, 2000000] = some (stamps, cache) ∧
        ⟨1000000, 0⟩ ∈ stamps ∧ ¬ AnswersItself firstDay cache ⟨1000000, 0⟩) ∧
      ∃ stamps cache, constructAll firstDay Cache.initial [5] = some (stamps, cache) ∧
        ⟨5, 5⟩ ∈ stamps ∧ ¬ AnswersItself firstDay cache ⟨5, 5⟩ := by
  have hyears : ∀ history : List ℕ, ∀ microSec ∈ history,
      FourDigitYear (firstDay (microSec / msPerSec)) :=
    fun _ _ _ => firstDay_fourDigitYear _
  constructor
  · obtain ⟨stamps, cache, hall, hstamps, hholds⟩ :=
      (Holds.initial firstDay).constructAll (hyears [1000000, 2000000])
    refine ⟨stamps, cache, hall, by rw [hstamps]; decide, ?_⟩
    have hiff := @Holds.answersItself firstDay [1000000, 2000000] cache 1000000 hholds
      (hyears _) (by decide)
    intro hanswers
    exact absurd (hiff.mp hanswers).2 (by decide)
  · obtain ⟨stamps, cache, hall, hstamps, hholds⟩ :=
      (Holds.initial firstDay).constructAll (hyears [5])
    refine ⟨stamps, cache, hall, by rw [hstamps]; decide, ?_⟩
    have hiff := @Holds.answersItself firstDay [5] cache 5 hholds (hyears _) (by decide)
    intro hanswers
    exact absurd (hiff.mp hanswers).1 (by decide)

end CacheTimeStamp

end BackEndFacility
