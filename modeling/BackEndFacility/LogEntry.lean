import BackEndFacility.Arena
import BackEndFacility.AtomicOps
import BackEndFacility.Numeral

/-!
# One log entry in its buffer

`LogWorker::Log` writes an entry into a buffer of `LockFreeBuffer`: a pointer to the
output stream, the time stamp, and the message behind it.  The length of the message
is limited, the length of stamp and message together is not.  The memory of the
buffer is an arena whose cells hold whatever the last entry left there; behind
`Granularity()` bytes the next node begins.

What `strftime` prints is a part of the stamp, and the formatted text is an argument.
-/

namespace BackEndFacility

namespace LogEntry

/-- `sizeof(LogEntity)`, and with it the offset of `data`. -/
def sizeofLogEntity : ℕ := 8

/-- `Granularity()` of the buffers, from the `granularity` of the `LogWorker`. -/
def bufferGranularity (granularity : ℕ) : ℕ :=
  alignTo ((granularity + sizeofLogEntity) % 2 ^ 64) 16

/-- The value of the counter and what `strftime` leaves in its 32 bytes. -/
structure TimeStamp where
  counter : ℕ
  date : List UInt8
  date_length : date.length ≤ 31
  nul_date : 0 ∉ date

/-- `"[%llu]"` -/
def TimeStamp.counted (stamp : TimeStamp) : List UInt8 :=
  91 :: numeral 10 decimalDigit stamp.counter ++ [93]

def TimeStamp.text (stamp : TimeStamp) : List UInt8 := stamp.counted ++ stamp.date

def patchTimeStamp (memory : Arena UInt8) (buff : ℕ) (stamp : TimeStamp) : Arena UInt8 × ℕ :=
  let memory := memory.copy buff (stamp.counted ++ [0])
  let tl := stamp.counted.length
  let memory := memory.copy (buff + tl) (stamp.date ++ [0])
  (memory, tl + stamp.date.length)

/-- The argument of `Log`: a `std::string`, or what the format prints as. -/
inductive Message where
  | string (bytes : List UInt8)
  | formatted (bytes : List UInt8)

def Message.bytes : Message → List UInt8
  | .string bytes => bytes
  | .formatted bytes => bytes

/-- The length that the string version copies. -/
def copiedLength (granularity : ℕ) (bytes : List UInt8) : ℕ :=
  if granularity ≤ bytes.length then wordSub granularity 1 else bytes.length

/-- `Log` on the buffer that it was given; no entry for the empty string. -/
def log (granularity : ℕ) (fout : Fin 8 → UInt8) (stamp : TimeStamp) (memory : Arena UInt8) :
    Message → Option (Arena UInt8)
  | .string bytes =>
      if bytes.length = 0 then none
      else
        let memory := memory.copy 0 (List.ofFn fout)
        match patchTimeStamp memory sizeofLogEntity stamp with
        | (memory, tl) =>
            some (memory.strncpy (sizeofLogEntity + tl) bytes (copiedLength granularity bytes))
  | .formatted bytes =>
      let memory := memory.copy 0 (List.ofFn fout)
      match patchTimeStamp memory sizeofLogEntity stamp with
      | (memory, tl) =>
          some (memory.snprintf (sizeofLogEntity + tl) (wordSub granularity 1) bytes)

/-- What `Flush` prints: the string at `data`.  Behind the buffer the memory belongs
to others and has no fixed content. -/
def flush (granularity : ℕ) (memory : Arena UInt8) : Option (List UInt8) :=
  memory.cString sizeofLogEntity (bufferGranularity granularity)

/-- Stamp, message and NUL have room in the buffer. -/
def HasRoom (granularity : ℕ) (stamp : TimeStamp) (bytes : List UInt8) : Prop :=
  sizeofLogEntity + stamp.text.length + bytes.length < bufferGranularity granularity

/-- The entry stays in its buffer and prints the stamp and the message, a part of
the message only when there is no room for it. -/
structure PrintsItself (granularity : ℕ) (stamp : TimeStamp) (bytes : List UInt8)
    (memory : Arena UInt8) : Prop where
  within : memory.extent ≤ bufferGranularity granularity
  prints : ∃ shown, shown <+: bytes ∧
    flush granularity memory = some (stamp.text ++ shown) ∧
      (HasRoom granularity stamp bytes → shown = bytes)

/-! ## The stamp -/

theorem TimeStamp.nul_text (stamp : TimeStamp) : 0 ∉ stamp.text := by
  have hdigits : 0 ∉ numeral 10 decimalDigit stamp.counter := by
    intro hmem
    obtain ⟨d, hd, heq⟩ := mem_numeral (by norm_num) hmem
    have hvalue := decimalDigit_toNat hd
    rw [← heq] at hvalue
    change 0 = 48 + d at hvalue
    omega
  unfold TimeStamp.text TimeStamp.counted
  simp [hdigits, stamp.nul_date]

theorem patchTimeStamp_eq (memory : Arena UInt8) (buff : ℕ) (stamp : TimeStamp) :
    patchTimeStamp memory buff stamp =
      (memory.copy buff (stamp.text ++ [0]), stamp.text.length) := by
  have hlength : stamp.text.length = stamp.counted.length + stamp.date.length :=
    List.length_append
  rw [hlength]
  exact congrArg (fun memory => (memory, stamp.counted.length + stamp.date.length))
    (Arena.copy_terminated_at memory buff stamp.counted stamp.date 0)

/-! ## The memory behind the stamp -/

/-- The buffer with the output stream, the stamp, and `tail` behind the stamp. -/
def entry (fout : Fin 8 → UInt8) (stamp : TimeStamp) (old : ℕ → UInt8) (tail : List UInt8) :
    Arena UInt8 :=
  ((Arena.fresh old).copy 0 (List.ofFn fout)).copy sizeofLogEntity (stamp.text ++ tail)

/-- The string version leaves the NUL of the stamp only when it copies nothing. -/
def stringTail (granularity : ℕ) (bytes : List UInt8) : List UInt8 :=
  if copiedLength granularity bytes = 0 then [0]
  else
    (bytes.takeWhile (· != 0)).take (copiedLength granularity bytes) ++
      List.replicate (copiedLength granularity bytes - (bytes.takeWhile (· != 0)).length) 0

def formattedTail (granularity : ℕ) (bytes : List UInt8) : List UInt8 :=
  bytes.take (wordSub granularity 1 - 1) ++ [0]

theorem stringTail_length (granularity : ℕ) (bytes : List UInt8) :
    (stringTail granularity bytes).length = max 1 (copiedLength granularity bytes) := by
  unfold stringTail
  split_ifs with hzero
  · rw [hzero]
    rfl
  · rw [List.length_append, List.length_take, List.length_replicate]
    omega

section Entry

variable (granularity : ℕ) (fout : Fin 8 → UInt8) (stamp : TimeStamp) (old : ℕ → UInt8)

theorem copy_stamped (next : UInt8) (rest : List UInt8) :
    (((Arena.fresh old).copy 0 (List.ofFn fout)).copy sizeofLogEntity
      (stamp.text ++ [0])).copy (sizeofLogEntity + stamp.text.length) (next :: rest) =
        entry fout stamp old (next :: rest) :=
  Arena.copy_copy_overlap _ _ _ _ _ _

theorem log_string {bytes : List UInt8} (hbytes : bytes ≠ []) :
    log granularity fout stamp (Arena.fresh old) (.string bytes) =
      some (entry fout stamp old (stringTail granularity bytes)) := by
  have hlength : ¬ bytes.length = 0 := fun hzero => hbytes (List.length_eq_zero_iff.mp hzero)
  have htail := stringTail_length granularity bytes
  rw [log, if_neg hlength]
  simp only [patchTimeStamp_eq, Arena.strncpy]
  refine congrArg some ?_
  unfold stringTail at htail ⊢
  by_cases hzero : copiedLength granularity bytes = 0
  · rw [if_pos hzero, hzero, List.take_zero, Nat.zero_sub]
    rfl
  · rw [if_neg hzero] at htail ⊢
    obtain ⟨next, rest, hcons⟩ := List.exists_cons_of_length_pos
      (Nat.lt_of_lt_of_le Nat.zero_lt_one ((le_max_left 1 _).trans htail.ge))
    simp only [hcons]
    exact copy_stamped fout stamp old next rest

theorem log_formatted (bytes : List UInt8) :
    log granularity fout stamp (Arena.fresh old) (.formatted bytes) =
      some (entry fout stamp old (formattedTail granularity bytes)) := by
  rw [log]
  simp only [patchTimeStamp_eq, Arena.snprintf, formattedTail]
  refine congrArg some ?_
  by_cases hzero : wordSub granularity 1 = 0
  · rw [if_pos hzero, hzero, Nat.zero_sub, List.take_zero]
    rfl
  · rw [if_neg hzero]
    cases hcut : bytes.take (wordSub granularity 1 - 1) with
    | nil => exact copy_stamped fout stamp old 0 []
    | cons next rest => exact copy_stamped fout stamp old next (rest ++ [0])

variable {granularity fout stamp old}
variable {bytes tail : List UInt8}

theorem entry_eq :
    entry fout stamp old tail =
      (((Arena.fresh old).copy 0 (List.ofFn fout)).copy sizeofLogEntity stamp.text).copy
        (sizeofLogEntity + stamp.text.length) tail :=
  Arena.copy_append _ _ _ _

theorem entry_extent (htail : tail ≠ []) :
    (entry fout stamp old tail).extent =
      sizeofLogEntity + stamp.text.length + tail.length := by
  have hne : stamp.text ++ tail ≠ [] := List.append_ne_nil_of_right_ne_nil _ htail
  have hfout : ((Arena.fresh old).copy 0 (List.ofFn fout)).extent ≤ sizeofLogEntity :=
    Arena.copy_extent_le (Nat.zero_le _) (by rw [List.length_ofFn]; rfl)
  unfold entry
  rw [Arena.copy_extent, if_neg hne, List.length_append, ← Nat.add_assoc]
  exact max_eq_right (by omega)

theorem entry_cell {index : ℕ}
    (hindex : sizeofLogEntity + stamp.text.length + tail.length ≤ index) :
    (entry fout stamp old tail).cell index = old index := by
  unfold entry
  rw [Arena.cell_copy_of_le (by rw [List.length_append]; omega),
    Arena.cell_copy_of_le (by rw [List.length_ofFn]; unfold sizeofLogEntity at hindex; omega)]
  rfl

theorem cString_entry (limit : ℕ) :
    (entry fout stamp old tail).cString
        (sizeofLogEntity + stamp.text.length + tail.length) limit =
      (Arena.fresh old).cString (sizeofLogEntity + stamp.text.length + tail.length) limit :=
  Arena.cString_congr fun _ hindex => entry_cell hindex

theorem flush_entry {shown : List UInt8} :
    flush granularity (entry fout stamp old tail) = some (stamp.text ++ shown) ↔
      (entry fout stamp old tail).cString (sizeofLogEntity + stamp.text.length)
        (bufferGranularity granularity) = some shown := by
  apply Arena.cString_append_iff stamp.nul_text
  rw [entry_eq, Arena.read_copy_of_le le_rfl, Arena.read_copy_self]

/-- A tail with a NUL in it prints up to the NUL. -/
theorem printsItself_of_nul {front rest : List UInt8} (hnul : 0 ∉ front)
    (htail : tail = front ++ 0 :: rest) :
    PrintsItself granularity stamp bytes (entry fout stamp old tail) ↔
      sizeofLogEntity + stamp.text.length + tail.length ≤ bufferGranularity granularity ∧
        front <+: bytes ∧ (HasRoom granularity stamp bytes → front = bytes) := by
  have hne : tail ≠ [] := by
    rw [htail]
    exact List.append_ne_nil_of_right_ne_nil _ (List.cons_ne_nil _ _)
  have hlength : tail.length = front.length + (rest.length + 1) := by
    rw [htail, List.length_append, List.length_cons]
  have hstring (hroom : sizeofLogEntity + stamp.text.length + tail.length ≤
      bufferGranularity granularity) :
      (entry fout stamp old tail).cString (sizeofLogEntity + stamp.text.length)
        (bufferGranularity granularity) = some front := by
    rw [entry_eq, htail]
    exact Arena.cString_copy_nul hnul (by omega) _ _
  constructor
  · rintro ⟨hwithin, shown, hprefix, hflush, hwhole⟩
    rw [entry_extent hne] at hwithin
    rw [flush_entry, hstring hwithin] at hflush
    rw [Option.some.inj hflush]
    exact ⟨hwithin, hprefix, hwhole⟩
  · rintro ⟨hwithin, hprefix, hwhole⟩
    refine ⟨?_, front, hprefix, flush_entry.mpr (hstring hwithin), hwhole⟩
    rwa [entry_extent hne]

/-- Behind a tail without a NUL the old content shows. -/
theorem printsItself_of_not_nul (hne : tail ≠ []) (hnul : 0 ∉ tail) :
    PrintsItself granularity stamp bytes (entry fout stamp old tail) ↔
      sizeofLogEntity + stamp.text.length + tail.length ≤ bufferGranularity granularity ∧
        ∃ stale, (Arena.fresh old).cString (sizeofLogEntity + stamp.text.length + tail.length)
          (bufferGranularity granularity) = some stale ∧
            tail ++ stale <+: bytes ∧
              (HasRoom granularity stamp bytes → tail ++ stale = bytes) := by
  have hread : (entry fout stamp old tail).read (sizeofLogEntity + stamp.text.length)
      tail.length = tail := by
    rw [entry_eq, Arena.read_copy_self]
  constructor
  · rintro ⟨hwithin, shown, hprefix, hflush, hwhole⟩
    rw [entry_extent hne] at hwithin
    obtain ⟨stale, rfl, hstale⟩ :=
      Arena.cString_of_prefix hnul hread (flush_entry.mp hflush)
    rw [cString_entry] at hstale
    exact ⟨hwithin, stale, hstale, hprefix, hwhole⟩
  · rintro ⟨hwithin, stale, hstale, hprefix, hwhole⟩
    refine ⟨?_, tail ++ stale, hprefix, flush_entry.mpr ?_, hwhole⟩
    · rwa [entry_extent hne]
    · rw [Arena.cString_append_iff hnul hread, cString_entry]
      exact hstale

/-! ## The string version -/

/-- What is copied holds a NUL, or nothing is copied and the NUL of the stamp stays. -/
def BringsNul (granularity : ℕ) (bytes : List UInt8) : Prop :=
  copiedLength granularity bytes = 0 ∨ 0 ∈ bytes.take (copiedLength granularity bytes)

/-- The old content behind the copied bytes goes on like the message. -/
def OldContinues (granularity : ℕ) (stamp : TimeStamp) (old : ℕ → UInt8)
    (bytes : List UInt8) : Prop :=
  ∃ stale, (Arena.fresh old).cString
      (sizeofLogEntity + stamp.text.length + copiedLength granularity bytes)
        (bufferGranularity granularity) = some stale ∧
    stale <+: bytes.drop (copiedLength granularity bytes) ∧
      (HasRoom granularity stamp bytes → stale = bytes.drop (copiedLength granularity bytes))

def StringSafe (granularity : ℕ) (stamp : TimeStamp) (old : ℕ → UInt8)
    (bytes : List UInt8) : Prop :=
  sizeofLogEntity + stamp.text.length + max 1 (copiedLength granularity bytes) ≤
      bufferGranularity granularity ∧
    (BringsNul granularity bytes → ¬ HasRoom granularity stamp bytes) ∧
      (¬ BringsNul granularity bytes → OldContinues granularity stamp old bytes)

theorem copiedLength_le (hgranularity : granularity ≠ 0) :
    copiedLength granularity bytes ≤ bytes.length := by
  unfold copiedLength
  split_ifs with hlong
  · unfold wordSub
    rw [show granularity + (2 ^ 64 - 1) = granularity - 1 + 2 ^ 64 by omega, Nat.add_mod_right]
    have hmod := Nat.mod_le (granularity - 1) (2 ^ 64)
    omega
  · exact le_rfl

/-- Without a granularity the copied length is the largest word. -/
theorem bufferGranularity_lt (hbytes : granularity = 0) :
    bufferGranularity granularity < max 1 (copiedLength granularity bytes) := by
  have hcopied : copiedLength 0 bytes = 2 ^ 64 - 1 := if_pos (Nat.zero_le _)
  have hbuffer : bufferGranularity 0 = 16 := by decide
  rw [hbytes, hcopied, hbuffer]
  norm_num

theorem printsItself_string_of_bringsNul (hbytes : bytes ≠ [])
    (hbrings : BringsNul granularity bytes) :
    PrintsItself granularity stamp bytes (entry fout stamp old (stringTail granularity bytes)) ↔
      sizeofLogEntity + stamp.text.length + max 1 (copiedLength granularity bytes) ≤
          bufferGranularity granularity ∧
        ¬ HasRoom granularity stamp bytes := by
  by_cases hzero : copiedLength granularity bytes = 0
  · have htail : stringTail granularity bytes = [] ++ 0 :: [] := if_pos hzero
    rw [printsItself_of_nul List.not_mem_nil htail, stringTail_length]
    refine and_congr_right fun _ => ?_
    rw [and_iff_right (List.nil_prefix), imp_iff_not hbytes.symm]
  · have hnul : 0 ∈ bytes.take (copiedLength granularity bytes) := hbrings.resolve_left hzero
    have hshort : (bytes.takeWhile (· != 0)).length < copiedLength granularity bytes := by
      obtain ⟨rest, hrest⟩ := Arena.exists_takeWhile_nul hnul
      have hsame : bytes.takeWhile (· != 0) =
          (bytes.take (copiedLength granularity bytes)).takeWhile (· != 0) := by
        conv_lhs => rw [← List.take_append_drop (copiedLength granularity bytes) bytes, hrest,
          List.append_assoc, List.cons_append]
        exact Arena.takeWhile_nul (Arena.nul_takeWhile _) _
      have hlength := congrArg List.length hrest
      rw [List.length_append, List.length_cons, List.length_take] at hlength
      rw [hsame]
      omega
    have htail : stringTail granularity bytes = bytes.takeWhile (· != 0) ++
        0 :: List.replicate
          (copiedLength granularity bytes - (bytes.takeWhile (· != 0)).length - 1) 0 := by
      unfold stringTail
      rw [if_neg hzero, List.take_of_length_le hshort.le, ← List.replicate_succ]
      congr 2
      omega
    have hne : bytes.takeWhile (· != 0) ≠ bytes := by
      intro heq
      have hnone := Arena.nul_takeWhile bytes
      rw [heq] at hnone
      exact hnone (List.mem_of_mem_take hnul)
    rw [printsItself_of_nul (Arena.nul_takeWhile bytes) htail, stringTail_length]
    refine and_congr_right fun _ => ?_
    rw [and_iff_right (List.takeWhile_prefix _), imp_iff_not hne]

theorem take_append_prefix_iff {n : ℕ} {stale : List UInt8} :
    bytes.take n ++ stale <+: bytes ↔ stale <+: bytes.drop n := by
  have hprefix := @List.prefix_append_right_inj UInt8 stale (bytes.drop n) (bytes.take n)
  rwa [List.take_append_drop] at hprefix

theorem take_append_eq_iff {n : ℕ} {stale : List UInt8} :
    bytes.take n ++ stale = bytes ↔ stale = bytes.drop n := by
  have heq := @List.append_right_inj UInt8 stale (bytes.drop n) (bytes.take n)
  rwa [List.take_append_drop] at heq

theorem printsItself_string_of_not_bringsNul
    (hbrings : ¬ BringsNul granularity bytes) (hgranularity : granularity ≠ 0) :
    PrintsItself granularity stamp bytes (entry fout stamp old (stringTail granularity bytes)) ↔
      sizeofLogEntity + stamp.text.length + max 1 (copiedLength granularity bytes) ≤
          bufferGranularity granularity ∧
        OldContinues granularity stamp old bytes := by
  obtain ⟨hzero, hnul⟩ := not_or.mp hbrings
  have hcopied : copiedLength granularity bytes ≤ bytes.length := copiedLength_le hgranularity
  have hlength : (bytes.take (copiedLength granularity bytes)).length =
      copiedLength granularity bytes := List.length_take_of_le hcopied
  have hfront : ∃ rest, bytes.takeWhile (· != 0) =
      bytes.take (copiedLength granularity bytes) ++ rest := by
    refine ⟨(bytes.drop (copiedLength granularity bytes)).takeWhile (· != 0), ?_⟩
    conv_lhs => rw [← List.take_append_drop (copiedLength granularity bytes) bytes]
    exact Arena.takeWhile_append hnul _
  obtain ⟨rest, hrest⟩ := hfront
  have htail : stringTail granularity bytes = bytes.take (copiedLength granularity bytes) := by
    unfold stringTail
    rw [if_neg hzero, hrest, List.take_left' hlength, List.length_append, hlength,
      Nat.sub_eq_zero_of_le (Nat.le_add_right _ _), List.replicate_zero, List.append_nil]
  have hne : stringTail granularity bytes ≠ [] := by
    intro hnil
    rw [htail, ← List.length_eq_zero_iff, hlength] at hnil
    exact hzero hnil
  rw [printsItself_of_not_nul hne (htail ▸ hnul), stringTail_length,
    max_eq_right (Nat.pos_of_ne_zero hzero), htail]
  refine and_congr_right fun _ => exists_congr fun stale => and_congr_right fun _ => ?_
  rw [take_append_prefix_iff, take_append_eq_iff]

theorem printsItself_string (hbytes : bytes ≠ []) :
    PrintsItself granularity stamp bytes (entry fout stamp old (stringTail granularity bytes)) ↔
      StringSafe granularity stamp old bytes := by
  unfold StringSafe
  by_cases hbrings : BringsNul granularity bytes
  · rw [printsItself_string_of_bringsNul hbytes hbrings]
    simp only [hbrings, not_true, false_implies, true_implies, and_true]
  · by_cases hgranularity : granularity = 0
    · have hsmall := @bufferGranularity_lt granularity bytes hgranularity
      have hleaves : ¬ PrintsItself granularity stamp bytes
          (entry fout stamp old (stringTail granularity bytes)) := by
        intro hprints
        have hwithin := hprints.within
        have hlength := stringTail_length granularity bytes
        rw [entry_extent (List.ne_nil_of_length_pos (by omega)), hlength] at hwithin
        omega
      refine iff_of_false hleaves fun hsafe => ?_
      have hbound := hsafe.1
      omega
    · rw [printsItself_string_of_not_bringsNul hbrings hgranularity]
      simp only [hbrings, not_false_eq_true, false_implies, true_implies, true_and]

/-! ## The formatted version -/

def FormattedSafe (granularity : ℕ) (stamp : TimeStamp) (bytes : List UInt8) : Prop :=
  sizeofLogEntity + stamp.text.length + min (wordSub granularity 1 - 1) bytes.length <
      bufferGranularity granularity ∧
    (HasRoom granularity stamp bytes →
      bytes.length ≤ wordSub granularity 1 - 1 ∧ 0 ∉ bytes)

theorem printsItself_formatted :
    PrintsItself granularity stamp bytes
        (entry fout stamp old (formattedTail granularity bytes)) ↔
      FormattedSafe granularity stamp bytes := by
  have hmem : 0 ∈ formattedTail granularity bytes :=
    List.mem_append_right _ List.mem_cons_self
  have hlength : (formattedTail granularity bytes).length =
      min (wordSub granularity 1 - 1) bytes.length + 1 := by
    unfold formattedTail
    rw [List.length_append, List.length_take, List.length_singleton]
  obtain ⟨rest, htail⟩ := Arena.exists_takeWhile_nul hmem
  have hnul := Arena.nul_takeWhile (formattedTail granularity bytes)
  generalize (formattedTail granularity bytes).takeWhile (· != 0) = front at htail hnul
  have hcut : front <+: bytes.take (wordSub granularity 1 - 1) := by
    have hfront : front.length + (rest.length + 1) =
        (formattedTail granularity bytes).length := by
      rw [htail, List.length_append, List.length_cons]
    refine List.prefix_of_prefix_length_le ⟨0 :: rest, htail.symm⟩ (List.prefix_append _ [0]) ?_
    rw [List.length_take]
    omega
  have hwhole : front = bytes ↔ bytes.length ≤ wordSub granularity 1 - 1 ∧ 0 ∉ bytes := by
    constructor
    · rintro rfl
      have hle := hcut.length_le
      rw [List.length_take] at hle
      exact ⟨by omega, hnul⟩
    · rintro ⟨hle, hnone⟩
      unfold formattedTail at htail
      rw [List.take_of_length_le hle] at htail
      have hleft := Arena.takeWhile_nul hnone []
      rw [htail, Arena.takeWhile_nul hnul] at hleft
      exact hleft
  unfold FormattedSafe
  rw [printsItself_of_nul hnul htail, and_iff_right (hcut.trans (List.take_prefix _ _)), hwhole,
    hlength, ← Nat.add_assoc, Nat.succ_le_iff]

end Entry

/-! ## The entry -/

/-- The condition on granularity, stamp, message and old content under which an
entry stays in its buffer and prints itself. -/
def Safe (granularity : ℕ) (stamp : TimeStamp) (old : ℕ → UInt8) : Message → Prop
  | .string bytes => StringSafe granularity stamp old bytes
  | .formatted bytes => FormattedSafe granularity stamp bytes

theorem printsItself_iff
    (granularity : ℕ) (fout : Fin 8 → UInt8) (stamp : TimeStamp) (old : ℕ → UInt8)
    (message : Message) (memory : Arena UInt8)
    (hlog : log granularity fout stamp (Arena.fresh old) message = some memory) :
    PrintsItself granularity stamp message.bytes memory ↔ Safe granularity stamp old message := by
  cases message with
  | string bytes =>
      have hbytes : bytes ≠ [] := by
        rintro rfl
        rw [log, if_pos List.length_nil] at hlog
        exact absurd hlog.symm (Option.some_ne_none memory)
      rw [log_string granularity fout stamp old hbytes] at hlog
      rw [← Option.some.inj hlog]
      exact printsItself_string hbytes
  | formatted bytes =>
      rw [log_formatted] at hlog
      rw [← Option.some.inj hlog]
      exact printsItself_formatted

/-! ## Two entries -/

def noon : List UInt8 := "[12:00:00 01/01/70]".toList.map Char.toUInt8

theorem noon_length : noon.length ≤ 31 := by decide

theorem nul_noon : 0 ∉ noon := by decide

def noonStamp : TimeStamp := ⟨0, noon, noon_length, nul_noon⟩

theorem noonStamp_length : noonStamp.text.length = 22 := by decide

/-- A formatted text that fits prints itself, and one with a zero byte in it does not. -/
theorem printsItself_formattedOk :
    PrintsItself 64 noonStamp [111, 107]
        (entry (fun _ => 7) noonStamp (fun _ => 122) (formattedTail 64 [111, 107])) ∧
      ¬ PrintsItself 64 noonStamp [111, 0, 107]
        (entry (fun _ => 7) noonStamp (fun _ => 122) (formattedTail 64 [111, 0, 107])) := by
  have hsafe : Safe 64 noonStamp (fun _ => 122) (.formatted [111, 107]) :=
    ⟨by decide, fun _ => by decide⟩
  have hunsafe : ¬ Safe 64 noonStamp (fun _ => 122) (.formatted [111, 0, 107]) := by
    rintro ⟨-, hroom⟩
    have hinside : HasRoom 64 noonStamp [111, 0, 107] := by
      unfold HasRoom
      decide
    exact absurd (hroom hinside).2 (by decide)
  constructor
  · exact (printsItself_iff 64 (fun _ => 7) noonStamp (fun _ => 122) (.formatted [111, 107]) _
      (log_formatted 64 (fun _ => 7) noonStamp (fun _ => 122) [111, 107])).mpr hsafe
  · intro hprints
    exact hunsafe ((printsItself_iff 64 (fun _ => 7) noonStamp (fun _ => 122)
      (.formatted [111, 0, 107]) _
      (log_formatted 64 (fun _ => 7) noonStamp (fun _ => 122) [111, 0, 107])).mp hprints)

/-- A message as long as the granularity runs over the end of its buffer, and a short
one shows the byte that an older entry left behind it. -/
theorem not_printsItself :
    (∃ memory, log 16 (fun _ => 7) noonStamp (Arena.fresh fun _ => 0)
        (.string (List.replicate 16 97)) = some memory ∧
      ¬ memory.extent ≤ bufferGranularity 16) ∧
    ∃ memory, log 64 (fun _ => 7) noonStamp (Arena.fresh fun index => if index = 32 then 122 else 0)
        (.string [111, 107]) = some memory ∧
      flush 64 memory = some (noonStamp.text ++ [111, 107, 122]) ∧
        ¬ PrintsItself 64 noonStamp [111, 107] memory := by
  constructor
  · refine ⟨_, log_string _ _ _ _ (List.cons_ne_nil _ _), ?_⟩
    rw [entry_extent (by decide), noonStamp_length]
    decide
  · have hstale : flush 64 (entry (fun _ => 7) noonStamp
        (fun index => if index = 32 then 122 else 0)
        (stringTail 64 [111, 107])) = some (noonStamp.text ++ [111, 107, 122]) := by
      have htail : stringTail 64 [111, 107] = [111, 107] := by decide
      rw [flush_entry, htail, show [111, 107, 122] = [111, 107] ++ [(122 : UInt8)] from rfl,
        Arena.cString_append_iff (by decide) (by rw [entry_eq, Arena.read_copy_self]),
        cString_entry]
      decide
    refine ⟨_, log_string _ _ _ _ (List.cons_ne_nil _ _), hstale, ?_⟩
    rintro ⟨-, shown, hprefix, hflush, -⟩
    have hshown : [111, 107, 122] = shown :=
      List.append_cancel_left (Option.some.inj (hstale.symm.trans hflush))
    have hlength := hprefix.length_le
    rw [← hshown] at hlength
    exact absurd hlength (by decide)

end LogEntry

end BackEndFacility
