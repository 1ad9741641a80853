import BackEndFacility.Arena
import BackEndFacility.Machine
import BackEndFacility.Numeral

/-!
# The log stream of `slog/LogStream.cc`

A stream formats into a buffer that it does not own.  `m_cur` and `m_size` are of
type `size_t`, and so is their difference: once `m_cur` has passed the end of the
buffer the room that is left looks enormous.

What `snprintf` would print is an argument of `FmtAppend`.
-/

namespace BackEndFacility

/-- `m_buff`, `m_cur` and `m_size`. -/
@[ext]
structure LogStream where
  buff : Arena UInt8
  cur : ℕ
  size : ℕ
  size_lt : size < 2 ^ 64

namespace LogStream

def construct (buff : Arena UInt8) (size : ℕ) (size_lt : size < 2 ^ 64) : LogStream :=
  ⟨buff, 0, size, size_lt⟩

/-- `m_size - m_cur` -/
def left (stream : LogStream) : ℕ :=
  (((stream.size : ℤ) - stream.cur) % 2 ^ 64).toNat

/-- `m_cur += len` -/
def advance (stream : LogStream) (len : ℕ) : LogStream :=
  { stream with cur := (stream.cur + len) % 2 ^ 64 }

def setBuff (stream : LogStream) (buff : Arena UInt8) : LogStream :=
  { stream with buff := buff }

@[simp]
theorem size_advance (stream : LogStream) (len : ℕ) : (stream.advance len).size = stream.size :=
  rfl

@[simp]
theorem buff_advance (stream : LogStream) (len : ℕ) : (stream.advance len).buff = stream.buff :=
  rfl

@[simp]
theorem cur_setBuff (stream : LogStream) (buff : Arena UInt8) :
    (stream.setBuff buff).cur = stream.cur :=
  rfl

@[simp]
theorem size_setBuff (stream : LogStream) (buff : Arena UInt8) :
    (stream.setBuff buff).size = stream.size :=
  rfl

@[simp]
theorem buff_setBuff (stream : LogStream) (buff : Arena UInt8) :
    (stream.setBuff buff).buff = buff :=
  rfl

def reset (stream : LogStream) : LogStream :=
  { stream with cur := 0, buff := stream.buff.store 0 0 }

/-- `Append`; no result when its assertion fails. -/
def append (stream : LogStream) (data : List UInt8) : Option (ℕ × LogStream) :=
  if data.length ≤ stream.left then
    some (data.length,
      (stream.setBuff (stream.buff.copy stream.cur data)).advance data.length)
  else none

/-- The room left goes through an `int` on its way to `snprintf`. -/
def fmtRoom (stream : LogStream) : ℕ :=
  ((stream.left : ℤ).bmod (2 ^ 32) % 2 ^ 64).toNat

/-- `FmtAppend`.  What `snprintf` returns is an `int` too. -/
def fmtAppend (stream : LogStream) (text : List UInt8) : Option (ℕ × LogStream) :=
  if text.length < 2 ^ 31 then
    let stream := stream.setBuff (stream.buff.snprintf stream.cur stream.fmtRoom text)
    if text.length = 0 then some (0, stream)
    else some (text.length, stream.advance text.length)
  else none

/-! ## Integers -/

def gDigits : List UInt8 :=
  ['9', '8', '7', '6', '5', '4', '3', '2', '1', '0', '1', '2', '3', '4', '5', '6', '7', '8',
    '9'].map Char.toUInt8

/-- `g_zero[lsd]`, where `g_zero` points to the middle of `g_digits`. -/
def gZero (lsd : ℤ) : UInt8 :=
  gDigits.getD (9 + lsd).toNat 0

def gDigitsHex : List UInt8 :=
  ['0', '1', '2', '3', '4', '5', '6', '7', '8', '9', 'A', 'B', 'C', 'D', 'E', 'F'].map
    Char.toUInt8

def hexDigit (lsd : ℤ) : UInt8 :=
  gDigitsHex.getD lsd.toNat 0

theorem natAbs_tdiv_lt
    {base : ℕ} {i : ℤ} (hbase : 1 < base) (hnext : i.tdiv base ≠ 0) :
    (i.tdiv base).natAbs < i.natAbs := by
  have habs : (i.tdiv base).natAbs = i.natAbs / base := Int.natAbs_tdiv i base
  have hpos : (i.tdiv base).natAbs ≠ 0 := Int.natAbs_ne_zero.mpr hnext
  rw [habs] at hpos ⊢
  exact Nat.div_lt_self (Nat.pos_of_ne_zero fun hzero => hpos (by rw [hzero, Nat.zero_div])) hbase

theorem one_lt_ten : 1 < 10 := by norm_num

theorem one_lt_sixteen : 1 < 16 := by norm_num

/-- The loop that writes the digits of `i` from the least significant one on; the
result holds the pointer behind the last of them. -/
def digitLoop (base : ℕ) (hbase : 1 < base) (table : ℤ → UInt8) (buff : Arena UInt8) (p : ℕ)
    (i : ℤ) : Arena UInt8 × ℕ :=
  let lsd := i.tmod base
  let next := i.tdiv base
  let buff := buff.store p (table lsd)
  if hnext : next = 0 then (buff, p + 1)
  else digitLoop base hbase table buff (p + 1) next
termination_by i.natAbs
decreasing_by exact natAbs_tdiv_lt hbase hnext

/-- `convert`, for either type of its argument. -/
def convert (buff : Arena UInt8) (buf : ℕ) (value : ℤ) : Arena UInt8 × ℕ :=
  match digitLoop 10 one_lt_ten gZero buff buf value with
  | (buff, p) => (buff.store p 0, p - buf)

def minus : UInt8 := 45

def convert64 (stream : LogStream) (value : Int64) : ℕ × LogStream :=
  if stream.left < 32 then (0, stream)
  else
    let ps := stream.cur
    match convert stream.buff ps value.toInt with
    | (buff, len) =>
        let stream := (stream.setBuff buff).advance len
        let stream :=
          if value.toInt < 0 then
            let stream := (stream.setBuff (stream.buff.store stream.cur minus)).advance 1
            stream.setBuff (stream.buff.store stream.cur 0)
          else stream
        (stream.cur - ps, stream.setBuff (stream.buff.reverse ps stream.cur))

def convert64U (stream : LogStream) (value : UInt64) : ℕ × LogStream :=
  if stream.left < 32 then (0, stream)
  else
    let ps := stream.cur
    match convert stream.buff ps value.toNat with
    | (buff, len) =>
        let stream := (stream.setBuff buff).advance len
        (len, stream.setBuff (stream.buff.reverse ps stream.cur))

/-- The text `"x0"`. -/
def hexMark : List UInt8 := ['x', '0'].map Char.toUInt8

/-- `ConvertHex`, which does not look at the room that is left. -/
def convertHex (stream : LogStream) (value : UInt64) : ℕ × LogStream :=
  let start := stream.cur
  match digitLoop 16 one_lt_sixteen hexDigit stream.buff start value.toNat with
  | (buff, p) =>
      let buff := buff.copy p hexMark
      let p := p + 2
      let buff := buff.store p 0
      let len := p - start
      (len, (stream.setBuff (buff.reverse start p)).advance len)

/-! ## The calls -/

/-- What `operator<<` is given.  A `double` comes as the text that `"%.12g"` makes
of it. -/
inductive Value where
  | signed (value : Int64)
  | unsigned (value : UInt64)
  | pointer (value : UInt64)
  | character (value : UInt8)
  | boolean (value : Bool)
  | cString (bytes : List UInt8)
  | array (bytes : List UInt8)
  | string (bytes : List UInt8)
  | double (text : List UInt8)

inductive Call where
  | append (data : List UInt8)
  | output (value : Value)
  | fmtAppend (text : List UInt8)
  | reset

/-- `operator<<` -/
def output (stream : LogStream) : Value → Option (ℕ × LogStream)
  | .signed value => some (stream.convert64 value)
  | .unsigned value => some (stream.convert64U value)
  | .pointer value => some (stream.convertHex value)
  | .character value => stream.append [value]
  | .boolean value => stream.append [if value then 49 else 48]
  | .cString bytes => stream.append (bytes.takeWhile (· != 0))
  | .array bytes => stream.append bytes.dropLast
  | .string bytes => stream.append bytes
  | .double text => stream.fmtAppend text

/-- The number of characters that a call returns is read by no caller. -/
def step (stream : LogStream) : Call → Option LogStream
  | .append data => (stream.append data).map Prod.snd
  | .output value => (stream.output value).map Prod.snd
  | .fmtAppend text => (stream.fmtAppend text).map Prod.snd
  | .reset => some stream.reset

/-- A stream over a buffer of `size` bytes that may hold anything. -/
def machine (cell : ℕ → UInt8) (size : ℕ) (size_lt : size < 2 ^ 64) : Machine LogStream Call where
  start := construct (.fresh cell) size size_lt
  step := step

/-- What the stream holds. -/
def contents (stream : LogStream) : List UInt8 :=
  stream.buff.read 0 stream.cur

/-! ## The digit loop -/

theorem digitLoop_eq
    {base : ℕ} (hbase : 1 < base) {table : ℤ → UInt8} {digit : ℕ → UInt8}
    (buff : Arena UInt8) (p : ℕ) (i : ℤ)
    (htable : ∀ lsd : ℤ, (lsd < 0 → i < 0) → lsd.natAbs < base →
      table lsd = digit lsd.natAbs) :
    digitLoop base hbase table buff p i =
      (buff.copy p (numeral base digit i.natAbs).reverse,
        p + (numeral base digit i.natAbs).length) := by
  induction hn : i.natAbs using Nat.strong_induction_on generalizing buff p i with
  | _ n ih =>
      subst hn
      have hlsd : table (i.tmod base) = digit (i.natAbs % base) := by
        have habs : (i.tmod base).natAbs = i.natAbs % base := Int.natAbs_tmod i base
        rw [← habs]
        refine htable (i.tmod base) (fun hneg => ?_) ?_
        · by_contra hnonneg
          have hrem := Int.tmod_nonneg (base : ℤ) (not_lt.mp hnonneg)
          omega
        · rw [habs]
          exact Nat.mod_lt _ (by omega)
      have hnext : (i.tdiv base).natAbs = i.natAbs / base := Int.natAbs_tdiv i base
      rw [digitLoop]
      simp only [hlsd]
      split_ifs with hzero
      · have hsmall : i.natAbs < base := by
          rw [hzero, Int.natAbs_zero] at hnext
          exact Nat.lt_of_div_eq_zero (by omega) hnext.symm
        rw [numeral_of_lt hsmall, Nat.mod_eq_of_lt hsmall]
        rfl
      · have hless := natAbs_tdiv_lt hbase hzero
        have hlarge : base ≤ i.natAbs := by
          by_contra hsmall
          rw [Nat.div_eq_of_lt (by omega)] at hnext
          exact hzero (Int.natAbs_eq_zero.mp hnext)
        have hsign : ∀ lsd : ℤ, (lsd < 0 → i.tdiv base < 0) → lsd.natAbs < base →
            table lsd = digit lsd.natAbs := by
          intro lsd hneg hlt
          refine htable lsd (fun hlsdneg => ?_) hlt
          by_contra hnonneg
          have hquot := Int.tdiv_nonneg (not_lt.mp hnonneg) (Int.natCast_nonneg base)
          have := hneg hlsdneg
          omega
        rw [ih (i.tdiv base).natAbs hless _ _ (i.tdiv base) hsign rfl, hnext,
          numeral_of_le hbase hlarge, List.reverse_append, List.length_append]
        rw [List.reverse_singleton, List.singleton_append, Arena.copy, List.length_singleton]
        rw [show p + 1 + (numeral base digit (i.natAbs / base)).length =
          p + ((numeral base digit (i.natAbs / base)).length + 1) by omega]

/-! ## Numbers as text -/

def upperHexDigit (d : ℕ) : UInt8 :=
  if d < 10 then UInt8.ofNat (48 + d) else UInt8.ofNat (55 + d)

/-- The canonical decimal text of a number. -/
def decimalText (value : ℤ) : List UInt8 :=
  (if value < 0 then [minus] else []) ++ numeral 10 decimalDigit value.natAbs

/-- The canonical hexadecimal text of a number, with the mark in front. -/
def hexText (value : ℕ) : List UInt8 :=
  hexMark.reverse ++ numeral 16 upperHexDigit value

theorem gZero_eq {lsd : ℤ} (hlsd : lsd.natAbs < 10) :
    gZero lsd = decimalDigit lsd.natAbs := by
  have hlower : -9 ≤ lsd := by omega
  have hupper : lsd ≤ 9 := by omega
  interval_cases lsd <;> rfl

theorem hexDigit_eq {lsd : ℤ} (hnonneg : 0 ≤ lsd) (hlsd : lsd.natAbs < 16) :
    hexDigit lsd = upperHexDigit lsd.natAbs := by
  have hupper : lsd ≤ 15 := by omega
  interval_cases lsd <;> rfl

theorem convert_eq (buff : Arena UInt8) (buf : ℕ) (value : ℤ) :
    convert buff buf value =
      (buff.copy buf ((numeral 10 decimalDigit value.natAbs).reverse ++ [0]),
        (numeral 10 decimalDigit value.natAbs).length) := by
  have hloop := digitLoop_eq one_lt_ten buff buf value
    (fun lsd _ hlsd => gZero_eq hlsd)
  unfold convert
  rw [hloop]
  simp only
  rw [← List.length_reverse, Arena.copy_store, Nat.add_sub_cancel_left]

theorem left_eq {stream : LogStream} (hcur : stream.cur ≤ stream.size) :
    stream.left = stream.size - stream.cur := by
  have hsize := stream.size_lt
  unfold left
  omega

theorem cur_advance
    {stream : LogStream} {len : ℕ} (hroom : stream.cur + len ≤ stream.size) :
    (stream.advance len).cur = stream.cur + len := by
  have hsize := stream.size_lt
  exact Nat.mod_eq_of_lt (by omega)

/-- The stream after a text was appended, with a NUL behind it. -/
structure Appended (stream : LogStream) (text : List UInt8) (after : LogStream) : Prop where
  cur_eq : after.cur = stream.cur + text.length
  size_eq : after.size = stream.size
  contents_eq : after.contents = stream.contents ++ text
  extent_eq : after.buff.extent = max stream.buff.extent (stream.cur + text.length + 1)

/-- A text written backwards, a NUL behind it, and then turned round. -/
def turned (stream : LogStream) (raw : List UInt8) : LogStream :=
  { stream with
    buff := (stream.buff.copy stream.cur (raw ++ [0])).reverse stream.cur
      (stream.cur + raw.length)
    cur := stream.cur + raw.length }

theorem turned_appended (stream : LogStream) (text : List UInt8) :
    stream.Appended text (stream.turned text.reverse) where
  cur_eq := by
    rw [← List.length_reverse]
    rfl
  size_eq := rfl
  contents_eq := by
    unfold contents turned
    simp only
    rw [Arena.reverse_copy, List.reverse_reverse, List.length_reverse, Arena.read_add,
      Nat.zero_add, Arena.read_copy_self, Arena.read_copy_of_le (by omega),
      Arena.read_copy_of_le (by omega)]
  extent_eq := by
    unfold turned
    simp only
    rw [Arena.reverse_copy, Arena.copy_extent, Arena.copy_extent]
    rw [if_neg (List.append_ne_nil_of_right_ne_nil text.reverse (List.cons_ne_nil 0 []))]
    simp only [List.length_append, List.length_singleton, List.length_reverse]
    split_ifs
    · omega
    · omega

theorem decimal_length_le {n : ℕ} (hn : n < 2 ^ 64) :
    (numeral 10 decimalDigit n).length ≤ 20 :=
  numeral_length_le (by norm_num) (by norm_num) (hn.trans_le (by norm_num))

theorem hex_length_le {n : ℕ} (hn : n < 2 ^ 64) :
    (numeral 16 upperHexDigit n).length ≤ 16 :=
  numeral_length_le (by norm_num) (by norm_num) (hn.trans_le (by norm_num))

theorem natAbs_toInt_lt (value : Int64) : value.toInt.natAbs < 2 ^ 64 := by
  have hlower := value.le_toInt
  have hupper := value.toInt_lt
  omega

theorem decimalText_length_le (value : Int64) : (decimalText value.toInt).length ≤ 21 := by
  have hdigits := decimal_length_le (natAbs_toInt_lt value)
  unfold decimalText
  rw [List.length_append]
  split_ifs
  · rw [List.length_singleton]
    omega
  · rw [List.length_nil]
    omega

theorem convert64_eq
    {stream : LogStream} (hroom : stream.cur + 32 ≤ stream.size) (value : Int64) :
    stream.convert64 value =
      ((decimalText value.toInt).length, stream.turned (decimalText value.toInt).reverse) := by
  have hsize := stream.size_lt
  have hleft : stream.left = stream.size - stream.cur := left_eq (by omega)
  have hlength := decimal_length_le (natAbs_toInt_lt value)
  unfold convert64 decimalText
  rw [if_neg (show ¬ stream.left < 32 by omega)]
  simp only [convert_eq]
  generalize numeral 10 decimalDigit value.toInt.natAbs = digits at hlength ⊢
  have hcur : (stream.cur + digits.length) % 2 ^ 64 = stream.cur + digits.length :=
    Nat.mod_eq_of_lt (by omega)
  split_ifs with hneg
  · have hraw : ([minus] ++ digits).reverse = digits.reverse ++ [minus] :=
      List.reverse_append
    have hnext : (stream.cur + digits.length + 1) % 2 ^ 64 = stream.cur + digits.length + 1 :=
      Nat.mod_eq_of_lt (by omega)
    have hbuff : ((stream.buff.copy stream.cur (digits.reverse ++ [0])).store
        (stream.cur + digits.length) minus).store (stream.cur + digits.length + 1) 0 =
          stream.buff.copy stream.cur (digits.reverse ++ [minus] ++ [0]) := by
      have hoverlap := Arena.copy_copy_overlap stream.buff stream.cur digits.reverse 0 minus [0]
      rw [List.length_reverse] at hoverlap
      rw [List.append_assoc]
      exact hoverlap
    unfold turned advance setBuff
    simp only [hcur, hnext, hbuff, hraw]
    simp only [List.length_append, List.length_reverse, List.length_singleton]
    rw [show stream.cur + digits.length + 1 - stream.cur = 1 + digits.length by omega,
      Nat.add_assoc]
  · unfold turned advance setBuff
    simp only [hcur, List.nil_append, List.length_reverse, Nat.add_sub_cancel_left]

theorem convert64U_eq
    {stream : LogStream} (hroom : stream.cur + 32 ≤ stream.size) (value : UInt64) :
    stream.convert64U value =
      ((decimalText value.toNat).length, stream.turned (decimalText value.toNat).reverse) := by
  have hsize := stream.size_lt
  have hleft : stream.left = stream.size - stream.cur := left_eq (by omega)
  have hlength := decimal_length_le value.toNat_lt
  unfold convert64U decimalText
  rw [if_neg (show ¬ stream.left < 32 by omega),
    if_neg (not_lt.mpr (Int.natCast_nonneg value.toNat))]
  simp only [convert_eq, Int.natAbs_natCast]
  generalize numeral 10 decimalDigit value.toNat = digits at hlength ⊢
  have hcur : (stream.cur + digits.length) % 2 ^ 64 = stream.cur + digits.length :=
    Nat.mod_eq_of_lt (by omega)
  unfold turned advance setBuff
  simp only [hcur, List.nil_append, List.length_reverse]

/-- `ConvertHex` gives this text whatever room there is. -/
theorem convertHex_eq (stream : LogStream) (value : UInt64) :
    stream.convertHex value =
      ((hexText value.toNat).length,
        { stream.turned (hexText value.toNat).reverse with
          cur := (stream.cur + (hexText value.toNat).length) % 2 ^ 64 }) := by
  have htable : ∀ lsd : ℤ, (lsd < 0 → (value.toNat : ℤ) < 0) → lsd.natAbs < 16 →
      hexDigit lsd = upperHexDigit lsd.natAbs :=
    fun lsd hneg hlsd => hexDigit_eq (by omega) hlsd
  have hloop := digitLoop_eq one_lt_sixteen stream.buff stream.cur (value.toNat : ℤ) htable
  unfold convertHex hexText
  simp only [hloop, Int.natAbs_natCast]
  generalize numeral 16 upperHexDigit value.toNat = digits
  have hraw : (hexMark.reverse ++ digits).reverse = digits.reverse ++ hexMark := by
    rw [List.reverse_append, List.reverse_reverse]
  have hlength : (digits.reverse ++ hexMark).length = digits.length + 2 := by
    rw [List.length_append, List.length_reverse]
    rfl
  have hbuff : ((stream.buff.copy stream.cur digits.reverse).copy (stream.cur + digits.length)
      hexMark).store (stream.cur + digits.length + 2) 0 =
        stream.buff.copy stream.cur (digits.reverse ++ hexMark ++ [0]) := by
    rw [← Arena.copy_store, hlength, Arena.copy_append, List.length_reverse, Nat.add_assoc]
  have hmark : (hexMark.reverse ++ digits).length = digits.length + 2 := by
    rw [← List.length_reverse, hraw, hlength]
  unfold turned advance setBuff
  simp only [hbuff, hraw, hlength, hmark]
  rw [show stream.cur + digits.length + 2 - stream.cur = digits.length + 2 by omega,
    Nat.add_assoc]

/-! ## Canonical texts -/

/-- The value of a digit, also of a hexadecimal one. -/
def digitValue (digit : UInt8) : ℕ :=
  if digit ≤ 57 then digit.toNat - 48 else digit.toNat - 55

/-- At least one digit, and a zero in front only if it is the whole numeral. -/
def NoLeadingZero (digits : List UInt8) : Prop :=
  digits ≠ [] ∧ (digits.head? = some 48 → digits = [48])

/-- The value of a decimal text. -/
def readDecimal : List UInt8 → ℤ
  | 45 :: digits => -(numeralValue 10 digitValue digits : ℤ)
  | digits => numeralValue 10 digitValue digits

structure CanonicalDecimal (text : List UInt8) (value : ℤ) : Prop where
  shape : ∃ digits, text = (if value < 0 then [minus] else []) ++ digits ∧
    (∀ digit ∈ digits, 48 ≤ digit ∧ digit ≤ 57) ∧ NoLeadingZero digits
  reads : readDecimal text = value

structure CanonicalHex (text : List UInt8) (value : ℕ) : Prop where
  shape : ∃ digits, text = [48, 120] ++ digits ∧
    (∀ digit ∈ digits, (48 ≤ digit ∧ digit ≤ 57) ∨ (65 ≤ digit ∧ digit ≤ 70)) ∧
    NoLeadingZero digits ∧ numeralValue 16 digitValue digits = value

theorem decimalDigit_spec {d : ℕ} (hd : d < 10) :
    digitValue (decimalDigit d) = d ∧ 48 ≤ decimalDigit d ∧ decimalDigit d ≤ 57 := by
  interval_cases d <;> decide

theorem upperHexDigit_spec {d : ℕ} (hd : d < 16) :
    digitValue (upperHexDigit d) = d ∧
      ((48 ≤ upperHexDigit d ∧ upperHexDigit d ≤ 57) ∨
        (65 ≤ upperHexDigit d ∧ upperHexDigit d ≤ 70)) := by
  interval_cases d <;> decide

theorem noLeadingZero_numeral
    {base : ℕ} {digit : ℕ → UInt8} (hbase : 1 < base)
    (hvalue : ∀ d < base, digitValue (digit d) = d) (hzero : digit 0 = 48) (n : ℕ) :
    NoLeadingZero (numeral base digit n) := by
  refine ⟨numeral_ne_nil base digit n, fun hhead => ?_⟩
  by_cases hn : n = 0
  · rw [hn, numeral_of_lt (by omega), hzero]
  · obtain ⟨d, rest, hpos, hlt, heq⟩ :
        ∃ d rest, 0 < d ∧ d < base ∧ numeral base digit n = digit d :: rest :=
      numeral_head hbase hn
    rw [heq, List.head?_cons, Option.some.injEq] at hhead
    have hd := hvalue d hlt
    have h48 : digitValue 48 = 0 := by decide
    rw [hhead, h48] at hd
    omega

theorem decimalText_canonical (value : ℤ) : CanonicalDecimal (decimalText value) value where
  shape := by
    refine ⟨numeral 10 decimalDigit value.natAbs, rfl, ?_, ?_⟩
    · intro digit hmem
      obtain ⟨d, hd, rfl⟩ := mem_numeral one_lt_ten hmem
      exact (decimalDigit_spec hd).2
    · exact noLeadingZero_numeral one_lt_ten (fun d hd => (decimalDigit_spec hd).1) rfl _
  reads := by
    have hnumeral : numeralValue 10 digitValue (numeral 10 decimalDigit value.natAbs) =
        value.natAbs :=
      numeralValue_numeral (fun d hd => (decimalDigit_spec hd).1) one_lt_ten _
    unfold decimalText
    split_ifs with hneg
    · change -(numeralValue 10 digitValue (numeral 10 decimalDigit value.natAbs) : ℤ) = value
      rw [hnumeral]
      omega
    · rw [List.nil_append]
      unfold readDecimal
      split
      · rename_i digits heq
        obtain ⟨d, hd, hminus⟩ : ∃ d < 10, (45 : UInt8) = decimalDigit d := by
          refine mem_numeral one_lt_ten (n := value.natAbs) ?_
          rw [heq]
          exact List.mem_cons_self
        have hlower := (decimalDigit_spec hd).2.1
        rw [← hminus] at hlower
        exact absurd hlower (by decide)
      · rw [hnumeral]
        omega

theorem hexText_canonical (value : ℕ) : CanonicalHex (hexText value) value where
  shape := by
    refine ⟨numeral 16 upperHexDigit value, rfl, ?_, ?_, ?_⟩
    · intro digit hmem
      obtain ⟨d, hd, rfl⟩ := mem_numeral one_lt_sixteen hmem
      exact (upperHexDigit_spec hd).2
    · exact noLeadingZero_numeral one_lt_sixteen (fun d hd => (upperHexDigit_spec hd).1) rfl _
    · exact numeralValue_numeral (fun d hd => (upperHexDigit_spec hd).1) one_lt_sixteen _

theorem convertHex_appended
    {stream : LogStream} {value : UInt64}
    (hroom : stream.cur + (hexText value.toNat).length ≤ stream.size) :
    stream.Appended (hexText value.toNat) (stream.convertHex value).2 := by
  have hsize := stream.size_lt
  have hcur : (stream.cur + (hexText value.toNat).length) % 2 ^ 64 =
      stream.cur + (hexText value.toNat).length := Nat.mod_eq_of_lt (by omega)
  have hturned : (stream.convertHex value).2 = stream.turned (hexText value.toNat).reverse := by
    rw [convertHex_eq, hcur]
    unfold turned
    simp only [List.length_reverse]
  rw [hturned]
  exact turned_appended stream (hexText value.toNat)

theorem hexText_length_le (value : UInt64) : (hexText value.toNat).length ≤ 18 := by
  have hdigits := hex_length_le value.toNat_lt
  unfold hexText
  rw [List.length_append]
  exact Nat.add_le_add (le_refl 2) hdigits

/-- With 32 bytes left every integer is rendered canonically, behind what the
stream holds, and the calls return the number of characters. -/
theorem integers_canonical {stream : LogStream} (hroom : stream.cur + 32 ≤ stream.size) :
    (∀ value : Int64, ∃ text, CanonicalDecimal text value.toInt ∧
      (stream.convert64 value).1 = text.length ∧
      stream.Appended text (stream.convert64 value).2) ∧
    (∀ value : UInt64, ∃ text, CanonicalDecimal text value.toNat ∧
      (stream.convert64U value).1 = text.length ∧
      stream.Appended text (stream.convert64U value).2) ∧
    (∀ value : UInt64, ∃ text, CanonicalHex text value.toNat ∧
      (stream.convertHex value).1 = text.length ∧
      stream.Appended text (stream.convertHex value).2) := by
  refine ⟨fun value => ?_, fun value => ?_, fun value => ?_⟩
  · rw [convert64_eq hroom]
    exact ⟨_, decimalText_canonical value.toInt, rfl, turned_appended stream _⟩
  · rw [convert64U_eq hroom]
    exact ⟨_, decimalText_canonical value.toNat, rfl, turned_appended stream _⟩
  · have hlength := hexText_length_le value
    refine ⟨_, hexText_canonical value.toNat, ?_, convertHex_appended (by omega)⟩
    rw [convertHex_eq]

theorem forty_lt : 40 < 2 ^ 64 := by norm_num

/-- A stream over forty bytes. -/
def fortyBytes : LogStream :=
  construct (.fresh fun _ => 0) 40 forty_lt

theorem integers_canonical_minimum :
    fortyBytes.cur + 32 ≤ fortyBytes.size ∧
      ∃ text, CanonicalDecimal text (-2 ^ 63) ∧
        fortyBytes.Appended text (fortyBytes.convert64 Int64.minValue).2 := by
  have hroom : fortyBytes.cur + 32 ≤ fortyBytes.size := by decide
  obtain ⟨text, hcanonical, -, happended⟩ := (integers_canonical hroom).1 Int64.minValue
  exact ⟨hroom, text, hcanonical, happended⟩

/-! ## The end of the buffer -/

/-- The stream has neither passed nor touched the end of its buffer. -/
structure Inside (stream : LogStream) : Prop where
  cur_le : stream.cur ≤ stream.size
  extent_le : stream.buff.extent ≤ stream.size

/-- What the calls without a sufficient check of their own leave to the caller. -/
def Fits (stream : LogStream) : Call → Prop
  | .output (.pointer value) =>
      stream.cur + (hexText value.toNat).length + 1 ≤ stream.size
  | .output (.double text) => stream.cur + text.length ≤ stream.size
  | .fmtAppend text => stream.cur + text.length ≤ stream.size
  | .reset => 0 < stream.size
  | _ => True

theorem Appended.inside
    {stream after : LogStream} {text : List UInt8}
    (happended : stream.Appended text after) (hinside : stream.Inside)
    (hroom : stream.cur + text.length + 1 ≤ stream.size) :
    after.Inside where
  cur_le := by
    rw [happended.cur_eq, happended.size_eq]
    omega
  extent_le := by
    rw [happended.extent_eq, happended.size_eq]
    exact max_le hinside.extent_le hroom

theorem convert64_inside
    {stream : LogStream} (hinside : stream.Inside) (value : Int64) :
    (stream.convert64 value).2.Inside := by
  have hleft := left_eq hinside.cur_le
  have hcur := hinside.cur_le
  by_cases hroom : stream.left < 32
  · unfold convert64
    rw [if_pos hroom]
    exact hinside
  · have hlength := decimalText_length_le value
    rw [convert64_eq (by omega)]
    exact (turned_appended stream _).inside hinside (by omega)

theorem convert64U_inside
    {stream : LogStream} (hinside : stream.Inside) (value : UInt64) :
    (stream.convert64U value).2.Inside := by
  have hleft := left_eq hinside.cur_le
  have hcur := hinside.cur_le
  by_cases hroom : stream.left < 32
  · unfold convert64U
    rw [if_pos hroom]
    exact hinside
  · have hlength : (decimalText value.toNat).length ≤ 20 := by
      unfold decimalText
      rw [if_neg (not_lt.mpr (Int.natCast_nonneg value.toNat)), List.nil_append]
      exact decimal_length_le value.toNat_lt
    rw [convert64U_eq (by omega)]
    exact (turned_appended stream _).inside hinside (by omega)

theorem append_inside
    {stream next : LogStream} {data : List UInt8} (hinside : stream.Inside)
    (happend : (stream.append data).map Prod.snd = some next) :
    next.Inside := by
  have hleft := left_eq hinside.cur_le
  have hcur := hinside.cur_le
  unfold append at happend
  split_ifs at happend with hroom
  · cases happend
    constructor
    · rw [cur_advance (by rw [cur_setBuff, size_setBuff]; omega), cur_setBuff, size_advance,
        size_setBuff]
      omega
    · have hfits : stream.cur + data.length ≤ stream.size := by omega
      exact Arena.copy_extent_le hinside.extent_le hfits
  · cases happend

/-- `snprintf` keeps to the room that `FmtAppend` has left, whatever becomes of it
as an `int`. -/
theorem snprintf_extent_le
    {stream : LogStream} {text : List UInt8} (hinside : stream.Inside)
    (htext : text.length < 2 ^ 31) :
    (stream.buff.snprintf stream.cur stream.fmtRoom text).extent ≤ stream.size := by
  have hleft := left_eq hinside.cur_le
  have hcur := hinside.cur_le
  have hsize := stream.size_lt
  unfold Arena.snprintf fmtRoom
  split_ifs with hlimit
  · exact hinside.extent_le
  · refine Arena.copy_extent_le hinside.extent_le ?_
    rw [List.length_append, List.length_take, List.length_singleton]
    by_cases hsmall : stream.left < 2 ^ 31
    · have hbmod : (stream.left : ℤ).bmod (2 ^ 32) = stream.left :=
        Int.bmod_eq_of_le (by omega) (by omega)
      rw [hbmod] at hlimit ⊢
      omega
    · omega

theorem fmtAppend_eq
    {stream : LogStream} {text : List UInt8} (hinside : stream.Inside)
    (htext : text.length < 2 ^ 31) :
    stream.fmtAppend text = some (text.length,
      (stream.setBuff (stream.buff.snprintf stream.cur stream.fmtRoom text)).advance
        text.length) := by
  have hcur : stream.cur % 2 ^ 64 = stream.cur :=
    Nat.mod_eq_of_lt (hinside.cur_le.trans_lt stream.size_lt)
  unfold fmtAppend
  rw [if_pos htext]
  generalize stream.buff.snprintf stream.cur stream.fmtRoom text = buff
  by_cases hempty : text.length = 0
  · rw [if_pos hempty, hempty]
    unfold advance setBuff
    rw [Nat.add_zero, hcur]
  · rw [if_neg hempty]

theorem fmtAppend_cases
    {stream next : LogStream} {text : List UInt8} (hinside : stream.Inside)
    (hfmt : (stream.fmtAppend text).map Prod.snd = some next) :
    next.size = stream.size ∧ next.cur = (stream.cur + text.length) % 2 ^ 64 ∧
      text.length < 2 ^ 31 ∧ next.buff.extent ≤ stream.size := by
  by_cases htext : text.length < 2 ^ 31
  · have hextent := snprintf_extent_le hinside htext
    rw [fmtAppend_eq hinside htext, Option.map_some, Option.some.injEq] at hfmt
    rw [← hfmt, size_advance, size_setBuff, buff_advance, buff_setBuff, advance, cur_setBuff]
    exact ⟨rfl, rfl, htext, hextent⟩
  · unfold fmtAppend at hfmt
    rw [if_neg htext, Option.map_none] at hfmt
    exact absurd hfmt (Option.some_ne_none next).symm

theorem fmtAppend_inside
    {stream next : LogStream} {text : List UInt8} (hinside : stream.Inside)
    (hfits : stream.cur + text.length ≤ stream.size)
    (hfmt : (stream.fmtAppend text).map Prod.snd = some next) :
    next.Inside := by
  obtain ⟨hsize, hcur, -, hextent⟩ := fmtAppend_cases hinside hfmt
  have hlt := stream.size_lt
  constructor
  · rw [hcur, hsize, Nat.mod_eq_of_lt (by omega)]
    exact hfits
  · rw [hsize]
    exact hextent

theorem reset_inside
    {stream : LogStream} (hinside : stream.Inside) (hpos : 0 < stream.size) :
    stream.reset.Inside where
  cur_le := Nat.zero_le _
  extent_le := max_le hinside.extent_le hpos

theorem step_inside
    {stream next : LogStream} {call : Call} (hinside : stream.Inside)
    (hfits : stream.Fits call) (hstep : stream.step call = some next) :
    next.Inside := by
  cases call with
  | append data => exact append_inside hinside hstep
  | fmtAppend text => exact fmtAppend_inside hinside hfits hstep
  | reset =>
      cases hstep
      exact reset_inside hinside hfits
  | output value =>
      cases value with
      | signed value =>
          cases hstep
          exact convert64_inside hinside value
      | unsigned value =>
          cases hstep
          exact convert64U_inside hinside value
      | pointer value =>
          cases hstep
          have hroom : stream.cur + (hexText value.toNat).length + 1 ≤ stream.size := hfits
          exact (convertHex_appended (by omega)).inside hinside hroom
      | character value => exact append_inside hinside hstep
      | boolean value => exact append_inside hinside hstep
      | cString bytes => exact append_inside hinside hstep
      | array bytes => exact append_inside hinside hstep
      | string bytes => exact append_inside hinside hstep
      | double text => exact fmtAppend_inside hinside hfits hstep

theorem fits_of_fmtAppend
    {stream next : LogStream} {text : List UInt8} (hinside : stream.Inside)
    (hsmall : stream.size < 2 ^ 63)
    (hfmt : (stream.fmtAppend text).map Prod.snd = some next) (hnext : next.Inside) :
    stream.cur + text.length ≤ stream.size := by
  obtain ⟨hsize, hcur, htext, -⟩ := fmtAppend_cases hinside hfmt
  have hle := hnext.cur_le
  have hbefore := hinside.cur_le
  rw [hcur, hsize] at hle
  omega

theorem fits_of_convertHex
    {stream : LogStream} {value : UInt64} (hnext : (stream.convertHex value).2.Inside) :
    stream.cur + (hexText value.toNat).length + 1 ≤ stream.size := by
  have hextent := hnext.extent_le
  rw [convertHex_eq] at hextent
  have hturned := (turned_appended stream (hexText value.toNat)).extent_eq
  simp only at hextent
  rw [hturned] at hextent
  exact (le_max_right _ _).trans hextent

/-- A call that does not fit leaves the buffer: no object is larger than half of
the address space. -/
theorem fits_of_step_inside
    {stream next : LogStream} {call : Call} (hinside : stream.Inside)
    (hsmall : stream.size < 2 ^ 63) (hstep : stream.step call = some next)
    (hnext : next.Inside) :
    stream.Fits call := by
  cases call with
  | append data => trivial
  | fmtAppend text => exact fits_of_fmtAppend hinside hsmall hstep hnext
  | reset =>
      cases hstep
      have hextent := hnext.extent_le
      exact (le_max_right stream.buff.extent 1).trans hextent
  | output value =>
      cases value with
      | pointer value =>
          cases hstep
          exact fits_of_convertHex hnext
      | double text => exact fits_of_fmtAppend hinside hsmall hstep hnext
      | signed value => trivial
      | unsigned value => trivial
      | character value => trivial
      | boolean value => trivial
      | cString bytes => trivial
      | array bytes => trivial
      | string bytes => trivial

theorem construct_inside (cell : ℕ → UInt8) (size : ℕ) (size_lt : size < 2 ^ 64) :
    (construct (.fresh cell) size size_lt).Inside :=
  ⟨Nat.zero_le size, Nat.zero_le size⟩

/-- In a run all of whose calls fit, the stream stays inside its buffer; and the
first call that does not fit leaves it. -/
theorem inside_of_fits
    {cell : ℕ → UInt8} {size : ℕ} {size_lt : size < 2 ^ 64} {stream : LogStream}
    (hreached : (machine cell size size_lt).ReachedBy Fits stream) :
    stream.cur ≤ stream.size ∧ stream.buff.extent ≤ stream.size ∧
      ∀ call next, stream.size < 2 ^ 63 → stream.step call = some next →
        ((next.cur ≤ next.size ∧ next.buff.extent ≤ next.size) ↔ stream.Fits call) := by
  have hinside : stream.Inside :=
    hreached.invariant Inside (construct_inside cell size size_lt)
      (fun _ _ _ hinv hfits hstep => step_inside hinv hfits hstep)
  refine ⟨hinside.cur_le, hinside.extent_le, fun call next hsmall hstep => ⟨?_, ?_⟩⟩
  · rintro ⟨hcur, hextent⟩
    exact fits_of_step_inside hinside hsmall hstep ⟨hcur, hextent⟩
  · intro hfits
    have hnext := step_inside hinside hfits hstep
    exact ⟨hnext.cur_le, hnext.extent_le⟩

/-- Two characters are formatted, and a pointer is put behind them. -/
theorem inside_of_fits_pointer :
    ∃ stream, (machine (fun _ => 0) 40 forty_lt).run
        [.fmtAppend [49, 50], .output (.pointer 7777)] = some stream ∧
      stream.cur ≤ stream.size ∧ stream.buff.extent ≤ stream.size := by
  have hfirst : ∃ stream, fortyBytes.step (.fmtAppend [49, 50]) = some stream ∧
      stream.cur = 2 ∧ stream.size = 40 := ⟨_, rfl, rfl, rfl⟩
  obtain ⟨stream, hstep, hcur, hsize⟩ := hfirst
  have hpointer : stream.Fits (.output (.pointer 7777)) := by
    have hlength := hexText_length_le 7777
    change stream.cur + (hexText (7777 : UInt64).toNat).length + 1 ≤ stream.size
    omega
  have htext : fortyBytes.Fits (.fmtAppend [49, 50]) := by
    change 0 + 2 ≤ 40
    norm_num
  have hmiddle : (machine (fun _ => 0) 40 forty_lt).ReachedBy Fits stream :=
    @Machine.ReachedBy.step _ _ _ _ _ _ (.fmtAppend [49, 50]) .start htext hstep
  have hreached : (machine (fun _ => 0) 40 forty_lt).ReachedBy Fits (stream.convertHex 7777).2 :=
    .step hmiddle hpointer rfl
  have hinside := inside_of_fits hreached
  refine ⟨(stream.convertHex 7777).2, ?_, hinside.1, hinside.2.1⟩
  have hstart : (machine (fun _ => 0) 40 forty_lt).step
      (machine (fun _ => 0) 40 forty_lt).start (.fmtAppend [49, 50]) = some stream := hstep
  unfold Machine.run Machine.runFrom
  rw [hstart]
  rfl

/-- Eight characters are formatted into four bytes, and one more is appended. -/
def overshoot : List Call :=
  [.fmtAppend [49, 50, 51, 52, 53, 54, 55, 56], .append [57]]

theorem four_lt : 4 < 2 ^ 64 := by norm_num

theorem not_inside_overshoot :
    ¬ ∀ (cell : ℕ → UInt8) (size : ℕ) (size_lt : size < 2 ^ 64) (stream : LogStream),
      (machine cell size size_lt).Reachable stream →
        stream.cur ≤ stream.size ∧ stream.buff.extent ≤ stream.size := by
  intro hall
  have hrun : ∃ stream, (machine (fun _ => 0) 4 four_lt).run overshoot = some stream ∧
      stream.size = 4 ∧ stream.buff.extent = 9 := ⟨_, rfl, rfl, rfl⟩
  obtain ⟨stream, hrun, hsize, hextent⟩ := hrun
  have hreached : (machine (fun _ => 0) 4 four_lt).Reachable stream :=
    Machine.Reachable.runFrom .start hrun
  have hle := (hall _ 4 four_lt stream hreached).2
  rw [hsize, hextent] at hle
  exact absurd hle (by decide)

end LogStream

end BackEndFacility
