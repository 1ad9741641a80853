import Mathlib.Data.Nat.Digits.Lemmas
import Mathlib.Tactic

/-!
# Positional numerals

The canonical numeral of a number: its digits from the most significant one on,
without leading zeros, and a single zero digit for zero.
-/

namespace BackEndFacility

universe u

variable {α : Type u}

def numeral (base : ℕ) (digit : ℕ → α) (n : ℕ) : List α :=
  if n = 0 then [digit 0] else (Nat.digits base n).reverse.map digit

/-- The number that a list of digits denotes. -/
def numeralValue (base : ℕ) (value : α → ℕ) (text : List α) : ℕ :=
  text.foldl (fun n symbol => base * n + value symbol) 0

theorem numeral_of_lt
    {base n : ℕ} {digit : ℕ → α} (hn : n < base) :
    numeral base digit n = [digit n] := by
  unfold numeral
  split_ifs with hzero
  · rw [hzero]
  · rw [Nat.digits_of_lt base n hzero hn]
    rfl

theorem numeral_of_le
    {base n : ℕ} {digit : ℕ → α} (hbase : 1 < base) (hn : base ≤ n) :
    numeral base digit n = numeral base digit (n / base) ++ [digit (n % base)] := by
  have hpos : n / base ≠ 0 := (Nat.div_pos hn (by omega)).ne'
  unfold numeral
  rw [if_neg (by omega), if_neg hpos, Nat.digits_eq_cons_digits_div hbase (by omega)]
  rw [List.reverse_cons, List.map_append]
  rfl

theorem numeral_ne_nil (base : ℕ) (digit : ℕ → α) (n : ℕ) :
    numeral base digit n ≠ [] := by
  unfold numeral
  split_ifs with hzero
  · exact List.cons_ne_nil _ _
  · intro hnil
    rw [List.map_eq_nil_iff, List.reverse_eq_nil_iff] at hnil
    exact hzero (Nat.digits_eq_nil_iff_eq_zero.mp hnil)

theorem mem_numeral
    {base n : ℕ} {digit : ℕ → α} {symbol : α} (hbase : 1 < base)
    (hmem : symbol ∈ numeral base digit n) :
    ∃ d < base, symbol = digit d := by
  unfold numeral at hmem
  split_ifs at hmem
  · exact ⟨0, by omega, List.mem_singleton.mp hmem⟩
  · obtain ⟨d, hd, heq⟩ := List.mem_map.mp hmem
    exact ⟨d, Nat.digits_lt_base hbase (List.mem_reverse.mp hd), heq.symm⟩

/-- Only the numeral of zero starts with a zero. -/
theorem numeral_head
    {base n : ℕ} {digit : ℕ → α} (hbase : 1 < base) (hn : n ≠ 0) :
    ∃ d rest, 0 < d ∧ d < base ∧ numeral base digit n = digit d :: rest := by
  have hne : Nat.digits base n ≠ [] := Nat.digits_ne_nil_iff_ne_zero.mpr hn
  have hlast : (Nat.digits base n).getLast hne ≠ 0 := Nat.getLast_digit_ne_zero base hn
  have hmem : (Nat.digits base n).getLast hne ∈ Nat.digits base n := List.getLast_mem hne
  refine ⟨(Nat.digits base n).getLast hne, (Nat.digits base n).dropLast.reverse.map digit,
    Nat.pos_of_ne_zero hlast, Nat.digits_lt_base hbase hmem, ?_⟩
  unfold numeral
  rw [if_neg hn]
  conv_lhs => rw [← List.dropLast_append_getLast hne]
  rw [List.reverse_append, List.map_append]
  rfl

theorem numeralValue_numeral
    {base : ℕ} {digit : ℕ → α} {value : α → ℕ}
    (hvalue : ∀ d < base, value (digit d) = d) (hbase : 1 < base) (n : ℕ) :
    numeralValue base value (numeral base digit n) = n := by
  induction n using Nat.strong_induction_on with
  | _ n ih =>
      by_cases hn : n < base
      · rw [numeral_of_lt hn]
        unfold numeralValue
        rw [List.foldl_cons, List.foldl_nil, hvalue n hn]
        omega
      · have hless : n / base < n := Nat.div_lt_self (by omega) hbase
        have hprefix := ih (n / base) hless
        unfold numeralValue at hprefix ⊢
        rw [numeral_of_le hbase (by omega), List.foldl_append, hprefix]
        rw [List.foldl_cons, List.foldl_nil, hvalue _ (Nat.mod_lt n (by omega))]
        exact Nat.div_add_mod n base

theorem numeral_length_le
    {base n len : ℕ} {digit : ℕ → α} (hbase : 1 < base) (hlen : 0 < len)
    (hn : n < base ^ len) :
    (numeral base digit n).length ≤ len := by
  unfold numeral
  split_ifs
  · exact hlen
  · rw [List.length_map, List.length_reverse]
    exact (Nat.digits_length_le_iff hbase n).mpr hn

/-! ## A minimal width -/

/-- The numeral with `fill` in front of it up to the width. -/
def paddedNumeral (base : ℕ) (digit : ℕ → α) (fill : α) (width n : ℕ) : List α :=
  List.replicate (width - (numeral base digit n).length) fill ++ numeral base digit n

theorem paddedNumeral_length
    {base n width : ℕ} {digit : ℕ → α} {fill : α} (hbase : 1 < base)
    (hwidth : 0 < width) (hn : n < base ^ width) :
    (paddedNumeral base digit fill width n).length = width := by
  have hle : (numeral base digit n).length ≤ width := numeral_length_le hbase hwidth hn
  unfold paddedNumeral
  rw [List.length_append, List.length_replicate]
  omega

/-- Leading symbols of value zero do not count. -/
theorem numeralValue_replicate_append
    {base : ℕ} {value : α → ℕ} {fill : α} (hfill : value fill = 0) (count : ℕ)
    (text : List α) :
    numeralValue base value (List.replicate count fill ++ text) =
      numeralValue base value text := by
  induction count with
  | zero => rfl
  | succ count ih =>
      rw [List.replicate_succ, List.cons_append]
      unfold numeralValue at ih ⊢
      rw [List.foldl_cons, hfill]
      exact ih

theorem paddedNumeral_inj
    {base n m width : ℕ} {digit : ℕ → α} {value : α → ℕ} {fill : α}
    (hvalue : ∀ d < base, value (digit d) = d) (hfill : value fill = 0) (hbase : 1 < base)
    (heq : paddedNumeral base digit fill width n = paddedNumeral base digit fill width m) :
    n = m := by
  have hread : ∀ k, numeralValue base value (paddedNumeral base digit fill width k) = k := by
    intro k
    unfold paddedNumeral
    rw [numeralValue_replicate_append hfill, numeralValue_numeral hvalue hbase]
  rw [← hread n, heq, hread m]

/-! ## Decimal digits -/

/-- The character of a decimal digit. -/
def decimalDigit (d : ℕ) : UInt8 := UInt8.ofNat (48 + d)

theorem decimalDigit_toNat {d : ℕ} (hd : d < 10) : (decimalDigit d).toNat = 48 + d :=
  UInt8.toNat_ofNat_of_lt (by change 48 + d < 256; omega)

/-- The digits of the core library are those of the numeral. -/
theorem toDigits_eq_numeral (n : ℕ) :
    (Nat.toDigits 10 n).map Char.toUInt8 = numeral 10 decimalDigit n := by
  have hdigit : ∀ d < 10, d.digitChar.toUInt8 = decimalDigit d := by decide
  induction n using Nat.strong_induction_on with
  | _ n ih =>
      by_cases hn : n < 10
      · rw [Nat.toDigits_of_lt_base hn, numeral_of_lt hn, List.map_singleton, hdigit n hn]
      · have hless : n / 10 < n := Nat.div_lt_self (by omega) (by norm_num)
        rw [Nat.toDigits_of_base_le (by norm_num) (by omega),
          numeral_of_le (by norm_num) (by omega), List.map_append, ih (n / 10) hless,
          List.map_singleton, hdigit (n % 10) (Nat.mod_lt n (by norm_num))]

end BackEndFacility
