import Mathlib.Data.List.TakeWhile
import Mathlib.Logic.Function.Basic
import Mathlib.Tactic

/-!
# Memory behind a pointer

An arena is the memory from a base address on, without an end, so that a write
past the end of an object is a write like any other.  `extent` is one past the
highest offset written so far: the object of `size` cells at the base address
was never left exactly when the extent is at most `size`.
-/

namespace BackEndFacility

universe u

structure Arena (α : Type u) where
  cell : ℕ → α
  extent : ℕ

namespace Arena

variable {α : Type u}

/-- Memory in which nothing has been written yet. -/
def fresh (cell : ℕ → α) : Arena α := ⟨cell, 0⟩

def store (arena : Arena α) (offset : ℕ) (value : α) : Arena α where
  cell := Function.update arena.cell offset value
  extent := max arena.extent (offset + 1)

/-- `memcpy` from another object. -/
def copy (arena : Arena α) (offset : ℕ) : List α → Arena α
  | [] => arena
  | value :: rest => (arena.store offset value).copy (offset + 1) rest

def read (arena : Arena α) (offset : ℕ) : ℕ → List α
  | 0 => []
  | len + 1 => arena.cell offset :: arena.read (offset + 1) len

/-- `std::reverse` of the cells from `first` up to `last`. -/
def reverse (arena : Arena α) (first last : ℕ) : Arena α :=
  arena.copy first (arena.read first (last - first)).reverse

/-! ## What is written -/

theorem cell_copy_of_lt
    {arena : Arena α} {offset index : ℕ} {values : List α}
    (hbefore : index < offset) :
    (arena.copy offset values).cell index = arena.cell index := by
  induction values generalizing arena offset with
  | nil => rfl
  | cons value rest ih =>
      have hne : index ≠ offset := by omega
      rw [copy, ih (by omega)]
      exact Function.update_of_ne hne value arena.cell

theorem cell_copy_of_le
    {arena : Arena α} {offset index : ℕ} {values : List α}
    (hbehind : offset + values.length ≤ index) :
    (arena.copy offset values).cell index = arena.cell index := by
  induction values generalizing arena offset with
  | nil => rfl
  | cons value rest ih =>
      have hlength : offset + (rest.length + 1) ≤ index := hbehind
      have hne : index ≠ offset := by omega
      rw [copy, ih (by omega)]
      exact Function.update_of_ne hne value arena.cell

theorem copy_append (arena : Arena α) (offset : ℕ) (first second : List α) :
    arena.copy offset (first ++ second) =
      (arena.copy offset first).copy (offset + first.length) second := by
  induction first generalizing arena offset with
  | nil => rfl
  | cons value rest ih =>
      rw [List.cons_append, copy, ih, copy, List.length_cons]
      rw [show offset + 1 + rest.length = offset + (rest.length + 1) by omega]

/-- A store right behind what was copied. -/
theorem copy_store (arena : Arena α) (offset : ℕ) (values : List α) (value : α) :
    (arena.copy offset values).store (offset + values.length) value =
      arena.copy offset (values ++ [value]) := by
  rw [copy_append]
  rfl

theorem copy_extent (arena : Arena α) (offset : ℕ) (values : List α) :
    (arena.copy offset values).extent =
      if values = [] then arena.extent
      else max arena.extent (offset + values.length) := by
  induction values generalizing arena offset with
  | nil => rfl
  | cons value rest ih =>
      rw [copy, ih]
      cases rest with
      | nil => rfl
      | cons next rest =>
          simp only [store, List.length_cons, reduceCtorEq, if_false]
          omega

theorem copy_extent_le
    {arena : Arena α} {offset size : ℕ} {values : List α}
    (hextent : arena.extent ≤ size)
    (hroom : offset + values.length ≤ size) :
    (arena.copy offset values).extent ≤ size := by
  rw [copy_extent]
  split_ifs
  · exact hextent
  · exact max_le hextent hroom

/-! ## What is read -/

@[simp]
theorem read_length (arena : Arena α) (offset len : ℕ) :
    (arena.read offset len).length = len := by
  induction len generalizing offset with
  | zero => rfl
  | succ len ih => rw [read, List.length_cons, ih]

theorem read_congr
    {arena other : Arena α} {offset len : ℕ}
    (hcells : ∀ index, offset ≤ index → index < offset + len →
      arena.cell index = other.cell index) :
    arena.read offset len = other.read offset len := by
  induction len generalizing offset with
  | zero => rfl
  | succ len ih =>
      have hhead := hcells offset le_rfl (by omega)
      have htail : arena.read (offset + 1) len = other.read (offset + 1) len :=
        ih fun index hlower hupper => hcells index (by omega) (by omega)
      rw [read, read, hhead, htail]

theorem read_add (arena : Arena α) (offset first second : ℕ) :
    arena.read offset (first + second) =
      arena.read offset first ++ arena.read (offset + first) second := by
  induction first generalizing offset with
  | zero => rw [Nat.zero_add, Nat.add_zero, read, List.nil_append]
  | succ first ih =>
      rw [show first + 1 + second = first + second + 1 by omega, read, read, ih,
        List.cons_append, show offset + 1 + first = offset + (first + 1) by omega]

theorem read_copy_self (arena : Arena α) (offset : ℕ) (values : List α) :
    (arena.copy offset values).read offset values.length = values := by
  induction values generalizing arena offset with
  | nil => rfl
  | cons value rest ih =>
      have hhead : ((arena.store offset value).copy (offset + 1) rest).cell offset = value := by
        rw [cell_copy_of_lt (Nat.lt_succ_self offset)]
        exact Function.update_self offset value arena.cell
      rw [copy, List.length_cons, read, hhead, ih]

theorem read_copy_of_le
    {arena : Arena α} {offset first len : ℕ} {values : List α}
    (hbefore : first + len ≤ offset) :
    (arena.copy offset values).read first len = arena.read first len :=
  read_congr fun _ _ hupper => cell_copy_of_lt (by omega)

/-- Copying right behind what is read extends it. -/
theorem read_copy_append (arena : Arena α) (first len : ℕ) (values : List α) :
    (arena.copy (first + len) values).read first (len + values.length) =
      arena.read first len ++ values := by
  rw [read_add, read_copy_of_le le_rfl, read_copy_self]

/-- Reversing what was copied, one more cell behind it left alone. -/
theorem reverse_copy (arena : Arena α) (offset : ℕ) (values : List α) (last : α) :
    (arena.copy offset (values ++ [last])).reverse offset (offset + values.length) =
      (arena.copy offset (values ++ [last])).copy offset values.reverse := by
  have hread : (arena.copy offset (values ++ [last])).read offset values.length = values := by
    rw [copy_append, read_copy_of_le le_rfl, read_copy_self]
  unfold reverse
  rw [Nat.add_sub_cancel_left, hread]

/-- A copied text, the last of its cells overwritten by a second copy. -/
theorem copy_copy_overlap (arena : Arena α) (offset : ℕ) (text : List α) (last next : α)
    (rest : List α) :
    (arena.copy offset (text ++ [last])).copy (offset + text.length) (next :: rest) =
      arena.copy offset (text ++ next :: rest) := by
  have hstore : ((arena.copy offset text).store (offset + text.length) last).store
      (offset + text.length) next = (arena.copy offset text).store (offset + text.length) next := by
    unfold store
    simp only [Function.update_idem, Arena.mk.injEq, true_and]
    omega
  rw [copy_append, copy, copy, copy, hstore, copy_append, copy]

/-- Texts with a NUL behind them, one copied over the NUL of the other. -/
theorem copy_terminated_at (arena : Arena α) (offset : ℕ) (text piece : List α) (nul : α) :
    (arena.copy offset (text ++ [nul])).copy (offset + text.length) (piece ++ [nul]) =
      arena.copy offset (text ++ piece ++ [nul]) := by
  rw [List.append_assoc]
  cases piece with
  | nil => exact copy_copy_overlap arena offset text nul nul []
  | cons next rest => exact copy_copy_overlap arena offset text nul next (rest ++ [nul])

theorem copy_terminated (arena : Arena α) (text piece : List α) (nul : α) :
    (arena.copy 0 (text ++ [nul])).copy text.length (piece ++ [nul]) =
      arena.copy 0 (text ++ piece ++ [nul]) := by
  have hcopy := copy_terminated_at arena 0 text piece nul
  rwa [Nat.zero_add] at hcopy

/-! ## C strings -/

/-- `snprintf` into `limit` bytes of something that prints as `text`. -/
def snprintf (arena : Arena UInt8) (offset limit : ℕ) (text : List UInt8) : Arena UInt8 :=
  if limit = 0 then arena else arena.copy offset (text.take (limit - 1) ++ [0])

/-- `strlen`, for a string that was written with its NUL. -/
def strlen (arena : Arena UInt8) : ℕ :=
  (arena.read 0 arena.extent).findIdx (· == 0)

def strcat (arena : Arena UInt8) (text : List UInt8) : Arena UInt8 :=
  arena.copy arena.strlen (text ++ [0])

/-- `strncpy`: the string up to its NUL and at most `size` bytes of it, filled up
with NULs to `size` bytes. -/
def strncpy (arena : Arena UInt8) (offset : ℕ) (text : List UInt8) (size : ℕ) : Arena UInt8 :=
  let string := text.takeWhile (· != 0)
  arena.copy offset (string.take size ++ List.replicate (size - string.length) 0)

/-- The string at `offset` whose NUL stands before `limit`. -/
def cString (arena : Arena UInt8) (offset limit : ℕ) : Option (List UInt8) :=
  let bytes := arena.read offset (limit - offset)
  if 0 ∈ bytes then some (bytes.takeWhile (· != 0)) else none

theorem findIdx_nul
    {text : List UInt8} (hnul : 0 ∉ text) (rest : List UInt8) :
    (text ++ 0 :: rest).findIdx (· == 0) = text.length := by
  induction text with
  | nil => rfl
  | cons byte text ih =>
      rw [List.mem_cons, not_or] at hnul
      have hbyte : (byte == 0) = false := beq_eq_false_iff_ne.mpr fun heq => hnul.1 heq.symm
      rw [List.cons_append, List.findIdx_cons, hbyte, ih hnul.2]
      rfl

theorem strlen_copy
    {text : List UInt8} (hnul : 0 ∉ text) (arena : Arena UInt8) :
    (arena.copy 0 (text ++ [0])).strlen = text.length := by
  have hlength : (text ++ [0]).length = text.length + 1 := List.length_append
  have hread := read_copy_self arena 0 (text ++ [0])
  have hextent : (text ++ [0]).length ≤ (arena.copy 0 (text ++ [0])).extent := by
    rw [copy_extent, if_neg (List.append_ne_nil_of_right_ne_nil text (List.cons_ne_nil 0 [])),
      Nat.zero_add]
    exact le_max_right _ _
  obtain ⟨more, hmore⟩ := Nat.exists_eq_add_of_le hextent
  unfold strlen
  rw [hmore, read_add, hread, List.append_assoc, List.singleton_append]
  exact findIdx_nul hnul _

theorem takeWhile_append
    {front : List UInt8} (hnul : 0 ∉ front) (rest : List UInt8) :
    (front ++ rest).takeWhile (· != 0) = front ++ rest.takeWhile (· != 0) := by
  refine List.takeWhile_append_of_pos fun byte hbyte => ?_
  rw [bne_iff_ne]
  rintro rfl
  exact hnul hbyte

theorem takeWhile_nul
    {text : List UInt8} (hnul : 0 ∉ text) (rest : List UInt8) :
    (text ++ 0 :: rest).takeWhile (· != 0) = text := by
  rw [takeWhile_append hnul, List.takeWhile_cons_of_neg (by decide), List.append_nil]

theorem nul_takeWhile (text : List UInt8) : 0 ∉ text.takeWhile (· != 0) := by
  intro hmem
  have hkept := List.mem_takeWhile_imp hmem
  exact absurd hkept (by decide)

/-- A NUL splits a text behind its string. -/
theorem exists_takeWhile_nul {text : List UInt8} (hnul : 0 ∈ text) :
    ∃ rest, text = text.takeWhile (· != 0) ++ 0 :: rest := by
  induction text with
  | nil => exact absurd hnul List.not_mem_nil
  | cons byte text ih =>
      by_cases hbyte : byte = 0
      · subst hbyte
        exact ⟨text, rfl⟩
      · have hmem : 0 ∈ text := (List.mem_cons.mp hnul).resolve_left fun heq => hbyte heq.symm
        obtain ⟨rest, hrest⟩ := ih hmem
        have hkept : (byte != 0) = true := bne_iff_ne.mpr hbyte
        refine ⟨rest, ?_⟩
        rw [List.takeWhile_cons, if_pos hkept, List.cons_append, ← hrest]

theorem cString_eq_some_iff
    {arena : Arena UInt8} {offset limit : ℕ} {text : List UInt8} :
    arena.cString offset limit = some text ↔
      0 ∉ text ∧ offset + text.length < limit ∧
        arena.read offset (text.length + 1) = text ++ [0] := by
  unfold cString
  constructor
  · intro hsome
    obtain ⟨hnul, heq⟩ := Option.ite_none_right_eq_some.mp hsome
    obtain ⟨rest, hrest⟩ := exists_takeWhile_nul hnul
    rw [Option.some.inj heq] at hrest
    have hlength := congrArg List.length hrest
    rw [read_length, List.length_append, List.length_cons] at hlength
    refine ⟨?_, by omega, ?_⟩
    · rw [← Option.some.inj heq]
      exact nul_takeWhile _
    · rw [show limit - offset = (text.length + 1) + rest.length by omega, read_add,
        show text ++ 0 :: rest = (text ++ [0]) ++ rest by
          rw [List.append_assoc, List.singleton_append]] at hrest
      refine (List.append_inj hrest ?_).1
      rw [read_length, List.length_append, List.length_singleton]
  · rintro ⟨hnul, hlimit, hread⟩
    obtain ⟨more, hmore⟩ := Nat.exists_eq_add_of_le hlimit
    have hbytes : arena.read offset (limit - offset) =
        text ++ 0 :: arena.read (offset + (text.length + 1)) more := by
      rw [show limit - offset = (text.length + 1) + more by omega, read_add, hread,
        List.append_assoc, List.singleton_append]
    rw [hbytes, if_pos (List.mem_append_right _ List.mem_cons_self), takeWhile_nul hnul]

/-- A string that starts with bytes other than NUL continues behind them. -/
theorem cString_append_iff
    {arena : Arena UInt8} {offset limit : ℕ} {front rest : List UInt8} (hnul : 0 ∉ front)
    (hread : arena.read offset front.length = front) :
    arena.cString offset limit = some (front ++ rest) ↔
      arena.cString (offset + front.length) limit = some rest := by
  rw [cString_eq_some_iff, cString_eq_some_iff, List.length_append, List.mem_append,
    Nat.add_assoc front.length, read_add, hread, List.append_assoc, List.append_right_inj]
  simp only [hnul, false_or, Nat.add_assoc]

theorem cString_of_prefix
    {arena : Arena UInt8} {offset limit : ℕ} {front text : List UInt8} (hnul : 0 ∉ front)
    (hread : arena.read offset front.length = front)
    (hstring : arena.cString offset limit = some text) :
    ∃ rest, text = front ++ rest ∧ arena.cString (offset + front.length) limit = some rest := by
  obtain ⟨hnulText, hlimit, hreadText⟩ := cString_eq_some_iff.mp hstring
  have hshort : front.length ≤ text.length := by
    by_contra hless
    obtain ⟨more, hmore⟩ := Nat.exists_eq_add_of_lt (Nat.lt_of_not_le hless)
    rw [show front.length = (text.length + 1) + more by omega, read_add, hreadText] at hread
    rw [← hread] at hnul
    exact hnul (List.mem_append_left _ (List.mem_append_right _ List.mem_cons_self))
  obtain ⟨more, hmore⟩ := Nat.exists_eq_add_of_le hshort
  have hfront : front <+: text := by
    rw [hmore, Nat.add_assoc, read_add, hread] at hreadText
    refine List.prefix_of_prefix_length_le ⟨_, hreadText⟩ (List.prefix_append text [0]) hshort
  obtain ⟨rest, rfl⟩ := hfront
  exact ⟨rest, rfl, (cString_append_iff hnul hread).mp hstring⟩

theorem cString_copy_nul
    {offset limit : ℕ} {front : List UInt8} (hnul : 0 ∉ front)
    (hlimit : offset + front.length < limit) (arena : Arena UInt8) (rest : List UInt8) :
    (arena.copy offset (front ++ 0 :: rest)).cString offset limit = some front := by
  have hsplit : front ++ 0 :: rest = (front ++ [0]) ++ rest := by
    rw [List.append_assoc, List.singleton_append]
  have hlength : (front ++ [0]).length = front.length + 1 := List.length_append
  refine cString_eq_some_iff.mpr ⟨hnul, hlimit, ?_⟩
  rw [hsplit, copy_append, ← hlength, read_copy_of_le le_rfl, read_copy_self]

/-- The string depends on the bytes from its offset on only. -/
theorem cString_congr
    {arena other : Arena UInt8} {offset limit : ℕ}
    (hcells : ∀ index, offset ≤ index → arena.cell index = other.cell index) :
    arena.cString offset limit = other.cString offset limit := by
  unfold cString
  rw [read_congr fun index hlower _ => hcells index hlower]

end Arena

end BackEndFacility
