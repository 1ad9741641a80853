import BackEndFacility.TaggedFreeList
import Mathlib.Order.Bounds.Basic

/-!
# The atomic builtins of `sys/AtomicOps.h`

`DoublePointer` is a pair of words compared and swapped as one.  The code
builds only two kinds of them: the value `0`, and a tag next to the address
of a node.  Nodes are named by their index in the array they are allocated
from, so the value `0` is the null reference and can be told from a node
with tag `0`.
-/

namespace BackEndFacility

abbrev DoublePointer := TaggedRef ℕ

def setDoublePointer (tag node : ℕ) : DoublePointer := some (tag, node)

/-- The word a `size_t` counter holds after `__sync_fetch_and_add(ptr, 1)`;
the builtin returns the word it held before. -/
def atomicIncrement (word : ℕ) : ℕ := (word + 1) % 2 ^ 64

theorem atomicIncrement_of_lt {word : ℕ} (hword : word + 1 < 2 ^ 64) :
    atomicIncrement word = word + 1 :=
  Nat.mod_eq_of_lt hword

/-- Complement and difference of `size_t` words. -/
def wordNot (word : ℕ) : ℕ := 2 ^ 64 - 1 - word

def wordSub (word amount : ℕ) : ℕ := (word + (2 ^ 64 - amount)) % 2 ^ 64

theorem wordSub_of_le {word amount : ℕ} (hle : amount ≤ word)
    (hword : word < 2 ^ 64) : wordSub word amount = word - amount := by
  have hsum : word + (2 ^ 64 - amount) = word - amount + 2 ^ 64 := by omega
  rw [wordSub, hsum, Nat.add_mod_right, Nat.mod_eq_of_lt (by omega)]

/-- `AlignTo` -/
def alignTo (size align : ℕ) : ℕ :=
  if size % align ≠ 0 then (wordSub size (size % align) + align) % 2 ^ 64 else size

/-- The least multiple of `align` from `size` on, as long as it is a word. -/
theorem alignTo_isLeast
    {size align : ℕ} (halign : 0 < align) (hword : size + align ≤ 2 ^ 64) :
    IsLeast {multiple | align ∣ multiple ∧ size ≤ multiple} (alignTo size align) := by
  have hdiv : align * (size / align) + size % align = size := Nat.div_add_mod size align
  have hmod : size % align < align := Nat.mod_lt size halign
  unfold alignTo
  split_ifs with hrest
  · have hup : (wordSub size (size % align) + align) % 2 ^ 64 = align * (size / align + 1) := by
      rw [wordSub_of_le (Nat.mod_le size align) (by omega), Nat.mul_add, Nat.mul_one,
        Nat.mod_eq_of_lt (by omega)]
      omega
    rw [hup]
    refine ⟨⟨Nat.dvd_mul_right _ _, ?_⟩, ?_⟩
    · rw [Nat.mul_add]
      omega
    · rintro multiple ⟨⟨factor, rfl⟩, hle⟩
      have hless : align * (size / align) < align * factor := by omega
      exact Nat.mul_le_mul_left align (Nat.lt_of_mul_lt_mul_left hless)
  · exact ⟨⟨Nat.dvd_of_mod_eq_zero (not_not.mp hrest), le_rfl⟩, fun _ hmultiple => hmultiple.2⟩

end BackEndFacility
