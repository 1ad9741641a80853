import Mathlib.Data.List.Sort
import Mathlib.Order.Basic
import Mathlib.Order.Lattice

/-!
# Finite maps kept in key order

The entries stand in strictly increasing key order, so a map has one
representation and two maps that answer every lookup alike are equal.
-/

namespace BackEndFacility

structure SortedMap (κ ν : Type*) [LinearOrder κ] where
  entries : List (κ × ν)
  sorted : entries.Pairwise (fun a b => a.1 < b.1)
deriving DecidableEq

namespace SortedMap

variable {κ ν : Type*} [LinearOrder κ]

def empty : SortedMap κ ν where
  entries := []
  sorted := List.Pairwise.nil

def insertEntry (key : κ) (value : ν) : List (κ × ν) → List (κ × ν)
  | [] => [(key, value)]
  | entry :: entries =>
      if key < entry.1 then (key, value) :: entry :: entries
      else if key = entry.1 then (key, value) :: entries
      else entry :: insertEntry key value entries

theorem mem_insertEntry
    {key : κ} {value : ν} {entries : List (κ × ν)} {entry : κ × ν}
    (hentry : entry ∈ insertEntry key value entries) :
    entry = (key, value) ∨ entry ∈ entries := by
  induction entries with
  | nil => simpa [insertEntry] using hentry
  | cons first rest ih =>
      unfold insertEntry at hentry
      split_ifs at hentry <;> simp only [List.mem_cons] at hentry ⊢ <;> tauto

theorem sorted_insertEntry
    {key : κ} {value : ν} {entries : List (κ × ν)}
    (hsorted : entries.Pairwise (fun a b => a.1 < b.1)) :
    (insertEntry key value entries).Pairwise (fun a b => a.1 < b.1) := by
  induction entries with
  | nil => simp [insertEntry]
  | cons first rest ih =>
      rw [List.pairwise_cons] at hsorted
      unfold insertEntry
      split_ifs with hlt heq
      · refine List.pairwise_cons.mpr ⟨fun entry hentry => ?_, List.pairwise_cons.mpr hsorted⟩
        rcases List.mem_cons.mp hentry with rfl | hrest
        · exact hlt
        · exact hlt.trans (hsorted.1 entry hrest)
      · subst heq
        exact List.pairwise_cons.mpr hsorted
      · refine List.pairwise_cons.mpr ⟨fun entry hentry => ?_, ih hsorted.2⟩
        rcases mem_insertEntry hentry with rfl | hrest
        · exact lt_of_le_of_ne (not_lt.mp hlt) (Ne.symm heq)
        · exact hsorted.1 entry hrest

def insert (map : SortedMap κ ν) (key : κ) (value : ν) : SortedMap κ ν where
  entries := insertEntry key value map.entries
  sorted := sorted_insertEntry map.sorted

def lookupEntry (key : κ) : List (κ × ν) → Option ν
  | [] => none
  | entry :: entries =>
      if key = entry.1 then some entry.2 else lookupEntry key entries

def lookup (map : SortedMap κ ν) (key : κ) : Option ν :=
  lookupEntry key map.entries

theorem lookup_insertEntry
    (key other : κ) (value : ν) (entries : List (κ × ν)) :
    lookupEntry other (insertEntry key value entries) =
      if other = key then some value else lookupEntry other entries := by
  induction entries with
  | nil => rfl
  | cons first rest ih =>
      unfold insertEntry
      split_ifs with hlt heq hother hother hother <;>
        simp_all [lookupEntry]

@[simp]
theorem lookup_empty (key : κ) :
    (empty : SortedMap κ ν).lookup key = none := by
  rfl

theorem lookup_insert
    (map : SortedMap κ ν) (key other : κ) (value : ν) :
    (map.insert key value).lookup other =
      if other = key then some value else map.lookup other := by
  exact lookup_insertEntry key other value map.entries

theorem lookup_eq_some_iff
    {map : SortedMap κ ν} {key : κ} {value : ν} :
    map.lookup key = some value ↔ (key, value) ∈ map.entries := by
  obtain ⟨entries, hsorted⟩ := map
  unfold lookup
  simp only
  induction entries with
  | nil => simp [lookupEntry]
  | cons first rest ih =>
      obtain ⟨firstKey, firstValue⟩ := first
      rw [List.pairwise_cons] at hsorted
      unfold lookupEntry
      by_cases hkey : key = firstKey
      · have hfresh : (firstKey, value) ∉ rest := by
          intro hrest
          have hlt : firstKey < firstKey := hsorted.1 _ hrest
          exact lt_irrefl _ hlt
        subst hkey
        simp [hfresh, eq_comm]
      · simp [hkey, ih hsorted.2]

/-- Maps that answer alike are equal. -/
theorem ext
    {m₁ m₂ : SortedMap κ ν}
    (hlookup : ∀ key, m₁.lookup key = m₂.lookup key) :
    m₁ = m₂ := by
  have hmem : ∀ entry, entry ∈ m₁.entries ↔ entry ∈ m₂.entries := by
    intro entry
    rw [← lookup_eq_some_iff, ← lookup_eq_some_iff, hlookup]
  have hnodup : ∀ map : SortedMap κ ν, map.entries.Nodup := by
    intro map
    refine map.sorted.imp ?_
    intro a b hlt heq
    rw [heq] at hlt
    exact lt_irrefl _ hlt
  have hperm : m₁.entries.Perm m₂.entries :=
    (List.perm_ext_iff_of_nodup (hnodup m₁) (hnodup m₂)).mpr hmem
  have hentries : m₁.entries = m₂.entries := by
    refine hperm.eq_of_pairwise ?_ m₁.sorted m₂.sorted
    intro a b _ _ hab hba
    exact absurd hab (not_lt.mpr hba.le)
  cases m₁
  cases m₂
  simp only at hentries
  subst hentries
  rfl

end SortedMap

end BackEndFacility
