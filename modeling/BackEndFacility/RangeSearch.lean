import Mathlib.Data.List.Basic
import Mathlib.Data.List.Infix

/-!
# Ranges of a memory and searches in them

A memory is a list of cells and a position is an offset into it.  A range is
given by its first position and the position behind its last cell, and a search
that finds nothing answers that last position.
-/

namespace BackEndFacility

variable {α : Type*}

def slice (memory : List α) (first last : Nat) : List α :=
  (memory.take last).drop first

def overwrite (memory : List α) (first : Nat) (cells : List α) : List α :=
  memory.take first ++ cells ++ memory.drop (first + cells.length)

@[simp]
theorem slice_length
    {memory : List α} {first last : Nat}
    (hlast : last ≤ memory.length) :
    (slice memory first last).length = last - first := by
  simp [slice, hlast]

theorem slice_left
    {memory u v : List α} {first last : Nat}
    (hslice : slice memory first last = u ++ v) :
    slice memory first (first + u.length) = u := by
  have htake : (slice memory first last).take u.length = u := by
    simp [hslice]
  have hlen : u.length ≤ last - first := by
    have h := congrArg List.length hslice
    simp only [slice, List.length_drop, List.length_take, List.length_append] at h
    omega
  unfold slice at htake ⊢
  rw [List.take_drop, List.take_take] at htake
  by_cases hu : u.length = 0
  · simp [List.length_eq_zero_iff.mp hu]
  · rwa [show min (first + u.length) last = first + u.length by omega] at htake

theorem slice_right
    {memory u v : List α} {first last : Nat}
    (hslice : slice memory first last = u ++ v) :
    slice memory (first + u.length) last = v := by
  have hdrop : (slice memory first last).drop u.length = v := by
    simp [hslice]
  rwa [slice, List.drop_drop] at hdrop

theorem slice_of_le
    {memory : List α} {first last : Nat}
    (hle : last ≤ first) :
    slice memory first last = [] := by
  unfold slice
  rw [List.drop_eq_nil_iff, List.length_take]
  omega

theorem last_eq
    {memory u v : List α} {first last : Nat}
    (hlast : last ≤ memory.length)
    (hne : slice memory first last ≠ [])
    (hslice : slice memory first last = u ++ v) :
    last = first + u.length + v.length := by
  have hlen := congrArg List.length hslice
  have hpos : 0 < (slice memory first last).length := List.length_pos_iff.mpr hne
  rw [slice_length hlast] at hlen hpos
  rw [List.length_append] at hlen
  omega

@[simp]
theorem overwrite_length
    {memory cells : List α} {first : Nat}
    (hfits : first + cells.length ≤ memory.length) :
    (overwrite memory first cells).length = memory.length := by
  simp only [overwrite, List.length_append, List.length_take, List.length_drop]
  omega

theorem slice_overwrite
    {memory : List α} {start first : Nat} (cells : List α)
    (hstart : start ≤ first)
    (hfirst : first ≤ memory.length) :
    slice (overwrite memory first cells) start (first + cells.length) =
      slice memory start first ++ cells := by
  have hlen : (memory.take first ++ cells).length = first + cells.length := by
    simp [hfirst]
  have htake :
      (overwrite memory first cells).take (first + cells.length) =
        memory.take first ++ cells := by
    unfold overwrite
    rw [← hlen, List.take_left]
  unfold slice
  rw [htake, List.drop_append_of_le_length (by simp [hfirst, hstart])]

theorem append_cons_inj
    {cell : α} {u v u' v' : List α}
    (hu : cell ∉ u)
    (hu' : cell ∉ u')
    (heq : u ++ cell :: v = u' ++ cell :: v') :
    u = u' ∧ v = v' := by
  induction u generalizing u' with
  | nil =>
      cases u' with
      | nil => simpa using heq
      | cons head tail =>
          simp only [List.nil_append, List.cons_append, List.cons.injEq] at heq
          exact absurd (heq.1 ▸ List.mem_cons_self) hu'
  | cons head tail ih =>
      cases u' with
      | nil =>
          simp only [List.nil_append, List.cons_append, List.cons.injEq] at heq
          exact absurd (heq.1 ▸ List.mem_cons_self) hu
      | cons head' tail' =>
          simp only [List.cons_append, List.cons.injEq] at heq
          obtain ⟨rfl, rfl⟩ := ih (fun h => hu (List.mem_cons_of_mem _ h))
            (fun h => hu' (List.mem_cons_of_mem _ h)) heq.2
          exact ⟨by rw [heq.1], rfl⟩

/-- A pair does not reach across a cell that is none of its own. -/
theorem pair_infix_cons
    {a b cell : α} {u v : List α}
    (hfirst : cell ≠ a)
    (hsecond : cell ≠ b)
    (hmem : [a, b] <:+: u ++ cell :: v) :
    [a, b] <:+: u ∨ [a, b] <:+: v := by
  induction u with
  | nil =>
      rcases List.infix_cons_iff.mp hmem with hprefix | hinside
      · exact absurd (List.cons_prefix_cons.mp hprefix).1.symm hfirst
      · exact .inr hinside
  | cons head tail ih =>
      rcases List.infix_cons_iff.mp hmem with hprefix | hinside
      · obtain ⟨rfl, hrest⟩ := List.cons_prefix_cons.mp hprefix
        cases tail with
        | nil => exact absurd (List.cons_prefix_cons.mp hrest).1.symm hsecond
        | cons next rest =>
            obtain ⟨rfl, -⟩ := List.cons_prefix_cons.mp hrest
            exact .inl ⟨[], rest, rfl⟩
      · rcases ih hinside with htail | hv
        · exact .inl (List.infix_cons htail)
        · exact .inr hv

/-! ## Searching -/

variable [DecidableEq α]

def find (value : α) (memory : List α) (first last : Nat) : Nat :=
  first + (slice memory first last).idxOf value

def indexOf (pattern : List α) : List α → Nat
  | [] => 0
  | cell :: cells =>
      if pattern.isPrefixOf (cell :: cells) then 0
      else indexOf pattern cells + 1

def search (pattern memory : List α) (first last : Nat) : Nat :=
  first + indexOf pattern (slice memory first last)

theorem find_eq_last
    {value : α} {memory : List α} {first last : Nat}
    (hfirst : first ≤ last)
    (hlast : last ≤ memory.length)
    (habsent : value ∉ slice memory first last) :
    find value memory first last = last := by
  unfold find
  rw [List.idxOf_eq_length habsent, slice_length hlast]
  omega

theorem find_eq
    {value : α} {memory u v : List α} {first last : Nat}
    (hslice : slice memory first last = u ++ value :: v)
    (hu : value ∉ u) :
    find value memory first last = first + u.length := by
  unfold find
  rw [hslice, List.idxOf_append_of_notMem hu, List.idxOf_cons_self, Nat.add_zero]

theorem indexOf_eq_length
    {pattern s : List α}
    (habsent : ¬ pattern <:+: s) :
    indexOf pattern s = s.length := by
  induction s with
  | nil => rfl
  | cons cell cells ih =>
      have hhead : ¬ pattern <+: cell :: cells := fun h => habsent h.isInfix
      have htail : ¬ pattern <:+: cells := fun h => habsent (List.infix_cons h)
      simp [indexOf, hhead, ih htail]

/-- Two different cells cannot straddle the end of a text that does not hold
them, so the pair written behind it is the first one. -/
theorem indexOf_pair
    {a b : α} {u v : List α}
    (hne : a ≠ b)
    (habsent : ¬ [a, b] <:+: u) :
    indexOf [a, b] (u ++ a :: b :: v) = u.length := by
  induction u with
  | nil => simp [indexOf]
  | cons cell cells ih =>
      have htail : ¬ [a, b] <:+: cells := fun h => habsent (List.infix_cons h)
      have hhead : ¬ [a, b] <+: cell :: (cells ++ a :: b :: v) := by
        intro hprefix
        rw [List.cons_prefix_cons] at hprefix
        obtain ⟨rfl, hsecond⟩ := hprefix
        cases cells with
        | nil =>
            rw [List.nil_append, List.cons_prefix_cons] at hsecond
            exact hne hsecond.1.symm
        | cons second rest =>
            rw [List.cons_append, List.cons_prefix_cons] at hsecond
            obtain ⟨rfl, -⟩ := hsecond
            exact habsent ⟨[], rest, rfl⟩
      simp [indexOf, hhead, ih htail]

/-- A text that holds a pair has a first place where it stands. -/
theorem exists_first_pair
    {a b : α} {s : List α}
    (hmem : [a, b] <:+: s) :
    ∃ u v, s = u ++ a :: b :: v ∧ ¬ [a, b] <:+: u := by
  induction s with
  | nil => simp at hmem
  | cons cell cells ih =>
      by_cases hhead : [a, b] <+: cell :: cells
      · obtain ⟨v, hv⟩ := hhead
        exact ⟨[], v, hv.symm, by simp⟩
      · have htail : [a, b] <:+: cells := by
          rcases List.infix_cons_iff.mp hmem with h | h
          · exact absurd h hhead
          · exact h
        obtain ⟨u, v, rfl, hu⟩ := ih htail
        refine ⟨cell :: u, v, rfl, fun hinside => ?_⟩
        rcases List.infix_cons_iff.mp hinside with h | h
        · exact hhead (h.trans (List.prefix_append (cell :: u) _))
        · exact hu h

theorem search_eq_last
    {pattern memory : List α} {first last : Nat}
    (hfirst : first ≤ last)
    (hlast : last ≤ memory.length)
    (habsent : ¬ pattern <:+: slice memory first last) :
    search pattern memory first last = last := by
  unfold search
  rw [indexOf_eq_length habsent, slice_length hlast]
  omega

theorem search_eq
    {a b : α} {memory u v : List α} {first last : Nat}
    (hne : a ≠ b)
    (hslice : slice memory first last = u ++ a :: b :: v)
    (hu : ¬ [a, b] <:+: u) :
    search [a, b] memory first last = first + u.length := by
  unfold search
  rw [hslice, indexOf_pair hne hu]

end BackEndFacility
