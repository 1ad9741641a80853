import Mathlib.Data.List.Nodup
import Mathlib.Logic.Function.Basic
import Mathlib.Tactic

/-!
# Untagged singly linked lists

Every node stores a reference to its successor, and a reference is null or a
node.  Nodes outside a list may be rewritten freely; a node of the list keeps
its successor as long as nobody rewrites it, also when other nodes are put in
front of it.
-/

namespace BackEndFacility

variable {Node : Type*}

/-- The nodes met by following successors from a reference down to null. -/
def Chained (next : Node → Option Node) : Option Node → List Node → Prop
  | ref, [] => ref = none
  | ref, node :: rest => ref = some node ∧ Chained next (next node) rest

namespace Chained

variable {next : Node → Option Node} {ref : Option Node} {nodes : List Node}

theorem congr {other : Node → Option Node} (hchain : Chained next ref nodes)
    (hagree : ∀ node ∈ nodes, other node = next node) :
    Chained other ref nodes := by
  induction nodes generalizing ref with
  | nil => exact hchain
  | cons node rest ih =>
      obtain ⟨href, hrest⟩ := hchain
      refine ⟨href, ?_⟩
      rw [hagree node List.mem_cons_self]
      exact ih hrest fun other hother =>
        hagree other (List.mem_cons_of_mem node hother)

theorem update [DecidableEq Node] (hchain : Chained next ref nodes)
    {node : Node} (hout : node ∉ nodes) (value : Option Node) :
    Chained (Function.update next node value) ref nodes := by
  apply hchain.congr
  intro listed hlisted
  have hne : listed ≠ node := fun heq => hout (heq ▸ hlisted)
  rw [Function.update_of_ne hne]

theorem eq_nil (hchain : Chained next none nodes) : nodes = [] := by
  cases nodes with
  | nil => rfl
  | cons node rest => exact absurd hchain.1 nofun

theorem exists_cons {first : Node} (hchain : Chained next (some first) nodes) :
    ∃ rest, nodes = first :: rest ∧ Chained next (next first) rest := by
  cases nodes with
  | nil => exact absurd hchain nofun
  | cons node rest =>
      obtain ⟨href, hrest⟩ := hchain
      cases href
      exact ⟨rest, rfl, hrest⟩

theorem unique {other : List Node} (hchain : Chained next ref nodes)
    (hother : Chained next ref other) : nodes = other := by
  induction nodes generalizing ref other with
  | nil =>
      cases hchain
      exact hother.eq_nil.symm
  | cons node rest ih =>
      obtain ⟨href, hrest⟩ := hchain
      subst href
      obtain ⟨others, rfl, hothers⟩ := hother.exists_cons
      rw [ih hrest hothers]

/-- A node whose successor is null goes behind the last one. -/
theorem concat [DecidableEq Node] {node : Node} (hchain : Chained next ref nodes)
    (hnodup : (nodes ++ [node]).Nodup) (hnull : next node = none) (hne : nodes ≠ []) :
    Chained (Function.update next (nodes.getLast hne) (some node)) ref (nodes ++ [node]) := by
  induction nodes generalizing ref with
  | nil => exact absurd rfl hne
  | cons first rest ih =>
      obtain ⟨href, hrest⟩ := hchain
      refine ⟨href, ?_⟩
      rw [List.cons_append, List.nodup_cons] at hnodup
      by_cases hlast : rest = []
      · subst hlast
        have hother : node ≠ first := by
          rintro rfl
          exact hnodup.1 (List.mem_append_right _ List.mem_cons_self)
        rw [List.getLast_singleton, Function.update_self]
        refine ⟨rfl, ?_⟩
        rw [Function.update_of_ne hother]
        exact hnull
      · rw [List.getLast_cons hlast]
        have hkept : rest.getLast hlast ≠ first := by
          intro heq
          exact hnodup.1 (List.mem_append_left _ (heq ▸ List.getLast_mem hlast))
        rw [Function.update_of_ne hkept.symm]
        exact ih hrest hnodup.2 hlast

end Chained

/-- An array whose nodes each refer to the next one. -/
theorem chained_range {next : ℕ → Option ℕ} {last : ℕ}
    (hlast : next last = none) (first : ℕ) (hle : first ≤ last)
    (hinner : ∀ node, first ≤ node → node < last →
      next node = some (node + 1)) :
    Chained next (some first) (List.range' first (last + 1 - first)) := by
  obtain ⟨count, rfl⟩ := Nat.exists_eq_add_of_le hle
  have hcount : first + count + 1 - first = count + 1 := by omega
  rw [hcount]
  clear hcount hle
  induction count generalizing first with
  | zero => exact ⟨rfl, hlast⟩
  | succ count ih =>
      rw [List.range'_succ]
      refine ⟨rfl, ?_⟩
      have hshift : first + (count + 1) = first + 1 + count := by omega
      rw [hshift] at hlast hinner
      rw [hinner first le_rfl (by omega)]
      exact ih (first + 1) hlast fun node hnode => hinner node (by omega)

end BackEndFacility
