import Mathlib.Data.List.Nodup
import Mathlib.Tactic

/-!
# Tagged singly linked lists and their lock-free head

A reference is null or carries a tag and a node.  The head of a free list is
one such reference, and every node stores the reference to its successor.  A
pop reads the head, reads the successor of the node it saw, and then swings
the head by one compare-and-swap; a push draws a tag from a counter, stores
the head it read into its own node, and swings the head to the node under the
drawn tag.

The compare-and-swap of a pop is right only if the successor it read is still
the successor of the node it saw.  The invariant of this module keeps that
fact: a cell which some pop has seen is either still in the list, or will
never be installed again, because every cell that is still to be installed
carries a tag drawn later.  The one exception is a cell that was in the list
from the start under the tag which the counter hands out first.
-/

namespace BackEndFacility

/-- A null reference, or a tag together with a node. -/
abbrev TaggedRef (Node : Type*) := Option (ℕ × Node)

namespace TaggedRef

variable {Node : Type*}

/-- The cells met by following successors from a reference down to null. -/
def Linked (next : Node → TaggedRef Node) :
    TaggedRef Node → List (ℕ × Node) → Prop
  | ref, [] => ref = none
  | ref, cell :: rest => ref = some cell ∧ Linked next (next cell.2) rest

@[simp] theorem linked_nil (next : Node → TaggedRef Node)
    (ref : TaggedRef Node) : Linked next ref [] ↔ ref = none := Iff.rfl

@[simp] theorem linked_cons (next : Node → TaggedRef Node)
    (ref : TaggedRef Node) (cell : ℕ × Node) (rest : List (ℕ × Node)) :
    Linked next ref (cell :: rest) ↔
      ref = some cell ∧ Linked next (next cell.2) rest := Iff.rfl

theorem Linked.congr {next other : Node → TaggedRef Node}
    {ref : TaggedRef Node} {cells : List (ℕ × Node)}
    (hlinked : Linked next ref cells)
    (hagree : ∀ node ∈ cells.map Prod.snd, other node = next node) :
    Linked other ref cells := by
  induction cells generalizing ref with
  | nil => exact hlinked
  | cons cell rest ih =>
      obtain ⟨href, hrest⟩ := hlinked
      refine ⟨href, ?_⟩
      rw [hagree cell.2 (by simp)]
      exact ih hrest fun node hnode => hagree node (by simp_all)

theorem Linked.update [DecidableEq Node] {next : Node → TaggedRef Node}
    {ref : TaggedRef Node} {cells : List (ℕ × Node)}
    (hlinked : Linked next ref cells) {node : Node}
    (hout : node ∉ cells.map Prod.snd) (value : TaggedRef Node) :
    Linked (Function.update next node value) ref cells := by
  apply hlinked.congr
  intro listed hlisted
  have hne : listed ≠ node := fun heq => hout (heq ▸ hlisted)
  simp [Function.update, hne]

theorem linked_numbered {next : ℕ → TaggedRef ℕ} {last : ℕ}
    (hlast : next last = none) (first : ℕ) (hle : first ≤ last)
    (hinner : ∀ node, first ≤ node → node < last →
      next node = some (node + 1, node + 1)) :
    Linked next (some (first, first))
      ((List.range' first (last + 1 - first)).map
        fun node => (node, node)) := by
  obtain ⟨count, rfl⟩ := Nat.exists_eq_add_of_le hle
  have hcount : first + count + 1 - first = count + 1 := by omega
  rw [hcount]
  clear hcount hle
  induction count generalizing first with
  | zero =>
      refine ⟨rfl, ?_⟩
      exact hlast
  | succ count ih =>
      rw [List.range'_succ, List.map_cons, linked_cons]
      refine ⟨rfl, ?_⟩
      have hshift : first + (count + 1) = first + 1 + count := by omega
      rw [hshift] at hlast hinner
      rw [hinner first le_rfl (by omega)]
      exact ih (first + 1) hlast fun node hnode => hinner node (by omega)

end TaggedRef

/-- What one thread knows of the free list: the cell its pop has seen, the
successor it has read for that cell, and the cell its push will install. -/
structure FreeListView (Node : Type*) where
  seen : Option (ℕ × Node)
  link : Option (TaggedRef Node)
  drawn : Option (ℕ × Node)

def FreeListView.idle {Node : Type*} : FreeListView Node :=
  ⟨none, none, none⟩

open TaggedRef

/-- The tag discipline of a free list.  The cell `last` is the one which
carries the first tag of the counter from the start.  Under `lone` no node
ever has a successor, and then a repeated cell does no harm. -/
structure FreeListInvariant {Node Thread : Type*} (lone : Prop)
    (last : ℕ × Node) (next : Node → TaggedRef Node)
    (head : TaggedRef Node) (counter : ℕ)
    (view : Thread → FreeListView Node)
    (free : List (ℕ × Node)) : Prop where
  linked : Linked next head free
  nodup : (free.map Prod.snd).Nodup
  freeOld : ∀ cell ∈ free, cell.1 < counter ∨ cell = last
  seenOld : ∀ thread cell, (view thread).seen = some cell →
    cell.1 < counter ∨ cell = last
  drawnOld : ∀ thread cell, (view thread).drawn = some cell →
    cell.1 < counter
  drawnOut : ∀ thread cell, (view thread).drawn = some cell →
    cell.2 ∉ free.map Prod.snd
  fresh : lone ∨ ∀ popper pusher cell,
    (view popper).seen = some cell → (view pusher).drawn ≠ some cell
  linkCurrent : ∀ thread cell ref, (view thread).seen = some cell →
    (view thread).link = some ref → cell ∈ free → ref = next cell.2
  loneNext : lone → ∀ node, next node = none
  loneLink : lone → ∀ thread ref, (view thread).link = some ref →
    ref = none

namespace FreeListInvariant

variable {Node Thread : Type*}
  {lone : Prop} {last : ℕ × Node} {next : Node → TaggedRef Node}
  {head : TaggedRef Node} {counter : ℕ}
  {view : Thread → FreeListView Node} {free : List (ℕ × Node)}

theorem start (hviews : ∀ thread, view thread = .idle)
    (hlinked : Linked next head free) (hnodup : (free.map Prod.snd).Nodup)
    (hold : ∀ cell ∈ free, cell.1 < counter ∨ cell = last)
    (hlone : lone → ∀ node, next node = none) :
    FreeListInvariant lone last next head counter view free := by
  refine ⟨hlinked, hnodup, hold, ?_, ?_, ?_, ?_, ?_, hlone, ?_⟩
  all_goals simp [hviews, FreeListView.idle]

theorem write [DecidableEq Node]
    (hinv : FreeListInvariant lone last next head counter view free)
    {node : Node} (hout : node ∉ free.map Prod.snd)
    (value : TaggedRef Node) (hlone : lone → value = none) :
    FreeListInvariant lone last (Function.update next node value) head
      counter view free := by
  refine ⟨hinv.linked.update hout value, hinv.nodup, hinv.freeOld,
    hinv.seenOld, hinv.drawnOld, hinv.drawnOut, hinv.fresh, ?_, ?_,
    hinv.loneLink⟩
  · intro thread cell ref hseen href hmem
    have hne : cell.2 ≠ node := by
      intro heq
      exact hout (List.mem_map.mpr ⟨cell, hmem, heq⟩)
    simpa [Function.update, hne] using
      hinv.linkCurrent thread cell ref hseen href hmem
  · intro hl other
    by_cases heq : other = node
    · subst heq
      simpa using hlone hl
    · simpa [Function.update, heq] using hinv.loneNext hl other

theorem unseen_of_ne_last
    (hinv : FreeListInvariant lone last next head counter view free)
    {node : Node} (hne : (counter, node) ≠ last) (popper : Thread) :
    (view popper).seen ≠ some (counter, node) := by
  intro hseen
  rcases hinv.seenOld popper _ hseen with hlt | hlast
  · exact absurd hlt (lt_irrefl counter)
  · exact hne hlast

section Steps

variable [DecidableEq Thread]

theorem observe (hinv : FreeListInvariant lone last next head counter view free)
    (thread : Thread) (seen : FreeListView Node)
    (hseen : ∀ cell, seen.seen = some cell →
      cell ∈ free ∨ (view thread).seen = some cell)
    (hlink : ∀ cell ref, seen.seen = some cell → seen.link = some ref →
      ref = next cell.2)
    (hlone : ∀ ref, seen.link = some ref → ∃ node, ref = next node)
    (hdrawn : ∀ cell, seen.drawn = some cell →
      (view thread).drawn = some cell) :
    FreeListInvariant lone last next head counter
      (Function.update view thread seen) free := by
  have hdrawnUpdate : ∀ other cell,
      (Function.update view thread seen other).drawn = some cell →
        (view other).drawn = some cell := by
    intro other cell hother
    by_cases heq : other = thread
    · subst heq
      exact hdrawn cell (by simpa using hother)
    · simpa [Function.update, heq] using hother
  have hseenUpdate : ∀ other cell,
      (Function.update view thread seen other).seen = some cell →
        cell ∈ free ∨ (view other).seen = some cell := by
    intro other cell hother
    by_cases heq : other = thread
    · subst heq
      exact hseen cell (by simpa using hother)
    · exact .inr (by simpa [Function.update, heq] using hother)
  refine ⟨hinv.linked, hinv.nodup, hinv.freeOld, ?_, ?_, ?_, ?_, ?_,
    hinv.loneNext, ?_⟩
  · intro other cell hother
    rcases hseenUpdate other cell hother with hmem | hold
    · exact hinv.freeOld cell hmem
    · exact hinv.seenOld other cell hold
  · intro other cell hother
    exact hinv.drawnOld other cell (hdrawnUpdate other cell hother)
  · intro other cell hother
    exact hinv.drawnOut other cell (hdrawnUpdate other cell hother)
  · refine hinv.fresh.imp id fun hfresh popper pusher cell hpopper hpusher => ?_
    have hpusherOld := hdrawnUpdate pusher cell hpusher
    rcases hseenUpdate popper cell hpopper with hmem | hold
    · exact hinv.drawnOut pusher cell hpusherOld
        (List.mem_map.mpr ⟨cell, hmem, rfl⟩)
    · exact hfresh popper pusher cell hold hpusherOld
  · intro other cell ref hother href hmem
    by_cases heq : other = thread
    · subst heq
      exact hlink cell ref (by simpa using hother) (by simpa using href)
    · exact hinv.linkCurrent other cell ref
        (by simpa [Function.update, heq] using hother)
        (by simpa [Function.update, heq] using href) hmem
  · intro hl other ref href
    by_cases heq : other = thread
    · subst heq
      obtain ⟨node, hnode⟩ := hlone ref (by simpa using href)
      rw [hnode, hinv.loneNext hl node]
    · exact hinv.loneLink hl other ref
        (by simpa [Function.update, heq] using href)

theorem forget (hinv : FreeListInvariant lone last next head counter view free)
    (thread : Thread) :
    FreeListInvariant lone last next head counter
      (Function.update view thread .idle) free := by
  apply hinv.observe <;> simp [FreeListView.idle]

theorem keep (hinv : FreeListInvariant lone last next head counter view free)
    (thread : Thread) (same : FreeListView Node)
    (hsame : same = view thread) :
    FreeListInvariant lone last next head counter
      (Function.update view thread same) free := by
  rw [hsame, Function.update_eq_self]
  exact hinv

/-- The compare-and-swap of a pop removes exactly the first cell. -/
theorem pop (hinv : FreeListInvariant lone last next head counter view free)
    {thread : Thread} {cell : ℕ × Node} {ref : TaggedRef Node}
    (hseen : (view thread).seen = some cell)
    (hlink : (view thread).link = some ref) (hhead : head = some cell) :
    ∃ rest, free = cell :: rest ∧
      FreeListInvariant lone last next ref counter
        (Function.update view thread .idle) rest := by
  cases free with
  | nil =>
      have hnone := hinv.linked
      simp [hhead] at hnone
  | cons first rest =>
      obtain ⟨hfirst, hrest⟩ := hinv.linked
      have heq : first = cell := by simpa [hhead] using hfirst.symm
      subst first
      have href : ref = next cell.2 :=
        hinv.linkCurrent thread cell ref hseen hlink (by simp)
      refine ⟨rest, rfl, ?_⟩
      have hshort : FreeListInvariant lone last next ref counter view rest := by
        refine ⟨href ▸ hrest, (List.nodup_cons.mp hinv.nodup).2, ?_,
          hinv.seenOld, hinv.drawnOld, ?_, hinv.fresh, ?_, hinv.loneNext,
          hinv.loneLink⟩
        · intro other hmem
          exact hinv.freeOld other (by simp [hmem])
        · intro other drawn hdrawn hmem
          exact hinv.drawnOut other drawn hdrawn (by simp_all)
        · intro other seen link hother hotherLink hmem
          exact hinv.linkCurrent other seen link hother hotherLink
            (by simp [hmem])
      exact hshort.forget thread

/-- Drawing a tag for a node outside the list which nobody has seen under this tag. -/
theorem draw (hinv : FreeListInvariant lone last next head counter view free)
    (thread : Thread) {node : Node} (hout : node ∉ free.map Prod.snd)
    (hcell : lone ∨ ∀ popper, (view popper).seen ≠ some (counter, node)) :
    FreeListInvariant lone last next head (counter + 1)
      (Function.update view thread ⟨none, none, some (counter, node)⟩)
      free := by
  have hother : ∀ other cell, other ≠ thread →
      (Function.update view thread ⟨none, none, some (counter, node)⟩
        other).drawn = some cell → (view other).drawn = some cell := by
    intro other cell hne hdrawn
    simpa [Function.update, hne] using hdrawn
  refine ⟨hinv.linked, hinv.nodup, ?_, ?_, ?_, ?_, ?_, ?_, hinv.loneNext, ?_⟩
  · intro cell hmem
    exact (hinv.freeOld cell hmem).imp (fun hlt => by omega) id
  · intro other cell hseen
    by_cases heq : other = thread
    · subst heq
      simp at hseen
    · exact (hinv.seenOld other cell
        (by simpa [Function.update, heq] using hseen)).imp
          (fun hlt => by omega) id
  · intro other cell hdrawn
    by_cases heq : other = thread
    · subst heq
      simp only [Function.update_self, Option.some.injEq] at hdrawn
      subst cell
      exact Nat.lt_succ_self counter
    · have := hinv.drawnOld other cell (hother other cell heq hdrawn)
      omega
  · intro other cell hdrawn
    by_cases heq : other = thread
    · subst heq
      simp only [Function.update_self, Option.some.injEq] at hdrawn
      subst cell
      exact hout
    · exact hinv.drawnOut other cell (hother other cell heq hdrawn)
  · rcases hcell with hl | hunseen
    · exact .inl hl
    · refine hinv.fresh.imp id
        fun hfresh popper pusher cell hpopper hpusher => ?_
      have hpopperNe : popper ≠ thread := by
        intro heq
        subst heq
        simp at hpopper
      have hpopperOld : (view popper).seen = some cell := by
        simpa [Function.update, hpopperNe] using hpopper
      by_cases heq : pusher = thread
      · subst heq
        simp only [Function.update_self, Option.some.injEq] at hpusher
        subst cell
        exact hunseen popper hpopperOld
      · exact hfresh popper pusher cell hpopperOld
          (hother pusher cell heq hpusher)
  · intro other cell ref hseen hlink hmem
    by_cases heq : other = thread
    · subst heq
      simp at hseen
    · exact hinv.linkCurrent other cell ref
        (by simpa [Function.update, heq] using hseen)
        (by simpa [Function.update, heq] using hlink) hmem
  · intro hl other ref hlink
    by_cases heq : other = thread
    · subst heq
      simp at hlink
    · exact hinv.loneLink hl other ref
        (by simpa [Function.update, heq] using hlink)

theorem push (hinv : FreeListInvariant lone last next head counter view free)
    {thread : Thread} {cell : ℕ × Node}
    (hdrawn : (view thread).drawn = some cell)
    (hnext : next cell.2 = head)
    (hothers : ∀ other drawn, other ≠ thread →
      (view other).drawn = some drawn → drawn.2 ≠ cell.2) :
    FreeListInvariant lone last next (some cell) counter
      (Function.update view thread .idle) (cell :: free) := by
  have hview : ∀ other, other ≠ thread →
      Function.update view thread .idle other = view other := by
    intro other hne
    simp [Function.update, hne]
  have hthread : Function.update view thread .idle thread = .idle := by simp
  have hout := hinv.drawnOut thread cell hdrawn
  refine ⟨⟨rfl, hnext ▸ hinv.linked⟩, ?_, ?_, ?_, ?_, ?_, ?_, ?_,
    hinv.loneNext, ?_⟩
  · simpa using List.nodup_cons.mpr ⟨hout, hinv.nodup⟩
  · intro other hmem
    rcases List.mem_cons.mp hmem with heq | hfree
    · subst heq
      exact .inl (hinv.drawnOld thread other hdrawn)
    · exact hinv.freeOld other hfree
  · intro other seen hseen
    by_cases heq : other = thread
    · subst heq
      simp [FreeListView.idle] at hseen
    · exact hinv.seenOld other seen (by rwa [hview other heq] at hseen)
  · intro other drawn hother
    by_cases heq : other = thread
    · subst heq
      simp [FreeListView.idle] at hother
    · exact hinv.drawnOld other drawn (by rwa [hview other heq] at hother)
  · intro other drawn hother
    by_cases heq : other = thread
    · subst heq
      simp [FreeListView.idle] at hother
    · rw [hview other heq] at hother
      have hne := hothers other drawn heq hother
      have hold := hinv.drawnOut other drawn hother
      simp only [List.map_cons, List.mem_cons, not_or]
      exact ⟨hne, hold⟩
  · refine hinv.fresh.imp id fun hfresh popper pusher seen hpopper hpusher => ?_
    have hpopperNe : popper ≠ thread := by
      intro heq
      subst heq
      simp [FreeListView.idle] at hpopper
    have hpusherNe : pusher ≠ thread := by
      intro heq
      subst heq
      simp [FreeListView.idle] at hpusher
    rw [hview popper hpopperNe] at hpopper
    rw [hview pusher hpusherNe] at hpusher
    exact hfresh popper pusher seen hpopper hpusher
  · intro other seen ref hseen hlink hmem
    have hne : other ≠ thread := by
      intro heq
      subst heq
      simp [FreeListView.idle] at hseen
    rw [hview other hne] at hseen hlink
    rcases List.mem_cons.mp hmem with heq | hfree
    · subst heq
      rcases hinv.fresh with hl | hfresh
      · rw [hinv.loneLink hl other ref hlink, hinv.loneNext hl]
      · exact absurd hdrawn (hfresh other thread seen hseen)
    · exact hinv.linkCurrent other seen ref hseen hlink hfree
  · intro hl other ref hlink
    by_cases heq : other = thread
    · subst heq
      simp [FreeListView.idle] at hlink
    · exact hinv.loneLink hl other ref (by rwa [hview other heq] at hlink)

end Steps

end FreeListInvariant

end BackEndFacility
