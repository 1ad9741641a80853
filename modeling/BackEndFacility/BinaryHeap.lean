import Mathlib.Data.List.Perm.Basic
import Mathlib.Tactic

/-!
# The binary heap under `std::priority_queue`

The heap is a vector; the children of the item at index `i` are at `2 i + 1`
and `2 i + 2`.  The library moves a hole through the vector and writes the
displaced item into it at the end; here the displaced item travels in the
hole, so that every move of the hole is one swap.

`comp` is the comparison the queue was instantiated with.  Nothing is assumed
of it, and in particular it need not be irreflexive.
-/

namespace BackEndFacility
namespace BinaryHeap

variable {Item : Type*}

/-- `__push_heap`: the item in the hole moves up while `comp` holds between
its parent and it.  The index of the hole decreases, so it bounds the moves. -/
def siftUp (comp : Item → Item → Bool) :
    ℕ → ℕ → Array Item → Array Item
  | 0, _, heap => heap
  | fuel + 1, hole, heap =>
      if hole = 0 then heap
      else
        match heap[(hole - 1) / 2]?, heap[hole]? with
        | some parent, some item =>
            if comp parent item then
              siftUp comp fuel ((hole - 1) / 2)
                (heap.swapIfInBounds hole ((hole - 1) / 2))
            else heap
        | _, _ => heap

/-- The loop of `__adjust_heap`: the hole sinks to a leaf, each time to the
child which `comp` does not put below the other one. -/
def sinkHole (comp : Item → Item → Bool) :
    ℕ → ℕ → Array Item → ℕ × Array Item
  | 0, hole, heap => (hole, heap)
  | fuel + 1, hole, heap =>
      if hole < (heap.size - 1) / 2 then
        match heap[2 * (hole + 1)]?, heap[2 * (hole + 1) - 1]? with
        | some right, some left =>
            if comp right left then
              sinkHole comp fuel (2 * (hole + 1) - 1)
                (heap.swapIfInBounds hole (2 * (hole + 1) - 1))
            else
              sinkHole comp fuel (2 * (hole + 1))
                (heap.swapIfInBounds hole (2 * (hole + 1)))
        | _, _ => (hole, heap)
      else if heap.size % 2 = 0 ∧ hole = (heap.size - 2) / 2 then
        (2 * (hole + 1) - 1, heap.swapIfInBounds hole (2 * (hole + 1) - 1))
      else (hole, heap)

def push (comp : Item → Item → Bool) (heap : Array Item) (item : Item) :
    Array Item :=
  siftUp comp heap.size heap.size (heap.push item)

/-- `pop_heap` and `pop_back`: the last item replaces the first one and finds
its place. -/
def pop (comp : Item → Item → Bool) (heap : Array Item) : Array Item :=
  let moved := (heap.swapIfInBounds 0 (heap.size - 1)).pop
  let sunk := sinkHole comp moved.size 0 moved
  siftUp comp sunk.1 sunk.1 sunk.2

/-! ## Items are only moved -/

theorem swapIfInBounds_perm (heap : Array Item) (first second : ℕ) :
    (heap.swapIfInBounds first second).toList.Perm heap.toList := by
  rw [Array.swapIfInBounds_def]
  split
  next hfirst =>
      split
      next hsecond => exact (Array.swap_perm hfirst hsecond).toList
      next => exact List.Perm.refl _
  next => exact List.Perm.refl _

theorem siftUp_perm (comp : Item → Item → Bool) (fuel hole : ℕ)
    (heap : Array Item) :
    (siftUp comp fuel hole heap).toList.Perm heap.toList := by
  induction fuel generalizing hole heap with
  | zero => exact List.Perm.refl _
  | succ fuel ih =>
      unfold siftUp
      split
      · exact List.Perm.refl _
      · split
        · split
          · exact (ih _ _).trans (swapIfInBounds_perm heap _ _)
          · exact List.Perm.refl _
        · exact List.Perm.refl _

theorem sinkHole_perm (comp : Item → Item → Bool) (fuel hole : ℕ)
    (heap : Array Item) :
    (sinkHole comp fuel hole heap).2.toList.Perm heap.toList := by
  induction fuel generalizing hole heap with
  | zero => exact List.Perm.refl _
  | succ fuel ih =>
      unfold sinkHole
      split
      · split
        · split
          · exact (ih _ _).trans (swapIfInBounds_perm heap _ _)
          · exact (ih _ _).trans (swapIfInBounds_perm heap _ _)
        · exact List.Perm.refl _
      · split
        · exact swapIfInBounds_perm heap _ _
        · exact List.Perm.refl _

theorem push_perm (comp : Item → Item → Bool) (heap : Array Item)
    (item : Item) :
    (push comp heap item).toList.Perm (item :: heap.toList) := by
  have hsift := siftUp_perm comp heap.size heap.size (heap.push item)
  rw [Array.toList_push] at hsift
  exact hsift.trans (List.perm_append_singleton item heap.toList)

theorem last_swapIfInBounds {heap : Array Item} {item : Item}
    (hfront : heap[0]? = some item) :
    (heap.swapIfInBounds 0 (heap.size - 1)).toList =
      (heap.swapIfInBounds 0 (heap.size - 1)).pop.toList ++ [item] := by
  have hsize : 0 < heap.size := by
    by_contra hempty
    rw [Array.getElem?_eq_none (by omega)] at hfront
    cases hfront
  have hne : (heap.swapIfInBounds 0 (heap.size - 1)).toList ≠ [] := by
    intro hnil
    have hlength := congrArg List.length hnil
    rw [Array.length_toList, Array.size_swapIfInBounds, List.length_nil]
      at hlength
    omega
  rw [Array.toList_pop]
  have hlast : (heap.swapIfInBounds 0 (heap.size - 1)).toList.getLast hne =
      item := by
    rw [List.getLast_eq_getElem]
    simp only [Array.length_toList, Array.size_swapIfInBounds,
      Array.getElem_toList, Array.getElem_swapIfInBounds]
    rw [Array.getElem?_eq_getElem hsize, Option.some.injEq] at hfront
    split
    next hone => simp_all
    next => simp_all
  rw [← hlast]
  exact (List.dropLast_append_getLast hne).symm

theorem pop_perm (comp : Item → Item → Bool) {heap : Array Item}
    {item : Item} (hfront : heap[0]? = some item) :
    heap.toList.Perm (item :: (pop comp heap).toList) := by
  let moved := (heap.swapIfInBounds 0 (heap.size - 1)).pop
  have hpop : (pop comp heap).toList.Perm moved.toList :=
    (siftUp_perm comp _ _ _).trans (sinkHole_perm comp moved.size 0 moved)
  calc
    heap.toList.Perm (heap.swapIfInBounds 0 (heap.size - 1)).toList :=
      (swapIfInBounds_perm heap 0 (heap.size - 1)).symm
    _ = moved.toList ++ [item] := last_swapIfInBounds hfront
    List.Perm _ (item :: moved.toList) :=
      List.perm_append_singleton item moved.toList
    List.Perm _ (item :: (pop comp heap).toList) := hpop.symm.cons item

/-! ## The order of the heap

`Above` is the order in which the queue is to deliver.  All that is asked of `comp` is
that it tells, of two items, one that may stand above the other; on items that are level
it may answer either way, and it need not be a strict order. -/

def Compares (Above : Item → Item → Prop) (comp : Item → Item → Bool) : Prop :=
  ∀ first second,
    (comp first second = true → Above second first) ∧
      (comp first second = false → Above first second)

/-- The item at an index stands below the one at the parent's index. -/
def OrderedAt (Above : Item → Item → Prop) (heap : Array Item) (i : ℕ) : Prop :=
  ∀ parent item, heap[(i - 1) / 2]? = some parent → heap[i]? = some item →
    Above parent item

def Ordered (Above : Item → Item → Prop) (heap : Array Item) : Prop :=
  ∀ i, 0 < i → OrderedAt Above heap i

/-- What lies below a hole stands below what lies above it. -/
def Bridges (Above : Item → Item → Prop) (heap : Array Item) (hole : ℕ) : Prop :=
  ∀ child parent item, 0 < hole → 0 < child → (child - 1) / 2 = hole →
    heap[(hole - 1) / 2]? = some parent → heap[child]? = some item → Above parent item

/-- The item in the hole is in order with what is below it, perhaps not with its parent. -/
structure Rising (Above : Item → Item → Prop) (heap : Array Item) (hole : ℕ) : Prop where
  others : ∀ i, 0 < i → i ≠ hole → OrderedAt Above heap i
  bridges : Bridges Above heap hole

/-- The item in the hole need not be in order with anything. -/
structure Sinking (Above : Item → Item → Prop) (heap : Array Item) (hole : ℕ) : Prop where
  others : ∀ i, 0 < i → i ≠ hole → (i - 1) / 2 ≠ hole → OrderedAt Above heap i
  bridges : Bridges Above heap hole

theorem getElem?_swapIfInBounds {heap : Array Item} {first second : ℕ}
    (hfirst : first < heap.size) (hsecond : second < heap.size) (i : ℕ) :
    (heap.swapIfInBounds first second)[i]? =
      if i = first then heap[second]? else if i = second then heap[first]? else heap[i]? := by
  rw [Array.swapIfInBounds_def, dif_pos hfirst, dif_pos hsecond, Array.getElem?_swap]
  grind

section Order

variable {Above : Item → Item → Prop} {comp : Item → Item → Bool}

theorem lt_size_of_getElem? {heap : Array Item} {i : ℕ} {item : Item}
    (hitem : heap[i]? = some item) : i < heap.size := by
  by_contra hout
  rw [Array.getElem?_eq_none (by omega)] at hitem
  cases hitem

/-- The item in the hole changes places with its parent. -/
theorem Rising.swap [IsTrans Item Above] {heap : Array Item} {hole : ℕ} {parent item : Item}
    (hrising : Rising Above heap hole) (hpos : 0 < hole)
    (hparent : heap[(hole - 1) / 2]? = some parent) (hitem : heap[hole]? = some item)
    (habove : Above item parent) :
    Rising Above (heap.swapIfInBounds hole ((hole - 1) / 2)) ((hole - 1) / 2) := by
  have hhole := lt_size_of_getElem? hitem
  have hup := lt_size_of_getElem? hparent
  have hget := getElem?_swapIfInBounds hhole hup
  have hless : (hole - 1) / 2 < hole := by omega
  have hsibling : ∀ i item', 0 < i → i ≠ hole → (i - 1) / 2 = (hole - 1) / 2 →
      heap[i]? = some item' → Above parent item' := by
    intro i item' hi hne hsame hitem'
    apply hrising.others i hi hne parent item' _ hitem'
    rw [hsame]
    exact hparent
  constructor
  · intro i hi hne upper lower hupper hlower
    rw [hget] at hupper hlower
    by_cases hihole : i = hole
    · subst hihole
      rw [if_neg hless.ne, if_pos rfl, hitem] at hupper
      rw [if_pos rfl, hparent] at hlower
      cases hupper
      cases hlower
      exact habove
    · rw [if_neg hihole, if_neg hne] at hlower
      by_cases hparenthole : (i - 1) / 2 = hole
      · rw [if_pos hparenthole, hparent] at hupper
        cases hupper
        exact hrising.bridges i parent lower hpos hi hparenthole hparent hlower
      · rw [if_neg hparenthole] at hupper
        by_cases hparentup : (i - 1) / 2 = (hole - 1) / 2
        · rw [if_pos hparentup, hitem] at hupper
          cases hupper
          exact Trans.trans habove (hsibling i lower hi hihole hparentup hlower)
        · rw [if_neg hparentup] at hupper
          exact hrising.others i hi hihole upper lower hupper hlower
  · intro child upper lower hup0 hchild hof hupper hlower
    rw [hget] at hupper hlower
    rw [if_neg (by omega), if_neg (by omega)] at hupper
    have hgrand : Above upper parent :=
      hrising.others _ hup0 (by omega) upper parent hupper hparent
    by_cases hchildhole : child = hole
    · subst hchildhole
      rw [if_pos rfl, hparent] at hlower
      cases hlower
      exact hgrand
    · rw [if_neg hchildhole, if_neg (by omega)] at hlower
      exact Trans.trans hgrand (hsibling child lower hchild hchildhole hof hlower)

theorem Rising.ordered {heap : Array Item} {hole : ℕ} (hrising : Rising Above heap hole)
    (hhole : 0 < hole → OrderedAt Above heap hole) : Ordered Above heap := by
  intro i hi
  by_cases heq : i = hole
  · subst heq
    exact hhole hi
  · exact hrising.others i hi heq

theorem siftUp_ordered [IsTrans Item Above] (hcomp : Compares Above comp) {fuel hole : ℕ}
    {heap : Array Item} (hfuel : hole ≤ fuel) (hrising : Rising Above heap hole) :
    Ordered Above (siftUp comp fuel hole heap) := by
  induction fuel generalizing hole heap with
  | zero =>
      apply hrising.ordered
      intro hpos
      omega
  | succ fuel ih =>
      unfold siftUp
      by_cases hzero : hole = 0
      · rw [if_pos hzero]
        apply hrising.ordered
        intro hpos
        omega
      rw [if_neg hzero]
      split
      next parent item hparent hitem =>
          split
          next hless =>
              apply ih (by omega)
              exact hrising.swap (by omega) hparent hitem ((hcomp parent item).1 hless)
          next hmore =>
              apply hrising.ordered
              intro _ upper lower hupper hlower
              rw [hparent] at hupper
              rw [hitem] at hlower
              cases hupper
              cases hlower
              exact (hcomp parent item).2 (Bool.eq_false_iff.mpr hmore)
      next hnone =>
          apply hrising.ordered
          intro _ upper lower hupper hlower
          exact absurd hlower (hnone upper lower hupper)

/-- The item in the hole changes places with one of its children, which stands above the
other one. -/
theorem Sinking.swap {heap : Array Item} {hole child : ℕ} {item : Item}
    (hsinking : Sinking Above heap hole) (hchild : 0 < child)
    (hof : (child - 1) / 2 = hole) (hitem : heap[child]? = some item)
    (hfirst : ∀ other lower, 0 < other → (other - 1) / 2 = hole → other ≠ child →
      heap[other]? = some lower → Above item lower) :
    Sinking Above (heap.swapIfInBounds hole child) child := by
  have hin := lt_size_of_getElem? hitem
  have hget := getElem?_swapIfInBounds (show hole < heap.size by omega) hin
  constructor
  · intro i hi hne hnotbelow upper lower hupper hlower
    rw [hget] at hupper hlower
    by_cases hihole : i = hole
    · subst hihole
      rw [if_neg (by omega), if_neg (by omega)] at hupper
      rw [if_pos rfl, hitem] at hlower
      cases hlower
      exact hsinking.bridges child upper item hi hchild hof hupper hitem
    · rw [if_neg hihole, if_neg hne] at hlower
      by_cases hbelow : (i - 1) / 2 = hole
      · rw [if_pos hbelow, hitem] at hupper
        cases hupper
        exact hfirst i lower hi hbelow hne hlower
      · rw [if_neg hbelow, if_neg hnotbelow] at hupper
        exact hsinking.others i hi hihole hbelow upper lower hupper hlower
  · intro grandchild upper lower _ hgrandchild hgrand hupper hlower
    rw [hget, hof, if_pos rfl, hitem] at hupper
    rw [hget, if_neg (by omega), if_neg (by omega)] at hlower
    cases hupper
    apply hsinking.others grandchild hgrandchild (by omega) (by omega) item lower _ hlower
    rw [hgrand]
    exact hitem

theorem size_sinkHole (fuel hole : ℕ) (heap : Array Item) :
    (sinkHole comp fuel hole heap).2.size = heap.size := by
  have hlength := (sinkHole_perm comp fuel hole heap).length_eq
  rw [Array.length_toList, Array.length_toList] at hlength
  exact hlength

theorem sinking_of_size_eq_zero {heap : Array Item} {hole : ℕ} (hempty : heap.size = 0) :
    Sinking Above heap hole := by
  constructor
  · intro i _ _ _ upper lower hupper
    have hin := lt_size_of_getElem? hupper
    omega
  · intro child upper lower _ _ _ hupper
    have hin := lt_size_of_getElem? hupper
    omega

/-- The hole ends at a leaf. -/
theorem sinkHole_sinking (hcomp : Compares Above comp) {fuel hole : ℕ} {heap : Array Item}
    (hfuel : heap.size ≤ hole + fuel) (hsinking : Sinking Above heap hole) :
    Sinking Above (sinkHole comp fuel hole heap).2 (sinkHole comp fuel hole heap).1 ∧
      heap.size ≤ 2 * (sinkHole comp fuel hole heap).1 + 1 := by
  induction fuel generalizing hole heap with
  | zero => exact ⟨hsinking, by unfold sinkHole; omega⟩
  | succ fuel ih =>
      unfold sinkHole
      by_cases hinner : hole < (heap.size - 1) / 2
      · rw [if_pos hinner]
        have hrightin : 2 * (hole + 1) < heap.size := by omega
        have hleftin : 2 * (hole + 1) - 1 < heap.size := by omega
        rw [Array.getElem?_eq_getElem hrightin, Array.getElem?_eq_getElem hleftin]
        simp only
        have hright := Array.getElem?_eq_getElem hrightin
        have hleft := Array.getElem?_eq_getElem hleftin
        have hswapped : ∀ child, (heap.swapIfInBounds hole child).size = heap.size :=
          fun child => Array.size_swapIfInBounds
        split
        next hless =>
            have hmoved := hsinking.swap (by omega) (by omega) hleft
              (fun other lower hpos hof hne hlower => by
                have hother : other = 2 * (hole + 1) := by omega
                rw [hother, hright] at hlower
                cases hlower
                exact (hcomp _ _).1 hless)
            have hrec := ih (by rw [hswapped]; omega) hmoved
            rw [hswapped] at hrec
            exact hrec
        next hmore =>
            have hmoved := hsinking.swap (by omega) (by omega) hright
              (fun other lower hpos hof hne hlower => by
                have hother : other = 2 * (hole + 1) - 1 := by omega
                rw [hother, hleft] at hlower
                cases hlower
                exact (hcomp _ _).2 (Bool.eq_false_iff.mpr hmore))
            have hrec := ih (by rw [hswapped]; omega) hmoved
            rw [hswapped] at hrec
            exact hrec
      · rw [if_neg hinner]
        by_cases honly : heap.size % 2 = 0 ∧ hole = (heap.size - 2) / 2
        · rw [if_pos honly]
          by_cases hempty : heap.size = 0
          · exact ⟨sinking_of_size_eq_zero (Array.size_swapIfInBounds.trans hempty), by omega⟩
          have hleftin : 2 * (hole + 1) - 1 < heap.size := by omega
          have hmoved := hsinking.swap (by omega) (by omega) (Array.getElem?_eq_getElem hleftin)
            (fun other lower hpos hof hne hlower => by
              have hin := lt_size_of_getElem? hlower
              omega)
          exact ⟨hmoved, by omega⟩
        · rw [if_neg honly]
          exact ⟨hsinking, by omega⟩

theorem Sinking.rising {heap : Array Item} {hole : ℕ} (hsinking : Sinking Above heap hole)
    (hleaf : heap.size ≤ 2 * hole + 1) : Rising Above heap hole := by
  constructor
  · intro i hi hne upper lower hupper hlower
    have hin := lt_size_of_getElem? hlower
    exact hsinking.others i hi hne (by omega) upper lower hupper hlower
  · exact hsinking.bridges

theorem push_ordered [IsTrans Item Above] (hcomp : Compares Above comp) {heap : Array Item}
    (hordered : Ordered Above heap) (item : Item) : Ordered Above (push comp heap item) := by
  apply siftUp_ordered hcomp le_rfl
  constructor
  · intro i hi hne upper lower hupper hlower
    rw [Array.getElem?_push, if_neg hne] at hlower
    have hin := lt_size_of_getElem? hlower
    rw [Array.getElem?_push, if_neg (by omega)] at hupper
    exact hordered i hi upper lower hupper hlower
  · intro child upper lower _ _ hof _ hlower
    have hin := lt_size_of_getElem? hlower
    rw [Array.size_push] at hin
    omega

theorem pop_ordered [IsTrans Item Above] (hcomp : Compares Above comp) {heap : Array Item}
    (hordered : Ordered Above heap) : Ordered Above (pop comp heap) := by
  have hmoved : Sinking Above (heap.swapIfInBounds 0 (heap.size - 1)).pop 0 := by
    constructor
    · intro i hi _ hdeep upper lower hupper hlower
      have hin := lt_size_of_getElem? hlower
      rw [Array.size_pop, Array.size_swapIfInBounds] at hin
      have hget := getElem?_swapIfInBounds (show 0 < heap.size by omega)
        (show heap.size - 1 < heap.size by omega)
      rw [Array.getElem?_pop, if_pos (by rw [Array.size_swapIfInBounds]; omega), hget,
        if_neg (by omega), if_neg (by omega)] at hupper hlower
      exact hordered i hi upper lower hupper hlower
    · intro child upper lower hzero
      exact absurd hzero (lt_irrefl 0)
  obtain ⟨hsunk, hleaf⟩ := @sinkHole_sinking Item Above comp hcomp
    (heap.swapIfInBounds 0 (heap.size - 1)).pop.size 0
    (heap.swapIfInBounds 0 (heap.size - 1)).pop (by omega) hmoved
  apply siftUp_ordered hcomp le_rfl
  apply hsunk.rising
  rw [size_sinkHole]
  exact hleaf

/-- The first item stands above every other. -/
theorem Ordered.front [IsTrans Item Above] [Std.Refl Above] {heap : Array Item} {front : Item}
    (hordered : Ordered Above heap) (hfront : heap[0]? = some front) {i : ℕ} {item : Item}
    (hitem : heap[i]? = some item) : Above front item := by
  induction i using Nat.strong_induction_on generalizing item with
  | _ i ih =>
      by_cases hzero : i = 0
      · rw [hzero, hfront] at hitem
        cases hitem
        exact refl front
      · have hin := lt_size_of_getElem? hitem
        have hparent := Array.getElem?_eq_getElem (show (i - 1) / 2 < heap.size by omega)
        have hlower := hordered i (by omega) _ item hparent hitem
        exact Trans.trans (ih ((i - 1) / 2) (by omega) hparent) hlower

end Order

end BinaryHeap
end BackEndFacility
