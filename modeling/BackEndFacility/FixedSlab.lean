import BackEndFacility.Machine
import BackEndFacility.SuccessorChain

/-!
# The slab of `FixedBuffer.h`

`FixedSlab` keeps its free list inside the items: the first word of a free item refers to
the next one, and `m_head` is stored behind the last item.  The owner of an item may write
what it likes into it, that word included.
-/

namespace BackEndFacility

/-- `head` is `*m_head`, and `link` the first word of an item; `live` are the items that
have been handed out. -/
structure FixedSlab where
  head : Option ℕ
  link : ℕ → Option ℕ
  live : List ℕ

namespace FixedSlab

/-! ## The slab and its owners -/

/-- The constructor; `garbage` is what the memory held. -/
def construct (garbage : ℕ → Option ℕ) (num : ℕ) : FixedSlab where
  head := some 0
  link := Function.update
    ((List.range (num - 1)).foldl (fun link i => Function.update link i (some (i + 1))) garbage)
    (num - 1) none
  live := []

/-- `value` is what `T()` leaves in the first word. -/
def allocElement (slab : FixedSlab) (value : Option ℕ) : Option (ℕ × FixedSlab) :=
  match slab.head with
  | none => none
  | some item =>
      some (item,
        { head := slab.link item
          link := Function.update slab.link item value
          live := item :: slab.live })

def releaseElement (slab : FixedSlab) (item : ℕ) : FixedSlab where
  head := some item
  link := Function.update slab.link item slab.head
  live := slab.live.erase item

/-- The owner of an item writes into it. -/
def write (slab : FixedSlab) (item : ℕ) (value : Option ℕ) : FixedSlab :=
  { slab with link := Function.update slab.link item value }

inductive Action where
  | alloc (value : Option ℕ)
  | release (item : ℕ)
  | write (item : ℕ) (value : Option ℕ)
  deriving DecidableEq, Repr

/-- Only an item that has been handed out is written or given back. -/
def step (slab : FixedSlab) : Action → Option FixedSlab
  | .alloc value => some (((slab.allocElement value).map Prod.snd).getD slab)
  | .release item => if item ∈ slab.live then some (slab.releaseElement item) else none
  | .write item value => if item ∈ slab.live then some (slab.write item value) else none

def machine (garbage : ℕ → Option ℕ) (num : ℕ) : Machine FixedSlab Action where
  start := construct garbage num
  step := step

/-! ## The free list -/

/-- The links spell a list of items which, with those handed out, are all there are. -/
def Spells (num : ℕ) (slab : FixedSlab) (free : List ℕ) : Prop :=
  Chained slab.link slab.head free ∧ (free ++ slab.live).Perm (List.range num)

theorem foldl_link (link : ℕ → Option ℕ) (count item : ℕ) :
    (List.range count).foldl (fun link i => Function.update link i (some (i + 1))) link item =
      if item < count then some (item + 1) else link item := by
  induction count with
  | zero => simp
  | succ count ih =>
      rw [List.range_succ, List.foldl_append, List.foldl_cons, List.foldl_nil]
      by_cases heq : item = count
      · subst heq
        simp
      · rw [Function.update_of_ne heq, ih]
        have hlt : item < count ↔ item < count + 1 := by omega
        simp only [hlt]

theorem spells_construct (garbage : ℕ → Option ℕ) {num : ℕ} (hpos : 0 < num) :
    Spells num (construct garbage num) (List.range num) := by
  refine ⟨?_, by simp [construct]⟩
  have hlast : (construct garbage num).link (num - 1) = none := Function.update_self _ _ _
  have hinner : ∀ item, 0 ≤ item → item < num - 1 →
      (construct garbage num).link item = some (item + 1) := by
    intro item _ hlt
    simp only [construct]
    rw [Function.update_of_ne (Nat.ne_of_lt hlt), foldl_link, if_pos hlt]
  have hchain := chained_range hlast 0 (Nat.zero_le _) hinner
  have hcount : num - 1 + 1 - 0 = num := by omega
  rwa [hcount, ← List.range_eq_range'] at hchain

namespace Spells

variable {num item : ℕ} {slab : FixedSlab} {free : List ℕ}

theorem nodup (hspells : Spells num slab free) : (free ++ slab.live).Nodup :=
  hspells.2.nodup_iff.mpr List.nodup_range

/-- An item that has been handed out is not on the free list. -/
theorem not_mem (hspells : Spells num slab free) (hlive : item ∈ slab.live) : item ∉ free :=
  fun hfree => (List.nodup_append.mp hspells.nodup).2.2 item hfree item hlive rfl

theorem allocElement (hspells : Spells num slab free) {value : Option ℕ} {next : FixedSlab}
    (halloc : slab.allocElement value = some (item, next)) :
    ∃ rest, free = item :: rest ∧ Spells num next rest := by
  obtain ⟨hchain, hperm⟩ := hspells
  have hnodup := hperm.nodup_iff.mpr List.nodup_range
  unfold FixedSlab.allocElement at halloc
  cases hhead : slab.head with
  | none => simp [hhead] at halloc
  | some first =>
      simp only [hhead, Option.some.injEq, Prod.mk.injEq] at halloc
      obtain ⟨rfl, rfl⟩ := halloc
      rw [hhead] at hchain
      obtain ⟨rest, rfl, hrest⟩ := hchain.exists_cons
      rw [List.cons_append, List.nodup_cons] at hnodup
      refine ⟨rest, rfl, hrest.update ?_ value, List.perm_middle.trans hperm⟩
      exact fun hmem => hnodup.1 (List.mem_append_left _ hmem)

theorem releaseElement (hspells : Spells num slab free) (hlive : item ∈ slab.live) :
    Spells num (slab.releaseElement item) (item :: free) := by
  have hout := hspells.not_mem hlive
  obtain ⟨hchain, hperm⟩ := hspells
  refine ⟨⟨rfl, ?_⟩, ?_⟩
  · simp only [FixedSlab.releaseElement, Function.update_self]
    exact hchain.update hout slab.head
  · have hback : (item :: slab.live.erase item).Perm slab.live :=
      (List.perm_cons_erase hlive).symm
    exact (List.perm_middle.symm.trans (List.Perm.append_left free hback)).trans hperm

theorem write (hspells : Spells num slab free) (hlive : item ∈ slab.live) (value : Option ℕ) :
    Spells num (slab.write item value) free :=
  ⟨hspells.1.update (hspells.not_mem hlive) value, hspells.2⟩

theorem step {action : Action} {next : FixedSlab} (hspells : Spells num slab free)
    (hstep : slab.step action = some next) : ∃ after, Spells num next after := by
  cases action with
  | alloc value =>
      simp only [FixedSlab.step, Option.some.injEq] at hstep
      cases halloc : slab.allocElement value with
      | none =>
          rw [halloc] at hstep
          subst next
          exact ⟨free, hspells⟩
      | some given =>
          rw [halloc] at hstep
          subst next
          obtain ⟨rest, -, hrest⟩ := hspells.allocElement halloc
          exact ⟨rest, hrest⟩
  | release item =>
      simp only [FixedSlab.step] at hstep
      split_ifs at hstep with hlive
      cases hstep
      exact ⟨_, hspells.releaseElement hlive⟩
  | write item value =>
      simp only [FixedSlab.step] at hstep
      split_ifs at hstep with hlive
      cases hstep
      exact ⟨free, hspells.write hlive value⟩

theorem allocElement_none (hspells : Spells num slab free) (value : Option ℕ) :
    slab.allocElement value = none ↔ slab.live.length = num := by
  have hlength := hspells.2.length_eq
  rw [List.length_append, List.length_range] at hlength
  have hempty : slab.allocElement value = none ↔ slab.head = none := by
    unfold FixedSlab.allocElement
    cases slab.head with
    | none => simp
    | some item => simp
  rw [hempty]
  constructor
  · intro hhead
    have hchain := hspells.1
    rw [hhead] at hchain
    rw [hchain.eq_nil, List.length_nil] at hlength
    omega
  · intro hall
    have hnil : free = [] := List.eq_nil_of_length_eq_zero (by omega)
    have hchain := hspells.1
    rwa [hnil] at hchain

end Spells

/-! ## Every run -/

/-- Whatever the owners write into their items, the links spell the items that are not
handed out, each once; an item is refused only when there is none, and what is handed out
is nobody else's. -/
theorem spells_of_reachable {garbage : ℕ → Option ℕ} {num : ℕ} {slab : FixedSlab}
    (hpos : 0 < num) (hreached : (machine garbage num).Reachable slab) :
    (∃ free, Chained slab.link slab.head free ∧ (free ++ slab.live).Perm (List.range num)) ∧
      (∀ value, slab.allocElement value = none ↔ slab.live.length = num) ∧
      ∀ value item next, slab.allocElement value = some (item, next) →
        item < num ∧ item ∉ slab.live := by
  obtain ⟨free, hspells⟩ : ∃ free, Spells num slab free := by
    refine hreached.invariant (fun slab => ∃ free, Spells num slab free)
      ⟨_, spells_construct garbage hpos⟩ ?_
    rintro before action after ⟨free, hspells⟩ - hstep
    exact hspells.step hstep
  refine ⟨⟨free, hspells⟩, hspells.allocElement_none, ?_⟩
  intro value item next halloc
  obtain ⟨rest, rfl, -⟩ := hspells.allocElement halloc
  refine ⟨List.mem_range.mp (hspells.2.mem_iff.mp List.mem_cons_self), fun hlive => ?_⟩
  exact hspells.not_mem hlive List.mem_cons_self

/-- Both items are handed out, written, and given back in the order in which they came. -/
def fillAndReturn : List Action :=
  [.alloc none, .alloc (some 7), .write 0 (some 0), .alloc none, .release 0, .release 1]

theorem spells_fillAndReturn :
    ∃ slab, (machine (fun _ => some 9) 2).run fillAndReturn = some slab ∧
      slab.head = some 1 ∧ slab.link 1 = some 0 ∧
      ∃ free, Chained slab.link slab.head free ∧ (free ++ slab.live).Perm (List.range 2) := by
  have hreached : ∀ slab, (machine (fun _ => some 9) 2).run fillAndReturn = some slab →
      (machine (fun _ => some 9) 2).Reachable slab :=
    fun _ hrun => Machine.Reachable.runFrom .start hrun
  exact ⟨_, rfl, rfl, rfl, (spells_of_reachable (by decide) (hreached _ rfl)).1⟩

end FixedSlab
end BackEndFacility
