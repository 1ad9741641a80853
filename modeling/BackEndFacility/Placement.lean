import Mathlib.Algebra.BigOperators.Group.Finset.Basic
import Mathlib.Logic.Function.Basic
import Mathlib.Tactic

/-!
# Items in exactly one place

A placement names, for every item of a fixed collection, the one place in
which it is.  An operation that takes one item from its place to another and
disturbs no other item updates the placement at that item.

Where an item is either in a list or with an owner, custody of the items passes
between them.  Where an item may occur more than once, its occurrences are
counted in every place, and an operation that moves some of them keeps the
total.
-/

namespace BackEndFacility

variable {Item Place : Type*}

/-- `At spot item` holds for the items of the collection alone, and for each
of them at the single spot `place item`. -/
def Placed (Valid : Item → Prop) (At : Place → Item → Prop)
    (place : Item → Place) : Prop :=
  ∀ item spot, At spot item ↔ Valid item ∧ spot = place item

namespace Placed

variable {Valid : Item → Prop} {At At' : Place → Item → Prop}
  {place : Item → Place}

theorem valid (hplaced : Placed Valid At place) {spot : Place} {item : Item}
    (hat : At spot item) : Valid item :=
  ((hplaced item spot).mp hat).1

theorem unique (hplaced : Placed Valid At place) {first second : Place}
    {item : Item} (hfirst : At first item) (hsecond : At second item) :
    first = second := by
  rw [((hplaced item first).mp hfirst).2, ((hplaced item second).mp hsecond).2]

theorem existsUnique (hplaced : Placed Valid At place) {item : Item}
    (hvalid : Valid item) : ∃! spot, At spot item := by
  refine ⟨place item, (hplaced item _).mpr ⟨hvalid, rfl⟩, ?_⟩
  intro spot hat
  exact ((hplaced item spot).mp hat).2

theorem congr (hplaced : Placed Valid At place)
    (hsame : ∀ item spot, At' spot item ↔ At spot item) :
    Placed Valid At' place := by
  intro item spot
  rw [hsame item spot]
  exact hplaced item spot

/-- One item moves, no other is disturbed. -/
theorem move [DecidableEq Item] (hplaced : Placed Valid At place)
    {moved : Item} (source : Place) {target : Place}
    (hsource : At source moved)
    (htarget : ∀ spot, At' spot moved ↔
      spot = target ∨ (At spot moved ∧ spot ≠ source))
    (hothers : ∀ item spot, item ≠ moved →
      (At' spot item ↔ At spot item)) :
    Placed Valid At' (Function.update place moved target) := by
  intro item spot
  obtain ⟨hvalid, hplace⟩ := (hplaced moved source).mp hsource
  by_cases heq : item = moved
  · subst heq
    rw [htarget spot, hplaced item spot]
    simp only [hvalid, true_and, Function.update_self, hplace]
    tauto
  · rw [hothers item spot heq, hplaced item spot]
    simp [Function.update, heq]

end Placed

/-- Every item of the collection is in one list or has one owner, and in one of them only. -/
structure Custody {Owner : Type*} (Valid : Item → Prop) (listed : List Item)
    (owned : Owner → Option Item) : Prop where
  once : listed.Nodup
  apart : ∀ owner item, owned owner = some item → item ∉ listed
  alone : ∀ first second item, owned first = some item → owned second = some item →
    first = second
  complete : ∀ item, Valid item ↔ item ∈ listed ∨ ∃ owner, owned owner = some item

namespace Custody

variable {Owner : Type*} {Valid : Item → Prop} {listed listed' : List Item}
  {owned : Owner → Option Item}

theorem perm (hcustody : Custody Valid listed owned) (hperm : listed'.Perm listed) :
    Custody Valid listed' owned := by
  constructor
  · exact hperm.nodup_iff.mpr hcustody.once
  · intro owner item howned hmem
    exact hcustody.apart owner item howned (hperm.mem_iff.mp hmem)
  · exact hcustody.alone
  · intro item
    rw [hperm.mem_iff]
    exact hcustody.complete item

/-- An owner that has nothing takes an item from the list. -/
theorem take [DecidableEq Owner] {item : Item} {owner : Owner}
    (hcustody : Custody Valid (item :: listed) owned)
    (hfree : owned owner = none) :
    Custody Valid listed (Function.update owned owner (some item)) := by
  obtain ⟨hout, honce⟩ := List.nodup_cons.mp hcustody.once
  have hcases : ∀ other found, Function.update owned owner (some item) other = some found →
      (other = owner ∧ found = item) ∨ (other ≠ owner ∧ owned other = some found) := by
    intro other found hfound
    by_cases heq : other = owner
    · rw [heq, Function.update_self] at hfound
      exact .inl ⟨heq, (Option.some.inj hfound).symm⟩
    · rw [Function.update_of_ne heq] at hfound
      exact .inr ⟨heq, hfound⟩
  constructor
  · exact honce
  · intro other found hfound hmem
    rcases hcases other found hfound with ⟨-, rfl⟩ | ⟨-, hold⟩
    · exact hout hmem
    · exact hcustody.apart other found hold (List.mem_cons_of_mem item hmem)
  · intro first second found hfirst hsecond
    rcases hcases first found hfirst with ⟨rfl, rfl⟩ | ⟨-, holdFirst⟩
    · rcases hcases second found hsecond with ⟨rfl, -⟩ | ⟨-, holdSecond⟩
      · rfl
      · exact absurd List.mem_cons_self (hcustody.apart second found holdSecond)
    · rcases hcases second found hsecond with ⟨rfl, rfl⟩ | ⟨-, holdSecond⟩
      · exact absurd List.mem_cons_self (hcustody.apart first found holdFirst)
      · exact hcustody.alone first second found holdFirst holdSecond
  · intro found
    rw [hcustody.complete found]
    constructor
    · rintro (hmem | ⟨other, hother⟩)
      · rcases List.mem_cons.mp hmem with rfl | hrest
        · exact .inr ⟨owner, Function.update_self ..⟩
        · exact .inl hrest
      · have hne : other ≠ owner := by
          rintro rfl
          rw [hfree] at hother
          cases hother
        refine .inr ⟨other, ?_⟩
        rw [Function.update_of_ne hne]
        exact hother
    · rintro (hmem | ⟨other, hother⟩)
      · exact .inl (List.mem_cons_of_mem item hmem)
      · rcases hcases other found hother with ⟨-, rfl⟩ | ⟨-, hold⟩
        · exact .inl List.mem_cons_self
        · exact .inr ⟨other, hold⟩

/-- An owner puts its item back into the list. -/
theorem give [DecidableEq Owner] {item : Item} {owner : Owner}
    (hcustody : Custody Valid listed owned)
    (howned : owned owner = some item) :
    Custody Valid (item :: listed) (Function.update owned owner none) := by
  have hcases : ∀ other found, Function.update owned owner none other = some found →
      other ≠ owner ∧ owned other = some found := by
    intro other found hfound
    by_cases heq : other = owner
    · rw [heq, Function.update_self] at hfound
      cases hfound
    · rw [Function.update_of_ne heq] at hfound
      exact ⟨heq, hfound⟩
  constructor
  · exact List.nodup_cons.mpr ⟨hcustody.apart owner item howned, hcustody.once⟩
  · intro other found hfound hmem
    obtain ⟨hne, hold⟩ := hcases other found hfound
    rcases List.mem_cons.mp hmem with rfl | hrest
    · exact hne (hcustody.alone other owner found hold howned)
    · exact hcustody.apart other found hold hrest
  · intro first second found hfirst hsecond
    exact hcustody.alone first second found (hcases first found hfirst).2
      (hcases second found hsecond).2
  · intro found
    rw [hcustody.complete found]
    constructor
    · rintro (hmem | ⟨other, hother⟩)
      · exact .inl (List.mem_cons_of_mem item hmem)
      · by_cases heq : other = owner
        · rw [heq, howned] at hother
          cases hother
          exact .inl List.mem_cons_self
        · refine .inr ⟨other, ?_⟩
          rw [Function.update_of_ne heq]
          exact hother
    · rintro (hmem | ⟨other, hother⟩)
      · rcases List.mem_cons.mp hmem with rfl | hrest
        · exact .inr ⟨owner, howned⟩
        · exact .inl hrest
      · exact .inr ⟨other, (hcases other found hother).2⟩

/-- New items are listed. -/
theorem create {Valid' : Item → Prop} {fresh : List Item} (hcustody : Custody Valid listed owned)
    (hnew : ∀ item ∈ fresh, ¬ Valid item) (hnodup : fresh.Nodup)
    (hvalid : ∀ item, Valid' item ↔ Valid item ∨ item ∈ fresh) :
    Custody Valid' (fresh ++ listed) owned := by
  have hlisted : ∀ item ∈ listed, Valid item :=
    fun item hmem => (hcustody.complete item).mpr (.inl hmem)
  constructor
  · rw [List.nodup_append]
    refine ⟨hnodup, hcustody.once, ?_⟩
    rintro item hfresh other hmem rfl
    exact hnew item hfresh (hlisted item hmem)
  · intro owner item howned hmem
    rcases List.mem_append.mp hmem with hfresh | hold
    · exact hnew item hfresh ((hcustody.complete item).mpr (.inr ⟨owner, howned⟩))
    · exact hcustody.apart owner item howned hold
  · exact hcustody.alone
  · intro item
    rw [hvalid item, hcustody.complete item, List.mem_append]
    tauto

end Custody

section Tally

variable [Fintype Place] [DecidableEq Place] {before after : Place → ℕ}

theorem tally_grow (target : Place) {amount : ℕ}
    (htarget : after target = before target + amount)
    (hothers : ∀ spot, spot ≠ target → after spot = before spot) :
    ∑ spot, after spot = ∑ spot, before spot + amount := by
  rw [← Finset.add_sum_erase Finset.univ after (Finset.mem_univ target),
    ← Finset.add_sum_erase Finset.univ before (Finset.mem_univ target)]
  have hrest : ∑ spot ∈ Finset.univ.erase target, after spot =
      ∑ spot ∈ Finset.univ.erase target, before spot :=
    Finset.sum_congr rfl fun spot hspot =>
      hothers spot (Finset.ne_of_mem_erase hspot)
  rw [htarget, hrest]
  omega

/-- One place gets another content. -/
theorem tally_update {Content : Type*} (weight : Content → ℕ) (content : Place → Content)
    (target : Place) (value : Content) :
    ∑ spot, weight (Function.update content target value spot) + weight (content target) =
      ∑ spot, weight (content spot) + weight value := by
  rw [← Finset.add_sum_erase Finset.univ (fun spot => weight (Function.update content target value
    spot)) (Finset.mem_univ target), ← Finset.add_sum_erase Finset.univ
    (fun spot => weight (content spot)) (Finset.mem_univ target)]
  have hrest : ∑ spot ∈ Finset.univ.erase target,
      weight (Function.update content target value spot) =
        ∑ spot ∈ Finset.univ.erase target, weight (content spot) :=
    Finset.sum_congr rfl fun spot hspot => by
      rw [Function.update_of_ne (Finset.ne_of_mem_erase hspot)]
  rw [hrest, Function.update_self]
  omega

/-- Some occurrences move from one place to another. -/
theorem tally_move (source target : Place) (hne : source ≠ target)
    {amount : ℕ} (hsource : before source = after source + amount)
    (htarget : after target = before target + amount)
    (hothers : ∀ spot, spot ≠ source → spot ≠ target →
      after spot = before spot) :
    ∑ spot, after spot = ∑ spot, before spot := by
  let between := Function.update after target (before target)
  have hbetween : ∑ spot, after spot = ∑ spot, between spot + amount := by
    apply tally_grow target
    · simpa [between] using htarget
    · intro spot hspot
      simp [between, hspot]
  have hbefore : ∑ spot, before spot = ∑ spot, between spot + amount := by
    apply tally_grow source
    · simpa [between, hne] using hsource
    · intro spot hspot
      by_cases heq : spot = target
      · subst heq
        simp [between]
      · simpa [between, heq] using (hothers spot hspot heq).symm
  rw [hbetween, hbefore]

theorem tally_one {tally : Place → ℕ} (hone : ∑ spot, tally spot = 1) :
    ∃ place, tally place = 1 ∧ ∀ other, other ≠ place → tally other = 0 := by
  have hpositive : ∃ place, tally place ≠ 0 := by
    by_contra hnone
    push Not at hnone
    simp [hnone] at hone
  obtain ⟨place, hplace⟩ := hpositive
  rw [← Finset.add_sum_erase Finset.univ tally (Finset.mem_univ place)] at hone
  have hrest : ∑ spot ∈ Finset.univ.erase place, tally spot = 0 := by omega
  refine ⟨place, by omega, fun other hother => ?_⟩
  exact Finset.sum_eq_zero_iff.mp hrest other
    (Finset.mem_erase.mpr ⟨hother, Finset.mem_univ other⟩)

end Tally

end BackEndFacility
