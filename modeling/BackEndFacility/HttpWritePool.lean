import BackEndFacility.HttpBuffer

/-!
# Write pools of any granularity

A write buffer keeps free buffers in eight slots, the buffers of a slot being of its
multiple of the granularity.  A size is rounded up to the next multiple.
-/

namespace BackEndFacility

namespace HttpWriteBuffer

/-- The pools that the operations make of a new one, with the buffers given out. -/
inductive Reached (granularity num : Nat) : HttpWriteBuffer → List HttpBuffer → Prop
  | init : Reached granularity num (.init granularity num) []
  | alloc {pool left : HttpWriteBuffer} {held : List HttpBuffer} {sz : Int}
      {buffer : HttpBuffer} (hreached : Reached granularity num pool held)
      (halloc : pool.allocWriteBuffer sz = some (buffer, left)) :
      Reached granularity num left (buffer :: held)
  | release {pool : HttpWriteBuffer} {held : List HttpBuffer} {taken buffer : HttpBuffer}
      (hreached : Reached granularity num pool held) (htaken : taken ∈ held)
      (hid : buffer.id = taken.id) (hsize : buffer.size = taken.size) :
      Reached granularity num (pool.releaseWriteBuffer buffer) (held.erase taken)

/-- Each slot has buffers of its own multiple of the granularity. -/
structure SizedBy (pool : HttpWriteBuffer) (granularity : Nat) : Prop where
  size_eq : pool.size = granularity
  numSlot_eq : pool.numSlot = 8
  sizes : ∀ index, ∀ buffer ∈ pool.freeBuffer.getD index [],
    buffer.size = (index + 1) * granularity

def roundUp (granularity sz : Nat) : Nat :=
  (sz + granularity - 1) / granularity * granularity

theorem slotIndex_spec
    {pool : HttpWriteBuffer} {granularity sz : Nat} (hsize : pool.size = granularity)
    (hpos : 0 < granularity) (hsz : 0 < sz) :
    (pool.slotIndex sz + 1) * granularity = roundUp granularity sz := by
  have hdiv : sz / granularity * granularity + sz % granularity = sz :=
    Nat.div_add_mod' sz granularity
  have hmod := Nat.mod_lt sz hpos
  unfold slotIndex roundUp
  rw [hsize]
  simp only
  generalize sz % granularity = rest at hdiv hmod ⊢
  generalize sz / granularity = quotient at hdiv
  by_cases hrest : 0 < rest
  · have hup : sz + (granularity - rest) = (quotient + 1) * granularity := by
      rw [Nat.add_mul, Nat.one_mul]
      omega
    have hceil : (sz + granularity - 1) / granularity = quotient + 1 := by
      refine Nat.div_eq_of_lt_le ?_ ?_
      · rw [Nat.add_mul, Nat.one_mul]
        omega
      · rw [Nat.add_mul, Nat.add_mul, Nat.one_mul]
        omega
    rw [if_pos hrest, hup, Nat.mul_div_cancel _ hpos, hceil, Nat.add_sub_cancel]
  · have hexact : sz = quotient * granularity := by omega
    have hquotient : 0 < quotient := by
      refine Nat.pos_of_ne_zero fun hzero => ?_
      rw [hzero, Nat.zero_mul] at hexact
      omega
    have hceil : (sz + granularity - 1) / granularity = quotient := by
      refine Nat.div_eq_of_lt_le ?_ ?_
      · omega
      · rw [Nat.add_mul, Nat.one_mul]
        omega
    have hfloor : sz / granularity = quotient := by
      rw [hexact, Nat.mul_div_cancel _ hpos]
    rw [if_neg hrest, hceil]
    change (sz / granularity - 1 + 1) * granularity = quotient * granularity
    rw [hfloor, Nat.sub_add_cancel hquotient]

theorem le_roundUp {granularity : Nat} (hpos : 0 < granularity) (sz : Nat) :
    sz ≤ roundUp granularity sz := by
  have hdiv : (sz + granularity - 1) / granularity * granularity +
      (sz + granularity - 1) % granularity = sz + granularity - 1 :=
    Nat.div_add_mod' (sz + granularity - 1) granularity
  have hmod := Nat.mod_lt (sz + granularity - 1) hpos
  unfold roundUp
  omega

theorem slotIndex_multiple
    {pool : HttpWriteBuffer} {granularity : Nat} (hsize : pool.size = granularity)
    (hpos : 0 < granularity) (index : Nat) :
    pool.slotIndex ((index + 1) * granularity) = index := by
  unfold slotIndex
  rw [hsize]
  simp only [Nat.mul_mod_left, lt_irrefl, if_false, Nat.add_zero]
  rw [Nat.mul_div_cancel _ hpos, Nat.add_sub_cancel]

theorem SizedBy.init (granularity num : Nat) :
    (HttpWriteBuffer.init granularity num).SizedBy granularity := by
  refine ⟨rfl, rfl, fun index buffer hbuffer => ?_⟩
  cases index with
  | zero =>
      simp only [HttpWriteBuffer.init, List.getD_cons_zero, List.mem_map] at hbuffer
      obtain ⟨id, -, rfl⟩ := hbuffer
      exact (Nat.one_mul granularity).symm
  | succ index =>
      have hnone : (List.replicate 7 ([] : List HttpBuffer)).getD index [] = [] := by
        rw [List.getD_eq_getElem?_getD, List.getElem?_replicate]
        split
        · rfl
        · rfl
      simp only [HttpWriteBuffer.init, List.getD_cons_succ, hnone] at hbuffer
      cases hbuffer

/-- A slot gets another list of buffers of its size. -/
theorem SizedBy.setSlot
    {pool : HttpWriteBuffer} {granularity index : Nat} {list : List HttpBuffer}
    (hsized : pool.SizedBy granularity)
    (hsizes : ∀ buffer ∈ list, buffer.size = (index + 1) * granularity) :
    { pool with freeBuffer := pool.freeBuffer.set index list }.SizedBy granularity := by
  refine ⟨hsized.size_eq, hsized.numSlot_eq, fun other buffer hbuffer => ?_⟩
  simp only [List.getD_eq_getElem?_getD] at hbuffer
  by_cases heq : index = other
  · subst heq
    by_cases hindex : index < pool.freeBuffer.length
    · rw [List.getElem?_set_self hindex] at hbuffer
      exact hsizes buffer hbuffer
    · rw [List.getElem?_eq_none (by rw [List.length_set]; omega)] at hbuffer
      cases hbuffer
  · rw [List.getElem?_set_ne heq, ← List.getD_eq_getElem?_getD] at hbuffer
    exact hsized.sizes other buffer hbuffer

theorem SizedBy.alloc_eq_none
    {pool : HttpWriteBuffer} {granularity : Nat} {sz : Int} (hsized : pool.SizedBy granularity)
    (hout : sz ≤ 0 ∨ (8 * granularity : Int) < sz) :
    pool.allocWriteBuffer sz = none := by
  unfold allocWriteBuffer
  rw [if_pos]
  rw [hsized.numSlot_eq, hsized.size_eq]
  exact hout

/-- The buffer for a size has that size rounded up. -/
theorem SizedBy.exists_alloc
    {pool : HttpWriteBuffer} {granularity : Nat} {sz : Int} (hsized : pool.SizedBy granularity)
    (hpos : 0 < sz) (hbound : sz ≤ 8 * granularity) :
    ∃ buffer left, pool.allocWriteBuffer sz = some (buffer, left) ∧
      buffer.size = roundUp granularity sz.toNat ∧
      buffer.size = (pool.slotIndex sz.toNat + 1) * granularity ∧ left.SizedBy granularity := by
  have hgranularity : 0 < granularity := by omega
  have hfits : ¬ (sz ≤ 0 ∨ (pool.numSlot * pool.size : Int) < sz) := by
    rw [hsized.numSlot_eq, hsized.size_eq]
    push_cast
    omega
  have hround := slotIndex_spec hsized.size_eq hgranularity (show 0 < sz.toNat by omega)
  unfold allocWriteBuffer
  rw [if_neg hfits]
  simp only
  split
  · refine ⟨_, _, rfl, ?_, ?_, hsized.size_eq, hsized.numSlot_eq, hsized.sizes⟩
    · rw [hsized.size_eq]
      exact hround
    · rw [hsized.size_eq]
  · rename_i entity list hlist
    have hsizes := hsized.sizes (pool.slotIndex sz.toNat)
    rw [hlist] at hsizes
    have hentity := hsizes entity List.mem_cons_self
    refine ⟨_, _, rfl, hentity.trans hround, hentity, hsized.setSlot ?_⟩
    exact fun buffer hbuffer => hsizes buffer (List.mem_cons_of_mem entity hbuffer)

theorem SizedBy.releaseWriteBuffer
    {pool : HttpWriteBuffer} {granularity index : Nat} {buffer : HttpBuffer}
    (hsized : pool.SizedBy granularity) (hpos : 0 < granularity)
    (hsize : buffer.size = (index + 1) * granularity) :
    (pool.releaseWriteBuffer buffer).SizedBy granularity := by
  unfold HttpWriteBuffer.releaseWriteBuffer
  rw [hsize, slotIndex_multiple hsized.size_eq hpos]
  apply hsized.setSlot
  intro other hother
  rcases List.mem_cons.mp hother with rfl | hold
  · rfl
  · exact hsized.sizes index other hold

theorem length_of_allocWriteBuffer
    {pool left : HttpWriteBuffer} {sz : Int} {buffer : HttpBuffer}
    (halloc : pool.allocWriteBuffer sz = some (buffer, left)) :
    left.freeBuffer.length = pool.freeBuffer.length := by
  unfold allocWriteBuffer at halloc
  split_ifs at halloc
  simp only at halloc
  split at halloc
  · cases halloc
    rfl
  · cases halloc
    exact List.length_set

theorem Reached.sizedBy
    {granularity num : Nat} {pool : HttpWriteBuffer} {held : List HttpBuffer}
    (hreached : Reached granularity num pool held) :
    pool.SizedBy granularity ∧ ∀ buffer ∈ held,
      0 < granularity ∧ ∃ index, buffer.size = (index + 1) * granularity := by
  induction hreached with
  | init => exact ⟨.init granularity num, fun _ hbuffer => absurd hbuffer List.not_mem_nil⟩
  | @alloc pool left held sz buffer _ halloc ih =>
      obtain ⟨hsized, hheld⟩ := ih
      by_cases hout : sz ≤ 0 ∨ (8 * granularity : Int) < sz
      · rw [hsized.alloc_eq_none hout] at halloc
        cases halloc
      · rw [not_or, not_le, not_lt] at hout
        obtain ⟨given, rest, hgiven, -, hsize, hrest⟩ := hsized.exists_alloc hout.1 hout.2
        rw [halloc] at hgiven
        cases hgiven
        refine ⟨hrest, fun other hother => ?_⟩
        rcases List.mem_cons.mp hother with rfl | hold
        · exact ⟨by omega, _, hsize⟩
        · exact hheld other hold
  | @release pool held taken buffer _ htaken _ hsize ih =>
      obtain ⟨hsized, hheld⟩ := ih
      obtain ⟨hpos, index, hindex⟩ := hheld taken htaken
      constructor
      · exact hsized.releaseWriteBuffer hpos (hsize.trans hindex)
      · exact fun other hother => hheld other (List.mem_of_mem_erase hother)

end HttpWriteBuffer

end BackEndFacility
