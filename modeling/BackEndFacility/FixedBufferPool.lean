import BackEndFacility.AsynLogAppender
import Mathlib.Data.List.Nodup
import Mathlib.Data.List.Perm.Subperm

/-!
# The buffer pool of `slog/FixedBuffer.h`

The pool grows when it runs dry, unless too many of its buffers are out, and it shrinks
to its fixed size on demand.  Buffers are named in the order in which `new` made them, so
`created` tells how many there have been, and `deleted` lists those that `delete` was
called on.  The buffers that callers have are the outstanding ones.

All numbers are of objects in memory and do not wrap.  An exception may end an allocation
at any point: `fresh` is the number of calls of `new` that succeed, none of them when
`reserve` fails, and `grown` tells whether `push_back` finds memory.
-/

namespace BackEndFacility
namespace FixedBuffers

open AsynLog (FixedBuffer)

structure FixedBufferPool where
  fixSz : ℕ
  incGran : ℕ
  unrecyled : ℕ
  pool : List ℕ
  created : ℕ
  memory : ℕ → FixedBuffer
  deleted : List ℕ
  outstanding : List ℕ

namespace FixedBufferPool

def construct (garbage : ℕ → ℕ → UInt8) (num incGran : ℕ) : FixedBufferPool where
  fixSz := num
  incGran := incGran
  unrecyled := 0
  pool := List.range num
  created := num
  memory := fun buffer => .construct (garbage buffer)
  deleted := []
  outstanding := []

/-! ## Operations -/

/-- `EnlargePoolUnsafe`. -/
def enlargePoolUnsafe (fresh : ℕ) (this : FixedBufferPool) : FixedBufferPool :=
  if 1024 * this.fixSz < this.unrecyled then this
  else
    { this with
      pool := this.pool ++ List.range' this.created (min fresh this.incGran)
      created := this.created + min fresh this.incGran
      memory := fun buffer =>
        if this.created ≤ buffer ∧ buffer < this.created + min fresh this.incGran then
          .construct (this.memory buffer).bytes
        else this.memory buffer }

/-- `m_pool.back()` and `m_pool.pop_back()`. -/
def takeBack (this : FixedBufferPool) : Option ℕ × FixedBufferPool :=
  match this.pool.getLast? with
  | none => (none, this)
  | some buffer =>
      (some buffer, { this with
        pool := this.pool.dropLast
        unrecyled := this.unrecyled + 1
        outstanding := buffer :: this.outstanding })

def getBuff (fresh : ℕ) (this : FixedBufferPool) : Option ℕ × FixedBufferPool :=
  if this.pool = [] then (this.enlargePoolUnsafe fresh).takeBack else this.takeBack

/-- The buffer is reset before `push_back`, which leaves it with the caller if it throws. -/
def recycle (buffer : ℕ) (grown : Bool) (this : FixedBufferPool) : FixedBufferPool :=
  let reset := { this with
    memory := Function.update this.memory buffer (this.memory buffer).reset }
  if grown then
    { reset with
      pool := reset.pool ++ [buffer]
      unrecyled := reset.unrecyled - 1
      outstanding := reset.outstanding.erase buffer }
  else reset

def shrink (factor : ℕ) (this : FixedBufferPool) : FixedBufferPool :=
  let maxSz := this.fixSz / factor
  if maxSz < this.pool.length then
    { this with
      deleted := this.deleted ++ this.pool.drop maxSz
      pool := this.pool.take maxSz }
  else this

/-- A caller writes into a buffer it has. -/
def append (buffer : ℕ) (data : List UInt8) (this : FixedBufferPool) : FixedBufferPool :=
  { this with
    memory := Function.update this.memory buffer ((this.memory buffer).append data) }

end FixedBufferPool

inductive Action where
  | getBuff (fresh : ℕ)
  | recycle (buffer : ℕ) (grown : Bool)
  | enlargePool (fresh : ℕ)
  | shrink (factor : ℕ)
  | append (buffer : ℕ) (data : List UInt8)
  deriving DecidableEq, Repr

namespace FixedBufferPool

/-- A caller recycles and writes only what it has, and shrinks by a factor of at least one. -/
def step (this : FixedBufferPool) : Action → Option FixedBufferPool
  | .getBuff fresh => some (this.getBuff fresh).2
  | .recycle buffer grown =>
      if buffer ∈ this.outstanding then some (this.recycle buffer grown) else none
  | .enlargePool fresh => some (this.enlargePoolUnsafe fresh)
  | .shrink factor => if 1 ≤ factor then some (this.shrink factor) else none
  | .append buffer data =>
      if buffer ∈ this.outstanding then some (this.append buffer data) else none

end FixedBufferPool

def machine (garbage : ℕ → ℕ → UInt8) (num incGran : ℕ) : Machine FixedBufferPool Action where
  start := .construct garbage num incGran
  step := FixedBufferPool.step

/-! ## The accounts -/

/-- The pool has no buffer twice and none that is out, `m_unrecyled` counts those that are
out, what is handed out is empty, and no buffer is deleted while it is out, or twice. -/
structure FixedBufferPool.Accounted (this : FixedBufferPool) : Prop where
  distinct : this.pool.Nodup
  disjoint : ∀ buffer ∈ this.pool, buffer ∉ this.outstanding
  counted : this.unrecyled = this.outstanding.length
  once : this.outstanding.Nodup
  empty : ∀ fresh buffer left, this.getBuff fresh = (some buffer, left) →
    buffer ∈ left.outstanding ∧ (left.memory buffer).cur = 0
  undeleted : ∀ buffer ∈ this.pool ++ this.outstanding, buffer ∉ this.deleted
  deletedOnce : this.deleted.Nodup

/-- The buffers that were created and not deleted. -/
def FixedBufferPool.live (this : FixedBufferPool) : ℕ :=
  this.created - this.deleted.length

/-- The pool is not enlarged but by `GetBuff`. -/
def OnDemand (_ : FixedBufferPool) : Action → Prop
  | .enlargePool _ => False
  | _ => True

instance decidableOnDemand (this : FixedBufferPool) :
    ∀ action, Decidable (OnDemand this action)
  | .getBuff _ => isTrue trivial
  | .recycle _ _ => isTrue trivial
  | .enlargePool _ => isFalse id
  | .shrink _ => isTrue trivial
  | .append _ _ => isTrue trivial

/-! ## The invariant -/

/-- Every buffer that was created is in one of three places, and those in the pool are
empty. -/
structure FixedBufferPool.Ledger (this : FixedBufferPool) : Prop where
  placed : (this.pool ++ this.outstanding ++ this.deleted).Perm (List.range this.created)
  counted : this.unrecyled = this.outstanding.length
  empty : ∀ buffer ∈ this.pool, (this.memory buffer).cur = 0

namespace FixedBufferPool.Ledger

variable {this : FixedBufferPool}

theorem construct (garbage : ℕ → ℕ → UInt8) (num incGran : ℕ) :
    (FixedBufferPool.construct garbage num incGran).Ledger := by
  constructor
  · change (List.range num ++ [] ++ []).Perm (List.range num)
    rw [List.append_nil, List.append_nil]
  · rfl
  · intro buffer _
    rfl

theorem enlargePoolUnsafe (hledger : this.Ledger) (fresh : ℕ) :
    (this.enlargePoolUnsafe fresh).Ledger := by
  unfold FixedBufferPool.enlargePoolUnsafe
  split_ifs
  · exact hledger
  constructor
  · simp only
    have hgrown : List.range (this.created + min fresh this.incGran) =
        List.range this.created ++ List.range' this.created (min fresh this.incGran) := by
      have happend := @List.range'_append_1 0 this.created (min fresh this.incGran)
      rw [Nat.zero_add] at happend
      rw [List.range_eq_range', List.range_eq_range', happend]
    rw [hgrown, List.append_assoc, List.append_assoc]
    have hplaced := hledger.placed
    rw [List.append_assoc] at hplaced
    refine List.Perm.trans ?_ (hplaced.append_right _)
    rw [List.append_assoc]
    exact List.Perm.append_left _ List.perm_append_comm
  · exact hledger.counted
  · intro buffer hbuffer
    simp only
    split_ifs with hnew
    · rfl
    · apply hledger.empty
      rcases List.mem_append.mp hbuffer with hold | hfresh
      · exact hold
      · rw [List.mem_range'_1] at hfresh
        exact absurd hfresh hnew

theorem takeBack (hledger : this.Ledger) : this.takeBack.2.Ledger := by
  unfold FixedBufferPool.takeBack
  split
  · exact hledger
  next buffer hlast =>
      have hpool := List.dropLast_append_getLast? buffer hlast
      constructor
      · simp only
        have hplaced := hledger.placed
        rw [← hpool, List.append_assoc _ [buffer], List.singleton_append] at hplaced
        exact hplaced
      · simp only [List.length_cons, hledger.counted]
      · intro other hother
        exact hledger.empty other (List.mem_of_mem_dropLast hother)

theorem getBuff (hledger : this.Ledger) (fresh : ℕ) : (this.getBuff fresh).2.Ledger := by
  unfold FixedBufferPool.getBuff
  split_ifs
  · exact (hledger.enlargePoolUnsafe fresh).takeBack
  · exact hledger.takeBack

theorem recycle (hledger : this.Ledger) {buffer : ℕ} (hout : buffer ∈ this.outstanding)
    (grown : Bool) : (this.recycle buffer grown).Ledger := by
  have hcleared : ∀ other ∈ this.pool ++ [buffer],
      (Function.update this.memory buffer (this.memory buffer).reset other).cur = 0 := by
    intro other hother
    by_cases heq : other = buffer
    · rw [heq, Function.update_self]
      rfl
    · rw [Function.update_of_ne heq]
      rcases List.mem_append.mp hother with hold | hnew
      · exact hledger.empty other hold
      · exact absurd (List.mem_singleton.mp hnew) heq
  unfold FixedBufferPool.recycle
  cases grown with
  | true =>
      constructor
      · simp only [if_true]
        refine List.Perm.trans ?_ hledger.placed
        apply List.Perm.append_right
        rw [List.append_assoc, List.singleton_append]
        exact List.Perm.append_left _ (List.perm_cons_erase hout).symm
      · simp only [if_true, List.length_erase_of_mem hout, hledger.counted]
      · exact hcleared
  | false =>
      constructor
      · exact hledger.placed
      · exact hledger.counted
      · exact fun other hother => hcleared other (List.mem_append_left _ hother)

theorem shrink (hledger : this.Ledger) (factor : ℕ) : (this.shrink factor).Ledger := by
  unfold FixedBufferPool.shrink
  simp only
  split_ifs
  · constructor
    · simp only
      refine List.Perm.trans ?_ hledger.placed
      have hpool := List.take_append_drop (this.fixSz / factor) this.pool
      calc
        this.pool.take (this.fixSz / factor) ++ this.outstanding ++
            (this.deleted ++ this.pool.drop (this.fixSz / factor)) =
            this.pool.take (this.fixSz / factor) ++ (this.outstanding ++ this.deleted ++
              this.pool.drop (this.fixSz / factor)) := by
          simp only [List.append_assoc]
        List.Perm _ (this.pool.take (this.fixSz / factor) ++
            (this.pool.drop (this.fixSz / factor) ++ (this.outstanding ++ this.deleted))) :=
          List.Perm.append_left _ List.perm_append_comm
        _ = this.pool ++ this.outstanding ++ this.deleted := by
          rw [← List.append_assoc, hpool, List.append_assoc]
    · exact hledger.counted
    · exact fun buffer hbuffer => hledger.empty buffer (List.mem_of_mem_take hbuffer)
  · exact hledger

theorem nodup (hledger : this.Ledger) :
    (this.pool ++ this.outstanding ++ this.deleted).Nodup :=
  hledger.placed.nodup_iff.mpr List.nodup_range

theorem append (hledger : this.Ledger) {buffer : ℕ} (hout : buffer ∈ this.outstanding)
    (data : List UInt8) : (this.append buffer data).Ledger := by
  have hnodup := hledger.nodup
  rw [List.nodup_append, List.nodup_append] at hnodup
  refine ⟨hledger.placed, hledger.counted, fun other hother => ?_⟩
  have hne : other ≠ buffer := hnodup.1.2.2 other hother buffer hout
  change (Function.update this.memory buffer _ other).cur = 0
  rw [Function.update_of_ne hne]
  exact hledger.empty other hother

theorem step (hledger : this.Ledger) {action : Action} {next : FixedBufferPool}
    (hstep : this.step action = some next) : next.Ledger := by
  cases action with
  | getBuff fresh =>
      cases hstep
      exact hledger.getBuff fresh
  | recycle buffer grown =>
      simp only [FixedBufferPool.step] at hstep
      split_ifs at hstep with hout
      cases hstep
      exact hledger.recycle hout grown
  | enlargePool fresh =>
      cases hstep
      exact hledger.enlargePoolUnsafe fresh
  | shrink factor =>
      simp only [FixedBufferPool.step] at hstep
      split_ifs at hstep
      cases hstep
      exact hledger.shrink factor
  | append buffer data =>
      simp only [FixedBufferPool.step] at hstep
      split_ifs at hstep with hout
      cases hstep
      exact hledger.append hout data

theorem live_eq (hledger : this.Ledger) :
    this.live = this.pool.length + this.outstanding.length := by
  have hlength := hledger.placed.length_eq
  rw [List.length_append, List.length_append, List.length_range] at hlength
  unfold FixedBufferPool.live
  omega

/-- What `GetBuff` hands out is the back of the pool, enlarged if it was empty. -/
theorem takeBack_empty (hledger : this.Ledger) {buffer : ℕ} {left : FixedBufferPool}
    (htaken : this.takeBack = (some buffer, left)) :
    buffer ∈ left.outstanding ∧ (left.memory buffer).cur = 0 := by
  unfold FixedBufferPool.takeBack at htaken
  split at htaken
  next hnone => cases htaken
  next back hlast =>
      cases htaken
      exact ⟨List.mem_cons_self, hledger.empty buffer (List.mem_of_getLast? hlast)⟩

theorem accounted (hledger : this.Ledger) : this.Accounted := by
  have hnodup := hledger.nodup
  rw [List.nodup_append, List.nodup_append] at hnodup
  obtain ⟨⟨hpool, hout, hapart⟩, hdeleted, hundeleted⟩ := hnodup
  constructor
  · exact hpool
  · exact fun buffer hin hlent => hapart buffer hin buffer hlent rfl
  · exact hledger.counted
  · exact hout
  · intro fresh buffer left hget
    unfold FixedBufferPool.getBuff at hget
    split_ifs at hget
    · exact (hledger.enlargePoolUnsafe fresh).takeBack_empty hget
    · exact hledger.takeBack_empty hget
  · exact fun buffer hbuffer hgone => hundeleted buffer hbuffer buffer hgone rfl
  · exact hdeleted

end FixedBufferPool.Ledger

/-! ## The bound -/

/-- The size and the increment are those of the constructor, and the live buffers are
bounded. -/
structure FixedBufferPool.Bounded (num incGran : ℕ) (this : FixedBufferPool) : Prop where
  fixSz_eq : this.fixSz = num
  incGran_eq : this.incGran = incGran
  live_le : this.pool.length + this.outstanding.length ≤ 1024 * num + incGran

namespace FixedBufferPool.Bounded

variable {num incGran : ℕ} {this : FixedBufferPool}

theorem takeBack (hbounded : this.Bounded num incGran) :
    this.takeBack.2.Bounded num incGran := by
  unfold FixedBufferPool.takeBack
  split
  · exact hbounded
  next buffer hlast =>
      refine ⟨hbounded.fixSz_eq, hbounded.incGran_eq, ?_⟩
      have hlength := congrArg List.length (List.dropLast_append_getLast? buffer hlast)
      rw [List.length_append, List.length_singleton] at hlength
      have hlive := hbounded.live_le
      simp only [List.length_cons]
      omega

/-- The pool grows only when all of its buffers are out, and not if they are too many. -/
theorem enlargePoolUnsafe (hbounded : this.Bounded num incGran) (hledger : this.Ledger)
    (hempty : this.pool = []) (fresh : ℕ) :
    (this.enlargePoolUnsafe fresh).Bounded num incGran := by
  unfold FixedBufferPool.enlargePoolUnsafe
  split_ifs with hmany
  · exact hbounded
  · refine ⟨hbounded.fixSz_eq, hbounded.incGran_eq, ?_⟩
    have hcounted := hledger.counted
    have hfix := hbounded.fixSz_eq
    have hinc := hbounded.incGran_eq
    simp only [hempty, List.nil_append, List.length_range']
    rw [hcounted, hfix] at hmany
    omega

theorem step (hbounded : this.Bounded num incGran) (hledger : this.Ledger) {action : Action}
    (hdemand : OnDemand this action) {next : FixedBufferPool}
    (hstep : this.step action = some next) : next.Bounded num incGran := by
  have hlive := hbounded.live_le
  cases action with
  | getBuff fresh =>
      cases hstep
      unfold FixedBufferPool.getBuff
      split_ifs with hempty
      · exact (hbounded.enlargePoolUnsafe hledger hempty fresh).takeBack
      · exact hbounded.takeBack
  | recycle buffer grown =>
      simp only [FixedBufferPool.step] at hstep
      split_ifs at hstep with hout
      cases hstep
      refine ⟨?_, ?_, ?_⟩
      · cases grown
        · exact hbounded.fixSz_eq
        · exact hbounded.fixSz_eq
      · cases grown
        · exact hbounded.incGran_eq
        · exact hbounded.incGran_eq
      · have hpos : 0 < this.outstanding.length := List.length_pos_of_mem hout
        cases grown with
        | false => exact hlive
        | true =>
            simp only [FixedBufferPool.recycle, if_true, List.length_append,
              List.length_singleton, List.length_erase_of_mem hout]
            omega
  | enlargePool fresh => exact absurd hdemand id
  | shrink factor =>
      simp only [FixedBufferPool.step] at hstep
      split_ifs at hstep
      cases hstep
      unfold FixedBufferPool.shrink
      simp only
      split_ifs with hlong
      · refine ⟨hbounded.fixSz_eq, hbounded.incGran_eq, ?_⟩
        simp only [List.length_take]
        omega
      · exact hbounded
  | append buffer data =>
      simp only [FixedBufferPool.step] at hstep
      split_ifs at hstep
      cases hstep
      exact ⟨hbounded.fixSz_eq, hbounded.incGran_eq, hlive⟩

end FixedBufferPool.Bounded

theorem ledger_of_reachable {garbage : ℕ → ℕ → UInt8} {num incGran : ℕ}
    {state : FixedBufferPool} (hreachable : (machine garbage num incGran).Reachable state) :
    state.Ledger :=
  Machine.ReachedBy.invariant FixedBufferPool.Ledger (.construct garbage num incGran)
    (fun _ _ _ hledger _ hstep => hledger.step hstep) hreachable

theorem bounded_of_onDemand {garbage : ℕ → ℕ → UInt8} {num incGran : ℕ}
    {state : FixedBufferPool}
    (hreached : (machine garbage num incGran).ReachedBy OnDemand state) :
    state.Ledger ∧ state.Bounded num incGran := by
  refine Machine.ReachedBy.invariant
    (fun state => state.Ledger ∧ state.Bounded num incGran) ?_ ?_ hreached
  · refine ⟨.construct garbage num incGran, rfl, rfl, ?_⟩
    simp only [machine, FixedBufferPool.construct, List.length_range, List.length_nil]
    omega
  · rintro before action after ⟨hledger, hbounded⟩ hdemand hstep
    exact ⟨hledger.step hstep, hbounded.step hledger hdemand hstep⟩

/-- In every run the accounts of the pool are right, and in those that enlarge it on demand
alone the live buffers are bounded. -/
theorem accounted_of_reachable {garbage : ℕ → ℕ → UInt8} {num incGran : ℕ}
    {state : FixedBufferPool}
    (hreachable : (machine garbage num incGran).Reachable state) :
    state.Accounted ∧
      ((machine garbage num incGran).ReachedBy OnDemand state →
        state.live ≤ 1024 * num + incGran) := by
  constructor
  · exact (ledger_of_reachable hreachable).accounted
  · intro hreached
    obtain ⟨hledger, hbounded⟩ := bounded_of_onDemand hreached
    rw [hledger.live_eq]
    exact hbounded.live_le

/-- A pool of one buffer grows by two, gets its buffers back, lends one again and shrinks to
one. -/
def growAndShrink : List Action :=
  [.getBuff 0, .append 0 [65], .getBuff 2, .recycle 0 false, .recycle 0 true, .getBuff 7,
    .append 0 [66], .recycle 2 true, .shrink 1]

theorem accounted_growAndShrink :
    ∃ state, (machine (fun _ _ => 0) 1 2).run growAndShrink = some state ∧
      (state.pool, state.outstanding, state.deleted, state.unrecyled) = ([1], [0], [2], 1) ∧
        state.Accounted ∧ state.live ≤ 1024 * 1 + 2 := by
  have hrun : ∃ state, (machine (fun _ _ => 0) 1 2).run growAndShrink = some state ∧
      (state.pool, state.outstanding, state.deleted, state.unrecyled) = ([1], [0], [2], 1) :=
    ⟨_, rfl, rfl⟩
  obtain ⟨state, hstate, hfields⟩ := hrun
  have hreached : (machine (fun _ _ => 0) 1 2).ReachedBy OnDemand state :=
    Machine.ReachedBy.runFrom .start (by decide) hstate
  obtain ⟨haccounted, hlive⟩ :=
    accounted_of_reachable (Machine.Reachable.runFrom .start hstate)
  exact ⟨state, hstate, hfields, haccounted, hlive hreached⟩

end FixedBuffers
end BackEndFacility
