import Mathlib.Data.List.Pairwise
import Mathlib.Logic.Function.Basic
import Mathlib.Tactic

/-!
# Buffers that are recycled in band

Threads write records into buffers they own and post, for every record, a
slice which refers to it.  A thread that is done with a buffer posts a slice
of length zero for it.  Whoever works through the posted slices in order
returns the buffer to a pool when that slice comes up.

A slice may be read as long as its buffer has not been returned and taken
again.  The ledger keeps that: behind the slice that retires a buffer there
is no other slice of it, so when the buffer returns to the pool nothing that
is still to be read refers to it.
-/

namespace BackEndFacility

/-- A part of a buffer; a part of length zero retires the buffer. -/
structure BufferSlice where
  len : ℕ
  buffer : ℕ
  offset : ℕ
  deriving DecidableEq, Repr

namespace BufferSlice

variable {Byte : Type*}

def read (content : ℕ → ℕ → Byte) (slice : BufferSlice) : List Byte :=
  (List.range slice.len).map fun i => content slice.buffer (slice.offset + i)

def retire (buffer : ℕ) : BufferSlice := ⟨0, buffer, 0⟩

@[simp] theorem read_retire (content : ℕ → ℕ → Byte) (buffer : ℕ) :
    (retire buffer).read content = [] := rfl

theorem read_of_len_eq_zero (content : ℕ → ℕ → Byte) {slice : BufferSlice}
    (hlen : slice.len = 0) : slice.read content = [] := by
  simp [read, hlen]

theorem read_congr {content other : ℕ → ℕ → Byte} {slice : BufferSlice}
    (hsame : ∀ i < slice.len, other slice.buffer (slice.offset + i) =
      content slice.buffer (slice.offset + i)) :
    slice.read other = slice.read content := by
  unfold read
  apply List.map_congr_left
  intro i hi
  exact hsame i (List.mem_range.mp hi)

end BufferSlice

/-- The state of all buffers: those in the pool, those owned by a thread, and
those to which a posted slice still refers.  `used` says how much of each is
filled, and all buffers below `next` have been created. -/
structure BufferLedger {Thread : Type*} (used : ℕ → ℕ) (next : ℕ)
    (pool : List ℕ) (owned : Thread → Option ℕ)
    (slices : List BufferSlice) : Prop where
  placed : ∀ slice ∈ slices, slice.len ≠ 0 →
    slice.offset + slice.len ≤ used slice.buffer
  retiredLast : slices.Pairwise fun slice later =>
    slice.len = 0 → later.buffer ≠ slice.buffer
  ownedLive : ∀ thread buffer, owned thread = some buffer →
    ∀ slice ∈ slices, slice.len = 0 → slice.buffer ≠ buffer
  poolFree : ∀ buffer ∈ pool, ∀ slice ∈ slices, slice.buffer ≠ buffer
  poolNodup : pool.Nodup
  poolEmpty : ∀ buffer ∈ pool, used buffer = 0
  ownedOut : ∀ thread buffer, owned thread = some buffer → buffer ∉ pool
  ownedUnique : ∀ first second buffer, owned first = some buffer →
    owned second = some buffer → first = second
  poolOld : ∀ buffer ∈ pool, buffer < next
  ownedOld : ∀ thread buffer, owned thread = some buffer → buffer < next
  slicesOld : ∀ slice ∈ slices, slice.buffer < next

namespace BufferLedger

variable {Thread : Type*} {used : ℕ → ℕ} {next : ℕ} {pool : List ℕ}
  {owned : Thread → Option ℕ} {slices : List BufferSlice}

theorem start (hpool : pool.Nodup) (hold : ∀ buffer ∈ pool, buffer < next)
    (hempty : ∀ buffer ∈ pool, used buffer = 0)
    (howned : ∀ thread, owned thread = none) :
    BufferLedger used next pool owned [] := by
  constructor <;> simp_all

theorem post (hledger : BufferLedger used next pool owned slices)
    {thread : Thread} {slice : BufferSlice}
    (howned : owned thread = some slice.buffer) (hlen : slice.len ≠ 0)
    (hplaced : slice.offset + slice.len ≤ used slice.buffer) :
    BufferLedger used next pool owned (slices ++ [slice]) := by
  refine { hledger with
    placed := ?_, retiredLast := ?_, ownedLive := ?_, poolFree := ?_,
    slicesOld := ?_ }
  · intro posted hmem hne
    rcases List.mem_append.mp hmem with hold | hnew
    · exact hledger.placed posted hold hne
    · rw [List.mem_singleton.mp hnew]
      exact hplaced
  · rw [List.pairwise_append]
    refine ⟨hledger.retiredLast, List.pairwise_singleton _ _, ?_⟩
    intro earlier hearlier later hlater hzero
    rw [List.mem_singleton.mp hlater]
    exact (hledger.ownedLive thread slice.buffer howned earlier hearlier
      hzero).symm
  · intro other buffer hother posted hmem hzero
    rcases List.mem_append.mp hmem with hold | hnew
    · exact hledger.ownedLive other buffer hother posted hold hzero
    · rw [List.mem_singleton.mp hnew] at hzero
      exact absurd hzero hlen
  · intro buffer hbuffer posted hmem
    rcases List.mem_append.mp hmem with hold | hnew
    · exact hledger.poolFree buffer hbuffer posted hold
    · rw [List.mem_singleton.mp hnew]
      intro heq
      exact hledger.ownedOut thread slice.buffer howned (heq ▸ hbuffer)
  · intro posted hmem
    rcases List.mem_append.mp hmem with hold | hnew
    · exact hledger.slicesOld posted hold
    · rw [List.mem_singleton.mp hnew]
      exact hledger.ownedOld thread slice.buffer howned

theorem drop {slice : BufferSlice} {rest : List BufferSlice}
    (hledger : BufferLedger used next pool owned (slice :: rest)) :
    BufferLedger used next pool owned rest := by
  refine { hledger with
    placed := ?_, retiredLast := ?_, ownedLive := ?_, poolFree := ?_,
    slicesOld := ?_ }
  · exact fun posted hmem => hledger.placed posted (by simp [hmem])
  · exact (List.pairwise_cons.mp hledger.retiredLast).2
  · exact fun other buffer hother posted hmem =>
      hledger.ownedLive other buffer hother posted (by simp [hmem])
  · exact fun buffer hbuffer posted hmem =>
      hledger.poolFree buffer hbuffer posted (by simp [hmem])
  · exact fun posted hmem => hledger.slicesOld posted (by simp [hmem])

/-- The slice that retires a buffer comes up, and the buffer is emptied and
put into the pool. -/
theorem recycle {slice : BufferSlice} {rest : List BufferSlice}
    (hledger : BufferLedger used next pool owned (slice :: rest))
    (hzero : slice.len = 0) :
    BufferLedger (Function.update used slice.buffer 0) next
      (pool ++ [slice.buffer]) owned rest := by
  have hrest := hledger.drop
  have hclear : ∀ posted ∈ rest, posted.buffer ≠ slice.buffer := by
    intro posted hmem
    exact (List.pairwise_cons.mp hledger.retiredLast).1 posted hmem hzero
  have hfresh : slice.buffer ∉ pool := by
    intro hmem
    exact hledger.poolFree slice.buffer hmem slice (by simp) rfl
  refine { hrest with
    placed := ?_, poolFree := ?_, poolNodup := ?_, poolEmpty := ?_,
    ownedOut := ?_, poolOld := ?_ }
  · intro posted hmem hlen
    rw [Function.update_of_ne (hclear posted hmem)]
    exact hrest.placed posted hmem hlen
  · intro buffer hbuffer posted hmem
    rcases List.mem_append.mp hbuffer with hold | hnew
    · exact hrest.poolFree buffer hold posted hmem
    · rw [List.mem_singleton.mp hnew]
      exact hclear posted hmem
  · rw [List.nodup_append]
    refine ⟨hrest.poolNodup, by simp, ?_⟩
    intro buffer hbuffer other hother heq
    rw [List.mem_singleton.mp hother] at heq
    exact hfresh (heq ▸ hbuffer)
  · intro buffer hbuffer
    by_cases heq : buffer = slice.buffer
    · rw [heq, Function.update_self]
    · rw [Function.update_of_ne heq]
      rcases List.mem_append.mp hbuffer with hold | hnew
      · exact hrest.poolEmpty buffer hold
      · exact absurd (List.mem_singleton.mp hnew) heq
  · intro thread buffer howned hbuffer
    rcases List.mem_append.mp hbuffer with hold | hnew
    · exact hrest.ownedOut thread buffer howned hold
    · exact hledger.ownedLive thread buffer howned slice (by simp) hzero
        (List.mem_singleton.mp hnew).symm
  · intro buffer hbuffer
    rcases List.mem_append.mp hbuffer with hold | hnew
    · exact hrest.poolOld buffer hold
    · rw [List.mem_singleton.mp hnew]
      exact hledger.slicesOld slice (by simp)

theorem shrink (hledger : BufferLedger used next pool owned slices)
    {kept : List ℕ} (hkept : kept.Sublist pool) :
    BufferLedger used next kept owned slices := by
  refine { hledger with
    poolFree := ?_, poolNodup := ?_, poolEmpty := ?_, ownedOut := ?_,
    poolOld := ?_ }
  · exact fun buffer hmem => hledger.poolFree buffer (hkept.subset hmem)
  · exact hledger.poolNodup.sublist hkept
  · exact fun buffer hmem => hledger.poolEmpty buffer (hkept.subset hmem)
  · exact fun thread buffer howned hmem =>
      hledger.ownedOut thread buffer howned (hkept.subset hmem)
  · exact fun buffer hmem => hledger.poolOld buffer (hkept.subset hmem)

theorem grow (hledger : BufferLedger used next [] owned slices) (count : ℕ) :
    BufferLedger
      (fun buffer =>
        if next ≤ buffer ∧ buffer < next + count then 0 else used buffer)
      (next + count) (List.range' next count) owned slices := by
  have hold : ∀ buffer, buffer < next →
      ¬ (next ≤ buffer ∧ buffer < next + count) := by
    intro buffer hlt
    omega
  have hnew : ∀ buffer ∈ List.range' next count,
      next ≤ buffer ∧ buffer < next + count := by
    intro buffer hmem
    simpa [List.mem_range'_1] using hmem
  refine { hledger with
    placed := ?_, poolFree := ?_, poolNodup := ?_, poolEmpty := ?_,
    ownedOut := ?_, poolOld := ?_, ownedOld := ?_, slicesOld := ?_ }
  · intro slice hmem hlen
    rw [if_neg (hold slice.buffer (hledger.slicesOld slice hmem))]
    exact hledger.placed slice hmem hlen
  · intro buffer hbuffer slice hmem heq
    have hlt := hledger.slicesOld slice hmem
    have hge := (hnew buffer hbuffer).1
    omega
  · exact List.nodup_range'
  · intro buffer hbuffer
    rw [if_pos (hnew buffer hbuffer)]
  · intro thread buffer howned hbuffer
    have hlt := hledger.ownedOld thread buffer howned
    have hge := (hnew buffer hbuffer).1
    omega
  · exact fun buffer hbuffer => (hnew buffer hbuffer).2
  · intro thread buffer howned
    have hlt := hledger.ownedOld thread buffer howned
    omega
  · intro slice hmem
    have hlt := hledger.slicesOld slice hmem
    omega

theorem write (hledger : BufferLedger used next pool owned slices)
    {thread : Thread} {buffer : ℕ} (howned : owned thread = some buffer)
    (count : ℕ) :
    BufferLedger (Function.update used buffer (used buffer + count)) next
      pool owned slices := by
  refine { hledger with placed := ?_, poolEmpty := ?_ }
  · intro slice hmem hlen
    have hplaced := hledger.placed slice hmem hlen
    by_cases heq : slice.buffer = buffer
    · rw [heq, Function.update_self]
      rw [heq] at hplaced
      omega
    · rw [Function.update_of_ne heq]
      exact hplaced
  · intro pooled hpooled
    have hne : pooled ≠ buffer := by
      intro heq
      exact hledger.ownedOut thread buffer howned (heq ▸ hpooled)
    rw [Function.update_of_ne hne]
    exact hledger.poolEmpty pooled hpooled

section Steps

variable [DecidableEq Thread]

theorem keep (hledger : BufferLedger used next pool owned slices)
    (thread : Thread) {same : Option ℕ} (hsame : same = owned thread) :
    BufferLedger used next pool (Function.update owned thread same)
      slices := by
  rw [hsame, Function.update_eq_self]
  exact hledger

theorem forget (hledger : BufferLedger used next pool owned slices)
    (thread : Thread) :
    BufferLedger used next pool (Function.update owned thread none)
      slices := by
  have hold : ∀ other buffer,
      Function.update owned thread none other = some buffer →
        owned other = some buffer := by
    intro other buffer hother
    by_cases heq : other = thread
    · subst heq
      simp at hother
    · rwa [Function.update_of_ne heq] at hother
  refine { hledger with
    ownedLive := ?_, ownedOut := ?_, ownedUnique := ?_, ownedOld := ?_ }
  · exact fun other buffer hother =>
      hledger.ownedLive other buffer (hold other buffer hother)
  · exact fun other buffer hother =>
      hledger.ownedOut other buffer (hold other buffer hother)
  · exact fun first second buffer hfirst hsecond =>
      hledger.ownedUnique first second buffer (hold first buffer hfirst)
        (hold second buffer hsecond)
  · exact fun other buffer hother =>
      hledger.ownedOld other buffer (hold other buffer hother)

/-- A thread posts the slice that retires its buffer. -/
theorem retire (hledger : BufferLedger used next pool owned slices)
    {thread : Thread} {buffer : ℕ} (howned : owned thread = some buffer) :
    BufferLedger used next pool (Function.update owned thread none)
      (slices ++ [.retire buffer]) := by
  have hfree := hledger.forget thread
  have hothers : ∀ other, Function.update owned thread none other ≠
      some buffer := by
    intro other hother
    by_cases heq : other = thread
    · subst heq
      simp at hother
    · rw [Function.update_of_ne heq] at hother
      exact heq (hledger.ownedUnique other thread buffer hother howned)
  refine { hfree with
    placed := ?_, retiredLast := ?_, ownedLive := ?_, poolFree := ?_,
    slicesOld := ?_ }
  · intro posted hmem hne
    rcases List.mem_append.mp hmem with hold | hnew
    · exact hledger.placed posted hold hne
    · rw [List.mem_singleton.mp hnew] at hne
      exact absurd rfl hne
  · rw [List.pairwise_append]
    refine ⟨hledger.retiredLast, List.pairwise_singleton _ _, ?_⟩
    intro earlier hearlier later hlater hzero
    rw [List.mem_singleton.mp hlater]
    exact (hledger.ownedLive thread buffer howned earlier hearlier hzero).symm
  · intro other held hother posted hmem hzero
    rcases List.mem_append.mp hmem with hold | hnew
    · exact hfree.ownedLive other held hother posted hold hzero
    · rw [List.mem_singleton.mp hnew]
      intro heq
      have hsame : buffer = held := heq
      exact hothers other (hsame ▸ hother)
  · intro pooled hpooled posted hmem
    rcases List.mem_append.mp hmem with hold | hnew
    · exact hledger.poolFree pooled hpooled posted hold
    · rw [List.mem_singleton.mp hnew]
      intro heq
      have hsame : buffer = pooled := heq
      exact hledger.ownedOut thread buffer howned (hsame ▸ hpooled)
  · intro posted hmem
    rcases List.mem_append.mp hmem with hold | hnew
    · exact hledger.slicesOld posted hold
    · rw [List.mem_singleton.mp hnew]
      exact hledger.ownedOld thread buffer howned

theorem take {rest : List ℕ} {buffer : ℕ}
    (hledger : BufferLedger used next (rest ++ [buffer]) owned slices)
    (thread : Thread) :
    BufferLedger used next rest (Function.update owned thread (some buffer))
      slices := by
  have hmember : buffer ∈ rest ++ [buffer] := by simp
  have hshort := hledger.shrink (List.sublist_append_left rest [buffer])
  have hnotRest : buffer ∉ rest := by
    intro hmem
    have hnodup := hledger.poolNodup
    rw [List.nodup_append] at hnodup
    exact hnodup.2.2 buffer hmem buffer (by simp) rfl
  have hcases : ∀ other held,
      Function.update owned thread (some buffer) other = some held →
        (other = thread ∧ held = buffer) ∨
          (other ≠ thread ∧ owned other = some held) := by
    intro other held hother
    by_cases heq : other = thread
    · subst heq
      exact .inl ⟨rfl, by simpa using hother.symm⟩
    · rw [Function.update_of_ne heq] at hother
      exact .inr ⟨heq, hother⟩
  refine { hshort with
    ownedLive := ?_, ownedOut := ?_, ownedUnique := ?_, ownedOld := ?_ }
  · intro other held hother slice hmem _
    rcases hcases other held hother with ⟨-, rfl⟩ | ⟨-, hold⟩
    · exact hledger.poolFree held hmember slice hmem
    · exact hledger.ownedLive other held hold slice hmem ‹_›
  · intro other held hother
    rcases hcases other held hother with ⟨-, rfl⟩ | ⟨-, hold⟩
    · exact hnotRest
    · exact hshort.ownedOut other held hold
  · intro first second held hfirst hsecond
    rcases hcases first held hfirst with ⟨rfl, rfl⟩ | ⟨-, hfirstOld⟩
    · rcases hcases second held hsecond with ⟨rfl, -⟩ | ⟨-, hold⟩
      · rfl
      · exact absurd hmember (hledger.ownedOut second held hold)
    · rcases hcases second held hsecond with ⟨-, rfl⟩ | ⟨-, hold⟩
      · exact absurd hmember (hledger.ownedOut first held hfirstOld)
      · exact hledger.ownedUnique first second held hfirstOld hold
  · intro other held hother
    rcases hcases other held hother with ⟨-, rfl⟩ | ⟨-, hold⟩
    · exact hledger.poolOld held hmember
    · exact hledger.ownedOld other held hold

end Steps

end BufferLedger

end BackEndFacility
