import BackEndFacility.RecycledBuffers

/-!
# Buffers that several queues refer to

As in the ledger of recycled buffers, threads post slices of the buffers they
own and retire a buffer by a slice of length zero.  Here there are several
queues of slices, each worked through by a reader of its own, and several pools.

Every buffer is in one place.  As long as it is owned any queue may hold slices
of it; once it is retired only the queue that holds the retiring slice may, so
when that slice comes up nothing refers to the buffer any more.
-/

namespace BackEndFacility

/-- Where a buffer is.  A buffer that was given up outside the queues is
`lost`, and one that was never created is `unborn`. -/
inductive BufferPlace (Thread Queue : Type*) where
  | unborn
  | pooled (pool : Queue)
  | owned (thread : Thread)
  | retired (queue : Queue)
  | lost

/-- The places in which a queue may hold slices of a buffer. -/
def BufferPlace.Readable {Thread Queue : Type*} (queue : Queue) :
    BufferPlace Thread Queue → Prop
  | .owned _ => True
  | .lost => True
  | .retired other => other = queue
  | _ => False

structure SharedLedger {Thread Queue : Type*} (place : ℕ → BufferPlace Thread Queue)
    (used : ℕ → ℕ) (next : ℕ) (pools : Queue → List ℕ) (owned : Thread → Option ℕ)
    (slices : Queue → List BufferSlice) : Prop where
  pooled : ∀ pool buffer, buffer ∈ pools pool ↔ place buffer = .pooled pool
  poolNodup : ∀ pool, (pools pool).Nodup
  poolEmpty : ∀ pool buffer, place buffer = .pooled pool → used buffer = 0
  ownedBy : ∀ thread buffer, owned thread = some buffer ↔ place buffer = .owned thread
  retiredIn : ∀ queue, ∀ slice ∈ slices queue, slice.len = 0 →
    place slice.buffer = .retired queue
  readable : ∀ queue, ∀ slice ∈ slices queue, (place slice.buffer).Readable queue
  retiredLast : ∀ queue, (slices queue).Pairwise fun slice later =>
    slice.len = 0 → later.buffer ≠ slice.buffer
  placed : ∀ queue, ∀ slice ∈ slices queue, slice.len ≠ 0 →
    slice.offset + slice.len ≤ used slice.buffer
  unborn : ∀ buffer, next ≤ buffer → place buffer = .unborn

namespace SharedLedger

variable {Thread Queue : Type*} {place : ℕ → BufferPlace Thread Queue} {used : ℕ → ℕ}
  {next : ℕ} {pools : Queue → List ℕ} {owned : Thread → Option ℕ}
  {slices : Queue → List BufferSlice}

theorem born (hledger : SharedLedger place used next pools owned slices) {buffer : ℕ}
    (hplace : place buffer ≠ .unborn) : buffer < next := by
  by_contra hnot
  exact hplace (hledger.unborn buffer (by omega))

theorem slice_born (hledger : SharedLedger place used next pools owned slices)
    {queue : Queue} {slice : BufferSlice} (hslice : slice ∈ slices queue) :
    slice.buffer < next := by
  refine hledger.born fun hunborn => ?_
  have hreadable := hledger.readable queue slice hslice
  rw [hunborn] at hreadable
  exact hreadable

theorem owned_born (hledger : SharedLedger place used next pools owned slices)
    {thread : Thread} {buffer : ℕ} (howned : owned thread = some buffer) :
    buffer < next := by
  refine hledger.born ?_
  rw [(hledger.ownedBy thread buffer).mp howned]
  exact nofun

theorem owned_unique (hledger : SharedLedger place used next pools owned slices)
    {first second : Thread} {buffer : ℕ} (hfirst : owned first = some buffer)
    (hsecond : owned second = some buffer) : first = second := by
  have hplace := (hledger.ownedBy first buffer).mp hfirst
  rw [(hledger.ownedBy second buffer).mp hsecond] at hplace
  cases hplace
  rfl

theorem start (hpools : ∀ pool, pools pool = []) (howned : ∀ thread, owned thread = none)
    (hslices : ∀ queue, slices queue = []) :
    SharedLedger (fun _ => .unborn) used next pools owned slices := by
  constructor <;> simp_all

section Queues

variable [DecidableEq Queue]

theorem post (hledger : SharedLedger place used next pools owned slices)
    {thread : Thread} {queue : Queue} {slice : BufferSlice}
    (howned : owned thread = some slice.buffer) (hlen : slice.len ≠ 0)
    (hplaced : slice.offset + slice.len ≤ used slice.buffer) :
    SharedLedger place used next pools owned
      (Function.update slices queue (slices queue ++ [slice])) := by
  have hplace := (hledger.ownedBy thread slice.buffer).mp howned
  have hmem : ∀ other, ∀ posted ∈
      Function.update slices queue (slices queue ++ [slice]) other,
        posted ∈ slices other ∨ posted = slice := by
    intro other posted hposted
    by_cases heq : other = queue
    · subst heq
      rw [Function.update_self, List.mem_append, List.mem_singleton] at hposted
      exact hposted
    · rw [Function.update_of_ne heq] at hposted
      exact .inl hposted
  refine { hledger with
    retiredIn := ?_, readable := ?_, retiredLast := ?_, placed := ?_ }
  · intro other posted hposted hzero
    rcases hmem other posted hposted with hold | rfl
    · exact hledger.retiredIn other posted hold hzero
    · exact absurd hzero hlen
  · intro other posted hposted
    rcases hmem other posted hposted with hold | rfl
    · exact hledger.readable other posted hold
    · rw [hplace]
      trivial
  · intro other
    by_cases heq : other = queue
    · subst heq
      rw [Function.update_self, List.pairwise_append]
      refine ⟨hledger.retiredLast other, List.pairwise_singleton _ _, ?_⟩
      intro earlier hearlier later hlater hzero hsame
      rw [List.mem_singleton.mp hlater] at hsame
      have hretired := hledger.retiredIn other earlier hearlier hzero
      rw [← hsame, hplace] at hretired
      cases hretired
    · rw [Function.update_of_ne heq]
      exact hledger.retiredLast other
  · intro other posted hposted hne
    rcases hmem other posted hposted with hold | rfl
    · exact hledger.placed other posted hold hne
    · exact hplaced

theorem drop (hledger : SharedLedger place used next pools owned slices) {queue : Queue}
    {slice : BufferSlice} {rest : List BufferSlice}
    (hqueue : slices queue = slice :: rest) :
    SharedLedger place used next pools owned (Function.update slices queue rest) := by
  have hmem : ∀ other, ∀ posted ∈ Function.update slices queue rest other,
      posted ∈ slices other := by
    intro other posted hposted
    by_cases heq : other = queue
    · subst heq
      rw [Function.update_self] at hposted
      rw [hqueue]
      exact List.mem_cons_of_mem slice hposted
    · rwa [Function.update_of_ne heq] at hposted
  refine { hledger with
    retiredIn := ?_, readable := ?_, retiredLast := ?_, placed := ?_ }
  · exact fun other posted hposted => hledger.retiredIn other posted (hmem other posted hposted)
  · exact fun other posted hposted => hledger.readable other posted (hmem other posted hposted)
  · intro other
    by_cases heq : other = queue
    · subst heq
      have hlast := hledger.retiredLast other
      rw [hqueue, List.pairwise_cons] at hlast
      rw [Function.update_self]
      exact hlast.2
    · rw [Function.update_of_ne heq]
      exact hledger.retiredLast other
  · exact fun other posted hposted => hledger.placed other posted (hmem other posted hposted)

end Queues

/-! ## A buffer changes its place -/

/-- One buffer changes its place; pools, owners and queues may change at that
buffer only. -/
theorem relocate (hledger : SharedLedger place used next pools owned slices) {moved : ℕ}
    {target : BufferPlace Thread Queue} {pools' : Queue → List ℕ}
    {owned' : Thread → Option ℕ} {used' : ℕ → ℕ} {slices' : Queue → List BufferSlice}
    (hborn : place moved ≠ .unborn)
    (hpools : ∀ pool buffer, buffer ∈ pools' pool ↔
      if buffer = moved then target = .pooled pool else buffer ∈ pools pool)
    (hnodup : ∀ pool, (pools' pool).Nodup)
    (howned : ∀ thread buffer, owned' thread = some buffer ↔
      if buffer = moved then target = .owned thread else owned thread = some buffer)
    (hused : ∀ buffer, buffer ≠ moved → used' buffer = used buffer)
    (hempty : ∀ pool, target = .pooled pool → used' moved = 0)
    (hretired : ∀ queue, ∀ slice ∈ slices' queue, slice.buffer = moved → slice.len = 0 →
      target = .retired queue)
    (hreadable : ∀ queue, ∀ slice ∈ slices' queue, slice.buffer = moved →
      target.Readable queue ∧ (slice.len ≠ 0 → slice.offset + slice.len ≤ used' moved))
    (hothers : ∀ queue, ∀ slice ∈ slices' queue, slice.buffer ≠ moved →
      slice ∈ slices queue)
    (hlast : ∀ queue, (slices' queue).Pairwise fun slice later =>
      slice.len = 0 → later.buffer ≠ slice.buffer) :
    SharedLedger (Function.update place moved target) used' next pools' owned' slices' := by
  refine ⟨fun pool buffer => ?_, hnodup, fun pool buffer => ?_, fun thread buffer => ?_,
    fun queue slice hslice hzero => ?_, fun queue slice hslice => ?_, hlast,
    fun queue slice hslice hlen => ?_, fun buffer hbuffer => ?_⟩
  · rw [hpools pool buffer]
    by_cases heq : buffer = moved
    · rw [if_pos heq, heq, Function.update_self]
    · rw [if_neg heq, Function.update_of_ne heq]
      exact hledger.pooled pool buffer
  · by_cases heq : buffer = moved
    · rw [heq, Function.update_self]
      exact hempty pool
    · rw [Function.update_of_ne heq, hused buffer heq]
      exact hledger.poolEmpty pool buffer
  · rw [howned thread buffer]
    by_cases heq : buffer = moved
    · rw [if_pos heq, heq, Function.update_self]
    · rw [if_neg heq, Function.update_of_ne heq]
      exact hledger.ownedBy thread buffer
  · by_cases heq : slice.buffer = moved
    · rw [heq, Function.update_self]
      exact hretired queue slice hslice heq hzero
    · rw [Function.update_of_ne heq]
      exact hledger.retiredIn queue slice (hothers queue slice hslice heq) hzero
  · by_cases heq : slice.buffer = moved
    · rw [heq, Function.update_self]
      exact (hreadable queue slice hslice heq).1
    · rw [Function.update_of_ne heq]
      exact hledger.readable queue slice (hothers queue slice hslice heq)
  · by_cases heq : slice.buffer = moved
    · rw [heq]
      exact (hreadable queue slice hslice heq).2 hlen
    · rw [hused slice.buffer heq]
      exact hledger.placed queue slice (hothers queue slice hslice heq) hlen
  · have hne : buffer ≠ moved := by
      intro heq
      rw [heq] at hbuffer
      exact hborn (hledger.unborn moved hbuffer)
    rw [Function.update_of_ne hne]
    exact hledger.unborn buffer hbuffer

theorem pooled_of_owned (hledger : SharedLedger place used next pools owned slices)
    {thread : Thread} {buffer : ℕ} {target : BufferPlace Thread Queue}
    (howned : owned thread = some buffer) (htarget : ∀ pool, target ≠ .pooled pool)
    (pool : Queue) (other : ℕ) :
    other ∈ pools pool ↔
      if other = buffer then target = .pooled pool else other ∈ pools pool := by
  by_cases heq : other = buffer
  · rw [if_pos heq, heq, hledger.pooled pool buffer,
      (hledger.ownedBy thread buffer).mp howned]
    exact ⟨nofun, fun hpooled => absurd hpooled (htarget pool)⟩
  · rw [if_neg heq]

theorem owned_disown [DecidableEq Thread]
    (hledger : SharedLedger place used next pools owned slices)
    {thread : Thread} {buffer : ℕ} {target : BufferPlace Thread Queue}
    (howned : owned thread = some buffer) (htarget : ∀ other, target ≠ .owned other)
    (other : Thread) (held : ℕ) :
    Function.update owned thread none other = some held ↔
      if held = buffer then target = .owned other else owned other = some held := by
  by_cases hheld : held = buffer
  · rw [if_pos hheld, hheld]
    refine ⟨fun hother => ?_, fun htaken => absurd htaken (htarget other)⟩
    by_cases heq : other = thread
    · rw [heq, Function.update_self] at hother
      cases hother
    · rw [Function.update_of_ne heq] at hother
      exact absurd (hledger.owned_unique hother howned) heq
  · rw [if_neg hheld]
    by_cases heq : other = thread
    · rw [heq, Function.update_self, howned]
      refine ⟨nofun, fun hsame => ?_⟩
      exact absurd (Option.some.inj hsame).symm hheld
    · rw [Function.update_of_ne heq]

/-- A thread posts the slice that retires its buffer, of which no other queue
holds a slice. -/
theorem retire [DecidableEq Thread] [DecidableEq Queue]
    (hledger : SharedLedger place used next pools owned slices) {thread : Thread}
    {buffer : ℕ} {queue : Queue} (howned : owned thread = some buffer)
    (halone : ∀ other, other ≠ queue → ∀ slice ∈ slices other, slice.buffer ≠ buffer) :
    SharedLedger (Function.update place buffer (.retired queue)) used next pools
      (Function.update owned thread none)
      (Function.update slices queue (slices queue ++ [.retire buffer])) := by
  have hplace := (hledger.ownedBy thread buffer).mp howned
  have hmem : ∀ other, ∀ slice ∈
      Function.update slices queue (slices queue ++ [.retire buffer]) other,
        slice ∈ slices other ∨ (other = queue ∧ slice = .retire buffer) := by
    intro other slice hslice
    by_cases heq : other = queue
    · subst heq
      rw [Function.update_self, List.mem_append, List.mem_singleton] at hslice
      exact hslice.imp_right fun hnew => ⟨rfl, hnew⟩
    · rw [Function.update_of_ne heq] at hslice
      exact .inl hslice
  have hlive : ∀ other, ∀ slice ∈ slices other, slice.buffer = buffer → slice.len ≠ 0 := by
    intro other slice hslice hsame hzero
    have hretired := hledger.retiredIn other slice hslice hzero
    rw [hsame, hplace] at hretired
    cases hretired
  have hqueue : ∀ other, ∀ slice ∈
      Function.update slices queue (slices queue ++ [.retire buffer]) other,
        slice.buffer = buffer → other = queue := by
    intro other slice hslice hsame
    rcases hmem other slice hslice with hold | ⟨hnew, -⟩
    · by_contra hother
      exact halone other hother slice hold hsame
    · exact hnew
  refine hledger.relocate (by rw [hplace]; exact nofun)
    (hledger.pooled_of_owned howned nofun) hledger.poolNodup
    (hledger.owned_disown howned nofun) (fun _ _ => rfl) nofun
    (fun other slice hslice hsame _ => ?_) (fun other slice hslice hsame => ⟨?_, fun hlen => ?_⟩)
    (fun other slice hslice hsame => ?_) (fun other => ?_)
  · rw [hqueue other slice hslice hsame]
  · exact (hqueue other slice hslice hsame).symm
  · rcases hmem other slice hslice with hold | ⟨-, hnew⟩
    · rw [← hsame]
      exact hledger.placed other slice hold hlen
    · rw [hnew] at hlen
      exact absurd rfl hlen
  · rcases hmem other slice hslice with hold | ⟨-, hnew⟩
    · exact hold
    · rw [hnew] at hsame
      exact absurd rfl hsame
  · by_cases heq : other = queue
    · subst heq
      rw [Function.update_self, List.pairwise_append]
      refine ⟨hledger.retiredLast other, List.pairwise_singleton _ _, ?_⟩
      intro earlier hearlier later hlater hzero hsame
      rw [List.mem_singleton.mp hlater] at hsame
      exact hlive other earlier hearlier hsame.symm hzero
    · rw [Function.update_of_ne heq]
      exact hledger.retiredLast other

/-- The slice that retires a buffer comes up, and the buffer is emptied and put
into the pool of that queue. -/
theorem recycle [DecidableEq Queue]
    (hledger : SharedLedger place used next pools owned slices) {queue : Queue}
    {slice : BufferSlice} {rest : List BufferSlice} (hqueue : slices queue = slice :: rest)
    (hzero : slice.len = 0) :
    SharedLedger (Function.update place slice.buffer (.pooled queue))
      (Function.update used slice.buffer 0) next
      (Function.update pools queue (pools queue ++ [slice.buffer])) owned
      (Function.update slices queue rest) := by
  have hplace : place slice.buffer = .retired queue :=
    hledger.retiredIn queue slice (by rw [hqueue]; exact List.mem_cons_self) hzero
  have hdrop := hledger.drop hqueue
  have hclear : ∀ other, ∀ posted ∈ Function.update slices queue rest other,
      posted.buffer ≠ slice.buffer := by
    intro other posted hposted hsame
    by_cases heq : other = queue
    · have hlast := hledger.retiredLast queue
      rw [hqueue, List.pairwise_cons] at hlast
      rw [heq, Function.update_self] at hposted
      exact hlast.1 posted hposted hzero hsame
    · have hreadable := hdrop.readable other posted hposted
      rw [hsame, hplace] at hreadable
      exact heq hreadable.symm
  have hfresh : ∀ pool, slice.buffer ∉ pools pool := by
    intro pool hmem
    have hpooled := (hledger.pooled pool slice.buffer).mp hmem
    rw [hplace] at hpooled
    cases hpooled
  refine hdrop.relocate (by rw [hplace]; exact nofun) (fun pool buffer => ?_) (fun pool => ?_)
    (fun thread buffer => ?_) (fun buffer hne => Function.update_of_ne hne _ _)
    (fun _ _ => Function.update_self _ _ _)
    (fun other posted hposted hsame => absurd hsame (hclear other posted hposted))
    (fun other posted hposted hsame => absurd hsame (hclear other posted hposted))
    (fun _ _ hposted _ => hposted) hdrop.retiredLast
  · by_cases heq : pool = queue
    · subst heq
      rw [Function.update_self, List.mem_append, List.mem_singleton]
      by_cases hbuffer : buffer = slice.buffer
      · simp [hbuffer]
      · simp [hbuffer]
    · rw [Function.update_of_ne heq]
      by_cases hbuffer : buffer = slice.buffer
      · rw [if_pos hbuffer, hbuffer]
        refine ⟨fun hmem => absurd hmem (hfresh pool), fun hsame => ?_⟩
        cases hsame
        exact absurd rfl heq
      · rw [if_neg hbuffer]
  · by_cases heq : pool = queue
    · subst heq
      rw [Function.update_self, List.nodup_append]
      refine ⟨hledger.poolNodup pool, by simp, ?_⟩
      intro buffer hbuffer other hother hsame
      rw [List.mem_singleton.mp hother] at hsame
      exact hfresh pool (hsame ▸ hbuffer)
    · rw [Function.update_of_ne heq]
      exact hledger.poolNodup pool
  · by_cases hbuffer : buffer = slice.buffer
    · rw [if_pos hbuffer, hbuffer, hledger.ownedBy, hplace]
      exact ⟨nofun, nofun⟩
    · rw [if_neg hbuffer]

theorem take [DecidableEq Thread] [DecidableEq Queue]
    (hledger : SharedLedger place used next pools owned slices) {thread : Thread}
    {pool : Queue} {rest : List ℕ} {buffer : ℕ} (hpool : pools pool = rest ++ [buffer])
    (hnone : owned thread = none) :
    SharedLedger (Function.update place buffer (.owned thread)) used next
      (Function.update pools pool rest) (Function.update owned thread (some buffer))
      slices := by
  have hplace : place buffer = .pooled pool :=
    (hledger.pooled pool buffer).mp (by rw [hpool]; simp)
  have hnodup := hledger.poolNodup pool
  rw [hpool, List.nodup_append] at hnodup
  have hnotRest : buffer ∉ rest := fun hmem => hnodup.2.2 buffer hmem buffer (by simp) rfl
  have hclear : ∀ queue, ∀ slice ∈ slices queue, slice.buffer ≠ buffer := by
    intro queue slice hslice hsame
    have hreadable := hledger.readable queue slice hslice
    rw [hsame, hplace] at hreadable
    exact hreadable
  refine hledger.relocate (by rw [hplace]; exact nofun) (fun other found => ?_) (fun other => ?_)
    (fun other found => ?_) (fun _ _ => rfl) nofun
    (fun queue slice hslice hsame => absurd hsame (hclear queue slice hslice))
    (fun queue slice hslice hsame => absurd hsame (hclear queue slice hslice))
    (fun _ _ hslice _ => hslice) hledger.retiredLast
  · by_cases heq : other = pool
    · subst heq
      rw [Function.update_self]
      by_cases hfound : found = buffer
      · rw [if_pos hfound, hfound]
        exact ⟨fun hmem => absurd hmem hnotRest, nofun⟩
      · rw [if_neg hfound, hpool]
        simp [hfound]
    · rw [Function.update_of_ne heq]
      by_cases hfound : found = buffer
      · rw [if_pos hfound, hfound, hledger.pooled other buffer, hplace]
        refine ⟨fun hsame => ?_, nofun⟩
        cases hsame
        exact absurd rfl heq
      · rw [if_neg hfound]
  · by_cases heq : other = pool
    · rw [heq, Function.update_self]
      exact hnodup.1
    · rw [Function.update_of_ne heq]
      exact hledger.poolNodup other
  · by_cases heq : other = thread
    · subst heq
      rw [Function.update_self]
      by_cases hfound : found = buffer
      · simp [hfound]
      · simp [hfound, Ne.symm hfound, hnone]
    · rw [Function.update_of_ne heq]
      by_cases hfound : found = buffer
      · rw [if_pos hfound, hfound, hledger.ownedBy, hplace]
        refine ⟨nofun, fun hsame => ?_⟩
        cases hsame
        exact absurd rfl heq
      · rw [if_neg hfound]

theorem forget [DecidableEq Thread]
    (hledger : SharedLedger place used next pools owned slices) (thread : Thread) :
    ∃ place', SharedLedger place' used next pools (Function.update owned thread none)
      slices := by
  cases howned : owned thread with
  | none =>
      refine ⟨place, ?_⟩
      rw [← howned, Function.update_eq_self]
      exact hledger
  | some buffer =>
      have hplace := (hledger.ownedBy thread buffer).mp howned
      refine ⟨Function.update place buffer .lost, ?_⟩
      refine hledger.relocate (by rw [hplace]; exact nofun)
        (hledger.pooled_of_owned howned nofun) hledger.poolNodup
        (hledger.owned_disown howned nofun) (fun _ _ => rfl) nofun
        (fun queue slice hslice hsame hzero => ?_)
        (fun queue slice hslice hsame => ⟨trivial, fun hlen => ?_⟩)
        (fun _ _ hslice _ => hslice) hledger.retiredLast
      · have hretired := hledger.retiredIn queue slice hslice hzero
        rw [hsame, hplace] at hretired
        cases hretired
      · rw [← hsame]
        exact hledger.placed queue slice hslice hlen

/-! ## Filling, freeing and creating buffers -/

theorem write (hledger : SharedLedger place used next pools owned slices)
    {thread : Thread} {buffer : ℕ} (howned : owned thread = some buffer) (count : ℕ) :
    SharedLedger place (Function.update used buffer (used buffer + count)) next pools owned
      slices := by
  refine { hledger with poolEmpty := ?_, placed := ?_ }
  · intro pool pooled hpooled
    have hne : pooled ≠ buffer := by
      intro heq
      rw [heq, (hledger.ownedBy thread buffer).mp howned] at hpooled
      cases hpooled
    rw [Function.update_of_ne hne]
    exact hledger.poolEmpty pool pooled hpooled
  · intro queue slice hslice hlen
    have hplaced := hledger.placed queue slice hslice hlen
    by_cases heq : slice.buffer = buffer
    · rw [heq] at hplaced ⊢
      rw [Function.update_self]
      omega
    · rw [Function.update_of_ne heq]
      exact hplaced

theorem shrink [DecidableEq Queue]
    (hledger : SharedLedger place used next pools owned slices) {pool : Queue}
    {kept : List ℕ} (hkept : kept.Sublist (pools pool)) :
    ∃ place', SharedLedger place' used next (Function.update pools pool kept) owned
      slices := by
  classical
  have hfreed : ∀ buffer, buffer ∈ pools pool → buffer ∉ kept →
      place buffer = .pooled pool :=
    fun buffer hmem _ => (hledger.pooled pool buffer).mp hmem
  refine ⟨fun buffer => if buffer ∈ pools pool ∧ buffer ∉ kept then .lost else place buffer,
    fun other buffer => ?_, fun other => ?_, fun other buffer hplace => ?_,
    fun thread buffer => ?_, fun queue slice hslice hzero => ?_, fun queue slice hslice => ?_,
    hledger.retiredLast, hledger.placed, fun buffer hbuffer => ?_⟩
  · by_cases hgone : buffer ∈ pools pool ∧ buffer ∉ kept
    · rw [if_pos hgone]
      refine ⟨fun hmem => ?_, nofun⟩
      by_cases heq : other = pool
      · rw [heq, Function.update_self] at hmem
        exact absurd hmem hgone.2
      · rw [Function.update_of_ne heq, hledger.pooled other buffer,
          hfreed buffer hgone.1 hgone.2] at hmem
        cases hmem
        exact absurd rfl heq
    · rw [if_neg hgone]
      by_cases heq : other = pool
      · rw [heq, Function.update_self, ← hledger.pooled pool buffer]
        refine ⟨fun hmem => hkept.subset hmem, fun hmem => ?_⟩
        by_contra hnot
        exact hgone ⟨hmem, hnot⟩
      · rw [Function.update_of_ne heq]
        exact hledger.pooled other buffer
  · by_cases heq : other = pool
    · rw [heq, Function.update_self]
      exact (hledger.poolNodup pool).sublist hkept
    · rw [Function.update_of_ne heq]
      exact hledger.poolNodup other
  · split_ifs at hplace
    exact hledger.poolEmpty other buffer hplace
  · rw [hledger.ownedBy thread buffer]
    by_cases hgone : buffer ∈ pools pool ∧ buffer ∉ kept
    · rw [if_pos hgone, hfreed buffer hgone.1 hgone.2]
      exact ⟨nofun, nofun⟩
    · rw [if_neg hgone]
  · have hretired := hledger.retiredIn queue slice hslice hzero
    rw [if_neg, hretired]
    intro hgone
    rw [hfreed _ hgone.1 hgone.2] at hretired
    cases hretired
  · split_ifs
    · trivial
    · exact hledger.readable queue slice hslice
  · rw [if_neg]
    · exact hledger.unborn buffer hbuffer
    · intro hgone
      have hplace := hfreed buffer hgone.1 hgone.2
      rw [hledger.unborn buffer hbuffer] at hplace
      cases hplace

theorem grow [DecidableEq Queue]
    (hledger : SharedLedger place used next pools owned slices) {pool : Queue}
    (hpool : pools pool = []) (count : ℕ) :
    ∃ place', SharedLedger place'
      (fun buffer => if next ≤ buffer ∧ buffer < next + count then 0 else used buffer)
      (next + count) (Function.update pools pool (List.range' next count)) owned slices ∧
      ∀ buffer < next, place' buffer = place buffer := by
  have hold : ∀ buffer, buffer < next → ¬ (next ≤ buffer ∧ buffer < next + count) := by
    intro buffer hlt
    omega
  have hunborn : ∀ buffer, next ≤ buffer → place buffer = .unborn := hledger.unborn
  refine ⟨fun buffer =>
    if next ≤ buffer ∧ buffer < next + count then .pooled pool else place buffer,
    ⟨fun other buffer => ?_, fun other => ?_, fun other buffer hplace => ?_,
    fun thread buffer => ?_, fun queue slice hslice hzero => ?_, fun queue slice hslice => ?_,
    hledger.retiredLast, fun queue slice hslice hlen => ?_, fun buffer hbuffer => ?_⟩,
    fun buffer hlt => if_neg (hold buffer hlt)⟩
  · by_cases hnew : next ≤ buffer ∧ buffer < next + count
    · rw [if_pos hnew]
      by_cases heq : other = pool
      · simp [heq, List.mem_range'_1, hnew]
      · rw [Function.update_of_ne heq, hledger.pooled other buffer, hunborn buffer hnew.1]
        refine ⟨nofun, fun hsame => ?_⟩
        cases hsame
        exact absurd rfl heq
    · rw [if_neg hnew]
      by_cases heq : other = pool
      · rw [heq, Function.update_self, List.mem_range'_1, ← hledger.pooled pool buffer, hpool]
        exact ⟨fun hmem => absurd hmem hnew, nofun⟩
      · rw [Function.update_of_ne heq]
        exact hledger.pooled other buffer
  · by_cases heq : other = pool
    · rw [heq, Function.update_self]
      exact List.nodup_range'
    · rw [Function.update_of_ne heq]
      exact hledger.poolNodup other
  · split_ifs at hplace ⊢
    · rfl
    · exact hledger.poolEmpty other buffer hplace
  · rw [hledger.ownedBy thread buffer]
    by_cases hnew : next ≤ buffer ∧ buffer < next + count
    · rw [if_pos hnew, hunborn buffer hnew.1]
      exact ⟨nofun, nofun⟩
    · rw [if_neg hnew]
  · rw [if_neg (hold _ (hledger.slice_born hslice))]
    exact hledger.retiredIn queue slice hslice hzero
  · rw [if_neg (hold _ (hledger.slice_born hslice))]
    exact hledger.readable queue slice hslice
  · rw [if_neg (hold _ (hledger.slice_born hslice))]
    exact hledger.placed queue slice hslice hlen
  · rw [if_neg (by omega)]
    exact hunborn buffer (by omega)

end SharedLedger

end BackEndFacility
