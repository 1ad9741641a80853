import BackEndFacility.TaggedFreeList

/-!
# Tagged linked queues with a lagging tail reference

A queue is a chain of cells.  The reference `out` names its first cell, a
dummy, and the reference `tail` names its last cell or the one before it.
Threads take snapshots of both references, and a thread which is about to
append a cell has drawn the tag of that cell from a counter.

Both references only move forward along the chain, and a cell is appended at
most once under its tag.  Hence a snapshot which still equals the current
reference was taken while nothing changed there, and what was read through it
is still true.
-/

namespace BackEndFacility

open TaggedRef

variable {Node Thread : Type*}

theorem TaggedRef.Linked.drop_through {next : Node → TaggedRef Node}
    {ref : TaggedRef Node} {before after : List (ℕ × Node)}
    {cell : ℕ × Node}
    (hlinked : Linked next ref (before ++ cell :: after)) :
    Linked next (next cell.2) after := by
  induction before generalizing ref with
  | nil => exact hlinked.2
  | cons first rest ih => exact ih hlinked.2

theorem TaggedRef.Linked.append_one [DecidableEq Node]
    {next : Node → TaggedRef Node} {ref : TaggedRef Node}
    {before : List (ℕ × Node)} {last cell : ℕ × Node}
    (hlinked : Linked next ref (before ++ [last]))
    (hlast : last.2 ∉ before.map Prod.snd) (hne : cell.2 ≠ last.2)
    (hcell : next cell.2 = none) :
    Linked (Function.update next last.2 (some cell)) ref
      (before ++ [last, cell]) := by
  induction before generalizing ref with
  | nil =>
      refine ⟨hlinked.1, ?_, ?_⟩
      · simp
      · simpa [Function.update, hne] using hcell
  | cons first rest ih =>
      simp only [List.map_cons, List.mem_cons, not_or] at hlast
      refine ⟨hlinked.1, ?_⟩
      rw [Function.update_of_ne (Ne.symm hlast.1)]
      exact ih hlinked.2 hlast.2

/-- The snapshots of one thread, and the cell it is going to append. -/
structure QueueTickets (Node : Type*) where
  tailSeen : Option (ℕ × Node)
  outSeen : Option (ℕ × Node)
  pending : Option (ℕ × Node)

def QueueTickets.Saw (tickets : QueueTickets Node) (cell : ℕ × Node) : Prop :=
  tickets.tailSeen = some cell ∨ tickets.outSeen = some cell

structure QueueInvariant (next : Node → TaggedRef Node)
    (out tail : ℕ × Node) (counter : ℕ)
    (tickets : Thread → QueueTickets Node)
    (rest lag : List (ℕ × Node)) : Prop where
  linked : Linked next (next out.2) rest
  nodup : ((out :: rest).map Prod.snd).Nodup
  split : ∃ before, out :: rest = before ++ tail :: lag
  short : lag.length ≤ 1
  chainOld : ∀ cell ∈ out :: rest, cell.1 < counter
  seenOld : ∀ thread cell, (tickets thread).Saw cell → cell.1 < counter
  pendingOld : ∀ thread cell, (tickets thread).pending = some cell →
    cell.1 < counter
  pendingUnique : ∀ first second cell other, first ≠ second →
    (tickets first).pending = some cell →
      (tickets second).pending = some other → cell.1 ≠ other.1
  pendingChain : ∀ thread cell, (tickets thread).pending = some cell →
    ∀ other ∈ out :: rest, other.1 ≠ cell.1
  pendingSeen : ∀ first second cell other,
    (tickets first).pending = some cell → (tickets second).Saw other →
      other.1 ≠ cell.1
  outPassed : ∀ thread cell, (tickets thread).outSeen = some cell →
    cell ∉ rest
  tailPassed : ∀ thread cell, (tickets thread).tailSeen = some cell →
    cell ∉ lag

namespace QueueInvariant

variable {next : Node → TaggedRef Node} {out tail : ℕ × Node} {counter : ℕ}
  {tickets : Thread → QueueTickets Node} {rest lag : List (ℕ × Node)}

theorem tail_mem (hinv : QueueInvariant next out tail counter tickets rest lag) :
    tail ∈ out :: rest := by
  obtain ⟨before, hsplit⟩ := hinv.split
  rw [hsplit]
  simp

theorem tail_linked
    (hinv : QueueInvariant next out tail counter tickets rest lag) :
    Linked next (next tail.2) lag := by
  obtain ⟨before, hsplit⟩ := hinv.split
  have hchain : Linked next (some out) (out :: rest) := ⟨rfl, hinv.linked⟩
  rw [hsplit] at hchain
  exact hchain.drop_through

theorem lag_subset
    (hinv : QueueInvariant next out tail counter tickets rest lag)
    {cell : ℕ × Node} (hmem : cell ∈ lag) : cell ∈ rest := by
  obtain ⟨before, hsplit⟩ := hinv.split
  cases before with
  | nil =>
      simp only [List.nil_append, List.cons.injEq] at hsplit
      rw [hsplit.2]
      exact hmem
  | cons first others =>
      simp only [List.cons_append, List.cons.injEq] at hsplit
      rw [hsplit.2]
      simp [hmem]

theorem out_not_mem
    (hinv : QueueInvariant next out tail counter tickets rest lag) :
    out ∉ rest := by
  intro hmem
  have hnodup := hinv.nodup
  rw [List.map_cons, List.nodup_cons] at hnodup
  exact hnodup.1 (List.mem_map.mpr ⟨out, hmem, rfl⟩)

theorem tail_not_mem
    (hinv : QueueInvariant next out tail counter tickets rest lag) :
    tail ∉ lag := by
  intro hmem
  obtain ⟨before, hsplit⟩ := hinv.split
  have hnodup := hinv.nodup
  rw [hsplit, List.map_append, List.map_cons] at hnodup
  have hsuffix := (List.nodup_append.mp hnodup).2.1
  exact (List.nodup_cons.mp hsuffix).1 (List.mem_map.mpr ⟨tail, hmem, rfl⟩)

/-- The successor of the tail is the lagging cell. -/
theorem lag_of_next
    (hinv : QueueInvariant next out tail counter tickets rest lag)
    {after : ℕ × Node} (hnext : next tail.2 = some after) : lag = [after] := by
  have hlinked := hinv.tail_linked
  have hshort := hinv.short
  rw [hnext] at hlinked
  match lag, hlinked, hshort with
  | [], hlinked, _ => simp at hlinked
  | [cell], hlinked, _ => simpa using hlinked.1.symm
  | _ :: _ :: _, _, hshort => simp at hshort

theorem lag_of_null
    (hinv : QueueInvariant next out tail counter tickets rest lag)
    (hnext : next tail.2 = none) : lag = [] := by
  have hlinked := hinv.tail_linked
  rw [hnext] at hlinked
  cases lag with
  | nil => rfl
  | cons cell others => simp at hlinked

/-- The successor of the dummy is the first cell behind it. -/
theorem rest_of_next
    (hinv : QueueInvariant next out tail counter tickets rest lag)
    {after : ℕ × Node} (hnext : next out.2 = some after) :
    ∃ others, rest = after :: others := by
  have hlinked := hinv.linked
  rw [hnext] at hlinked
  cases rest with
  | nil => simp at hlinked
  | cons cell others =>
      have hcell : after = cell := by simpa using hlinked.1
      exact ⟨others, by rw [hcell]⟩

theorem write [DecidableEq Node]
    (hinv : QueueInvariant next out tail counter tickets rest lag)
    {node : Node} (hout : node ∉ (out :: rest).map Prod.snd)
    (value : TaggedRef Node) :
    QueueInvariant (Function.update next node value) out tail counter
      tickets rest lag := by
  simp only [List.map_cons, List.mem_cons, not_or] at hout
  refine { hinv with linked := ?_ }
  rw [Function.update_of_ne (Ne.symm hout.1)]
  exact hinv.linked.update hout.2 value

/-- The tail reference moves to the successor of the cell it names. -/
theorem swing
    (hinv : QueueInvariant next out tail counter tickets rest lag)
    {after : ℕ × Node} (hnext : next tail.2 = some after) :
    QueueInvariant next out after counter tickets rest [] := by
  have hlag := hinv.lag_of_next hnext
  obtain ⟨before, hsplit⟩ := hinv.split
  rw [hlag] at hsplit
  refine { hinv with split := ?_, short := ?_, tailPassed := ?_ }
  · exact ⟨before ++ [tail], by rw [hsplit]; simp⟩
  · simp
  · simp

/-- The first cell behind the dummy becomes the dummy. -/
theorem remove
    (hinv : QueueInvariant next out tail counter tickets rest lag)
    {after : ℕ × Node} (hnext : next out.2 = some after)
    (hne : tail ≠ out) :
    ∃ others, rest = after :: others ∧
      QueueInvariant next after tail counter tickets others lag := by
  obtain ⟨others, hrest⟩ := hinv.rest_of_next hnext
  refine ⟨others, hrest, ?_⟩
  have hmem : ∀ cell, cell ∈ after :: others → cell ∈ out :: rest := by
    intro cell hcell
    rw [hrest]
    exact List.mem_cons_of_mem out hcell
  constructor
  · have hlinked := hinv.linked
    rw [hrest] at hlinked
    exact hlinked.2
  · have hnodup := hinv.nodup
    rw [hrest, List.map_cons, List.nodup_cons] at hnodup
    exact hnodup.2
  · obtain ⟨before, hsplit⟩ := hinv.split
    cases before with
    | nil =>
        simp only [List.nil_append, List.cons.injEq] at hsplit
        exact absurd hsplit.1.symm hne
    | cons first earlier =>
        simp only [List.cons_append, List.cons.injEq] at hsplit
        exact ⟨earlier, by rw [← hrest, hsplit.2]⟩
  · exact hinv.short
  · intro cell hcell
    exact hinv.chainOld cell (hmem cell hcell)
  · exact hinv.seenOld
  · exact hinv.pendingOld
  · exact hinv.pendingUnique
  · intro thread cell hpending other hother
    exact hinv.pendingChain thread cell hpending other (hmem other hother)
  · exact hinv.pendingSeen
  · intro thread cell hseen hcell
    exact hinv.outPassed thread cell hseen (by rw [hrest]; simp [hcell])
  · exact hinv.tailPassed

section Steps

variable [DecidableEq Thread]

/-- A thread may take snapshots of the current references, keep those it has,
and forget them; it may forget the cell it is going to append. -/
theorem observe
    (hinv : QueueInvariant next out tail counter tickets rest lag)
    (thread : Thread) (seen : QueueTickets Node)
    (htail : ∀ cell, seen.tailSeen = some cell →
      cell = tail ∨ (tickets thread).tailSeen = some cell)
    (hout : ∀ cell, seen.outSeen = some cell →
      cell = out ∨ (tickets thread).outSeen = some cell)
    (hpending : ∀ cell, seen.pending = some cell →
      (tickets thread).pending = some cell) :
    QueueInvariant next out tail counter
      (Function.update tickets thread seen) rest lag := by
  have hpendingUpdate : ∀ other cell,
      (Function.update tickets thread seen other).pending = some cell →
        (tickets other).pending = some cell := by
    intro other cell hother
    by_cases heq : other = thread
    · subst heq
      exact hpending cell (by simpa using hother)
    · simpa [Function.update, heq] using hother
  have hsawUpdate : ∀ other cell,
      (Function.update tickets thread seen other).Saw cell →
        cell ∈ out :: rest ∨ (tickets other).Saw cell := by
    intro other cell hother
    by_cases heq : other = thread
    · subst heq
      rw [Function.update_self] at hother
      rcases hother with hseen | hseen
      · rcases htail cell hseen with rfl | hold
        · exact .inl hinv.tail_mem
        · exact .inr (.inl hold)
      · rcases hout cell hseen with rfl | hold
        · exact .inl (by simp)
        · exact .inr (.inr hold)
    · rw [Function.update_of_ne heq] at hother
      exact .inr hother
  refine { hinv with
    seenOld := ?_, pendingOld := ?_, pendingUnique := ?_,
    pendingChain := ?_, pendingSeen := ?_, outPassed := ?_,
    tailPassed := ?_ }
  · intro other cell hother
    rcases hsawUpdate other cell hother with hmem | hold
    · exact hinv.chainOld cell hmem
    · exact hinv.seenOld other cell hold
  · intro other cell hother
    exact hinv.pendingOld other cell (hpendingUpdate other cell hother)
  · intro first second cell other hne hfirst hsecond
    exact hinv.pendingUnique first second cell other hne
      (hpendingUpdate first cell hfirst) (hpendingUpdate second other hsecond)
  · intro other cell hother
    exact hinv.pendingChain other cell (hpendingUpdate other cell hother)
  · intro first second cell other hfirst hsecond
    have hfirstOld := hpendingUpdate first cell hfirst
    rcases hsawUpdate second other hsecond with hmem | hold
    · exact hinv.pendingChain first cell hfirstOld other hmem
    · exact hinv.pendingSeen first second cell other hfirstOld hold
  · intro other cell hother
    by_cases heq : other = thread
    · subst heq
      rcases hout cell (by simpa using hother) with rfl | hold
      · exact hinv.out_not_mem
      · exact hinv.outPassed other cell hold
    · exact hinv.outPassed other cell
        (by simpa [Function.update, heq] using hother)
  · intro other cell hother
    by_cases heq : other = thread
    · subst heq
      rcases htail cell (by simpa using hother) with rfl | hold
      · exact hinv.tail_not_mem
      · exact hinv.tailPassed other cell hold
    · exact hinv.tailPassed other cell
        (by simpa [Function.update, heq] using hother)

/-- A thread that remembers nothing draws a tag. -/
theorem draw
    (hinv : QueueInvariant next out tail counter tickets rest lag)
    (thread : Thread) (node : Node) :
    QueueInvariant next out tail (counter + 1)
      (Function.update tickets thread ⟨none, none, some (counter, node)⟩)
      rest lag := by
  have hsawUpdate : ∀ other cell,
      (Function.update tickets thread ⟨none, none, some (counter, node)⟩
        other).Saw cell → other ≠ thread ∧ (tickets other).Saw cell := by
    intro other cell hother
    by_cases heq : other = thread
    · subst heq
      simp [QueueTickets.Saw] at hother
    · rw [Function.update_of_ne heq] at hother
      exact ⟨heq, hother⟩
  have hpendingUpdate : ∀ other cell,
      (Function.update tickets thread ⟨none, none, some (counter, node)⟩
        other).pending = some cell →
        (other = thread ∧ cell = (counter, node)) ∨
          (other ≠ thread ∧ (tickets other).pending = some cell) := by
    intro other cell hother
    by_cases heq : other = thread
    · subst heq
      exact .inl ⟨rfl, by simpa using hother.symm⟩
    · rw [Function.update_of_ne heq] at hother
      exact .inr ⟨heq, hother⟩
  refine { hinv with
    chainOld := ?_, seenOld := ?_, pendingOld := ?_, pendingUnique := ?_,
    pendingChain := ?_, pendingSeen := ?_, outPassed := ?_,
    tailPassed := ?_ }
  · intro cell hmem
    exact Nat.lt_succ_of_lt (hinv.chainOld cell hmem)
  · intro other cell hother
    exact Nat.lt_succ_of_lt (hinv.seenOld other cell (hsawUpdate other cell hother).2)
  · intro other cell hother
    rcases hpendingUpdate other cell hother with ⟨-, rfl⟩ | ⟨-, hold⟩
    · exact Nat.lt_succ_self counter
    · exact Nat.lt_succ_of_lt (hinv.pendingOld other cell hold)
  · intro first second cell other hne hfirst hsecond
    rcases hpendingUpdate first cell hfirst with ⟨rfl, rfl⟩ | ⟨-, hfirstOld⟩
    · rcases hpendingUpdate second other hsecond with ⟨rfl, -⟩ | ⟨-, hold⟩
      · exact absurd rfl hne
      · have hlt := hinv.pendingOld second other hold
        exact (Nat.ne_of_lt hlt).symm
    · have hlt := hinv.pendingOld first cell hfirstOld
      rcases hpendingUpdate second other hsecond with ⟨-, rfl⟩ | ⟨-, hold⟩
      · exact Nat.ne_of_lt hlt
      · exact hinv.pendingUnique first second cell other hne hfirstOld hold
  · intro other cell hother listed hmem
    rcases hpendingUpdate other cell hother with ⟨-, rfl⟩ | ⟨-, hold⟩
    · exact Nat.ne_of_lt (hinv.chainOld listed hmem)
    · exact hinv.pendingChain other cell hold listed hmem
  · intro first second cell other hfirst hsecond
    have hsaw := (hsawUpdate second other hsecond).2
    rcases hpendingUpdate first cell hfirst with ⟨-, rfl⟩ | ⟨-, hold⟩
    · exact Nat.ne_of_lt (hinv.seenOld second other hsaw)
    · exact hinv.pendingSeen first second cell other hold hsaw
  · intro other cell hother
    have hne := (hsawUpdate other cell (.inr hother)).1
    rw [Function.update_of_ne hne] at hother
    exact hinv.outPassed other cell hother
  · intro other cell hother
    have hne := (hsawUpdate other cell (.inl hother)).1
    rw [Function.update_of_ne hne] at hother
    exact hinv.tailPassed other cell hother

/-- Appending the pending cell of a thread behind the last cell. -/
theorem append [DecidableEq Node]
    (hinv : QueueInvariant next out tail counter tickets rest lag)
    {thread : Thread} {cell : ℕ × Node}
    (hpending : (tickets thread).pending = some cell)
    (hlast : next tail.2 = none) (hcell : next cell.2 = none)
    (hout : cell.2 ∉ (out :: rest).map Prod.snd) :
    QueueInvariant (Function.update next tail.2 (some cell)) out tail counter
      (Function.update tickets thread
        ⟨(tickets thread).tailSeen, (tickets thread).outSeen, none⟩)
      (rest ++ [cell]) [cell] := by
  have hlag := hinv.lag_of_null hlast
  obtain ⟨before, hsplit⟩ := hinv.split
  rw [hlag] at hsplit
  have hnodup := hinv.nodup
  rw [hsplit, List.map_append, List.map_cons, List.map_nil] at hnodup
  have hbefore : tail.2 ∉ before.map Prod.snd := by
    intro hmem
    exact (List.nodup_append.mp hnodup).2.2 tail.2 hmem tail.2 (by simp) rfl
  have hne : cell.2 ≠ tail.2 := by
    intro heq
    exact hout (heq ▸ List.mem_map.mpr ⟨tail, hinv.tail_mem, rfl⟩)
  have hpendingUpdate : ∀ other drawn,
      (Function.update tickets thread
        ⟨(tickets thread).tailSeen, (tickets thread).outSeen, none⟩
        other).pending = some drawn →
        other ≠ thread ∧ (tickets other).pending = some drawn := by
    intro other drawn hother
    by_cases heq : other = thread
    · subst heq
      simp at hother
    · rw [Function.update_of_ne heq] at hother
      exact ⟨heq, hother⟩
  have htickets : ∀ other,
      (Function.update tickets thread
        ⟨(tickets thread).tailSeen, (tickets thread).outSeen, none⟩
        other).tailSeen = (tickets other).tailSeen ∧
      (Function.update tickets thread
        ⟨(tickets thread).tailSeen, (tickets thread).outSeen, none⟩
        other).outSeen = (tickets other).outSeen := by
    intro other
    by_cases heq : other = thread
    · subst heq
      simp
    · simp [Function.update, heq]
  have hsawUpdate : ∀ other seen,
      (Function.update tickets thread
        ⟨(tickets thread).tailSeen, (tickets thread).outSeen, none⟩
        other).Saw seen → (tickets other).Saw seen := by
    intro other seen hother
    unfold QueueTickets.Saw at hother ⊢
    rwa [(htickets other).1, (htickets other).2] at hother
  have hmemSplit : ∀ other, other ∈ out :: (rest ++ [cell]) →
      other ∈ out :: rest ∨ other = cell := by
    intro other hmem
    simpa [or_assoc] using hmem
  constructor
  · have hchain : Linked next (some out) (before ++ [tail]) := by
      rw [← hsplit]
      exact ⟨rfl, hinv.linked⟩
    have hlong := hchain.append_one hbefore hne hcell
    rw [show before ++ [tail, cell] = out :: (rest ++ [cell]) by
      rw [← List.cons_append, hsplit]; simp] at hlong
    exact hlong.2
  · rw [← List.cons_append, List.map_append, List.nodup_append]
    refine ⟨hinv.nodup, by simp, ?_⟩
    intro node hnode other hother heq
    simp only [List.map_cons, List.map_nil, List.mem_singleton] at hother
    subst hother
    exact hout (heq ▸ hnode)
  · exact ⟨before, by rw [← List.cons_append, hsplit]; simp⟩
  · simp
  · intro other hmem
    rcases hmemSplit other hmem with hold | rfl
    · exact hinv.chainOld other hold
    · exact hinv.pendingOld thread other hpending
  · intro other seen hother
    exact hinv.seenOld other seen (hsawUpdate other seen hother)
  · intro other drawn hother
    exact hinv.pendingOld other drawn (hpendingUpdate other drawn hother).2
  · intro first second drawn other hne hfirst hsecond
    exact hinv.pendingUnique first second drawn other hne
      (hpendingUpdate first drawn hfirst).2
      (hpendingUpdate second other hsecond).2
  · intro other drawn hother listed hmem
    obtain ⟨hotherNe, hotherOld⟩ := hpendingUpdate other drawn hother
    rcases hmemSplit listed hmem with hold | rfl
    · exact hinv.pendingChain other drawn hotherOld listed hold
    · exact hinv.pendingUnique thread other listed drawn hotherNe.symm
        hpending hotherOld
  · intro first second drawn other hfirst hsecond
    exact hinv.pendingSeen first second drawn other
      (hpendingUpdate first drawn hfirst).2 (hsawUpdate second other hsecond)
  · intro other seen hother hmem
    rw [(htickets other).2] at hother
    rcases List.mem_append.mp hmem with hold | hnew
    · exact hinv.outPassed other seen hother hold
    · simp only [List.mem_singleton] at hnew
      subst hnew
      exact hinv.pendingSeen thread other seen seen hpending (.inr hother) rfl
  · intro other seen hother hmem
    rw [(htickets other).1] at hother
    simp only [List.mem_singleton] at hmem
    subst hmem
    exact hinv.pendingSeen thread other seen seen hpending (.inl hother) rfl

end Steps

end QueueInvariant

end BackEndFacility
