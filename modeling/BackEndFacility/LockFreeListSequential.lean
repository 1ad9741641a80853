import BackEndFacility.AtomicObject
import BackEndFacility.LockFreeList
import BackEndFacility.TaggedQueue

/-!
# Sequential use of the list queue

Calls of `Push` and `Pop` that run one after another, each by some thread and from
its first access to its return.  The queue then is a first-in first-out queue of at
most `capacity - 1` values: one node of the array serves as the dummy under `out_`.

Tags play no part here.  Between two calls every node of the array is either in the
chain from `out_` to `in_` or in the free list under `head_`, and this alone decides
what the next call does.
-/

namespace BackEndFacility
namespace LockFreeList

universe u

variable {Value : Type u}

/-! ## Calls and their results -/

inductive Call (Value : Type u) where
  | push (thread : ℕ) (data : Value)
  | pop (thread : ℕ)

inductive Result (Value : Type u) where
  | pushed (ret : Bool)
  | popped (ret : Option Value)

def Call.thread : Call Value → ℕ
  | .push thread _ => thread
  | .pop thread => thread

def Call.action : Call Value → Action Value
  | .push thread data => .push thread data
  | .pop thread => .pop thread

/-- What the next step of a thread returns, if it returns. -/
def State.response (state : State Value) (thread : ℕ) : Option (Result Value) :=
  match state.callers thread with
  | .allocReadHead _ => if state.head = none then some (.pushed false) else none
  | .pushSwing _ _ _ _ => some (.pushed true)
  | .popReadNext out _ => if state.next out.2 = none then some (.popped none) else none
  | .releaseCas data _ _ oldHead =>
      if state.head = oldHead then some (.popped (some data)) else none
  | _ => none

/-- The largest number of accesses that a call makes alone. -/
def callAccesses : ℕ := 11

/-- A call from its invocation to its return. -/
def State.perform (state : State Value) (call : Call Value) :
    Option (State Value × Result Value) :=
  match state.step call.action with
  | none => none
  | some called =>
      runCall (fun state => state.advance call.thread)
        (fun state => state.response call.thread) callAccesses called

/-- A first-in first-out queue of at most `bound` values, the oldest in front. -/
def boundedFifo (Value : Type u) (bound : ℕ) :
    SequentialObject (List Value) (Call Value) (Result Value) where
  initial := []
  apply := fun stored call =>
    match call with
    | .push _ data =>
        if stored.length = bound then (stored, .pushed false)
        else (stored ++ [data], .pushed true)
    | .pop _ =>
        match stored with
        | [] => ([], .popped none)
        | data :: rest => (rest, .popped (some data))

/-! ## One call -/

variable {state : State Value} {thread : ℕ}

/-- The node of `cell` leaves the free list and goes behind the node under `in_`. -/
def State.afterPush (state : State Value) (thread : ℕ) (cell : ℕ × ℕ) (data : Value) :
    State Value :=
  { state with
    id := atomicIncrement state.id
    inPtr := (state.id, cell.2)
    head := state.next cell.2
    next := Function.update (Function.update state.next cell.2 none) state.inPtr.2
      (setDoublePointer state.id cell.2)
    data := Function.update state.data cell.2 data
    linked := state.linked ++ [(thread, data)]
    pushed := state.pushed ++ [(thread, data)] }

/-- The node under `out_` goes to the free list. -/
def State.afterPop (state : State Value) (thread : ℕ) (after : ℕ × ℕ) : State Value :=
  { state with
    outPtr := after
    id2 := atomicIncrement state.id2
    head := setDoublePointer state.id2 state.outPtr.2
    next := Function.update state.next state.outPtr.2 state.head
    taken := state.taken ++ [(thread, state.data after.2)]
    popped := state.popped ++ [(thread, state.data after.2)] }

theorem perform_push_full (hidle : state.callers thread = .idle) (hfull : state.head = none)
    (data : Value) :
    state.perform (.push thread data) = some (state, .pushed false) := by
  have hback := update_returned hidle
  have hsame : { state with head := none } = state := by
    rw [← hfull]
  simp [State.perform, State.step, Call.action, Call.thread, hidle, runCall, callAccesses,
    State.advance, State.response, State.goto, hfull, hback, hsame]

theorem perform_push {cell : ℕ × ℕ} (hidle : state.callers thread = .idle)
    (hhead : state.head = some cell) (hlast : state.next state.inPtr.2 = none)
    (hother : state.inPtr.2 ≠ cell.2) (data : Value) :
    state.perform (.push thread data) = some (state.afterPush thread cell data, .pushed true) := by
  have hback := update_returned hidle
  have hnull : Function.update state.next cell.2 none state.inPtr.2 = none := by
    rw [Function.update_of_ne hother, hlast]
  simp [State.perform, State.step, Call.action, Call.thread, hidle, runCall, callAccesses,
    State.advance, State.response, State.goto, State.afterPush, hhead, hback, hnull]

theorem perform_pop_empty (hidle : state.callers thread = .idle)
    (hempty : state.next state.outPtr.2 = none) :
    state.perform (.pop thread) = some (state, .popped none) := by
  have hback := update_returned hidle
  simp [State.perform, State.step, Call.action, Call.thread, hidle, runCall, callAccesses,
    State.advance, State.response, State.goto, hempty, hback]

theorem perform_pop {after : ℕ × ℕ} (hidle : state.callers thread = .idle)
    (hnext : state.next state.outPtr.2 = some after) (hin : state.inPtr ≠ state.outPtr) :
    state.perform (.pop thread) =
      some (state.afterPop thread after, .popped (some (state.data after.2))) := by
  have hback := update_returned hidle
  simp [State.perform, State.step, Call.action, Call.thread, hidle, runCall, callAccesses,
    State.advance, State.response, State.goto, State.afterPop, hnext, hin, hback]

/-! ## The two lists -/

open TaggedRef

/-- The nodes of the array are divided between the chain from `out_` to `in_` and
the free list under `head_`. -/
structure State.Divides (capacity : ℕ) (state : State Value) (chain free : List (ℕ × ℕ)) :
    Prop where
  chained : Linked state.next (some state.outPtr) chain
  last : chain.getLast? = some state.inPtr
  freed : Linked state.next state.head free
  nodes : (chain.map Prod.snd ++ free.map Prod.snd).Perm (List.range capacity)

/-- Between two calls: nobody is inside, the nodes are divided, and the values of the
chain behind the dummy are the stored ones. -/
def State.Represents (capacity : ℕ) (state : State Value) (stored : List Value) : Prop :=
  (∀ thread, state.callers thread = .idle) ∧
    ∃ chain free, state.Divides capacity chain free ∧
      chain.tail.map (fun cell => state.data cell.2) = stored

namespace State.Divides

variable {capacity : ℕ} {chain free : List (ℕ × ℕ)}

theorem nodup (hdivides : state.Divides capacity chain free) :
    (chain.map Prod.snd ++ free.map Prod.snd).Nodup :=
  hdivides.nodes.nodup_iff.mpr List.nodup_range

theorem length (hdivides : state.Divides capacity chain free) :
    chain.length + free.length = capacity := by
  have hlength := hdivides.nodes.length_eq
  rwa [List.length_append, List.length_map, List.length_map, List.length_range] at hlength

theorem exists_cons (hdivides : state.Divides capacity chain free) :
    ∃ rest, chain = state.outPtr :: rest ∧ Linked state.next (state.next state.outPtr.2) rest := by
  have hchained := hdivides.chained
  cases chain with
  | nil => exact absurd hchained (Option.some_ne_none _)
  | cons cell rest =>
      obtain ⟨hcell, hrest⟩ := hchained
      cases hcell
      exact ⟨rest, rfl, hrest⟩

theorem stored_length (hdivides : state.Divides capacity chain free) :
    (chain.tail.map fun cell => state.data cell.2).length + 1 + free.length = capacity := by
  obtain ⟨rest, rfl, -⟩ := hdivides.exists_cons
  have hlength := hdivides.length
  rw [List.length_cons] at hlength
  rw [List.length_map, List.tail_cons]
  omega

theorem exists_concat (hdivides : state.Divides capacity chain free) :
    ∃ before, chain = before ++ [state.inPtr] :=
  List.getLast?_eq_some_iff.mp hdivides.last

theorem next_in (hdivides : state.Divides capacity chain free) :
    state.next state.inPtr.2 = none := by
  obtain ⟨before, rfl⟩ := hdivides.exists_concat
  exact hdivides.chained.drop_through

theorem push {cell : ℕ × ℕ} (hdivides : state.Divides capacity chain (cell :: free))
    (thread : ℕ) (data : Value) :
    (state.afterPush thread cell data).Divides capacity (chain ++ [(state.id, cell.2)]) free := by
  have hnodup := hdivides.nodup
  obtain ⟨before, rfl⟩ := hdivides.exists_concat
  rw [List.nodup_append, List.map_cons, List.nodup_cons] at hnodup
  obtain ⟨hchain, ⟨hcell, -⟩, hapart⟩ := hnodup
  have hin : state.inPtr.2 ∈ (before ++ [state.inPtr]).map Prod.snd :=
    List.mem_map_of_mem (List.mem_append_right _ List.mem_cons_self)
  have hout : cell.2 ∉ (before ++ [state.inPtr]).map Prod.snd := fun hmem =>
    hapart _ hmem _ List.mem_cons_self rfl
  constructor
  · have hlast : state.inPtr.2 ∉ before.map Prod.snd := by
      rw [List.map_append, List.map_singleton, List.nodup_append] at hchain
      exact fun hmem => hchain.2.2 _ hmem _ List.mem_cons_self rfl
    have hne : cell.2 ≠ state.inPtr.2 := fun heq => hout (heq ▸ hin)
    have hnull : Function.update state.next cell.2 none (state.id, cell.2).2 = none :=
      Function.update_self _ _ _
    rw [List.append_assoc]
    exact (hdivides.chained.update hout none).append_one hlast hne hnull
  · exact List.getLast?_concat
  · have hinFree : state.inPtr.2 ∉ free.map Prod.snd := fun hmem =>
      hapart _ hin _ (List.mem_cons_of_mem _ hmem) rfl
    exact (hdivides.freed.2.update hcell none).update hinFree _
  · have hnodes := hdivides.nodes
    rwa [List.map_append, List.map_singleton, List.append_assoc, List.singleton_append]

/-- The dummy goes to the free list, and the node behind it becomes the dummy. -/
theorem pop {after : ℕ × ℕ} {rest : List (ℕ × ℕ)}
    (hdivides : state.Divides capacity (state.outPtr :: after :: rest) free) (thread : ℕ) :
    (state.afterPop thread after).Divides capacity (after :: rest)
      ((state.id2, state.outPtr.2) :: free) := by
  have hnodup := hdivides.nodup
  rw [List.map_cons, List.cons_append, List.nodup_cons, List.mem_append, not_or] at hnodup
  obtain ⟨⟨hchain, hfree⟩, -⟩ := hnodup
  obtain ⟨hafter, hrest⟩ := hdivides.chained.2
  constructor
  · have hlinked := hdivides.chained.2.update hchain state.head
    rw [hafter] at hlinked
    exact hlinked
  · have hlast := hdivides.last
    rwa [List.getLast?_cons_cons] at hlast
  · have hlinked := hdivides.freed.update hfree state.head
    refine ⟨rfl, ?_⟩
    unfold State.afterPop
    simp only [Function.update_self]
    exact hlinked
  · have hnodes := hdivides.nodes
    rw [List.map_cons, List.cons_append] at hnodes
    exact List.perm_middle.trans hnodes

end State.Divides

/-! ## Every sequence of calls -/

namespace State.Represents

variable {capacity : ℕ} {stored : List Value}

theorem start (hcapacity : 1 ≤ capacity) (memory : ℕ → Value) :
    (construct capacity memory).Represents capacity [] := by
  refine ⟨fun _ => rfl, [(0, 0)], (List.range' 1 (capacity - 1)).map fun node => (node, node),
    ?_, rfl⟩
  constructor
  · exact ⟨rfl, rfl⟩
  · rfl
  · by_cases hsmall : 0 < capacity - 1
    · have hlast : (construct capacity memory).next (capacity - 1) = none :=
        if_neg fun hboth => Nat.lt_irrefl _ hboth.2
      have hnumbered := linked_numbered hlast 1 hsmall fun node hfirst hnode =>
        if_pos ⟨hfirst, hnode⟩
      rw [Nat.add_sub_cancel] at hnumbered
      have hhead : (construct capacity memory).head = some (1, 1) := if_pos hsmall
      rwa [hhead]
    · have hhead : (construct capacity memory).head = none := if_neg hsmall
      rw [hhead, Nat.eq_zero_of_not_pos hsmall]
      exact rfl
  · have hrange : List.range capacity = 0 :: List.range' 1 (capacity - 1) := by
      conv_lhs => rw [← Nat.sub_add_cancel hcapacity]
      rw [List.range_eq_range', List.range'_succ]
    have hsecond : (List.range' 1 (capacity - 1)).map (Prod.snd ∘ fun node : ℕ => (node, node)) =
        List.range' 1 (capacity - 1) := List.map_id' _
    rw [hrange, List.map_map, hsecond]
    exact List.Perm.refl _

theorem length_le (hrepresents : state.Represents capacity stored) :
    stored.length ≤ capacity - 1 := by
  obtain ⟨-, chain, free, hdivides, rfl⟩ := hrepresents
  have hlength := hdivides.stored_length
  omega

theorem head_eq_none (hrepresents : state.Represents capacity stored)
    (hfull : stored.length = capacity - 1) : state.head = none := by
  obtain ⟨-, chain, free, hdivides, rfl⟩ := hrepresents
  have hlength := hdivides.stored_length
  have hfree : free = [] := List.length_eq_zero_iff.mp (by omega)
  have hfreed := hdivides.freed
  rwa [hfree] at hfreed

theorem push_full (hrepresents : state.Represents capacity stored)
    (hfull : stored.length = capacity - 1) (thread : ℕ) (data : Value) :
    state.perform (.push thread data) = some (state, .pushed false) :=
  perform_push_full (hrepresents.1 thread) (hrepresents.head_eq_none hfull) data

theorem push (hrepresents : state.Represents capacity stored)
    (hroom : stored.length ≠ capacity - 1) (thread : ℕ) (data : Value) :
    ∃ next, state.perform (.push thread data) = some (next, .pushed true) ∧
      next.Represents capacity (stored ++ [data]) := by
  obtain ⟨hidle, chain, free, hdivides, rfl⟩ := hrepresents
  have hlength := hdivides.stored_length
  cases free with
  | nil =>
      rw [List.length_nil] at hlength
      exact absurd (by omega) hroom
  | cons cell free =>
      have hnodup := hdivides.nodup
      rw [List.nodup_append] at hnodup
      have hapart : ∀ other ∈ chain, other.2 ≠ cell.2 := fun other hmem =>
        hnodup.2.2 _ (List.mem_map_of_mem hmem) _ List.mem_cons_self
      have hin : state.inPtr ∈ chain := List.mem_of_getLast? hdivides.last
      refine ⟨state.afterPush thread cell data, perform_push (hidle thread) hdivides.freed.1
        hdivides.next_in (hapart _ hin) data, hidle, chain ++ [(state.id, cell.2)], free,
          hdivides.push thread data, ?_⟩
      obtain ⟨rest, rfl, -⟩ := hdivides.exists_cons
      have hkept : rest.map (fun other => Function.update state.data cell.2 data other.2) =
          rest.map fun other => state.data other.2 := by
        apply List.map_congr_left
        intro other hmem
        exact Function.update_of_ne (hapart other (List.mem_cons_of_mem _ hmem)) _ _
      have hnew : Function.update state.data cell.2 data cell.2 = data :=
        Function.update_self _ _ _
      rw [List.cons_append, List.tail_cons, List.tail_cons, List.map_append, List.map_singleton]
      unfold State.afterPush
      simp only [hkept, hnew]

theorem pop_empty (hrepresents : state.Represents capacity []) (thread : ℕ) :
    state.perform (.pop thread) = some (state, .popped none) := by
  obtain ⟨hidle, chain, free, hdivides, hstored⟩ := hrepresents
  obtain ⟨rest, rfl, hrest⟩ := hdivides.exists_cons
  rw [List.tail_cons, List.map_eq_nil_iff] at hstored
  rw [hstored] at hrest
  exact perform_pop_empty (hidle thread) hrest

theorem pop {data : Value} (hrepresents : state.Represents capacity (data :: stored))
    (thread : ℕ) :
    ∃ next, state.perform (.pop thread) = some (next, .popped (some data)) ∧
      next.Represents capacity stored := by
  obtain ⟨hidle, chain, free, hdivides, hstored⟩ := hrepresents
  obtain ⟨rest, rfl, hrest⟩ := hdivides.exists_cons
  cases rest with
  | nil => exact absurd hstored.symm (List.cons_ne_nil _ _)
  | cons after rest =>
      rw [List.tail_cons, List.map_cons] at hstored
      obtain ⟨hdata, hrestStored⟩ := List.cons_eq_cons.mp hstored
      have hin : state.inPtr ≠ state.outPtr := by
        have hlast := hdivides.last
        rw [List.getLast?_cons_cons] at hlast
        have hnodup := hdivides.nodup
        rw [List.map_cons, List.cons_append, List.nodup_cons] at hnodup
        intro heq
        have hmem : state.inPtr.2 ∈ (after :: rest).map Prod.snd :=
          List.mem_map_of_mem (List.mem_of_getLast? hlast)
        exact hnodup.1 (List.mem_append_left _ (heq ▸ hmem))
      refine ⟨state.afterPop thread after, ?_, hidle, after :: rest,
        (state.id2, state.outPtr.2) :: free, hdivides.pop thread, hrestStored⟩
      rw [perform_pop (hidle thread) hrest.1 hin, hdata]

theorem perform (hrepresents : state.Represents capacity stored) (call : Call Value) :
    ∃ next, state.perform call =
        some (next, ((boundedFifo Value (capacity - 1)).apply stored call).2) ∧
      next.Represents capacity ((boundedFifo Value (capacity - 1)).apply stored call).1 := by
  cases call with
  | push thread data =>
      by_cases hfull : stored.length = capacity - 1
      · simp only [boundedFifo, if_pos hfull]
        exact ⟨state, hrepresents.push_full hfull thread data, hrepresents⟩
      · simp only [boundedFifo, if_neg hfull]
        exact hrepresents.push hfull thread data
  | pop thread =>
      cases stored with
      | nil => exact ⟨state, hrepresents.pop_empty thread, hrepresents⟩
      | cons data stored => exact hrepresents.pop thread

end State.Represents

open SequentialObject

/-- Over every sequence of calls the queue answers like a first-in first-out queue of
`capacity - 1` values, a full queue is left as it is by `Push`, and the nodes are
divided between the chain and the free list. -/
theorem represents_performAll
    (capacity : ℕ) (hcapacity : 1 ≤ capacity) (memory : ℕ → Value) (calls : List (Call Value)) :
    ∃ state stored results,
      (boundedFifo Value (capacity - 1)).applyAll [] calls = (stored, results) ∧
        performAll State.perform (construct capacity memory) calls = some (state, results) ∧
          stored.length ≤ capacity - 1 ∧ state.Represents capacity stored ∧
            (stored.length = capacity - 1 → ∀ thread data,
              state.perform (.push thread data) = some (state, .pushed false)) := by
  obtain ⟨state, hperformed, hrepresents⟩ :=
    performAll_refines (State.Represents capacity)
      (fun _ _ call hrepresents => hrepresents.perform call)
      (State.Represents.start hcapacity memory) calls
  exact ⟨state, _, _, rfl, hperformed, hrepresents.length_le, hrepresents,
    fun hfull thread data => hrepresents.push_full hfull thread data⟩

/-- A queue of one value. -/
theorem represents_fullThenEmpty :
    ∃ state stored results,
      (boundedFifo ℕ 1).applyAll [] [.push 0 5, .push 1 6, .pop 0, .pop 0] = (stored, results) ∧
        performAll State.perform (construct 2 fun _ => 0)
          [.push 0 5, .push 1 6, .pop 0, .pop 0] = some (state, results) ∧
            stored.length ≤ 1 ∧ state.Represents 2 stored ∧
              (stored.length = 1 → ∀ thread data,
                state.perform (.push thread data) = some (state, .pushed false)) :=
  represents_performAll 2 (by norm_num) (fun _ => 0) [.push 0 5, .push 1 6, .pop 0, .pop 0]

end LockFreeList
end BackEndFacility
