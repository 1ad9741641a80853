import BackEndFacility.LockFreeList
import BackEndFacility.Placement
import BackEndFacility.TaggedQueue

/-!
# Order and conservation of the list queue

The invariant joins the two list disciplines: the queue behind `out_` obeys
the tagged queue discipline of `id_`, the unused nodes under `head_` obey the
free list discipline of `id2_`, and every node is in exactly one of the two
lists or owned by one call.  On top of that, the values stored behind `out_`
are the linked values that have not been taken yet.

The discipline of the queue needs one thing the code does not check: when the
linking compare-and-swap finds a null successor, the node is still the one
under `in_`.  A recycled node may have a null successor as well.
-/

namespace BackEndFacility
namespace LockFreeList

open TaggedRef

universe u

variable {Value : Type u}

/-! ## What a thread owns, has seen and will install -/

def Pc.owned : Pc Value → Option ℕ
  | .allocClearNext _ node => some node
  | .pushWriteData _ node => some node
  | .pushClearNext _ node => some node
  | .pushDrawId _ node => some node
  | .pushReadIn _ node _ => some node
  | .pushReadNext _ node _ _ => some node
  | .pushHelp _ node _ _ _ => some node
  | .pushLink _ node _ _ => some node
  | .releaseDrawId _ node => some node
  | .releaseReadHead _ node _ => some node
  | .releaseWriteNext _ node _ _ => some node
  | .releaseCas _ node _ _ => some node
  | _ => none

def Pc.view : Pc Value → FreeListView ℕ
  | .allocReadNext _ oldHead => ⟨some oldHead, none, none⟩
  | .allocCas _ oldHead tmp => ⟨some oldHead, some tmp, none⟩
  | .releaseReadHead _ node id => ⟨none, none, some (id, node)⟩
  | .releaseWriteNext _ node id _ => ⟨none, none, some (id, node)⟩
  | .releaseCas _ node id _ => ⟨none, none, some (id, node)⟩
  | _ => .idle

def Pc.tickets : Pc Value → QueueTickets ℕ
  | .pushReadIn _ node id => ⟨none, none, some (id, node)⟩
  | .pushReadNext _ node id tail => ⟨some tail, none, some (id, node)⟩
  | .pushHelp _ node id tail _ => ⟨some tail, none, some (id, node)⟩
  | .pushLink _ node id tail => ⟨some tail, none, some (id, node)⟩
  | .pushSwing _ _ _ tail => ⟨some tail, none, none⟩
  | .popReadIn out => ⟨none, some out, none⟩
  | .popReadNext out tail => ⟨some tail, some out, none⟩
  | .popHelp tail _ => ⟨some tail, none, none⟩
  | .popReadData out _ => ⟨none, some out, none⟩
  | .popCas out _ _ => ⟨none, some out, none⟩
  | _ => ⟨none, none, none⟩

/-- The pushed value a thread has linked but not returned for yet. -/
def Pc.linking : Pc Value → List Value
  | .pushSwing data _ _ _ => [data]
  | _ => []

/-- The popped value a thread has taken but not returned yet. -/
def Pc.releasing : Pc Value → List Value
  | .releaseDrawId data _ => [data]
  | .releaseReadHead data _ _ => [data]
  | .releaseWriteNext data _ _ _ => [data]
  | .releaseCas data _ _ _ => [data]
  | _ => []

/-- What a thread may rely on between its own steps.  Facts read through a
snapshot are relied on only while the snapshot is current. -/
def State.Sound (state : State Value) : Pc Value → Prop
  | .pushClearNext data node => state.data node = data
  | .pushDrawId data node => state.data node = data ∧ state.next node = none
  | .pushReadIn data node _ =>
      state.data node = data ∧ state.next node = none
  | .pushReadNext data node _ _ =>
      state.data node = data ∧ state.next node = none
  | .pushHelp data node _ tail after =>
      (state.data node = data ∧ state.next node = none) ∧
        (state.inPtr = tail → state.next tail.2 = some after)
  | .pushLink data node _ _ =>
      state.data node = data ∧ state.next node = none
  | .pushSwing _ node id tail =>
      state.inPtr = tail → state.next tail.2 = some (id, node)
  | .popReadNext out tail =>
      state.outPtr = out → tail ≠ out → state.inPtr ≠ out
  | .popHelp tail after =>
      state.inPtr = tail → state.next tail.2 = some after
  | .popReadData out after =>
      state.outPtr = out →
        state.next out.2 = some after ∧ state.inPtr ≠ out
  | .popCas out after data =>
      state.outPtr = out →
        (state.next out.2 = some after ∧ state.inPtr ≠ out) ∧
          state.data after.2 = data
  | .releaseCas _ node _ oldHead => state.next node = oldHead
  | _ => True

inductive Place where
  | queued
  | unused
  | owned (thread : ℕ)
  deriving DecidableEq, Repr

def Located (queued unused : List ℕ) (callers : ℕ → Pc Value) :
    Place → ℕ → Prop
  | .queued, node => node ∈ queued
  | .unused, node => node ∈ unused
  | .owned thread, node => (callers thread).owned = some node

/-- The calls in `whole` are those in `part` and, for every thread, the one
that has taken effect and has not returned yet. -/
def Records (whole part : List (Record Value)) (inFlight : ℕ → List Value) :
    Prop :=
  ∀ thread,
    whole.filter (fun record => record.1 = thread) =
      part.filter (fun record => record.1 = thread) ++
        (inFlight thread).map (Prod.mk thread)

structure State.Invariant (capacity : ℕ) (rest lag free : List (ℕ × ℕ))
    (place : ℕ → Place) (state : State Value) : Prop where
  queue : QueueInvariant state.next state.outPtr state.inPtr state.id
    (fun thread => (state.callers thread).tickets) rest lag
  tags : FreeListInvariant False (capacity - 1, capacity - 1) state.next
    state.head state.id2 (fun thread => (state.callers thread).view) free
  located : Placed (· < capacity)
    (Located ((state.outPtr :: rest).map Prod.snd) (free.map Prod.snd)
      state.callers) place
  sound : ∀ thread, state.Sound (state.callers thread)
  stored : state.linked.map Prod.snd =
    state.taken.map Prod.snd ++ rest.map fun cell => state.data cell.2
  pushes : Records state.linked state.pushed
    fun thread => (state.callers thread).linking
  pops : Records state.taken state.popped
    fun thread => (state.callers thread).releasing

theorem comp_update_callers {Result : Type*} (read : Pc Value → Result)
    (callers : ℕ → Pc Value) (thread : ℕ) (pc : Pc Value) :
    (fun other => read (Function.update callers thread pc other)) =
      Function.update (fun other => read (callers other)) thread (read pc) := by
  funext other
  by_cases heq : other = thread
  · subst heq
    simp
  · simp [Function.update, heq]

theorem read_update_of_eq {Result : Type*} (read : Pc Value → Result)
    {callers : ℕ → Pc Value} {thread : ℕ} {pc : Pc Value}
    (hsame : read pc = read (callers thread)) (other : ℕ) :
    read (Function.update callers thread pc other) = read (callers other) := by
  by_cases heq : other = thread
  · subst heq
    simpa using hsame
  · simp [Function.update, heq]

theorem Pc.owned_of_drawn {pc : Pc Value} {cell : ℕ × ℕ}
    (hdrawn : pc.view.drawn = some cell) : pc.owned = some cell.2 := by
  cases pc <;> simp [Pc.view, Pc.owned, FreeListView.idle] at hdrawn ⊢ <;>
    simp [← hdrawn]

/-! ## Histories -/

namespace Records

variable {whole part : List (Record Value)} {inFlight : ℕ → List Value}

theorem perm (hrecords : Records whole part inFlight)
    (hidle : ∀ thread, inFlight thread = []) : whole.Perm part := by
  let _ : DecidableEq (Record Value) := Classical.decEq _
  rw [List.perm_iff_count]
  intro record
  have hcount := congrArg (List.count record) (hrecords record.1)
  rwa [hidle, List.map_nil, List.append_nil, List.count_filter (by simp),
    List.count_filter (by simp)] at hcount

theorem le (hrecords : Records whole part inFlight) :
    (part : Multiset (Record Value)) ≤ (whole : Multiset (Record Value)) := by
  let _ : DecidableEq (Record Value) := Classical.decEq _
  rw [Multiset.le_iff_count]
  intro record
  have hcount := congrArg (List.count record) (hrecords record.1)
  rw [List.count_append, List.count_filter (by simp),
    List.count_filter (by simp)] at hcount
  simp only [Multiset.coe_count]
  omega

variable {read : Pc Value → List Value} {callers : ℕ → Pc Value}
  {thread : ℕ} {pc : Pc Value}

theorem keep
    (hrecords : Records whole part fun other => read (callers other))
    (hsame : read pc = read (callers thread)) :
    Records whole part
      fun other => read (Function.update callers thread pc other) := by
  intro other
  simp only
  rw [read_update_of_eq read hsame other]
  exact hrecords other

/-- A call takes effect. -/
theorem takeEffect {data : Value}
    (hrecords : Records whole part fun other => read (callers other))
    (hbefore : read (callers thread) = []) (hafter : read pc = [data]) :
    Records (whole ++ [(thread, data)]) part
      fun other => read (Function.update callers thread pc other) := by
  intro other
  have hold := hrecords other
  simp only at hold ⊢
  rw [List.filter_append, hold]
  by_cases heq : other = thread
  · subst heq
    simp [hbefore, hafter]
  · simp [Function.update, heq, Ne.symm heq]

/-- A call that has taken effect returns. -/
theorem giveBack {data : Value}
    (hrecords : Records whole part fun other => read (callers other))
    (hbefore : read (callers thread) = [data]) (hafter : read pc = []) :
    Records whole (part ++ [(thread, data)])
      fun other => read (Function.update callers thread pc other) := by
  intro other
  have hold := hrecords other
  simp only at hold ⊢
  rw [List.filter_append, hold]
  by_cases heq : other = thread
  · subst heq
    simp [hbefore, hafter]
  · simp [Function.update, heq, Ne.symm heq]

end Records

theorem State.Invariant.delivers {capacity : ℕ}
    {rest lag free : List (ℕ × ℕ)} {place : ℕ → Place} {state : State Value}
    (hinv : state.Invariant capacity rest lag free place) :
    state.Delivers := by
  have htaken : (state.popped : Multiset (Record Value)) ≤
      (state.taken : Multiset (Record Value)) :=
    hinv.pops.le
  have htakenValues : (state.popped.map Prod.snd : Multiset Value) ≤
      (state.taken.map Prod.snd : Multiset Value) := by
    simpa using Multiset.map_le_map htaken
  constructor
  · intro thread
    rw [hinv.pushes thread]
    exact List.prefix_append _ _
  · rw [hinv.stored]
    exact List.prefix_append _ _
  · rw [hinv.stored, ← Multiset.coe_add]
    exact htakenValues.trans (Multiset.le_add_right _ _)
  · intro hidle
    refine ⟨rest, hinv.queue.linked, ?_⟩
    have hpushed : state.linked.Perm state.pushed :=
      hinv.pushes.perm (by simp [hidle, Pc.linking])
    have hpopped : state.taken.Perm state.popped :=
      hinv.pops.perm (by simp [hidle, Pc.releasing])
    calc
      (state.pushed.map Prod.snd : Multiset Value) =
          (state.linked.map Prod.snd : Multiset Value) :=
        Multiset.coe_eq_coe.mpr (hpushed.symm.map Prod.snd)
      _ = (state.taken.map Prod.snd : Multiset Value) +
          (rest.map fun cell => state.data cell.2 : Multiset Value) := by
        rw [hinv.stored, Multiset.coe_add]
      _ = (state.popped.map Prod.snd : Multiset Value) +
          (rest.map fun cell => state.data cell.2 : Multiset Value) := by
        rw [Multiset.coe_eq_coe.mpr (hpopped.map Prod.snd)]

/-! ## Places -/

@[simp] theorem located_queued (queued unused : List ℕ)
    (callers : ℕ → Pc Value) (node : ℕ) :
    Located queued unused callers .queued node ↔ node ∈ queued := Iff.rfl

@[simp] theorem located_unused (queued unused : List ℕ)
    (callers : ℕ → Pc Value) (node : ℕ) :
    Located queued unused callers .unused node ↔ node ∈ unused := Iff.rfl

@[simp] theorem located_owned_update (queued unused : List ℕ)
    (callers : ℕ → Pc Value) (thread other node : ℕ) (pc : Pc Value) :
    Located queued unused (Function.update callers thread pc)
        (.owned other) node ↔
      if other = thread then pc.owned = some node
      else (callers other).owned = some node := by
  by_cases heq : other = thread
  · subst heq
    simp [Located]
  · simp [Located, Function.update, heq]

theorem located_stay {capacity : ℕ} {queued unused : List ℕ}
    {callers : ℕ → Pc Value} {place : ℕ → Place}
    (hlocated : Placed (· < capacity) (Located queued unused callers) place)
    {thread : ℕ} {pc : Pc Value}
    (howned : pc.owned = (callers thread).owned) :
    Placed (· < capacity)
      (Located queued unused (Function.update callers thread pc)) place := by
  apply hlocated.congr
  intro node spot
  cases spot with
  | queued => exact Iff.rfl
  | unused => exact Iff.rfl
  | owned other =>
      rw [located_owned_update]
      split
      next heq => rw [howned, heq]; rfl
      next => rfl

theorem located_acquire {capacity : ℕ}
    {queued unused queued' unused' : List ℕ} {callers : ℕ → Pc Value}
    {place : ℕ → Place}
    (hlocated : Placed (· < capacity) (Located queued unused callers) place)
    {thread node : ℕ} {pc : Pc Value} {source : Place}
    (hsource : Located queued unused callers source node)
    (hlist : source = .queued ∨ source = .unused)
    (hqueued : ∀ item, item ∈ queued' ↔
      item ∈ queued ∧ ¬ (source = .queued ∧ item = node))
    (hunused : ∀ item, item ∈ unused' ↔
      item ∈ unused ∧ ¬ (source = .unused ∧ item = node))
    (hbefore : (callers thread).owned = none)
    (hafter : pc.owned = some node) :
    Placed (· < capacity)
      (Located queued' unused' (Function.update callers thread pc))
      (Function.update place node (.owned thread)) := by
  apply hlocated.move source hsource
  · intro spot
    cases spot with
    | queued => rcases hlist with rfl | rfl <;> simp [hqueued]
    | unused => rcases hlist with rfl | rfl <;> simp [hunused]
    | owned other =>
        rw [located_owned_update]
        by_cases heq : other = thread
        · simp [heq, hafter]
        · rcases hlist with rfl | rfl <;> simp [heq, Located]
  · intro item spot hne
    cases spot with
    | queued => simp [hqueued, hne]
    | unused => simp [hunused, hne]
    | owned other =>
        rw [located_owned_update]
        by_cases heq : other = thread
        · simp [heq, hafter, Located, hbefore, Ne.symm hne]
        · simp [heq, Located]

theorem located_giveUp {capacity : ℕ}
    {queued unused queued' unused' : List ℕ} {callers : ℕ → Pc Value}
    {place : ℕ → Place}
    (hlocated : Placed (· < capacity) (Located queued unused callers) place)
    {thread node : ℕ} {pc : Pc Value} {target : Place}
    (hlist : target = .queued ∨ target = .unused)
    (hqueued : ∀ item, item ∈ queued' ↔
      item ∈ queued ∨ (target = .queued ∧ item = node))
    (hunused : ∀ item, item ∈ unused' ↔
      item ∈ unused ∨ (target = .unused ∧ item = node))
    (hbefore : (callers thread).owned = some node)
    (hafter : pc.owned = none) :
    Placed (· < capacity)
      (Located queued' unused' (Function.update callers thread pc))
      (Function.update place node target) := by
  apply hlocated.move (.owned thread) hbefore
  · intro spot
    cases spot with
    | queued => rcases hlist with rfl | rfl <;> simp [hqueued]
    | unused => rcases hlist with rfl | rfl <;> simp [hunused]
    | owned other =>
        rw [located_owned_update]
        by_cases heq : other = thread
        · rcases hlist with rfl | rfl <;> simp [heq, hafter]
        · rcases hlist with rfl | rfl <;> simp [heq, Located]
  · intro item spot hne
    cases spot with
    | queued => simp [hqueued, hne]
    | unused => simp [hunused, hne]
    | owned other =>
        rw [located_owned_update]
        by_cases heq : other = thread
        · simp [heq, hafter, Located, hbefore, Ne.symm hne]
        · simp [heq, Located]

/-! ## Frames -/

/-- A change of shared memory does not disturb a thread if it keeps the node
the thread owns and keeps what the thread reads through current snapshots. -/
theorem State.Sound.frame {state state' : State Value} {pc : Pc Value}
    (hsound : state.Sound pc)
    (hown : ∀ node, pc.owned = some node →
      state'.data node = state.data node ∧ state'.next node = state.next node)
    (htail : ∀ cell, pc.tickets.tailSeen = some cell → state'.inPtr = cell →
      state.inPtr = cell ∧ ∀ after, state.next cell.2 = some after →
        state'.next cell.2 = some after)
    (hout : ∀ cell, pc.tickets.outSeen = some cell → state'.outPtr = cell →
      state.outPtr = cell ∧
        (∀ after, state.next cell.2 = some after →
          state'.next cell.2 = some after ∧
            state'.data after.2 = state.data after.2) ∧
        (state.inPtr ≠ cell → state'.inPtr ≠ cell)) :
    state'.Sound pc := by
  cases pc with
  | pushClearNext data node =>
      obtain ⟨hdata, -⟩ := hown node rfl
      simpa [State.Sound, hdata] using hsound
  | pushDrawId data node =>
      obtain ⟨hdata, hnext⟩ := hown node rfl
      simpa [State.Sound, hdata, hnext] using hsound
  | pushReadIn data node id =>
      obtain ⟨hdata, hnext⟩ := hown node rfl
      simpa [State.Sound, hdata, hnext] using hsound
  | pushReadNext data node id tail =>
      obtain ⟨hdata, hnext⟩ := hown node rfl
      simpa [State.Sound, hdata, hnext] using hsound
  | pushHelp data node id tail after =>
      obtain ⟨hdata, hnext⟩ := hown node rfl
      refine ⟨by simpa [hdata, hnext] using hsound.1, fun hcurrent => ?_⟩
      obtain ⟨hold, hkeep⟩ := htail tail rfl hcurrent
      exact hkeep after (hsound.2 hold)
  | pushLink data node id tail =>
      obtain ⟨hdata, hnext⟩ := hown node rfl
      simpa [State.Sound, hdata, hnext] using hsound
  | pushSwing data node id tail =>
      intro hcurrent
      obtain ⟨hold, hkeep⟩ := htail tail rfl hcurrent
      exact hkeep (id, node) (hsound hold)
  | popReadNext out tail =>
      intro hcurrent hne
      obtain ⟨hold, -, hkeep⟩ := hout out rfl hcurrent
      exact hkeep (hsound hold hne)
  | popHelp tail after =>
      intro hcurrent
      obtain ⟨hold, hkeep⟩ := htail tail rfl hcurrent
      exact hkeep after (hsound hold)
  | popReadData out after =>
      intro hcurrent
      obtain ⟨hold, hread, hkeep⟩ := hout out rfl hcurrent
      obtain ⟨hnext, hne⟩ := hsound hold
      exact ⟨(hread after hnext).1, hkeep hne⟩
  | popCas out after data =>
      intro hcurrent
      obtain ⟨hold, hread, hkeep⟩ := hout out rfl hcurrent
      obtain ⟨⟨hnext, hne⟩, hdata⟩ := hsound hold
      exact ⟨⟨(hread after hnext).1, hkeep hne⟩,
        (hread after hnext).2.trans hdata⟩
  | releaseCas data node id oldHead =>
      obtain ⟨-, hnext⟩ := hown node rfl
      simpa [State.Sound, hnext] using hsound
  | _ => trivial

theorem State.Sound.keep {state state' : State Value} {pc : Pc Value}
    (hsound : state.Sound pc) (hnext : state'.next = state.next)
    (hdata : state'.data = state.data) (hin : state'.inPtr = state.inPtr)
    (hout : state'.outPtr = state.outPtr) : state'.Sound pc := by
  apply hsound.frame
  · intro node _
    rw [hnext, hdata]
    exact ⟨rfl, rfl⟩
  · intro cell _ hcurrent
    rw [hnext, ← hin]
    exact ⟨hcurrent, fun _ hold => hold⟩
  · intro cell _ hcurrent
    rw [hnext, hdata, hin, ← hout]
    exact ⟨hcurrent, fun _ hold => ⟨hold, rfl⟩, fun hne => hne⟩

namespace State.Invariant

variable {capacity : ℕ} {rest lag free : List (ℕ × ℕ)} {place : ℕ → Place}
  {state : State Value}

theorem owner_unique (hinv : state.Invariant capacity rest lag free place)
    {first second node : ℕ}
    (hfirst : (state.callers first).owned = some node)
    (hsecond : (state.callers second).owned = some node) :
    first = second := by
  have hplaces := hinv.located.unique
    (show Located _ _ _ (.owned first) node from hfirst)
    (show Located _ _ _ (.owned second) node from hsecond)
  simpa using hplaces

theorem owned_not_queued
    (hinv : state.Invariant capacity rest lag free place)
    {thread node : ℕ} (howned : (state.callers thread).owned = some node) :
    node ∉ (state.outPtr :: rest).map Prod.snd := by
  intro hmem
  cases hinv.located.unique
    (show Located _ (free.map Prod.snd) state.callers .queued node from hmem)
    (show Located _ _ _ (.owned thread) node from howned)

theorem owned_not_unused
    (hinv : state.Invariant capacity rest lag free place)
    {thread node : ℕ} (howned : (state.callers thread).owned = some node) :
    node ∉ free.map Prod.snd := by
  intro hmem
  cases hinv.located.unique
    (show Located ((state.outPtr :: rest).map Prod.snd) _ state.callers
      .unused node from hmem)
    (show Located _ _ _ (.owned thread) node from howned)

theorem queued_not_unused
    (hinv : state.Invariant capacity rest lag free place) {node : ℕ}
    (hqueued : node ∈ (state.outPtr :: rest).map Prod.snd) :
    node ∉ free.map Prod.snd := by
  intro hmem
  cases hinv.located.unique
    (show Located _ (free.map Prod.snd) state.callers .queued node
      from hqueued)
    (show Located _ (free.map Prod.snd) _ .unused node from hmem)

theorem out_queued (state : State Value) (rest : List (ℕ × ℕ)) :
    state.outPtr.2 ∈ (state.outPtr :: rest).map Prod.snd := by
  simp

theorem in_queued (hinv : state.Invariant capacity rest lag free place) :
    state.inPtr.2 ∈ (state.outPtr :: rest).map Prod.snd :=
  List.mem_map.mpr ⟨state.inPtr, hinv.queue.tail_mem, rfl⟩

/-! ## Steps that change no shared memory but counters -/

/-- A step that only moves the program counter. -/
theorem goto (hinv : state.Invariant capacity rest lag free place)
    {thread : ℕ} {pc : Pc Value}
    (hqueue : QueueInvariant state.next state.outPtr state.inPtr state.id
      (Function.update (fun other => (state.callers other).tickets) thread
        pc.tickets) rest lag)
    (htags : FreeListInvariant False (capacity - 1, capacity - 1) state.next
      state.head state.id2
      (Function.update (fun other => (state.callers other).view) thread
        pc.view) free)
    (howned : pc.owned = (state.callers thread).owned)
    (hsound : state.Sound pc)
    (hlinking : pc.linking = (state.callers thread).linking)
    (hreleasing : pc.releasing = (state.callers thread).releasing) :
    (state.goto thread pc).Invariant capacity rest lag free place := by
  constructor
  · simpa only [State.goto, comp_update_callers] using hqueue
  · simpa only [State.goto, comp_update_callers] using htags
  · exact located_stay hinv.located howned
  · exact (Function.forall_update_iff state.callers
      fun _ caller => state.Sound caller).mpr
        ⟨hsound, fun other _ => hinv.sound other⟩
  · exact hinv.stored
  · exact hinv.pushes.keep hlinking
  · exact hinv.pops.keep hreleasing

theorem pushDrawId (hinv : state.Invariant capacity rest lag free place)
    {thread node : ℕ} {data : Value}
    (hpc : state.callers thread = .pushDrawId data node)
    (hwrap : state.id + 1 < 2 ^ 64) :
    ({ state with id := atomicIncrement state.id }.goto thread
      (.pushReadIn data node state.id)).Invariant capacity rest lag free
        place := by
  have hsound := hinv.sound thread
  rw [hpc] at hsound
  constructor
  · simp only [State.goto, comp_update_callers, atomicIncrement_of_lt hwrap]
    exact hinv.queue.draw thread node
  · simpa only [State.goto, comp_update_callers] using
      hinv.tags.keep thread (Pc.pushReadIn data node state.id).view
        (by simp [hpc, Pc.view])
  · exact located_stay hinv.located (by simp [hpc, Pc.owned])
  · refine (Function.forall_update_iff state.callers
      fun _ caller => State.Sound _ caller).mpr ⟨hsound, ?_⟩
    intro other _
    exact (hinv.sound other).keep rfl rfl rfl rfl
  · exact hinv.stored
  · exact hinv.pushes.keep (by simp [hpc, Pc.linking])
  · exact hinv.pops.keep (by simp [hpc, Pc.releasing])

theorem releaseDrawId (hinv : state.Invariant capacity rest lag free place)
    {thread node : ℕ} {data : Value}
    (hpc : state.callers thread = .releaseDrawId data node)
    (hwrap : state.id2 + 1 < 2 ^ 64)
    (hfresh : (state.id2, node) ≠ (capacity - 1, capacity - 1)) :
    ({ state with id2 := atomicIncrement state.id2 }.goto thread
      (.releaseReadHead data node state.id2)).Invariant capacity rest lag
        free place := by
  have howned : (state.callers thread).owned = some node := by
    simp [hpc, Pc.owned]
  constructor
  · simpa only [State.goto, comp_update_callers] using
      hinv.queue.observe thread
        (Pc.releaseReadHead data node state.id2).tickets
        (by simp [Pc.tickets]) (by simp [Pc.tickets]) (by simp [Pc.tickets])
  · simp only [State.goto, comp_update_callers, atomicIncrement_of_lt hwrap]
    exact hinv.tags.draw thread (hinv.owned_not_unused howned)
      (.inr (hinv.tags.unseen_of_ne_last hfresh))
  · exact located_stay hinv.located (by simp [hpc, Pc.owned])
  · refine (Function.forall_update_iff state.callers
      fun _ caller => State.Sound _ caller).mpr ⟨trivial, ?_⟩
    intro other _
    exact (hinv.sound other).keep rfl rfl rfl rfl
  · exact hinv.stored
  · exact hinv.pushes.keep (by simp [hpc, Pc.linking])
  · exact hinv.pops.keep (by simp [hpc, Pc.releasing])

/-! ## Writes to an owned node -/

/-- The owner of a node overwrites its successor. -/
theorem writeNext (hinv : state.Invariant capacity rest lag free place)
    {thread node : ℕ} {value : DoublePointer} {pc : Pc Value}
    (howner : (state.callers thread).owned = some node)
    (howned : pc.owned = some node)
    (htickets : pc.tickets = (state.callers thread).tickets)
    (hview : pc.view = (state.callers thread).view)
    (hsound : ({ state with
      next := Function.update state.next node value }).Sound pc)
    (hlinking : pc.linking = (state.callers thread).linking)
    (hreleasing : pc.releasing = (state.callers thread).releasing) :
    ({ state with
      next := Function.update state.next node value }.goto thread
        pc).Invariant capacity rest lag free place := by
  have hnotQueued := hinv.owned_not_queued howner
  have hkeep : ∀ cell : ℕ × ℕ, cell.2 ∈ (state.outPtr :: rest).map Prod.snd →
      Function.update state.next node value cell.2 = state.next cell.2 := by
    intro cell hcell
    have hne : cell.2 ≠ node := fun heq => hnotQueued (heq ▸ hcell)
    simp [Function.update, hne]
  constructor
  · have hqueue := hinv.queue.write hnotQueued value
    simp only [State.goto, comp_update_callers]
    rw [htickets, Function.update_eq_self]
    exact hqueue
  · have htags := hinv.tags.write (hinv.owned_not_unused howner) value
      (fun hfalse => hfalse.elim)
    simp only [State.goto, comp_update_callers]
    rw [hview, Function.update_eq_self]
    exact htags
  · exact located_stay hinv.located (howned.trans howner.symm)
  · refine (Function.forall_update_iff state.callers
      fun _ caller => State.Sound _ caller).mpr ⟨hsound, ?_⟩
    intro other hother
    refine (hinv.sound other).frame ?_ ?_ ?_
    · intro kept hkept
      have hne : kept ≠ node := by
        intro heq
        subst heq
        exact hother (hinv.owner_unique hkept howner)
      exact ⟨rfl, by simp [State.goto, Function.update, hne]⟩
    · intro cell _ hcurrent
      have hcell : state.inPtr = cell := hcurrent
      refine ⟨hcell, fun after hnext => ?_⟩
      rw [← hcell] at hnext ⊢
      exact (hkeep state.inPtr hinv.in_queued).trans hnext
    · intro cell _ hcurrent
      have hcell : state.outPtr = cell := hcurrent
      refine ⟨hcell, fun after hnext => ⟨?_, rfl⟩, fun hne => hne⟩
      rw [← hcell] at hnext ⊢
      exact (hkeep state.outPtr (out_queued state rest)).trans hnext
  · exact hinv.stored
  · exact hinv.pushes.keep hlinking
  · exact hinv.pops.keep hreleasing

theorem pushWriteData (hinv : state.Invariant capacity rest lag free place)
    {thread node : ℕ} {data : Value}
    (hpc : state.callers thread = .pushWriteData data node) :
    ({ state with
      data := Function.update state.data node data }.goto thread
        (.pushClearNext data node)).Invariant capacity rest lag free
          place := by
  have howner : (state.callers thread).owned = some node := by
    simp [hpc, Pc.owned]
  have hnotQueued := hinv.owned_not_queued howner
  have hkeep : ∀ cell ∈ rest,
      Function.update state.data node data cell.2 = state.data cell.2 := by
    intro cell hcell
    have hne : cell.2 ≠ node := by
      intro heq
      apply hnotQueued
      rw [← heq, List.map_cons]
      exact List.mem_cons_of_mem _ (List.mem_map.mpr ⟨cell, hcell, rfl⟩)
    simp [Function.update, hne]
  constructor
  · simpa only [State.goto, comp_update_callers] using
      hinv.queue.observe thread (Pc.pushClearNext data node).tickets
        (by simp [Pc.tickets]) (by simp [Pc.tickets]) (by simp [Pc.tickets])
  · simpa only [State.goto, comp_update_callers] using
      hinv.tags.keep thread (Pc.pushClearNext data node).view
        (by simp [hpc, Pc.view])
  · exact located_stay hinv.located (by simp [hpc, Pc.owned])
  · refine (Function.forall_update_iff state.callers
      fun _ caller => State.Sound _ caller).mpr ⟨?_, ?_⟩
    · exact Function.update_self ..
    · intro other hother
      refine (hinv.sound other).frame ?_ ?_ ?_
      · intro kept hkept
        have hne : kept ≠ node := by
          intro heq
          subst heq
          exact hother (hinv.owner_unique hkept howner)
        exact ⟨by simp [State.goto, Function.update, hne], rfl⟩
      · exact fun _ _ hcurrent => ⟨hcurrent, fun _ hnext => hnext⟩
      · intro cell _ hcurrent
        have hcell : state.outPtr = cell := hcurrent
        refine ⟨hcell, fun after hnext => ⟨hnext, ?_⟩, fun hne => hne⟩
        rw [← hcell] at hnext
        obtain ⟨others, hrest⟩ := hinv.queue.rest_of_next hnext
        exact hkeep after (by rw [hrest]; simp)
  · have hvalues : (rest.map fun cell =>
        Function.update state.data node data cell.2) =
        rest.map fun cell => state.data cell.2 :=
      List.map_congr_left hkeep
    simp only [State.goto]
    rw [hvalues]
    exact hinv.stored
  · exact hinv.pushes.keep (by simp [hpc, Pc.linking])
  · exact hinv.pops.keep (by simp [hpc, Pc.releasing])

/-! ## Compare-and-swaps that succeed -/

theorem allocCas (hinv : state.Invariant capacity rest lag free place)
    {thread : ℕ} {data : Value} {oldHead : ℕ × ℕ} {tmp : DoublePointer}
    (hpc : state.callers thread = .allocCas data oldHead tmp)
    (hhead : state.head = some oldHead) :
    ∃ free' place', ({ state with head := tmp }.goto thread
      (.allocClearNext data oldHead.2)).Invariant capacity rest lag free'
        place' := by
  obtain ⟨free', hfree, htags⟩ := hinv.tags.pop
    (show (state.callers thread).view.seen = some oldHead by
      simp [hpc, Pc.view])
    (show (state.callers thread).view.link = some tmp by simp [hpc, Pc.view])
    hhead
  have hnodup := hinv.tags.nodup
  rw [hfree, List.map_cons, List.nodup_cons] at hnodup
  refine ⟨free', Function.update place oldHead.2 (.owned thread), ?_⟩
  constructor
  · simp only [State.goto, comp_update_callers]
    apply hinv.queue.observe <;> simp [Pc.tickets]
  · simp only [State.goto, comp_update_callers]
    exact htags
  · apply located_acquire hinv.located
      (show Located _ _ _ .unused oldHead.2 by simp [hfree])
      (.inr rfl)
    · simp [State.goto]
    · intro item
      rw [hfree, List.map_cons, List.mem_cons]
      constructor
      · intro hmem
        exact ⟨.inr hmem, fun heq => hnodup.1 (heq.2 ▸ hmem)⟩
      · rintro ⟨heq | hmem, hne⟩
        · exact absurd ⟨rfl, heq⟩ hne
        · exact hmem
    · simp [hpc, Pc.owned]
    · simp [Pc.owned]
  · refine (Function.forall_update_iff state.callers
      fun _ caller => State.Sound _ caller).mpr ⟨trivial, ?_⟩
    intro other _
    exact (hinv.sound other).keep rfl rfl rfl rfl
  · exact hinv.stored
  · exact hinv.pushes.keep (by simp [hpc, Pc.linking])
  · exact hinv.pops.keep (by simp [hpc, Pc.releasing])

theorem releaseCas (hinv : state.Invariant capacity rest lag free place)
    {thread node id : ℕ} {data : Value} {oldHead : DoublePointer}
    (hpc : state.callers thread = .releaseCas data node id oldHead)
    (hhead : state.head = oldHead) :
    ({ state with
      head := setDoublePointer id node
      popped := state.popped ++ [(thread, data)] }.goto thread
        .idle).Invariant capacity rest lag ((id, node) :: free)
          (Function.update place node .unused) := by
  have howned : (state.callers thread).owned = some node := by
    simp [hpc, Pc.owned]
  have hnext : state.next node = oldHead := by
    have hsound := hinv.sound thread
    rw [hpc] at hsound
    exact hsound
  constructor
  · simp only [State.goto, comp_update_callers]
    apply hinv.queue.observe <;> simp [Pc.tickets]
  · simp only [State.goto, comp_update_callers]
    have hdrawn : (state.callers thread).view.drawn = some (id, node) := by
      simp [hpc, Pc.view]
    apply hinv.tags.push hdrawn
    · rw [hnext, hhead]
    · intro other drawn hother hdrawn heq
      have hdrawnOwned := Pc.owned_of_drawn hdrawn
      rw [heq] at hdrawnOwned
      exact hother (hinv.owner_unique hdrawnOwned howned)
  · apply located_giveUp hinv.located (.inr rfl) _ _ howned
    · simp [Pc.owned]
    · simp [State.goto]
    · intro item
      simp [or_comm]
  · refine (Function.forall_update_iff state.callers
      fun _ caller => State.Sound _ caller).mpr ⟨trivial, ?_⟩
    intro other _
    exact (hinv.sound other).keep rfl rfl rfl rfl
  · exact hinv.stored
  · exact hinv.pushes.keep (by simp [hpc, Pc.linking])
  · exact hinv.pops.giveBack (by simp [hpc, Pc.releasing])
      (by simp [Pc.releasing])

theorem popCas (hinv : state.Invariant capacity rest lag free place)
    {thread : ℕ} {data : Value} {out after : ℕ × ℕ}
    (hpc : state.callers thread = .popCas out after data)
    (hcurrent : state.outPtr = out) :
    ∃ rest' place', ({ state with
      outPtr := after
      taken := state.taken ++ [(thread, data)] }.goto thread
        (.releaseDrawId data out.2)).Invariant capacity rest' lag free
          place' := by
  have hsound := hinv.sound thread
  rw [hpc] at hsound
  obtain ⟨⟨hnext, hbehind⟩, hdata⟩ := hsound hcurrent
  rw [← hcurrent] at hnext hbehind
  obtain ⟨others, hrest, hqueue⟩ := hinv.queue.remove hnext hbehind
  have hnodup := hinv.queue.nodup
  rw [hrest, List.map_cons, List.nodup_cons] at hnodup
  refine ⟨others, Function.update place out.2 (.owned thread), ?_⟩
  constructor
  · simp only [State.goto, comp_update_callers]
    apply hqueue.observe <;> simp [Pc.tickets]
  · simp only [State.goto, comp_update_callers]
    exact hinv.tags.keep thread _ (by simp [hpc, Pc.view])
  · apply located_acquire hinv.located
      (show Located _ _ _ .queued out.2 by simp [hcurrent])
      (.inl rfl)
    · intro item
      have hcons : item ∈ (state.outPtr :: rest).map Prod.snd ↔
          item = out.2 ∨ item ∈ (after :: others).map Prod.snd := by
        rw [hrest, hcurrent, List.map_cons, List.mem_cons]
      rw [hcons]
      constructor
      · intro hmem
        refine ⟨.inr hmem, fun heq => hnodup.1 ?_⟩
        rw [hcurrent, ← heq.2]
        exact hmem
      · rintro ⟨heq | hmem, hne⟩
        · exact absurd ⟨rfl, heq⟩ hne
        · exact hmem
    · simp
    · simp [hpc, Pc.owned]
    · simp [Pc.owned]
  · refine (Function.forall_update_iff state.callers
      fun _ caller => State.Sound _ caller).mpr ⟨trivial, ?_⟩
    intro other _
    apply (hinv.sound other).frame
    · exact fun _ _ => ⟨rfl, rfl⟩
    · exact fun _ _ hsame => ⟨hsame, fun _ hkept => hkept⟩
    · intro cell hseen hsame
      have hcell : after = cell := hsame
      subst hcell
      exact absurd (by rw [hrest]; simp)
        (hinv.queue.outPassed other after hseen)
  · have hstored := hinv.stored
    rw [hrest, List.map_cons, hdata] at hstored
    simp [State.goto, hstored]
  · exact hinv.pushes.keep (by simp [hpc, Pc.linking])
  · exact hinv.pops.takeEffect (by simp [hpc, Pc.releasing])
      (by simp [Pc.releasing])

/-- The node behind which the cell is linked is the one under `in_`. -/
theorem pushLink (hinv : state.Invariant capacity rest lag free place)
    {thread node id : ℕ} {data : Value} {tail : ℕ × ℕ}
    (hpc : state.callers thread = .pushLink data node id tail)
    (hlast : state.next tail.2 = none) (hcurrent : state.inPtr = tail) :
    ({ state with
      next := Function.update state.next tail.2 (setDoublePointer id node)
      linked := state.linked ++ [(thread, data)] }.goto thread
        (.pushSwing data node id tail)).Invariant capacity
          (rest ++ [(id, node)]) [(id, node)] free
            (Function.update place node .queued) := by
  subst hcurrent
  have hsound := hinv.sound thread
  rw [hpc] at hsound
  obtain ⟨hdata, hnull⟩ := hsound
  have howned : (state.callers thread).owned = some node := by
    simp [hpc, Pc.owned]
  have hpending : (state.callers thread).tickets.pending =
      some (id, node) := by
    simp [hpc, Pc.tickets]
  have hfar : ∀ other kept, (state.callers other).owned = some kept →
      kept ≠ state.inPtr.2 := by
    intro other kept hkept heq
    exact hinv.owned_not_queued hkept (heq ▸ hinv.in_queued)
  constructor
  · have hqueue := hinv.queue.append hpending hlast hnull
      (hinv.owned_not_queued howned)
    simp only [State.goto, comp_update_callers]
    simpa only [hpc, Pc.tickets, setDoublePointer] using hqueue
  · have htags := hinv.tags.write (hinv.queued_not_unused hinv.in_queued)
      (setDoublePointer id node) (fun hfalse => hfalse.elim)
    simp only [State.goto, comp_update_callers]
    exact htags.keep thread _ (by simp [hpc, Pc.view])
  · apply located_giveUp hinv.located (.inl rfl) _ _ howned
    · simp [Pc.owned]
    · intro item
      simp [State.goto, or_assoc]
    · simp
  · refine (Function.forall_update_iff state.callers
      fun _ caller => State.Sound _ caller).mpr ⟨?_, ?_⟩
    · intro _
      simp [State.goto, setDoublePointer]
    · intro other _
      apply (hinv.sound other).frame
      · intro kept hkept
        exact ⟨rfl, by
          simp [State.goto, Function.update, hfar other kept hkept]⟩
      · intro cell _ hsame
        have hcell : state.inPtr = cell := hsame
        subst hcell
        exact ⟨rfl, fun after hafter => by simp [hlast] at hafter⟩
      · intro cell _ hsame
        refine ⟨hsame, fun after hafter => ⟨?_, rfl⟩, fun hne => hne⟩
        have hne : cell.2 ≠ state.inPtr.2 := by
          intro heq
          rw [heq, hlast] at hafter
          cases hafter
        simpa [State.goto, Function.update, hne] using hafter
  · simp [State.goto, hinv.stored, hdata]
  · exact hinv.pushes.takeEffect (by simp [hpc, Pc.linking])
      (by simp [Pc.linking])
  · exact hinv.pops.keep (by simp [hpc, Pc.releasing])

/-- `in_` moves to the successor of the node under it. -/
theorem swing (hinv : state.Invariant capacity rest lag free place)
    {after : ℕ × ℕ} (hnext : state.next state.inPtr.2 = some after) :
    ({ state with inPtr := after } : State Value).Invariant capacity rest []
      free place := by
  have hlag := hinv.queue.lag_of_next hnext
  have hlagging : after ∈ lag := by simp [hlag]
  refine { hinv with queue := hinv.queue.swing hnext, sound := ?_ }
  intro other
  apply (hinv.sound other).frame
  · exact fun _ _ => ⟨rfl, rfl⟩
  · intro cell hseen hsame
    have hcell : after = cell := hsame
    subst hcell
    exact absurd hlagging (hinv.queue.tailPassed other after hseen)
  · intro cell _ hsame
    have hcell : state.outPtr = cell := hsame
    refine ⟨hcell, fun _ hkept => ⟨hkept, rfl⟩, fun _ heq => ?_⟩
    have hafter : after = state.outPtr := heq.trans hcell.symm
    exact hinv.queue.out_not_mem
      (hafter ▸ hinv.queue.lag_subset hlagging)

theorem finishPush (hinv : state.Invariant capacity rest lag free place)
    {thread node id : ℕ} {data : Value} {tail : ℕ × ℕ}
    (hpc : state.callers thread = .pushSwing data node id tail) :
    ({ state with pushed := state.pushed ++ [(thread, data)] }.goto thread
      .idle).Invariant capacity rest lag free place := by
  constructor
  · simp only [State.goto, comp_update_callers]
    apply hinv.queue.observe <;> simp [Pc.tickets]
  · simp only [State.goto, comp_update_callers]
    exact hinv.tags.keep thread _ (by simp [hpc, Pc.view])
  · exact located_stay hinv.located (by simp [hpc, Pc.owned])
  · refine (Function.forall_update_iff state.callers
      fun _ caller => State.Sound _ caller).mpr ⟨trivial, ?_⟩
    intro other _
    exact (hinv.sound other).keep rfl rfl rfl rfl
  · exact hinv.stored
  · exact hinv.pushes.giveBack (by simp [hpc, Pc.linking])
      (by simp [Pc.linking])
  · exact hinv.pops.keep (by simp [hpc, Pc.releasing])

/-! ## Whole steps -/

/-- A thread at `before` reads shared memory and moves on to `pc`.  What it
remembers there it has read now or remembered before. -/
structure Looks (state : State Value) (free : List (ℕ × ℕ))
    (before pc : Pc Value) : Prop where
  tail : ∀ cell, pc.tickets.tailSeen = some cell →
    cell = state.inPtr ∨ before.tickets.tailSeen = some cell
  out : ∀ cell, pc.tickets.outSeen = some cell →
    cell = state.outPtr ∨ before.tickets.outSeen = some cell
  pending : ∀ cell, pc.tickets.pending = some cell →
    before.tickets.pending = some cell
  seen : ∀ cell, pc.view.seen = some cell →
    cell ∈ free ∨ before.view.seen = some cell
  link : ∀ cell ref, pc.view.seen = some cell →
    pc.view.link = some ref → ref = state.next cell.2
  drawn : ∀ cell, pc.view.drawn = some cell → before.view.drawn = some cell
  owned : pc.owned = before.owned
  linking : pc.linking = before.linking
  releasing : pc.releasing = before.releasing

theorem look (hinv : state.Invariant capacity rest lag free place)
    {thread : ℕ} {before pc : Pc Value}
    (hpc : state.callers thread = before)
    (hsound : state.Sound pc) (hlooks : Looks state free before pc) :
    ∃ rest' lag' free' place',
      (state.goto thread pc).Invariant capacity rest' lag' free' place' := by
  subst hpc
  have hwhere : ∀ ref, pc.view.link = some ref →
      ∃ node, ref = state.next node := by
    intro ref href
    have hlink := hlooks.link
    cases pc <;> simp [Pc.view, FreeListView.idle] at href hlink
    exact ⟨_, by rw [← href]; exact hlink⟩
  exact ⟨rest, lag, free, place, hinv.goto
    (hinv.queue.observe thread pc.tickets hlooks.tail hlooks.out
      hlooks.pending)
    (hinv.tags.observe thread pc.view hlooks.seen hlooks.link hwhere
      hlooks.drawn)
    hlooks.owned hsound hlooks.linking hlooks.releasing⟩

theorem advance (hinv : state.Invariant capacity rest lag free place)
    {thread : ℕ} (hfresh : StaysFresh capacity state (.advance thread))
    {state' : State Value} (hstep : state.advance thread = some state') :
    ∃ rest' lag' free' place',
      state'.Invariant capacity rest' lag' free' place' := by
  have hsound := hinv.sound thread
  have hfreshAt : state.FreshAt capacity (state.callers thread) := hfresh
  unfold State.advance at hstep
  cases hpc : state.callers thread with
  | idle => simp [hpc] at hstep
  | allocReadHead data =>
      cases hhead : state.head with
      | none =>
          simp only [hpc, hhead, Option.some.injEq] at hstep
          subst hstep
          refine hinv.look hpc trivial ?_
          constructor <;> simp [Pc.tickets, Pc.view, FreeListView.idle,
            Pc.owned, Pc.linking, Pc.releasing]
      | some oldHead =>
          simp only [hpc, hhead, Option.some.injEq] at hstep
          subst hstep
          have hfree : oldHead ∈ free := by
            have hlinked := hinv.tags.linked
            rw [hhead] at hlinked
            cases free with
            | nil => simp at hlinked
            | cons first others => simp_all
          refine hinv.look hpc trivial ?_
          constructor <;> simp [Pc.tickets, Pc.view, FreeListView.idle,
            Pc.owned, Pc.linking, Pc.releasing, hfree]
  | allocReadNext data oldHead =>
      simp only [hpc, Option.some.injEq] at hstep
      subst hstep
      refine hinv.look hpc trivial ?_
      constructor <;> simp [Pc.tickets, Pc.view,
        Pc.owned, Pc.linking, Pc.releasing]
  | allocCas data oldHead tmp =>
      simp only [hpc] at hstep
      split at hstep
      next hhead =>
          obtain rfl := Option.some.inj hstep
          obtain ⟨free', place', hafter⟩ := hinv.allocCas hpc hhead
          exact ⟨rest, lag, free', place', hafter⟩
      next =>
          obtain rfl := Option.some.inj hstep
          refine hinv.look hpc trivial ?_
          constructor <;> simp [Pc.tickets, Pc.view, FreeListView.idle,
            Pc.owned, Pc.linking, Pc.releasing]
  | allocClearNext data node =>
      simp only [hpc, Option.some.injEq] at hstep
      subst hstep
      refine ⟨rest, lag, free, place, hinv.writeNext ?_ rfl ?_ ?_ ?_ ?_ ?_⟩
      all_goals simp [hpc, Pc.tickets, Pc.view, Pc.owned, State.Sound,
        Pc.linking, Pc.releasing]
  | pushWriteData data node =>
      simp only [hpc, Option.some.injEq] at hstep
      subst hstep
      exact ⟨rest, lag, free, place, hinv.pushWriteData hpc⟩
  | pushClearNext data node =>
      rw [hpc] at hsound
      have hdata : state.data node = data := hsound
      simp only [hpc, Option.some.injEq] at hstep
      subst hstep
      refine ⟨rest, lag, free, place, hinv.writeNext ?_ rfl ?_ ?_ ?_ ?_ ?_⟩
      all_goals simp [hpc, Pc.tickets, Pc.view, Pc.owned, State.Sound,
        Pc.linking, Pc.releasing, hdata]
  | pushDrawId data node =>
      simp only [hpc, Option.some.injEq] at hstep
      subst hstep
      rw [hpc] at hfreshAt
      exact ⟨rest, lag, free, place, hinv.pushDrawId hpc hfreshAt⟩
  | pushReadIn data node id =>
      rw [hpc] at hsound
      simp only [hpc, Option.some.injEq] at hstep
      subst hstep
      refine hinv.look hpc hsound ?_
      constructor <;> simp [Pc.tickets, Pc.view, FreeListView.idle, Pc.owned,
        Pc.linking, Pc.releasing]
  | pushReadNext data node id tail =>
      rw [hpc] at hsound
      cases hnext : state.next tail.2 with
      | none =>
          simp only [hpc, hnext, Option.some.injEq] at hstep
          subst hstep
          refine hinv.look hpc hsound ?_
          constructor <;> simp [Pc.tickets, Pc.view, FreeListView.idle,
            Pc.owned, Pc.linking, Pc.releasing]
      | some after =>
          simp only [hpc, hnext, Option.some.injEq] at hstep
          subst hstep
          refine hinv.look hpc (⟨hsound, fun _ => hnext⟩) ?_
          constructor <;> simp [Pc.tickets, Pc.view, FreeListView.idle,
            Pc.owned, Pc.linking, Pc.releasing]
  | pushHelp data node id tail after =>
      rw [hpc] at hsound
      simp only [hpc] at hstep
      split at hstep
      next hcurrent =>
          obtain rfl := Option.some.inj hstep
          subst hcurrent
          refine (hinv.swing (hsound.2 rfl)).look hpc hsound.1 ?_
          constructor <;> simp [Pc.tickets, Pc.view, FreeListView.idle,
            Pc.owned, Pc.linking, Pc.releasing]
      next =>
          obtain rfl := Option.some.inj hstep
          refine hinv.look hpc hsound.1 ?_
          constructor <;> simp [Pc.tickets, Pc.view, FreeListView.idle,
            Pc.owned, Pc.linking, Pc.releasing]
  | pushLink data node id tail =>
      rw [hpc] at hsound
      simp only [hpc] at hstep
      split at hstep
      next hlast =>
          obtain rfl := Option.some.inj hstep
          rw [hpc] at hfreshAt
          exact ⟨_, _, _, _, hinv.pushLink hpc hlast (hfreshAt hlast)⟩
      next =>
          obtain rfl := Option.some.inj hstep
          refine hinv.look hpc hsound ?_
          constructor <;> simp [Pc.tickets, Pc.view, FreeListView.idle,
            Pc.owned, Pc.linking, Pc.releasing]
  | pushSwing data node id tail =>
      rw [hpc] at hsound
      simp only [hpc, Option.some.injEq] at hstep
      subst hstep
      split
      next hcurrent =>
          subst hcurrent
          exact ⟨rest, [], free, place, (hinv.swing (hsound rfl)).finishPush
            (show ({ state with inPtr := (id, node) } : State Value).callers
              thread = _ from hpc)⟩
      next => exact ⟨rest, lag, free, place, hinv.finishPush hpc⟩
  | popReadOut =>
      simp only [hpc, Option.some.injEq] at hstep
      subst hstep
      refine hinv.look hpc trivial ?_
      constructor <;> simp [Pc.tickets, Pc.view, FreeListView.idle,
        Pc.owned, Pc.linking, Pc.releasing]
  | popReadIn out =>
      simp only [hpc, Option.some.injEq] at hstep
      subst hstep
      refine hinv.look hpc (fun _ hne => hne) ?_
      constructor <;> simp [Pc.tickets, Pc.view, FreeListView.idle,
        Pc.owned, Pc.linking, Pc.releasing]
  | popReadNext out tail =>
      rw [hpc] at hsound
      cases hnext : state.next out.2 with
      | none =>
          simp only [hpc, hnext, Option.some.injEq] at hstep
          subst hstep
          refine hinv.look hpc trivial ?_
          constructor <;> simp [Pc.tickets, Pc.view, FreeListView.idle,
            Pc.owned, Pc.linking, Pc.releasing]
      | some after =>
          simp only [hpc, hnext] at hstep
          split at hstep
          next hequal =>
              obtain rfl := Option.some.inj hstep
              subst hequal
              refine hinv.look hpc (fun _ => hnext) ?_
              constructor <;> simp [Pc.tickets, Pc.view, FreeListView.idle,
                Pc.owned, Pc.linking, Pc.releasing]
          next hne =>
              obtain rfl := Option.some.inj hstep
              refine hinv.look hpc (fun hcurrent => ⟨hnext, hsound hcurrent hne⟩) ?_
              constructor <;> simp [Pc.tickets, Pc.view, FreeListView.idle,
                Pc.owned, Pc.linking, Pc.releasing]
  | popHelp tail after =>
      rw [hpc] at hsound
      simp only [hpc] at hstep
      split at hstep
      next hcurrent =>
          obtain rfl := Option.some.inj hstep
          subst hcurrent
          refine (hinv.swing (hsound rfl)).look hpc trivial ?_
          constructor <;> simp [Pc.tickets, Pc.view, FreeListView.idle,
            Pc.owned, Pc.linking, Pc.releasing]
      next =>
          obtain rfl := Option.some.inj hstep
          refine hinv.look hpc trivial ?_
          constructor <;> simp [Pc.tickets, Pc.view, FreeListView.idle,
            Pc.owned, Pc.linking, Pc.releasing]
  | popReadData out after =>
      rw [hpc] at hsound
      simp only [hpc, Option.some.injEq] at hstep
      subst hstep
      refine hinv.look hpc (fun hcurrent => ⟨hsound hcurrent, rfl⟩) ?_
      constructor <;> simp [Pc.tickets, Pc.view, FreeListView.idle, Pc.owned,
        Pc.linking, Pc.releasing]
  | popCas out after data =>
      simp only [hpc] at hstep
      split at hstep
      next hcurrent =>
          obtain rfl := Option.some.inj hstep
          obtain ⟨rest', place', hafter⟩ := hinv.popCas hpc hcurrent
          exact ⟨rest', lag, free, place', hafter⟩
      next =>
          obtain rfl := Option.some.inj hstep
          refine hinv.look hpc trivial ?_
          constructor <;> simp [Pc.tickets, Pc.view, FreeListView.idle,
            Pc.owned, Pc.linking, Pc.releasing]
  | releaseDrawId data node =>
      rw [hpc] at hfreshAt
      obtain ⟨hwrap, hfirst⟩ := hfreshAt
      simp only [hpc, Option.some.injEq] at hstep
      subst hstep
      exact ⟨rest, lag, free, place, hinv.releaseDrawId hpc hwrap hfirst⟩
  | releaseReadHead data node id =>
      simp only [hpc, Option.some.injEq] at hstep
      subst hstep
      refine hinv.look hpc trivial ?_
      constructor <;> simp [Pc.tickets, Pc.view,
        Pc.owned, Pc.linking, Pc.releasing]
  | releaseWriteNext data node id oldHead =>
      simp only [hpc, Option.some.injEq] at hstep
      subst hstep
      refine ⟨rest, lag, free, place, hinv.writeNext ?_ rfl ?_ ?_ ?_ ?_ ?_⟩
      all_goals simp [hpc, Pc.tickets, Pc.view, Pc.owned, State.Sound,
        Pc.linking, Pc.releasing]
  | releaseCas data node id oldHead =>
      simp only [hpc] at hstep
      split at hstep
      next hhead =>
          obtain rfl := Option.some.inj hstep
          exact ⟨_, _, _, _, hinv.releaseCas hpc hhead⟩
      next =>
          obtain rfl := Option.some.inj hstep
          refine hinv.look hpc trivial ?_
          constructor <;> simp [Pc.tickets, Pc.view,
            Pc.owned, Pc.linking, Pc.releasing]

theorem step (hinv : state.Invariant capacity rest lag free place)
    {action : Action Value} (hfresh : StaysFresh capacity state action)
    {state' : State Value} (hstep : state.step action = some state') :
    ∃ rest' lag' free' place',
      state'.Invariant capacity rest' lag' free' place' := by
  cases action with
  | push thread data =>
      cases hpc : state.callers thread <;>
        simp only [State.step, hpc, Option.some.injEq, reduceCtorEq] at hstep
      subst hstep
      refine hinv.look hpc trivial ?_
      constructor <;> simp [Pc.tickets, Pc.view, FreeListView.idle,
        Pc.owned, Pc.linking, Pc.releasing]
  | pop thread =>
      cases hpc : state.callers thread <;>
        simp only [State.step, hpc, Option.some.injEq, reduceCtorEq] at hstep
      subst hstep
      refine hinv.look hpc trivial ?_
      constructor <;> simp [Pc.tickets, Pc.view, FreeListView.idle,
        Pc.owned, Pc.linking, Pc.releasing]
  | advance thread => exact hinv.advance hfresh hstep

end State.Invariant

/-! ## Whole runs -/

theorem construct_linked (capacity : ℕ) (memory : ℕ → Value) :
    Linked (construct capacity memory).next (construct capacity memory).head
      ((List.range' 1 (capacity - 1)).map fun node => (node, node)) := by
  by_cases hone : 0 < capacity - 1
  · have hchain := linked_numbered
      (show (construct capacity memory).next (capacity - 1) = none by
        simp [construct]) 1 hone
      (fun node hnode hlast => by
        simp [construct, hlast, Nat.lt_of_lt_of_le Nat.zero_lt_one hnode,
          setDoublePointer])
    simpa [construct, hone, setDoublePointer] using hchain
  · have hzero : capacity - 1 = 0 := by omega
    simp [construct, hzero]

theorem construct_invariant (capacity : ℕ) (hcapacity : 1 ≤ capacity)
    (memory : ℕ → Value) :
    (construct capacity memory).Invariant capacity [] []
      ((List.range' 1 (capacity - 1)).map fun node => (node, node))
      (fun node => if node = 0 then .queued else .unused) := by
  constructor
  · constructor
    · simp [construct]
    · simp
    · exact ⟨[], by simp [construct]⟩
    · simp
    all_goals simp [construct, Pc.tickets, QueueTickets.Saw]
  · apply FreeListInvariant.start
    · intro thread
      rfl
    · exact construct_linked capacity memory
    · simpa [Function.comp_def] using List.nodup_range'
    · intro cell hcell
      simp only [List.mem_map, List.mem_range'_1] at hcell
      obtain ⟨node, hnode, rfl⟩ := hcell
      by_cases hlast : node = capacity - 1
      · exact .inr (by rw [hlast])
      · exact .inl (by simp only [construct]; omega)
    · exact fun hfalse => hfalse.elim
  · intro node spot
    have hunused : node ∈ List.range' 1 (capacity - 1) ↔
        node < capacity ∧ node ≠ 0 := by
      rw [List.mem_range'_1]
      omega
    cases spot with
    | queued =>
        by_cases hzero : node = 0
        · simp [construct, hzero]
          omega
        · simp [construct, hzero]
    | unused =>
        by_cases hzero : node = 0
        · simp [hzero]
        · simp [Function.comp_def, hunused, hzero]
    | owned thread =>
        by_cases hzero : node = 0
        · simp [Located, construct, Pc.owned, hzero]
        · simp [Located, construct, Pc.owned, hzero]
  · intro thread
    trivial
  · simp [construct]
  · intro thread
    simp [construct, Pc.linking]
  · intro thread
    simp [construct, Pc.releasing]

theorem delivers_of_staysFresh (capacity : ℕ) (hcapacity : 1 ≤ capacity)
    (memory : ℕ → Value) {state : State Value}
    (hreached :
      (machine capacity memory).ReachedBy (StaysFresh capacity) state) :
    state.Delivers := by
  have hinv : ∃ rest lag free place,
      state.Invariant capacity rest lag free place := by
    refine hreached.invariant
      (fun state => ∃ rest lag free place,
        state.Invariant capacity rest lag free place)
      ⟨_, _, _, _, construct_invariant capacity hcapacity memory⟩ ?_
    rintro state action next ⟨rest, lag, free, place, hstate⟩ hfresh hstep
    exact hstate.step hfresh hstep
  obtain ⟨rest, lag, free, place, hstate⟩ := hinv
  exact hstate.delivers

/-- Two pushes overlap, and their values are popped by both threads; in between the node
of the first dummy comes back and carries a third value. -/
def reusedNode : List (Action ℕ) :=
  .push 0 7 :: List.replicate 5 (.advance 0) ++ .push 1 8 :: List.replicate 11 (.advance 1) ++
    List.replicate 6 (.advance 0) ++ .pop 1 :: List.replicate 9 (.advance 1) ++
    .push 0 9 :: List.replicate 11 (.advance 0) ++ .pop 0 :: List.replicate 9 (.advance 0) ++
    .pop 1 :: List.replicate 9 (.advance 1)

theorem delivers_reusedNode :
    ∃ state, (machine 3 fun _ => 0).run reusedNode = some state ∧
      state.outPtr.2 = 0 ∧ state.pushed = [(1, 8), (0, 7), (0, 9)] ∧
      state.popped = [(1, 8), (0, 7), (1, 9)] ∧ state.Delivers := by
  have hreached : ∀ state,
      (machine 3 fun _ => 0).run reusedNode = some state →
        (machine 3 fun _ => 0).ReachedBy (StaysFresh 3) state := by
    intro state hrun
    exact Machine.ReachedBy.runFrom .start (by decide +kernel) hrun
  refine ⟨_, rfl, rfl, rfl, rfl, ?_⟩
  exact delivers_of_staysFresh 3 (by decide) (fun _ => 0) (hreached _ rfl)

end LockFreeList
end BackEndFacility
