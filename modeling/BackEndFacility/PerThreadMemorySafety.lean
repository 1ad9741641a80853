import BackEndFacility.PerThreadMemory
import Mathlib.Data.Finset.Card

/-!
# Safety and reclamation of a per-thread frame

The count of a frame is the length of its list, plus the releases that have
counted and not linked their node yet, less the allocation that has counted
and not unlinked its node yet.  A node the owner has seen at the head stays in
the list with its successor until the owner itself takes it, which is why the
untagged compare-and-swap of `GetFreeBufferFromList` is right.

The value `DoReleaseBuffer` compares with `population_ + 1` is the count
before the release, which never includes the released node.  So `Cleaner` is
never run, not even by the release that completes the list.
-/

namespace BackEndFacility
namespace PerThreadMemory

/-! ## The invariant -/

/-- A release that has counted its node and not linked it yet. -/
def Pc.linking : Pc → Bool
  | .releaseReadHead _ _ _ => true
  | .releaseWriteNext _ _ _ _ => true
  | .releaseCas _ _ _ _ => true
  | _ => false

/-- Code that only the owner of the frame runs. -/
def Pc.ownerOnly : Pc → Bool
  | .allocCheck _ => true
  | .allocCount _ => true
  | .allocReadHead _ => true
  | .allocReadNext _ _ => true
  | .allocCas _ _ _ => true
  | .allocClearNext _ _ => true
  | _ => false

/-- The owner is neither about to take the dummy nor giving it back. -/
def Pc.keepsDummy : Pc → Bool
  | .allocCheck .dummy => false
  | .allocCount .dummy => false
  | .allocReadHead .dummy => false
  | .allocReadNext .dummy _ => false
  | .allocCas .dummy _ _ => false
  | .allocClearNext .dummy _ => false
  | .releaseAssert .freeCurThreadMemory _ => false
  | .releaseCount .freeCurThreadMemory _ => false
  | .releaseReadHead .freeCurThreadMemory _ _ => false
  | .releaseWriteNext .freeCurThreadMemory _ _ _ => false
  | .releaseCas .freeCurThreadMemory _ _ _ => false
  | _ => true

/-- `InitPerThreadList` has not got the dummy yet. -/
def Pc.takesDummy : Pc → Bool
  | .allocCheck .dummy => true
  | .allocCount .dummy => true
  | .allocReadHead .dummy => true
  | .allocReadNext .dummy _ => true
  | .allocCas .dummy _ _ => true
  | .allocClearNext .dummy _ => true
  | _ => false

/-- What one thread may rely on between its own steps. -/
def Pc.Sound (population : ℕ) (nodes : List ℕ) (next : ℕ → Option ℕ) :
    Pc → Prop
  | .allocCheck .dummy => nodes ≠ []
  | .allocCount _ => nodes ≠ []
  | .allocReadHead _ => nodes ≠ []
  | .allocReadNext _ node => node ∈ nodes
  | .allocCas _ node after => node ∈ nodes ∧ after = next node
  | .releaseAssert _ node => next node = none
  | .releaseReadHead _ _ sz => sz ≤ population
  | .releaseWriteNext _ _ sz _ => sz ≤ population
  | .releaseCas _ node sz oldHead => sz ≤ population ∧ next node = oldHead
  | .clean _ => False
  | .aborted => False
  | _ => True

/-- The inductive invariant, with the list, the place of every node and the
set of linking threads made explicit. -/
structure State.Invariant (population : ℕ) (nodes : List ℕ)
    (place : ℕ → Place) (linking : Finset ℕ) (state : State) : Prop where
  chain : Chained state.next state.head nodes
  nodup : nodes.Nodup
  located : Placed (· ≤ population) (Located nodes state) place
  heldOnce : state.outstanding.Nodup
  linkers : ∀ thread,
    thread ∈ linking ↔ (state.callers thread).linking = true
  count : state.nodeNumber = nodes.length + linking.card -
    (if (state.callers 0).counted then 1 else 0)
  owner : ∀ thread, thread ≠ 0 →
    (state.callers thread).ownerOnly = false
  sound : ∀ thread,
    (state.callers thread).Sound population nodes state.next
  held : ∀ node, node ∈ state.outstanding → state.next node = none
  dummyHeld : ∀ node, state.dummyOut = true → state.dummy = some node →
    state.next node = none
  dummy : state.attached = true → (state.callers 0).keepsDummy = true →
    state.dummyOut = true ∧ ∃ node, state.dummy = some node
  untaken : (state.callers 0).takesDummy = true → state.dummyOut = false
  uncleaned : state.cleaned = 0

theorem Pc.owned_of_linking {pc : Pc} (hlinking : pc.linking = true) :
    ∃ node, pc.owned = some node := by
  cases pc <;> simp [Pc.linking] at hlinking <;> exact ⟨_, rfl⟩

theorem invariant_initPerThreadList (population : ℕ) :
    (initPerThreadList population).Invariant population
      (List.range' 0 (population + 1)) (fun _ => .listed) ∅ := by
  have hpc : ∀ thread, (initPerThreadList population).callers thread =
      .allocCheck .dummy ∧ thread = 0 ∨
        (initPerThreadList population).callers thread = .idle := by
    intro thread
    by_cases heq : thread = 0
    · simp [initPerThreadList, heq]
    · simp [initPerThreadList, heq]
  refine ⟨?_, List.nodup_range', ?_, List.nodup_nil, ?_, ?_, ?_, ?_, nofun,
    nofun, nofun, fun _ => rfl, rfl⟩
  · refine chained_range (if_neg (lt_irrefl _)) 0 (Nat.zero_le _) ?_
    intro node _ hlt
    exact if_pos hlt
  · intro node spot
    cases spot with
    | listed => simp [Located]
    | outstanding => simp [Located, initPerThreadList]
    | dummy => simp [Located, initPerThreadList]
    | owned thread =>
        rcases hpc thread with ⟨heq, -⟩ | heq <;>
          simp [Located, heq, Pc.owned]
  · intro thread
    rcases hpc thread with ⟨heq, -⟩ | heq <;> simp [heq, Pc.linking]
  · simp [initPerThreadList, Pc.counted]
  · intro thread hne
    rcases hpc thread with ⟨-, heq⟩ | heq
    · exact absurd heq hne
    · simp [heq, Pc.ownerOnly]
  · intro thread
    rcases hpc thread with ⟨heq, -⟩ | heq <;> simp [heq, Pc.Sound]

namespace State.Invariant

variable {population : ℕ} {nodes : List ℕ} {place : ℕ → Place}
  {linking : Finset ℕ} {state : State}

theorem owned_not_listed
    (hinv : state.Invariant population nodes place linking) {thread node : ℕ}
    (howned : (state.callers thread).owned = some node) : node ∉ nodes := by
  intro hmem
  cases hinv.located.unique (show Located nodes state .listed node from hmem)
    (show Located nodes state (.owned thread) node from howned)

theorem owner_unique
    (hinv : state.Invariant population nodes place linking)
    {first second node : ℕ}
    (hfirst : (state.callers first).owned = some node)
    (hsecond : (state.callers second).owned = some node) :
    first = second := by
  have hplaces := hinv.located.unique
    (show Located nodes state (.owned first) node from hfirst)
    (show Located nodes state (.owned second) node from hsecond)
  simpa using hplaces

/-- Nodes in the list and nodes in the hands of calls are different nodes. -/
theorem length_add_card_le
    (hinv : state.Invariant population nodes place linking)
    (threads : Finset ℕ)
    (howned : ∀ thread ∈ threads,
      ∃ node, (state.callers thread).owned = some node) :
    nodes.length + threads.card ≤ population + 1 := by
  let node := fun thread => ((state.callers thread).owned).getD 0
  have hnode : ∀ thread ∈ threads,
      (state.callers thread).owned = some (node thread) := by
    intro thread hthread
    obtain ⟨mine, hmine⟩ := howned thread hthread
    simp [node, hmine]
  have hinjective : Set.InjOn node threads := by
    intro first hfirst second hsecond heq
    have hsame := hnode second hsecond
    rw [← heq] at hsame
    exact hinv.owner_unique (hnode first hfirst) hsame
  have hdisjoint : Disjoint nodes.toFinset (threads.image node) := by
    rw [Finset.disjoint_left]
    intro item hitem hmem
    obtain ⟨thread, hthread, rfl⟩ := Finset.mem_image.mp hmem
    exact hinv.owned_not_listed (hnode thread hthread)
      (List.mem_toFinset.mp hitem)
  have hsubset : nodes.toFinset ∪ threads.image node ⊆
      Finset.range (population + 1) := by
    intro item hitem
    rw [Finset.mem_range]
    rcases Finset.mem_union.mp hitem with hlisted | hmem
    · have := hinv.located.valid
        (show Located nodes state .listed item from
          List.mem_toFinset.mp hlisted)
      omega
    · obtain ⟨thread, hthread, rfl⟩ := Finset.mem_image.mp hmem
      have := hinv.located.valid
        (show Located nodes state (.owned thread) (node thread) from
          hnode thread hthread)
      omega
  have hcard := Finset.card_le_card hsubset
  rw [Finset.card_union_of_disjoint hdisjoint,
    List.toFinset_card_of_nodup hinv.nodup,
    Finset.card_image_of_injOn hinjective, Finset.card_range] at hcard
  exact hcard

theorem safe (hinv : state.Invariant population nodes place linking) :
    state.Safe population := by
  refine ⟨⟨nodes, hinv.chain, hinv.nodup, ?_, ?_, ?_⟩, hinv.heldOnce, ?_⟩
  · intro node hnode
    exact hinv.located.valid (show Located nodes state .listed node from hnode)
  · intro node hnode
    exact hinv.located.existsUnique hnode
  · have hcount := hinv.count
    omega
  · intro thread habort
    have hsound := hinv.sound thread
    rw [habort] at hsound
    exact hsound

end State.Invariant

/-! ## Nodes move from place to place -/

@[simp] theorem located_owned_goto (nodes : List ℕ) (state : State)
    (thread other node : ℕ) (pc : Pc) :
    Located nodes (state.goto thread pc) (.owned other) node ↔
      if other = thread then pc.owned = some node
      else (state.callers other).owned = some node := by
  by_cases heq : other = thread
  · subst heq
    simp [Located, State.goto]
  · simp [Located, State.goto, heq]

theorem counted_update {callers : ℕ → Pc} {thread : ℕ} {pc : Pc}
    (hcounted : pc.counted = (callers thread).counted) :
    (Function.update callers thread pc 0).counted = (callers 0).counted := by
  by_cases heq : thread = 0
  · subst heq
    rw [Function.update_self, hcounted]
  · rw [Function.update_of_ne (Ne.symm heq)]

/-- What holds of the owner after a step held of it before. -/
theorem of_update (Flag : Pc → Prop) {callers : ℕ → Pc} {thread : ℕ} {pc : Pc}
    (hbefore : Flag pc → Flag (callers thread))
    (hafter : Flag (Function.update callers thread pc 0)) :
    Flag (callers 0) := by
  by_cases heq : thread = 0
  · subst heq
    rw [Function.update_self] at hafter
    exact hbefore hafter
  · rwa [Function.update_of_ne (Ne.symm heq)] at hafter

theorem keepsDummy_of_update {callers : ℕ → Pc} {thread : ℕ} {pc : Pc}
    (hbefore : pc.keepsDummy = true → (callers thread).keepsDummy = true)
    (hafter : (Function.update callers thread pc 0).keepsDummy = true) :
    (callers 0).keepsDummy = true :=
  of_update (fun pc => pc.keepsDummy = true) hbefore hafter

theorem takesDummy_of_update {callers : ℕ → Pc} {thread : ℕ} {pc : Pc}
    (hbefore : pc.takesDummy = true → (callers thread).takesDummy = true)
    (hafter : (Function.update callers thread pc 0).takesDummy = true) :
    (callers 0).takesDummy = true :=
  of_update (fun pc => pc.takesDummy = true) hbefore hafter

namespace State.Invariant

variable {population : ℕ} {nodes : List ℕ} {place : ℕ → Place}
  {linking : Finset ℕ} {state : State}

theorem linkers_goto (hinv : state.Invariant population nodes place linking)
    {thread : ℕ} {pc : Pc}
    (hlinking : pc.linking = (state.callers thread).linking) (other : ℕ) :
    other ∈ linking ↔
      (Function.update state.callers thread pc other).linking = true := by
  rw [hinv.linkers other]
  by_cases heq : other = thread
  · subst heq
    rw [Function.update_self, hlinking]
  · rw [Function.update_of_ne heq]

theorem owner_goto (hinv : state.Invariant population nodes place linking)
    {thread : ℕ} {pc : Pc} (howner : thread ≠ 0 → pc.ownerOnly = false)
    (other : ℕ) (hother : other ≠ 0) :
    (Function.update state.callers thread pc other).ownerOnly = false := by
  by_cases heq : other = thread
  · subst heq
    rw [Function.update_self]
    exact howner hother
  · rw [Function.update_of_ne heq]
    exact hinv.owner other hother

/-- A step that only moves the program counter. -/
theorem move (hinv : state.Invariant population nodes place linking)
    {thread : ℕ} {before pc : Pc} (hpc : state.callers thread = before)
    (howned : pc.owned = before.owned) (hlinking : pc.linking = before.linking)
    (hcounted : pc.counted = before.counted)
    (howner : thread ≠ 0 → pc.ownerOnly = false)
    (hsound : pc.Sound population nodes state.next)
    (hdummy : pc.keepsDummy = true → before.keepsDummy = true)
    (huntaken : pc.takesDummy = true → before.takesDummy = true) :
    (state.goto thread pc).Invariant population nodes place linking := by
  subst hpc
  refine ⟨hinv.chain, hinv.nodup, ?_, hinv.heldOnce,
    hinv.linkers_goto hlinking, ?_, hinv.owner_goto howner, ?_, hinv.held,
    hinv.dummyHeld, ?_, ?_, hinv.uncleaned⟩
  · apply hinv.located.congr
    intro node spot
    cases spot with
    | owned other =>
        rw [located_owned_goto]
        split
        next heq => rw [howned, heq]; rfl
        next => rfl
    | _ => rfl
  · change state.nodeNumber = _ -
      (if (Function.update state.callers thread pc 0).counted then 1 else 0)
    rw [counted_update hcounted]
    exact hinv.count
  · exact (Function.forall_update_iff state.callers
      fun _ caller => caller.Sound population nodes state.next).mpr
        ⟨hsound, fun other _ => hinv.sound other⟩
  · intro hattached hkeeps
    exact hinv.dummy hattached (keepsDummy_of_update hdummy hkeeps)
  · intro htakes
    exact hinv.untaken (takesDummy_of_update huntaken htakes)

theorem owner_of (hinv : state.Invariant population nodes place linking)
    {thread : ℕ} (howner : (state.callers thread).ownerOnly = true) :
    thread = 0 := by
  by_contra hne
  rw [hinv.owner thread hne] at howner
  cases howner

theorem allocCount (hinv : state.Invariant population nodes place linking)
    {thread : ℕ} {taker : Taker}
    (hpc : state.callers thread = .allocCount taker) :
    state.nodeNumber ≠ 0 ∧
      ({ state with nodeNumber := state.nodeNumber - 1 }.goto thread
        (.allocReadHead taker)).Invariant population nodes place linking := by
  have hthread : thread = 0 := hinv.owner_of (by rw [hpc]; rfl)
  subst hthread
  have hsound := hinv.sound 0
  rw [hpc] at hsound
  have hlength : 0 < nodes.length := List.length_pos_of_ne_nil hsound
  have hcount := hinv.count
  rw [hpc, if_neg (by simp [Pc.counted])] at hcount
  refine ⟨by omega, hinv.chain, hinv.nodup, ?_, hinv.heldOnce,
    hinv.linkers_goto (by rw [hpc]; rfl), ?_, hinv.owner_goto nofun, ?_,
    hinv.held, hinv.dummyHeld, ?_, ?_, hinv.uncleaned⟩
  · apply hinv.located.congr
    intro node spot
    cases spot with
    | owned other =>
        rw [located_owned_goto]
        split
        next heq => rw [heq]; simp [Located, hpc, Pc.owned]
        next => rfl
    | _ => rfl
  · change state.nodeNumber - 1 = _
    rw [if_pos (by simp [State.goto, Pc.counted])]
    omega
  · exact (Function.forall_update_iff state.callers
      fun _ caller => caller.Sound population nodes state.next).mpr
        ⟨hsound, fun other _ => hinv.sound other⟩
  · intro hattached hkeeps
    change (Function.update state.callers 0 _ 0).keepsDummy = true at hkeeps
    refine hinv.dummy hattached (keepsDummy_of_update ?_ hkeeps)
    rw [hpc]
    cases taker <;> exact id
  · intro htakes
    change (Function.update state.callers 0 _ 0).takesDummy = true at htakes
    refine hinv.untaken (takesDummy_of_update ?_ htakes)
    rw [hpc]
    cases taker <;> exact id

/-- The compare-and-swap of the owner removes exactly the first node. -/
theorem allocCas (hinv : state.Invariant population nodes place linking)
    {thread node : ℕ} {taker : Taker} {after : Option ℕ}
    (hpc : state.callers thread = .allocCas taker node after)
    (hhead : state.head = some node) :
    ∃ rest, ({ state with head := after }.goto thread
      (.allocClearNext taker node)).Invariant population rest
        (Function.update place node (.owned thread)) linking := by
  have hthread : thread = 0 := hinv.owner_of (by rw [hpc]; rfl)
  subst hthread
  have hsound := hinv.sound 0
  rw [hpc] at hsound
  have hchain := hinv.chain
  rw [hhead] at hchain
  obtain ⟨rest, rfl, hrest⟩ := hchain.exists_cons
  have hnodup := List.nodup_cons.mp hinv.nodup
  have hcount := hinv.count
  rw [hpc, if_pos (by simp [Pc.counted]), List.length_cons] at hcount
  refine ⟨rest, ?_, hnodup.2, ?_, hinv.heldOnce,
    hinv.linkers_goto (by rw [hpc]; rfl), ?_, hinv.owner_goto nofun, ?_,
    hinv.held, hinv.dummyHeld, ?_, ?_, hinv.uncleaned⟩
  · change Chained state.next after rest
    rw [hsound.2]
    exact hrest
  · apply hinv.located.move .listed List.mem_cons_self
    · intro spot
      cases spot with
      | listed => simpa [Located] using hnodup.1
      | owned other =>
          rw [located_owned_goto]
          split <;> simp_all [Located, Pc.owned]
      | _ => simp [Located, State.goto]
    · intro other spot hne
      cases spot with
      | listed => simp [Located, hne]
      | owned spot =>
          rw [located_owned_goto]
          split <;> simp_all [Located, Pc.owned, hne.symm]
      | _ => rfl
  · change state.nodeNumber = _
    rw [if_neg (by simp [State.goto, Pc.counted])]
    push_cast at hcount
    omega
  · refine (Function.forall_update_iff state.callers
      fun _ caller => caller.Sound population rest state.next).mpr
        ⟨trivial, fun other hother => ?_⟩
    have hothers := hinv.sound other
    have howner := hinv.owner other hother
    cases hother : state.callers other <;> rw [hother] at hothers howner <;>
      first
        | exact hothers
        | cases howner
  · intro hattached hkeeps
    change (Function.update state.callers 0 _ 0).keepsDummy = true at hkeeps
    refine hinv.dummy hattached (keepsDummy_of_update ?_ hkeeps)
    rw [hpc]
    cases taker <;> exact id
  · intro htakes
    change (Function.update state.callers 0 _ 0).takesDummy = true at htakes
    refine hinv.untaken (takesDummy_of_update ?_ htakes)
    rw [hpc]
    cases taker <;> exact id

/-- Other threads do not notice a write to a node they do not own. -/
theorem sound_write (hinv : state.Invariant population nodes place linking)
    {thread node : ℕ} (howned : (state.callers thread).owned = some node)
    (value : Option ℕ) {other : ℕ} (hother : other ≠ thread) :
    (state.callers other).Sound population nodes
      (Function.update state.next node value) := by
  have hsound := hinv.sound other
  have hforeign : ∀ mine, (state.callers other).owned = some mine →
      mine ≠ node := by
    intro mine hmine heq
    subst heq
    exact hother (hinv.owner_unique hmine howned)
  have hlisted : ∀ mine ∈ nodes, mine ≠ node := by
    intro mine hmine heq
    subst heq
    exact hinv.owned_not_listed howned hmine
  cases hpc : state.callers other with
  | allocCas taker mine after =>
      rw [hpc] at hsound
      refine ⟨hsound.1, ?_⟩
      rw [Function.update_of_ne (hlisted mine hsound.1)]
      exact hsound.2
  | releaseAssert releaser mine =>
      rw [hpc] at hsound hforeign
      change Function.update state.next node value mine = none
      rw [Function.update_of_ne (hforeign mine rfl)]
      exact hsound
  | releaseCas releaser mine sz oldHead =>
      rw [hpc] at hsound hforeign
      refine ⟨hsound.1, ?_⟩
      rw [Function.update_of_ne (hforeign mine rfl)]
      exact hsound.2
  | allocCheck taker =>
      rw [hpc] at hsound
      cases taker <;> exact hsound
  | _ =>
      rw [hpc] at hsound
      exact hsound

/-- A node in the hands of a call is neither outstanding nor the dummy. -/
theorem owned_not_outstanding
    (hinv : state.Invariant population nodes place linking)
    {thread node : ℕ} (howned : (state.callers thread).owned = some node) :
    node ∉ state.outstanding := by
  intro hmem
  cases hinv.located.unique
    (show Located nodes state .outstanding node from hmem)
    (show Located nodes state (.owned thread) node from howned)

theorem owned_not_dummy
    (hinv : state.Invariant population nodes place linking)
    {thread node : ℕ} (howned : (state.callers thread).owned = some node)
    (hout : state.dummyOut = true) : state.dummy ≠ some node := by
  intro hdummy
  cases hinv.located.unique
    (show Located nodes state .dummy node from ⟨hout, hdummy⟩)
    (show Located nodes state (.owned thread) node from howned)

theorem takeForUser (hinv : state.Invariant population nodes place linking)
    {thread node : ℕ}
    (hpc : state.callers thread = .allocClearNext .user node) :
    (({ state with
      next := Function.update state.next node none }).finishAlloc thread
        (some node) .user).Invariant population nodes
          (Function.update place node .outstanding) linking := by
  have hthread : thread = 0 := hinv.owner_of (by rw [hpc]; rfl)
  subst hthread
  have howned : (state.callers 0).owned = some node := by
    rw [hpc]
    rfl
  have hnotHeld := hinv.owned_not_outstanding howned
  refine ⟨hinv.chain.update (hinv.owned_not_listed howned) none, hinv.nodup,
    ?_, ?_, hinv.linkers_goto (by rw [hpc]; rfl), ?_, hinv.owner_goto nofun,
    ?_, ?_, ?_, ?_, ?_, hinv.uncleaned⟩
  · apply hinv.located.move (.owned 0) howned
    · intro spot
      cases spot with
      | outstanding => simp [Located, State.finishAlloc, State.goto]
      | owned other =>
          unfold State.finishAlloc
          rw [located_owned_goto]
          split <;> simp_all [Located, Pc.owned]
      | _ => simp [Located, State.finishAlloc, State.goto]
    · intro moved spot hne
      cases spot with
      | outstanding => simp [Located, State.finishAlloc, State.goto, hne]
      | owned other =>
          unfold State.finishAlloc
          rw [located_owned_goto]
          split <;> simp_all [Located, Pc.owned, hne.symm]
      | _ => rfl
  · exact List.nodup_cons.mpr ⟨hnotHeld, hinv.heldOnce⟩
  · have hcount := hinv.count
    rw [hpc] at hcount
    exact hcount
  · refine (Function.forall_update_iff state.callers
      fun _ caller => caller.Sound population nodes _).mpr
        ⟨trivial, fun other hother => ?_⟩
    exact hinv.sound_write howned none hother
  · intro held hheld
    change Function.update state.next node none held = none
    by_cases heq : held = node
    · rw [heq, Function.update_self]
    · rw [Function.update_of_ne heq]
      rcases List.mem_cons.mp hheld with hsame | hmem
      · exact absurd hsame heq
      · exact hinv.held held hmem
  · intro held hout hdummy
    change Function.update state.next node none held = none
    have hne : held ≠ node := by
      intro heq
      subst heq
      exact hinv.owned_not_dummy howned hout hdummy
    rw [Function.update_of_ne hne]
    exact hinv.dummyHeld held hout hdummy
  · intro hattached _
    exact hinv.dummy hattached (by rw [hpc]; rfl)
  · intro htakes
    cases htakes

theorem takeForDummy (hinv : state.Invariant population nodes place linking)
    {thread node : ℕ}
    (hpc : state.callers thread = .allocClearNext .dummy node) :
    (({ state with
      next := Function.update state.next node none }).finishAlloc thread
        (some node) .dummy).Invariant population nodes
          (Function.update place node .dummy) linking := by
  have hthread : thread = 0 := hinv.owner_of (by rw [hpc]; rfl)
  subst hthread
  have howned : (state.callers 0).owned = some node := by
    rw [hpc]
    rfl
  have hnone : state.dummyOut = false := hinv.untaken (by rw [hpc]; rfl)
  refine ⟨hinv.chain.update (hinv.owned_not_listed howned) none, hinv.nodup,
    ?_, hinv.heldOnce, hinv.linkers_goto (by rw [hpc]; rfl), ?_,
    hinv.owner_goto nofun, ?_, ?_, ?_, ?_, ?_, hinv.uncleaned⟩
  · apply hinv.located.move (.owned 0) howned
    · intro spot
      cases spot with
      | dummy => simp [Located, State.finishAlloc, State.goto]
      | owned other =>
          unfold State.finishAlloc
          rw [located_owned_goto]
          split <;> simp_all [Located, Pc.owned]
      | _ => simp [Located, State.finishAlloc, State.goto]
    · intro moved spot hne
      cases spot with
      | dummy =>
          simp [Located, State.finishAlloc, State.goto, hnone, hne.symm]
      | owned other =>
          unfold State.finishAlloc
          rw [located_owned_goto]
          split <;> simp_all [Located, Pc.owned, hne.symm]
      | _ => rfl
  · have hcount := hinv.count
    rw [hpc] at hcount
    exact hcount
  · refine (Function.forall_update_iff state.callers
      fun _ caller => caller.Sound population nodes _).mpr
        ⟨trivial, fun other hother => ?_⟩
    exact hinv.sound_write howned none hother
  · intro held hheld
    change Function.update state.next node none held = none
    by_cases heq : held = node
    · rw [heq, Function.update_self]
    · rw [Function.update_of_ne heq]
      exact hinv.held held hheld
  · intro held hout hdummy
    change Function.update state.next node none held = none
    cases hdummy
    rw [Function.update_self]
  · intro _ _
    exact ⟨rfl, node, rfl⟩
  · intro htakes
    cases htakes

theorem releaseBuffer (hinv : state.Invariant population nodes place linking)
    {thread node : ℕ} (hpc : state.callers thread = .idle)
    (hheld : node ∈ state.outstanding) :
    ({ state with
      outstanding := state.outstanding.erase node }.goto thread
        (.releaseAssert .releaseBuffer node)).Invariant population nodes
          (Function.update place node (.owned thread)) linking := by
  refine ⟨hinv.chain, hinv.nodup, ?_, hinv.heldOnce.erase node,
    hinv.linkers_goto (by rw [hpc]; rfl), ?_,
    hinv.owner_goto fun _ => rfl, ?_, ?_, hinv.dummyHeld, ?_, ?_,
    hinv.uncleaned⟩
  · apply hinv.located.move .outstanding hheld
    · intro spot
      cases spot with
      | outstanding =>
          simp [Located, State.goto, hinv.heldOnce.not_mem_erase]
      | owned other =>
          rw [located_owned_goto]
          split <;> simp_all [Located, Pc.owned]
      | _ => simp [Located, State.goto]
    · intro moved spot hne
      cases spot with
      | outstanding => simp [Located, State.goto, List.mem_erase_of_ne hne]
      | owned other =>
          rw [located_owned_goto]
          split <;> simp_all [Located, Pc.owned, hne.symm]
      | _ => rfl
  · change state.nodeNumber = _ -
      (if (Function.update state.callers thread _ 0).counted then 1 else 0)
    rw [counted_update (by rw [hpc]; rfl)]
    exact hinv.count
  · exact (Function.forall_update_iff state.callers
      fun _ caller => caller.Sound population nodes state.next).mpr
        ⟨hinv.held node hheld, fun other _ => hinv.sound other⟩
  · intro held hmem
    exact hinv.held held (List.mem_of_mem_erase hmem)
  · intro hattached hkeeps
    refine hinv.dummy hattached (keepsDummy_of_update ?_ hkeeps)
    rw [hpc]
    exact id
  · intro htakes
    refine hinv.untaken (takesDummy_of_update ?_ htakes)
    exact nofun

/-- The owner starts to give the dummy back. -/
theorem releaseDummy (hinv : state.Invariant population nodes place linking)
    {node : ℕ} (releaser : Releaser) (attached : Bool)
    (hbefore : (state.callers 0).owned = none)
    (hlinking : (state.callers 0).linking = false)
    (hcounted : (state.callers 0).counted = false)
    (hout : state.dummyOut = true) (hdummy : state.dummy = some node)
    (hdetached : attached = true →
      (Pc.releaseAssert releaser node).keepsDummy = false) :
    ({ state with
      attached := attached
      dummyOut := false }.goto 0 (.releaseAssert releaser node)).Invariant
        population nodes (Function.update place node (.owned 0)) linking := by
  refine ⟨hinv.chain, hinv.nodup, ?_, hinv.heldOnce,
    hinv.linkers_goto hlinking.symm, ?_, hinv.owner_goto nofun, ?_,
    hinv.held, nofun, ?_, ?_, hinv.uncleaned⟩
  · apply hinv.located.move .dummy ⟨hout, hdummy⟩
    · intro spot
      cases spot with
      | dummy => simp [Located, State.goto]
      | owned other =>
          rw [located_owned_goto]
          split <;> simp_all [Located, Pc.owned]
      | _ => simp [Located, State.goto]
    · intro moved spot hne
      cases spot with
      | dummy => simp [Located, State.goto, hdummy, hne.symm]
      | owned other =>
          rw [located_owned_goto]
          split <;> simp_all [Located, Pc.owned, hne.symm]
      | _ => rfl
  · change state.nodeNumber = _ -
      (if (Function.update state.callers 0 _ 0).counted then 1 else 0)
    rw [counted_update (by rw [hcounted]; rfl)]
    exact hinv.count
  · exact (Function.forall_update_iff state.callers
      fun _ caller => caller.Sound population nodes state.next).mpr
        ⟨hinv.dummyHeld node hout hdummy, fun other _ => hinv.sound other⟩
  · intro hattached hkeeps
    change (Function.update state.callers 0 (.releaseAssert releaser node)
      0).keepsDummy = true at hkeeps
    rw [Function.update_self, hdetached hattached] at hkeeps
    cases hkeeps
  · intro _
    rfl

theorem releaseCount (hinv : state.Invariant population nodes place linking)
    {thread node : ℕ} {releaser : Releaser}
    (hpc : state.callers thread = .releaseCount releaser node) :
    state.nodeNumber ≤ population ∧
      ({ state with nodeNumber := state.nodeNumber + 1 }.goto thread
        (.releaseReadHead releaser node state.nodeNumber)).Invariant
          population nodes place (insert thread linking) := by
  have hfresh : thread ∉ linking := by
    rw [hinv.linkers, hpc]
    exact nofun
  have hcard : (insert thread linking).card = linking.card + 1 :=
    Finset.card_insert_of_notMem hfresh
  have hbound := hinv.length_add_card_le (insert thread linking) (by
    intro other hother
    rcases Finset.mem_insert.mp hother with rfl | hmem
    · exact ⟨node, by rw [hpc]; rfl⟩
    · exact Pc.owned_of_linking ((hinv.linkers other).mp hmem))
  have hcount := hinv.count
  rw [hcard] at hbound
  have hle : state.nodeNumber ≤ population := by
    split at hcount <;> omega
  refine ⟨hle, hinv.chain, hinv.nodup, ?_, hinv.heldOnce, ?_, ?_,
    hinv.owner_goto fun _ => rfl, ?_, hinv.held, hinv.dummyHeld, ?_, ?_,
    hinv.uncleaned⟩
  · apply hinv.located.congr
    intro item spot
    cases spot with
    | owned other =>
        rw [located_owned_goto]
        split
        next heq => rw [heq]; simp [Located, hpc, Pc.owned]
        next => rfl
    | _ => rfl
  · intro other
    change _ ↔ (Function.update state.callers thread _ other).linking = true
    rw [Finset.mem_insert, hinv.linkers]
    by_cases heq : other = thread
    · subst heq
      simp [Pc.linking]
    · simp [heq]
  · change state.nodeNumber + 1 = _ -
      (if (Function.update state.callers thread _ 0).counted then 1 else 0)
    rw [counted_update (by rw [hpc]; rfl), hcard]
    push_cast
    omega
  · exact (Function.forall_update_iff state.callers
      fun _ caller => caller.Sound population nodes state.next).mpr
        ⟨hle, fun other _ => hinv.sound other⟩
  · intro hattached hkeeps
    refine hinv.dummy hattached (keepsDummy_of_update ?_ hkeeps)
    rw [hpc]
    cases releaser <;> exact id
  · intro htakes
    refine hinv.untaken (takesDummy_of_update ?_ htakes)
    exact nofun

theorem releaseWriteNext
    (hinv : state.Invariant population nodes place linking)
    {thread node : ℕ} {releaser : Releaser} {sz : ℤ} {oldHead : Option ℕ}
    (hpc : state.callers thread =
      .releaseWriteNext releaser node sz oldHead) :
    ({ state with
      next := Function.update state.next node oldHead }.goto thread
        (.releaseCas releaser node sz oldHead)).Invariant population nodes
          place linking := by
  have howned : (state.callers thread).owned = some node := by
    rw [hpc]
    rfl
  have hsound := hinv.sound thread
  rw [hpc] at hsound
  refine ⟨hinv.chain.update (hinv.owned_not_listed howned) oldHead,
    hinv.nodup, ?_, hinv.heldOnce, hinv.linkers_goto (by rw [hpc]; rfl), ?_,
    hinv.owner_goto fun _ => rfl, ?_, ?_, ?_, ?_, ?_, hinv.uncleaned⟩
  · apply hinv.located.congr
    intro item spot
    cases spot with
    | owned other =>
        rw [located_owned_goto]
        split
        next heq => rw [heq]; simp [Located, hpc, Pc.owned]
        next => rfl
    | _ => rfl
  · change state.nodeNumber = _ -
      (if (Function.update state.callers thread _ 0).counted then 1 else 0)
    rw [counted_update (by rw [hpc]; rfl)]
    exact hinv.count
  · refine (Function.forall_update_iff state.callers
      fun _ caller => caller.Sound population nodes _).mpr
        ⟨⟨hsound, Function.update_self ..⟩, fun other hother => ?_⟩
    exact hinv.sound_write howned oldHead hother
  · intro held hheld
    change Function.update state.next node oldHead held = none
    have hne : held ≠ node := by
      intro heq
      subst heq
      exact hinv.owned_not_outstanding howned hheld
    rw [Function.update_of_ne hne]
    exact hinv.held held hheld
  · intro held hout hdummy
    change Function.update state.next node oldHead held = none
    have hne : held ≠ node := by
      intro heq
      subst heq
      exact hinv.owned_not_dummy howned hout hdummy
    rw [Function.update_of_ne hne]
    exact hinv.dummyHeld held hout hdummy
  · intro hattached hkeeps
    refine hinv.dummy hattached (keepsDummy_of_update ?_ hkeeps)
    rw [hpc]
    cases releaser <;> exact id
  · intro htakes
    refine hinv.untaken (takesDummy_of_update ?_ htakes)
    exact nofun

/-- Putting a node in front of the list does not disturb the owner. -/
theorem sound_cons (hinv : state.Invariant population nodes place linking)
    (node other : ℕ) :
    (state.callers other).Sound population (node :: nodes) state.next := by
  have hsound := hinv.sound other
  cases hpc : state.callers other with
  | allocCheck taker =>
      cases taker with
      | dummy => exact List.cons_ne_nil _ _
      | user => trivial
  | allocCount taker => exact List.cons_ne_nil _ _
  | allocReadHead taker => exact List.cons_ne_nil _ _
  | allocReadNext taker mine =>
      rw [hpc] at hsound
      exact List.mem_cons_of_mem node hsound
  | allocCas taker mine after =>
      rw [hpc] at hsound
      exact ⟨List.mem_cons_of_mem node hsound.1, hsound.2⟩
  | _ =>
      rw [hpc] at hsound
      exact hsound

theorem releaseCas (hinv : state.Invariant population nodes place linking)
    {thread node : ℕ} {releaser : Releaser} {sz : ℤ} {oldHead : Option ℕ}
    (hpc : state.callers thread = .releaseCas releaser node sz oldHead)
    (hhead : state.head = oldHead) {pc : Pc} {attached : Bool}
    (hafter : pc = .idle ∨ pc = .exited)
    (hdetached : attached = true → state.attached = true ∧
      (thread = 0 → (state.callers 0).keepsDummy = true)) :
    ({ state with
      head := some node
      attached := attached }.goto thread pc).Invariant population
        (node :: nodes) (Function.update place node .listed)
          (linking.erase thread) := by
  have howned : (state.callers thread).owned = some node := by
    rw [hpc]
    rfl
  have hsound := hinv.sound thread
  rw [hpc] at hsound
  have hmember : thread ∈ linking := by
    rw [hinv.linkers, hpc]
    rfl
  have hcard := Finset.card_erase_of_mem hmember
  have hpositive : 0 < linking.card := Finset.card_pos.mpr ⟨_, hmember⟩
  have hpcOwned : pc.owned = none := by
    rcases hafter with rfl | rfl <;> rfl
  have hpcLinking : pc.linking = false := by
    rcases hafter with rfl | rfl <;> rfl
  have hpcCounted : pc.counted = false := by
    rcases hafter with rfl | rfl <;> rfl
  refine ⟨⟨rfl, ?_⟩,
    List.nodup_cons.mpr ⟨hinv.owned_not_listed howned, hinv.nodup⟩, ?_,
    hinv.heldOnce, ?_, ?_, ?_, ?_, hinv.held, hinv.dummyHeld, ?_, ?_,
    hinv.uncleaned⟩
  · change Chained state.next (state.next node) nodes
    rw [hsound.2, ← hhead]
    exact hinv.chain
  · apply hinv.located.move (.owned thread) howned
    · intro spot
      cases spot with
      | listed => simp [Located]
      | owned other =>
          rw [located_owned_goto]
          split <;> simp_all [Located]
      | _ => simp [Located, State.goto]
    · intro moved spot hne
      cases spot with
      | listed => simp [Located, hne]
      | owned other =>
          rw [located_owned_goto]
          split <;> simp_all [Located, Pc.owned, hne.symm]
      | _ => rfl
  · intro other
    change _ ↔ (Function.update state.callers thread pc other).linking = true
    rw [Finset.mem_erase, hinv.linkers]
    by_cases heq : other = thread
    · subst heq
      simp [hpcLinking]
    · simp [heq]
  · change state.nodeNumber = _ -
      (if (Function.update state.callers thread pc 0).counted then 1 else 0)
    rw [counted_update (by rw [hpcCounted, hpc]; rfl), hcard,
      List.length_cons]
    have hcount := hinv.count
    push_cast [hpositive]
    omega
  · exact hinv.owner_goto fun _ => by rcases hafter with rfl | rfl <;> rfl
  · refine (Function.forall_update_iff state.callers
      fun _ caller => caller.Sound population (node :: nodes)
        state.next).mpr ⟨?_, fun other _ => hinv.sound_cons node other⟩
    rcases hafter with rfl | rfl <;> trivial
  · intro hattached hkeeps
    obtain ⟨hold, hdummy⟩ := hdetached hattached
    apply hinv.dummy hold
    change (Function.update state.callers thread pc 0).keepsDummy = true
      at hkeeps
    by_cases heq : thread = 0
    · exact hdummy heq
    · rwa [Function.update_of_ne (Ne.symm heq)] at hkeeps
  · intro htakes
    refine hinv.untaken (takesDummy_of_update ?_ htakes)
    rcases hafter with rfl | rfl <;> exact nofun

end State.Invariant

/-! ## Every step -/

/-- Some list, placement and set of linking threads satisfy the
invariant. -/
def State.Kept (population : ℕ) (state : State) : Prop :=
  ∃ nodes place linking, state.Invariant population nodes place linking

theorem State.Kept.advance {population : ℕ} {state next : State}
    {thread : ℕ} (hkept : state.Kept population)
    (hstep : state.advance population thread = some next) :
    next.Kept population := by
  obtain ⟨nodes, place, linking, hinv⟩ := hkept
  have hsound := hinv.sound thread
  have howner : (state.callers thread).ownerOnly = true → thread = 0 :=
    hinv.owner_of
  unfold State.advance at hstep
  cases hpc : state.callers thread with
  | idle => simp [hpc] at hstep
  | exited => simp [hpc] at hstep
  | aborted => simp [hpc] at hstep
  | allocCheck taker =>
      rw [hpc] at hsound howner
      obtain rfl := howner rfl
      simp only [hpc] at hstep
      cases hhead : state.head with
      | none =>
          have hnil : nodes = [] := by
            have hchain := hinv.chain
            rw [hhead] at hchain
            exact hchain.eq_nil
          cases taker with
          | dummy => exact absurd hnil hsound
          | user =>
              simp only [hhead, Option.some.injEq] at hstep
              subst next
              refine ⟨nodes, place, linking, ?_⟩
              apply hinv.move hpc <;> simp [Pc.owned, Pc.linking, Pc.counted,
                Pc.ownerOnly, Pc.Sound, Pc.keepsDummy, Pc.takesDummy]
      | some first =>
          simp only [hhead, Option.some.injEq] at hstep
          subst next
          refine ⟨nodes, place, linking, hinv.move hpc rfl rfl rfl nofun ?_ ?_ ?_⟩
          · intro hnil
            have hchain := hinv.chain
            rw [hnil, hhead] at hchain
            cases hchain
          · cases taker <;> exact id
          · cases taker <;> exact id
  | allocCount taker =>
      obtain ⟨hpositive, hcounted⟩ := hinv.allocCount hpc
      simp only [hpc, if_neg hpositive, Option.some.injEq] at hstep
      subst next
      exact ⟨nodes, place, linking, hcounted⟩
  | allocReadHead taker =>
      rw [hpc] at hsound howner
      obtain rfl := howner rfl
      simp only [hpc] at hstep
      cases hhead : state.head with
      | none =>
          have hchain := hinv.chain
          rw [hhead] at hchain
          exact absurd hchain.eq_nil hsound
      | some node =>
          simp only [hhead, Option.some.injEq] at hstep
          subst next
          refine ⟨nodes, place, linking, hinv.move hpc rfl rfl rfl nofun ?_ ?_ ?_⟩
          · have hchain := hinv.chain
            rw [hhead] at hchain
            obtain ⟨rest, rfl, -⟩ := hchain.exists_cons
            exact List.mem_cons_self
          · cases taker <;> exact id
          · cases taker <;> exact id
  | allocReadNext taker node =>
      rw [hpc] at hsound howner
      obtain rfl := howner rfl
      simp only [hpc, Option.some.injEq] at hstep
      subst next
      refine ⟨nodes, place, linking, hinv.move hpc rfl rfl rfl nofun ⟨hsound, rfl⟩ ?_ ?_⟩
      · cases taker <;> exact id
      · cases taker <;> exact id
  | allocCas taker node after =>
      rw [hpc] at hsound howner
      obtain rfl := howner rfl
      simp only [hpc] at hstep
      split at hstep
      next hhead =>
        cases hstep
        obtain ⟨rest, hrest⟩ := hinv.allocCas hpc hhead
        exact ⟨rest, _, linking, hrest⟩
      next =>
        cases hstep
        refine ⟨nodes, place, linking, hinv.move hpc rfl rfl rfl nofun
          (List.ne_nil_of_mem hsound.1) ?_ ?_⟩
        · cases taker <;> exact id
        · cases taker <;> exact id
  | allocClearNext taker node =>
      simp only [hpc, Option.some.injEq] at hstep
      subst next
      cases taker with
      | dummy => exact ⟨nodes, _, linking, hinv.takeForDummy hpc⟩
      | user => exact ⟨nodes, _, linking, hinv.takeForUser hpc⟩
  | releaseAssert releaser node =>
      rw [hpc] at hsound
      simp only [hpc, show state.next node = none from hsound,
        Option.some.injEq] at hstep
      subst next
      refine ⟨nodes, place, linking, hinv.move hpc rfl rfl rfl (fun _ => rfl) trivial ?_
        nofun⟩
      cases releaser <;> exact id
  | releaseCount releaser node =>
      obtain ⟨hle, hcounted⟩ := hinv.releaseCount hpc
      have hbound : state.nodeNumber ≤ population + 1 := by omega
      simp only [hpc, if_pos hbound, Option.some.injEq] at hstep
      subst next
      exact ⟨nodes, place, _, hcounted⟩
  | releaseReadHead releaser node sz =>
      rw [hpc] at hsound
      simp only [hpc, Option.some.injEq] at hstep
      subst next
      refine ⟨nodes, place, linking, hinv.move hpc rfl rfl rfl (fun _ => rfl) hsound ?_
        nofun⟩
      cases releaser <;> exact id
  | releaseWriteNext releaser node sz oldHead =>
      simp only [hpc, Option.some.injEq] at hstep
      subst next
      exact ⟨nodes, place, linking, hinv.releaseWriteNext hpc⟩
  | releaseCas releaser node sz oldHead =>
      rw [hpc] at hsound
      have hsz : sz ≠ population + 1 := by
        have := hsound.1
        omega
      simp only [hpc, if_neg hsz] at hstep
      split at hstep
      next hhead =>
        cases hstep
        cases releaser with
        | releaseBuffer =>
            refine ⟨_, _, _, hinv.releaseCas hpc hhead (.inl rfl)
              fun hattached => ⟨hattached, ?_⟩⟩
            rintro rfl
            rw [hpc]
            rfl
        | onThreadExit =>
            refine ⟨_, _, _, hinv.releaseCas hpc hhead (.inr rfl)
              fun hattached => ⟨hattached, ?_⟩⟩
            rintro rfl
            rw [hpc]
            rfl
        | freeCurThreadMemory =>
            exact ⟨_, _, _, hinv.releaseCas hpc hhead (.inl rfl) nofun⟩
      next =>
        cases hstep
        refine ⟨nodes, place, linking, hinv.move hpc rfl rfl rfl (fun _ => rfl) hsound.1 ?_
          nofun⟩
        cases releaser <;> exact id
  | clean releaser =>
      rw [hpc] at hsound
      exact absurd hsound id

theorem State.Kept.step {population : ℕ} {state next : State}
    {action : Action} (hkept : state.Kept population)
    (hstep : state.step population action = some next) :
    next.Kept population := by
  cases action with
  | advance thread => exact hkept.advance hstep
  | allocBuffer =>
      obtain ⟨nodes, place, linking, hinv⟩ := hkept
      simp only [State.step] at hstep
      split at hstep
      next hidle =>
        cases hstep
        refine ⟨nodes, place, linking, ?_⟩
        apply hinv.move hidle.1 <;> simp [Pc.owned, Pc.linking, Pc.counted,
          Pc.Sound, Pc.keepsDummy, Pc.takesDummy]
      next => cases hstep
  | releaseBuffer thread node =>
      obtain ⟨nodes, place, linking, hinv⟩ := hkept
      simp only [State.step] at hstep
      split at hstep
      next hidle =>
        cases hstep
        exact ⟨nodes, _, linking, hinv.releaseBuffer hidle.1 hidle.2⟩
      next => cases hstep
  | onThreadExit =>
      obtain ⟨nodes, place, linking, hinv⟩ := hkept
      simp only [State.step] at hstep
      split at hstep
      next hidle =>
        obtain ⟨hpc, hattached⟩ := hidle
        obtain ⟨hout, dummy, hdummy⟩ :=
          hinv.dummy hattached (by rw [hpc]; rfl)
        split at hstep
        next hnone =>
          rw [hdummy] at hnone
          cases hnone
        next node hnode =>
          cases hstep
          exact ⟨nodes, _, linking, hinv.releaseDummy .onThreadExit false
            (by rw [hpc]; rfl) (by rw [hpc]; rfl) (by rw [hpc]; rfl) hout
            hnode nofun⟩
      next => cases hstep
  | freeCurThreadMemory =>
      obtain ⟨nodes, place, linking, hinv⟩ := hkept
      simp only [State.step] at hstep
      split at hstep
      next hidle =>
        obtain ⟨hpc, hattached⟩ := hidle
        split at hstep
        next =>
          cases hstep
          exact ⟨nodes, place, linking, hinv⟩
        next =>
          obtain ⟨hout, dummy, hdummy⟩ :=
            hinv.dummy hattached (by rw [hpc]; rfl)
          split at hstep
          next hnone =>
            rw [hdummy] at hnone
            cases hnone
          next node hnode =>
            cases hstep
            exact ⟨nodes, _, linking,
              hinv.releaseDummy .freeCurThreadMemory state.attached
                (by rw [hpc]; rfl) (by rw [hpc]; rfl) (by rw [hpc]; rfl)
                hout hnode fun _ => rfl⟩
      next => cases hstep

theorem kept_of_reachable {population : ℕ} {state : State}
    (hreached : (machine population).Reachable state) :
    state.Kept population :=
  Machine.ReachedBy.invariant (State.Kept population)
    ⟨_, _, _, invariant_initPerThreadList population⟩
    (fun _ _ _ hkept _ hstep => hkept.step hstep) hreached

/-! ## Every run -/

theorem safe_of_reachable (population : ℕ) (state : State)
    (hreached : (machine population).Reachable state) :
    state.Safe population := by
  obtain ⟨nodes, place, linking, hinv⟩ := kept_of_reachable hreached
  exact hinv.safe

/-- A frame with one buffer besides the dummy: it is allocated, released by
another thread, and the owner exits. -/
def lastRelease : List Action :=
  [.advance 0, .advance 0, .advance 0, .advance 0, .advance 0, .advance 0,
    .advance 0, .advance 0, .advance 0, .advance 0, .advance 0, .advance 0,
    .releaseBuffer 1 1, .advance 1, .advance 1, .advance 1, .advance 1,
    .advance 1,
    .onThreadExit, .advance 0, .advance 0, .advance 0, .advance 0, .advance 0]

theorem safe_lastRelease :
    ∃ state, (machine 1).run lastRelease = some state ∧
      state.nodeNumber = 2 ∧ state.Safe 1 := by
  have hreached : ∀ state, (machine 1).run lastRelease = some state →
      (machine 1).Reachable state := by
    intro state hrun
    exact Machine.Reachable.runFrom .start hrun
  exact ⟨_, rfl, rfl, safe_of_reachable 1 _ (hreached _ rfl)⟩

/-! ## Reclamation -/

theorem State.Settled.owned {state : State} (hsettled : state.Settled)
    (thread : ℕ) : (state.callers thread).owned = none := by
  rcases hsettled thread with heq | heq <;> rw [heq] <;> rfl

/-- Between calls, all nodes are back exactly when none is outstanding. -/
theorem State.Kept.allBack_iff {population : ℕ} {state : State}
    (hkept : state.Kept population) (hsettled : state.Settled) :
    state.AllBack population ↔ ∀ node, ¬ state.Outstanding node := by
  obtain ⟨nodes, place, linking, hinv⟩ := hkept
  constructor
  · rintro ⟨listed, hchain, hall⟩ node hout
    obtain rfl := hinv.chain.unique hchain
    rcases hout with hheld | hdummy
    · have hat : Located nodes state .outstanding node := hheld
      cases hinv.located.unique hat
        (show Located nodes state .listed node from
          hall node (hinv.located.valid hat))
    · have hat : Located nodes state .dummy node := hdummy
      cases hinv.located.unique hat
        (show Located nodes state .listed node from
          hall node (hinv.located.valid hat))
  · intro hnone
    refine ⟨nodes, hinv.chain, fun node hnode => ?_⟩
    obtain ⟨spot, hat, -⟩ := hinv.located.existsUnique hnode
    cases spot with
    | listed => exact hat
    | outstanding => exact absurd (.inl hat) (hnone node)
    | dummy => exact absurd (.inr hat) (hnone node)
    | owned thread =>
        have howned := hsettled.owned thread
        rw [show _ = some node from hat] at howned
        cases howned

theorem reclaimed_iff_outstanding (population : ℕ) (state : State)
    (hreached : (machine population).ReachedBy Sequential state)
    (hsettled : state.Settled) :
    state.Reclaimed population ↔ ∃ node, state.Outstanding node := by
  have hkept := kept_of_reachable
    (hreached.mono fun _ _ _ => trivial)
  have hback := hkept.allBack_iff hsettled
  have hcleaned : state.cleaned = 0 := by
    obtain ⟨nodes, place, linking, hinv⟩ := hkept
    exact hinv.uncleaned
  unfold State.Reclaimed
  rw [hcleaned, hback]
  constructor
  · rintro ⟨hall, -⟩
    by_contra hnone
    push Not at hnone
    exact absurd (hall hnone) (by decide)
  · rintro ⟨node, hout⟩
    exact ⟨fun hnone => absurd hout (hnone node), fun _ => rfl⟩

theorem admits_advance (population : ℕ) (state : State)
    (threads : List ℕ) :
    (machine population).Admits Sequential state
      (threads.map .advance) := by
  induction threads generalizing state with
  | nil => trivial
  | cons thread rest ih => exact ⟨trivial, fun next _ => ih next⟩

/-- The owner of an empty frame: the first call takes the dummy and returns
null. -/
theorem reached_emptyFrame :
    ∃ state, (machine 0).run ((List.replicate 7 0).map .advance) =
        some state ∧
      (machine 0).ReachedBy Sequential state ∧ state.Settled ∧
      state.Outstanding 0 := by
  have hreached : ∀ state,
      (machine 0).run ((List.replicate 7 0).map .advance) = some state →
        (machine 0).ReachedBy Sequential state := by
    intro state hrun
    exact Machine.ReachedBy.runFrom .start (admits_advance 0 _ _) hrun
  refine ⟨_, rfl, hreached _ rfl, ?_, .inr ⟨rfl, rfl⟩⟩
  intro thread
  match thread with
  | 0 => exact .inl rfl
  | _ + 1 => exact .inl rfl

theorem reachedBy_call {population : ℕ} {before after : State} {action : Action}
    {threads : List ℕ} (hbefore : (machine population).ReachedBy Sequential before)
    (hsettled : before.Settled)
    (hrun : (machine population).runFrom before (action :: threads.map .advance) = some after) :
    (machine population).ReachedBy Sequential after := by
  have hsequential : Sequential before action := by
    cases action with
    | advance thread => trivial
    | _ => exact hsettled
  have hadmits : (machine population).Admits Sequential before
      (action :: threads.map .advance) :=
    ⟨hsequential, fun next _ => admits_advance population next threads⟩
  exact hbefore.runFrom hadmits hrun

theorem settled_of_first {state : State}
    (howner : state.callers 0 = .idle ∨ state.callers 0 = .exited)
    (huser : state.callers 1 = .idle) (hothers : ∀ thread, state.callers (thread + 2) = .idle) :
    state.Settled := by
  intro thread
  match thread with
  | 0 => exact howner
  | 1 => exact .inl huser
  | thread + 2 => exact .inl (hothers thread)

/-- The owner of a frame with two buffers takes both and exits, after one of them was
released by another thread. -/
def userHolds : List Action :=
  (List.replicate 12 0).map .advance ++ .allocBuffer :: (List.replicate 6 0).map .advance ++
    .releaseBuffer 1 1 :: (List.replicate 5 1).map .advance ++
      .onThreadExit :: (List.replicate 5 0).map .advance

theorem reached_userHolds :
    ∃ state, (machine 2).run userHolds = some state ∧
      (machine 2).ReachedBy Sequential state ∧ state.Settled ∧ state.outstanding = [2] ∧
      state.head = some 0 ∧ state.next 0 = some 1 := by
  obtain ⟨first, hfirst⟩ : ∃ state,
      (machine 2).run ((List.replicate 12 0).map .advance) = some state := ⟨_, rfl⟩
  have hreached : (machine 2).ReachedBy Sequential first :=
    Machine.ReachedBy.runFrom .start (admits_advance 2 _ _) hfirst
  obtain ⟨taken, htaken⟩ : ∃ state, (machine 2).runFrom first
      (.allocBuffer :: (List.replicate 6 0).map .advance) = some state := by
    cases hfirst
    exact ⟨_, rfl⟩
  have hsettledFirst : first.Settled := by
    cases hfirst
    exact settled_of_first (.inl rfl) rfl fun _ => rfl
  obtain ⟨released, hreleased⟩ : ∃ state, (machine 2).runFrom taken
      (.releaseBuffer 1 1 :: (List.replicate 5 1).map .advance) = some state := by
    cases hfirst
    cases htaken
    exact ⟨_, rfl⟩
  have hsettledTaken : taken.Settled := by
    cases hfirst
    cases htaken
    exact settled_of_first (.inl rfl) rfl fun _ => rfl
  obtain ⟨exited, hexited, hsettledReleased, hfinal⟩ : ∃ state, (machine 2).runFrom released
      (.onThreadExit :: (List.replicate 5 0).map .advance) = some state ∧ released.Settled ∧
      state.Settled ∧ state.outstanding = [2] ∧ state.head = some 0 ∧ state.next 0 = some 1 := by
    cases hfirst
    cases htaken
    cases hreleased
    exact ⟨_, rfl, settled_of_first (.inl rfl) rfl fun _ => rfl,
      settled_of_first (.inr rfl) rfl fun _ => rfl, rfl, rfl, rfl⟩
  refine ⟨exited, ?_, reachedBy_call (reachedBy_call (reachedBy_call hreached hsettledFirst
    htaken) hsettledTaken hreleased) hsettledReleased hexited, hfinal⟩
  exact Machine.runFrom_append (Machine.runFrom_append (Machine.runFrom_append hfirst htaken)
    hreleased) hexited

theorem reclaimed_userHolds :
    ∃ state, (machine 2).run userHolds = some state ∧
      state.Outstanding 2 ∧ state.Reclaimed 2 := by
  obtain ⟨state, hrun, hreached, hsettled, hout, -⟩ := reached_userHolds
  have houtstanding : state.Outstanding 2 := by
    left
    rw [hout]
    exact List.mem_singleton.mpr rfl
  exact ⟨state, hrun, houtstanding,
    (reclaimed_iff_outstanding 2 state hreached hsettled).mpr ⟨2, houtstanding⟩⟩

/-- The owner of the empty frame exits: the dummy is back, and with it all
nodes, but `Cleaner` has not run. -/
theorem not_reclaimed_ownerExits :
    ¬ ∀ population state,
      (machine population).ReachedBy Sequential state → state.Settled →
        state.Reclaimed population := by
  intro hall
  obtain ⟨before, hbefore, hreached, hsettled, -⟩ := reached_emptyFrame
  have hexit : ∃ state, (machine 0).runFrom before
        (.onThreadExit :: (List.replicate 5 0).map .advance) = some state ∧
      state.Settled ∧ state.head = some 0 ∧ state.next 0 = none ∧
      state.cleaned = 0 := by
    cases hbefore
    refine ⟨_, rfl, ?_, rfl, rfl, rfl⟩
    intro thread
    match thread with
    | 0 => exact .inr rfl
    | _ + 1 => exact .inl rfl
  obtain ⟨state, hrun, hdone, hhead, hnext, hcleaned⟩ := hexit
  have hend : (machine 0).ReachedBy Sequential state := reachedBy_call hreached hsettled hrun
  have hback : state.AllBack 0 := by
    refine ⟨[0], ⟨hhead, hnext⟩, ?_⟩
    intro node hnode
    simpa using hnode
  have hrun := (hall 0 state hend hdone).1 hback
  rw [hcleaned] at hrun
  cases hrun

end PerThreadMemory
end BackEndFacility
