import BackEndFacility.Machine

/-!
# The array ring of `misc/LockFreeContainer.h`

`LockFreeQueue` keeps three cyclic indices into one array.  `Push` reserves a
slot by a compare-and-swap on `write_`, stores its value there, and publishes
the slot by a compare-and-swap on `maxRead_`; `Pop` copies the element under
`read_` and claims it by a compare-and-swap on `read_`.

Every atomic builtin and every plain access to the array is one step.  The
state also records the history of the run: the pushes in the order in which
their slots were reserved, the pushes in the order in which they returned
`true`, and the pops in the order in which they claimed their element.

The indices carry no tags, so a compare-and-swap cannot tell an index that
never moved from one that went round the whole ring.  The queue is first-in
first-out in every run in which no such late swap acts on a check that has
become false.
-/

namespace BackEndFacility
namespace LockFreeQueue

universe u

variable {Value : Type u}

/-! ## The queue and its callers -/

/-- The next access of a thread inside `Push` or `Pop`, with the local
variables that are live there. -/
inductive Pc (Value : Type u) where
  | idle
  | pushReadWrite (val : Value)
  | pushReadRead (val : Value) (oldWrite : ℕ)
  | pushCas (val : Value) (oldWrite : ℕ)
  | pushStore (val : Value) (oldWrite : ℕ)
  | pushPublish (val : Value) (oldWrite : ℕ)
  | popReadRead
  | popReadMaxRead (oldRead : ℕ)
  | popReadSlot (oldRead : ℕ)
  | popCas (oldRead : ℕ) (ret : Value)

/-- Thread and value of one call that took effect. -/
abbrev Record (Value : Type u) := ℕ × Value

structure State (Value : Type u) where
  read : ℕ
  write : ℕ
  maxRead : ℕ
  arr : ℕ → Value
  callers : ℕ → Pc Value
  reserved : List (Record Value)
  pushed : List (Record Value)
  popped : List (Record Value)

inductive Action (Value : Type u) where
  | push (thread : ℕ) (val : Value)
  | pop (thread : ℕ)
  | advance (thread : ℕ)

/-- The constructor; `new Type[sz]` leaves the elements as they are. -/
def construct (memory : ℕ → Value) : State Value where
  read := 0
  write := 0
  maxRead := 0
  arr := memory
  callers := fun _ => .idle
  reserved := []
  pushed := []
  popped := []

def State.goto (state : State Value) (thread : ℕ) (pc : Pc Value) :
    State Value :=
  { state with callers := Function.update state.callers thread pc }

/-- The next step of a thread that is inside a call. -/
def State.advance (maxSz : ℕ) (state : State Value) (thread : ℕ) :
    Option (State Value) :=
  match state.callers thread with
  | .idle => none
  | .pushReadWrite val =>
      some (state.goto thread (.pushReadRead val state.write))
  | .pushReadRead val oldWrite =>
      if (oldWrite + 1) % maxSz = state.read then
        some (state.goto thread .idle)
      else
        some (state.goto thread (.pushCas val oldWrite))
  | .pushCas val oldWrite =>
      if state.write = oldWrite then
        some ({ state with
          write := (oldWrite + 1) % maxSz
          reserved := state.reserved ++ [(thread, val)] }.goto thread
            (.pushStore val oldWrite))
      else
        some (state.goto thread (.pushReadWrite val))
  | .pushStore val oldWrite =>
      some ({ state with
        arr := Function.update state.arr oldWrite val }.goto thread
          (.pushPublish val oldWrite))
  | .pushPublish val oldWrite =>
      if state.maxRead = oldWrite then
        some ({ state with
          maxRead := (oldWrite + 1) % maxSz
          pushed := state.pushed ++ [(thread, val)] }.goto thread .idle)
      else
        some (state.goto thread (.pushPublish val oldWrite))
  | .popReadRead =>
      some (state.goto thread (.popReadMaxRead state.read))
  | .popReadMaxRead oldRead =>
      if oldRead = state.maxRead then
        some (state.goto thread .idle)
      else
        some (state.goto thread (.popReadSlot oldRead))
  | .popReadSlot oldRead =>
      some (state.goto thread (.popCas oldRead (state.arr oldRead)))
  | .popCas oldRead ret =>
      if state.read = oldRead then
        some ({ state with
          read := (oldRead + 1) % maxSz
          popped := state.popped ++ [(thread, ret)] }.goto thread .idle)
      else
        some (state.goto thread .popReadRead)

def State.step (maxSz : ℕ) (state : State Value) :
    Action Value → Option (State Value)
  | .push thread val =>
      match state.callers thread with
      | .idle => some (state.goto thread (.pushReadWrite val))
      | _ => none
  | .pop thread =>
      match state.callers thread with
      | .idle => some (state.goto thread .popReadRead)
      | _ => none
  | .advance thread => state.advance maxSz thread

def machine (maxSz : ℕ) (memory : ℕ → Value) :
    Machine (State Value) (Action Value) where
  start := construct memory
  step := State.step maxSz

/-! ## What the queue promises -/

/-- The elements of `arr_` from `read_` up to but not including `write_`,
going round; their number is what `Size` returns. -/
def State.contents (maxSz : ℕ) (state : State Value) : List Value :=
  (List.range ((state.write + maxSz - state.read) % maxSz)).map
    fun offset => state.arr ((state.read + offset) % maxSz)

/-- Slots are published in the order in which they were reserved; the `k`-th
successful pop returns the value of the `k`-th successful push, so no push is
answered twice; and when no call is in progress, what was pushed is what was
popped followed by what is stored. -/
structure State.Fifo (maxSz : ℕ) (state : State Value) : Prop where
  pushOrder : state.pushed <+: state.reserved
  popOrder : state.popped.map Prod.snd <+: state.pushed.map Prod.snd
  settled : (∀ thread, state.callers thread = .idle) →
    state.pushed.map Prod.snd =
      state.popped.map Prod.snd ++ state.contents maxSz

/-- A compare-and-swap that is about to succeed acts on a check which still
holds: `Push` still finds a free slot, `Pop` still finds the queue non-empty
and the element it has copied. -/
def State.CurrentAt (maxSz : ℕ) (state : State Value) : Pc Value → Prop
  | .pushCas _ oldWrite => state.write = oldWrite →
      (oldWrite + 1) % maxSz ≠ state.read
  | .popCas oldRead ret => state.read = oldRead →
      oldRead ≠ state.maxRead ∧ ret = state.arr oldRead
  | _ => True

instance decidableCurrentAt [DecidableEq Value] (maxSz : ℕ)
    (state : State Value) (pc : Pc Value) :
    Decidable (state.CurrentAt maxSz pc) := by
  cases pc <;> unfold State.CurrentAt <;> infer_instance

def StaysCurrent (maxSz : ℕ) (state : State Value) : Action Value → Prop
  | .advance thread => state.CurrentAt maxSz (state.callers thread)
  | _ => True

instance decidableStaysCurrent [DecidableEq Value] (maxSz : ℕ)
    (state : State Value) :
    ∀ action, Decidable (StaysCurrent maxSz state action)
  | .push _ _ => isTrue trivial
  | .pop _ => isTrue trivial
  | .advance thread =>
      decidableCurrentAt maxSz state (state.callers thread)

/-! ## A push delayed for a whole lap -/

/-- Thread 0 has found room in the empty ring of two slots when thread 1
pushes, pops and pushes again.  The ring is full then, but `write_` is back
where thread 0 saw it. -/
def lappedPush : List (Action ℕ) :=
  [.push 0 30, .advance 0, .advance 0,
    .push 1 10, .advance 1, .advance 1, .advance 1, .advance 1, .advance 1,
    .pop 1, .advance 1, .advance 1, .advance 1, .advance 1,
    .push 1 20, .advance 1, .advance 1, .advance 1, .advance 1, .advance 1,
    .advance 0, .advance 0, .advance 0]

theorem not_fifo_lappedPush :
    ¬ ∀ maxSz, 1 ≤ maxSz → ∀ (memory : ℕ → ℕ) (state : State ℕ),
      (machine maxSz memory).Reachable state → state.Fifo maxSz := by
  intro hall
  have hlost : ∃ state, (machine 2 fun _ => 0).run lappedPush =
      some state ∧ (∀ thread, state.callers thread = .idle) ∧
        state.pushed = [(1, 10), (1, 20), (0, 30)] ∧
          state.popped = [(1, 10)] ∧ state.contents 2 = [] := by
    refine ⟨_, rfl, ?_, rfl, rfl, rfl⟩
    intro thread
    match thread with
    | 0 => rfl
    | 1 => rfl
    | _ + 2 => rfl
  obtain ⟨state, hrun, hidle, hpushed, hpopped, hempty⟩ := hlost
  have hreached : (machine 2 fun _ => 0).Reachable state :=
    Machine.Reachable.runFrom .start hrun
  have hsettled := (hall 2 (by decide) _ state hreached).settled hidle
  simp [hpushed, hpopped, hempty] at hsettled

/-! ## The invariant -/

/-- The value and the slot of a push between its two compare-and-swaps. -/
def Pc.claim : Pc Value → Option (Value × ℕ)
  | .pushStore val oldWrite => some (val, oldWrite)
  | .pushPublish val oldWrite => some (val, oldWrite)
  | _ => none

/-- The indices are the lengths of the three histories taken round the ring.
A reserved slot that is not published belongs to the thread that reserved it,
and a published slot that is not popped holds the value it was reserved
for. -/
structure State.Invariant (maxSz : ℕ) (state : State Value) : Prop where
  readAt : state.read = state.popped.length % maxSz
  maxReadAt : state.maxRead = state.pushed.length % maxSz
  writeAt : state.write = state.reserved.length % maxSz
  room : state.reserved.length < state.popped.length + maxSz
  pushOrder : state.pushed <+: state.reserved
  popOrder : state.popped.map Prod.snd <+: state.pushed.map Prod.snd
  stored : ∀ (index : ℕ) (record : Record Value),
    state.popped.length ≤ index → index < state.pushed.length →
      state.reserved[index]? = some record →
        state.arr (index % maxSz) = record.2
  claimed : ∀ (index : ℕ) (record : Record Value),
    state.pushed.length ≤ index → state.reserved[index]? = some record →
      (state.callers record.1).claim = some (record.2, index % maxSz)
  claims : ∀ thread val slot,
    (state.callers thread).claim = some (val, slot) →
      ∃ index, state.pushed.length ≤ index ∧
        state.reserved[index]? = some (thread, val) ∧ slot = index % maxSz
  written : ∀ thread val slot,
    state.callers thread = .pushPublish val slot → state.arr slot = val

/-- Two positions less than a lap apart have the same slot only if they are
the same. -/
theorem eq_of_mod_eq {maxSz first second : ℕ}
    (hmod : first % maxSz = second % maxSz) (hle : first ≤ second)
    (hlap : second < first + maxSz) : first = second := by
  have hdvd : maxSz ∣ second - first :=
    (Nat.modEq_iff_dvd' hle).mp hmod
  have hzero : second - first = 0 := by
    by_contra hne
    have hle' := Nat.le_of_dvd (by omega) hdvd
    omega
  omega

theorem succ_mod (maxSz count : ℕ) :
    (count % maxSz + 1) % maxSz = (count + 1) % maxSz := by
  rw [Nat.mod_add_mod]

namespace State.Invariant

variable {maxSz : ℕ} {state : State Value}

theorem start (hsize : 1 ≤ maxSz) (memory : ℕ → Value) :
    (construct memory).Invariant maxSz := by
  constructor <;> simp [construct, Pc.claim]
  omega

theorem popped_le (hinv : state.Invariant maxSz) :
    state.popped.length ≤ state.pushed.length := by
  simpa using hinv.popOrder.length_le

theorem pushed_le (hinv : state.Invariant maxSz) :
    state.pushed.length ≤ state.reserved.length :=
  hinv.pushOrder.length_le

theorem index_lt {index : ℕ} {record : Record Value}
    (hrecord : state.reserved[index]? = some record) :
    index < state.reserved.length := by
  obtain ⟨hlt, -⟩ := List.getElem?_eq_some_iff.mp hrecord
  exact hlt

theorem settled (hinv : state.Invariant maxSz)
    (hidle : ∀ thread, state.callers thread = .idle) :
    state.pushed = state.reserved := by
  apply hinv.pushOrder.eq_of_length
  apply le_antisymm hinv.pushed_le
  by_contra hlt
  have hget := List.getElem?_eq_getElem (by omega :
    state.pushed.length < state.reserved.length)
  have hclaim := hinv.claimed _ _ le_rfl hget
  rw [hidle] at hclaim
  simp [Pc.claim] at hclaim

theorem contents_eq (hinv : state.Invariant maxSz)
    (hidle : ∀ thread, state.callers thread = .idle) :
    state.contents maxSz =
      (state.reserved.drop state.popped.length).map Prod.snd := by
  have hall := hinv.settled hidle
  have hle := hinv.popped_le
  have hroom := hinv.room
  rw [hall] at hle
  have hcount : (state.write + maxSz - state.read) % maxSz =
      state.reserved.length - state.popped.length := by
    have hsize : 0 < maxSz := by omega
    have hread : state.read < maxSz := by
      rw [hinv.readAt]
      exact Nat.mod_lt _ hsize
    have hsmall : state.reserved.length - state.popped.length < maxSz := by
      omega
    rw [← Nat.mod_eq_of_lt hsmall]
    apply Nat.ModEq.add_right_cancel' state.read
    have hleft : state.write + maxSz - state.read + state.read =
        state.write + maxSz := by omega
    rw [hleft, hinv.writeAt, hinv.readAt]
    unfold Nat.ModEq
    rw [Nat.add_mod_right, Nat.mod_mod, Nat.add_mod_mod]
    congr 1
    omega
  apply List.ext_getElem?
  intro offset
  unfold State.contents
  rw [hcount, List.getElem?_map, List.getElem?_map, List.getElem?_drop]
  by_cases hoffset : offset < state.reserved.length - state.popped.length
  · have hindex : state.popped.length + offset < state.reserved.length := by
      omega
    rw [List.getElem?_range hoffset, List.getElem?_eq_getElem hindex]
    have hstored := hinv.stored (state.popped.length + offset) _ (by omega)
      (by rw [hall]; omega) (List.getElem?_eq_getElem hindex)
    simp only [Option.map_some, Option.some.injEq]
    rw [hinv.readAt, Nat.mod_add_mod]
    exact hstored
  · rw [List.getElem?_eq_none (by simpa using hoffset),
      List.getElem?_eq_none (by omega)]
    rfl

theorem fifo (hinv : state.Invariant maxSz) : state.Fifo maxSz := by
  refine ⟨hinv.pushOrder, hinv.popOrder, fun hidle => ?_⟩
  have hall := hinv.settled hidle
  have hprefix := hinv.popOrder
  rw [hall] at hprefix
  rw [hinv.contents_eq hidle, hall, List.map_drop]
  have htake := List.prefix_iff_eq_take.mp hprefix
  rw [List.length_map] at htake
  rw [htake]
  exact (List.take_append_drop _ _).symm

/-! ## One lemma for each kind of step -/

theorem goto (hinv : state.Invariant maxSz) {thread : ℕ} {pc : Pc Value}
    (hclaim : pc.claim = (state.callers thread).claim)
    (hwritten : ∀ val slot, pc = .pushPublish val slot →
      state.arr slot = val) :
    (state.goto thread pc).Invariant maxSz := by
  have hclaims : ∀ other, (Function.update state.callers thread pc
      other).claim = (state.callers other).claim := by
    intro other
    by_cases heq : other = thread
    · subst heq
      simpa using hclaim
    · simp [heq]
  refine ⟨hinv.readAt, hinv.maxReadAt, hinv.writeAt, hinv.room,
    hinv.pushOrder, hinv.popOrder, hinv.stored, ?_, ?_, ?_⟩
  · intro index record hle hrecord
    have hold := hinv.claimed index record hle hrecord
    rw [← hclaims] at hold
    exact hold
  · intro other val slot hother
    change (Function.update state.callers thread pc other).claim = _ at hother
    rw [hclaims] at hother
    exact hinv.claims other val slot hother
  · intro other val slot hother
    change Function.update state.callers thread pc other = _ at hother
    by_cases heq : other = thread
    · subst heq
      rw [Function.update_self] at hother
      exact hwritten val slot hother
    · rw [Function.update_of_ne heq] at hother
      exact hinv.written other val slot hother

theorem reserve (hinv : state.Invariant maxSz) {thread oldWrite : ℕ}
    {val : Value} (hidle : (state.callers thread).claim = none)
    (hwrite : state.write = oldWrite)
    (hroom : (oldWrite + 1) % maxSz ≠ state.read) :
    ({ state with
      write := (oldWrite + 1) % maxSz
      reserved := state.reserved ++ [(thread, val)] }.goto thread
        (.pushStore val oldWrite)).Invariant maxSz := by
  have hslot : oldWrite = state.reserved.length % maxSz := by
    rw [← hwrite, hinv.writeAt]
  have hold : ∀ (index : ℕ) (record : Record Value),
      (state.reserved ++ [(thread, val)])[index]? = some record →
        state.reserved[index]? = some record ∨
          (index = state.reserved.length ∧ record = (thread, val)) := by
    intro index record hrecord
    rcases lt_trichotomy index state.reserved.length with hlt | heq | hgt
    · rw [List.getElem?_append_left hlt] at hrecord
      exact .inl hrecord
    · subst heq
      rw [List.getElem?_concat_length] at hrecord
      exact .inr ⟨rfl, (Option.some.inj hrecord).symm⟩
    · rw [List.getElem?_eq_none (by simpa using hgt)] at hrecord
      cases hrecord
  have hkeep : ∀ (index : ℕ) (record : Record Value),
      state.reserved[index]? = some record →
        (state.reserved ++ [(thread, val)])[index]? = some record := by
    intro index record hrecord
    rw [List.getElem?_append_left (index_lt hrecord)]
    exact hrecord
  have hpushed := hinv.pushed_le
  have hpopped := hinv.popped_le
  refine ⟨hinv.readAt, hinv.maxReadAt, ?_, ?_, ?_, hinv.popOrder, ?_, ?_, ?_,
    ?_⟩
  · change (oldWrite + 1) % maxSz =
      (state.reserved ++ [(thread, val)]).length % maxSz
    rw [hslot, succ_mod, List.length_append, List.length_singleton]
  · change (state.reserved ++ [(thread, val)]).length <
      state.popped.length + maxSz
    rw [List.length_append, List.length_singleton]
    have hlt := hinv.room
    by_contra hfull
    have hlap : state.reserved.length + 1 = state.popped.length + maxSz := by
      omega
    apply hroom
    rw [hslot, succ_mod, hlap, Nat.add_mod_right, hinv.readAt]
  · exact hinv.pushOrder.trans (List.prefix_append _ _)
  · intro index record hle hlt hrecord
    change index < state.pushed.length at hlt
    rcases hold index record hrecord with hrecord | ⟨heq, -⟩
    · exact hinv.stored index record hle hlt hrecord
    · omega
  · intro index record hle hrecord
    change (Function.update state.callers thread (.pushStore val oldWrite)
      record.1).claim = _
    rcases hold index record hrecord with hrecord | ⟨heq, hthread⟩
    · have hclaim := hinv.claimed index record hle hrecord
      have hne : record.1 ≠ thread := by
        intro heq
        rw [heq, hidle] at hclaim
        cases hclaim
      rw [Function.update_of_ne hne]
      exact hclaim
    · subst hthread
      simp [Pc.claim, heq, hslot]
  · intro other value slot hother
    change (Function.update state.callers thread (.pushStore val oldWrite)
      other).claim = _ at hother
    by_cases heq : other = thread
    · subst heq
      simp only [Function.update_self, Pc.claim, Option.some.injEq,
        Prod.mk.injEq] at hother
      obtain ⟨rfl, rfl⟩ := hother
      exact ⟨state.reserved.length, hpushed, List.getElem?_concat_length,
        hslot⟩
    · rw [Function.update_of_ne heq] at hother
      obtain ⟨index, hle, hrecord, hindex⟩ := hinv.claims other value slot hother
      exact ⟨index, hle, hkeep index _ hrecord, hindex⟩
  · intro other value slot hother
    change Function.update state.callers thread (.pushStore val oldWrite)
      other = _ at hother
    by_cases heq : other = thread
    · subst heq
      simp at hother
    · rw [Function.update_of_ne heq] at hother
      exact hinv.written other value slot hother

theorem claim_unique (hinv : state.Invariant maxSz)
    {first second slot : ℕ} {firstVal secondVal : Value}
    (hfirst : (state.callers first).claim = some (firstVal, slot))
    (hsecond : (state.callers second).claim = some (secondVal, slot)) :
    first = second := by
  obtain ⟨i, hi, hfirstAt, hiSlot⟩ := hinv.claims _ _ _ hfirst
  obtain ⟨j, hj, hsecondAt, hjSlot⟩ := hinv.claims _ _ _ hsecond
  have hroom := hinv.room
  have hpopped := hinv.popped_le
  have hiLt := index_lt hfirstAt
  have hjLt := index_lt hsecondAt
  have hij : i = j := by
    rcases Nat.le_total i j with hle | hle
    · exact eq_of_mod_eq (hiSlot.symm.trans hjSlot) hle (by omega)
    · exact (eq_of_mod_eq (hjSlot.symm.trans hiSlot) hle (by omega)).symm
  rw [hij, hsecondAt] at hfirstAt
  simp only [Option.some.injEq, Prod.mk.injEq] at hfirstAt
  exact hfirstAt.1.symm

theorem store (hinv : state.Invariant maxSz) {thread oldWrite : ℕ}
    {val : Value} (hpc : state.callers thread = .pushStore val oldWrite) :
    ({ state with
      arr := Function.update state.arr oldWrite val }.goto thread
        (.pushPublish val oldWrite)).Invariant maxSz := by
  have hclaim : (state.callers thread).claim = some (val, oldWrite) := by
    simp [hpc, Pc.claim]
  obtain ⟨index, hle, hrecord, hslot⟩ := hinv.claims _ _ _ hclaim
  have hlt := index_lt hrecord
  have hroom := hinv.room
  have hmoved : ({ state with
      arr := Function.update state.arr oldWrite val }).Invariant maxSz := by
    refine ⟨hinv.readAt, hinv.maxReadAt, hinv.writeAt, hinv.room,
      hinv.pushOrder, hinv.popOrder, ?_, hinv.claimed, hinv.claims, ?_⟩
    · intro other record hother hotherLt hotherRecord
      change other < state.pushed.length at hotherLt
      change state.popped.length ≤ other at hother
      have hne : other % maxSz ≠ oldWrite := by
        intro heq
        have := eq_of_mod_eq (heq.trans hslot) (by omega) (by omega)
        omega
      change Function.update state.arr oldWrite val (other % maxSz) = record.2
      rw [Function.update_of_ne hne]
      exact hinv.stored other record hother hotherLt hotherRecord
    · intro other value slot hother
      change Function.update state.arr oldWrite val slot = value
      have hne : slot ≠ oldWrite := by
        intro heq
        subst heq
        have hsame := hinv.claim_unique hclaim
          (show (state.callers other).claim = some (value, slot) by
            rw [show state.callers other = _ from hother]; rfl)
        subst hsame
        rw [show state.callers thread = _ from hother] at hpc
        cases hpc
      rw [Function.update_of_ne hne]
      exact hinv.written other value slot hother
  apply hmoved.goto
  · rw [show ({ state with
      arr := Function.update state.arr oldWrite val } : State
        Value).callers thread = _ from hpc]
    rfl
  · intro value slot heq
    simp only [Pc.pushPublish.injEq] at heq
    obtain ⟨rfl, rfl⟩ := heq
    simp

theorem publish (hinv : state.Invariant maxSz) {thread oldWrite : ℕ}
    {val : Value} (hpc : state.callers thread = .pushPublish val oldWrite)
    (hmaxRead : state.maxRead = oldWrite) :
    ({ state with
      maxRead := (oldWrite + 1) % maxSz
      pushed := state.pushed ++ [(thread, val)] }.goto thread
        .idle).Invariant maxSz := by
  have hclaim : (state.callers thread).claim = some (val, oldWrite) := by
    simp [hpc, Pc.claim]
  obtain ⟨index, hle, hrecord, hslot⟩ := hinv.claims _ _ _ hclaim
  have hlt := index_lt hrecord
  have hroom := hinv.room
  have hpopped := hinv.popped_le
  have hmod : state.pushed.length % maxSz = index % maxSz := by
    rw [← hslot, ← hmaxRead, hinv.maxReadAt]
  have hfirst : state.pushed.length = index :=
    eq_of_mod_eq hmod hle (by omega)
  subst hfirst
  refine ⟨hinv.readAt, ?_, hinv.writeAt, hinv.room, ?_, ?_, ?_, ?_, ?_, ?_⟩
  · change (oldWrite + 1) % maxSz =
      (state.pushed ++ [(thread, val)]).length % maxSz
    rw [hslot, succ_mod, List.length_append, List.length_singleton]
  · change state.pushed ++ [(thread, val)] <+: state.reserved
    rw [List.prefix_iff_eq_take]
    have htake := List.prefix_iff_eq_take.mp hinv.pushOrder
    have hget : state.reserved[state.pushed.length] = (thread, val) :=
      (List.getElem?_eq_some_iff.mp hrecord).2
    rw [List.length_append, List.length_singleton,
      List.take_add_one, ← htake, hrecord]
    rfl
  · change state.popped.map Prod.snd <+:
      (state.pushed ++ [(thread, val)]).map Prod.snd
    rw [List.map_append]
    exact hinv.popOrder.trans (List.prefix_append _ _)
  · intro other record hother hotherLt hotherRecord
    change other < (state.pushed ++ [(thread, val)]).length at hotherLt
    change state.reserved[other]? = some record at hotherRecord
    change state.arr (other % maxSz) = record.2
    rw [List.length_append, List.length_singleton] at hotherLt
    by_cases hlast : other = state.pushed.length
    · subst hlast
      rw [hrecord] at hotherRecord
      cases hotherRecord
      rw [← hslot]
      exact hinv.written thread val oldWrite hpc
    · exact hinv.stored other record hother (by omega) hotherRecord
  · intro other record hother hotherRecord
    change (state.pushed ++ [(thread, val)]).length ≤ other at hother
    rw [List.length_append, List.length_singleton] at hother
    have hold := hinv.claimed other record (by omega) hotherRecord
    have hotherLt := index_lt hotherRecord
    have hne : record.1 ≠ thread := by
      intro heq
      rw [heq, hclaim] at hold
      simp only [Option.some.injEq, Prod.mk.injEq] at hold
      have hsame : state.pushed.length % maxSz = other % maxSz := by
        rw [← hslot]
        exact hold.2
      change other < state.reserved.length at hotherLt
      have := eq_of_mod_eq hsame (by omega) (by omega)
      omega
    change (Function.update state.callers thread .idle record.1).claim = _
    rw [Function.update_of_ne hne]
    exact hold
  · intro other value slot hother
    change (Function.update state.callers thread .idle other).claim = _
      at hother
    by_cases heq : other = thread
    · subst heq
      simp [Pc.claim] at hother
    · rw [Function.update_of_ne heq] at hother
      obtain ⟨position, hge, hat, hposition⟩ :=
        hinv.claims other value slot hother
      refine ⟨position, ?_, hat, hposition⟩
      change (state.pushed ++ [(thread, val)]).length ≤ position
      rw [List.length_append, List.length_singleton]
      have hne : position ≠ state.pushed.length := by
        intro hsame
        rw [hsame, hrecord] at hat
        simp only [Option.some.injEq, Prod.mk.injEq] at hat
        exact heq hat.1.symm
      omega
  · intro other value slot hother
    change Function.update state.callers thread .idle other = _ at hother
    by_cases heq : other = thread
    · subst heq
      simp at hother
    · rw [Function.update_of_ne heq] at hother
      exact hinv.written other value slot hother

theorem take (hinv : state.Invariant maxSz) {thread oldRead : ℕ}
    {ret : Value} (hpc : state.callers thread = .popCas oldRead ret)
    (hread : state.read = oldRead) (hnonempty : oldRead ≠ state.maxRead)
    (hcurrent : ret = state.arr oldRead) :
    ({ state with
      read := (oldRead + 1) % maxSz
      popped := state.popped ++ [(thread, ret)] }.goto thread
        .idle).Invariant maxSz := by
  have hpopped := hinv.popped_le
  have hpushed := hinv.pushed_le
  have hroom := hinv.room
  have hslot : oldRead = state.popped.length % maxSz := by
    rw [← hread, hinv.readAt]
  have hlt : state.popped.length < state.pushed.length := by
    apply lt_of_le_of_ne hpopped
    intro heq
    apply hnonempty
    rw [hslot, hinv.maxReadAt, heq]
  have hget := List.getElem?_eq_getElem (by omega :
    state.popped.length < state.reserved.length)
  have hvalue : state.reserved[state.popped.length].2 = ret := by
    rw [hcurrent, hslot]
    exact (hinv.stored _ _ le_rfl hlt hget).symm
  have hmoved : ({ state with
      read := (oldRead + 1) % maxSz
      popped := state.popped ++ [(thread, ret)] }).Invariant maxSz := by
    refine ⟨?_, hinv.maxReadAt, hinv.writeAt, ?_, hinv.pushOrder, ?_, ?_,
      hinv.claimed, hinv.claims, hinv.written⟩
    · change (oldRead + 1) % maxSz =
        (state.popped ++ [(thread, ret)]).length % maxSz
      rw [hslot, succ_mod, List.length_append, List.length_singleton]
    · change state.reserved.length <
        (state.popped ++ [(thread, ret)]).length + maxSz
      rw [List.length_append, List.length_singleton]
      omega
    · change (state.popped ++ [(thread, ret)]).map Prod.snd <+:
        state.pushed.map Prod.snd
      have hpushedGet : state.pushed[state.popped.length].2 = ret := by
        rw [hinv.pushOrder.getElem hlt]
        exact hvalue
      rw [List.prefix_iff_eq_take]
      have htake := List.prefix_iff_eq_take.mp hinv.popOrder
      rw [List.length_map] at htake ⊢
      rw [List.length_append, List.length_singleton, List.take_add_one,
        ← htake, List.map_append, List.getElem?_map,
        List.getElem?_eq_getElem hlt]
      simp [hpushedGet]
    · intro other record hother hotherLt hotherRecord
      change (state.popped ++ [(thread, ret)]).length ≤ other at hother
      rw [List.length_append, List.length_singleton] at hother
      exact hinv.stored other record (by omega) hotherLt hotherRecord
  apply hmoved.goto
  · rw [show ({ state with
      read := (oldRead + 1) % maxSz
      popped := state.popped ++ [(thread, ret)] } : State
        Value).callers thread = _ from hpc]
    rfl
  · intro value slot heq
    cases heq

end State.Invariant

theorem State.Invariant.advance {maxSz : ℕ} {state next : State Value}
    {thread : ℕ} (hinv : state.Invariant maxSz)
    (hcurrent : state.CurrentAt maxSz (state.callers thread))
    (hstep : state.advance maxSz thread = some next) :
    next.Invariant maxSz := by
  unfold State.advance at hstep
  cases hpc : state.callers thread with
  | idle => simp [hpc] at hstep
  | pushReadWrite val =>
      simp only [hpc, Option.some.injEq] at hstep
      subst next
      exact hinv.goto (by simp [hpc, Pc.claim]) nofun
  | pushReadRead val oldWrite =>
      simp only [hpc] at hstep
      split at hstep
      all_goals
        simp only [Option.some.injEq] at hstep
        subst next
        exact hinv.goto (by simp [hpc, Pc.claim]) nofun
  | pushCas val oldWrite =>
      simp only [hpc] at hstep
      split at hstep
      next hwrite =>
        simp only [Option.some.injEq] at hstep
        subst next
        rw [hpc] at hcurrent
        exact hinv.reserve (by simp [hpc, Pc.claim]) hwrite (hcurrent hwrite)
      next =>
        simp only [Option.some.injEq] at hstep
        subst next
        exact hinv.goto (by simp [hpc, Pc.claim]) nofun
  | pushStore val oldWrite =>
      simp only [hpc, Option.some.injEq] at hstep
      subst next
      exact hinv.store hpc
  | pushPublish val oldWrite =>
      simp only [hpc] at hstep
      split at hstep
      next hmaxRead =>
        simp only [Option.some.injEq] at hstep
        subst next
        exact hinv.publish hpc hmaxRead
      next =>
        simp only [Option.some.injEq] at hstep
        subst next
        refine hinv.goto (by simp [hpc]) fun value slot heq => ?_
        exact hinv.written thread value slot (hpc.trans heq)
  | popReadRead =>
      simp only [hpc, Option.some.injEq] at hstep
      subst next
      exact hinv.goto (by simp [hpc, Pc.claim]) nofun
  | popReadMaxRead oldRead =>
      simp only [hpc] at hstep
      split at hstep
      all_goals
        simp only [Option.some.injEq] at hstep
        subst next
        exact hinv.goto (by simp [hpc, Pc.claim]) nofun
  | popReadSlot oldRead =>
      simp only [hpc, Option.some.injEq] at hstep
      subst next
      exact hinv.goto (by simp [hpc, Pc.claim]) nofun
  | popCas oldRead ret =>
      simp only [hpc] at hstep
      split at hstep
      next hread =>
        simp only [Option.some.injEq] at hstep
        subst next
        rw [hpc] at hcurrent
        obtain ⟨hnonempty, hret⟩ := hcurrent hread
        exact hinv.take hpc hread hnonempty hret
      next =>
        simp only [Option.some.injEq] at hstep
        subst next
        exact hinv.goto (by simp [hpc, Pc.claim]) nofun

theorem State.Invariant.step {maxSz : ℕ} {state next : State Value}
    {action : Action Value} (hinv : state.Invariant maxSz)
    (hcurrent : StaysCurrent maxSz state action)
    (hstep : state.step maxSz action = some next) :
    next.Invariant maxSz := by
  cases action with
  | push thread val =>
      cases hpc : state.callers thread with
      | idle =>
          simp only [State.step, hpc, Option.some.injEq] at hstep
          subst next
          exact hinv.goto (by simp [hpc, Pc.claim]) nofun
      | _ => simp [State.step, hpc] at hstep
  | pop thread =>
      cases hpc : state.callers thread with
      | idle =>
          simp only [State.step, hpc, Option.some.injEq] at hstep
          subst next
          exact hinv.goto (by simp [hpc, Pc.claim]) nofun
      | _ => simp [State.step, hpc] at hstep
  | advance thread => exact hinv.advance hcurrent hstep

/-! ## Every run whose swaps act on current checks -/

theorem fifo_of_staysCurrent {maxSz : ℕ} (hsize : 1 ≤ maxSz)
    (memory : ℕ → Value) {state : State Value}
    (hreached : (machine maxSz memory).ReachedBy (StaysCurrent maxSz) state) :
    state.Fifo maxSz := by
  have hinv : state.Invariant maxSz :=
    Machine.ReachedBy.invariant (State.Invariant maxSz)
      (State.Invariant.start hsize memory)
      (fun _ _ _ hinv hcurrent hstep => hinv.step hcurrent hstep) hreached
  exact hinv.fifo

/-- Thread 1 reserves its slot behind thread 0 and publishes after it; a fourth value goes
into the first slot again. -/
def wrapsAround : List (Action ℕ) :=
  .push 0 10 :: List.replicate 3 (.advance 0) ++ .push 1 20 :: List.replicate 5 (.advance 1) ++
    List.replicate 2 (.advance 0) ++ .advance 1 :: .pop 2 :: List.replicate 4 (.advance 2) ++
    .pop 2 :: List.replicate 4 (.advance 2) ++ .push 0 30 :: List.replicate 5 (.advance 0) ++
    .push 1 40 :: List.replicate 5 (.advance 1) ++ .pop 2 :: List.replicate 4 (.advance 2)

theorem fifo_wrapsAround :
    ∃ state, (machine 3 fun _ => 0).run wrapsAround = some state ∧
      state.arr 0 = 40 ∧ state.pushed = [(0, 10), (1, 20), (0, 30), (1, 40)] ∧
      state.popped = [(2, 10), (2, 20), (2, 30)] ∧ state.Fifo 3 := by
  have hreached : ∀ state,
      (machine 3 fun _ => 0).run wrapsAround = some state →
        (machine 3 fun _ => 0).ReachedBy (StaysCurrent 3) state := by
    intro state hrun
    exact Machine.ReachedBy.runFrom .start (by decide +kernel) hrun
  refine ⟨_, rfl, rfl, rfl, rfl, ?_⟩
  exact fifo_of_staysCurrent (by decide) (fun _ => 0) (hreached _ rfl)

end LockFreeQueue
end BackEndFacility
