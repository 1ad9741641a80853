import BackEndFacility.ThreadPool

/-!
# Free workers

`freeWorkerBit_` has one bit for every worker.  It is changed with masks that are
shifted as 32-bit integers and then widened, so from worker 31 on a mask is not the
bit of its worker.  Below that the bits are what they are meant to be, and
`SelectFreeWorker` finds the lowest one.

A bit is cleared when a task is dispatched and set when a worker has finished one.
With two tasks in the mailbox of a worker it is therefore set between them.
-/

namespace BackEndFacility
namespace ThreadPool

/-! ## The lowest bit -/

theorem and_not_add_one {width : ℕ} {bits : BitVec width} (hbits : bits ≠ 0) :
    bits &&& (~~~bits + 1) = BitVec.twoPow width bits.ctz.toNat := by
  have hset := BitVec.getLsbD_true_ctz_of_ne_zero hbits
  have hbelow : ∀ j < bits.ctz.toNat, bits.getLsbD j = false :=
    fun j hj => BitVec.getLsbD_false_of_lt_ctz hj
  have hneg : ~~~bits + 1 = -bits := (BitVec.neg_eq_not_add bits).symm
  rw [hneg]
  apply BitVec.eq_of_getLsbD_eq
  intro i hi
  rw [BitVec.getLsbD_and, BitVec.getLsbD_neg, BitVec.getLsbD_twoPow]
  rcases lt_trichotomy i bits.ctz.toNat with hlt | heq | hgt
  · simp [hbelow i hlt, hlt.ne']
  · subst heq
    have hnone : ¬ ∃ j < bits.ctz.toNat, bits.getLsbD j = true := by
      rintro ⟨j, hj, hjset⟩
      rw [hbelow j hj] at hjset
      cases hjset
    simp [hset, hi, hnone]
  · have hsome : ∃ j < i, bits.getLsbD j = true := ⟨_, hgt, hset⟩
    simp [hi, hsome, hgt.ne]

theorem shiftLeft_lt {m target : ℕ} (htarget : target < 64) (hm : m < 64) :
    1#64 <<< m < 1#64 <<< target ↔ m < target := by
  rw [← BitVec.twoPow_eq, ← BitVec.twoPow_eq, BitVec.lt_def, BitVec.toNat_twoPow_of_lt hm,
    BitVec.toNat_twoPow_of_lt htarget]
  exact Nat.pow_lt_pow_iff_right (by decide)

theorem shiftLeft_inj {m target : ℕ} (htarget : target < 64) (hm : m < 64) :
    1#64 <<< m = 1#64 <<< target ↔ m = target := by
  constructor
  · intro heq
    have hnot := (shiftLeft_lt htarget hm).not
    have hnot' := (shiftLeft_lt hm htarget).not
    rw [heq] at hnot hnot'
    have hle := not_lt.mp (hnot.mp (BitVec.lt_irrefl _))
    have hle' := not_lt.mp (hnot'.mp (BitVec.lt_irrefl _))
    omega
  · rintro rfl
    rfl

theorem searchBit_eq {target fuel s stop : ℕ} (hs : s ≤ target) (hstop : target < stop)
    (hmax : stop ≤ 64) (hfuel : stop - s ≤ fuel) :
    searchBit (1#64 <<< target) fuel s stop = some target := by
  induction fuel generalizing s stop with
  | zero => omega
  | succ fuel ih =>
      have hmiddle : (s + stop - 1) / 2 < 64 := by
        omega
      rw [searchBit, if_pos (by omega)]
      by_cases heq : (s + stop - 1) / 2 = target
      · rw [if_pos ((shiftLeft_inj (by omega) hmiddle).mpr heq), heq]
      · rw [if_neg ((shiftLeft_inj (by omega) hmiddle).not.mpr heq)]
        by_cases hlt : (s + stop - 1) / 2 < target
        · rw [if_pos ((shiftLeft_lt (by omega) hmiddle).mpr hlt)]
          exact ih (by omega) hstop hmax (by omega)
        · rw [if_neg ((shiftLeft_lt (by omega) hmiddle).not.mpr hlt)]
          exact ih hs (by omega) (by omega) (by omega)

/-- Without bits behind the workers, `SelectFreeWorker` returns the lowest one that is
free. -/
theorem selectFreeWorker_eq {workerNum : ℕ} {bits : BitVec 64} (hmax : workerNum ≤ 64)
    (hbelow : ∀ i, workerNum ≤ i → bits.getLsbD i = false) (hbits : bits ≠ 0) :
    ∃ id : Fin workerNum, selectFreeWorker workerNum bits = .worker id ∧
      bits.getLsbD id = true ∧ ∀ j < id.val, bits.getLsbD j = false := by
  have hset := BitVec.getLsbD_true_ctz_of_ne_zero hbits
  have hid : bits.ctz.toNat < workerNum := by
    by_contra hge
    rw [hbelow _ (not_lt.mp hge)] at hset
    cases hset
  have hlowest := and_not_add_one hbits
  have hsearch := @searchBit_eq bits.ctz.toNat workerNum 0 workerNum (Nat.zero_le _) hid hmax
    (by omega)
  have hnonzero : bits &&& (~~~bits + 1) ≠ 0 := (lowestBit_eq_zero_iff bits).not.mpr hbits
  refine ⟨⟨bits.ctz.toNat, hid⟩, ?_, hset, fun j hj => BitVec.getLsbD_false_of_lt_ctz hj⟩
  unfold selectFreeWorker
  rw [if_neg hnonzero, hlowest, BitVec.twoPow_eq, hsearch]
  simp only [dif_pos hid]

theorem searchBit_some {sel : BitVec 64} {fuel s stop id : ℕ}
    (hsearch : searchBit sel fuel s stop = some id) :
    1#64 <<< id = sel := by
  induction fuel generalizing s stop with
  | zero => cases hsearch
  | succ fuel ih =>
      rw [searchBit] at hsearch
      split_ifs at hsearch with hrange heq hlt
      · cases hsearch
        exact heq
      · exact ih hsearch
      · exact ih hsearch

theorem marked_of_selectFreeWorker {workerNum : ℕ} {bits : BitVec 64} {id : Fin workerNum}
    (hmax : workerNum ≤ 64) (hselect : selectFreeWorker workerNum bits = .worker id) :
    bits.getLsbD id = true := by
  unfold selectFreeWorker at hselect
  split_ifs at hselect
  split at hselect
  · cases hselect
  next found hsearch =>
    split_ifs at hselect
    cases hselect
    have hlowest := searchBit_some hsearch
    have hid : found < 64 := by
      omega
    have hset : (1#64 <<< found).getLsbD found = true := by
      rw [← BitVec.twoPow_eq, BitVec.getLsbD_twoPow]
      simp [hid]
    rw [hlowest, BitVec.getLsbD_and, Bool.and_eq_true] at hset
    exact hset.1

/-! ## The bitmap -/

/-- The bitmap in `DispatchTask`. -/
def dispatchBits (undefinedShift : ℕ → BitVec 64) (bits : BitVec 64) (id : ℕ) : BitVec 64 :=
  bits &&& ~~~ workerBit undefinedShift id

/-- The bitmap in `SetWorkerNotify` with a negative type. -/
def notifyBits (undefinedShift : ℕ → BitVec 64) (bits : BitVec 64) (id : ℕ) : BitVec 64 :=
  bits ||| workerBit undefinedShift id

/-- A change of the bitmap, with what an undefined shift yields there. -/
inductive BitAction (workerNum : ℕ) where
  | dispatchTask (id : Fin workerNum) (undefinedShift : ℕ → BitVec 64)
  | setWorkerNotify (id : Fin workerNum) (undefinedShift : ℕ → BitVec 64)

def bitStep {workerNum : ℕ} (bits : BitVec 64) : BitAction workerNum → Option (BitVec 64)
  | .dispatchTask id undefinedShift => some (dispatchBits undefinedShift bits id)
  | .setWorkerNotify id undefinedShift => some (notifyBits undefinedShift bits id)

def bitMachine (workerNum : ℕ) : Machine (BitVec 64) (BitAction workerNum) where
  start := initialBits workerNum
  step := bitStep

/-- No bit is set behind the workers, every change is that of one bit, and the worker of
the lowest one is selected. -/
structure Intact (workerNum : ℕ) (bits : BitVec 64) : Prop where
  below : ∀ i, workerNum ≤ i → bits.getLsbD i = false
  clears : ∀ undefinedShift (id : Fin workerNum) i,
    (dispatchBits undefinedShift bits id).getLsbD i = (bits.getLsbD i && decide (i ≠ id))
  sets : ∀ undefinedShift (id : Fin workerNum) i,
    (notifyBits undefinedShift bits id).getLsbD i = (bits.getLsbD i || decide (i = id))
  selects : bits ≠ 0 → ∃ id : Fin workerNum, selectFreeWorker workerNum bits = .worker id ∧
    bits.getLsbD id = true ∧ ∀ j < id.val, bits.getLsbD j = false
  nobody : bits = 0 → selectFreeWorker workerNum bits = .nobody

theorem getLsbD_initialBits {workerNum : ℕ} (hmax : workerNum ≤ 64) (i : ℕ) :
    (initialBits workerNum).getLsbD i = decide (i < workerNum) := by
  unfold initialBits
  rw [BitVec.getLsbD_ushiftRight, BitVec.getLsbD_shiftLeft, BitVec.getLsbD_allOnes]
  by_cases hi : i < workerNum
  · simp [hi]
    omega
  · simp [hi]
    omega

theorem getLsbD_workerBit {id : ℕ} (undefinedShift : ℕ → BitVec 64) (hid : id < 31) (i : ℕ) :
    (workerBit undefinedShift id).getLsbD i = decide (i = id) := by
  have hmsb : (1#32 <<< id).msb = false := by
    rw [BitVec.msb_eq_getLsbD_last, BitVec.getLsbD_shiftLeft, BitVec.getLsbD_one]
    simp
    omega
  unfold workerBit
  rw [if_pos (by omega), BitVec.getLsbD_signExtend, hmsb, BitVec.getLsbD_shiftLeft,
    BitVec.getLsbD_one]
  by_cases heq : i = id
  · subst heq
    simp
    omega
  · simp [heq]
    omega

theorem getLsbD_workerBit_last {i : ℕ} (undefinedShift : ℕ → BitVec 64) (hlow : 31 ≤ i)
    (hhigh : i < 64) :
    (workerBit undefinedShift 31).getLsbD i = true := by
  have hmsb : (1#32 <<< 31).msb = true := by
    decide
  unfold workerBit
  rw [if_pos (by decide), BitVec.getLsbD_signExtend, hmsb, BitVec.getLsbD_shiftLeft,
    BitVec.getLsbD_one]
  by_cases heq : i = 31
  · subst heq
    rfl
  · simp
    omega

theorem getLsbD_dispatchBits {id : ℕ} (undefinedShift : ℕ → BitVec 64) (bits : BitVec 64)
    (hid : id < 31) (i : ℕ) :
    (dispatchBits undefinedShift bits id).getLsbD i = (bits.getLsbD i && decide (i ≠ id)) := by
  unfold dispatchBits
  rw [BitVec.getLsbD_and, BitVec.getLsbD_not, getLsbD_workerBit undefinedShift hid]
  by_cases hi : i < 64
  · simp [hi]
  · simp [BitVec.getLsbD_of_ge bits i (not_lt.mp hi)]

theorem getLsbD_notifyBits {id : ℕ} (undefinedShift : ℕ → BitVec 64) (bits : BitVec 64)
    (hid : id < 31) (i : ℕ) :
    (notifyBits undefinedShift bits id).getLsbD i = (bits.getLsbD i || decide (i = id)) := by
  unfold notifyBits
  rw [BitVec.getLsbD_or, getLsbD_workerBit undefinedShift hid]

theorem bitMachine_below {workerNum : ℕ} {bits : BitVec 64} (hsmall : workerNum ≤ 31)
    (hreach : (bitMachine workerNum).Reachable bits) :
    ∀ i, workerNum ≤ i → bits.getLsbD i = false := by
  refine hreach.invariant (fun bits => ∀ i, workerNum ≤ i → bits.getLsbD i = false) ?_ ?_
  · intro i hi
    have hinitial := @getLsbD_initialBits workerNum (by omega) i
    exact hinitial.trans (decide_eq_false (by omega))
  · intro before action after hbefore _ hstep i hi
    have hkept := hbefore i hi
    cases action with
    | dispatchTask id undefinedShift =>
        cases hstep
        rw [getLsbD_dispatchBits undefinedShift before (by omega), hkept, Bool.false_and]
    | setWorkerNotify id undefinedShift =>
        cases hstep
        rw [getLsbD_notifyBits undefinedShift before (by omega), hkept]
        exact decide_eq_false (by omega)

theorem intact_of_small {workerNum : ℕ} {bits : BitVec 64} (hsmall : workerNum ≤ 31)
    (hreach : (bitMachine workerNum).Reachable bits) :
    Intact workerNum bits := by
  have hbelow := bitMachine_below hsmall hreach
  refine ⟨hbelow, ?_, ?_, selectFreeWorker_eq (by omega) hbelow, ?_⟩
  · intro undefinedShift id i
    exact getLsbD_dispatchBits undefinedShift bits (by omega) i
  · intro undefinedShift id i
    exact getLsbD_notifyBits undefinedShift bits (by omega) i
  · rintro rfl
    unfold selectFreeWorker
    exact if_pos ((lowestBit_eq_zero_iff 0).mpr rfl)

/-- With a worker 31 the mask of that worker changes the bit of another one, or of none,
already in the first step. -/
theorem not_intact_initialBits {workerNum : ℕ} (hlarge : 32 ≤ workerNum)
    (hmax : workerNum ≤ 64) :
    ¬ Intact workerNum (initialBits workerNum) := by
  intro hintact
  have hinitial := getLsbD_initialBits hmax 32
  have hmask := @getLsbD_workerBit_last 32 (fun _ => 0) (by decide) (by decide)
  by_cases hexact : workerNum = 32
  · have hset := hintact.sets (fun _ => 0) ⟨31, by omega⟩ 32
    unfold notifyBits at hset
    rw [BitVec.getLsbD_or, hmask, hinitial] at hset
    simp [hexact] at hset
  · have hclear := hintact.clears (fun _ => 0) ⟨31, by omega⟩ 32
    unfold dispatchBits at hclear
    rw [BitVec.getLsbD_and, BitVec.getLsbD_not, hmask, hinitial] at hclear
    simp at hclear
    omega

/-- The bitmap is intact in every run exactly when the pool has at most 31 workers. -/
theorem intact_iff {workerNum : ℕ} (hmax : workerNum ≤ 64) :
    (∀ bits, (bitMachine workerNum).Reachable bits → Intact workerNum bits) ↔
      workerNum ≤ 31 := by
  constructor
  · intro hall
    by_contra hlarge
    exact not_intact_initialBits (by omega) hmax (hall _ .start)
  · intro hsmall bits hreach
    exact intact_of_small hsmall hreach

theorem intact_thirtyOneWorkers :
    (∀ bits, (bitMachine 31).Reachable bits → Intact 31 bits) ∧
      ¬ ∀ bits, (bitMachine 32).Reachable bits → Intact 32 bits := by
  refine ⟨(intact_iff (by decide)).mpr le_rfl, fun hall => ?_⟩
  exact absurd ((intact_iff (by decide)).mp hall) (by decide)

/-- When worker 31 of 32 has finished a task there are bits of workers that do not
exist. -/
theorem not_intact_thirtyTwo :
    ¬ ∀ workerNum : ℕ, 0 < workerNum → workerNum ≤ 64 →
      ∀ bits, (bitMachine workerNum).Reachable bits → Intact workerNum bits := by
  intro hall
  exact not_intact_initialBits le_rfl (by decide) (hall 32 (by decide) (by decide) _ .start)

/-! ## The bitmap of the pool -/

variable {workerNum : ℕ} {undefinedShift : ℕ → BitVec 64}

/-- Whether a worker is marked as free. -/
def State.marked (state : State workerNum) (id : Fin workerNum) : Bool :=
  state.freeWorkerBit.getLsbD id

/-- A task that is bound to a worker. -/
def Bound (workerNum : ℕ) (task : Task) : Prop :=
  0 ≤ task.affinity ∧ task.affinity.toNat < workerNum

instance decidableBound (task : Task) : Decidable (Bound workerNum task) :=
  inferInstanceAs (Decidable (_ ∧ _))

/-- A worker has a task, or has not told yet that it is done with it. -/
def WorkerPc.busy : WorkerPc → ℕ
  | .run _ => 1
  | .notifyDone => 1
  | _ => 0

/-- A task is on its way into the mailbox. -/
def DispatcherPc.posting (id : Fin workerNum) : DispatcherPc workerNum → ℕ
  | .postTask target _ => if target = id then 1 else 0
  | _ => 0

/-- The tasks a worker has, from the moment its bit is cleared until it is set. -/
def State.load (state : State workerNum) (id : Fin workerNum) : ℕ :=
  state.dispatcher.pc.posting id + (state.workers id).mailbox.length + (state.workers id).pc.busy

/-- A worker that is neither running a task nor has one waiting. -/
def Worker.Free (worker : Worker) : Prop :=
  worker.mailbox = [] ∧ ∀ task, worker.pc ≠ .run task

/-- A worker that is selected is free, and so is the one that gets a task without
affinity. -/
structure State.FreeMeansFree (state : State workerNum) : Prop where
  selected : ∀ id, selectFreeWorker workerNum state.freeWorkerBit = .worker id →
    state.marked id = true → (state.workers id).Free
  dispatched : ∀ target task, state.dispatcher.pc = .postTask target task →
    ¬ Bound workerNum task → (state.workers target).Free

def State.TargetMarked (state : State workerNum) : DispatcherPc workerNum → Prop
  | .clearBit target task => Bound workerNum task → state.marked target = true
  | _ => True

instance decidableTargetMarked (state : State workerNum) : ∀ pc, Decidable (state.TargetMarked pc)
  | .prepareWorker => isTrue trivial
  | .waitNotify => isTrue trivial
  | .selectFreeWorker => isTrue trivial
  | .consume => isTrue trivial
  | .getInternalCmd => isTrue trivial
  | .getTask => isTrue trivial
  | .clearBit target task =>
      inferInstanceAs (Decidable (Bound workerNum task → state.marked target = true))
  | .postTask _ _ => isTrue trivial
  | .signalPost _ => isTrue trivial
  | .left => isTrue trivial

/-- A bound task is dispatched only to a worker that is marked as free. -/
def BoundToMarked (state : State workerNum) : Action workerNum → Prop
  | .dispatch => state.TargetMarked state.dispatcher.pc
  | _ => True

instance decidableBoundToMarked (state : State workerNum) :
    ∀ action, Decidable (BoundToMarked state action)
  | .post _ _ => isTrue trivial
  | .poster _ => isTrue trivial
  | .dispatch => inferInstanceAs (Decidable (state.TargetMarked state.dispatcher.pc))
  | .work _ _ => isTrue trivial
  | .stopPooling => isTrue trivial
  | .stop => isTrue trivial

/-- A worker that is marked has no task, and no worker has two. -/
structure State.LoadInvariant (state : State workerNum) : Prop where
  free : ∀ id, state.marked id = true → state.load id = 0
  single : ∀ id, state.load id ≤ 1
  held : ∀ id, state.dispatcher.freeWorker = some id → state.marked id = true
  unbound : ∀ target task, state.dispatcher.pc = .clearBit target task →
    ¬ Bound workerNum task → state.marked target = true
  handed : ∀ target task, state.dispatcher.pc = .clearBit target task →
    state.dispatcher.freeWorker ≠ some target

namespace State.LoadInvariant

variable {state state' : State workerNum}

theorem freeMeansFree (hinv : state.LoadInvariant) : state.FreeMeansFree := by
  have hfree : ∀ id, (state.workers id).mailbox.length + (state.workers id).pc.busy = 0 →
      (state.workers id).Free := by
    intro id hzero
    refine ⟨List.length_eq_zero_iff.mp (by omega), ?_⟩
    intro task hrun
    rw [hrun] at hzero
    simp [WorkerPc.busy] at hzero
  constructor
  · intro id _ hmarked
    have hload := hinv.free id hmarked
    unfold State.load at hload
    exact hfree id (by omega)
  · intro target task hpc _
    have hload := hinv.single target
    unfold State.load at hload
    rw [hpc] at hload
    simp only [DispatcherPc.posting, if_true] at hload
    exact hfree target (by omega)

theorem keep (hinv : state.LoadInvariant)
    (hbits : state'.freeWorkerBit = state.freeWorkerBit)
    (hload : ∀ id, state'.load id ≤ state.load id)
    (hheld : ∀ id, state'.dispatcher.freeWorker = some id → state.marked id = true)
    (hclear : ∀ target task, state'.dispatcher.pc = .clearBit target task →
      (¬ Bound workerNum task → state.marked target = true) ∧
        state'.dispatcher.freeWorker ≠ some target) :
    state'.LoadInvariant := by
  have hmarked : ∀ id, state'.marked id = state.marked id := by
    intro id
    unfold State.marked
    rw [hbits]
  refine ⟨?_, ?_, ?_, ?_, ?_⟩
  · intro id hset
    have hzero := hinv.free id ((hmarked id).symm.trans hset)
    have hle := hload id
    omega
  · intro id
    exact (hload id).trans (hinv.single id)
  · intro id hfree
    rw [hmarked]
    exact hheld id hfree
  · intro target task hpc hunbound
    rw [hmarked]
    exact (hclear target task hpc).1 hunbound
  · intro target task hpc
    exact (hclear target task hpc).2

theorem still (hinv : state.LoadInvariant)
    (hbits : state'.freeWorkerBit = state.freeWorkerBit)
    (hpc : state'.dispatcher.pc = state.dispatcher.pc)
    (hfree : state'.dispatcher.freeWorker = state.dispatcher.freeWorker)
    (hworkers : ∀ id, (state'.workers id).mailbox.length + (state'.workers id).pc.busy ≤
      (state.workers id).mailbox.length + (state.workers id).pc.busy) :
    state'.LoadInvariant := by
  refine hinv.keep hbits ?_ ?_ ?_
  · intro id
    have hle := hworkers id
    unfold State.load
    rw [hpc]
    omega
  · rw [hfree]
    exact hinv.held
  · rw [hpc, hfree]
    exact fun target task hclear =>
      ⟨hinv.unbound target task hclear, hinv.handed target task hclear⟩

theorem setWorker_le (state : State workerNum) {id : Fin workerNum} {worker : Worker}
    (hle : worker.mailbox.length + worker.pc.busy ≤
      (state.workers id).mailbox.length + (state.workers id).pc.busy)
    (other : Fin workerNum) :
    ((state.setWorker id worker).workers other).mailbox.length +
        ((state.setWorker id worker).workers other).pc.busy ≤
      (state.workers other).mailbox.length + (state.workers other).pc.busy :=
  state.setWorker_same
    (fun changed old =>
      changed.mailbox.length + changed.pc.busy ≤ old.mailbox.length + old.pc.busy)
    (fun _ => le_rfl) hle other

theorem poster (hinv : state.LoadInvariant) {thread : ℕ}
    (hstep : state.poster thread = some state') : state'.LoadInvariant := by
  unfold State.poster at hstep
  cases hpc : state.posters thread with
  | idle =>
      rw [hpc] at hstep
      cases hstep
  | push task =>
      simp only [hpc] at hstep
      split at hstep
      all_goals
        obtain rfl := Option.some.inj hstep
        exact hinv.still rfl rfl rfl fun _ => le_rfl
  | signalPost task =>
      simp only [hpc] at hstep
      obtain rfl := Option.some.inj hstep
      exact hinv.still rfl rfl rfl fun _ => le_rfl

theorem stop (hinv : state.LoadInvariant) (hstep : state.stop = some state') :
    state'.LoadInvariant := by
  unfold State.stop at hstep
  cases hpc : state.stopper with
  | pushWorker id =>
      simp only [hpc] at hstep
      split at hstep
      · split at hstep
        · obtain rfl := Option.some.inj hstep
          exact hinv.still rfl rfl rfl
            (setWorker_le { state with stopper := .signalWorker id } le_rfl)
        · obtain rfl := Option.some.inj hstep
          exact hinv.still rfl rfl rfl fun _ => le_rfl
      · cases hstep
  | signalWorker id =>
      simp only [hpc] at hstep
      split at hstep
      · obtain rfl := Option.some.inj hstep
        exact hinv.still rfl rfl rfl
          (setWorker_le { state with stopper := .joinWorker id } le_rfl)
      · cases hstep
  | _ =>
      simp only [hpc] at hstep
      repeat' split at hstep
      all_goals
        first
        | obtain rfl := Option.some.inj hstep
          exact hinv.still rfl rfl rfl fun _ => le_rfl
        | cases hstep

theorem notifyDone (hinv : state.LoadInvariant) {id : Fin workerNum} (hsmall : workerNum ≤ 31)
    (hpc : (state.workers id).pc = .notifyDone) :
    ({ state with
      freeWorkerBit := notifyBits undefinedShift state.freeWorkerBit id }.setWorker id
        { state.workers id with pc := .tryConsume 0 }).LoadInvariant := by
  have hmarked : ∀ other,
      ({ state with
        freeWorkerBit := notifyBits undefinedShift state.freeWorkerBit id }.setWorker id
          { state.workers id with pc := .tryConsume 0 }).marked other =
        (state.marked other || decide (other = id)) := by
    intro other
    have hbit := getLsbD_notifyBits undefinedShift state.freeWorkerBit
      (show id.val < 31 by omega) other
    refine hbit.trans ?_
    simp [State.marked, Fin.ext_iff]
  have hload := hinv.single id
  unfold State.load at hload
  rw [hpc] at hload
  simp only [WorkerPc.busy] at hload
  have hzero : state.dispatcher.pc.posting id + (state.workers id).mailbox.length = 0 := by
    omega
  have hsame : ∀ other, other ≠ id →
      ({ state with
        freeWorkerBit := notifyBits undefinedShift state.freeWorkerBit id }.setWorker id
          { state.workers id with pc := .tryConsume 0 }).load other = state.load other := by
    intro other hne
    simp [State.load, State.setWorker, Function.update, hne]
  have hself :
      ({ state with
        freeWorkerBit := notifyBits undefinedShift state.freeWorkerBit id }.setWorker id
          { state.workers id with pc := .tryConsume 0 }).load id = 0 := by
    simpa [State.load, State.setWorker, WorkerPc.busy] using hzero
  refine ⟨?_, ?_, ?_, ?_, hinv.handed⟩
  · intro other hset
    by_cases heq : other = id
    · rw [heq, hself]
    · rw [hsame other heq]
      rw [hmarked] at hset
      simp only [heq, decide_false, Bool.or_false] at hset
      exact hinv.free other hset
  · intro other
    by_cases heq : other = id
    · rw [heq, hself]
      exact Nat.zero_le 1
    · rw [hsame other heq]
      exact hinv.single other
  · intro other hfree
    rw [hmarked, hinv.held other hfree, Bool.true_or]
  · intro target task hclear hunbound
    rw [hmarked, hinv.unbound target task hclear hunbound, Bool.true_or]

theorem work (hinv : state.LoadInvariant) {id : Fin workerNum} {expired : Bool}
    (hsmall : workerNum ≤ 31)
    (hstep : state.work undefinedShift id expired = some state') : state'.LoadInvariant := by
  unfold State.work at hstep
  cases hpc : (state.workers id).pc with
  | notifyDone =>
      simp only [hpc, Option.some.injEq] at hstep
      subst hstep
      exact hinv.notifyDone hsmall hpc
  | getTask =>
      simp only [hpc] at hstep
      split at hstep
      · obtain rfl := Option.some.inj hstep
        exact hinv.still rfl rfl rfl fun _ => le_rfl
      next task rest hmailbox =>
        obtain rfl := Option.some.inj hstep
        refine hinv.still rfl rfl rfl (setWorker_le state ?_)
        simp [hpc, hmailbox, WorkerPc.busy]
  | _ =>
      simp only [hpc] at hstep
      repeat' split at hstep
      all_goals
        first
        | obtain rfl := Option.some.inj hstep
          exact hinv.still rfl rfl rfl (setWorker_le _ (by simp [hpc, WorkerPc.busy]))
        | cases hstep

theorem clearBit (hinv : state.LoadInvariant) {target : Fin workerNum} {task : Task}
    (hsmall : workerNum ≤ 31) (hpc : state.dispatcher.pc = .clearBit target task)
    (hset : state.marked target = true) :
    ({ state with
      freeWorkerBit := dispatchBits undefinedShift state.freeWorkerBit target
      dispatcher := { state.dispatcher with pc := .postTask target task } }).LoadInvariant := by
  have hmarked : ∀ other,
      ({ state with
        freeWorkerBit := dispatchBits undefinedShift state.freeWorkerBit target
        dispatcher :=
          { state.dispatcher with pc := .postTask target task } } : State workerNum).marked other =
        (state.marked other && decide (other ≠ target)) := by
    intro other
    have hbit := getLsbD_dispatchBits undefinedShift state.freeWorkerBit
      (show target.val < 31 by omega) other
    refine hbit.trans ?_
    simp [State.marked, Fin.ext_iff]
  have hload : ∀ other,
      ({ state with
        freeWorkerBit := dispatchBits undefinedShift state.freeWorkerBit target
        dispatcher :=
          { state.dispatcher with pc := .postTask target task } } : State workerNum).load other =
        state.load other + if target = other then 1 else 0 := by
    intro other
    unfold State.load
    rw [hpc]
    simp only [DispatcherPc.posting]
    omega
  refine ⟨?_, ?_, ?_, nofun, nofun⟩
  · intro other hother
    rw [hmarked, Bool.and_eq_true, decide_eq_true_eq] at hother
    rw [hload, hinv.free other hother.1, if_neg (Ne.symm hother.2)]
  · intro other
    rw [hload]
    by_cases heq : target = other
    · subst heq
      rw [hinv.free target hset, if_pos rfl]
    · rw [if_neg heq, Nat.add_zero]
      exact hinv.single other
  · intro other hfree
    have hne : other ≠ target := by
      rintro rfl
      exact hinv.handed other task hpc hfree
    rw [hmarked, hinv.held other hfree, Bool.true_and]
    exact decide_eq_true hne

theorem getTask (hinv : state.LoadInvariant) {target : Fin workerNum} {task : Task}
    {queue : Array Task} (hpc : state.dispatcher.pc = .getTask)
    (htarget : state.dispatcher.target task = some target) :
    ({ state with
      dispatcher := { state.dispatcher with
        pc := .clearBit target task
        queue := queue
        freeWorker :=
          if state.dispatcher.freeWorker = some target then none
          else state.dispatcher.freeWorker } }).LoadInvariant := by
  refine hinv.keep rfl ?_ ?_ ?_
  · intro id
    unfold State.load
    rw [hpc]
    exact le_rfl
  · intro id hfree
    simp only at hfree
    split_ifs at hfree
    exact hinv.held id hfree
  · intro other otherTask hclear
    obtain ⟨rfl, rfl⟩ := DispatcherPc.clearBit.inj hclear
    constructor
    · intro hunbound
      unfold Dispatcher.target at htarget
      unfold Bound at hunbound
      rw [dif_neg hunbound] at htarget
      exact hinv.held target htarget
    · simp only
      split_ifs with hsame
      · nofun
      · exact hsame

theorem postTask (hinv : state.LoadInvariant) {target : Fin workerNum} {task : Task}
    (hpc : state.dispatcher.pc = .postTask target task)
    (hstep : state.dispatch undefinedShift = some state') : state'.LoadInvariant := by
  unfold State.dispatch at hstep
  simp only [hpc] at hstep
  split at hstep
  · obtain rfl := Option.some.inj hstep
    refine hinv.keep rfl ?_ hinv.held nofun
    intro id
    by_cases heq : id = target
    · subst heq
      simp [State.load, State.setWorker, hpc, DispatcherPc.posting]
    · simp [State.load, State.setWorker, Function.update, heq, DispatcherPc.posting]
  · obtain rfl := Option.some.inj hstep
    refine hinv.keep rfl ?_ hinv.held nofun
    intro id
    simp [State.load, DispatcherPc.posting]

theorem dispatch (hinv : state.LoadInvariant) (hsmall : workerNum ≤ 31)
    (hbound : BoundToMarked state .dispatch)
    (hstep : state.dispatch undefinedShift = some state') : state'.LoadInvariant := by
  cases hpc : state.dispatcher.pc with
  | postTask target task => exact hinv.postTask hpc hstep
  | clearBit target task =>
      unfold State.dispatch at hstep
      simp only [hpc, Option.some.injEq] at hstep
      subst hstep
      refine hinv.clearBit hsmall hpc ?_
      have hmarked : state.TargetMarked state.dispatcher.pc := hbound
      rw [hpc] at hmarked
      by_cases htask : Bound workerNum task
      · exact hmarked htask
      · exact hinv.unbound target task hpc htask
  | getTask =>
      unfold State.dispatch at hstep
      simp only [hpc] at hstep
      split at hstep
      · obtain rfl := Option.some.inj hstep
        exact hinv.still rfl rfl rfl fun _ => le_rfl
      · split at hstep
        · obtain rfl := Option.some.inj hstep
          exact hinv.still rfl rfl rfl fun _ => le_rfl
        next target htarget =>
          obtain rfl := Option.some.inj hstep
          exact hinv.getTask hpc htarget
  | selectFreeWorker =>
      unfold State.dispatch at hstep
      simp only [hpc] at hstep
      split at hstep
      · obtain rfl := Option.some.inj hstep
        refine hinv.keep rfl (fun id => ?_) hinv.held nofun
        simp [State.load, DispatcherPc.posting]
      next id hselect =>
        obtain rfl := Option.some.inj hstep
        refine hinv.keep rfl (fun id => ?_) ?_ nofun
        · simp [State.load, DispatcherPc.posting]
        · intro other hfree
          cases hfree
          exact marked_of_selectFreeWorker (by omega) hselect
      · obtain rfl := Option.some.inj hstep
        exact hinv.still rfl rfl rfl fun _ => le_rfl
  | signalPost target =>
      unfold State.dispatch at hstep
      simp only [hpc, Option.some.injEq] at hstep
      subst hstep
      refine hinv.keep rfl (fun id => ?_) hinv.held nofun
      have hworkers := setWorker_le state (show
        ({ state.workers target with sem := (state.workers target).sem + 1 } :
            Worker).mailbox.length + (state.workers target).pc.busy ≤ _ from le_rfl) id
      unfold State.load
      rw [hpc]
      simp only [DispatcherPc.posting, State.setWorker] at hworkers ⊢
      omega
  | _ =>
      unfold State.dispatch at hstep
      simp only [hpc] at hstep
      repeat' split at hstep
      all_goals
        first
        | obtain rfl := Option.some.inj hstep
          refine hinv.keep rfl (fun id => ?_) hinv.held nofun
          simp [State.load, DispatcherPc.posting]
        | cases hstep

theorem step (hinv : state.LoadInvariant) {action : Action workerNum} (hsmall : workerNum ≤ 31)
    (hbound : BoundToMarked state action)
    (hstep : state.step undefinedShift action = some state') : state'.LoadInvariant := by
  unfold State.step at hstep
  split at hstep
  · cases hstep
  cases action with
  | post thread task =>
      simp only at hstep
      split at hstep
      · obtain rfl := Option.some.inj hstep
        exact hinv.still rfl rfl rfl fun _ => le_rfl
      · cases hstep
  | poster thread => exact hinv.poster hstep
  | dispatch => exact hinv.dispatch hsmall hbound hstep
  | work id expired => exact hinv.work hsmall hstep
  | stopPooling =>
      simp only at hstep
      split at hstep
      · obtain rfl := Option.some.inj hstep
        exact hinv.still rfl rfl rfl fun _ => le_rfl
      · cases hstep
  | stop => exact hinv.stop hstep

end State.LoadInvariant

/-! ## Whole runs of the pool -/

/-- A step of the pool leaves the bitmap as it is, or changes it as `DispatchTask` and
`SetWorkerNotify` do. -/
theorem State.step_freeWorkerBit {state state' : State workerNum} {action : Action workerNum}
    (hstep : state.step undefinedShift action = some state') :
    state'.freeWorkerBit = state.freeWorkerBit ∨
      ∃ change : BitAction workerNum,
        bitStep state.freeWorkerBit change = some state'.freeWorkerBit := by
  unfold State.step at hstep
  split at hstep
  · cases hstep
  cases action with
  | dispatch =>
      simp only [State.dispatch] at hstep
      split at hstep
      case h_7 target task _ =>
          obtain rfl := Option.some.inj hstep
          exact .inr ⟨.dispatchTask target undefinedShift, rfl⟩
      all_goals
        repeat' split at hstep
        all_goals
          first
          | obtain rfl := Option.some.inj hstep
            exact .inl rfl
          | cases hstep
  | work id expired =>
      simp only [State.work] at hstep
      split at hstep
      case h_7 =>
          obtain rfl := Option.some.inj hstep
          exact .inr ⟨.setWorkerNotify id undefinedShift, rfl⟩
      all_goals
        repeat' split at hstep
        all_goals
          first
          | obtain rfl := Option.some.inj hstep
            exact .inl rfl
          | cases hstep
  | _ =>
      simp only [State.poster, State.stop] at hstep
      repeat' split at hstep
      all_goals
        first
        | obtain rfl := Option.some.inj hstep
          exact .inl rfl
        | cases hstep

theorem intact_freeWorkerBit {state : State workerNum} (hsmall : workerNum ≤ 31)
    (hreach : (machine undefinedShift workerNum).Reachable state) :
    Intact workerNum state.freeWorkerBit := by
  refine intact_of_small hsmall ?_
  have hstart : (bitMachine workerNum).Reachable (initialBits workerNum) := .start
  refine hreach.invariant
    (fun state : State workerNum => (bitMachine workerNum).Reachable state.freeWorkerBit)
    hstart ?_
  intro before action after hbefore _ hstep
  rcases State.step_freeWorkerBit hstep with hsame | ⟨change, hchange⟩
  · rw [hsame]
    exact hbefore
  · exact .step hbefore trivial hchange

theorem start_loadInvariant (workerNum : ℕ) : (start workerNum).LoadInvariant := by
  have hload : ∀ id, (start workerNum).load id = 0 := by
    intro id
    rfl
  refine ⟨fun id _ => hload id, fun id => ?_, nofun, nofun, nofun⟩
  rw [hload]
  exact Nat.zero_le 1

/-- In every run in which bound tasks go to marked workers only, a marked worker is
free. -/
theorem freeMeansFree_of_boundToMarked {state : State workerNum} (hsmall : workerNum ≤ 31)
    (hreached : (machine undefinedShift workerNum).ReachedBy BoundToMarked state) :
    state.FreeMeansFree := by
  have hinv : state.LoadInvariant := by
    refine hreached.invariant State.LoadInvariant (start_loadInvariant workerNum) ?_
    intro before action after hbefore hbound hstep
    exact hbefore.step hsmall hbound hstep
  exact hinv.freeMeansFree

/-- One task that is bound to the first of two workers, and that is run. -/
def runsBoundTask : List (Action 2) :=
  [.post 0 ⟨0, 0, .normal⟩, .poster 0, .poster 0,
    .dispatch, .dispatch, .dispatch, .dispatch, .dispatch, .dispatch,
    .dispatch, .dispatch, .dispatch,
    .work 0 false, .work 0 false, .work 0 false, .work 0 false, .work 0 false]

theorem freeMeansFree_runsBoundTask :
    ∃ state, (machine (fun _ => 0) 2).run runsBoundTask = some state ∧
      state.done = [⟨0, 0, .normal⟩] ∧ state.FreeMeansFree := by
  have hreached : ∀ state,
      (machine (fun _ => 0) 2).run runsBoundTask = some state →
        (machine (fun _ => 0) 2).ReachedBy BoundToMarked state := by
    intro state hrun
    exact Machine.ReachedBy.runFrom .start (by decide +kernel) hrun
  refine ⟨_, rfl, rfl, ?_⟩
  exact freeMeansFree_of_boundToMarked (by decide) (hreached _ rfl)

/-- Two tasks that are bound to the first of two workers; the worker has finished one
of them. -/
def runsFirstOfTwo : List (Action 2) :=
  [.post 0 ⟨0, 0, .normal⟩, .poster 0, .poster 0,
    .post 0 ⟨1, 0, .normal⟩, .poster 0, .poster 0,
    .dispatch, .dispatch, .dispatch, .dispatch, .dispatch, .dispatch,
    .dispatch, .dispatch, .dispatch,
    .dispatch, .dispatch, .dispatch, .dispatch, .dispatch, .dispatch,
    .dispatch, .dispatch, .dispatch,
    .work 0 false, .work 0 false, .work 0 false, .work 0 false, .work 0 false]

/-- The worker is marked as free while a task waits in its mailbox. -/
theorem not_freeMeansFree_runsFirstOfTwo :
    ¬ ∀ (workerNum : ℕ) (undefinedShift : ℕ → BitVec 64) (state : State workerNum),
      workerNum ≤ 31 → (machine undefinedShift workerNum).Reachable state →
        state.FreeMeansFree := by
  intro hall
  have hrun : ((machine (fun _ => 0) 2).run runsFirstOfTwo).map (fun state =>
      (selectFreeWorker 2 state.freeWorkerBit, state.marked 0,
        (state.workers 0).mailbox.length)) =
      some (.worker 0, true, 1) := by
    decide +kernel
  obtain ⟨state, hstate, hfacts⟩ := Option.map_eq_some_iff.mp hrun
  simp only [Prod.mk.injEq] at hfacts
  obtain ⟨hselected, hmarked, hmailbox⟩ := hfacts
  have hfree := hall 2 (fun _ => 0) state (by decide)
    (Machine.Reachable.runFrom .start hstate)
  have hempty := (hfree.selected 0 hselected hmarked).1
  rw [hempty] at hmailbox
  cases hmailbox

end ThreadPool
end BackEndFacility
