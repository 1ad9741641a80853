import BackEndFacility.ThreadPool

/-!
# Shutting the thread pool down

`StopPooling` posts the exit command of the dispatcher, then ends the workers
one after the other, and then waits for the dispatcher.  The dispatcher looks
at its commands only after `PrepareWorker` has given it a free worker, and
only workers can provide one.  So the moment that decides is the one in which
the last worker takes its exit command: what the dispatcher then has in
`freeWorker_`, `workerNotify_` and `freeWorkerBit_` must bring it past
`PrepareWorker` once more.
-/

namespace BackEndFacility
namespace ThreadPool

variable {workerNum : ℕ}

def State.AllLeft (state : State workerNum) : Prop :=
  ∀ id, (state.workers id).pc = .left

/-- `PrepareWorker` succeeds without any further help from a worker. -/
def State.Prepared (state : State workerNum) (bits : BitVec 64) : Prop :=
  state.dispatcher.freeWorker ≠ none ∨ (0 < state.workerNotify ∧ bits ≠ 0)

/-- The dispatcher gets to its command queue without any further help from a
worker. -/
def State.ReachesCommands (undefinedShift : ℕ → BitVec 64)
    (state : State workerNum) : Prop :=
  match state.dispatcher.pc with
  | .prepareWorker => state.Prepared state.freeWorkerBit
  | .waitNotify => 0 < state.workerNotify ∧ state.freeWorkerBit ≠ 0
  | .selectFreeWorker => state.freeWorkerBit ≠ 0
  | .consume => True
  | .getInternalCmd => True
  | .getTask =>
      0 < state.workerNotify ∧
        ∀ id, state.dispatcher.freeWorker = some id →
          state.freeWorkerBit &&& ~~~ workerBit undefinedShift id ≠ 0
  | .clearBit target _ =>
      state.Prepared
        (state.freeWorkerBit &&& ~~~ workerBit undefinedShift target)
  | .postTask _ _ => state.Prepared state.freeWorkerBit
  | .signalPost _ => state.Prepared state.freeWorkerBit
  | .left => True

/-- When the last worker takes its exit command, the dispatcher can still get
to its own. -/
def LastExitServed (undefinedShift : ℕ → BitVec 64)
    (state : State workerNum) : Action workerNum → Prop
  | .work id _ =>
      (state.workers id).pc = .getInternalCmd → 0 < (state.workers id).cmd →
        (∀ other, other ≠ id → (state.workers other).pc = .left) →
          state.ReachesCommands undefinedShift
  | _ => True

instance decidablePrepared (state : State workerNum) (bits : BitVec 64) :
    Decidable (state.Prepared bits) :=
  inferInstanceAs (Decidable (_ ∨ _))

instance decidableReachesCommands (undefinedShift : ℕ → BitVec 64)
    (state : State workerNum) :
    Decidable (state.ReachesCommands undefinedShift) := by
  unfold State.ReachesCommands
  split <;> infer_instance

instance decidableLastExitServed (undefinedShift : ℕ → BitVec 64)
    (state : State workerNum) :
    ∀ action, Decidable (LastExitServed undefinedShift state action)
  | .work _ _ => inferInstanceAs (Decidable (_ → _))
  | .post _ _ => isTrue trivial
  | .poster _ => isTrue trivial
  | .dispatch => isTrue trivial
  | .stopPooling => isTrue trivial
  | .stop => isTrue trivial

/-! ## The invariant -/

/-- `StopPooling` has not posted any exit command yet. -/
def StopPc.Early : StopPc → Prop
  | .idle => True
  | .pushDispatcher => True
  | _ => False

structure State.ShutdownInvariant (undefinedShift : ℕ → BitVec 64)
    (state : State workerNum) : Prop where
  quiet : state.stopper.Early →
    ∀ id, (state.workers id).cmd = 0 ∧ (state.workers id).pc ≠ .left
  exitPosted : ¬ state.stopper.Early →
    0 < state.dispatcher.cmd ∨ state.dispatcher.pc = .left
  served : state.AllLeft → state.ReachesCommands undefinedShift

namespace State.ShutdownInvariant

variable {undefinedShift : ℕ → BitVec 64} {state : State workerNum}

theorem not_early (hinv : state.ShutdownInvariant undefinedShift)
    {id : Fin workerNum} (hleft : (state.workers id).pc = .left) :
    ¬ state.stopper.Early :=
  fun hearly => (hinv.quiet hearly id).2 hleft

theorem exitPosted_of_left (hinv : state.ShutdownInvariant undefinedShift)
    (hpositive : 0 < workerNum) (hleft : state.AllLeft) :
    0 < state.dispatcher.cmd ∨ state.dispatcher.pc = .left :=
  hinv.exitPosted (hinv.not_early (hleft ⟨0, hpositive⟩))

/-! ## Steps of the posting threads and of `StopPooling` -/

/-- A step that leaves the program counters and the dispatcher's view of the
workers alone, and posts at most an exit command for the dispatcher. -/
theorem frame (hinv : state.ShutdownInvariant undefinedShift)
    {state' : State workerNum}
    (hpc : state'.dispatcher.pc = state.dispatcher.pc)
    (hfree : state'.dispatcher.freeWorker = state.dispatcher.freeWorker)
    (hnotify : state'.workerNotify = state.workerNotify)
    (hbits : state'.freeWorkerBit = state.freeWorkerBit)
    (hworkers : ∀ id, (state'.workers id).pc = (state.workers id).pc)
    (hquiet : state'.stopper.Early → state.stopper.Early ∧
      ∀ id, (state'.workers id).cmd = (state.workers id).cmd)
    (hposted : ¬ state'.stopper.Early →
      0 < state'.dispatcher.cmd ∨ state'.dispatcher.pc = .left) :
    state'.ShutdownInvariant undefinedShift := by
  constructor
  · intro hearly id
    obtain ⟨hbefore, hcmd⟩ := hquiet hearly
    rw [hcmd id, hworkers id]
    exact hinv.quiet hbefore id
  · exact hposted
  · intro hleft
    have hserved := hinv.served fun id => (hworkers id).symm.trans (hleft id)
    unfold State.ReachesCommands State.Prepared at hserved ⊢
    rw [hpc, hfree, hnotify, hbits]
    exact hserved

theorem poster (hinv : state.ShutdownInvariant undefinedShift)
    {thread : ℕ} {state' : State workerNum}
    (hstep : state.poster thread = some state') :
    state'.ShutdownInvariant undefinedShift := by
  unfold State.poster at hstep
  cases hpc : state.posters thread with
  | idle => simp [hpc] at hstep
  | push task =>
      simp only [hpc] at hstep
      split at hstep
      · obtain rfl := Option.some.inj hstep
        exact hinv.frame rfl rfl rfl rfl (fun _ => rfl)
          (fun hearly => ⟨hearly, fun _ => rfl⟩) hinv.exitPosted
      · obtain rfl := Option.some.inj hstep
        exact hinv.frame rfl rfl rfl rfl (fun _ => rfl)
          (fun hearly => ⟨hearly, fun _ => rfl⟩) hinv.exitPosted
  | signalPost task =>
      simp only [hpc, Option.some.injEq] at hstep
      subst hstep
      exact hinv.frame rfl rfl rfl rfl (fun _ => rfl)
        (fun hearly => ⟨hearly, fun _ => rfl⟩) hinv.exitPosted

theorem nextWorker_not_early (id : ℕ) :
    ¬ (StopPc.nextWorker workerNum id).Early := by
  unfold StopPc.nextWorker
  split <;> simp [StopPc.Early]

theorem setWorker_pc (state : State workerNum) (id other : Fin workerNum)
    {worker : Worker} (hpc : worker.pc = (state.workers id).pc) :
    ((state.setWorker id worker).workers other).pc =
      (state.workers other).pc :=
  state.setWorker_same (fun changed old => changed.pc = old.pc) (fun _ => rfl) hpc other

theorem stop (hinv : state.ShutdownInvariant undefinedShift)
    {state' : State workerNum} (hstep : state.stop = some state') :
    state'.ShutdownInvariant undefinedShift := by
  unfold State.stop at hstep
  cases hpc : state.stopper with
  | idle => simp [hpc] at hstep
  | pushDispatcher =>
      simp only [hpc] at hstep
      split at hstep
      · obtain rfl := Option.some.inj hstep
        exact hinv.frame rfl rfl rfl rfl (fun _ => rfl)
          (fun hearly => hearly.elim) (fun _ => .inl (Nat.succ_pos _))
      next hfull =>
        obtain rfl := Option.some.inj hstep
        have hcmd : 0 < state.dispatcher.cmd := by
          unfold maxSz at hfull
          omega
        exact hinv.frame rfl rfl rfl rfl (fun _ => rfl)
          (fun hearly => hearly.elim) (fun _ => .inl hcmd)
  | signalDispatcher =>
      have hposted := hinv.exitPosted (by simp [hpc, StopPc.Early])
      simp only [hpc, Option.some.injEq] at hstep
      subst hstep
      exact hinv.frame rfl rfl rfl rfl (fun _ => rfl)
        (fun hearly => absurd hearly (nextWorker_not_early 0))
        (fun _ => hposted)
  | pushWorker id =>
      have hposted := hinv.exitPosted (by simp [hpc, StopPc.Early])
      simp only [hpc] at hstep
      split at hstep
      · split at hstep
        · obtain rfl := Option.some.inj hstep
          exact hinv.frame rfl rfl rfl rfl
            (fun other => setWorker_pc _ _ other rfl)
            (fun hearly => hearly.elim) (fun _ => hposted)
        · obtain rfl := Option.some.inj hstep
          exact hinv.frame rfl rfl rfl rfl (fun _ => rfl)
            (fun hearly => absurd hearly (nextWorker_not_early _))
            (fun _ => hposted)
      · simp at hstep
  | signalWorker id =>
      have hposted := hinv.exitPosted (by simp [hpc, StopPc.Early])
      simp only [hpc] at hstep
      split at hstep
      · obtain rfl := Option.some.inj hstep
        exact hinv.frame rfl rfl rfl rfl
          (fun other => setWorker_pc _ _ other rfl)
          (fun hearly => hearly.elim) (fun _ => hposted)
      · simp at hstep
  | joinWorker id =>
      have hposted := hinv.exitPosted (by simp [hpc, StopPc.Early])
      simp only [hpc] at hstep
      split at hstep
      · split at hstep
        · obtain rfl := Option.some.inj hstep
          exact hinv.frame rfl rfl rfl rfl (fun _ => rfl)
            (fun hearly => absurd hearly (nextWorker_not_early _))
            (fun _ => hposted)
        · simp at hstep
      · simp at hstep
  | joinDispatcher =>
      have hposted := hinv.exitPosted (by simp [hpc, StopPc.Early])
      simp only [hpc] at hstep
      split at hstep
      · obtain rfl := Option.some.inj hstep
        exact hinv.frame rfl rfl rfl rfl (fun _ => rfl)
          (fun hearly => hearly.elim) (fun _ => hposted)
      · simp at hstep
  | returned => simp [hpc] at hstep

/-! ## Steps of a worker -/

/-- A step of one worker.  It leaves only by an exit command, and then the
dispatcher must be served if it is the last one. -/
theorem workerStep (hinv : state.ShutdownInvariant undefinedShift)
    {id : Fin workerNum} {worker : Worker} {notify : ℕ}
    {bits : BitVec 64} {done : List Task}
    (hbefore : (state.workers id).pc ≠ .left)
    (hcmd : worker.cmd ≤ (state.workers id).cmd)
    (hleaves : worker.pc = .left →
      0 < (state.workers id).cmd ∧ notify = state.workerNotify ∧
        bits = state.freeWorkerBit ∧
          ((∀ other, other ≠ id → (state.workers other).pc = .left) →
            state.ReachesCommands undefinedShift)) :
    ({ state with
      workerNotify := notify
      freeWorkerBit := bits
      done := done }.setWorker id worker).ShutdownInvariant
        undefinedShift := by
  constructor
  · intro hearly other
    by_cases heq : other = id
    · subst heq
      obtain ⟨hzero, -⟩ := hinv.quiet hearly other
      simp only [State.setWorker, Function.update_self]
      refine ⟨by omega, fun hleft => ?_⟩
      obtain ⟨hpositive, -⟩ := hleaves hleft
      omega
    · simpa [State.setWorker, Function.update, heq] using
        hinv.quiet hearly other
  · exact hinv.exitPosted
  · intro hleft
    have hlast : worker.pc = .left := by
      simpa [State.setWorker] using hleft id
    obtain ⟨-, rfl, rfl, hserved⟩ := hleaves hlast
    apply hserved
    intro other hother
    simpa [State.setWorker, Function.update, hother] using hleft other

theorem work (hinv : state.ShutdownInvariant undefinedShift)
    {id : Fin workerNum} {expired : Bool} {state' : State workerNum}
    (hserved : LastExitServed undefinedShift state (.work id expired))
    (hstep : state.work undefinedShift id expired = some state') :
    state'.ShutdownInvariant undefinedShift := by
  unfold State.work at hstep
  cases hpc : (state.workers id).pc with
  | tryConsume req =>
      simp only [hpc] at hstep
      split at hstep
      · obtain rfl := Option.some.inj hstep
        exact hinv.workerStep (by simp [hpc]) le_rfl (by simp)
      · split at hstep
        · simp at hstep
        · obtain rfl := Option.some.inj hstep
          exact hinv.workerStep (by simp [hpc]) le_rfl (by simp)
  | notify req =>
      simp only [hpc, Option.some.injEq] at hstep
      subst hstep
      exact hinv.workerStep (by simp [hpc]) le_rfl (by simp)
  | consumeTimeout req =>
      simp only [hpc] at hstep
      split at hstep
      · obtain rfl := Option.some.inj hstep
        exact hinv.workerStep (by simp [hpc]) le_rfl (by simp)
      · split at hstep
        · obtain rfl := Option.some.inj hstep
          exact hinv.workerStep (by simp [hpc]) le_rfl (by simp)
        · simp at hstep
  | getInternalCmd =>
      simp only [hpc] at hstep
      split at hstep
      next hcmd =>
        obtain rfl := Option.some.inj hstep
        exact hinv.workerStep (by simp [hpc]) (Nat.sub_le _ 1)
          (fun _ => ⟨hcmd, rfl, rfl, hserved hpc hcmd⟩)
      next =>
        obtain rfl := Option.some.inj hstep
        exact hinv.workerStep (by simp [hpc]) le_rfl (by simp)
  | getTask =>
      simp only [hpc] at hstep
      split at hstep
      · obtain rfl := Option.some.inj hstep
        exact hinv.frame rfl rfl rfl rfl (fun _ => rfl)
          (fun hearly => ⟨hearly, fun _ => rfl⟩) hinv.exitPosted
      · obtain rfl := Option.some.inj hstep
        exact hinv.workerStep (by simp [hpc]) le_rfl (by simp)
  | run task =>
      simp only [hpc, Option.some.injEq] at hstep
      subst hstep
      exact hinv.workerStep (by simp [hpc]) le_rfl (by simp)
  | notifyDone =>
      simp only [hpc, Option.some.injEq] at hstep
      subst hstep
      exact hinv.workerStep (by simp [hpc]) le_rfl (by simp)
  | left => simp [hpc] at hstep

/-! ## Steps of the dispatcher -/

/-- A step of the dispatcher.  Once all workers are gone its exit command is
there, and it stays on its way to the commands. -/
theorem dispatcherStep (hinv : state.ShutdownInvariant undefinedShift)
    {state' : State workerNum}
    (hstopper : state'.stopper = state.stopper)
    (hworkers : ∀ id, (state'.workers id).pc = (state.workers id).pc ∧
      (state'.workers id).cmd = (state.workers id).cmd)
    (hbefore : state.dispatcher.pc ≠ .left)
    (hcmd : state'.dispatcher.cmd = state.dispatcher.cmd ∨
      state'.dispatcher.pc = .left)
    (hserved : state.AllLeft → state.ReachesCommands undefinedShift →
      state'.ReachesCommands undefinedShift) :
    state'.ShutdownInvariant undefinedShift := by
  constructor
  · intro hearly id
    rw [hstopper] at hearly
    rw [(hworkers id).1, (hworkers id).2]
    exact hinv.quiet hearly id
  · intro hlate
    rw [hstopper] at hlate
    rcases hcmd with hsame | hleft
    · rw [hsame]
      exact .inl ((hinv.exitPosted hlate).resolve_right hbefore)
    · exact .inr hleft
  · intro hleft
    have hold : state.AllLeft :=
      fun id => (hworkers id).1.symm.trans (hleft id)
    exact hserved hold (hinv.served hold)

/-- A task or a token for a worker changes neither where it is nor its commands. -/
theorem setWorker_keeps (state : State workerNum) {target : Fin workerNum} {worker : Worker}
    (hpc : worker.pc = (state.workers target).pc)
    (hcmd : worker.cmd = (state.workers target).cmd) (other : Fin workerNum) :
    ((state.setWorker target worker).workers other).pc = (state.workers other).pc ∧
      ((state.setWorker target worker).workers other).cmd = (state.workers other).cmd :=
  state.setWorker_same (fun changed old => changed.pc = old.pc ∧ changed.cmd = old.cmd)
    (fun _ => ⟨rfl, rfl⟩) ⟨hpc, hcmd⟩ other

theorem dispatch (hinv : state.ShutdownInvariant undefinedShift)
    (hpositive : 0 < workerNum) (hheld : state.dispatcher.Held)
    {state' : State workerNum}
    (hstep : state.dispatch undefinedShift = some state') :
    state'.ShutdownInvariant undefinedShift := by
  unfold State.dispatch at hstep
  cases hpc : state.dispatcher.pc with
  | prepareWorker =>
      have hbefore : state.dispatcher.pc ≠ .left := by simp [hpc]
      simp only [hpc] at hstep
      split at hstep
      · obtain rfl := Option.some.inj hstep
        exact hinv.dispatcherStep rfl (fun _ => ⟨rfl, rfl⟩) hbefore
          (.inl rfl) (fun _ _ => trivial)
      next hnone =>
        obtain rfl := Option.some.inj hstep
        refine hinv.dispatcherStep rfl (fun _ => ⟨rfl, rfl⟩) hbefore
          (.inl rfl) ?_
        intro _ hserved
        unfold State.ReachesCommands at hserved ⊢
        simp only [hpc] at hserved ⊢
        exact hserved.resolve_left (fun hsome => hsome hnone)
  | waitNotify =>
      have hbefore : state.dispatcher.pc ≠ .left := by simp [hpc]
      simp only [hpc] at hstep
      split at hstep
      · obtain rfl := Option.some.inj hstep
        refine hinv.dispatcherStep rfl (fun _ => ⟨rfl, rfl⟩) hbefore
          (.inl rfl) ?_
        intro _ hserved
        unfold State.ReachesCommands at hserved ⊢
        simp only [hpc] at hserved ⊢
        exact hserved.2
      · simp at hstep
  | selectFreeWorker =>
      have hbefore : state.dispatcher.pc ≠ .left := by simp [hpc]
      simp only [hpc] at hstep
      split at hstep
      next hnobody =>
        obtain rfl := Option.some.inj hstep
        refine hinv.dispatcherStep rfl (fun _ => ⟨rfl, rfl⟩) hbefore
          (.inl rfl) ?_
        intro _ hserved
        unfold State.ReachesCommands at hserved
        simp only [hpc] at hserved
        exact absurd hnobody (selectFreeWorker_ne_nobody hserved)
      · obtain rfl := Option.some.inj hstep
        exact hinv.dispatcherStep rfl (fun _ => ⟨rfl, rfl⟩) hbefore
          (.inl rfl) (fun _ _ => trivial)
      · obtain rfl := Option.some.inj hstep
        exact hinv.frame rfl rfl rfl rfl (fun _ => rfl)
          (fun hearly => ⟨hearly, fun _ => rfl⟩) hinv.exitPosted
  | consume =>
      have hbefore : state.dispatcher.pc ≠ .left := by simp [hpc]
      simp only [hpc] at hstep
      split at hstep
      · obtain rfl := Option.some.inj hstep
        exact hinv.dispatcherStep rfl (fun _ => ⟨rfl, rfl⟩) hbefore
          (.inl rfl) (fun _ _ => trivial)
      · simp at hstep
  | getInternalCmd =>
      have hbefore : state.dispatcher.pc ≠ .left := by simp [hpc]
      simp only [hpc] at hstep
      split at hstep
      · obtain rfl := Option.some.inj hstep
        exact hinv.dispatcherStep rfl (fun _ => ⟨rfl, rfl⟩) hbefore
          (.inr rfl) (fun _ _ => trivial)
      next hempty =>
        obtain rfl := Option.some.inj hstep
        refine hinv.dispatcherStep rfl (fun _ => ⟨rfl, rfl⟩) hbefore
          (.inl rfl) ?_
        intro hleft _
        rcases hinv.exitPosted_of_left hpositive hleft with hcmd | hgone
        · exact absurd hcmd hempty
        · exact absurd hgone hbefore
  | getTask =>
      have hbefore : state.dispatcher.pc ≠ .left := by simp [hpc]
      simp only [hpc] at hstep
      split at hstep
      · obtain rfl := Option.some.inj hstep
        exact hinv.frame rfl rfl rfl rfl (fun _ => rfl)
          (fun hearly => ⟨hearly, fun _ => rfl⟩) hinv.exitPosted
      · split at hstep
        · obtain rfl := Option.some.inj hstep
          exact hinv.frame rfl rfl rfl rfl (fun _ => rfl)
            (fun hearly => ⟨hearly, fun _ => rfl⟩) hinv.exitPosted
        next target _ =>
          obtain rfl := Option.some.inj hstep
          refine hinv.dispatcherStep rfl (fun _ => ⟨rfl, rfl⟩) hbefore
            (.inl rfl) ?_
          intro _ hserved
          unfold State.ReachesCommands at hserved ⊢
          simp only [hpc] at hserved
          unfold State.Prepared
          simp only
          obtain ⟨hnotify, hbits⟩ := hserved
          by_cases hfree : state.dispatcher.freeWorker = some target
          · exact .inr ⟨hnotify, hbits target hfree⟩
          · rw [if_neg hfree]
            unfold Dispatcher.Held at hheld
            simp only [hpc] at hheld
            exact .inl hheld
  | clearBit target task =>
      have hbefore : state.dispatcher.pc ≠ .left := by simp [hpc]
      simp only [hpc, Option.some.injEq] at hstep
      subst hstep
      refine hinv.dispatcherStep rfl (fun _ => ⟨rfl, rfl⟩) hbefore
        (.inl rfl) ?_
      intro _ hserved
      unfold State.ReachesCommands at hserved ⊢
      simp only [hpc] at hserved ⊢
      exact hserved
  | postTask target task =>
      have hbefore : state.dispatcher.pc ≠ .left := by simp [hpc]
      simp only [hpc] at hstep
      have hserved : state.ReachesCommands undefinedShift →
          state.Prepared state.freeWorkerBit := by
        intro hreaches
        unfold State.ReachesCommands at hreaches
        simpa only [hpc] using hreaches
      split at hstep
      · obtain rfl := Option.some.inj hstep
        exact hinv.dispatcherStep rfl (setWorker_keeps state rfl rfl) hbefore (.inl rfl)
          (fun _ hreaches => hserved hreaches)
      · obtain rfl := Option.some.inj hstep
        exact hinv.dispatcherStep rfl (fun _ => ⟨rfl, rfl⟩) hbefore
          (.inl rfl) (fun _ hreaches => hserved hreaches)
  | signalPost target =>
      have hbefore : state.dispatcher.pc ≠ .left := by simp [hpc]
      simp only [hpc, Option.some.injEq] at hstep
      subst hstep
      refine hinv.dispatcherStep rfl (setWorker_keeps state rfl rfl) hbefore (.inl rfl) ?_
      intro _ hserved
      unfold State.ReachesCommands at hserved ⊢
      simp only [hpc] at hserved
      exact hserved
  | left => simp [hpc] at hstep

theorem step (hinv : state.ShutdownInvariant undefinedShift)
    (hpositive : 0 < workerNum) (hheld : state.dispatcher.Held)
    {action : Action workerNum} {state' : State workerNum}
    (hserved : LastExitServed undefinedShift state action)
    (hstep : state.step undefinedShift action = some state') :
    state'.ShutdownInvariant undefinedShift := by
  unfold State.step at hstep
  split at hstep
  · simp at hstep
  cases action with
  | post thread task =>
      simp only at hstep
      split at hstep
      · obtain rfl := Option.some.inj hstep
        exact hinv.frame rfl rfl rfl rfl (fun _ => rfl)
          (fun hearly => ⟨hearly, fun _ => rfl⟩) hinv.exitPosted
      · simp at hstep
  | poster thread => exact hinv.poster hstep
  | dispatch => exact hinv.dispatch hpositive hheld hstep
  | work id expired => exact hinv.work hserved hstep
  | stopPooling =>
      simp only at hstep
      split at hstep
      next hidle =>
        obtain rfl := Option.some.inj hstep
        refine hinv.frame rfl rfl rfl rfl (fun _ => rfl) (fun _ => ?_)
          (fun hlate => absurd trivial hlate)
        rw [hidle]
        exact ⟨trivial, fun _ => rfl⟩
      · simp at hstep
  | stop => exact hinv.stop hstep

end State.ShutdownInvariant

/-! ## Whole runs -/

end ThreadPool
end BackEndFacility
