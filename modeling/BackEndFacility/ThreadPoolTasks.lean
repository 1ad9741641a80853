import BackEndFacility.Placement
import BackEndFacility.ThreadPool
import Mathlib.Tactic.DeriveFintype

/-!
# Where the tasks of the thread pool are

An accepted task travels from the dispatcher's queue through the dispatcher's
hands into the mailbox of a worker, is run, and is then done.  Its
occurrences are counted in all these places, and every step moves them from
one place to the next.  The one exception is the hand-over to a mailbox that
is full: `DispatchTask` does not look at the result of `PostTask`.
-/

namespace BackEndFacility
namespace ThreadPool

variable {workerNum : ℕ}

inductive Place (workerNum : ℕ) where
  | queued
  | inHands
  | mailbox (id : Fin workerNum)
  | running (id : Fin workerNum)
  | done
  deriving DecidableEq, Fintype

def DispatcherPc.hands : DispatcherPc workerNum → List Task
  | .clearBit _ task => [task]
  | .postTask _ task => [task]
  | _ => []

def WorkerPc.running : WorkerPc → List Task
  | .run task => [task]
  | _ => []

def State.occurrences (state : State workerNum) (task : Task) :
    Place workerNum → ℕ
  | .queued => state.dispatcher.queue.toList.count task
  | .inHands => state.dispatcher.pc.hands.count task
  | .mailbox id => (state.workers id).mailbox.count task
  | .running id => (state.workers id).pc.running.count task
  | .done => state.done.count task

def State.InOnePlace (state : State workerNum) (task : Task) : Prop :=
  ∃ place, state.occurrences task place = 1 ∧
    ∀ other, other ≠ place → state.occurrences task other = 0

/-- Every task occurs as often as the queue has accepted it; so a task that
was posted once is in exactly one place. -/
structure State.NoTaskLost (state : State workerNum) : Prop where
  balanced : ∀ task,
    ∑ place, state.occurrences task place = state.accepted.count task
  onePlace : ∀ task ∈ state.posted, state.accepted.count task = 1 →
    state.InOnePlace task

/-- The dispatcher does not hand a task over to a mailbox that is full. -/
def State.HasRoom (state : State workerNum) :
    DispatcherPc workerNum → Prop
  | .postTask target _ => (state.workers target).mailbox.length < maxSz
  | _ => True

instance decidableHasRoom (state : State workerNum)
    (pc : DispatcherPc workerNum) : Decidable (state.HasRoom pc) := by
  cases pc <;> unfold State.HasRoom <;> infer_instance

def MailboxHasRoom (state : State workerNum) : Action workerNum → Prop
  | .dispatch => state.HasRoom state.dispatcher.pc
  | _ => True

instance decidableMailboxHasRoom (state : State workerNum) :
    ∀ action, Decidable (MailboxHasRoom state action)
  | .dispatch => decidableHasRoom state state.dispatcher.pc
  | .post _ _ => isTrue trivial
  | .poster _ => isTrue trivial
  | .work _ _ => isTrue trivial
  | .stopPooling => isTrue trivial
  | .stop => isTrue trivial

/-! ## The invariant -/

structure State.TaskInvariant (state : State workerNum) : Prop where
  balanced : ∀ task,
    ∑ place, state.occurrences task place = state.accepted.count task
  postedAccepted : ∀ task ∈ state.posted, task ∈ state.accepted
  signalAccepted : ∀ thread task,
    state.posters thread = .signalPost task → task ∈ state.accepted

namespace State.TaskInvariant

variable {state : State workerNum}

theorem noTaskLost (hinv : state.TaskInvariant) : state.NoTaskLost := by
  constructor
  · exact hinv.balanced
  · intro task _ honce
    apply tally_one
    rw [hinv.balanced task, honce]

/-- A step that accepts no task and keeps the totals. -/
theorem keep (hinv : state.TaskInvariant) {state' : State workerNum}
    (haccepted : state'.accepted = state.accepted)
    (hposted : state'.posted = state.posted)
    (hposters : state'.posters = state.posters)
    (htotal : ∀ task, ∑ place, state'.occurrences task place =
      ∑ place, state.occurrences task place) :
    state'.TaskInvariant := by
  constructor
  · intro task
    rw [htotal task, haccepted]
    exact hinv.balanced task
  · rw [haccepted, hposted]
    exact hinv.postedAccepted
  · rw [haccepted, hposters]
    exact hinv.signalAccepted

end State.TaskInvariant

theorem State.occurrences_congr {state state' : State workerNum}
    (hqueue : state'.dispatcher.queue = state.dispatcher.queue)
    (hhands : state'.dispatcher.pc.hands = state.dispatcher.pc.hands)
    (hworkers : ∀ id, (state'.workers id).mailbox =
      (state.workers id).mailbox ∧
        (state'.workers id).pc.running = (state.workers id).pc.running)
    (hdone : state'.done = state.done) (task : Task) :
    state'.occurrences task = state.occurrences task := by
  funext place
  cases place with
  | queued => simp only [State.occurrences, hqueue]
  | inHands => simp only [State.occurrences, hhands]
  | mailbox id => simp only [State.occurrences, (hworkers id).1]
  | running id => simp only [State.occurrences, (hworkers id).2]
  | done => simp only [State.occurrences, hdone]

theorem setWorker_kept (state : State workerNum) {id : Fin workerNum}
    {worker : Worker} (hmailbox : worker.mailbox = (state.workers id).mailbox)
    (hrunning : worker.pc.running = (state.workers id).pc.running)
    (other : Fin workerNum) :
    ((state.setWorker id worker).workers other).mailbox =
      (state.workers other).mailbox ∧
    ((state.setWorker id worker).workers other).pc.running =
      (state.workers other).pc.running :=
  state.setWorker_same
    (fun changed old => changed.mailbox = old.mailbox ∧ changed.pc.running = old.pc.running)
    (fun _ => ⟨rfl, rfl⟩) ⟨hmailbox, hrunning⟩ other

namespace State.TaskInvariant

variable {state : State workerNum} {undefinedShift : ℕ → BitVec 64}

/-! ## Steps that move no task -/

theorem still (hinv : state.TaskInvariant) {state' : State workerNum}
    (haccepted : state'.accepted = state.accepted)
    (hposted : state'.posted = state.posted)
    (hposters : state'.posters = state.posters)
    (hqueue : state'.dispatcher.queue = state.dispatcher.queue)
    (hhands : state'.dispatcher.pc.hands = state.dispatcher.pc.hands)
    (hworkers : ∀ id, (state'.workers id).mailbox =
      (state.workers id).mailbox ∧
        (state'.workers id).pc.running = (state.workers id).pc.running)
    (hdone : state'.done = state.done) : state'.TaskInvariant := by
  apply hinv.keep haccepted hposted hposters
  intro task
  rw [State.occurrences_congr hqueue hhands hworkers hdone task]

theorem stop (hinv : state.TaskInvariant) {state' : State workerNum}
    (hstep : state.stop = some state') : state'.TaskInvariant := by
  simp only [State.stop] at hstep
  split at hstep
  case h_4 id _ =>
      split at hstep
      · split at hstep
        · obtain rfl := Option.some.inj hstep
          exact hinv.still rfl rfl rfl rfl rfl
            (setWorker_kept { state with stopper := .signalWorker id } rfl rfl)
            rfl
        · obtain rfl := Option.some.inj hstep
          exact hinv.still rfl rfl rfl rfl rfl (fun _ => ⟨rfl, rfl⟩) rfl
      · cases hstep
  case h_5 id _ =>
      split at hstep
      · obtain rfl := Option.some.inj hstep
        exact hinv.still rfl rfl rfl rfl rfl
          (setWorker_kept { state with stopper := .joinWorker id } rfl rfl) rfl
      · cases hstep
  all_goals
    repeat' split at hstep
    all_goals
      first
      | obtain rfl := Option.some.inj hstep
        exact hinv.still rfl rfl rfl rfl rfl (fun _ => ⟨rfl, rfl⟩) rfl
      | cases hstep

/-! ## Posting -/

theorem signalAccepted_setPoster (hinv : state.TaskInvariant) {thread : ℕ}
    {pc : PosterPc} (hpc : ∀ task, pc ≠ .signalPost task) (other : ℕ)
    (task : Task)
    (hsignal : Function.update state.posters thread pc other =
      .signalPost task) : task ∈ state.accepted := by
  by_cases heq : other = thread
  · subst heq
    rw [Function.update_self] at hsignal
    exact absurd hsignal (hpc task)
  · rw [Function.update_of_ne heq] at hsignal
    exact hinv.signalAccepted other task hsignal

theorem poster (hinv : state.TaskInvariant) {thread : ℕ}
    {state' : State workerNum} (hstep : state.poster thread = some state') :
    state'.TaskInvariant := by
  unfold State.poster at hstep
  cases hpc : state.posters thread with
  | idle => simp [hpc] at hstep
  | push task =>
      simp only [hpc] at hstep
      split at hstep
      · obtain rfl := Option.some.inj hstep
        constructor
        · intro other
          have hpush := (BinaryHeap.push_perm compareTaskPriority
            state.dispatcher.queue task).count_eq other
          calc
            ∑ place, State.occurrences _ other place =
                ∑ place, state.occurrences other place +
                  [task].count other := by
              apply tally_grow .queued
              · rw [← List.singleton_append, List.count_append] at hpush
                simpa [State.occurrences, State.setPoster, add_comm] using
                  hpush
              · intro place hplace
                cases place <;> first | exact absurd rfl hplace | rfl
            _ = (state.accepted ++ [task]).count other := by
              rw [hinv.balanced other, List.count_append]
        · intro posted hmem
          exact List.mem_append_left _ (hinv.postedAccepted posted hmem)
        · intro other signalled hsignal
          by_cases heq : other = thread
          · subst heq
            have htask : task = signalled := by
              simpa [State.setPoster] using hsignal
            simp [State.setPoster, htask]
          · have hold : state.posters other = .signalPost signalled := by
              simpa [State.setPoster, Function.update, heq] using hsignal
            exact List.mem_append_left _
              (hinv.signalAccepted other signalled hold)
      · obtain rfl := Option.some.inj hstep
        exact { hinv with
          signalAccepted := hinv.signalAccepted_setPoster (by simp) }
  | signalPost task =>
      simp only [hpc, Option.some.injEq] at hstep
      subst hstep
      refine { hinv with
        postedAccepted := ?_
        signalAccepted := hinv.signalAccepted_setPoster (by simp) }
      intro posted hmem
      rcases List.mem_append.mp hmem with hold | hnew
      · exact hinv.postedAccepted posted hold
      · rw [List.mem_singleton.mp hnew]
        exact hinv.signalAccepted thread task hpc

/-! ## Running -/

theorem work (hinv : state.TaskInvariant) {id : Fin workerNum}
    {expired : Bool} {state' : State workerNum}
    (hstep : state.work undefinedShift id expired = some state') :
    state'.TaskInvariant := by
  unfold State.work at hstep
  cases hpc : (state.workers id).pc with
  | tryConsume req =>
      simp only [hpc] at hstep
      split at hstep
      · obtain rfl := Option.some.inj hstep
        exact hinv.still rfl rfl rfl rfl rfl
          (setWorker_kept state rfl (by simp [hpc, WorkerPc.running])) rfl
      · split at hstep
        · cases hstep
        · obtain rfl := Option.some.inj hstep
          exact hinv.still rfl rfl rfl rfl rfl
            (setWorker_kept state rfl (by simp [hpc, WorkerPc.running])) rfl
  | notify req =>
      simp only [hpc, Option.some.injEq] at hstep
      subst hstep
      exact hinv.still rfl rfl rfl rfl rfl
        (setWorker_kept
          { state with workerNotify := state.workerNotify + 1 } rfl
          (by simp [hpc, WorkerPc.running])) rfl
  | consumeTimeout req =>
      simp only [hpc] at hstep
      split at hstep
      · obtain rfl := Option.some.inj hstep
        exact hinv.still rfl rfl rfl rfl rfl
          (setWorker_kept state rfl (by simp [hpc, WorkerPc.running])) rfl
      · split at hstep
        · obtain rfl := Option.some.inj hstep
          exact hinv.still rfl rfl rfl rfl rfl
            (setWorker_kept state rfl (by simp [hpc, WorkerPc.running])) rfl
        · cases hstep
  | getInternalCmd =>
      simp only [hpc] at hstep
      split at hstep
      · obtain rfl := Option.some.inj hstep
        exact hinv.still rfl rfl rfl rfl rfl
          (setWorker_kept state rfl (by simp [hpc, WorkerPc.running])) rfl
      · obtain rfl := Option.some.inj hstep
        exact hinv.still rfl rfl rfl rfl rfl
          (setWorker_kept state rfl (by simp [hpc, WorkerPc.running])) rfl
  | getTask =>
      simp only [hpc] at hstep
      split at hstep
      · obtain rfl := Option.some.inj hstep
        exact hinv.still rfl rfl rfl rfl rfl (fun _ => ⟨rfl, rfl⟩) rfl
      next task rest hmailbox =>
        obtain rfl := Option.some.inj hstep
        refine hinv.keep rfl rfl rfl ?_
        intro other
        apply tally_move (.mailbox id) (.running id) (by simp)
        · simp only [State.occurrences, State.setWorker, Function.update_self,
            hmailbox]
          exact List.count_cons
        · simp [State.occurrences, State.setWorker, hpc, WorkerPc.running,
            List.count_cons]
        · intro place hsource htarget
          cases place with
          | mailbox spot =>
              have hne : spot ≠ id := fun heq => hsource (by rw [heq])
              simp [State.occurrences, State.setWorker, Function.update, hne]
          | running spot =>
              have hne : spot ≠ id := fun heq => htarget (by rw [heq])
              simp [State.occurrences, State.setWorker, Function.update, hne]
          | _ => rfl
  | run task =>
      simp only [hpc, Option.some.injEq] at hstep
      subst hstep
      refine hinv.keep rfl rfl rfl ?_
      intro other
      apply tally_move (.running id) .done (by simp)
      · simp [State.occurrences, State.setWorker, hpc, WorkerPc.running]
        rfl
      · simp [State.occurrences, State.setWorker, List.count_append]
      · intro place hsource htarget
        cases place with
        | running spot =>
            have hne : spot ≠ id := fun heq => hsource (by rw [heq])
            simp [State.occurrences, State.setWorker, Function.update, hne]
        | mailbox spot =>
            by_cases heq : spot = id
            · subst heq
              simp [State.occurrences, State.setWorker]
            · simp [State.occurrences, State.setWorker, Function.update, heq]
        | done => exact absurd rfl htarget
        | _ => rfl
  | notifyDone =>
      simp only [hpc, Option.some.injEq] at hstep
      subst hstep
      exact hinv.still rfl rfl rfl rfl rfl
        (setWorker_kept
          { state with
            freeWorkerBit :=
              state.freeWorkerBit ||| workerBit undefinedShift id } rfl
          (by simp [hpc, WorkerPc.running])) rfl
  | left => simp [hpc] at hstep

/-! ## Dispatching -/

theorem dispatch (hinv : state.TaskInvariant) {state' : State workerNum}
    (hroom : MailboxHasRoom state .dispatch)
    (hstep : state.dispatch undefinedShift = some state') :
    state'.TaskInvariant := by
  unfold State.dispatch at hstep
  cases hpc : state.dispatcher.pc with
  | getTask =>
      simp only [hpc] at hstep
      split at hstep
      · obtain rfl := Option.some.inj hstep
        exact hinv.still rfl rfl rfl rfl rfl (fun _ => ⟨rfl, rfl⟩) rfl
      next task hfront =>
        split at hstep
        · obtain rfl := Option.some.inj hstep
          exact hinv.still rfl rfl rfl rfl rfl (fun _ => ⟨rfl, rfl⟩) rfl
        · obtain rfl := Option.some.inj hstep
          refine hinv.keep rfl rfl rfl ?_
          intro other
          have hpop := (BinaryHeap.pop_perm compareTaskPriority
            hfront).count_eq other
          apply tally_move .queued .inHands (by simp)
          · rw [List.count_cons] at hpop
            exact hpop
          · simp [State.occurrences, hpc, DispatcherPc.hands,
              List.count_cons]
          · intro place hsource htarget
            cases place with
            | queued => exact absurd rfl hsource
            | inHands => exact absurd rfl htarget
            | _ => rfl
  | postTask target task =>
      have hmailbox : state.HasRoom state.dispatcher.pc := hroom
      rw [hpc] at hmailbox
      unfold State.HasRoom at hmailbox
      simp only [hpc, hmailbox, if_true, Option.some.injEq] at hstep
      subst hstep
      refine hinv.keep rfl rfl rfl ?_
      intro other
      apply tally_move .inHands (.mailbox target) (by simp)
      · simp [State.occurrences, State.setWorker, hpc, DispatcherPc.hands]
        rfl
      · simp [State.occurrences, State.setWorker, List.count_append]
      · intro place hsource htarget
        cases place with
        | inHands => exact absurd rfl hsource
        | mailbox spot =>
            have hne : spot ≠ target := fun heq => htarget (by rw [heq])
            simp [State.occurrences, State.setWorker, Function.update, hne]
        | running spot =>
            by_cases heq : spot = target
            · subst heq
              simp [State.occurrences, State.setWorker]
            · simp [State.occurrences, State.setWorker, Function.update, heq]
        | _ => rfl
  | signalPost target =>
      simp only [hpc, Option.some.injEq] at hstep
      subst hstep
      exact hinv.still rfl rfl rfl rfl
        (by simp [State.setWorker, hpc, DispatcherPc.hands])
        (setWorker_kept
          { state with
            dispatcher := { state.dispatcher with pc := .prepareWorker } }
          rfl rfl) rfl
  | _ =>
      simp only [hpc] at hstep
      repeat' split at hstep
      all_goals
        first
        | obtain rfl := Option.some.inj hstep
          exact hinv.still rfl rfl rfl rfl (by simp [hpc, DispatcherPc.hands])
            (fun _ => ⟨rfl, rfl⟩) rfl
        | cases hstep

theorem step (hinv : state.TaskInvariant) {action : Action workerNum}
    (hroom : MailboxHasRoom state action) {state' : State workerNum}
    (hstep : state.step undefinedShift action = some state') :
    state'.TaskInvariant := by
  unfold State.step at hstep
  split at hstep
  · cases hstep
  cases action with
  | post thread task =>
      simp only at hstep
      split at hstep
      · obtain rfl := Option.some.inj hstep
        exact { hinv with
          signalAccepted := hinv.signalAccepted_setPoster (by simp) }
      · cases hstep
  | poster thread => exact hinv.poster hstep
  | dispatch => exact hinv.dispatch hroom hstep
  | work id expired => exact hinv.work hstep
  | stopPooling =>
      simp only at hstep
      split at hstep
      · obtain rfl := Option.some.inj hstep
        exact hinv.still rfl rfl rfl rfl rfl (fun _ => ⟨rfl, rfl⟩) rfl
      · cases hstep
  | stop => exact hinv.stop hstep

end State.TaskInvariant

/-! ## Whole runs -/

theorem start_taskInvariant (workerNum : ℕ) :
    (start workerNum).TaskInvariant := by
  constructor
  · intro task
    have hempty : ∀ place : Place workerNum,
        (start workerNum).occurrences task place = 0 := by
      intro place
      cases place <;> simp [State.occurrences, start, DispatcherPc.hands,
        WorkerPc.running]
    rw [Finset.sum_eq_zero fun place _ => hempty place]
    rfl
  · simp [start]
  · simp [start]

theorem noTaskLost_of_mailboxHasRoom (undefinedShift : ℕ → BitVec 64)
    {state : State workerNum}
    (hreached : (machine undefinedShift workerNum).ReachedBy
      MailboxHasRoom state) :
    state.NoTaskLost := by
  have hinv : state.TaskInvariant := by
    refine hreached.invariant State.TaskInvariant
      (start_taskInvariant workerNum) ?_
    intro state action next hstate hroom hstep
    exact hstate.step hroom hstep
  exact hinv.noTaskLost

/-- One task without affinity is posted, dispatched and run. -/
def runsOneTask : List (Action 1) :=
  [.post 0 ⟨0, -1, .normal⟩, .poster 0, .poster 0,
    .dispatch, .dispatch, .dispatch, .dispatch, .dispatch, .dispatch,
    .dispatch, .dispatch, .dispatch,
    .work (Fin.last 0) false, .work (Fin.last 0) false, .work (Fin.last 0) false,
    .work (Fin.last 0) false]

theorem noTaskLost_runsOneTask :
    ∃ state, (machine (fun _ => 0) 1).run runsOneTask = some state ∧
      state.done = [⟨0, -1, .normal⟩] ∧ state.NoTaskLost := by
  have hreached : ∀ state,
      (machine (fun _ => 0) 1).run runsOneTask = some state →
        (machine (fun _ => 0) 1).ReachedBy MailboxHasRoom state := by
    intro state hrun
    exact Machine.ReachedBy.runFrom .start (by decide +kernel) hrun
  refine ⟨_, rfl, rfl, ?_⟩
  exact noTaskLost_of_mailboxHasRoom (fun _ => 0) (hreached _ rfl)

/-! ## A mailbox that is full -/

/-- The `k`-th of a sequence of tasks that are all bound to worker `0`. -/
def boundTask (k : ℕ) : Task := ⟨k, 0, .normal⟩

/-- Two workers of which neither moves.  The dispatcher holds worker `1`, so
it never waits for a worker; it has accepted `total` bound tasks and put the
first `delivered` of them into the mailbox of worker `0`. -/
structure Flooded (pc : DispatcherPc 2) (total delivered : ℕ)
    (state : State 2) : Prop where
  dispatcher : ∃ sem, state.dispatcher = ⟨pc, sem, 0, #[], some 1⟩
  mailbox : (state.workers 0).mailbox = (List.range delivered).map boundTask
  other : (state.workers 1).mailbox = []
  resting : ∀ id, (state.workers id).pc = .tryConsume 0
  poster : state.posters 0 = .idle
  alive : state.crashed = false
  accepted : state.accepted = (List.range total).map boundTask
  posted : state.posted = (List.range total).map boundTask
  nothingDone : state.done = []

/-- The first bound task goes to worker `0` while it is the free one, and the
dispatcher then picks worker `1`. -/
def floodStart : List (Action 2) :=
  [.dispatch, .dispatch, .dispatch, .post 0 (boundTask 0), .poster 0,
    .poster 0, .dispatch, .dispatch, .dispatch, .dispatch, .dispatch,
    .dispatch, .dispatch, .dispatch, .dispatch]

theorem flooded_start :
    ∃ state, (machine (fun _ => 0) 2).run floodStart = some state ∧
      Flooded .consume 1 1 state := by
  refine ⟨_, rfl, ⟨0, rfl⟩, rfl, rfl, ?_, rfl, rfl, rfl, rfl, rfl⟩
  intro id
  fin_cases id <;> rfl

def floodRound (k : ℕ) : List (Action 2) :=
  [.post 0 (boundTask k), .poster 0, .poster 0, .dispatch, .dispatch,
    .dispatch, .dispatch]

theorem Flooded.round {k : ℕ} {state : State 2}
    (hflooded : Flooded .consume k k state) :
    ∃ state', (machine (fun _ => 0) 2).runFrom state (floodRound k) =
      some state' ∧
        Flooded (.postTask 0 (boundTask k)) (k + 1) k state' := by
  obtain ⟨⟨sem, hdispatcher⟩, hmailbox, hother, hresting, hposter, halive,
    haccepted, hposted, hdone⟩ := hflooded
  obtain ⟨notify, bits, dispatcher, workers, posters, stopper, crashed,
    accepted, posted, done⟩ := state
  dsimp only at *
  subst hdispatcher halive haccepted hposted hdone
  refine ⟨_, by
    simp [floodRound, Machine.runFrom, machine, State.step, hposter,
      State.poster, State.setPoster, State.dispatch, maxSz,
      Dispatcher.target, boundTask]
    rfl, ?_⟩
  constructor
  · exact ⟨sem, rfl⟩
  · exact hmailbox
  · exact hother
  · exact hresting
  · simp
  · rfl
  · simp [List.range_succ, boundTask]
  · simp [List.range_succ, boundTask]
  · rfl

theorem Flooded.deliver {k : ℕ} {state : State 2} (hroom : k < maxSz)
    (hflooded : Flooded (.postTask 0 (boundTask k)) (k + 1) k state) :
    ∃ state', (machine (fun _ => 0) 2).runFrom state
      [.dispatch, .dispatch, .dispatch] = some state' ∧
        Flooded .consume (k + 1) (k + 1) state' := by
  obtain ⟨⟨sem, hdispatcher⟩, hmailbox, hother, hresting, hposter, halive,
    haccepted, hposted, hdone⟩ := hflooded
  obtain ⟨notify, bits, dispatcher, workers, posters, stopper, crashed,
    accepted, posted, done⟩ := state
  dsimp only at *
  subst hdispatcher halive haccepted hposted hdone
  refine ⟨_, by
    simp [Machine.runFrom, machine, State.step, State.dispatch, hmailbox,
      hroom, State.setWorker]
    rfl, ?_⟩
  constructor
  · exact ⟨sem, rfl⟩
  · simp [List.range_succ]
  · simpa using hother
  · intro id
    fin_cases id
    · simpa using hresting 0
    · simpa using hresting 1
  · exact hposter
  · rfl
  · rfl
  · rfl
  · rfl

/-- The mailbox is full, and the task is dropped. -/
theorem Flooded.drop {k : ℕ} {state : State 2} (hfull : ¬ k < maxSz)
    (hflooded : Flooded (.postTask 0 (boundTask k)) (k + 1) k state) :
    ∃ state', (machine (fun _ => 0) 2).runFrom state [.dispatch] =
      some state' ∧ Flooded .prepareWorker (k + 1) k state' := by
  obtain ⟨⟨sem, hdispatcher⟩, hmailbox, hother, hresting, hposter, halive,
    haccepted, hposted, hdone⟩ := hflooded
  obtain ⟨notify, bits, dispatcher, workers, posters, stopper, crashed,
    accepted, posted, done⟩ := state
  dsimp only at *
  subst hdispatcher halive haccepted hposted hdone
  refine ⟨_, by
    simp [Machine.runFrom, machine, State.step, State.dispatch, hmailbox,
      hfull]
    rfl, ?_⟩
  exact ⟨⟨sem, rfl⟩, hmailbox, hother, hresting, hposter, rfl, rfl, rfl, rfl⟩

theorem flooded_reachable (k : ℕ) (hk : k < maxSz) :
    ∃ state, (machine (fun _ => 0) 2).Reachable state ∧
      Flooded .consume (k + 1) (k + 1) state := by
  induction k with
  | zero =>
      obtain ⟨state, hrun, hflooded⟩ := flooded_start
      exact ⟨state, Machine.Reachable.runFrom .start hrun, hflooded⟩
  | succ k ih =>
      obtain ⟨state, hreachable, hflooded⟩ := ih (by omega)
      obtain ⟨handing, hround, hhanding⟩ := hflooded.round
      obtain ⟨next, hdeliver, hnext⟩ := hhanding.deliver hk
      exact ⟨next, (hreachable.runFrom hround).runFrom hdeliver, hnext⟩

theorem boundTask_injective : Function.Injective boundTask := by
  intro first second heq
  simpa [boundTask] using heq

theorem taskLost_fullMailbox :
    ¬ ∀ workerNum, 1 ≤ workerNum → ∀ undefinedShift,
      ∀ state : State workerNum,
        (machine undefinedShift workerNum).Reachable state →
          state.NoTaskLost := by
  intro hall
  obtain ⟨full, hfull, hflooded⟩ := flooded_reachable (maxSz - 1) (by decide)
  rw [show maxSz - 1 + 1 = maxSz by decide] at hflooded
  obtain ⟨handing, hround, hhanding⟩ := hflooded.round
  obtain ⟨state, hdrop, hstate⟩ := hhanding.drop (by decide)
  have hreachable : (machine (fun _ => 0) 2).Reachable state :=
    (hfull.runFrom hround).runFrom hdrop
  have hnotLost := hall 2 (by decide) (fun _ => 0) state hreachable
  have hcount : state.accepted.count (boundTask maxSz) = 1 := by
    rw [hstate.accepted, List.count_map_of_injective _ _ boundTask_injective,
      List.count_eq_one_of_mem List.nodup_range (by simp)]
  have hposted : boundTask maxSz ∈ state.posted := by
    rw [hstate.posted]
    exact List.mem_map.mpr ⟨maxSz, by simp, rfl⟩
  obtain ⟨place, hone, -⟩ := hnotLost.onePlace _ hposted hcount
  obtain ⟨sem, hdispatcher⟩ := hstate.dispatcher
  have hmailbox : (state.workers 0).mailbox.count (boundTask maxSz) = 0 := by
    rw [hstate.mailbox, List.count_map_of_injective _ _ boundTask_injective]
    exact List.count_eq_zero.mpr (by simp)
  cases place with
  | queued => simp [State.occurrences, hdispatcher] at hone
  | inHands =>
      simp [State.occurrences, hdispatcher, DispatcherPc.hands] at hone
  | mailbox id =>
      fin_cases id
      · simp [State.occurrences, hmailbox] at hone
      · simp [State.occurrences, hstate.other] at hone
  | running id =>
      simp [State.occurrences, hstate.resting, WorkerPc.running] at hone
  | done => simp [State.occurrences, hstate.nothingDone] at hone

end ThreadPool
end BackEndFacility
