import BackEndFacility.Placement
import BackEndFacility.Machine

/-!
# One worker and its callers

`WorkerBodyBase` keeps tasks in the mailbox and exit commands in `cmd_`, and counts both
with one semaphore.  `PostTask` and `PostExit` push first and post the token afterwards;
the worker takes a token first and then looks at the commands and at the mailbox.
`TryGetTask` and `ClearAllTask` take a token too, but look at the mailbox only.

Every semaphore operation and every critical section of a queue is one step; code that
touches only variables of its own thread is part of the step before it.  The commands
are all exit commands, so `cmd_` is represented by its length.
-/

namespace BackEndFacility
namespace WorkerLoop

/-- `DEFAULT_WORKER_TASK_MSG_SIZE`, the capacity of `cmd_`. -/
def maxCmd : ℕ := 1024

def reqThreshold : ℕ := 3

/-- Where the worker is in `Run`.  The number counts the requests it has sent in this
call of `GetRunTask`. -/
inductive WorkerPc (Task : Type*) where
  | ended
  | getRunTask (req : ℕ)
  | consume
  | tryConsume (req : ℕ)
  | notify (req : ℕ)
  | consumeTimeout (req : ℕ)
  | cmdIsEmpty
  | popCmd
  | popTask
  | handleTask (msg : Option Task)
  | notifyDone
  deriving DecidableEq

/-- Where another thread is in a call.  `clearing` tells that `TryGetTask` was called by
`ClearAllTask`. -/
inductive CallerPc (Task : Type*) where
  | idle
  | pushTask (task : Task)
  | signalTask
  | pushCmd (join : Bool)
  | signalCmd (join : Bool)
  | join
  | tryConsume (clearing : Bool)
  | getTask (clearing : Bool)
  | hasTask
  deriving DecidableEq

inductive Call (Task : Type*) where
  | postTask (task : Task)
  | stopWorking (join : Bool)
  | tryGetTask
  | clearAllTask

/-- The last three components record the run: the tasks the mailbox has accepted, what
`HandleTask` was given, and the tokens for which nothing was removed.  `done` stands for an
`int`, which holds the count as long as the worker is given fewer than 2^31 tasks. -/
structure State (Task Thread : Type*) where
  sem : ℕ
  cmd : ℕ
  mailbox : List Task
  worker : WorkerPc Task
  shouldStop : Bool
  notify : Bool
  callers : Thread → CallerPc Task
  done : ℕ
  accepted : List Task
  handled : List (Option Task)
  wasted : ℕ

inductive Action (Task Thread : Type*) where
  | startWorking
  | enableNotify (enable : Bool)
  | work (expired : Bool)
  | call (thread : Thread) (call : Call Task)
  | caller (thread : Thread)

variable {Task Thread : Type*}

def start (Task Thread : Type*) : State Task Thread where
  sem := 0
  cmd := 0
  mailbox := []
  worker := .ended
  shouldStop := false
  notify := false
  callers := fun _ => .idle
  done := 0
  accepted := []
  handled := []
  wasted := 0

def Call.entry : Call Task → CallerPc Task
  | .postTask task => .pushTask task
  | .stopWorking join => .pushCmd join
  | .tryGetTask => .tryConsume false
  | .clearAllTask => .hasTask

/-- `TryGetTask` returns to its caller. -/
def CallerPc.back (clearing : Bool) : CallerPc Task :=
  if clearing then .hasTask else .idle

namespace State

/-- One step of the worker.  `expired` tells whether the timed wait gives up. -/
def work (state : State Task Thread) (expired : Bool) : Option (State Task Thread) :=
  match state.worker with
  | .ended => none
  | .getRunTask req =>
      if ¬ state.notify ∨ reqThreshold < req then some { state with worker := .consume }
      else some { state with worker := .tryConsume req }
  | .consume =>
      if 0 < state.sem then some { state with sem := state.sem - 1, worker := .cmdIsEmpty }
      else none
  | .tryConsume req =>
      if 0 < state.sem then some { state with sem := state.sem - 1, worker := .cmdIsEmpty }
      else some { state with worker := .notify req }
  | .notify req => some { state with worker := .consumeTimeout (req + 1) }
  | .consumeTimeout req =>
      if expired then some { state with worker := .getRunTask req }
      else if 0 < state.sem then
        some { state with sem := state.sem - 1, worker := .cmdIsEmpty }
      else none
  | .cmdIsEmpty =>
      if state.cmd = 0 then some { state with worker := .popTask }
      else some { state with worker := .popCmd }
  | .popCmd =>
      if 0 < state.cmd then
        some { state with cmd := state.cmd - 1, shouldStop := true, worker := .ended }
      else some { state with worker := .popTask }
  | .popTask =>
      match state.mailbox with
      | [] =>
          some { state with
            worker := .handleTask none
            handled := state.handled ++ [none]
            wasted := state.wasted + 1 }
      | task :: rest =>
          some { state with
            mailbox := rest
            worker := .handleTask (some task)
            handled := state.handled ++ [some task] }
  | .handleTask none => none
  | .handleTask (some _) =>
      some { state with
        done := state.done + 1
        worker := if state.shouldStop then .ended else .notifyDone }
  | .notifyDone => some { state with worker := .getRunTask 0 }

variable [DecidableEq Thread]

def setCaller (state : State Task Thread) (thread : Thread) (pc : CallerPc Task) :
    State Task Thread :=
  { state with callers := Function.update state.callers thread pc }

/-- One step of another thread; `capacity` is that of the mailbox. -/
def caller (capacity : ℕ) (state : State Task Thread) (thread : Thread) :
    Option (State Task Thread) :=
  match state.callers thread with
  | .idle => none
  | .pushTask task =>
      if state.mailbox.length < capacity then
        some ({ state with
          mailbox := state.mailbox ++ [task]
          accepted := state.accepted ++ [task] }.setCaller thread .signalTask)
      else some (state.setCaller thread .idle)
  | .signalTask => some ({ state with sem := state.sem + 1 }.setCaller thread .idle)
  | .pushCmd join =>
      if state.cmd < maxCmd then
        some ({ state with cmd := state.cmd + 1 }.setCaller thread (.signalCmd join))
      else some (state.setCaller thread .idle)
  | .signalCmd join =>
      some ({ state with sem := state.sem + 1 }.setCaller thread
        (if join then .join else .idle))
  | .join =>
      match state.worker with
      | .ended => some (state.setCaller thread .idle)
      | _ => none
  | .tryConsume clearing =>
      if 0 < state.sem then
        some ({ state with sem := state.sem - 1 }.setCaller thread (.getTask clearing))
      else some (state.setCaller thread (.back clearing))
  | .getTask clearing =>
      match state.mailbox with
      | [] =>
          some ({ state with wasted := state.wasted + 1 }.setCaller thread (.back clearing))
      | _ :: rest => some ({ state with mailbox := rest }.setCaller thread (.back clearing))
  | .hasTask =>
      if state.mailbox = [] then some (state.setCaller thread .idle)
      else some (state.setCaller thread (.tryConsume true))

def step (capacity : ℕ) (state : State Task Thread) :
    Action Task Thread → Option (State Task Thread)
  | .startWorking =>
      match state.worker with
      | .ended => some { state with worker := .getRunTask 0, shouldStop := false }
      | _ => none
  | .enableNotify enable => some { state with notify := enable }
  | .work expired => state.work expired
  | .call thread call =>
      match state.callers thread with
      | .idle => some (state.setCaller thread call.entry)
      | _ => none
  | .caller thread => state.caller capacity thread

end State

def machine (Task Thread : Type*) [DecidableEq Thread] (capacity : ℕ) :
    Machine (State Task Thread) (Action Task Thread) where
  start := start Task Thread
  step := State.step capacity

/-! ## Tokens and items -/

/-- The worker has taken a token and has not removed anything for it yet. -/
def WorkerPc.holding : WorkerPc Task → ℕ
  | .cmdIsEmpty => 1
  | .popCmd => 1
  | .popTask => 1
  | _ => 0

/-- The worker will look for a task if there is no command. -/
def WorkerPc.claiming (cmd : ℕ) : WorkerPc Task → ℕ
  | .cmdIsEmpty => if cmd = 0 then 1 else 0
  | .popTask => 1
  | _ => 0

/-- A thread has pushed an item and not posted its token, or has taken a token and not
removed anything. -/
def CallerPc.holding : CallerPc Task → ℕ
  | .signalTask => 1
  | .signalCmd _ => 1
  | .getTask _ => 1
  | _ => 0

/-- A thread will look for a task. -/
def CallerPc.claiming : CallerPc Task → ℕ
  | .getTask _ => 1
  | _ => 0

theorem CallerPc.holding_back (clearing : Bool) :
    (CallerPc.back clearing : CallerPc Task).holding = 0 := by
  cases clearing <;> rfl

theorem CallerPc.claiming_back (clearing : Bool) :
    (CallerPc.back clearing : CallerPc Task).claiming = 0 := by
  cases clearing <;> rfl

namespace State

variable [Fintype Thread]

def holding (state : State Task Thread) : ℕ :=
  ∑ thread, (state.callers thread).holding

/-- How many threads go to the mailbox with a token in hand. -/
def claims (state : State Task Thread) : ℕ :=
  ∑ thread, (state.callers thread).claiming + state.worker.claiming state.cmd

/-- No call is between a queue and the semaphore. -/
def Settled (state : State Task Thread) : Prop :=
  state.worker.holding = 0 ∧ state.holding = 0

theorem claiming_le_holding (state : State Task Thread) :
    ∑ thread, (state.callers thread).claiming ≤ state.holding := by
  refine Finset.sum_le_sum fun thread _ => ?_
  cases state.callers thread <;> simp [CallerPc.claiming, CallerPc.holding]

end State

/-! ## Clearing the mailbox -/

/-- The thread is in `ClearAllTask`. -/
def CallerPc.Clearing : CallerPc Task → Prop
  | .tryConsume clearing => clearing = true
  | .getTask clearing => clearing = true
  | .hasTask => True
  | _ => False

/-- The action goes on with a call that has begun. -/
def Action.Continues : Action Task Thread → Prop
  | .work _ => True
  | .caller _ => True
  | _ => False

section Clearing

variable [DecidableEq Thread]

theorem State.getTask_next {state : State Task Thread} {thread : Thread} (capacity : ℕ)
    (hpc : state.callers thread = .getTask true) :
    ∃ next, state.step capacity (.caller thread) = some next ∧
      next.callers thread = .hasTask ∧ next.mailbox = state.mailbox.tail ∧
      next.sem = state.sem := by
  cases hmailbox : state.mailbox with
  | nil =>
      refine ⟨{ state with wasted := state.wasted + 1 }.setCaller thread .hasTask, ?_, ?_⟩
      · simp only [State.step, State.caller, hpc, hmailbox]
        rfl
      · simp [State.setCaller, hmailbox]
  | cons task rest =>
      refine ⟨{ state with mailbox := rest }.setCaller thread .hasTask, ?_, ?_⟩
      · simp only [State.step, State.caller, hpc, hmailbox]
        rfl
      · simp [State.setCaller]

/-- One `TryGetTask` of `ClearAllTask`, with a token for each task. -/
theorem State.tryGetTask_alone {state : State Task Thread} {thread : Thread} (capacity : ℕ)
    (hpc : state.callers thread = .tryConsume true)
    (htokens : state.mailbox.length ≤ state.sem) :
    ∃ schedule next, (∀ action ∈ schedule, action = Action.caller thread) ∧
      (machine Task Thread capacity).runFrom state schedule = some next ∧
      next.callers thread = .hasTask ∧ next.mailbox = state.mailbox.tail ∧
      next.mailbox.length ≤ next.sem := by
  by_cases hsem : 0 < state.sem
  · have htake : state.step capacity (.caller thread) =
        some ({ state with sem := state.sem - 1 }.setCaller thread (.getTask true)) := by
      simp only [State.step, State.caller, hpc, if_pos hsem]
    have hholds : ({ state with sem := state.sem - 1 }.setCaller thread
        (.getTask true)).callers thread = .getTask true := by
      simp [State.setCaller]
    obtain ⟨next, hget, hback, htail, hleft⟩ := State.getTask_next capacity hholds
    refine ⟨[.caller thread, .caller thread], next, by simp, ?_, hback, htail, ?_⟩
    · simp only [Machine.runFrom, machine, htake, hget]
    · rw [htail, hleft]
      simp only [State.setCaller, List.length_tail]
      omega
  · have hfail : state.step capacity (.caller thread) =
        some (state.setCaller thread .hasTask) := by
      simp only [State.step, State.caller, hpc, if_neg hsem]
      rfl
    have hmailbox : state.mailbox = [] := List.length_eq_zero_iff.mp (by omega)
    refine ⟨[.caller thread], state.setCaller thread .hasTask, by simp, ?_, ?_⟩
    · simp only [Machine.runFrom, machine, hfail]
    · simp [State.setCaller, hmailbox]

/-- `ClearAllTask` on its own, with a token for each task. -/
theorem State.clearAllTask_alone {state : State Task Thread} {thread : Thread} (capacity : ℕ)
    (hpc : state.callers thread = .hasTask) (htokens : state.mailbox.length ≤ state.sem) :
    ∃ schedule final, (∀ action ∈ schedule, action = Action.caller thread) ∧
      (machine Task Thread capacity).runFrom state schedule = some final ∧
      final.callers thread = .idle ∧ final.mailbox = [] := by
  induction hsize : state.mailbox.length generalizing state with
  | zero =>
      have hmailbox : state.mailbox = [] := List.length_eq_zero_iff.mp hsize
      refine ⟨[.caller thread], state.setCaller thread .idle, by simp, ?_, ?_⟩
      · simp [Machine.runFrom, machine, State.step, State.caller, hpc, hmailbox]
      · simp [State.setCaller, hmailbox]
  | succ size ih =>
      have hmailbox : state.mailbox ≠ [] := by
        intro hnil
        simp [hnil] at hsize
      have hloop : (machine Task Thread capacity).runFrom state [.caller thread] =
          some (state.setCaller thread (.tryConsume true)) := by
        simp [Machine.runFrom, machine, State.step, State.caller, hpc, hmailbox]
      have htries : (state.setCaller thread (.tryConsume true)).callers thread =
          .tryConsume true := by
        simp [State.setCaller]
      obtain ⟨first, next, hfirst, hnext, hback, htail, hleft⟩ :=
        State.tryGetTask_alone capacity htries htokens
      have hsmaller : next.mailbox.length = size := by
        rw [htail]
        simp [State.setCaller, hsize]
      obtain ⟨second, final, hsecond, hfinal, hdone⟩ := ih hback hleft hsmaller
      refine ⟨[.caller thread] ++ (first ++ second), final, ?_, ?_, hdone⟩
      · intro action haction
        simp only [List.mem_append, List.mem_singleton] at haction
        rcases haction with hhead | hone | htwo
        · exact hhead
        · exact hfirst action hone
        · exact hsecond action htwo
      · exact Machine.runFrom_append hloop (Machine.runFrom_append hnext hfinal)

end Clearing

/-! ## The token invariant -/

section Tokens

variable [Fintype Thread]

/-- Every item has a token that is posted, still to be posted, or in the hands of a
thread; and every thread that goes to the mailbox finds a task there. -/
structure State.TokenInvariant (state : State Task Thread) : Prop where
  balance : state.sem + state.worker.holding + state.holding = state.mailbox.length + state.cmd
  claimed : state.claims ≤ state.mailbox.length
  queued : state.worker = .popCmd → 0 < state.cmd
  kept : state.wasted = 0

/-- A thread that takes a token in `TryGetTask` finds more tasks in the mailbox than
there are threads that go there already. -/
def State.EnoughTasks (state : State Task Thread) : CallerPc Task → Prop
  | .tryConsume _ => 0 < state.sem → state.claims < state.mailbox.length
  | _ => True

def TakesOwnToken (state : State Task Thread) : Action Task Thread → Prop
  | .caller thread => state.EnoughTasks (state.callers thread)
  | _ => True

instance decidableEnoughTasks (state : State Task Thread) :
    ∀ pc : CallerPc Task, Decidable (state.EnoughTasks pc)
  | .tryConsume _ =>
      inferInstanceAs (Decidable (0 < state.sem → state.claims < state.mailbox.length))
  | .idle => isTrue trivial
  | .pushTask _ => isTrue trivial
  | .signalTask => isTrue trivial
  | .pushCmd _ => isTrue trivial
  | .signalCmd _ => isTrue trivial
  | .join => isTrue trivial
  | .getTask _ => isTrue trivial
  | .hasTask => isTrue trivial

instance decidableTakesOwnToken (state : State Task Thread) :
    ∀ action : Action Task Thread, Decidable (TakesOwnToken state action)
  | .caller thread => decidableEnoughTasks state (state.callers thread)
  | .startWorking => isTrue trivial
  | .enableNotify _ => isTrue trivial
  | .work _ => isTrue trivial
  | .call _ _ => isTrue trivial

namespace State.TokenInvariant

variable {state state' : State Task Thread}

/-- The worker takes a token. -/
theorem consume (hinv : state.TokenInvariant) (hsem : 0 < state.sem)
    (hworker : state.worker.holding = 0) :
    ({ state with sem := state.sem - 1, worker := .cmdIsEmpty }).TokenInvariant := by
  have hbalance := hinv.balance
  have hclaimed := hinv.claimed
  have hle := state.claiming_le_holding
  refine ⟨?_, ?_, nofun, hinv.kept⟩
  · show state.sem - 1 + 1 + state.holding = state.mailbox.length + state.cmd
    omega
  · show ∑ thread, (state.callers thread).claiming + (if state.cmd = 0 then 1 else 0) ≤
      state.mailbox.length
    unfold State.claims at hclaimed
    split_ifs with hnone
    · omega
    · omega

/-- The worker moves on without a token. -/
theorem move (hinv : state.TokenInvariant) {pc : WorkerPc Task}
    (hworker : state.worker.holding = 0) (hpc : pc.holding = 0) :
    ({ state with worker := pc }).TokenInvariant := by
  have hbalance := hinv.balance
  have hclaimed := hinv.claimed
  have hclaiming : pc.claiming state.cmd = 0 := by
    cases pc <;> simp_all [WorkerPc.holding, WorkerPc.claiming]
  refine ⟨?_, ?_, ?_, hinv.kept⟩
  · show state.sem + pc.holding + state.holding = state.mailbox.length + state.cmd
    omega
  · show ∑ thread, (state.callers thread).claiming + pc.claiming state.cmd ≤
      state.mailbox.length
    unfold State.claims at hclaimed
    omega
  · intro heq
    have hpop : pc = .popCmd := heq
    rw [hpop] at hpc
    cases hpc

theorem work (hinv : state.TokenInvariant) {expired : Bool}
    (hstep : state.work expired = some state') : state'.TokenInvariant := by
  have hbalance := hinv.balance
  have hclaimed := hinv.claimed
  unfold State.claims at hclaimed
  unfold State.work at hstep
  cases hpc : state.worker with
  | ended =>
      simp only [hpc] at hstep
      cases hstep
  | getRunTask req =>
      simp only [hpc] at hstep
      split at hstep
      all_goals
        obtain rfl := Option.some.inj hstep
        exact hinv.move (by rw [hpc]; rfl) rfl
  | consume =>
      simp only [hpc] at hstep
      split at hstep
      next hsem =>
        obtain rfl := Option.some.inj hstep
        exact hinv.consume hsem (by rw [hpc]; rfl)
      · cases hstep
  | tryConsume req =>
      simp only [hpc] at hstep
      split at hstep
      next hsem =>
        obtain rfl := Option.some.inj hstep
        exact hinv.consume hsem (by rw [hpc]; rfl)
      · obtain rfl := Option.some.inj hstep
        exact hinv.move (by rw [hpc]; rfl) rfl
  | notify req =>
      simp only [hpc] at hstep
      obtain rfl := Option.some.inj hstep
      exact hinv.move (by rw [hpc]; rfl) rfl
  | consumeTimeout req =>
      simp only [hpc] at hstep
      split at hstep
      · obtain rfl := Option.some.inj hstep
        exact hinv.move (by rw [hpc]; rfl) rfl
      · split at hstep
        next hsem =>
          obtain rfl := Option.some.inj hstep
          exact hinv.consume hsem (by rw [hpc]; rfl)
        · cases hstep
  | cmdIsEmpty =>
      simp only [hpc] at hstep
      rw [hpc] at hbalance hclaimed
      split at hstep
      next hnone =>
        obtain rfl := Option.some.inj hstep
        refine ⟨hbalance, ?_, nofun, hinv.kept⟩
        simpa [State.claims, WorkerPc.claiming, hnone] using hclaimed
      next hsome =>
        obtain rfl := Option.some.inj hstep
        refine ⟨hbalance, ?_, fun _ => Nat.pos_of_ne_zero hsome, hinv.kept⟩
        simpa [State.claims, WorkerPc.claiming, hsome] using hclaimed
  | popCmd =>
      simp only [hpc] at hstep
      rw [hpc] at hbalance hclaimed
      have hcmd := hinv.queued hpc
      rw [if_pos hcmd] at hstep
      obtain rfl := Option.some.inj hstep
      refine ⟨?_, hclaimed, nofun, hinv.kept⟩
      show state.sem + 0 + state.holding = state.mailbox.length + (state.cmd - 1)
      simp only [WorkerPc.holding] at hbalance
      omega
  | popTask =>
      simp only [hpc] at hstep
      rw [hpc] at hbalance hclaimed
      simp only [WorkerPc.holding, WorkerPc.claiming] at hbalance hclaimed
      cases hmailbox : state.mailbox with
      | nil =>
          rw [hmailbox, List.length_nil] at hclaimed
          omega
      | cons task rest =>
          rw [hmailbox] at hstep
          rw [hmailbox, List.length_cons] at hbalance hclaimed
          obtain rfl := Option.some.inj hstep
          refine ⟨?_, ?_, nofun, hinv.kept⟩
          · show state.sem + 0 + state.holding = rest.length + state.cmd
            omega
          · show ∑ thread, (state.callers thread).claiming + 0 ≤ rest.length
            omega
  | handleTask msg =>
      cases msg with
      | none =>
          simp only [hpc] at hstep
          cases hstep
      | some task =>
          simp only [hpc] at hstep
          obtain rfl := Option.some.inj hstep
          have hdone : ({ state with done := state.done + 1 }).TokenInvariant :=
            ⟨hinv.balance, hinv.claimed, hinv.queued, hinv.kept⟩
          split
          all_goals exact hdone.move (by rw [hpc]; rfl) rfl
  | notifyDone =>
      simp only [hpc] at hstep
      obtain rfl := Option.some.inj hstep
      exact hinv.move (by rw [hpc]; rfl) rfl

theorem matched (hinv : state.TokenInvariant) (hsettled : state.Settled) :
    state.sem = state.mailbox.length + state.cmd := by
  have hbalance := hinv.balance
  rw [hsettled.1, hsettled.2] at hbalance
  exact hbalance

theorem start : (start Task Thread).TokenInvariant := by
  refine ⟨?_, ?_, nofun, rfl⟩
  all_goals simp [WorkerLoop.start, State.holding, State.claims, CallerPc.holding,
    CallerPc.claiming, WorkerPc.holding, WorkerPc.claiming]

variable [DecidableEq Thread]

/-- A step of another thread: the items it adds have the tokens it holds or posts, and
it does not leave fewer tasks than there are threads that go to the mailbox. -/
theorem setCaller (hinv : state.TokenInvariant) {thread : Thread} {pc : CallerPc Task}
    (hcallers : state'.callers = Function.update state.callers thread pc)
    (hworker : state'.worker = state.worker) (hcmd : state.cmd ≤ state'.cmd)
    (hkept : state'.wasted = state.wasted)
    (hbalance : state'.sem + pc.holding + (state.mailbox.length + state.cmd) =
      state.sem + (state.callers thread).holding + (state'.mailbox.length + state'.cmd))
    (hclaimed : state.claims + pc.claiming ≤
      (state.callers thread).claiming + state'.mailbox.length) :
    state'.TokenInvariant := by
  have hbefore := hinv.balance
  have hholding : state'.holding + (state.callers thread).holding =
      state.holding + pc.holding := by
    unfold State.holding
    rw [hcallers]
    exact tally_update CallerPc.holding state.callers thread pc
  have hclaiming : ∑ other, (state'.callers other).claiming +
      (state.callers thread).claiming =
        ∑ other, (state.callers other).claiming + pc.claiming := by
    rw [hcallers]
    exact tally_update CallerPc.claiming state.callers thread pc
  have hfewer : state.worker.claiming state'.cmd ≤ state.worker.claiming state.cmd := by
    cases state.worker with
    | cmdIsEmpty =>
        simp only [WorkerPc.claiming]
        split_ifs <;> omega
    | _ => exact le_rfl
  refine ⟨?_, ?_, ?_, hkept.trans hinv.kept⟩
  · rw [hworker]
    omega
  · unfold State.claims at hclaimed ⊢
    rw [hworker]
    omega
  · rw [hworker]
    exact fun hpop => (hinv.queued hpop).trans_le hcmd

/-- Another thread moves on with what it holds. -/
theorem moveCaller (hinv : state.TokenInvariant) {thread : Thread} {pc : CallerPc Task}
    (hholding : pc.holding = (state.callers thread).holding)
    (hclaiming : pc.claiming = (state.callers thread).claiming) :
    (state.setCaller thread pc).TokenInvariant := by
  refine hinv.setCaller rfl rfl le_rfl rfl ?_ ?_
  · rw [hholding]
    rfl
  · rw [hclaiming, Nat.add_comm]
    exact Nat.add_le_add_left hinv.claimed _

theorem caller (hinv : state.TokenInvariant) {capacity : ℕ} {thread : Thread}
    (henough : state.EnoughTasks (state.callers thread))
    (hstep : state.caller capacity thread = some state') : state'.TokenInvariant := by
  have hclaimed := hinv.claimed
  unfold State.caller at hstep
  cases hpc : state.callers thread with
  | idle =>
      simp only [hpc] at hstep
      cases hstep
  | pushTask task =>
      simp only [hpc] at hstep
      split at hstep
      · obtain rfl := Option.some.inj hstep
        refine hinv.setCaller rfl rfl le_rfl rfl ?_ ?_
        · simp only [State.setCaller, hpc, CallerPc.holding, List.length_append,
            List.length_singleton]
          omega
        · simp only [State.setCaller, hpc, CallerPc.claiming, List.length_append,
            List.length_singleton]
          omega
      · obtain rfl := Option.some.inj hstep
        exact hinv.moveCaller (by rw [hpc]; rfl) (by rw [hpc]; rfl)
  | signalTask =>
      simp only [hpc] at hstep
      obtain rfl := Option.some.inj hstep
      refine hinv.setCaller rfl rfl le_rfl rfl ?_ ?_
      · simp only [State.setCaller, hpc, CallerPc.holding]
      · simp only [State.setCaller, hpc, CallerPc.claiming]
        omega
  | pushCmd join =>
      simp only [hpc] at hstep
      split at hstep
      · obtain rfl := Option.some.inj hstep
        refine hinv.setCaller rfl rfl (Nat.le_succ _) rfl ?_ ?_
        · simp only [State.setCaller, hpc, CallerPc.holding]
          omega
        · simp only [State.setCaller, hpc, CallerPc.claiming]
          omega
      · obtain rfl := Option.some.inj hstep
        exact hinv.moveCaller (by rw [hpc]; rfl) (by rw [hpc]; rfl)
  | signalCmd join =>
      simp only [hpc] at hstep
      obtain rfl := Option.some.inj hstep
      refine hinv.setCaller rfl rfl le_rfl rfl ?_ ?_
      · cases join
        all_goals simp [State.setCaller, hpc, CallerPc.holding]
      · cases join
        all_goals simpa [State.setCaller, hpc, CallerPc.claiming] using hclaimed
  | join =>
      simp only [hpc] at hstep
      split at hstep
      · obtain rfl := Option.some.inj hstep
        exact hinv.moveCaller (by rw [hpc]; rfl) (by rw [hpc]; rfl)
      · cases hstep
  | tryConsume clearing =>
      rw [hpc] at henough
      simp only [hpc] at hstep
      split at hstep
      next hsem =>
        have hroom := henough hsem
        obtain rfl := Option.some.inj hstep
        refine hinv.setCaller rfl rfl le_rfl rfl ?_ ?_
        · simp only [State.setCaller, hpc, CallerPc.holding]
          omega
        · simp only [State.setCaller, hpc, CallerPc.claiming]
          omega
      · obtain rfl := Option.some.inj hstep
        exact hinv.moveCaller (by rw [CallerPc.holding_back, hpc]; rfl)
          (by rw [CallerPc.claiming_back, hpc]; rfl)
  | getTask clearing =>
      simp only [hpc] at hstep
      have hone : (state.callers thread).claiming = 1 := by rw [hpc]; rfl
      have hmember : (state.callers thread).claiming ≤ ∑ other, (state.callers other).claiming :=
        Finset.single_le_sum (f := fun other => (state.callers other).claiming)
          (fun _ _ => Nat.zero_le _) (Finset.mem_univ thread)
      cases hmailbox : state.mailbox with
      | nil =>
          unfold State.claims at hclaimed
          rw [hmailbox, List.length_nil] at hclaimed
          omega
      | cons task rest =>
          rw [hmailbox] at hstep
          rw [hmailbox, List.length_cons] at hclaimed
          obtain rfl := Option.some.inj hstep
          refine hinv.setCaller rfl rfl le_rfl rfl ?_ ?_
          · rw [CallerPc.holding_back, hpc, hmailbox, List.length_cons]
            simp only [State.setCaller, CallerPc.holding]
            omega
          · rw [CallerPc.claiming_back, hone]
            simp only [State.setCaller]
            omega
  | hasTask =>
      simp only [hpc] at hstep
      split at hstep
      all_goals
        obtain rfl := Option.some.inj hstep
        exact hinv.moveCaller (by rw [hpc]; rfl) (by rw [hpc]; rfl)

theorem enter (hinv : state.TokenInvariant) {thread : Thread} {call : Call Task}
    (hidle : state.callers thread = .idle) :
    (state.setCaller thread call.entry).TokenInvariant := by
  apply hinv.moveCaller
  · rw [hidle]
    cases call <;> rfl
  · rw [hidle]
    cases call <;> rfl

theorem step (hinv : state.TokenInvariant) {capacity : ℕ} {action : Action Task Thread}
    (howns : TakesOwnToken state action)
    (hstep : state.step capacity action = some state') : state'.TokenInvariant := by
  cases action with
  | startWorking =>
      simp only [State.step] at hstep
      split at hstep
      next hended =>
        obtain rfl := Option.some.inj hstep
        have hrestart : ({ state with shouldStop := false }).TokenInvariant :=
          ⟨hinv.balance, hinv.claimed, hinv.queued, hinv.kept⟩
        exact hrestart.move (by rw [hended]; rfl) rfl
      · cases hstep
  | enableNotify enable =>
      obtain rfl := Option.some.inj hstep
      exact ⟨hinv.balance, hinv.claimed, hinv.queued, hinv.kept⟩
  | work expired => exact hinv.work hstep
  | call thread call =>
      simp only [State.step] at hstep
      split at hstep
      next hidle =>
        obtain rfl := Option.some.inj hstep
        exact hinv.enter hidle
      · cases hstep
  | caller thread => exact hinv.caller howns hstep

theorem reached {capacity : ℕ}
    (hreached : (machine Task Thread capacity).ReachedBy TakesOwnToken state) :
    state.TokenInvariant := by
  apply hreached.invariant State.TokenInvariant
  · exact TokenInvariant.start
  · intro before action after hinv howns hstep
    exact hinv.step howns hstep

end State.TokenInvariant

/-- How many steps the worker needs to use the token it has taken. -/
def WorkerPc.distance : WorkerPc Task → ℕ
  | .cmdIsEmpty => 2
  | .popCmd => 1
  | .popTask => 1
  | _ => 0

namespace State.TokenInvariant

variable {state : State Task Thread}

theorem worker_uses_token (hinv : state.TokenInvariant) (hholding : state.worker.holding ≠ 0) :
    ∃ next, state.work false = some next ∧ next.callers = state.callers ∧
      next.worker.distance < state.worker.distance := by
  have hclaimed := hinv.claimed
  unfold State.claims at hclaimed
  unfold State.work
  cases hpc : state.worker with
  | cmdIsEmpty =>
      by_cases hcmd : state.cmd = 0
      · exact ⟨_, if_pos hcmd, rfl, Nat.lt_succ_self 1⟩
      · exact ⟨_, if_neg hcmd, rfl, Nat.lt_succ_self 1⟩
  | popCmd => exact ⟨_, if_pos (hinv.queued hpc), rfl, Nat.zero_lt_one⟩
  | popTask =>
      cases hmailbox : state.mailbox with
      | nil =>
          rw [hpc, hmailbox] at hclaimed
          exact absurd hclaimed (Nat.not_succ_le_zero _)
      | cons task rest => exact ⟨_, rfl, rfl, Nat.zero_lt_one⟩
  | _ =>
      rw [hpc] at hholding
      exact absurd rfl hholding

variable [DecidableEq Thread]

omit [Fintype Thread] in
theorem caller_finishes {thread : Thread} (capacity : ℕ)
    (hholding : (state.callers thread).holding ≠ 0) :
    ∃ pc next, state.caller capacity thread = some next ∧
      next.callers = Function.update state.callers thread pc ∧ next.worker = state.worker ∧
      pc.holding = 0 ∧ ((state.callers thread).Clearing → pc.Clearing) := by
  unfold State.caller
  cases hpc : state.callers thread with
  | signalTask => exact ⟨_, _, rfl, rfl, rfl, rfl, id⟩
  | signalCmd join =>
      refine ⟨_, _, rfl, rfl, rfl, ?_, nofun⟩
      cases join <;> rfl
  | getTask clearing =>
      have hback : (CallerPc.getTask clearing : CallerPc Task).Clearing →
          (CallerPc.back clearing : CallerPc Task).Clearing := by
        intro hclearing
        have htrue : clearing = true := hclearing
        rw [htrue]
        trivial
      cases state.mailbox with
      | nil => exact ⟨_, _, rfl, rfl, rfl, CallerPc.holding_back clearing, hback⟩
      | cons task rest => exact ⟨_, _, rfl, rfl, rfl, CallerPc.holding_back clearing, hback⟩
  | _ =>
      rw [hpc] at hholding
      exact absurd rfl hholding

/-- The calls between a queue and the semaphore get there without a new call. -/
theorem settles (hinv : state.TokenInvariant) (capacity : ℕ) {thread : Thread}
    (hclearing : (state.callers thread).Clearing) :
    ∃ schedule middle, (∀ action ∈ schedule, action.Continues) ∧
      (machine Task Thread capacity).runFrom state schedule = some middle ∧
      middle.TokenInvariant ∧ middle.Settled ∧ (middle.callers thread).Clearing := by
  induction hrank : state.worker.distance + state.holding using Nat.strong_induction_on
    generalizing state with
  | _ rank ih =>
      by_cases hworker : state.worker.holding = 0
      · by_cases hcallers : state.holding = 0
        · exact ⟨[], state, by simp, rfl, hinv, ⟨hworker, hcallers⟩, hclearing⟩
        · obtain ⟨other, -, hother⟩ := Finset.exists_ne_zero_of_sum_ne_zero hcallers
          obtain ⟨pc, next, hstep, hnext, hsame, hpc, hkeeps⟩ :=
            caller_finishes capacity hother
          have henough : state.EnoughTasks (state.callers other) := by
            cases hwhere : state.callers other with
            | tryConsume clearing =>
                rw [hwhere] at hother
                exact absurd rfl hother
            | _ => trivial
          have hsum :
              next.holding + (state.callers other).holding = state.holding + pc.holding := by
            unfold State.holding
            rw [hnext]
            exact tally_update CallerPc.holding state.callers other pc
          have hstill : (next.callers thread).Clearing := by
            rw [hnext]
            by_cases heq : thread = other
            · subst heq
              rw [Function.update_self]
              exact hkeeps hclearing
            · rw [Function.update_of_ne heq]
              exact hclearing
          obtain ⟨rest, middle, hrest, hrun, hfacts⟩ :=
            ih (next.worker.distance + next.holding) (by rw [hsame]; omega)
              (hinv.caller henough hstep) hstill rfl
          refine ⟨.caller other :: rest, middle, ?_, ?_, hfacts⟩
          · simpa using ⟨trivial, hrest⟩
          · simp only [Machine.runFrom, machine, State.step, hstep]
            exact hrun
      · obtain ⟨next, hstep, hsame, hcloser⟩ := hinv.worker_uses_token hworker
        have hsum : next.holding = state.holding := by
          unfold State.holding
          rw [hsame]
        obtain ⟨rest, middle, hrest, hrun, hfacts⟩ :=
          ih (next.worker.distance + next.holding) (by omega) (hinv.work hstep)
            (by rw [hsame]; exact hclearing) rfl
        refine ⟨.work false :: rest, middle, ?_, ?_, hfacts⟩
        · simpa using ⟨trivial, hrest⟩
        · simp only [Machine.runFrom, machine, State.step, hstep]
          exact hrun

end State.TokenInvariant

variable [DecidableEq Thread]

/-- No token was wasted; between the calls there is a token for each item; and
`ClearAllTask` returns, on its own when no other call is between a queue and the
semaphore, and otherwise once these calls go on. -/
structure State.TokensMatch (capacity : ℕ) (state : State Task Thread) : Prop where
  kept : state.wasted = 0
  matched : state.Settled → state.sem = state.mailbox.length + state.cmd
  exits : state.Settled → 0 < state.cmd → 0 < state.sem
  clearsAlone : state.Settled → ∀ thread, state.callers thread = .hasTask →
    ∃ schedule final, (∀ action ∈ schedule, action = Action.caller thread) ∧
      (machine Task Thread capacity).runFrom state schedule = some final ∧
      final.callers thread = .idle ∧ final.mailbox = []
  clears : ∀ thread, (state.callers thread).Clearing →
    ∃ schedule final, (∀ action ∈ schedule, action.Continues) ∧
      (machine Task Thread capacity).runFrom state schedule = some final ∧
      final.callers thread = .idle

namespace State.TokenInvariant

variable {state : State Task Thread}

theorem clears_settled (hinv : state.TokenInvariant) (hsettled : state.Settled) (capacity : ℕ)
    {thread : Thread} (hclearing : (state.callers thread).Clearing) :
    ∃ schedule final, (∀ action ∈ schedule, action = Action.caller thread) ∧
      (machine Task Thread capacity).runFrom state schedule = some final ∧
      final.callers thread = .idle := by
  have htokens : state.mailbox.length ≤ state.sem := by
    rw [hinv.matched hsettled]
    exact Nat.le_add_right _ _
  cases hpc : state.callers thread with
  | hasTask =>
      obtain ⟨schedule, final, hown, hrun, hidle, -⟩ :=
        State.clearAllTask_alone capacity hpc htokens
      exact ⟨schedule, final, hown, hrun, hidle⟩
  | tryConsume clearing =>
      rw [hpc] at hclearing
      have htrue : clearing = true := hclearing
      rw [htrue] at hpc
      obtain ⟨first, next, hfirst, hnext, hback, -, hleft⟩ :=
        State.tryGetTask_alone capacity hpc htokens
      obtain ⟨second, final, hsecond, hrun, hidle, -⟩ :=
        State.clearAllTask_alone capacity hback hleft
      refine ⟨first ++ second, final, ?_, Machine.runFrom_append hnext hrun, hidle⟩
      intro action haction
      rcases List.mem_append.mp haction with hone | htwo
      · exact hfirst action hone
      · exact hsecond action htwo
  | getTask clearing =>
      have hzero : (state.callers thread).holding = 0 :=
        Finset.sum_eq_zero_iff.mp hsettled.2 thread (Finset.mem_univ thread)
      rw [hpc] at hzero
      cases hzero
  | _ =>
      rw [hpc] at hclearing
      exact hclearing.elim

theorem clears (hinv : state.TokenInvariant) (capacity : ℕ) {thread : Thread}
    (hclearing : (state.callers thread).Clearing) :
    ∃ schedule final, (∀ action ∈ schedule, action.Continues) ∧
      (machine Task Thread capacity).runFrom state schedule = some final ∧
      final.callers thread = .idle := by
  obtain ⟨first, middle, hfirst, hmiddle, hkeeps, hsettled, hstill⟩ :=
    hinv.settles capacity hclearing
  obtain ⟨second, final, hsecond, hrun, hidle⟩ :=
    hkeeps.clears_settled hsettled capacity hstill
  refine ⟨first ++ second, final, ?_, Machine.runFrom_append hmiddle hrun, hidle⟩
  intro action haction
  rcases List.mem_append.mp haction with hone | htwo
  · exact hfirst action hone
  · rw [hsecond action htwo]
    trivial

end State.TokenInvariant

/-- The tokens match the items if every `TryGetTask` that takes a token finds a task that
no other thread goes for. -/
theorem tokensMatch_of_takesOwnToken {capacity : ℕ} {state : State Task Thread}
    (hreached : (machine Task Thread capacity).ReachedBy TakesOwnToken state) :
    state.TokensMatch capacity := by
  have hinv : state.TokenInvariant := State.TokenInvariant.reached hreached
  refine ⟨hinv.kept, hinv.matched, ?_, ?_, ?_⟩
  · intro hsettled hcmd
    rw [hinv.matched hsettled]
    omega
  · intro hsettled thread hpc
    apply State.clearAllTask_alone capacity hpc
    rw [hinv.matched hsettled]
    exact Nat.le_add_right _ _
  · intro thread hclearing
    exact hinv.clears capacity hclearing

end Tokens

/-- A task is posted and taken back while another one is posted; then all is cleared. -/
def takenBack : List (Action ℕ Bool) :=
  [.call false (.postTask 7), .caller false, .caller false, .call true (.postTask 8),
    .caller true, .call false .tryGetTask, .caller false, .caller true, .caller false,
    .call false .clearAllTask]

theorem takenBack_reached :
    ∃ state, (machine ℕ Bool 1024).ReachedBy TakesOwnToken state ∧
      state.callers false = .hasTask ∧ state.mailbox = [8] := by
  have hrun : ((machine ℕ Bool 1024).run takenBack).map
      (fun state => (state.callers false, state.mailbox)) = some (.hasTask, [8]) := by
    decide
  have hadmits : (machine ℕ Bool 1024).Admits TakesOwnToken
      (machine ℕ Bool 1024).start takenBack := by
    decide
  obtain ⟨state, hstate, hfacts⟩ := Option.map_eq_some_iff.mp hrun
  exact ⟨state, Machine.ReachedBy.start.runFrom hadmits hstate,
    congrArg Prod.fst hfacts, congrArg Prod.snd hfacts⟩

theorem tokensMatch_takenBack :
    ∃ state : State ℕ Bool, state.callers false = .hasTask ∧ state.mailbox = [8] ∧
      state.TokensMatch 1024 := by
  obtain ⟨state, hreached, hpc, hmailbox⟩ := takenBack_reached
  exact ⟨state, hpc, hmailbox, tokensMatch_of_takesOwnToken hreached⟩

/-- `StopWorking` posts an exit command and `TryGetTask` takes its token. -/
def exitTokenTaken : List (Action ℕ Unit) :=
  [.call () (.stopWorking false), .caller (), .caller (), .call () .tryGetTask, .caller (),
    .caller ()]

theorem exitTokenTaken_wastes :
    ¬ ∀ state, (machine ℕ Unit 1024).Reachable state → state.TokensMatch 1024 := by
  intro hclaim
  have hrun : ((machine ℕ Unit 1024).run exitTokenTaken).map State.wasted = some 1 := by
    decide
  obtain ⟨state, hstate, hwasted⟩ := Option.map_eq_some_iff.mp hrun
  have hkept := (hclaim state (Machine.Reachable.runFrom .start hstate)).kept
  rw [hwasted] at hkept
  cases hkept

end WorkerLoop
end BackEndFacility
