import BackEndFacility.WorkerLoop

/-!
# What the worker is given

When no other thread takes tasks from the worker, the tasks it hands to `HandleTask` are
the accepted ones in the order of the mailbox, whatever the posting threads do and however
often the worker is stopped and started again.  That the mailbox is not empty when the
worker comes for a task is the token invariant of `WorkerLoop`.
-/

namespace BackEndFacility
namespace WorkerLoop

variable {Task Thread : Type*}

/-- A step of the worker leaves the other threads where they are, hands a task over only
from the mailbox, and goes to the mailbox only if there is no command. -/
theorem State.work_frame {state state' : State Task Thread} {expired : Bool}
    (hstep : state.work expired = some state') :
    state'.callers = state.callers ∧
      (state'.handled ≠ state.handled → state.worker = .popTask) ∧
      (state'.worker = .popTask →
        (state.worker = .cmdIsEmpty ∨ state.worker = .popCmd) ∧ state.cmd = 0) := by
  unfold State.work at hstep
  cases hpc : state.worker with
  | cmdIsEmpty =>
      simp only [hpc] at hstep
      split at hstep
      next hnone =>
        cases hstep
        exact ⟨rfl, fun hne => absurd rfl hne, fun _ => ⟨.inl rfl, hnone⟩⟩
      · cases hstep
        exact ⟨rfl, fun hne => absurd rfl hne, nofun⟩
  | popCmd =>
      simp only [hpc] at hstep
      split at hstep
      · cases hstep
        exact ⟨rfl, fun hne => absurd rfl hne, nofun⟩
      next hnone =>
        cases hstep
        exact ⟨rfl, fun hne => absurd rfl hne, fun _ => ⟨.inr rfl, Nat.eq_zero_of_not_pos hnone⟩⟩
  | popTask =>
      simp only [hpc] at hstep
      split at hstep
      all_goals
        cases hstep
        exact ⟨rfl, fun _ => rfl, nofun⟩
  | handleTask msg =>
      cases msg with
      | none =>
          simp only [hpc] at hstep
          cases hstep
      | some task =>
          simp only [hpc] at hstep
          cases hstep
          refine ⟨rfl, fun hne => absurd rfl hne, ?_⟩
          cases state.shouldStop <;> exact nofun
  | _ =>
      simp only [hpc] at hstep
      repeat' split at hstep
      all_goals cases hstep
      all_goals exact ⟨rfl, fun hne => absurd rfl hne, nofun⟩

/-- No thread calls `TryGetTask` or `ClearAllTask`. -/
def OnlyPosts (_ : State Task Thread) : Action Task Thread → Prop
  | .call _ .tryGetTask => False
  | .call _ .clearAllTask => False
  | _ => True

instance decidableOnlyPosts (state : State Task Thread) :
    ∀ action : Action Task Thread, Decidable (OnlyPosts state action)
  | .call _ (.postTask _) => isTrue trivial
  | .call _ (.stopWorking _) => isTrue trivial
  | .call _ .tryGetTask => isFalse id
  | .call _ .clearAllTask => isFalse id
  | .startWorking => isTrue trivial
  | .enableNotify _ => isTrue trivial
  | .work _ => isTrue trivial
  | .caller _ => isTrue trivial

/-- The thread posts a task or an exit command, or does nothing. -/
def CallerPc.Posting : CallerPc Task → Prop
  | .tryConsume _ => False
  | .getTask _ => False
  | .hasTask => False
  | _ => True

/-- The worker has taken a task and has not finished it. -/
def WorkerPc.inHand : WorkerPc Task → ℕ
  | .handleTask _ => 1
  | _ => 0

/-- What was handed over and what is in the mailbox is what was accepted, in this order. -/
structure State.Ledger (state : State Task Thread) : Prop where
  inOrder : state.handled ++ state.mailbox.map some = state.accepted.map some
  counted : state.handled.length = state.done + state.worker.inHand
  given : ∀ msg, state.worker = .handleTask msg → msg ∈ state.handled

namespace State.Ledger

variable {state state' : State Task Thread}

theorem work (hledger : state.Ledger) {expired : Bool}
    (hstep : state.work expired = some state')
    (hsome : state.worker = .popTask → state.mailbox ≠ []) : state'.Ledger := by
  have horder := hledger.inOrder
  have hcounted := hledger.counted
  unfold State.work at hstep
  cases hpc : state.worker with
  | popTask =>
      cases hmailbox : state.mailbox with
      | nil => exact absurd hmailbox (hsome hpc)
      | cons task rest =>
          simp only [hpc, hmailbox] at hstep
          rw [hmailbox] at horder
          rw [hpc] at hcounted
          obtain rfl := Option.some.inj hstep
          refine ⟨?_, ?_, ?_⟩
          · rw [← horder, List.map_cons, List.append_assoc, List.singleton_append]
          · simp only [List.length_append, List.length_singleton, WorkerPc.inHand] at hcounted ⊢
            omega
          · intro msg hmsg
            cases hmsg
            exact List.mem_append_right _ (List.mem_singleton_self _)
  | handleTask msg =>
      cases msg with
      | none =>
          simp only [hpc] at hstep
          cases hstep
      | some task =>
          simp only [hpc] at hstep
          rw [hpc] at hcounted
          obtain rfl := Option.some.inj hstep
          refine ⟨horder, hcounted.trans ?_, ?_⟩
          · cases state.shouldStop <;> rfl
          · cases state.shouldStop <;> exact nofun
  | _ =>
      rw [hpc] at hcounted
      simp only [hpc] at hstep
      repeat' split at hstep
      all_goals cases hstep
      all_goals exact ⟨horder, hcounted, nofun⟩

theorem push (hledger : state.Ledger) {added : List Task}
    (hmailbox : state'.mailbox = state.mailbox ++ added)
    (haccepted : state'.accepted = state.accepted ++ added)
    (hhandled : state'.handled = state.handled) (hdone : state'.done = state.done)
    (hworker : state'.worker = state.worker) : state'.Ledger := by
  refine ⟨?_, ?_, ?_⟩
  · rw [hhandled, hmailbox, haccepted, List.map_append, List.map_append, ← List.append_assoc,
      hledger.inOrder]
  · rw [hhandled, hdone, hworker]
    exact hledger.counted
  · rw [hworker, hhandled]
    exact hledger.given

theorem not_null (hledger : state.Ledger) : none ∉ state.handled := by
  intro hnull
  have hmember : none ∈ state.accepted.map some := by
    rw [← hledger.inOrder]
    exact List.mem_append_left _ hnull
  obtain ⟨task, -, htask⟩ := List.mem_map.mp hmember
  cases htask

theorem accepted_length (hledger : state.Ledger)
    (hfree : ∀ msg, state.worker ≠ .handleTask msg) :
    state.accepted.length = state.done + state.mailbox.length := by
  have hinHand : state.worker.inHand = 0 := by
    cases hpc : state.worker with
    | handleTask msg => exact absurd hpc (hfree msg)
    | _ => rfl
  calc
    state.accepted.length = (state.accepted.map some).length := by rw [List.length_map]
    _ = (state.handled ++ state.mailbox.map some).length := by rw [hledger.inOrder]
    _ = state.handled.length + state.mailbox.length := by
      rw [List.length_append, List.length_map]
    _ = state.done + state.mailbox.length := by rw [hledger.counted, hinHand, Nat.add_zero]

end State.Ledger

section Posting

variable [DecidableEq Thread]

theorem State.caller_posts {state state' : State Task Thread} {capacity : ℕ} {thread : Thread}
    (hposting : (state.callers thread).Posting)
    (hstep : state.caller capacity thread = some state') :
    ∃ pc added, pc.Posting ∧ state'.callers = Function.update state.callers thread pc ∧
      state'.mailbox = state.mailbox ++ added ∧ state'.accepted = state.accepted ++ added ∧
      state'.handled = state.handled ∧ state'.done = state.done ∧
      state'.worker = state.worker := by
  unfold State.caller at hstep
  cases hpc : state.callers thread with
  | idle =>
      simp only [hpc] at hstep
      cases hstep
  | pushTask task =>
      simp only [hpc] at hstep
      split at hstep
      · obtain rfl := Option.some.inj hstep
        exact ⟨.signalTask, [task], trivial, rfl, rfl, rfl, rfl, rfl, rfl⟩
      · obtain rfl := Option.some.inj hstep
        exact ⟨.idle, [], trivial, rfl, (List.append_nil _).symm, (List.append_nil _).symm,
          rfl, rfl, rfl⟩
  | signalTask =>
      simp only [hpc] at hstep
      obtain rfl := Option.some.inj hstep
      exact ⟨.idle, [], trivial, rfl, (List.append_nil _).symm, (List.append_nil _).symm,
        rfl, rfl, rfl⟩
  | pushCmd join =>
      simp only [hpc] at hstep
      split at hstep
      · obtain rfl := Option.some.inj hstep
        exact ⟨.signalCmd join, [], trivial, rfl, (List.append_nil _).symm,
          (List.append_nil _).symm, rfl, rfl, rfl⟩
      · obtain rfl := Option.some.inj hstep
        exact ⟨.idle, [], trivial, rfl, (List.append_nil _).symm, (List.append_nil _).symm,
          rfl, rfl, rfl⟩
  | signalCmd join =>
      simp only [hpc] at hstep
      obtain rfl := Option.some.inj hstep
      refine ⟨if join then .join else .idle, [], ?_, rfl, (List.append_nil _).symm,
        (List.append_nil _).symm, rfl, rfl, rfl⟩
      cases join <;> trivial
  | join =>
      simp only [hpc] at hstep
      split at hstep
      · obtain rfl := Option.some.inj hstep
        exact ⟨.idle, [], trivial, rfl, (List.append_nil _).symm, (List.append_nil _).symm,
          rfl, rfl, rfl⟩
      · cases hstep
  | _ =>
      rw [hpc] at hposting
      exact hposting.elim

theorem State.step_frame {state state' : State Task Thread} {capacity : ℕ}
    {action : Action Task Thread} (hposting : ∀ thread, (state.callers thread).Posting)
    (hstep : state.step capacity action = some state') :
    (state'.handled ≠ state.handled → state.worker = .popTask) ∧
      (state'.worker = .popTask → state.worker ≠ .popTask →
        (state.worker = .cmdIsEmpty ∨ state.worker = .popCmd) ∧ state.cmd = 0) := by
  cases action with
  | startWorking =>
      simp only [State.step] at hstep
      split at hstep
      · obtain rfl := Option.some.inj hstep
        refine ⟨fun hne => absurd rfl hne, ?_⟩
        intro hpop
        cases hpop
      · cases hstep
  | enableNotify enable =>
      obtain rfl := Option.some.inj hstep
      exact ⟨fun hne => absurd rfl hne, fun hsame hne => absurd hsame hne⟩
  | work expired =>
      obtain ⟨-, hhands, hgoes⟩ := State.work_frame hstep
      exact ⟨hhands, fun hpop _ => hgoes hpop⟩
  | call thread call =>
      simp only [State.step] at hstep
      split at hstep
      · obtain rfl := Option.some.inj hstep
        exact ⟨fun hne => absurd rfl hne, fun hsame hne => absurd hsame hne⟩
      · cases hstep
  | caller thread =>
      obtain ⟨-, -, -, -, -, -, hhandled, -, hworker⟩ :=
        State.caller_posts (hposting thread) hstep
      exact ⟨fun hne => absurd hhandled hne, fun hpop hne => absurd (hworker ▸ hpop) hne⟩

theorem CallerPc.posting_update {callers : Thread → CallerPc Task} {thread : Thread}
    {pc : CallerPc Task}
    (hposting : ∀ other, (callers other).Posting) (hpc : pc.Posting) (other : Thread) :
    (Function.update callers thread pc other).Posting := by
  by_cases heq : other = thread
  · rw [heq, Function.update_self]
    exact hpc
  · rw [Function.update_of_ne heq]
    exact hposting other

end Posting

section Served

variable [Fintype Thread]

/-- What holds in the runs without `TryGetTask`. -/
structure State.Served (state : State Task Thread) : Prop where
  tokens : state.TokenInvariant
  posting : ∀ thread, (state.callers thread).Posting
  ledger : state.Ledger

namespace State.Served

variable {state state' : State Task Thread}

theorem takesOwnToken (hserved : state.Served) (action : Action Task Thread) :
    TakesOwnToken state action := by
  cases action with
  | caller thread =>
      have hposting := hserved.posting thread
      show state.EnoughTasks (state.callers thread)
      cases hpc : state.callers thread with
      | tryConsume clearing =>
          rw [hpc] at hposting
          exact hposting.elim
      | _ => trivial
  | _ => trivial

theorem mailbox_ne_nil (hserved : state.Served) (hpop : state.worker = .popTask) :
    state.mailbox ≠ [] := by
  intro hmailbox
  have hclaimed := hserved.tokens.claimed
  unfold State.claims at hclaimed
  rw [hpop, hmailbox] at hclaimed
  exact absurd hclaimed (Nat.not_succ_le_zero _)

variable [DecidableEq Thread]

theorem step (hserved : state.Served) {capacity : ℕ} {action : Action Task Thread}
    (honly : OnlyPosts state action) (hstep : state.step capacity action = some state') :
    state'.Served := by
  have htokens := hserved.tokens.step (hserved.takesOwnToken action) hstep
  cases action with
  | startWorking =>
      simp only [State.step] at hstep
      split at hstep
      next hended =>
        obtain rfl := Option.some.inj hstep
        refine ⟨htokens, hserved.posting, hserved.ledger.inOrder, ?_, ?_⟩
        · have hcounted := hserved.ledger.counted
          rw [hended] at hcounted
          exact hcounted
        · intro msg hmsg
          cases hmsg
      · cases hstep
  | enableNotify enable =>
      obtain rfl := Option.some.inj hstep
      exact ⟨htokens, hserved.posting, hserved.ledger.inOrder, hserved.ledger.counted,
        hserved.ledger.given⟩
  | work expired =>
      refine ⟨htokens, ?_, hserved.ledger.work hstep hserved.mailbox_ne_nil⟩
      rw [(State.work_frame hstep).1]
      exact hserved.posting
  | call thread call =>
      simp only [State.step] at hstep
      split at hstep
      · obtain rfl := Option.some.inj hstep
        refine ⟨htokens, ?_, hserved.ledger.inOrder, hserved.ledger.counted,
          hserved.ledger.given⟩
        apply CallerPc.posting_update hserved.posting
        cases call with
        | postTask task => trivial
        | stopWorking join => trivial
        | tryGetTask => exact honly.elim
        | clearAllTask => exact honly.elim
      · cases hstep
  | caller thread =>
      obtain ⟨pc, added, hpc, hcallers, hmailbox, haccepted, hhandled, hdone, hworker⟩ :=
        State.caller_posts (hserved.posting thread) hstep
      refine ⟨htokens, ?_, ?_⟩
      · rw [hcallers]
        exact CallerPc.posting_update hserved.posting hpc
      · exact hserved.ledger.push hmailbox haccepted hhandled hdone hworker

theorem reached {capacity : ℕ}
    (hreached : (machine Task Thread capacity).ReachedBy OnlyPosts state) : state.Served := by
  apply hreached.invariant State.Served
  · exact ⟨TokenInvariant.start, fun _ => trivial, rfl, rfl, nofun⟩
  · intro before action after hserved honly hstep
    exact hserved.step honly hstep

end State.Served

/-- `HandleTask` is not given `NULL`; tasks are handed over once and in the order of the
mailbox, and only after `cmd_` was found empty; and between two tasks every accepted
task is done or in the mailbox. -/
structure State.HandsOver [DecidableEq Thread] (capacity : ℕ) (state : State Task Thread) :
    Prop where
  notNull : none ∉ state.handled ∧ state.worker ≠ .handleTask none
  inOrder : state.handled ++ state.mailbox.map some = state.accepted.map some
  fromMailbox : ∀ action next, state.step capacity action = some next →
    next.handled ≠ state.handled → state.worker = .popTask
  foundEmpty : ∀ action next, state.step capacity action = some next →
    next.worker = .popTask → state.worker ≠ .popTask →
      state.worker = .cmdIsEmpty ∧ state.cmd = 0
  counted : (∀ msg, state.worker ≠ .handleTask msg) →
    state.accepted.length = state.done + state.mailbox.length

/-- One worker, any number of threads that post tasks and stop it, and restarts. -/
theorem handsOver_of_onlyPosts [DecidableEq Thread] {capacity : ℕ} {state : State Task Thread}
    (hreached : (machine Task Thread capacity).ReachedBy OnlyPosts state) :
    state.HandsOver capacity := by
  have hserved : state.Served := State.Served.reached hreached
  have hledger := hserved.ledger
  refine ⟨⟨hledger.not_null, ?_⟩, hledger.inOrder, ?_, ?_, hledger.accepted_length⟩
  · intro hnull
    exact hledger.not_null (hledger.given none hnull)
  · intro action next hstep
    exact (State.step_frame hserved.posting hstep).1
  · intro action next hstep hpop hbefore
    obtain ⟨hwhere, hcmd⟩ := (State.step_frame hserved.posting hstep).2 hpop hbefore
    rcases hwhere with hempty | hpopCmd
    · exact ⟨hempty, hcmd⟩
    · have hqueued := hserved.tokens.queued hpopCmd
      omega

end Served

/-- The worker takes the token of a task and finds an exit command first; it is started
again and is then given the task. -/
def stoppedFirst : List (Action ℕ Bool) :=
  [.startWorking, .call false (.postTask 7), .caller false, .caller false, .work false,
    .work false, .call true (.stopWorking true), .caller true, .work false, .caller true,
    .work false, .call false (.postTask 8), .caller false, .caller false, .caller true,
    .startWorking, .work false, .work false, .work false, .work false]

theorem handsOver_stoppedFirst :
    ∃ state : State ℕ Bool, state.handled = [some 7] ∧ state.HandsOver 1024 := by
  have hrun : ((machine ℕ Bool 1024).run stoppedFirst).map State.handled =
      some [some 7] := by
    decide
  have hadmits : (machine ℕ Bool 1024).Admits OnlyPosts
      (machine ℕ Bool 1024).start stoppedFirst := by
    decide
  obtain ⟨state, hstate, hhandled⟩ := Option.map_eq_some_iff.mp hrun
  exact ⟨state, hhandled,
    handsOver_of_onlyPosts (Machine.ReachedBy.start.runFrom hadmits hstate)⟩

end WorkerLoop
end BackEndFacility
