import BackEndFacility.SocketServer

/-!
# Which events `RunPoll` returns

A batch is handled as a whole: each of its events is put on one of the two
queues, and the rounds of `RunPoll` that follow take them off again, those of
the accept queue first.  The queues belong to the function and not to the
server, so a second server finds what the first has polled.
-/

namespace BackEndFacility
namespace SocketServer

/-! ## What is due for a batch -/

/-- The event of a connection that was accepted. -/
def Handled.accepted (handled : Handled) : Option SocketEvent :=
  match handled.status, handled.answer.client with
  | .listening, some fd => some ⟨some .accepted, handled.server, fd⟩
  | _, _ => none

/-- The event of a slot that is connecting or open.  No code is named for one
that is neither readable nor writable. -/
def Handled.ready (handled : Handled) : Option SocketEvent :=
  match handled.status with
  | .connecting =>
      some ⟨some (if handled.answer.connected then .connected else .failConn),
        handled.server, handled.event.data⟩
  | .connected | .paccept =>
      match handled.event.read, handled.event.write with
      | true, _ => some ⟨some .read, handled.server, handled.event.data⟩
      | false, true => some ⟨some .write, handled.server, handled.event.data⟩
      | false, false => some ⟨none, handled.server, handled.event.data⟩
  | .listening | .invalid => none

/-- The events due for a batch, in the order in which they are due. -/
def due (batch : List Handled) : List SocketEvent :=
  batch.filterMap Handled.accepted ++ batch.filterMap Handled.ready

def Queues.pending (queues : Queues) : List SocketEvent :=
  queues.accept ++ queues.readWrite

/-- Each due event has been returned once or is still queued, in order, and what
was returned went to the server that polled it, with a code. -/
structure Process.Delivers (process : Process) : Prop where
  once : process.returned.map Prod.snd ++ process.queues.pending = process.polled.flatMap due
  own : ∀ entry ∈ process.returned, entry.2.server = entry.1
  defined : ∀ entry ∈ process.returned, entry.2.code ≠ none

/-- Some server gets all that is still queued by asking often enough. -/
def Process.Drains (machine : Machine Process Action) (process : Process) : Prop :=
  ∃ self final,
    machine.runFrom process
        (List.replicate process.queues.pending.length (.runPoll self [])) = some final ∧
      final.returned.map Prod.snd = process.polled.flatMap due ∧ final.Delivers

/-! ## When a batch is handled as it is due -/

/-- A new connection finds its slot free and is added to the poller, and an event
of an open slot carries a flag. -/
def ServerImpl.Answers (server : ServerImpl) (event : PollEvent) (answer : Answer) : Prop :=
  match server.status event.data with
  | .listening =>
      ∀ fd, answer.client = some fd →
        server.status fd = .invalid ∧ (server.watchAccepted = true → answer.added = true)
  | .connected | .paccept => event.read = true ∨ event.write = true
  | .connecting | .invalid => True

/-- Each event of the batch is answered in the state in which it is handled. -/
def ServerImpl.AnswersAll : ServerImpl → Batch → Prop
  | _, [] => True
  | server, (event, answer) :: rest =>
      server.Answers event answer ∧
        ∀ after next, server.handleEvent 0 ⟨[], []⟩ event answer = some (after, next) →
          next.AnswersAll rest

/-- `RunPoll` is called only when the queues hold nothing of another server, and
what it polls is answered. -/
def PollsOwn (process : Process) : Action → Prop
  | .call _ _ => True
  | .runPoll self batch =>
      (∀ event ∈ process.queues.pending, event.server = self) ∧
        (process.queues.pending = [] →
          ((process.servers self).waitAll batch).AnswersAll batch)

/-- Two servers in one process.  The first polls two readable sockets and takes
one event; the second is given the other one. -/
def secondServer : List Action :=
  [.call 0 (.watchRawSocket 5 false true), .call 0 (.watchRawSocket 6 false true),
    .runPoll 0 [(⟨5, true, false⟩, ⟨none, true, true⟩), (⟨6, true, false⟩, ⟨none, true, true⟩)],
    .runPoll 0 [], .runPoll 1 []]

theorem not_delivers_secondServer :
    ¬ ∀ maxSocket unset process,
      (machine maxSocket unset).Reachable process → process.Delivers := by
  intro hall
  have hstolen : ∃ process, (machine 8 fun _ _ => (0, 0)).run secondServer = some process ∧
      process.returned = [(0, ⟨some .read, 0, 5⟩), (1, ⟨some .read, 0, 6⟩)] :=
    ⟨_, rfl, rfl⟩
  obtain ⟨process, hrun, hreturned⟩ := hstolen
  have hreached : (machine 8 fun _ _ => (0, 0)).Reachable process :=
    Machine.Reachable.runFrom .start hrun
  have hown := (hall 8 _ process hreached).own (1, ⟨some .read, 0, 6⟩) (by simp [hreturned])
  cases hown

/-! ## One event -/

/-- The event is put behind those of its kind. -/
def Queues.extend (queues : Queues) (batch : List Handled) : Queues where
  accept := queues.accept ++ batch.filterMap Handled.accepted
  readWrite := queues.readWrite ++ batch.filterMap Handled.ready

namespace ServerImpl

variable {server : ServerImpl}

theorem setupSocketConnection_succeeds
    (server : ServerImpl) (opaqueValue : ℕ) {fd : ℕ} {poll added : Bool}
    (hfree : server.status fd = .invalid)
    (hadded : poll = true → added = true) :
    ∃ next, server.setupSocketConnection fd opaqueValue poll added = some next := by
  unfold setupSocketConnection
  rw [if_pos hfree]
  cases poll with
  | false => exact ⟨_, rfl⟩
  | true =>
      rw [hadded rfl]
      exact ⟨_, rfl⟩

theorem handleEvent_answered
    {event : PollEvent} {answer : Answer}
    (hanswers : server.Answers event answer) :
    ∃ next, ∀ self queues, server.handleEvent self queues event answer =
      some (queues.extend [⟨self, server.status event.data, event, answer⟩], next) := by
  unfold Answers at hanswers
  cases hstatus : server.status event.data with
  | invalid =>
      refine ⟨server, fun self queues => ?_⟩
      simp [handleEvent, hstatus, Queues.extend, List.filterMap_cons, Handled.accepted,
        Handled.ready]
  | listening =>
      rw [hstatus] at hanswers
      cases hclient : answer.client with
      | none =>
          refine ⟨server, fun self queues => ?_⟩
          simp [handleEvent, hstatus, handleAcceptReady, hclient, Queues.extend,
            List.filterMap_cons, Handled.accepted, Handled.ready]
      | some fd =>
          obtain ⟨hfree, hadded⟩ := hanswers fd hclient
          obtain ⟨ready, hready⟩ := setupSocketConnection_succeeds
            { server with
              connNum := server.connNum + 1
              accepted := fd :: server.accepted }
            (server.sockets event.data).opaqueValue hfree hadded
          refine ⟨ready.setStatus fd (if server.watchAccepted then .connected else .paccept),
            fun self queues => ?_⟩
          simp [handleEvent, hstatus, handleAcceptReady, hclient, hready, Queues.pushAccept,
            Queues.extend, List.filterMap_cons, Handled.accepted, Handled.ready]
  | connecting =>
      refine ⟨(server.handleConnectDone event.data answer.connected).2, fun self queues => ?_⟩
      cases hconnected : answer.connected with
      | false =>
          simp [handleEvent, hstatus, handleConnectDone, hconnected, Queues.pushReadWrite,
            Queues.extend, List.filterMap_cons, Handled.accepted, Handled.ready]
      | true =>
          simp [handleEvent, hstatus, handleConnectDone, hconnected, Queues.pushReadWrite,
            Queues.extend, List.filterMap_cons, Handled.accepted, Handled.ready]
  | connected =>
      refine ⟨server, fun self queues => ?_⟩
      simp only [handleEvent, hstatus, Queues.pushReadWrite, Queues.extend]
      cases hread : event.read <;> cases hwrite : event.write <;>
        simp [List.filterMap_cons, Handled.accepted, Handled.ready, PollEvent.code, hread, hwrite]
  | paccept =>
      refine ⟨server, fun self queues => ?_⟩
      simp only [handleEvent, hstatus, Queues.pushReadWrite, Queues.extend]
      cases hread : event.read <;> cases hwrite : event.write <;>
        simp [List.filterMap_cons, Handled.accepted, Handled.ready, PollEvent.code, hread, hwrite]

theorem due_answered
    {event : PollEvent} {answer : Answer} {self : ℕ}
    (hanswers : server.Answers event answer) :
    ∀ found ∈ due [⟨self, server.status event.data, event, answer⟩],
      found.server = self ∧ found.code ≠ none := by
  intro found hfound
  unfold Answers at hanswers
  unfold due at hfound
  cases hstatus : server.status event.data with
  | invalid => simp [hstatus, List.filterMap_cons, Handled.accepted, Handled.ready] at hfound
  | listening =>
      cases hclient : answer.client with
      | none =>
          simp [hstatus, hclient, List.filterMap_cons, Handled.accepted,
            Handled.ready] at hfound
      | some fd =>
          simp only [hstatus, hclient, List.filterMap_cons, Handled.accepted, Handled.ready,
            List.filterMap_nil, List.append_nil, List.mem_singleton] at hfound
          rw [hfound]
          exact ⟨rfl, by simp⟩
  | connecting =>
      simp only [hstatus, List.filterMap_cons, Handled.accepted, Handled.ready,
        List.filterMap_nil, List.nil_append, List.mem_singleton] at hfound
      rw [hfound]
      exact ⟨rfl, by simp⟩
  | connected =>
      rw [hstatus] at hanswers
      cases hread : event.read <;> cases hwrite : event.write <;>
        simp_all [List.filterMap_cons, Handled.accepted, Handled.ready]
  | paccept =>
      rw [hstatus] at hanswers
      cases hread : event.read <;> cases hwrite : event.write <;>
        simp_all [List.filterMap_cons, Handled.accepted, Handled.ready]

/-! ## One batch -/

theorem mem_due_cons
    {found : SocketEvent} {first : Handled} {rest : List Handled} :
    found ∈ due (first :: rest) ↔ found ∈ due [first] ∨ found ∈ due rest := by
  have hsplit : ∀ kind : Handled → Option SocketEvent,
      (first :: rest).filterMap kind = [first].filterMap kind ++ rest.filterMap kind :=
    fun kind => List.filterMap_append (l := [first])
  unfold due
  simp only [hsplit, List.mem_append]
  tauto

theorem extend_extend (queues : Queues) (first : Handled) (rest : List Handled) :
    (queues.extend [first]).extend rest = queues.extend (first :: rest) := by
  unfold Queues.extend
  simp only [List.append_assoc, ← List.filterMap_append, List.singleton_append]

theorem handleEvents_answered
    {batch : Batch}
    (hanswers : server.AnswersAll batch) :
    ∃ next, ∀ self queues ignored, handleEvents self queues server batch =
      some (queues.extend (server.handled self ignored batch), next) := by
  induction batch generalizing server with
  | nil =>
      refine ⟨server, fun self queues ignored => ?_⟩
      simp [handleEvents, handled, Queues.extend]
  | cons delivered rest ih =>
      obtain ⟨event, answer⟩ := delivered
      obtain ⟨hfirst, hrest⟩ := hanswers
      obtain ⟨middle, hmiddle⟩ := handleEvent_answered hfirst
      obtain ⟨next, hnext⟩ := ih (hrest _ middle (hmiddle 0 ⟨[], []⟩))
      refine ⟨next, fun self queues ignored => ?_⟩
      rw [handleEvents, hmiddle]
      simp only
      rw [hnext self _ ignored, extend_extend, handled, hmiddle]

theorem due_handled
    {batch : Batch} {self : ℕ} {ignored : Queues}
    (hanswers : server.AnswersAll batch) :
    ∀ found ∈ due (server.handled self ignored batch),
      found.server = self ∧ found.code ≠ none := by
  induction batch generalizing server with
  | nil =>
      intro found hfound
      simp [handled, due] at hfound
  | cons delivered rest ih =>
      obtain ⟨event, answer⟩ := delivered
      obtain ⟨hfirst, hrest⟩ := hanswers
      obtain ⟨middle, hmiddle⟩ := handleEvent_answered hfirst
      intro found hfound
      rw [handled, hmiddle] at hfound
      rcases mem_due_cons.mp hfound with hnow | hlater
      · exact due_answered hfirst found hnow
      · exact ih (hrest _ middle (hmiddle 0 ⟨[], []⟩)) found hlater

end ServerImpl

/-! ## Whole runs -/

/-- With what is delivered, what the queues hold: events of one server, with a
code. -/
structure Process.Kept (process : Process) : Prop extends process.Delivers where
  queued : ∃ self, ∀ event ∈ process.queues.pending,
    event.server = self ∧ event.code ≠ none

namespace Process

variable {process next : Process} {self : ℕ}

theorem pending_cases (queues : Queues) :
    (∃ event rest, queues.accept = event :: rest ∧
      queues.pending = event :: { queues with accept := rest }.pending) ∨
    (∃ event rest, queues.accept = [] ∧ queues.readWrite = event :: rest ∧
      queues.pending = event :: { queues with readWrite := rest }.pending) ∨
    (queues = ⟨[], []⟩ ∧ queues.pending = []) := by
  obtain ⟨accept, readWrite⟩ := queues
  cases accept with
  | cons event rest => exact .inl ⟨event, rest, rfl, rfl⟩
  | nil =>
      cases readWrite with
      | cons event rest => exact .inr (.inl ⟨event, rest, rfl, rfl, rfl⟩)
      | nil => exact .inr (.inr ⟨rfl, rfl⟩)

/-- A round of `RunPoll` either returns the first of the queued events or finds
none and polls. -/
theorem runPoll_cases (process : Process) (self : ℕ) (batch : Batch) :
    (∃ event queues, process.queues.pending = event :: queues.pending ∧
      process.runPoll self batch = process.giveBack self event queues) ∨
    (process.queues = ⟨[], []⟩ ∧ process.runPoll self batch = process.poll self batch) := by
  rcases pending_cases process.queues with
    ⟨event, rest, haccept, hpending⟩ | ⟨event, rest, haccept, hready, hpending⟩ |
      ⟨hempty, _⟩
  · refine .inl ⟨event, _, hpending, ?_⟩
    rw [runPoll, haccept]
  · refine .inl ⟨event, _, hpending, ?_⟩
    simp only [runPoll, haccept, hready]
  · refine .inr ⟨hempty, ?_⟩
    rw [runPoll, hempty]

theorem Kept.giveBack
    {event : SocketEvent} {queues : Queues}
    (hkept : process.Kept)
    (hpending : process.queues.pending = event :: queues.pending)
    (hself : event.server = self) :
    (process.giveBack self event queues).Kept := by
  obtain ⟨server, hqueued⟩ := hkept.queued
  have hfirst := hqueued event (by simp [hpending])
  refine ⟨⟨?_, ?_, ?_⟩, server, ?_⟩
  · have honce := hkept.once
    rw [hpending] at honce
    simp only [Process.giveBack, List.map_append, List.map_cons, List.map_nil,
      List.append_assoc, List.singleton_append]
    exact honce
  · intro entry hentry
    rcases List.mem_append.mp hentry with hold | hnew
    · exact hkept.own entry hold
    · rw [List.mem_singleton.mp hnew]
      exact hself
  · intro entry hentry
    rcases List.mem_append.mp hentry with hold | hnew
    · exact hkept.defined entry hold
    · rw [List.mem_singleton.mp hnew]
      exact hfirst.2
  · intro other hother
    exact hqueued other (by simp [hpending, show other ∈ queues.pending from hother])

theorem Kept.poll
    {batch : Batch}
    (hkept : process.Kept)
    (hempty : process.queues = ⟨[], []⟩)
    (hanswers : ((process.servers self).waitAll batch).AnswersAll batch) :
    (process.poll self batch).Kept := by
  obtain ⟨server, hserver⟩ := ServerImpl.handleEvents_answered hanswers
  have hpoll : process.poll self batch =
      { process.setServer self server with
        queues := process.queues.extend
          (((process.servers self).waitAll batch).handled self process.queues batch)
        polled := process.polled ++
          [((process.servers self).waitAll batch).handled self process.queues batch] } := by
    unfold Process.poll
    simp only [hserver self process.queues process.queues]
    rfl
  have hpending : (process.poll self batch).queues.pending =
      due (((process.servers self).waitAll batch).handled self process.queues batch) := by
    rw [hpoll, hempty]
    rfl
  refine ⟨⟨?_, ?_, ?_⟩, self, ?_⟩
  · have honce := hkept.once
    rw [hempty, show Queues.pending ⟨[], []⟩ = [] from rfl, List.append_nil] at honce
    rw [hpending, hpoll]
    simp only [setServer, List.flatMap_append, List.flatMap_cons, List.flatMap_nil,
      List.append_nil]
    rw [← honce]
  · rw [hpoll]
    exact hkept.own
  · rw [hpoll]
    exact hkept.defined
  · rw [hpending]
    exact ServerImpl.due_handled hanswers

theorem Kept.runPoll
    {batch : Batch}
    (hkept : process.Kept)
    (hcondition : PollsOwn process (.runPoll self batch)) :
    (process.runPoll self batch).Kept := by
  rcases process.runPoll_cases self batch with
    ⟨event, queues, hpending, hround⟩ | ⟨hempty, hround⟩
  · rw [hround]
    exact hkept.giveBack hpending (hcondition.1 event (by simp [hpending]))
  · rw [hround]
    exact hkept.poll hempty (hcondition.2 (by rw [hempty]; rfl))

theorem Kept.step
    {action : Action}
    (hkept : process.Kept)
    (hcondition : PollsOwn process action)
    (hstep : process.step action = some next) :
    next.Kept := by
  cases action with
  | call self call =>
      simp only [Process.step] at hstep
      split_ifs at hstep
      split at hstep
      all_goals
        cases hstep
        exact ⟨⟨hkept.once, hkept.own, hkept.defined⟩, hkept.queued⟩
  | runPoll self batch =>
      simp only [Process.step] at hstep
      split_ifs at hstep
      cases hstep
      exact hkept.runPoll hcondition

theorem Kept.drains
    {maxSocket : ℕ} {unset : ℕ → ℕ → ℕ × ℕ}
    (hkept : process.Kept)
    (hrunning : process.crashed = false) :
    process.Drains (machine maxSocket unset) := by
  obtain ⟨self, hqueued⟩ := hkept.queued
  suffices hall : ∀ (count : ℕ) (process : Process), process.Kept →
      process.crashed = false → process.queues.pending.length = count →
      (∀ event ∈ process.queues.pending, event.server = self) →
      ∃ final, (machine maxSocket unset).runFrom process
          (List.replicate count (.runPoll self [])) = some final ∧
        final.returned.map Prod.snd = process.polled.flatMap due ∧ final.Delivers by
    exact ⟨self, hall _ process hkept hrunning rfl fun event hevent => (hqueued event hevent).1⟩
  intro count
  induction count with
  | zero =>
      intro process hkept _ hlength _
      refine ⟨process, rfl, ?_, hkept.toDelivers⟩
      have honce := hkept.once
      rw [List.length_eq_zero_iff.mp hlength, List.append_nil] at honce
      exact honce
  | succ count ih =>
      intro process hkept hrunning hlength hown
      rcases process.runPoll_cases self [] with
        ⟨event, queues, hpending, hround⟩ | ⟨hempty, _⟩
      · have hnext : (machine maxSocket unset).step process (.runPoll self []) =
            some (process.giveBack self event queues) := by
          show process.step (.runPoll self []) = _
          simp only [Process.step, hrunning, hround]
          rfl
        rw [List.replicate_succ, Machine.runFrom, hnext]
        have hevent : event.server = self := hown event (by simp [hpending])
        rw [hpending] at hlength hown
        exact ih _ (hkept.giveBack hpending hevent) hrunning (Nat.succ.inj hlength)
          (fun other hother => hown other (by
            simp [show other ∈ queues.pending from hother]))
      · rw [hempty] at hlength
        cases hlength

end Process

/-- In every run in which `RunPoll` finds no events of another server and each
event is answered, what is due is returned once, in order, with its code, to
the server that polled it. -/
theorem delivers_of_pollsOwn
    {maxSocket : ℕ} {unset : ℕ → ℕ → ℕ × ℕ} {process : Process}
    (hreached : (machine maxSocket unset).ReachedBy PollsOwn process) :
    process.Delivers ∧
      (process.crashed = false → process.Drains (machine maxSocket unset)) := by
  have hstart : (machine maxSocket unset).start.Kept := by
    refine ⟨⟨rfl, ?_, ?_⟩, 0, ?_⟩
    · intro entry hentry
      cases hentry
    · intro entry hentry
      cases hentry
    · intro event hevent
      cases hevent
  have hkept : process.Kept :=
    hreached.invariant Process.Kept hstart
      (fun _ _ _ hkept hcondition hstep => hkept.step hcondition hstep)
  exact ⟨hkept.toDelivers, hkept.drains⟩

/-- The first server polls a socket that is readable and one that listens, and takes the new
connection first; then the second server polls a socket of its own. -/
def eachPollsItsOwn : List Action :=
  [.call 0 (.watchRawSocket 5 false true), .call 1 (.watchRawSocket 7 false true),
    .call 0 (.listenTo (some 3) 0 true),
    .runPoll 0 [(⟨5, true, true⟩, ⟨none, true, true⟩), (⟨3, true, false⟩, ⟨some 6, true, true⟩)],
    .runPoll 0 [], .runPoll 0 [],
    .runPoll 1 [(⟨7, true, false⟩, ⟨none, true, true⟩)], .runPoll 1 []]

theorem delivers_eachPollsItsOwn :
    ∃ process, (machine 8 fun _ _ => (0, 0)).run eachPollsItsOwn = some process ∧
      process.returned =
        [(0, ⟨some .accepted, 0, 6⟩), (0, ⟨some .read, 0, 5⟩), (1, ⟨some .read, 1, 7⟩)] ∧
      process.Delivers ∧
        (process.crashed = false → process.Drains (machine 8 fun _ _ => (0, 0))) := by
  have hreached : ∀ process, (machine 8 fun _ _ => (0, 0)).run eachPollsItsOwn = some process →
      (machine 8 fun _ _ => (0, 0)).ReachedBy PollsOwn process := by
    intro process hrun
    refine Machine.ReachedBy.runFrom .start ?_ hrun
    refine ⟨trivial, fun _ hfirst => ⟨trivial, fun _ hsecond => ⟨trivial, fun _ hlisten => ?_⟩⟩⟩
    cases hfirst
    cases hsecond
    cases hlisten
    refine ⟨⟨by decide, fun _ => ⟨.inl rfl, fun _ _ hevent => ?_⟩⟩, fun _ hpoll => ?_⟩
    · cases hevent
      refine ⟨fun fd hfd => ?_, fun _ _ _ => trivial⟩
      cases hfd
      exact ⟨rfl, fun _ => rfl⟩
    cases hpoll
    refine ⟨⟨by decide, fun hempty => by cases hempty⟩, fun _ haccept => ?_⟩
    cases haccept
    refine ⟨⟨by decide, fun hempty => by cases hempty⟩, fun _ hread => ?_⟩
    cases hread
    refine ⟨⟨by decide, fun _ => ⟨.inl rfl, fun _ _ _ => trivial⟩⟩, fun _ hother => ?_⟩
    cases hother
    exact ⟨⟨by decide, fun hempty => by cases hempty⟩, fun _ _ => trivial⟩
  exact ⟨_, rfl, rfl, delivers_of_pollsOwn (hreached _ rfl)⟩

end SocketServer
end BackEndFacility
