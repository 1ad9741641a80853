import BackEndFacility.HttpParsing
import BackEndFacility.SocketServer

/-!
# Wake-ups of the HTTP server

`HttpServer::RunPoll` asks its socket server for one event at a time and hands it
to the client of the slot.  Every descriptor is registered with `EPOLLONESHOT`:
once an event is delivered it is silent until `ModifySocket` arms it again, which
only `ReadBuffer` and `SendBuffer` do here.
-/

namespace BackEndFacility

/-! ## The calls made for one event -/

namespace Session

variable {env : Environment} {code : SocketCode}

/-- The calls of `ReadBuffer` and `SendBuffer`. -/
def calls (session : Session) : Nat :=
  session.readCalls + session.sendCalls

theorem readHttpData_calls (env : Environment) (session : Session) :
    session.calls ≤ (session.readHttpData env).2.calls ∧
      (session.client.readBuffer.content = [] → 0 < session.client.readBuffer.size →
        session.calls < (session.readHttpData env).2.calls) := by
  rcases session.readHttpData_cases env with
    ⟨hcontent, heq⟩ | ⟨-, hsize, heq⟩ | ⟨-, -, -, -, heq⟩ | ⟨-, -, -, -, heq⟩ |
      ⟨rest, -, -, -, heq⟩ | ⟨piece, rest, buffer, -, -, -, -, heq, -⟩
  · rw [heq]
    exact ⟨le_refl _, fun hnil => absurd hnil hcontent⟩
  · rw [heq]
    exact ⟨le_refl _, fun _ hpos => by omega⟩
  all_goals
    rw [heq]
    simp only [calls, afterRead, setReadBuffer]
    omega

theorem fetch_calls (env : Environment) (code : SocketCode) (session : Session) :
    session.calls ≤ (session.fetch env code).2.calls := by
  unfold fetch
  split_ifs
  · exact (session.readHttpData_calls env).1
  · exact le_refl _

theorem process_calls
    {session next : Session} {parse : Session → Option Reply} {len : Int}
    (hparse : ∀ session next len, parse session = some (.returned len next) →
      next.calls = session.calls)
    (hreply : session.process env code parse = some (.returned len next)) :
    next.calls = (session.fetch env code).2.calls := by
  unfold process at hreply
  simp only at hreply
  split_ifs at hreply
  · cases hreply
    rfl
  · exact hparse _ _ _ hreply

theorem processRequestLine_calls
    {session next : Session} {len : Int}
    (hreply : session.processRequestLine env code = some (.returned len next)) :
    next.calls = (session.fetch env code).2.calls := by
  refine process_calls ?_ hreply
  intro session next len hparse
  split at hparse
  all_goals
    cases hparse
  rfl

theorem processHeader_calls
    {session next : Session} {fuel : Nat} {len : Int}
    (hreply : session.processHeader env code fuel = some (.returned len next)) :
    next.calls = (session.fetch env code).2.calls := by
  refine process_calls ?_ hreply
  intro session next len hparse
  split at hparse
  all_goals
    cases hparse
  rfl

theorem processBody_calls
    {session next : Session} {len : Int}
    (hreply : session.processBody env code = some (.returned len next)) :
    next.calls = (session.fetch env code).2.calls := by
  refine process_calls ?_ hreply
  intro session next len hparse
  cases hparse
  rfl

theorem sendPending_calls
    {session next : Session} {buffers : List HttpBuffer} {len : Nat} {ret : Int}
    (hsend : session.sendPending env buffers len = (ret, next)) :
    session.calls ≤ next.calls ∧ (buffers ≠ [] → session.calls < next.calls) := by
  induction buffers generalizing session len with
  | nil =>
      cases hsend
      exact ⟨le_refl _, fun hne => absurd rfl hne⟩
  | cons buffer rest ih =>
      have hcalls : session.calls < (session.sendBuffer env buffer.data).2.calls := by
        unfold sendBuffer
        simp only
        cases env.accepts session.sendCalls buffer.data.length with
        | none =>
            simp only [calls]
            omega
        | some n =>
            simp only [calls]
            omega
      rw [sendPending] at hsend
      split at hsend
      · rename_i after hanswer
        rw [hanswer] at hcalls
        cases hsend
        exact ⟨hcalls.le, fun _ => hcalls⟩
      · rename_i sz after hanswer
        rw [hanswer] at hcalls
        split_ifs at hsend
        · cases hsend
          exact ⟨hcalls.le, fun _ => hcalls⟩
        · have hrest : after.calls ≤ next.calls := (ih hsend).1
          have hless : session.calls < after.calls := hcalls
          exact ⟨by omega, fun _ => by omega⟩

theorem generateResponse_calls
    {session next : Session} {len : Int}
    (hreply : session.generateResponse env = .returned len next) :
    next.calls = session.calls := by
  unfold generateResponse at hreply
  generalize session.client.writeBuffer.allocWriteBuffer _ = found at hreply
  cases found with
  | none => cases hreply
  | some allocated =>
      cases hreply
      rfl

theorem handle_calls
    {session next : Session} {fuel : Nat} {len : Int}
    (hreply : session.handle env code fuel = some (.returned len next)) :
    session.calls ≤ next.calls := by
  have hfetch := fetch_calls env code session
  unfold handle at hreply
  cases hhandler : session.client.evtHandler with
  | processRequestLine =>
      rw [hhandler] at hreply
      rw [processRequestLine_calls hreply]
      exact hfetch
  | processHeader =>
      rw [hhandler] at hreply
      rw [processHeader_calls hreply]
      exact hfetch
  | processBody =>
      rw [hhandler] at hreply
      rw [processBody_calls hreply]
      exact hfetch
  | generateResponse =>
      rw [hhandler] at hreply
      exact (generateResponse_calls (Option.some.inj hreply)).ge
  | sendResponse =>
      rw [hhandler] at hreply
      cases Option.some.inj hreply
      exact (sendPending_calls rfl).1

theorem processEvent_calls
    {session final : Session} {ending : Ending} {fuel : Nat}
    (hevent : session.processEvent env code fuel = some (ending, final))
    (hdone : ending = .done) :
    session.calls ≤ final.calls := by
  induction fuel generalizing session with
  | zero => simp [processEvent] at hevent
  | succ fuel ih =>
      rw [processEvent] at hevent
      split at hevent
      · cases hevent
      · cases hevent
        cases hdone
      · rename_i len next hreply
        have hmore := handle_calls hreply
        split_ifs at hevent
        · cases hevent
          cases hdone
        · cases hevent
          exact hmore
        · exact hmore.trans (ih hevent)

theorem processEvent_touches
    {session final : Session} {fuel : Nat}
    (hfirst : ∀ fuel len next, session.handle env code fuel = some (.returned len next) →
      session.calls < next.calls)
    (hevent : session.processEvent env code fuel = some (.done, final)) :
    session.calls < final.calls := by
  cases fuel with
  | zero => simp [processEvent] at hevent
  | succ fuel =>
      rw [processEvent] at hevent
      split at hevent
      · cases hevent
      · cases hevent
      · rename_i len next hreply
        have hmore := hfirst fuel len next hreply
        split_ifs at hevent
        · cases hevent
        · cases hevent
          exact hmore
        · exact hmore.trans_le (processEvent_calls hevent rfl)

theorem handle_reads
    {session next : Session} {fuel : Nat} {len : Int}
    (hempty : session.client.readBuffer.content = [])
    (hsize : 0 < session.client.readBuffer.size)
    (hgenerate : session.client.evtHandler ≠ .generateResponse)
    (hsend : session.client.evtHandler ≠ .sendResponse)
    (hreply : session.handle env .read fuel = some (.returned len next)) :
    session.calls < next.calls := by
  have hfetch : session.calls < (session.fetch env .read).2.calls :=
    (session.readHttpData_calls env).2 hempty hsize
  unfold handle at hreply
  cases hhandler : session.client.evtHandler with
  | processRequestLine =>
      rw [hhandler] at hreply
      rw [processRequestLine_calls hreply]
      exact hfetch
  | processHeader =>
      rw [hhandler] at hreply
      rw [processHeader_calls hreply]
      exact hfetch
  | processBody =>
      rw [hhandler] at hreply
      rw [processBody_calls hreply]
      exact hfetch
  | generateResponse => exact absurd hhandler hgenerate
  | sendResponse => exact absurd hhandler hsend

theorem handle_sends
    {session next : Session} {fuel : Nat} {len : Int}
    (hhandler : session.client.evtHandler = .sendResponse)
    (hpending : session.client.pendingWrite ≠ [])
    (hreply : session.handle env code fuel = some (.returned len next)) :
    session.calls < next.calls := by
  unfold handle at hreply
  rw [hhandler] at hreply
  cases Option.some.inj hreply
  exact (sendPending_calls rfl).2 hpending

end Session

namespace HttpServer

open SocketServer

/-! ## The server -/

/-- A client and the slot that its `conn_` points to, if it has been given one. -/
structure Connection where
  client : HttpClient
  conn : Option ℕ

/-- Where the loop stands: before the check of `connNum_`, or inside the
`RunPoll` of the socket server. -/
inductive Phase where
  | checking
  | polling
  deriving DecidableEq, Repr

structure State where
  phase : Phase
  watching : Bool
  listenFd : ℕ
  server : ServerImpl
  queues : Queues
  conn : ℕ → Option Connection

/-- What the system answers while one event is handled: the pieces that reads
return and how they end, and what `SendBuffer` accepts. -/
structure Traffic where
  pieces : List Bytes
  readEnd : ReadEnd
  accepts : Nat → Nat → Option Nat

/-- The check of `connNum_`; a round of the socket server that polls; an event
returned and handled.  `fresh` is the client that is made if the slot has none,
and `stray` what an unassigned code happens to be. -/
inductive Action where
  | throttle (removed added : Bool)
  | poll (batch : Batch)
  | handle (fresh : HttpClient) (stray : Code) (traffic : Traffic) (fuel : ℕ)

/-- `SetListenSock` and the start of `RunServer`. -/
def start (unset : ℕ → ℕ × ℕ) (total listenFd : ℕ) (added : Bool) : State :=
  match (ServerImpl.construct total unset).watchRawSocket listenFd true added with
  | (watching, server) =>
      { phase := .checking
        watching := watching
        listenFd := listenFd
        server := server.setWatchAcceptedSock true
        queues := ⟨[], []⟩
        conn := fun _ => none }

namespace State

def throttle (total : ℕ) (state : State) (removed added : Bool) : State :=
  if state.watching = true ∧ (total - total / 8 : ℤ) < state.server.connNum then
    match state.server.unwatchSocket state.listenFd removed with
    | (unwatched, server) => { state with watching := !unwatched, server := server }
  else if state.watching = false ∧ state.server.connNum ≤ (total / 2 : ℤ) then
    match state.server.watchRawSocket state.listenFd true added with
    | (watched, server) => { state with watching := watched, server := server }
  else state

/-- Only armed descriptors are delivered. -/
def Deliverable (poller : SocketPoll) (batch : Batch) : Prop :=
  ∀ delivered ∈ batch, poller delivered.1.data = some true

instance decidableDeliverable (poller : SocketPoll) (batch : Batch) :
    Decidable (Deliverable poller batch) :=
  inferInstanceAs (Decidable (∀ delivered ∈ batch, poller delivered.1.data = some true))

/-- A round of `RunPoll` that finds its queues empty. -/
def poll (state : State) (batch : Batch) : Option State :=
  if state.queues = ⟨[], []⟩ ∧ Deliverable state.server.poller batch then
    match ServerImpl.handleEvents 0 state.queues (state.server.waitAll batch) batch with
    | none => none
    | some (queues, server) => some { state with queues := queues, server := server }
  else none

/-- The event that `RunPoll` returns, and what it leaves queued. -/
def nextEvent (queues : Queues) : Option (SocketEvent × Queues) :=
  match queues.accept with
  | event :: rest => some (event, { queues with accept := rest })
  | [] =>
      match queues.readWrite with
      | event :: rest => some (event, { queues with readWrite := rest })
      | [] => none

def setConn (state : State) (id : ℕ) (connection : Connection) : State :=
  { state with conn := Function.update state.conn id (some connection) }

def setServer (state : State) (server : ServerImpl) : State :=
  { state with server := server }

/-- `SendBuffer` fails on a slot that is not in use. -/
def environment (state : State) (cgi : HttpHandler) (policy : StringPolicy)
    (traffic : Traffic) (connection : Connection) : Environment where
  cgi := cgi
  policy := policy
  readEnd := traffic.readEnd
  accepts :=
    match connection.conn with
    | none => traffic.accepts
    | some slot =>
        if state.server.status slot = .invalid then fun _ _ => none else traffic.accepts

/-- The assertions of `ReadBuffer` and `SendBuffer`, and a `conn_` that can be
followed. -/
def Usable (state : State) (connection : Connection) (session : Session) : Prop :=
  match connection.conn with
  | none => session.readCalls = 0 ∧ session.sendCalls = 0
  | some slot =>
      (session.readCalls ≠ 0 → state.server.status slot ≠ .invalid) ∧
        (session.sendCalls ≠ 0 → state.server.status slot ≠ .listening)

instance decidableUsable (state : State) (connection : Connection) (session : Session) :
    Decidable (state.Usable connection session) :=
  match h : connection.conn with
  | none =>
      decidable_of_iff (session.readCalls = 0 ∧ session.sendCalls = 0) (by simp [Usable, h])
  | some slot =>
      decidable_of_iff
        ((session.readCalls ≠ 0 → state.server.status slot ≠ .invalid) ∧
          (session.sendCalls ≠ 0 → state.server.status slot ≠ .listening))
        (by simp [Usable, h])

/-- `ReadBuffer` and `SendBuffer` end with `ModifySocket`, unless they fail. -/
def rearm (state : State) (connection : Connection) (session : Session) : State :=
  match connection.conn with
  | none => state
  | some slot =>
      if session.readCalls = 0 ∧ session.sendCalls = 0 then state
      else
        state.setServer (state.server.setPoller
          (state.server.poller.modifySocket (state.server.sockets slot).fd))

/-- `CloseConnection` of the client. -/
def closeConnection (state : State) (connection : Connection) : Option State :=
  match connection.conn with
  | none => none
  | some slot =>
      some (state.setServer (state.server.closeSocket (state.server.sockets slot).fd).2)

/-- `ProcessEvent` of the client with the number `id`. -/
def processEvent (cgi : HttpHandler) (policy : StringPolicy) (state : State) (id : ℕ)
    (connection : Connection) (code : SocketCode) (traffic : Traffic) (fuel : ℕ) :
    Option State :=
  match Session.processEvent (state.environment cgi policy traffic connection) code fuel
      ⟨connection.client, traffic.pieces, 0, 0, [], []⟩ with
  | none => none
  | some (ending, session) =>
      if state.Usable connection session then
        match ending with
        | .crashed => none
        | .done =>
            some ((state.rearm connection session).setConn id
              { connection with client := session.client })
        | .closed =>
            match state.closeConnection connection with
            | none => none
            | some state => some (state.setConn id ⟨session.client, none⟩)
      else none

/-- The client of a slot; a new one if there is none yet. -/
def connection (state : State) (id : ℕ) (fresh : HttpClient) : Connection :=
  (state.conn id).getD ⟨fresh, none⟩

def pollHandler (cgi : HttpHandler) (policy : StringPolicy) (state : State)
    (event : SocketEvent) (fresh : HttpClient) (stray : Code) (traffic : Traffic)
    (fuel : ℕ) : Option State :=
  let id := (state.server.sockets event.conn).fd
  let connection := state.connection id fresh
  match event.code.getD stray with
  | .read => state.processEvent cgi policy id connection .read traffic fuel
  | .write => state.processEvent cgi policy id connection .write traffic fuel
  | .accepted =>
      some (state.setConn id ⟨connection.client.resetClient policy, some event.conn⟩)
  | .failConn =>
      some ((state.setServer
        (state.server.closeSocket (state.server.sockets event.conn).fd).2).setConn id connection)
  | .connected | .error | .succ => some (state.setConn id connection)

def handle (cgi : HttpHandler) (policy : StringPolicy) (state : State)
    (fresh : HttpClient) (stray : Code) (traffic : Traffic) (fuel : ℕ) : Option State :=
  match nextEvent state.queues with
  | none => none
  | some (event, queues) =>
      { state with phase := .checking, queues := queues }.pollHandler cgi policy event fresh
        stray traffic fuel

def step (cgi : HttpHandler) (policy : StringPolicy) (total : ℕ) (state : State) :
    Action → Option State
  | .throttle removed added =>
      if state.phase = .checking then
        some { state.throttle total removed added with phase := .polling }
      else none
  | .poll batch => if state.phase = .polling then state.poll batch else none
  | .handle fresh stray traffic fuel =>
      if state.phase = .polling then state.handle cgi policy fresh stray traffic fuel else none

end State

/-- `total` is `max_conn_id`, and `added` the answer of the first `AddSocket`. -/
def machine (cgi : HttpHandler) (policy : StringPolicy) (unset : ℕ → ℕ × ℕ)
    (total listenFd : ℕ) (added : Bool) : Machine State Action where
  start := start unset total listenFd added
  step := State.step cgi policy total

/-! ## Lost wake-ups -/

/-- A registered slot that listens, or an open connection. -/
def State.Watched (state : State) (slot : ℕ) : Prop :=
  (state.server.status slot = .listening ∧ state.server.poller slot ≠ none) ∨
    state.server.status slot = .connected

/-- The slot is armed, or an event of it is still queued. -/
def State.Awake (state : State) (slot : ℕ) : Prop :=
  state.server.poller slot = some true ∨
    ∃ event ∈ state.queues.accept ++ state.queues.readWrite, event.conn = slot

/-- The client reads, since it has nothing buffered, or it goes on sending. -/
def Rearms (code : Code) (client : HttpClient) : Prop :=
  (code = .read ∧ client.readBuffer.content = [] ∧ 0 < client.readBuffer.size ∧
    client.evtHandler ≠ .generateResponse ∧ client.evtHandler ≠ .sendResponse) ∨
  ((code = .read ∨ code = .write) ∧ client.evtHandler = .sendResponse ∧
    client.pendingWrite ≠ [])

/-- No event of the slot is delivered while it listens, and its client answers
each of the others by a read, by a write or by closing the connection. -/
def KeepsAwake (slot : ℕ) (state : State) : Action → Prop
  | .throttle _ _ => True
  | .poll batch =>
      state.server.status slot = .listening → ∀ delivered ∈ batch, delivered.1.data ≠ slot
  | .handle _ stray _ _ =>
      ∀ event rest, state.queues.accept = [] → state.queues.readWrite = event :: rest →
        event.conn = slot →
          event.code.getD stray = .failConn ∨
            ∃ connection, state.conn slot = some connection ∧ connection.conn = some slot ∧
              Rearms (event.code.getD stray) connection.client

/-! ## Registered slots -/

/-- Slots in use are registered, each under its own number. -/
structure Registered (server : ServerImpl) : Prop where
  watch : server.watchAccepted = true
  registered : ∀ slot, server.status slot ≠ .invalid → server.poller slot ≠ none
  indexed : ∀ slot, server.poller slot ≠ none → (server.sockets slot).fd = slot

/-- A slot in use is armed, has an event queued, or will find one in the rest of
the batch. -/
def Covered (slot : ℕ) (server : ServerImpl) (queues : Queues) (rest : Batch) : Prop :=
  server.status slot = .listening ∨ server.status slot = .connected →
    server.poller slot = some true ∨ (∃ event ∈ queues.readWrite, event.conn = slot) ∨
      ∃ delivered ∈ rest, delivered.1.data = slot

theorem modifySocket_apply (poller : SocketPoll) (file slot : ℕ) :
    poller.modifySocket file slot =
      if slot = file ∧ poller slot ≠ none then some true else poller slot := by
  unfold SocketPoll.modifySocket
  by_cases hslot : slot = file
  · subst hslot
    by_cases hnone : poller slot = none
    · simp [hnone]
    · simp [hnone]
  · split_ifs <;> simp_all

theorem disarm_apply (poller : SocketPoll) (file slot : ℕ) :
    poller.disarm file slot =
      if slot = file ∧ poller slot ≠ none then some false else poller slot := by
  unfold SocketPoll.disarm
  by_cases hslot : slot = file
  · subst hslot
    by_cases hnone : poller slot = none
    · simp [hnone]
    · simp [hnone]
  · split_ifs <;> simp_all

section Slots

variable {server next : ServerImpl} {slot : ℕ} {queues : Queues} {rest : Batch}

theorem Registered.fd_eq
    (hserver : Registered server)
    (hvalid : server.status slot ≠ .invalid) :
    (server.sockets slot).fd = slot :=
  hserver.indexed slot (hserver.registered slot hvalid)

theorem Registered.opened
    {fd : ℕ} {socket : SocketConnection}
    (hserver : Registered server)
    (hsockets : next.sockets = Function.update server.sockets fd socket)
    (hpoller : next.poller = Function.update server.poller fd (some true))
    (hfd : socket.fd = fd)
    (hwatch : next.watchAccepted = server.watchAccepted) :
    Registered next := by
  refine ⟨hwatch.trans hserver.watch, fun other => ?_, fun other => ?_⟩
  · unfold ServerImpl.status
    rw [hsockets, hpoller]
    by_cases hother : other = fd
    · simp [hother]
    · rw [Function.update_of_ne hother, Function.update_of_ne hother]
      exact hserver.registered other
  · rw [hsockets, hpoller]
    by_cases hother : other = fd
    · simp [hother, hfd]
    · rw [Function.update_of_ne hother, Function.update_of_ne hother]
      exact hserver.indexed other

theorem Covered.opened
    {fd : ℕ} {socket : SocketConnection}
    (hcovered : Covered slot server queues rest)
    (hsockets : next.sockets = Function.update server.sockets fd socket)
    (hpoller : next.poller = Function.update server.poller fd (some true)) :
    Covered slot next queues rest := by
  unfold Covered ServerImpl.status
  rw [hsockets, hpoller]
  by_cases hslot : slot = fd
  · intro _
    rw [hslot]
    exact .inl (Function.update_self _ _ _)
  · rw [Function.update_of_ne hslot, Function.update_of_ne hslot]
    exact hcovered

theorem Registered.released
    {fd : ℕ} {socket : SocketConnection}
    (hserver : Registered server)
    (hsockets : next.sockets = Function.update server.sockets fd socket)
    (hpoller : next.poller = Function.update server.poller fd none)
    (hstatus : socket.status = .invalid)
    (hwatch : next.watchAccepted = server.watchAccepted) :
    Registered next := by
  refine ⟨hwatch.trans hserver.watch, fun other => ?_, fun other => ?_⟩
  · unfold ServerImpl.status
    rw [hsockets, hpoller]
    by_cases hother : other = fd
    · simp [hother, hstatus]
    · rw [Function.update_of_ne hother, Function.update_of_ne hother]
      exact hserver.registered other
  · rw [hsockets, hpoller]
    by_cases hother : other = fd
    · simp [hother]
    · rw [Function.update_of_ne hother, Function.update_of_ne hother]
      exact hserver.indexed other

theorem Covered.released
    {fd : ℕ} {socket : SocketConnection}
    (hcovered : Covered slot server queues rest)
    (hsockets : next.sockets = Function.update server.sockets fd socket)
    (hpoller : next.poller = Function.update server.poller fd none)
    (hstatus : socket.status = .invalid) :
    Covered slot next queues rest := by
  unfold Covered ServerImpl.status
  rw [hsockets, hpoller]
  by_cases hslot : slot = fd
  · rw [hslot]
    simp [hstatus]
  · rw [Function.update_of_ne hslot, Function.update_of_ne hslot]
    exact hcovered

theorem Registered.modify
    (hserver : Registered server) (fd : ℕ) :
    Registered (server.setPoller (server.poller.modifySocket fd)) := by
  refine ⟨hserver.watch, fun other hvalid => ?_, fun other hknown => ?_⟩
  · have hknown : server.poller other ≠ none := hserver.registered other hvalid
    simp only [ServerImpl.setPoller, modifySocket_apply]
    split_ifs
    · exact nofun
    · exact hknown
  · refine hserver.indexed other fun hnone => hknown ?_
    simp [ServerImpl.setPoller, modifySocket_apply, hnone]

theorem Covered.modify
    (hcovered : Covered slot server queues rest) (fd : ℕ) :
    Covered slot (server.setPoller (server.poller.modifySocket fd)) queues rest := by
  intro hstatus
  rcases hcovered hstatus with harmed | hlater
  · left
    simp only [ServerImpl.setPoller, modifySocket_apply]
    split_ifs
    · rfl
    · exact harmed
  · exact .inr hlater

end Slots

/-! ## What each operation keeps -/

structure Guarded (slot : ℕ) (server : ServerImpl) (queues : Queues) (rest : Batch) : Prop where
  known : Registered server
  covered : Covered slot server queues rest

namespace Guarded

variable {server next : ServerImpl} {slot : ℕ} {queues : Queues} {rest : Batch}

theorem refused
    {fd : ℕ} {socket : SocketConnection}
    (hguarded : Guarded slot server queues rest)
    (hsockets : next.sockets = Function.update server.sockets fd socket)
    (hpoller : next.poller = server.poller)
    (hfd : socket.fd = fd)
    (hstatus : socket.status = .invalid)
    (hwatch : next.watchAccepted = server.watchAccepted) :
    Guarded slot next queues rest := by
  refine ⟨⟨hwatch.trans hguarded.known.watch, fun other => ?_, fun other => ?_⟩, ?_⟩
  · unfold ServerImpl.status
    rw [hsockets, hpoller]
    by_cases hother : other = fd
    · simp [hother, hstatus]
    · rw [Function.update_of_ne hother]
      exact hguarded.known.registered other
  · rw [hsockets, hpoller]
    by_cases hother : other = fd
    · simp [hother, hfd]
    · rw [Function.update_of_ne hother]
      exact hguarded.known.indexed other
  · unfold Covered ServerImpl.status
    rw [hsockets, hpoller]
    by_cases hslot : slot = fd
    · simp [hslot, hstatus]
    · rw [Function.update_of_ne hslot]
      exact hguarded.covered

theorem watchRawSocket
    (hguarded : Guarded slot server queues rest) (fd : ℕ) (listen added : Bool) :
    Guarded slot (server.watchRawSocket fd listen added).2 queues rest := by
  unfold ServerImpl.watchRawSocket
  by_cases hvalid : server.status fd ≠ .invalid
  · rw [if_pos hvalid]
    exact hguarded
  · rw [if_neg hvalid]
    cases added with
    | true => exact ⟨hguarded.known.opened rfl rfl rfl rfl, hguarded.covered.opened rfl rfl⟩
    | false =>
        have hsockets : ((server.setSocket fd
            ⟨fd, if listen then .listening else .connected,
              (server.sockets fd).opaqueValue⟩).resetSocketSlot fd).sockets =
            Function.update server.sockets fd
              ⟨fd, .invalid, (server.sockets fd).opaqueValue⟩ := by
          simp [ServerImpl.resetSocketSlot, ServerImpl.setStatus, ServerImpl.setSocket]
        exact hguarded.refused hsockets rfl rfl rfl rfl

theorem unwatchSocket
    (hguarded : Guarded slot server queues rest) (fd : ℕ) (removed : Bool) :
    Guarded slot (server.unwatchSocket fd removed).2 queues rest := by
  unfold ServerImpl.unwatchSocket
  split_ifs
  · exact hguarded
  · exact ⟨hguarded.known.released rfl rfl rfl rfl, hguarded.covered.released rfl rfl rfl⟩
  · exact hguarded

theorem closeSocket
    (hguarded : Guarded slot server queues rest) (fd : ℕ) :
    Guarded slot (server.closeSocket fd).2 queues rest := by
  unfold ServerImpl.closeSocket
  split_ifs with hbad
  · exact hguarded
  · have hvalid : server.status fd ≠ .invalid := fun h => hbad (.inl h)
    have hfd : (server.sockets fd).fd = fd := not_not.mp fun h => hbad (.inr h)
    have hpoller : (server.forceSocketClose fd).poller =
        Function.update server.poller fd none := by
      unfold ServerImpl.forceSocketClose
      rw [if_neg hvalid]
      simp only [hfd, SocketPoll.removeSocket]
    have hsockets : (server.forceSocketClose fd).sockets =
        Function.update server.sockets fd { server.sockets fd with status := .invalid } := by
      unfold ServerImpl.forceSocketClose
      rw [if_neg hvalid]
      rfl
    have hwatch : (server.forceSocketClose fd).watchAccepted = server.watchAccepted := by
      unfold ServerImpl.forceSocketClose
      rw [if_neg hvalid]
      rfl
    exact ⟨hguarded.known.released hsockets hpoller rfl hwatch,
      hguarded.covered.released hsockets hpoller rfl⟩

theorem modify
    (hguarded : Guarded slot server queues rest) (fd : ℕ) :
    Guarded slot (server.setPoller (server.poller.modifySocket fd)) queues rest :=
  ⟨hguarded.known.modify fd, hguarded.covered.modify fd⟩

theorem mono
    {after : Queues} {later : Batch}
    (hguarded : Guarded slot server queues rest)
    (hqueues : ∀ event ∈ queues.readWrite, event.conn = slot →
      ∃ found ∈ after.readWrite, found.conn = slot)
    (hrest : (∃ delivered ∈ rest, delivered.1.data = slot) →
      server.status slot = .listening ∨ server.status slot = .connected →
        (∃ found ∈ after.readWrite, found.conn = slot) ∨
          ∃ delivered ∈ later, delivered.1.data = slot) :
    Guarded slot server after later := by
  refine ⟨hguarded.known, fun hstatus => ?_⟩
  rcases hguarded.covered hstatus with harmed | ⟨event, hevent, hconn⟩ | hfound
  · exact .inl harmed
  · exact .inr (.inl (hqueues event hevent hconn))
  · exact .inr (hrest hfound hstatus)

theorem dequeue
    {event : PollEvent} {answer : Answer} {after : Queues}
    (hguarded : Guarded slot server queues ((event, answer) :: rest))
    (hqueues : ∀ found ∈ queues.readWrite, found ∈ after.readWrite)
    (hevent : event.data = slot →
      server.status slot = .listening ∨ server.status slot = .connected →
        ∃ found ∈ after.readWrite, found.conn = slot) :
    Guarded slot server after rest := by
  refine hguarded.mono (fun found hfound hconn => ⟨found, hqueues found hfound, hconn⟩) ?_
  rintro ⟨delivered, hdelivered, hdata⟩ hstatus
  rcases List.mem_cons.mp hdelivered with hhead | htail
  · subst hhead
    exact .inl (hevent hdata hstatus)
  · exact .inr ⟨delivered, htail, hdata⟩

end Guarded

section Batches

variable {server next : ServerImpl} {slot : ℕ} {queues after : Queues} {rest : Batch}

/-- No event of the slot is delivered while it listens. -/
def Unheard (slot : ℕ) (server : ServerImpl) (batch : Batch) : Prop :=
  server.status slot = .listening → ∀ delivered ∈ batch, delivered.1.data ≠ slot

theorem setupSocketConnection_polled
    {fd opaqueValue : ℕ} {poll added : Bool}
    (hpoll : poll = true)
    (hsetup : server.setupSocketConnection fd opaqueValue poll added = some next) :
    next = (server.setSocket fd ⟨fd, .invalid, opaqueValue⟩).setPoller
      (server.poller.addSocket fd) := by
  unfold ServerImpl.setupSocketConnection at hsetup
  split_ifs at hsetup
  cases hsetup
  rfl

theorem handleAcceptReady_cases
    {listener conn : ℕ} {client : Option ℕ} {added : Bool} {code : Code}
    (hwatch : server.watchAccepted = true)
    (haccept : server.handleAcceptReady listener client added = some (code, conn, next)) :
    (code ≠ .succ ∧ next = server) ∨
      ∃ fd socket, code = .succ ∧ socket.fd = fd ∧ socket.status = .connected ∧
        next.watchAccepted = server.watchAccepted ∧
        next.sockets = Function.update server.sockets fd socket ∧
        next.poller = Function.update server.poller fd (some true) := by
  cases client with
  | none =>
      cases haccept
      exact .inl ⟨nofun, rfl⟩
  | some fd =>
      simp only [ServerImpl.handleAcceptReady] at haccept
      split at haccept
      · cases haccept
      · rename_i ready hsetup
        have hready := setupSocketConnection_polled hwatch hsetup
        simp only [Option.some.injEq, Prod.mk.injEq] at haccept
        obtain ⟨hcode, -, hnext⟩ := haccept
        refine .inr ⟨fd, ⟨fd, .connected, (server.sockets listener).opaqueValue⟩, hcode.symm, rfl,
          rfl, ?_, ?_, ?_⟩
        · rw [← hnext, hready]
          rfl
        · rw [← hnext, hready]
          simp [hwatch, ServerImpl.setStatus, ServerImpl.setSocket, ServerImpl.setPoller]
        · rw [← hnext, hready]
          rfl

theorem Guarded.handleEvent
    {self : ℕ} {event : PollEvent} {answer : Answer}
    (hguarded : Guarded slot server queues ((event, answer) :: rest))
    (hunheard : Unheard slot server ((event, answer) :: rest))
    (hevent : server.handleEvent self queues event answer = some (after, next)) :
    Guarded slot next after rest ∧ Unheard slot next rest := by
  have hlater : Unheard slot server rest := fun hlistens delivered hdelivered =>
    hunheard hlistens delivered (List.mem_cons_of_mem _ hdelivered)
  have hqueue : ∀ code, ∀ found ∈ queues.readWrite,
      found ∈ (queues.pushReadWrite ⟨code, self, event.data⟩).readWrite := fun code found hfound =>
    List.mem_append_left _ hfound
  have hqueued : ∀ code, event.data = slot →
      ∃ found ∈ (queues.pushReadWrite ⟨code, self, event.data⟩).readWrite,
        found.conn = slot := fun code hdata =>
    ⟨⟨code, self, event.data⟩, List.mem_append_right _ (List.mem_singleton_self _), hdata⟩
  unfold ServerImpl.handleEvent at hevent
  cases hstatus : server.status event.data with
  | invalid =>
      simp only [hstatus] at hevent
      cases hevent
      refine ⟨hguarded.dequeue (fun _ hfound => hfound) ?_, hlater⟩
      rintro rfl hused
      rw [hstatus] at hused
      rcases hused with hused | hused <;> cases hused
  | connected =>
      simp only [hstatus] at hevent
      cases hevent
      exact ⟨hguarded.dequeue (hqueue _) fun hdata _ => hqueued _ hdata, hlater⟩
  | paccept =>
      simp only [hstatus] at hevent
      cases hevent
      exact ⟨hguarded.dequeue (hqueue _) fun hdata _ => hqueued _ hdata, hlater⟩
  | connecting =>
      have hknown : server.poller event.data ≠ none :=
        hguarded.known.registered _ (by rw [hstatus]; exact nofun)
      have hfd : (server.sockets event.data).fd = event.data :=
        hguarded.known.indexed _ hknown
      simp only [hstatus, ServerImpl.handleConnectDone] at hevent
      split_ifs at hevent
      · cases hevent
        have hqueuedGuarded : Guarded slot server
            (queues.pushReadWrite ⟨some .connected, self, event.data⟩) rest :=
          hguarded.dequeue (hqueue _) fun hdata _ => hqueued _ hdata
        have hsockets : ((server.setStatus event.data .connected).setPoller
            (server.poller.modifySocket (server.sockets event.data).fd)).sockets =
            Function.update server.sockets event.data
              { server.sockets event.data with status := .connected } := rfl
        have hpoller : ((server.setStatus event.data .connected).setPoller
            (server.poller.modifySocket (server.sockets event.data).fd)).poller =
            Function.update server.poller event.data (some true) := by
          simp only [ServerImpl.setPoller, hfd, SocketPoll.modifySocket, if_neg hknown]
        refine ⟨⟨hqueuedGuarded.known.opened hsockets hpoller hfd rfl,
          hqueuedGuarded.covered.opened hsockets hpoller⟩, ?_⟩
        intro hlistens
        refine hlater ?_
        unfold ServerImpl.status at hlistens ⊢
        rw [hsockets] at hlistens
        by_cases hslot : slot = event.data
        · rw [hslot, Function.update_self] at hlistens
          cases hlistens
        · rwa [Function.update_of_ne hslot] at hlistens
      · cases hevent
        exact ⟨hguarded.dequeue (hqueue _) fun hdata _ => hqueued _ hdata, hlater⟩
  | listening =>
      have hother : event.data ≠ slot := by
        rintro rfl
        exact hunheard hstatus _ (List.mem_cons_self ..) rfl
      have hskipped : Guarded slot server queues rest :=
        hguarded.dequeue (fun _ hfound => hfound) fun hdata => absurd hdata hother
      simp only [hstatus] at hevent
      split at hevent
      · cases hevent
      · rename_i conn accepted haccept
        cases hevent
        rcases handleAcceptReady_cases hguarded.known.watch haccept with
          ⟨hfailed, -⟩ | ⟨fd, socket, -, hfd, hsocket, hwatch, hsockets, hpoller⟩
        · exact absurd rfl hfailed
        · refine ⟨⟨hskipped.known.opened hsockets hpoller hfd hwatch,
            hskipped.covered.opened hsockets hpoller⟩, ?_⟩
          intro hlistens
          refine hlater ?_
          unfold ServerImpl.status at hlistens ⊢
          rw [hsockets] at hlistens
          by_cases hslot : slot = fd
          · rw [hslot, Function.update_self, hsocket] at hlistens
            cases hlistens
          · rwa [Function.update_of_ne hslot] at hlistens
      · rename_i code conn accepted hcode haccept
        cases hevent
        rcases handleAcceptReady_cases hguarded.known.watch haccept with
          ⟨-, hsame⟩ | ⟨fd, socket, hsucc, -⟩
        · rw [hsame]
          exact ⟨hskipped, hlater⟩
        · exact absurd hsucc hcode

theorem Guarded.handleEvents
    {self : ℕ}
    (hguarded : Guarded slot server queues rest)
    (hunheard : Unheard slot server rest)
    (hevents : ServerImpl.handleEvents self queues server rest = some (after, next)) :
    Guarded slot next after [] := by
  induction rest generalizing queues server with
  | nil =>
      cases hevents
      exact hguarded
  | cons delivered rest ih =>
      obtain ⟨event, answer⟩ := delivered
      simp only [ServerImpl.handleEvents] at hevents
      split at hevents
      · cases hevents
      · rename_i middle server' hevent
        obtain ⟨hnext, hlater⟩ := hguarded.handleEvent hunheard hevent
        exact ih hnext hlater hevents

end Batches

section Waiting

variable {server : ServerImpl} {slot : ℕ} {queues : Queues} {batch : Batch}

theorem disarmAll_apply
    {poller : SocketPoll} {file : PollEvent × Answer → ℕ} :
    (batch.foldl (fun poller delivered => poller.disarm (file delivered)) poller slot = none ↔
      poller slot = none) ∧
    ((∀ delivered ∈ batch, file delivered ≠ slot) →
      batch.foldl (fun poller delivered => poller.disarm (file delivered)) poller slot =
        poller slot) := by
  induction batch generalizing poller with
  | nil => exact ⟨Iff.rfl, fun _ => rfl⟩
  | cons delivered rest ih =>
      obtain ⟨hnone, hsame⟩ := @ih (poller.disarm (file delivered))
      rw [List.foldl_cons]
      refine ⟨hnone.trans ?_, fun hother => ?_⟩
      · rw [disarm_apply]
        split_ifs with hfile
        · simp [hfile.2]
        · rfl
      · rw [hsame fun later hlater => hother later (List.mem_cons_of_mem _ hlater), disarm_apply,
          if_neg fun hfile => hother delivered (List.mem_cons_self ..) hfile.1.symm]

theorem Guarded.waitAll
    (hguarded : Guarded slot server queues [])
    (hdeliverable : State.Deliverable server.poller batch) :
    Guarded slot (server.waitAll batch) queues batch := by
  have hfile : ∀ delivered ∈ batch, (server.sockets delivered.1.data).fd = delivered.1.data := by
    intro delivered hdelivered
    refine hguarded.known.indexed _ ?_
    rw [hdeliverable delivered hdelivered]
    exact nofun
  refine ⟨⟨hguarded.known.watch, fun other hother => ?_, fun other hother => ?_⟩,
    fun hstatus => ?_⟩
  · exact mt disarmAll_apply.1.mp (hguarded.known.registered other hother)
  · exact hguarded.known.indexed other (mt disarmAll_apply.1.mpr hother)
  · rcases hguarded.covered hstatus with harmed | hqueued | ⟨delivered, hnone, -⟩
    · by_cases hin : ∃ delivered ∈ batch, delivered.1.data = slot
      · exact .inr (.inr hin)
      · left
        refine (disarmAll_apply.2
          fun delivered hdelivered heq => hin ⟨delivered, hdelivered, ?_⟩).trans
          harmed
        rw [hfile delivered hdelivered] at heq
        exact heq
    · exact .inr (.inl hqueued)
    · cases hnone

end Waiting

/-! ## Whole runs -/

namespace State

variable {cgi : HttpHandler} {policy : StringPolicy} {state next : State} {slot : ℕ}

def Guarded (state : State) (slot : ℕ) : Prop :=
  HttpServer.Guarded slot state.server state.queues []

theorem Guarded.throttle
    (hguarded : state.Guarded slot) (total : ℕ) (removed added : Bool) :
    (state.throttle total removed added).Guarded slot := by
  unfold State.throttle
  split_ifs
  · exact HttpServer.Guarded.unwatchSocket hguarded _ _
  · exact HttpServer.Guarded.watchRawSocket hguarded _ _ _
  · exact hguarded

theorem Guarded.poll
    {batch : Batch}
    (hguarded : state.Guarded slot)
    (hcondition : KeepsAwake slot state (.poll batch))
    (hpoll : state.poll batch = some next) :
    next.Guarded slot := by
  unfold State.poll at hpoll
  split_ifs at hpoll with hready
  split at hpoll
  · cases hpoll
  · rename_i queues server hevents
    cases hpoll
    exact (hguarded.waitAll hready.2).handleEvents hcondition hevents

/-- An event is handled by arming a descriptor, by closing one or by neither. -/
inductive Touches (server : ServerImpl) : ServerImpl → Prop
  | nothing : Touches server server
  | modify (fd : ℕ) : Touches server (server.setPoller (server.poller.modifySocket fd))
  | close (fd : ℕ) : Touches server (server.closeSocket fd).2

theorem Touches.guarded
    {server after : ServerImpl} {queues : Queues}
    (htouches : Touches server after)
    (hguarded : HttpServer.Guarded slot server queues []) :
    HttpServer.Guarded slot after queues [] := by
  cases htouches with
  | nothing => exact hguarded
  | modify fd => exact hguarded.modify fd
  | close fd => exact hguarded.closeSocket fd

theorem processEvent_touches
    {id : ℕ} {connection : Connection} {code : SocketCode} {traffic : Traffic} {fuel : ℕ}
    (hevent : state.processEvent cgi policy id connection code traffic fuel = some next) :
    next.queues = state.queues ∧ Touches state.server next.server := by
  unfold State.processEvent at hevent
  split at hevent
  · cases hevent
  · rename_i ending session hsession
    split_ifs at hevent
    cases ending with
    | crashed => cases hevent
    | done =>
        cases hevent
        unfold rearm
        split
        · exact ⟨rfl, .nothing⟩
        · split_ifs
          · exact ⟨rfl, .nothing⟩
          · exact ⟨rfl, .modify _⟩
    | closed =>
        unfold closeConnection at hevent
        cases hconn : connection.conn with
        | none =>
            rw [hconn] at hevent
            cases hevent
        | some found =>
            rw [hconn] at hevent
            cases hevent
            exact ⟨rfl, .close _⟩

theorem pollHandler_touches
    {event : SocketEvent} {fresh : HttpClient} {stray : Code} {traffic : Traffic} {fuel : ℕ}
    (hhandler : state.pollHandler cgi policy event fresh stray traffic fuel = some next) :
    next.queues = state.queues ∧ Touches state.server next.server := by
  unfold pollHandler at hhandler
  simp only at hhandler
  split at hhandler
  · exact processEvent_touches hhandler
  · exact processEvent_touches hhandler
  all_goals cases hhandler
  · exact ⟨rfl, .nothing⟩
  · exact ⟨rfl, .close _⟩
  all_goals exact ⟨rfl, .nothing⟩

theorem closeSocket_status
    {server : ServerImpl}
    (hserver : Registered server) :
    (server.closeSocket (server.sockets slot).fd).2.status slot = .invalid := by
  by_cases hvalid : server.status slot = .invalid
  · unfold ServerImpl.closeSocket
    split_ifs
    · exact hvalid
    · unfold ServerImpl.forceSocketClose
      split_ifs
      · exact hvalid
      · simp only [ServerImpl.resetSocketSlot, ServerImpl.setStatus, ServerImpl.setSocket,
          ServerImpl.status]
        by_cases hslot : slot = (server.sockets slot).fd
        · rw [← hslot, Function.update_self]
        · rw [Function.update_of_ne hslot]
          exact hvalid
  · have hfd : (server.sockets slot).fd = slot := hserver.fd_eq hvalid
    unfold ServerImpl.closeSocket ServerImpl.forceSocketClose
    rw [hfd, if_neg (by simp [hvalid, hfd]), if_neg hvalid]
    simp [ServerImpl.resetSocketSlot, ServerImpl.setStatus, ServerImpl.setSocket,
      ServerImpl.status]

theorem processEvent_rearms
    {id : ℕ} {connection : Connection} {code : SocketCode} {traffic : Traffic} {fuel : ℕ}
    (hserver : Registered state.server)
    (hconn : connection.conn = some slot)
    (hfirst : ∀ env fuel len after, Session.handle env code fuel
        ⟨connection.client, traffic.pieces, 0, 0, [], []⟩ = some (.returned len after) →
      0 < after.calls)
    (hevent : state.processEvent cgi policy id connection code traffic fuel = some next) :
    next.server.status slot = .invalid ∨ next.server.poller slot = some true := by
  unfold State.processEvent at hevent
  split at hevent
  · cases hevent
  · rename_i ending session hsession
    split_ifs at hevent
    cases ending with
    | crashed => cases hevent
    | done =>
        cases hevent
        have hcalls : 0 < session.calls := Session.processEvent_touches (hfirst _) hsession
        have htouched : ¬ (session.readCalls = 0 ∧ session.sendCalls = 0) := by
          unfold Session.calls at hcalls
          omega
        simp only [rearm, hconn, if_neg htouched, setConn, setServer]
        by_cases hvalid : state.server.status slot = .invalid
        · exact .inl hvalid
        · right
          have hknown : state.server.poller slot ≠ none := hserver.registered slot hvalid
          simp only [ServerImpl.setPoller]
          rw [hserver.fd_eq hvalid, modifySocket_apply, if_pos ⟨rfl, hknown⟩]
    | closed =>
        simp only [closeConnection, hconn] at hevent
        cases hevent
        exact .inl (closeSocket_status hserver)

theorem pollHandler_rearms
    {event : SocketEvent} {fresh : HttpClient} {stray : Code} {traffic : Traffic} {fuel : ℕ}
    (hserver : Registered state.server)
    (hslot : event.conn = slot)
    (hvalid : state.server.status slot ≠ .invalid)
    (hcondition : event.code.getD stray = .failConn ∨
      ∃ connection, state.conn slot = some connection ∧ connection.conn = some slot ∧
        Rearms (event.code.getD stray) connection.client)
    (hhandler : state.pollHandler cgi policy event fresh stray traffic fuel = some next) :
    next.server.status slot = .invalid ∨ next.server.poller slot = some true := by
  unfold pollHandler at hhandler
  simp only [hslot, hserver.fd_eq hvalid] at hhandler
  rcases hcondition with hfail | ⟨connection, hfound, hconn, hrearms⟩
  · rw [hfail] at hhandler
    cases hhandler
    left
    have hclosed : (state.server.closeSocket (state.server.sockets slot).fd).2.status slot =
        .invalid :=
      closeSocket_status hserver
    rw [hserver.fd_eq hvalid] at hclosed
    exact hclosed
  · have hconnection : state.connection slot fresh = connection := by
      unfold State.connection
      rw [hfound]
      rfl
    rw [hconnection] at hhandler
    rcases hrearms with ⟨hcode, hempty, hsize, hgenerate, hsend⟩ | ⟨hcode, hsending, hpending⟩
    · rw [hcode] at hhandler
      exact processEvent_rearms hserver hconn
        (fun _ _ _ _ hreply => Session.handle_reads hempty hsize hgenerate hsend hreply) hhandler
    · rcases hcode with hcode | hcode
      · rw [hcode] at hhandler
        exact processEvent_rearms hserver hconn
          (fun _ _ _ _ hreply => Session.handle_sends hsending hpending hreply) hhandler
      · rw [hcode] at hhandler
        exact processEvent_rearms hserver hconn
          (fun _ _ _ _ hreply => Session.handle_sends hsending hpending hreply) hhandler

theorem Guarded.handle
    {fresh : HttpClient} {stray : Code} {traffic : Traffic} {fuel : ℕ}
    (hguarded : state.Guarded slot)
    (hcondition : KeepsAwake slot state (.handle fresh stray traffic fuel))
    (hhandle : state.handle cgi policy fresh stray traffic fuel = some next) :
    next.Guarded slot := by
  unfold State.handle at hhandle
  cases haccept : state.queues.accept with
  | cons event rest =>
      simp only [nextEvent, haccept] at hhandle
      obtain ⟨hqueues, htouches⟩ := pollHandler_touches hhandle
      unfold State.Guarded
      rw [hqueues]
      exact htouches.guarded
        (HttpServer.Guarded.mono hguarded (fun found hfound hconn => ⟨found, hfound, hconn⟩)
          (fun hlater _ => .inr hlater))
  | nil =>
      cases hready : state.queues.readWrite with
      | nil => simp [nextEvent, haccept, hready] at hhandle
      | cons event rest =>
          simp only [nextEvent, haccept, hready] at hhandle
          obtain ⟨hqueues, htouches⟩ := pollHandler_touches hhandle
          unfold State.Guarded
          rw [hqueues]
          by_cases hslot : event.conn = slot ∧ state.server.status slot ≠ .invalid
          · have hrearmed : next.server.status slot = .invalid ∨
                next.server.poller slot = some true := by
              refine pollHandler_rearms ?_ hslot.1 ?_ ?_ hhandle
              · exact hguarded.known
              · exact hslot.2
              · exact hcondition event rest haccept hready hslot.1
            have hknown : Registered next.server :=
              (htouches.guarded (HttpServer.Guarded.mk hguarded.known hguarded.covered)).known
            refine ⟨hknown, fun hstatus => .inl (hrearmed.resolve_left fun hinvalid => ?_)⟩
            rw [hinvalid] at hstatus
            rcases hstatus with hstatus | hstatus <;> cases hstatus
          · refine htouches.guarded ⟨hguarded.known, fun hstatus => ?_⟩
            have hvalid : state.server.status slot ≠ .invalid := by
              intro hinvalid
              rw [show state.server.status slot = .invalid from hinvalid] at hstatus
              rcases hstatus with hstatus | hstatus <;> cases hstatus
            rcases hguarded.covered hstatus with harmed | ⟨found, hfound, hconn⟩ | hlater
            · exact .inl harmed
            · rw [hready] at hfound
              rcases List.mem_cons.mp hfound with hhead | htail
              · rw [hhead] at hconn
                exact absurd ⟨hconn, hvalid⟩ hslot
              · exact .inr (.inl ⟨found, htail, hconn⟩)
            · exact .inr (.inr hlater)

theorem Guarded.step
    {total : ℕ} {action : Action}
    (hguarded : state.Guarded slot)
    (hcondition : KeepsAwake slot state action)
    (hstep : state.step cgi policy total action = some next) :
    next.Guarded slot := by
  cases action with
  | throttle removed added =>
      simp only [State.step] at hstep
      split_ifs at hstep
      cases hstep
      exact hguarded.throttle total removed added
  | poll batch =>
      simp only [State.step] at hstep
      split_ifs at hstep
      exact hguarded.poll hcondition hstep
  | handle fresh stray traffic fuel =>
      simp only [State.step] at hstep
      split_ifs at hstep
      exact hguarded.handle hcondition hstep

end State

theorem guarded_start
    (unset : ℕ → ℕ × ℕ) (total listenFd : ℕ) (added : Bool) (slot : ℕ) :
    (start unset total listenFd added).Guarded slot := by
  have hempty : Guarded slot
      ((ServerImpl.construct total unset).setWatchAcceptedSock true) ⟨[], []⟩ [] := by
    refine ⟨⟨rfl, fun _ hvalid => absurd rfl hvalid, fun _ hknown => absurd rfl hknown⟩, ?_⟩
    intro hstatus
    rcases hstatus with hstatus | hstatus <;> cases hstatus
  have hswap : (start unset total listenFd added).server =
      (((ServerImpl.construct total unset).setWatchAcceptedSock true).watchRawSocket
        listenFd true added).2 := by
    cases added <;> rfl
  unfold State.Guarded
  rw [hswap]
  exact hempty.watchRawSocket listenFd true added

/-- In every run in which the events of a slot meet the condition, the slot is
never silent. -/
theorem awake_of_keepsAwake
    {cgi : HttpHandler} {policy : StringPolicy} {unset : ℕ → ℕ × ℕ} {total listenFd : ℕ}
    {added : Bool} {slot : ℕ} {state : State}
    (hreached : (machine cgi policy unset total listenFd added).ReachedBy
      (KeepsAwake slot) state)
    (hwatched : state.Watched slot) :
    state.Awake slot := by
  have hguarded : state.Guarded slot :=
    hreached.invariant (fun state => state.Guarded slot)
      (guarded_start unset total listenFd added slot)
      (fun _ _ _ hguarded hcondition hstep => hguarded.step hcondition hstep)
  have hstatus : state.server.status slot = .listening ∨
      state.server.status slot = .connected :=
    hwatched.imp_left And.left
  rcases hguarded.covered hstatus with harmed | ⟨event, hevent, hconn⟩ | ⟨delivered, hnone, -⟩
  · exact .inl harmed
  · exact .inr ⟨event, List.mem_append_right _ hevent, hconn⟩
  · cases hnone

/-- Nothing to read yet, and everything sent is accepted. -/
def Traffic.quiet : Traffic where
  pieces := []
  readEnd := .again
  accepts := fun _ size => some size

/-- A connection is accepted, and a read event of it finds no bytes. -/
def acceptThenRead : List Action :=
  [.throttle true true, .poll [(⟨3, true, false⟩, ⟨some 5, true, true⟩)],
    .handle (.construct [0] 0 false 0) .error .quiet 1,
    .throttle true true, .poll [(⟨5, true, false⟩, ⟨none, true, true⟩)],
    .handle (.construct [0] 0 false 0) .error .quiet 1]

theorem awake_acceptThenRead :
    ∃ state, (machine (fun _ response => response) .doubling (fun _ => (0, 0)) 8 3 true).run
        acceptThenRead = some state ∧
      state.phase = .checking ∧ state.Watched 5 ∧ state.Awake 5 := by
  have hreached : ∀ state, (machine (fun _ response => response) .doubling (fun _ => (0, 0)) 8 3
        true).run acceptThenRead = some state →
      (machine (fun _ response => response) .doubling (fun _ => (0, 0)) 8 3 true).ReachedBy
        (KeepsAwake 5) state := by
    intro state hrun
    refine Machine.ReachedBy.runFrom .start ?_ hrun
    refine ⟨trivial, fun _ hfirst => ?_⟩
    cases hfirst
    refine ⟨nofun, fun _ hpoll => ?_⟩
    cases hpoll
    refine ⟨nofun, fun _ haccept => ?_⟩
    cases haccept
    refine ⟨trivial, fun _ hsecond => ?_⟩
    cases hsecond
    refine ⟨nofun, fun _ hready => ?_⟩
    cases hready
    refine ⟨?_, fun _ _ => trivial⟩
    intro event rest _ hevent _
    cases hevent
    exact .inr ⟨_, rfl, rfl, .inl ⟨rfl, rfl, by decide, nofun, nofun⟩⟩
  have hwatched : ∀ state, (machine (fun _ response => response) .doubling (fun _ => (0, 0)) 8 3
        true).run acceptThenRead = some state →
      state.Watched 5 := by
    intro state hrun
    cases hrun
    exact .inr rfl
  exact ⟨_, rfl, rfl, hwatched _ rfl, awake_of_keepsAwake (hreached _ rfl) (hwatched _ rfl)⟩

/-- One connection is accepted. -/
def acceptOnce : List Action :=
  [.throttle true true, .poll [(⟨3, true, false⟩, ⟨some 5, true, true⟩)],
    .handle (.construct [] 0 false 0) .error .quiet 1]

theorem not_awake_acceptOnce :
    ¬ ∀ cgi policy unset total listenFd added state,
      (machine cgi policy unset total listenFd added).Reachable state →
        state.phase = .checking → ∀ slot, state.Watched slot → state.Awake slot := by
  intro hall
  have hsilent : ∃ state, (machine (fun _ response => response) .doubling (fun _ => (0, 0)) 8 3
        true).run acceptOnce = some state ∧
      state.phase = .checking ∧ state.Watched 3 ∧
      state.server.poller 3 = some false ∧ state.queues = ⟨[], []⟩ :=
    ⟨_, rfl, rfl, .inl ⟨rfl, nofun⟩, rfl, rfl⟩
  obtain ⟨state, hrun, hphase, hwatched, hdisarmed, hempty⟩ := hsilent
  have hreached : (machine (fun _ response => response) .doubling (fun _ => (0, 0)) 8 3
      true).Reachable state :=
    Machine.Reachable.runFrom .start hrun
  rcases hall _ _ _ _ _ _ state hreached hphase 3 hwatched with harmed | ⟨event, hevent, _⟩
  · rw [hdisarmed] at harmed
    cases harmed
  · rw [hempty] at hevent
    cases hevent

end HttpServer
end BackEndFacility
