import BackEndFacility.HttpAdmission
import BackEndFacility.Projection

/-!
# Connections of the HTTP server

`HttpServer` serves all connections from one loop, with one `HttpClient` for each slot
and the events of all of them in two queues.  Seen from one slot, a run of the loop is a
run of that client alone: connections are accepted into it, and it gets their events.

The events of other slots, the rounds of the poller and the switching of the listener do
not show.
-/

namespace BackEndFacility
namespace HttpServer

open SocketServer

/-! ## A client alone -/

/-- The client of a slot, if it has been made, and whether it has a connection. -/
structure LoneClient where
  client : Option HttpClient
  attached : Bool

inductive ClientAction where
  | accept (fresh : HttpClient)
  | event (code : SocketCode) (traffic : Traffic) (fuel : ℕ)

namespace LoneClient

def processEvent (cgi : HttpHandler) (policy : StringPolicy) (client : HttpClient)
    (code : SocketCode) (traffic : Traffic) (fuel : ℕ) : Option LoneClient :=
  match Session.processEvent ⟨cgi, policy, traffic.readEnd, traffic.accepts⟩ code fuel
      ⟨client, traffic.pieces, 0, 0, [], []⟩ with
  | none | some (.crashed, _) => none
  | some (.done, session) => some ⟨some session.client, true⟩
  | some (.closed, session) => some ⟨some session.client, false⟩

def step (cgi : HttpHandler) (policy : StringPolicy) (lone : LoneClient) :
    ClientAction → Option LoneClient
  | .accept fresh =>
      if lone.attached then none
      else some ⟨some ((lone.client.getD fresh).resetClient policy), true⟩
  | .event code traffic fuel =>
      match lone.client, lone.attached with
      | some client, true => processEvent cgi policy client code traffic fuel
      | _, _ => none

def machine (cgi : HttpHandler) (policy : StringPolicy) : Machine LoneClient ClientAction where
  start := ⟨none, false⟩
  step := step cgi policy

end LoneClient

def observe (slot : ℕ) (state : State) : Action → List ClientAction
  | .throttle _ _ => []
  | .poll _ => []
  | .handle fresh _ traffic fuel =>
      match State.nextEvent state.queues with
      | none => []
      | some (event, _) =>
          if event.conn = slot then
            match event.code with
            | some .accepted => [.accept fresh]
            | some .read => [.event .read traffic fuel]
            | some .write => [.event .write traffic fuel]
            | _ => []
          else []

/-- What is seen of a state. -/
def State.view (slot : ℕ) (state : State) : LoneClient where
  client := (state.conn slot).map Connection.client
  attached := ((state.conn slot).bind Connection.conn).isSome

/-! ## Clients and their slots -/

/-- As in `Succeeds`, and every event of `epoll_wait` says that its descriptor can be
read or written. -/
def Reports (state : State) (action : Action) : Prop :=
  Succeeds state action ∧
    match action with
    | .poll batch => ∀ delivered ∈ batch, delivered.1.read = true ∨ delivered.1.write = true
    | _ => True

abbrev slots (events : List SocketEvent) : List ℕ := events.map SocketEvent.conn

/-- Every queued event is one of a connection and of a known kind, no slot has two, and a
client points to its own slot as long as that slot is a connection whose acceptance it
has seen. -/
structure Linked (server : ServerImpl) (queues : Queues) (conn : ℕ → Option Connection) :
    Prop where
  polled : ∀ slot, server.poller slot ≠ none → server.status slot ≠ .invalid
  accepted : ∀ event ∈ queues.accept, event.code = some .accepted
  ready : ∀ event ∈ queues.readWrite, event.code = some .read ∨ event.code = some .write
  connected : ∀ event ∈ queues.accept ++ queues.readWrite,
    server.status event.conn = .connected
  distinct : (slots (queues.accept ++ queues.readWrite)).Nodup
  linked : ∀ slot, (conn slot).bind Connection.conn =
    if server.status slot = .connected ∧ slot ∉ slots queues.accept then some slot else none

/-- The rest of a batch: events of slots that are in use and have none queued. -/
structure Pending (server : ServerImpl) (queues : Queues) (rest : Batch) : Prop where
  valid : ∀ delivered ∈ rest, server.status delivered.1.data ≠ .invalid
  unqueued : ∀ delivered ∈ rest,
    delivered.1.data ∉ slots (queues.accept ++ queues.readWrite)
  once : (rest.map fun delivered => delivered.1.data).Nodup
  flagged : ∀ delivered ∈ rest, delivered.1.read = true ∨ delivered.1.write = true

namespace Linked

variable {server next : ServerImpl} {queues after : Queues} {conn : ℕ → Option Connection}
  {rest : Batch} {listenFd : ℕ} {watching : Bool}

theorem congr (hlinked : Linked server queues conn)
    (hpolled : ∀ slot, next.poller slot ≠ none → next.status slot ≠ .invalid)
    (hstatus : ∀ slot, next.status slot = .connected ↔ server.status slot = .connected) :
    Linked next queues conn where
  polled := hpolled
  accepted := hlinked.accepted
  ready := hlinked.ready
  connected := fun event hevent => (hstatus event.conn).mpr (hlinked.connected event hevent)
  distinct := hlinked.distinct
  linked := by
    intro slot
    rw [hlinked.linked slot]
    simp only [hstatus slot]

theorem setPoller {poller : SocketPoll} (hlinked : Linked server queues conn)
    (hpoller : ∀ slot, poller slot ≠ none → server.poller slot ≠ none) :
    Linked (server.setPoller poller) queues conn :=
  hlinked.congr (fun slot hslot => hlinked.polled slot (hpoller slot hslot)) fun _ => Iff.rfl

theorem modify (hlinked : Linked server queues conn) (fd : ℕ) :
    Linked (server.setPoller (server.poller.modifySocket fd)) queues conn := by
  refine hlinked.setPoller fun slot hslot hnone => hslot ?_
  rw [modifySocket_apply, if_neg (fun hboth => hboth.2 hnone)]
  exact hnone

theorem pushReadWrite {event : SocketEvent} (hlinked : Linked server queues conn)
    (hcode : event.code = some .read ∨ event.code = some .write)
    (hconnected : server.status event.conn = .connected)
    (hunqueued : event.conn ∉ slots (queues.accept ++ queues.readWrite)) :
    Linked server (queues.pushReadWrite event) conn where
  polled := hlinked.polled
  accepted := hlinked.accepted
  ready := by
    intro other hother
    rcases List.mem_append.mp hother with hold | hnew
    · exact hlinked.ready other hold
    · rw [List.mem_singleton.mp hnew]
      exact hcode
  connected := by
    intro other hother
    simp only [Queues.pushReadWrite, ← List.append_assoc] at hother
    rcases List.mem_append.mp hother with hold | hnew
    · exact hlinked.connected other hold
    · rw [List.mem_singleton.mp hnew]
      exact hconnected
  distinct := by
    change (slots (queues.accept ++ (queues.readWrite ++ [event]))).Nodup
    rw [← List.append_assoc, slots, List.map_append]
    refine List.nodup_append.mpr ⟨hlinked.distinct, List.nodup_singleton _, ?_⟩
    rintro slot hslot other hother rfl
    rw [List.map_singleton, List.mem_singleton] at hother
    rw [hother] at hslot
    exact hunqueued hslot
  linked := hlinked.linked

theorem accept {fd self : ℕ} {socket : SocketConnection}
    (hlinked : Linked server queues conn) (hfree : server.status fd = .invalid)
    (hsockets : next.sockets = Function.update server.sockets fd socket)
    (hpoller : next.poller = Function.update server.poller fd (some true))
    (hsocket : socket.status = .connected) :
    Linked next (queues.pushAccept ⟨some .accepted, self, fd⟩) conn := by
  have hstatus : ∀ slot, next.status slot =
      if slot = fd then .connected else server.status slot := by
    intro slot
    unfold ServerImpl.status
    rw [hsockets]
    split_ifs with hslot
    · rw [hslot, Function.update_self, hsocket]
    · rw [Function.update_of_ne hslot]
  have hunqueued : fd ∉ slots (queues.accept ++ queues.readWrite) := by
    intro hmem
    obtain ⟨event, hevent, hconn⟩ := List.mem_map.mp hmem
    have hconnected := hlinked.connected event hevent
    rw [hconn, hfree] at hconnected
    cases hconnected
  have hperm : (slots ((queues.pushAccept ⟨some .accepted, self, fd⟩).accept ++
      queues.readWrite)).Perm (fd :: slots (queues.accept ++ queues.readWrite)) := by
    simp only [Queues.pushAccept, slots, List.map_append, List.append_assoc,
      List.singleton_append]
    exact List.perm_middle
  refine ⟨?_, ?_, hlinked.ready, ?_, ?_, ?_⟩
  · intro slot hslot
    rw [hstatus]
    split_ifs with hfd
    · simp
    · rw [hpoller, Function.update_of_ne hfd] at hslot
      exact hlinked.polled slot hslot
  · intro event hevent
    rcases List.mem_append.mp hevent with hold | hnew
    · exact hlinked.accepted event hold
    · rw [List.mem_singleton.mp hnew]
  · intro event hevent
    rw [hstatus]
    split_ifs with hfd
    · rfl
    · have hmem := hperm.mem_iff.mp (List.mem_map_of_mem hevent)
      rcases List.mem_cons.mp hmem with hnew | hold
      · exact absurd hnew hfd
      · obtain ⟨other, hother, hconn⟩ := List.mem_map.mp hold
        rw [← hconn]
        exact hlinked.connected other hother
  · exact hperm.nodup_iff.mpr (List.nodup_cons.mpr ⟨hunqueued, hlinked.distinct⟩)
  · intro slot
    have hwaits : slot ∈ slots (queues.pushAccept ⟨some .accepted, self, fd⟩).accept ↔
        slot ∈ slots queues.accept ∨ slot = fd := by
      simp only [Queues.pushAccept, slots, List.map_append, List.map_singleton,
        List.mem_append, List.mem_singleton]
    rw [hlinked.linked slot, hstatus slot]
    by_cases hslot : slot = fd
    · subst hslot
      rw [hfree, if_neg (by simp), if_neg (fun hboth => hboth.2 (hwaits.mpr (.inr rfl)))]
    · simp only [hslot, if_false, hwaits, or_false]

end Linked

/-! ## A batch -/

section Batches

variable {server next : ServerImpl} {queues after : Queues} {conn : ℕ → Option Connection}
  {rest : Batch} {listenFd : ℕ} {watching : Bool}

theorem handleAcceptReady_opens
    {listener slot : ℕ} {client : Option ℕ} {added : Bool} {code : Code}
    (hwatch : server.watchAccepted = true)
    (haccept : server.handleAcceptReady listener client added = some (code, slot, next)) :
    (code ≠ .succ ∧ next = server) ∨
      ∃ socket, code = .succ ∧ server.status slot = .invalid ∧ socket.status = .connected ∧
        next.sockets = Function.update server.sockets slot socket ∧
        next.poller = Function.update server.poller slot (some true) := by
  cases client with
  | none =>
      cases haccept
      exact .inl ⟨by simp, rfl⟩
  | some fd =>
      simp only [ServerImpl.handleAcceptReady] at haccept
      split at haccept
      · cases haccept
      · rename_i ready hsetup
        have hfree : server.status fd = .invalid := by
          unfold ServerImpl.setupSocketConnection at hsetup
          split_ifs at hsetup with hfree
          exact hfree
        have hready := setupSocketConnection_polled hwatch hsetup
        simp only [Option.some.injEq, Prod.mk.injEq] at haccept
        obtain ⟨hcode, rfl, hnext⟩ := haccept
        refine .inr ⟨⟨fd, .connected, (server.sockets listener).opaqueValue⟩, hcode.symm, hfree,
          rfl, ?_, ?_⟩
        · rw [← hnext, hready]
          simp [hwatch, ServerImpl.setStatus, ServerImpl.setSocket, ServerImpl.setPoller]
        · rw [← hnext, hready]
          rfl

namespace Pending

variable {event : PollEvent} {answer : Answer}

theorem tail (hpending : Pending server queues ((event, answer) :: rest)) :
    Pending server queues rest where
  valid := fun delivered hmem => hpending.valid delivered (List.mem_cons_of_mem _ hmem)
  unqueued := fun delivered hmem => hpending.unqueued delivered (List.mem_cons_of_mem _ hmem)
  once := (List.nodup_cons.mp hpending.once).2
  flagged := fun delivered hmem => hpending.flagged delivered (List.mem_cons_of_mem _ hmem)

theorem queue (slot : ℕ) (hpending : Pending server queues rest)
    (hvalid : ∀ other, server.status other ≠ .invalid → next.status other ≠ .invalid)
    (hqueued : ∀ other, other ∈ slots (after.accept ++ after.readWrite) ↔
      other ∈ slots (queues.accept ++ queues.readWrite) ∨ other = slot)
    (hother : ∀ delivered ∈ rest, delivered.1.data ≠ slot) : Pending next after rest where
  valid := fun delivered hmem => hvalid _ (hpending.valid delivered hmem)
  unqueued := by
    intro delivered hmem hslot
    rcases (hqueued _).mp hslot with hold | hnew
    · exact hpending.unqueued delivered hmem hold
    · exact hother delivered hmem hnew
  once := hpending.once
  flagged := hpending.flagged

theorem head_ne (hpending : Pending server queues ((event, answer) :: rest)) :
    ∀ delivered ∈ rest, delivered.1.data ≠ event.data := by
  intro delivered hmem heq
  refine (List.nodup_cons.mp hpending.once).1 ?_
  change event.data ∈ rest.map _
  rw [← heq]
  exact List.mem_map_of_mem (f := fun delivered : PollEvent × Answer => delivered.1.data) hmem

end Pending

theorem handleEvent_linked
    {self : ℕ} {event : PollEvent} {answer : Answer}
    (htable : Table listenFd watching server) (hlinked : Linked server queues conn)
    (hpending : Pending server queues ((event, answer) :: rest))
    (hevent : server.handleEvent self queues event answer = some (after, next)) :
    Linked next after conn ∧ Pending next after rest := by
  have hused : server.status event.data ≠ .invalid :=
    hpending.valid (event, answer) List.mem_cons_self
  unfold ServerImpl.handleEvent at hevent
  cases hstatus : server.status event.data with
  | invalid => exact absurd hstatus hused
  | connecting =>
      have hconnected := (htable.used hused (by rw [hstatus]; decide)).1
      rw [hstatus] at hconnected
      cases hconnected
  | paccept =>
      have hconnected := (htable.used hused (by rw [hstatus]; decide)).1
      rw [hstatus] at hconnected
      cases hconnected
  | connected =>
      simp only [hstatus, Option.some.injEq, Prod.mk.injEq] at hevent
      obtain ⟨rfl, rfl⟩ := hevent
      have hcode : event.code = some .read ∨ event.code = some .write := by
        unfold PollEvent.code
        rcases hpending.flagged (event, answer) List.mem_cons_self with hread | hwrite
        · exact .inl (if_pos hread)
        · by_cases hread : event.read = true
          · exact .inl (if_pos hread)
          · right
            rw [if_neg hread, if_pos hwrite]
      refine ⟨hlinked.pushReadWrite hcode hstatus
        (hpending.unqueued (event, answer) List.mem_cons_self), ?_⟩
      refine hpending.tail.queue event.data (fun _ hvalid => hvalid) (fun other => ?_)
        hpending.head_ne
      simp only [Queues.pushReadWrite, slots, ← List.append_assoc, List.map_append,
        List.mem_append, List.map_singleton, List.mem_singleton]
  | listening =>
      simp only [hstatus] at hevent
      split at hevent
      · cases hevent
      · rename_i fd accepted haccept
        cases hevent
        rcases handleAcceptReady_opens htable.watch haccept with
          ⟨hcode, -⟩ | ⟨socket, -, hfree, hsocket, hsockets, hpoller⟩
        · exact absurd rfl hcode
        · refine ⟨hlinked.accept hfree hsockets hpoller hsocket, ?_⟩
          refine hpending.tail.queue fd (fun other hvalid => ?_) (fun other => ?_)
            fun delivered hmem heq => ?_
          · unfold ServerImpl.status
            rw [hsockets]
            by_cases hother : other = fd
            · rw [hother, Function.update_self, hsocket]
              simp
            · rw [Function.update_of_ne hother]
              exact hvalid
          · simp only [Queues.pushAccept, slots, List.map_append, List.mem_append,
              List.map_singleton, List.mem_singleton]
            tauto
          · have hvalid := hpending.tail.valid delivered hmem
            rw [heq] at hvalid
            exact hvalid hfree
      · rename_i code slot accepted hcode haccept
        cases hevent
        rcases handleAcceptReady_opens htable.watch haccept with ⟨-, rfl⟩ | ⟨_, hsucc, -⟩
        · exact ⟨hlinked, hpending.tail⟩
        · exact absurd hsucc hcode

theorem handleEvents_linked
    {self : ℕ} {batch : Batch}
    (htable : Table listenFd watching server) (hqueued : Queued listenFd server queues)
    (hclients : ∀ delivered ∈ batch, delivered.2.client ≠ some listenFd)
    (hlinked : Linked server queues conn) (hpending : Pending server queues batch)
    (hevents : ServerImpl.handleEvents self queues server batch = some (after, next)) :
    Linked next after conn := by
  induction batch generalizing queues server with
  | nil =>
      cases hevents
      exact hlinked
  | cons delivered rest ih =>
      obtain ⟨event, answer⟩ := delivered
      simp only [ServerImpl.handleEvents] at hevents
      split at hevents
      · cases hevents
      · rename_i middle server' hevent
        obtain ⟨hnext, -, hmiddle, -⟩ := handleEvent_table htable hqueued
          (hclients (event, answer) List.mem_cons_self) hevent
        obtain ⟨hfirst, hlater⟩ := handleEvent_linked htable hlinked hpending hevent
        exact ih hnext hmiddle (fun other hother => hclients other (List.mem_cons_of_mem _ hother))
          hfirst hlater hevents

end Batches

/-! ## An event -/

namespace Linked

variable {server : ServerImpl} {queues : Queues} {conn : ℕ → Option Connection}
  {event : SocketEvent} {accept readWrite rest : List SocketEvent}

theorem setConn {slot : ℕ} {connection : Connection} (hlinked : Linked server queues conn)
    (hconn : connection.conn = (conn slot).bind Connection.conn) :
    Linked server queues (Function.update conn slot (some connection)) where
  polled := hlinked.polled
  accepted := hlinked.accepted
  ready := hlinked.ready
  connected := hlinked.connected
  distinct := hlinked.distinct
  linked := by
    intro other
    rw [← hlinked.linked other]
    by_cases hother : other = slot
    · rw [hother, Function.update_self, ← hconn]
      rfl
    · rw [Function.update_of_ne hother]

theorem takeAccept {connection : Connection}
    (hlinked : Linked server ⟨event :: accept, readWrite⟩ conn)
    (hconn : connection.conn = some event.conn) :
    Linked server ⟨accept, readWrite⟩ (Function.update conn event.conn (some connection)) where
  polled := hlinked.polled
  accepted := fun other hother => hlinked.accepted other (List.mem_cons_of_mem event hother)
  ready := hlinked.ready
  connected := fun other hother => hlinked.connected other (List.mem_cons_of_mem event hother)
  distinct := (List.nodup_cons.mp hlinked.distinct).2
  linked := by
    have hgone : event.conn ∉ slots accept := by
      intro hmem
      obtain ⟨other, hother, hsame⟩ := List.mem_map.mp hmem
      exact (List.nodup_cons.mp hlinked.distinct).1
        (List.mem_map.mpr ⟨other, List.mem_append_left _ hother, hsame⟩)
    have hstatus := hlinked.connected event List.mem_cons_self
    intro other
    by_cases hother : other = event.conn
    · rw [hother, Function.update_self, if_pos ⟨hstatus, hgone⟩, ← hconn]
      rfl
    · have hwaits : other ∈ slots (event :: accept) ↔ other ∈ slots accept := by
        rw [slots, List.map_cons, List.mem_cons, or_iff_right hother]
      rw [Function.update_of_ne hother, hlinked.linked other]
      simp only [hwaits]

theorem takeReadWrite (hlinked : Linked server ⟨[], event :: rest⟩ conn) :
    Linked server ⟨[], rest⟩ conn ∧ event.conn ∉ slots rest ∧
      server.status event.conn = .connected ∧
      (conn event.conn).bind Connection.conn = some event.conn := by
  have hstatus := hlinked.connected event List.mem_cons_self
  refine ⟨⟨hlinked.polled, hlinked.accepted, ?_, ?_, ?_, hlinked.linked⟩,
    (List.nodup_cons.mp hlinked.distinct).1, hstatus, ?_⟩
  · exact fun other hother => hlinked.ready other (List.mem_cons_of_mem event hother)
  · exact fun other hother => hlinked.connected other (List.mem_cons_of_mem event hother)
  · exact (List.nodup_cons.mp hlinked.distinct).2
  · rw [hlinked.linked, if_pos ⟨hstatus, List.not_mem_nil⟩]

theorem closeSocket_apply {slot : ℕ} (hvalid : server.status slot ≠ .invalid)
    (hnumber : (server.sockets slot).fd = slot) (other : ℕ) :
    (server.closeSocket slot).2.status other =
        (if other = slot then .invalid else server.status other) ∧
      (server.closeSocket slot).2.poller other =
        (if other = slot then none else server.poller other) := by
  have hgood : ¬ (server.status slot = .invalid ∨ (server.sockets slot).fd ≠ slot) := by
    rintro (hinvalid | hne)
    · exact hvalid hinvalid
    · exact hne hnumber
  unfold ServerImpl.closeSocket ServerImpl.forceSocketClose
  rw [if_neg hgood, if_neg hvalid]
  simp only [ServerImpl.status, ServerImpl.resetSocketSlot, ServerImpl.setStatus,
    ServerImpl.setSocket, SocketPoll.removeSocket, hnumber]
  split_ifs with hother
  · rw [hother, Function.update_self, Function.update_self]
    exact ⟨rfl, rfl⟩
  · rw [Function.update_of_ne hother, Function.update_of_ne hother]
    exact ⟨rfl, rfl⟩

theorem close {slot : ℕ} {connection : Connection} (hlinked : Linked server queues conn)
    (hvalid : server.status slot ≠ .invalid) (hnumber : (server.sockets slot).fd = slot)
    (hunqueued : slot ∉ slots (queues.accept ++ queues.readWrite))
    (hconn : connection.conn = none) :
    Linked (server.closeSocket slot).2 queues
      (Function.update conn slot (some connection)) where
  polled := by
    intro other hknown
    rw [(closeSocket_apply hvalid hnumber other).1]
    rw [(closeSocket_apply hvalid hnumber other).2] at hknown
    split_ifs at hknown ⊢ with hother
    · exact absurd rfl hknown
    · exact hlinked.polled other hknown
  accepted := hlinked.accepted
  ready := hlinked.ready
  connected := by
    intro event hevent
    have hother : event.conn ≠ slot := by
      intro heq
      refine hunqueued ?_
      rw [← heq]
      exact List.mem_map_of_mem hevent
    rw [(closeSocket_apply hvalid hnumber event.conn).1, if_neg hother]
    exact hlinked.connected event hevent
  distinct := hlinked.distinct
  linked := by
    intro other
    rw [(closeSocket_apply hvalid hnumber other).1]
    by_cases hother : other = slot
    · rw [hother, Function.update_self, if_pos rfl, if_neg (fun hboth => absurd hboth.1 (by simp)),
        ← hconn]
      rfl
    · rw [Function.update_of_ne hother, if_neg hother]
      exact hlinked.linked other

end Linked

namespace State

variable {cgi : HttpHandler} {policy : StringPolicy} {state next : State}

theorem processEvent_eq {slot : ℕ} {connection : Connection} {code : SocketCode}
    {traffic : Traffic} {fuel : ℕ} (hconn : connection.conn = some slot)
    (hconnected : state.server.status slot = .connected)
    (hnumber : (state.server.sockets slot).fd = slot) :
    state.processEvent cgi policy slot connection code traffic fuel =
      match Session.processEvent ⟨cgi, policy, traffic.readEnd, traffic.accepts⟩ code fuel
          ⟨connection.client, traffic.pieces, 0, 0, [], []⟩ with
      | none | some (.crashed, _) => none
      | some (.done, session) =>
          some ((state.rearm connection session).setConn slot ⟨session.client, some slot⟩)
      | some (.closed, session) =>
          some ((state.setServer (state.server.closeSocket slot).2).setConn slot
            ⟨session.client, none⟩) := by
  have henvironment : state.environment cgi policy traffic connection =
      ⟨cgi, policy, traffic.readEnd, traffic.accepts⟩ := by
    unfold environment
    simp only [hconn, hconnected, reduceCtorEq, if_false]
  have husable : ∀ session, state.Usable connection session := by
    intro session
    unfold Usable
    simp only [hconn, hconnected]
    simp
  have hclose : state.closeConnection connection =
      some (state.setServer (state.server.closeSocket slot).2) := by
    unfold closeConnection
    simp only [hconn, hnumber]
  unfold processEvent
  rw [henvironment]
  split
  · rename_i hnone
    rw [hnone]
  · rename_i ending session hsession
    rw [hsession, if_pos (husable session)]
    cases ending with
    | crashed => rfl
    | done =>
        have hsame : ({ connection with client := session.client } : Connection) =
            ⟨session.client, some slot⟩ := by
          rw [← hconn]
        simp only [hsame]
    | closed => simp only [hclose]

def taking (state : State) (queues : Queues) : State :=
  { state with phase := .checking, queues := queues }

theorem handle_accept {event : SocketEvent} {rest : List SocketEvent} {fresh : HttpClient}
    {stray : Code} {traffic : Traffic} {fuel : ℕ} (hqueue : state.queues.accept = event :: rest)
    (hcode : event.code = some .accepted)
    (hnumber : (state.server.sockets event.conn).fd = event.conn) :
    state.handle cgi policy fresh stray traffic fuel =
      some ((state.taking { state.queues with accept := rest }).setConn event.conn
        ⟨(state.connection event.conn fresh).client.resetClient policy, some event.conn⟩) := by
  unfold handle nextEvent pollHandler
  simp only [hqueue, hcode, hnumber, Option.getD_some]
  rfl

theorem handle_readWrite {event : SocketEvent} {rest : List SocketEvent} {fresh : HttpClient}
    {stray : Code} {traffic : Traffic} {fuel : ℕ} {code : SocketCode} {connection : Connection}
    (haccept : state.queues.accept = []) (hqueue : state.queues.readWrite = event :: rest)
    (hcode : (event.code = some .read ∧ code = .read) ∨ (event.code = some .write ∧ code = .write))
    (hnumber : (state.server.sockets event.conn).fd = event.conn)
    (hconn : state.conn event.conn = some connection) :
    state.handle cgi policy fresh stray traffic fuel =
      (state.taking ⟨[], rest⟩).processEvent cgi policy event.conn connection code traffic
        fuel := by
  have hfound : (state.taking ⟨[], rest⟩).connection event.conn fresh = connection := by
    unfold State.connection taking
    rw [hconn]
    rfl
  unfold handle nextEvent pollHandler
  rcases hcode with ⟨hcode, rfl⟩ | ⟨hcode, rfl⟩
  · simp only [haccept, hqueue, hcode, hnumber, Option.getD_some]
    exact congrArg (fun found => (state.taking ⟨[], rest⟩).processEvent cgi policy event.conn found
      .read traffic fuel) hfound
  · simp only [haccept, hqueue, hcode, hnumber, Option.getD_some]
    exact congrArg (fun found => (state.taking ⟨[], rest⟩).processEvent cgi policy event.conn found
      .write traffic fuel) hfound

theorem view_setConn {slot other : ℕ} {connection : Connection} (server : ServerImpl)
    (queues : Queues) (phase : Phase) :
    (({ state with phase := phase, queues := queues, server := server } : State).setConn slot
      connection).view other =
      if other = slot then ⟨some connection.client, connection.conn.isSome⟩
      else state.view other := by
  unfold view setConn
  split_ifs with hother
  · rw [hother]
    simp only [Function.update_self]
    rfl
  · simp only [Function.update_of_ne hother]

theorem rearm_linked {connection : Connection} {session : Session} {queues : Queues}
    {conn : ℕ → Option Connection} (hlinked : Linked state.server queues conn) :
    ∃ server, state.rearm connection session = state.setServer server ∧
      Linked server queues conn := by
  unfold rearm
  split
  · exact ⟨state.server, rfl, hlinked⟩
  · rename_i slot hconn
    split_ifs
    · exact ⟨state.server, rfl, hlinked⟩
    · exact ⟨_, rfl, hlinked.modify _⟩

end State

/-! ## The projection -/

section Seen

variable {cgi : HttpHandler} {policy : StringPolicy} {total : ℕ} {state next : State}
  {event : SocketEvent} {rest : List SocketEvent} {fresh : HttpClient} {stray : Code}
  {traffic : Traffic} {fuel : ℕ}

def Seen (cgi : HttpHandler) (policy : StringPolicy) (state : State) (action : Action)
    (next : State) : Prop :=
  ∀ slot, (LoneClient.machine cgi policy).runFrom (state.view slot)
    (observe slot state action) = some (next.view slot)

theorem accept_seen (hlinked : Linked state.server state.queues state.conn)
    (hqueue : state.queues.accept = event :: rest)
    (hnumber : (state.server.sockets event.conn).fd = event.conn)
    (hhandle : state.handle cgi policy fresh stray traffic fuel = some next) :
    Linked next.server next.queues next.conn ∧
      Seen cgi policy state (.handle fresh stray traffic fuel) next := by
  obtain ⟨⟨accept, readWrite⟩, hqueues⟩ : ∃ queues, state.queues = queues := ⟨_, rfl⟩
  rw [hqueues] at hlinked hqueue
  obtain rfl : accept = event :: rest := hqueue
  have hcode := hlinked.accepted event List.mem_cons_self
  have haccept : state.queues.accept = event :: rest := by rw [hqueues]
  rw [State.handle_accept haccept hcode hnumber, hqueues] at hhandle
  cases hhandle
  refine ⟨hlinked.takeAccept rfl, fun slot => ?_⟩
  have hview := @State.view_setConn state event.conn slot
    ⟨(state.connection event.conn fresh).client.resetClient policy, some event.conn⟩ state.server
    ⟨rest, readWrite⟩ .checking
  have hobserve : observe slot state (.handle fresh stray traffic fuel) =
      if event.conn = slot then [.accept fresh] else [] := by
    unfold observe State.nextEvent
    simp only [haccept, hcode]
  refine Eq.trans ?_ (congrArg some hview.symm)
  rw [hobserve]
  by_cases hslot : slot = event.conn
  · subst hslot
    have hdetached : (state.conn event.conn).bind Connection.conn = none := by
      rw [hlinked.linked, if_neg fun hboth => hboth.2 List.mem_cons_self]
    rw [if_pos rfl, if_pos rfl]
    simp only [Machine.runFrom, LoneClient.machine, LoneClient.step, State.view, hdetached,
      Option.isSome_none, Bool.false_eq_true, if_false, State.connection]
    cases state.conn event.conn with
    | none => rfl
    | some connection => rfl
  · rw [if_neg hslot, if_neg (Ne.symm hslot)]
    rfl

/-- What waits behind a read or a write is the client of the slot, connected through it. -/
theorem handle_pending (hlinked : Linked state.server state.queues state.conn)
    (haccept : state.queues.accept = []) (hqueue : state.queues.readWrite = event :: rest)
    (hnumber : (state.server.sockets event.conn).fd = event.conn) :
    ∃ connection : Connection, ∃ code : SocketCode,
      state.conn event.conn = some connection ∧ connection.conn = some event.conn ∧
        state.server.status event.conn = .connected ∧
        ((event.code = some .read ∧ code = .read) ∨
          (event.code = some .write ∧ code = .write)) ∧
        ∀ fresh stray traffic fuel, state.handle cgi policy fresh stray traffic fuel =
          (state.taking ⟨[], rest⟩).processEvent cgi policy event.conn connection code traffic
            fuel := by
  rw [show state.queues = ⟨[], event :: rest⟩ by rw [← haccept, ← hqueue]] at hlinked
  obtain ⟨-, -, hconnected, hbind⟩ := hlinked.takeReadWrite
  obtain ⟨connection, hconn, hslot⟩ := Option.bind_eq_some_iff.mp hbind
  obtain ⟨code, hcode⟩ : ∃ code : SocketCode,
      (event.code = some .read ∧ code = .read) ∨ (event.code = some .write ∧ code = .write) := by
    rcases hlinked.ready event List.mem_cons_self with hread | hwrite
    · exact ⟨.read, .inl ⟨hread, rfl⟩⟩
    · exact ⟨.write, .inr ⟨hwrite, rfl⟩⟩
  exact ⟨connection, code, hconn, hslot, hconnected, hcode, fun fresh stray traffic fuel =>
    State.handle_readWrite haccept hqueue hcode hnumber hconn⟩

theorem readWrite_seen (hlinked : Linked state.server state.queues state.conn)
    (haccept : state.queues.accept = []) (hqueue : state.queues.readWrite = event :: rest)
    (hnumber : (state.server.sockets event.conn).fd = event.conn) :
    (state.handle cgi policy fresh stray traffic fuel = none →
      (LoneClient.machine cgi policy).runFrom (state.view event.conn)
        (observe event.conn state (.handle fresh stray traffic fuel)) = none) ∧
    ∀ next, state.handle cgi policy fresh stray traffic fuel = some next →
      Linked next.server next.queues next.conn ∧
        Seen cgi policy state (.handle fresh stray traffic fuel) next := by
  obtain ⟨connection, code, hconn, hslot, hconnected, hcode, hhandle⟩ :=
    @handle_pending cgi policy state event rest hlinked haccept hqueue hnumber
  have hpending : Linked state.server ⟨[], event :: rest⟩ state.conn := by
    rw [← haccept, ← hqueue]
    exact hlinked
  obtain ⟨htaken, hunqueued, -, hbind⟩ := hpending.takeReadWrite
  have hobserve : ∀ slot, observe slot state (.handle fresh stray traffic fuel) =
      if event.conn = slot then [.event code traffic fuel] else [] := by
    intro slot
    unfold observe State.nextEvent
    rcases hcode with ⟨hcode, rfl⟩ | ⟨hcode, rfl⟩
    · simp only [haccept, hqueue, hcode]
    · simp only [haccept, hqueue, hcode]
  have hlone : (LoneClient.machine cgi policy).runFrom (state.view event.conn)
      (observe event.conn state (.handle fresh stray traffic fuel)) =
      LoneClient.processEvent cgi policy connection.client code traffic fuel := by
    rw [hobserve, if_pos rfl]
    simp only [Machine.runFrom, LoneClient.machine, LoneClient.step, State.view, hconn,
      Option.map_some, Option.bind_some, hslot, Option.isSome_some]
    cases LoneClient.processEvent cgi policy connection.client code traffic fuel with
    | none => rfl
    | some lone => rfl
  -- a slot other than that of the event sees nothing
  have hseen : ∀ client attached server,
      LoneClient.processEvent cgi policy connection.client code traffic fuel =
        some ⟨some client, attached⟩ →
      Seen cgi policy state (.handle fresh stray traffic fuel)
        (((state.taking ⟨[], rest⟩).setServer server).setConn event.conn
          ⟨client, if attached then some event.conn else none⟩) := by
    intro client attached server hdone slot
    have hview := @State.view_setConn state event.conn slot
      ⟨client, if attached then some event.conn else none⟩ server ⟨[], rest⟩ .checking
    refine Eq.trans ?_ (congrArg some hview.symm)
    by_cases hother : slot = event.conn
    · subst hother
      rw [hlone, hdone, if_pos rfl]
      cases attached <;> rfl
    · rw [hobserve, if_neg (Ne.symm hother), if_neg hother]
      rfl
  have hprocess : (state.taking ⟨[], rest⟩).processEvent cgi policy event.conn connection code
      traffic fuel = _ := State.processEvent_eq hslot hconnected hnumber
  rw [hhandle, hprocess, hlone]
  unfold LoneClient.processEvent at hseen ⊢
  generalize Session.processEvent ⟨cgi, policy, traffic.readEnd, traffic.accepts⟩ code fuel
    ⟨connection.client, traffic.pieces, 0, 0, [], []⟩ = outcome at hseen ⊢
  rcases outcome with _ | ⟨ending, session⟩
  · exact ⟨fun _ => rfl, fun next hnext => by cases hnext⟩
  cases ending with
  | crashed => exact ⟨fun _ => rfl, fun next hnext => by cases hnext⟩
  | done =>
      refine ⟨fun hends => (by cases hends), fun next hnext => ?_⟩
      obtain ⟨server, hrearm, hlinked'⟩ := @State.rearm_linked (state.taking ⟨[], rest⟩)
        connection session ⟨[], rest⟩ state.conn htaken
      simp only [hrearm, Option.some.injEq] at hnext
      subst next
      refine ⟨hlinked'.setConn hbind.symm, ?_⟩
      exact hseen session.client true server rfl
  | closed =>
      refine ⟨fun hends => (by cases hends), fun next hnext => ?_⟩
      simp only [Option.some.injEq] at hnext
      subst next
      have hvalid : state.server.status event.conn ≠ .invalid := by
        rw [hconnected]
        simp
      refine ⟨htaken.close hvalid hnumber hunqueued rfl, ?_⟩
      exact hseen session.client false (state.server.closeSocket event.conn).2 rfl

theorem throttle_linked (hsteady : Steady total state)
    (hlinked : Linked state.server state.queues state.conn) :
    Linked (state.throttle total true true).server state.queues state.conn := by
  have hlistener : state.server.status state.listenFd ≠ .connected := by
    rw [hsteady.table.listener]
    split_ifs
    · simp
    · simp
  -- only the listener's own slot is written, with a status that is not a connection's
  have hswitch : ∀ (server : ServerImpl) (socket : SocketConnection) (armed : Option Bool),
      server.sockets = Function.update state.server.sockets state.listenFd socket →
      server.poller = Function.update state.server.poller state.listenFd armed →
      socket.status ≠ .connected → (armed ≠ none → socket.status ≠ .invalid) →
      Linked server state.queues state.conn := by
    intro server socket armed hsockets hpoller hstatus harmed
    refine hlinked.congr (fun slot hslot => ?_) fun slot => ?_
    · unfold ServerImpl.status
      rw [hpoller] at hslot
      rw [hsockets]
      by_cases hsame : slot = state.listenFd
      · rw [hsame, Function.update_self] at hslot ⊢
        exact harmed hslot
      · rw [Function.update_of_ne hsame] at hslot ⊢
        exact hlinked.polled slot hslot
    · unfold ServerImpl.status at hlistener ⊢
      rw [hsockets]
      by_cases hsame : slot = state.listenFd
      · rw [hsame, Function.update_self]
        exact iff_of_false hstatus hlistener
      · rw [Function.update_of_ne hsame]
  unfold State.throttle
  split_ifs with hfull hidle
  · unfold ServerImpl.unwatchSocket
    split_ifs with hinvalid hremoved
    · exact hlinked
    · exact hswitch _ _ none rfl rfl (by simp) fun hnone => absurd rfl hnone
    · exact absurd rfl hremoved
  · unfold ServerImpl.watchRawSocket
    split_ifs with hinvalid hadded
    · exact hlinked
    · exact hswitch _ _ (some true) rfl rfl (by simp) fun _ => by simp
    · exact absurd rfl hadded
  · exact hlinked

theorem poll_linked {batch : Batch} (hsteady : Steady total state)
    (hlinked : Linked state.server state.queues state.conn)
    (hreports : Reports state (.poll batch)) (hpoll : state.poll batch = some next) :
    Linked next.server next.queues next.conn ∧ ∀ slot, next.view slot = state.view slot := by
  obtain ⟨⟨hdistinct, hclients⟩, hflagged⟩ := hreports
  unfold State.poll at hpoll
  split_ifs at hpoll with hready
  split at hpoll
  · cases hpoll
  · rename_i queues server hevents
    cases hpoll
    have hwaiting : Linked (state.server.waitAll batch) state.queues state.conn :=
      hlinked.setPoller fun slot hslot => mt disarmAll_apply.1.mpr hslot
    have hpending : Pending (state.server.waitAll batch) state.queues batch := by
      refine ⟨fun delivered hmem => ?_, fun delivered _ hslot => ?_, hdistinct, hflagged⟩
      · refine hlinked.polled delivered.1.data ?_
        rw [hready.2 delivered hmem]
        simp
      · rw [hready.1] at hslot
        exact absurd hslot List.not_mem_nil
    exact ⟨handleEvents_linked (hsteady.table.waitAll batch)
      (hsteady.queued.keeps fun _ hnumber => hnumber) hclients hwaiting hpending hevents,
      fun _ => rfl⟩

theorem handle_seen (hsteady : Steady total state)
    (hlinked : Linked state.server state.queues state.conn)
    (hhandle : state.handle cgi policy fresh stray traffic fuel = some next) :
    Linked next.server next.queues next.conn ∧
      Seen cgi policy state (.handle fresh stray traffic fuel) next := by
  cases haccept : state.queues.accept with
  | cons event rest =>
      have hown := hsteady.queued event (by rw [haccept]; exact List.mem_cons_self)
      exact accept_seen hlinked haccept hown.number hhandle
  | nil =>
      cases hqueue : state.queues.readWrite with
      | nil => simp [State.handle, State.nextEvent, haccept, hqueue] at hhandle
      | cons event rest =>
          have hown := hsteady.queued event (by
            rw [haccept, hqueue]
            exact List.mem_cons_self)
          exact (readWrite_seen hlinked haccept hqueue hown.number).2 next hhandle

end Seen

/-- The invariant of the loop. -/
structure Serves (total : ℕ) (state : State) : Prop where
  steady : Steady total state
  linked : Linked state.server state.queues state.conn

namespace Serves

variable {cgi : HttpHandler} {policy : StringPolicy} {total : ℕ} {state next : State}

theorem start (unset : ℕ → ℕ × ℕ) (total listenFd : ℕ) :
    Serves total (start unset total listenFd true) where
  steady := .start unset total listenFd
  linked := by
    have hsockets : (HttpServer.start unset total listenFd true).server.sockets =
        Function.update (fun slot => ⟨(unset slot).1, .invalid, (unset slot).2⟩) listenFd
          ⟨listenFd, .listening, (unset listenFd).2⟩ := rfl
    have hpoller : (HttpServer.start unset total listenFd true).server.poller =
        Function.update (fun _ => none) listenFd (some true) := rfl
    have hstatus : ∀ slot, (HttpServer.start unset total listenFd true).server.status slot =
        if slot = listenFd then .listening else .invalid := by
      intro slot
      unfold ServerImpl.status
      rw [hsockets]
      split_ifs with hslot
      · rw [hslot, Function.update_self]
      · rw [Function.update_of_ne hslot]
    refine ⟨fun slot hslot => ?_, fun _ hnone => absurd hnone List.not_mem_nil,
      fun _ hnone => absurd hnone List.not_mem_nil, fun _ hnone => absurd hnone List.not_mem_nil,
      List.nodup_nil, fun slot => ?_⟩
    · rw [hpoller] at hslot
      rw [hstatus]
      split_ifs with hsame
      · simp
      · rw [Function.update_of_ne hsame] at hslot
        exact absurd rfl hslot
    · have hnone : (HttpServer.start unset total listenFd true).conn slot = none := rfl
      rw [hnone, hstatus, if_neg]
      · rfl
      · rintro ⟨hconnected, -⟩
        split_ifs at hconnected

/-- Each step of the loop keeps the invariant, and is seen from each slot. -/
theorem step {action : Action} (hserves : Serves total state) (hreports : Reports state action)
    (hstep : state.step cgi policy total action = some next) :
    Serves total next ∧ Seen cgi policy state action next := by
  have hsteady := hserves.steady.step hreports.1 hstep
  cases action with
  | throttle removed added =>
      obtain ⟨rfl, rfl⟩ := hreports.1
      simp only [State.step] at hstep
      split_ifs at hstep
      cases hstep
      have hlinked := throttle_linked hserves.steady hserves.linked
      unfold State.throttle at hsteady hlinked ⊢
      refine ⟨⟨hsteady, ?_⟩, fun slot => ?_⟩
      · split_ifs at hlinked ⊢
        · exact hlinked
        · exact hlinked
        · exact hlinked
      · split_ifs
        · rfl
        · rfl
        · rfl
  | poll batch =>
      simp only [State.step] at hstep
      split_ifs at hstep
      obtain ⟨hlinked, hview⟩ := poll_linked hserves.steady hserves.linked hreports hstep
      refine ⟨⟨hsteady, hlinked⟩, fun slot => ?_⟩
      rw [hview slot]
      rfl
  | handle fresh stray traffic fuel =>
      simp only [State.step] at hstep
      split_ifs at hstep
      obtain ⟨hlinked, hseen⟩ := handle_seen hserves.steady hserves.linked hstep
      exact ⟨⟨hsteady, hlinked⟩, hseen⟩

theorem of_reached {unset : ℕ → ℕ × ℕ} {listenFd : ℕ}
    (hreached : (machine cgi policy unset total listenFd true).ReachedBy Reports state) :
    Serves total state :=
  hreached.invariant (Serves total) (.start unset total listenFd)
    (fun _ _ _ hserves hreports hstep => (hserves.step hreports hstep).1)

end Serves

/-! ## Every run -/

/-- Seen from any slot, a run of the server is one of the slot's client alone: what the
client is like depends on its own connections and their events only, and it has a
connection just when its slot has one whose acceptance is not still queued. -/
theorem connection_alone (cgi : HttpHandler) (policy : StringPolicy) (unset : ℕ → ℕ × ℕ)
    (total listenFd slot : ℕ) (schedule : List Action) (final : State)
    (hadmits : (machine cgi policy unset total listenFd true).Admits Reports
      (machine cgi policy unset total listenFd true).start schedule)
    (hrun : (machine cgi policy unset total listenFd true).run schedule = some final) :
    (LoneClient.machine cgi policy).run
        ((machine cgi policy unset total listenFd true).trace (observe slot)
          (machine cgi policy unset total listenFd true).start schedule) =
        some (final.view slot) ∧
      ((final.view slot).attached = true ↔
        final.server.status slot = .connected ∧ slot ∉ slots final.queues.accept) := by
  have hseen := Machine.trace_runFrom (State.view slot) (Serves total) Reports
    (fun _ _ _ hserves hreports hstep =>
      ⟨(hserves.step hreports hstep).1, (hserves.step hreports hstep).2 slot⟩)
    (Serves.start unset total listenFd) hadmits hrun
  refine ⟨hseen, ?_⟩
  have hserves := Serves.of_reached (Machine.ReachedBy.runFrom .start hadmits hrun)
  unfold State.view
  simp only [hserves.linked.linked slot]
  split_ifs with hconnected
  · exact iff_of_true rfl hconnected
  · exact iff_of_false Bool.false_ne_true hconnected

def acceptReadEnd : List Action :=
  [.throttle true true, .poll [(⟨3, true, false⟩, ⟨some 5, true, true⟩)],
    .handle (.construct [0] 0 false 0) .error .quiet 1,
    .throttle true true, .poll [(⟨5, true, false⟩, ⟨none, true, true⟩)],
    .handle (.construct [0] 0 false 0) .error .quiet 1,
    .throttle true true, .poll [(⟨5, true, false⟩, ⟨none, true, true⟩)]]

theorem reports_poll (state : State) {event : PollEvent} {answer : Answer}
    (hclient : answer.client ≠ some state.listenFd) (hread : event.read = true) :
    Reports state (.poll [(event, answer)]) := by
  refine ⟨⟨List.nodup_singleton _, fun delivered hmem => ?_⟩, fun delivered hmem => ?_⟩
  · rw [List.mem_singleton.mp hmem]
    exact hclient
  · rw [List.mem_singleton.mp hmem]
    exact .inl hread

theorem acceptReadEnd_admits :
    (machine (fun _ response => response) .doubling (fun _ => (0, 0)) 8 3 true).Admits Reports
      (machine (fun _ response => response) .doubling (fun _ => (0, 0)) 8 3 true).start
      acceptReadEnd := by
  refine ⟨⟨⟨rfl, rfl⟩, trivial⟩, fun _ hfirst => ?_⟩
  cases hfirst
  refine ⟨reports_poll _ (by decide) rfl, fun _ hpoll => ?_⟩
  cases hpoll
  refine ⟨⟨trivial, trivial⟩, fun _ haccept => ?_⟩
  cases haccept
  refine ⟨⟨⟨rfl, rfl⟩, trivial⟩, fun _ hsecond => ?_⟩
  cases hsecond
  refine ⟨reports_poll _ (by simp) rfl, fun _ hready => ?_⟩
  cases hready
  refine ⟨⟨trivial, trivial⟩, fun _ hread => ?_⟩
  cases hread
  refine ⟨⟨⟨rfl, rfl⟩, trivial⟩, fun _ hthird => ?_⟩
  cases hthird
  exact ⟨reports_poll _ (by simp) rfl, fun _ _ => trivial⟩

theorem connection_alone_acceptReadEnd :
    ∃ final, (machine (fun _ response => response) .doubling (fun _ => (0, 0)) 8 3 true).run
        acceptReadEnd = some final ∧
      (final.view 5).attached = true ∧
      (LoneClient.machine (fun _ response => response) .doubling).run
          ((machine (fun _ response => response) .doubling (fun _ => (0, 0)) 8 3 true).trace
            (observe 5)
            (machine (fun _ response => response) .doubling (fun _ => (0, 0)) 8 3 true).start
            acceptReadEnd) = some (final.view 5) ∧
      final.server.status 5 = .connected ∧ 5 ∉ slots final.queues.accept := by
  obtain ⟨final, hrun⟩ : ∃ final, (machine (fun _ response => response) .doubling
      (fun _ => (0, 0)) 8 3 true).run acceptReadEnd = some final := ⟨_, rfl⟩
  have hattached : (final.view 5).attached = true := by
    cases hrun
    rfl
  obtain ⟨halone, hiff⟩ := connection_alone (fun _ response => response) .doubling
    (fun _ => (0, 0)) 8 3 5 acceptReadEnd final acceptReadEnd_admits hrun
  exact ⟨final, hrun, hattached, halone, hiff.mp hattached⟩

theorem next_addressed {state : State} {event : SocketEvent} {rest : Queues}
    (hlinked : Linked state.server state.queues state.conn)
    (hevent : State.nextEvent state.queues = some (event, rest)) :
    state.server.status event.conn = .connected ∧
    (event.code = some .accepted ∧ (state.conn event.conn).bind Connection.conn = none ∨
      (event.code = some .read ∨ event.code = some .write) ∧
        (state.conn event.conn).bind Connection.conn = some event.conn) := by
  obtain ⟨⟨accept, readWrite⟩, hqueues⟩ : ∃ queues, state.queues = queues := ⟨_, rfl⟩
  rw [hqueues] at hlinked hevent
  cases accept with
  | cons first later =>
      cases hevent
      have hwaits : event.conn ∈ slots (event :: later) := List.mem_cons_self
      refine ⟨hlinked.connected event List.mem_cons_self,
        .inl ⟨hlinked.accepted event List.mem_cons_self, ?_⟩⟩
      rw [hlinked.linked, if_neg fun hboth => hboth.2 hwaits]
  | nil =>
      cases readWrite with
      | nil => cases hevent
      | cons first later =>
          cases hevent
          obtain ⟨-, -, hconnected, hbind⟩ := hlinked.takeReadWrite
          exact ⟨hconnected, .inr ⟨hlinked.ready event List.mem_cons_self, hbind⟩⟩

/-- Handling an event ends the process only if it would end that client alone.  The
acceptance of a connection finds a client without one, and every other event finds one that
points to its own slot. -/
theorem handle_ends_iff (cgi : HttpHandler) (policy : StringPolicy) (unset : ℕ → ℕ × ℕ)
    (total listenFd : ℕ) (state : State)
    (hreached : (machine cgi policy unset total listenFd true).ReachedBy Reports state)
    (hphase : state.phase = .polling) (event : SocketEvent) (rest : Queues)
    (hevent : State.nextEvent state.queues = some (event, rest)) (fresh : HttpClient)
    (stray : Code) (traffic : Traffic) (fuel : ℕ) :
    ((machine cgi policy unset total listenFd true).step state
        (.handle fresh stray traffic fuel) = none ↔
      (LoneClient.machine cgi policy).runFrom (state.view event.conn)
        (observe event.conn state (.handle fresh stray traffic fuel)) = none) ∧
    state.server.status event.conn = .connected ∧
    (event.code = some .accepted ∧ (state.conn event.conn).bind Connection.conn = none ∨
      (event.code = some .read ∨ event.code = some .write) ∧
        (state.conn event.conn).bind Connection.conn = some event.conn) := by
  have hserves := Serves.of_reached hreached
  refine ⟨?_, next_addressed hserves.linked hevent⟩
  have hstep : (machine cgi policy unset total listenFd true).step state
      (.handle fresh stray traffic fuel) = state.handle cgi policy fresh stray traffic fuel := by
    change (if state.phase = .polling then _ else none) = _
    rw [if_pos hphase]
  rw [hstep]
  constructor
  · intro hends
    cases haccept : state.queues.accept with
    | cons first later =>
        have hown := hserves.steady.queued first (by rw [haccept]; exact List.mem_cons_self)
        have hcode := hserves.linked.accepted first (by rw [haccept]; exact List.mem_cons_self)
        rw [State.handle_accept haccept hcode hown.number] at hends
        cases hends
    | nil =>
        cases hqueue : state.queues.readWrite with
        | nil => simp [State.nextEvent, haccept, hqueue] at hevent
        | cons first later =>
            have hown := hserves.steady.queued first (by
              rw [haccept, hqueue]
              exact List.mem_cons_self)
            simp only [State.nextEvent, haccept, hqueue, Option.some.injEq, Prod.mk.injEq] at hevent
            obtain ⟨rfl, -⟩ := hevent
            exact (readWrite_seen hserves.linked haccept hqueue hown.number).1 hends
  · intro hends
    cases hhandle : state.handle cgi policy fresh stray traffic fuel with
    | none => rfl
    | some next =>
        have hseen := (handle_seen hserves.steady hserves.linked hhandle).2 event.conn
        rw [hends] at hseen
        cases hseen

theorem handle_ends_acceptReadEnd :
    ∃ state, (machine (fun _ response => response) .doubling (fun _ => (0, 0)) 8 3 true).run
        acceptReadEnd = some state ∧
      ((machine (fun _ response => response) .doubling (fun _ => (0, 0)) 8 3 true).step state
          (.handle (.construct [0] 0 false 0) .error ⟨[], .error, fun _ size => some size⟩ 1) =
            none ↔
        (LoneClient.machine (fun _ response => response) .doubling).runFrom (state.view 5)
          (observe 5 state (.handle (.construct [0] 0 false 0) .error
            ⟨[], .error, fun _ size => some size⟩ 1)) = none) ∧
      (state.conn 5).bind Connection.conn = some 5 := by
  obtain ⟨state, hrun⟩ : ∃ state, (machine (fun _ response => response) .doubling
      (fun _ => (0, 0)) 8 3 true).run acceptReadEnd = some state := ⟨_, rfl⟩
  obtain ⟨hphase, rest, hevent⟩ : state.phase = .polling ∧ ∃ rest,
      State.nextEvent state.queues = some (⟨some .read, 0, 5⟩, rest) := by
    cases hrun
    exact ⟨rfl, _, rfl⟩
  obtain ⟨hends, -, hconn⟩ := handle_ends_iff (fun _ response => response) .doubling
    (fun _ => (0, 0)) 8 3 state (Machine.ReachedBy.runFrom .start acceptReadEnd_admits hrun) hphase
    ⟨some .read, 0, 5⟩ rest hevent (.construct [0] 0 false 0) .error
    ⟨[], .error, fun _ size => some size⟩ 1
  refine ⟨state, hrun, hends, ?_⟩
  rcases hconn with ⟨haccepted, -⟩ | ⟨-, hbind⟩
  · cases haccepted
  · exact hbind

end HttpServer
end BackEndFacility
