import BackEndFacility.HttpServer
import BackEndFacility.SocketRegistration

/-!
# Admission control

`HttpServer::RunPoll` stops listening when more than seven eighths of the slots are in
use and starts again when no more than half of them are.  A batch holds one event of
the listening socket at most, and an accepted connection ends the polling, so between
two looks at `connNum_` one connection is accepted at most.
-/

namespace BackEndFacility
namespace HttpServer

open SocketServer

/-! ## The table of the server -/

/-- A slot that is not the listener's and holds its own number. -/
structure Own (listenFd : ℕ) (server : ServerImpl) (slot : ℕ) : Prop where
  other : slot ≠ listenFd
  number : (server.sockets slot).fd = slot

/-- The listener is registered and listens as long as it is watched; the other slots in
use are accepted connections, which `connNum_` counts. -/
structure Table (listenFd : ℕ) (watching : Bool) (server : ServerImpl) : Prop where
  watch : server.watchAccepted = true
  listener : server.status listenFd = if watching then .listening else .invalid
  registered : server.poller listenFd = none ↔ watching = false
  others : ∀ slot, slot ≠ listenFd → server.status slot ≠ .invalid →
    server.status slot = .connected ∧ (server.sockets slot).fd = slot ∧ slot ∈ server.accepted
  counted : server.Accounted

/-- No slot forgets its own number. -/
def KeepsNumbers (server next : ServerImpl) : Prop :=
  ∀ slot, (server.sockets slot).fd = slot → (next.sockets slot).fd = slot

theorem KeepsNumbers.update
    {server next : ServerImpl} {slot : ℕ} {socket : SocketConnection}
    (hsockets : next.sockets = Function.update server.sockets slot socket)
    (hnumber : (server.sockets slot).fd = slot → socket.fd = slot) :
    KeepsNumbers server next := by
  intro other hother
  rw [hsockets]
  by_cases heq : other = slot
  · subst heq
    rw [Function.update_self]
    exact hnumber hother
  · rw [Function.update_of_ne heq]
    exact hother

theorem Own.keeps
    {listenFd slot : ℕ} {server next : ServerImpl} (hown : Own listenFd server slot)
    (hkeeps : KeepsNumbers server next) : Own listenFd next slot :=
  ⟨hown.other, hkeeps slot hown.number⟩

namespace Table

variable {listenFd : ℕ} {watching : Bool} {server next : ServerImpl}

theorem update
    {slot : ℕ} {socket : SocketConnection} (htable : Table listenFd watching server)
    (hsockets : next.sockets = Function.update server.sockets slot socket)
    (hwatch : next.watchAccepted = server.watchAccepted)
    (hpoller : next.poller listenFd = none ↔ server.poller listenFd = none)
    (hslot : slot ≠ listenFd)
    (hsocket : socket.status ≠ .invalid →
      socket.status = .connected ∧ socket.fd = slot ∧ slot ∈ next.accepted)
    (haccepted : ∀ other, other ≠ slot → other ∈ server.accepted → other ∈ next.accepted)
    (hcounted : next.Accounted) : Table listenFd watching next := by
  refine ⟨hwatch.trans htable.watch, ?_, hpoller.trans htable.registered, ?_, hcounted⟩
  · have hlistener := htable.listener
    unfold ServerImpl.status at hlistener ⊢
    rw [hsockets, Function.update_of_ne hslot.symm]
    exact hlistener
  · intro other hother hvalid
    have hothers := htable.others other hother
    unfold ServerImpl.status at hvalid hothers ⊢
    rw [hsockets] at hvalid ⊢
    by_cases heq : other = slot
    · subst heq
      rw [Function.update_self] at hvalid ⊢
      exact hsocket hvalid
    · rw [Function.update_of_ne heq] at hvalid ⊢
      obtain ⟨hstatus, hnumber, hmem⟩ := hothers hvalid
      exact ⟨hstatus, hnumber, haccepted other heq hmem⟩

theorem setPoller
    {poller : SocketPoll} (htable : Table listenFd watching server)
    (hpoller : poller listenFd = none ↔ server.poller listenFd = none) :
    Table listenFd watching (server.setPoller poller) :=
  ⟨htable.watch, htable.listener, hpoller.trans htable.registered, htable.others, htable.counted⟩

theorem modify (htable : Table listenFd watching server) (fd : ℕ) :
    Table listenFd watching (server.setPoller (server.poller.modifySocket fd)) := by
  refine htable.setPoller ?_
  rw [modifySocket_apply]
  split_ifs with hfd
  · simp only [hfd.2]
  · rfl

theorem waitAll (htable : Table listenFd watching server) (batch : Batch) :
    Table listenFd watching (server.waitAll batch) :=
  htable.setPoller disarmAll_apply.1

theorem closeSocket
    {fd : ℕ} (htable : Table listenFd watching server) (hfd : fd ≠ listenFd) :
    Table listenFd watching (server.closeSocket fd).2 ∧
      KeepsNumbers server (server.closeSocket fd).2 ∧
      (server.closeSocket fd).2.connNum ≤ server.connNum := by
  have hcounted : (server.closeSocket fd).2.Accounted :=
    ServerImpl.closeSocket_accounted
      (fun hvalid _ => (htable.others fd hfd hvalid).2.2) htable.counted
  by_cases hbad : server.status fd = .invalid ∨ (server.sockets fd).fd ≠ fd
  · have hsame : (server.closeSocket fd).2 = server := by
      unfold ServerImpl.closeSocket
      rw [if_pos hbad]
    rw [hsame]
    exact ⟨htable, fun _ hnumber => hnumber, le_refl _⟩
  · have hvalid : server.status fd ≠ .invalid := fun hinvalid => hbad (.inl hinvalid)
    have hnumber : (server.sockets fd).fd = fd := not_not.mp fun hne => hbad (.inr hne)
    have hclosed : (server.closeSocket fd).2 =
        { server.resetSocketSlot fd with
          connNum := server.connNum - 1
          poller := server.poller.removeSocket fd
          accepted := server.accepted.erase fd } := by
      unfold ServerImpl.closeSocket ServerImpl.forceSocketClose
      rw [if_neg hbad]
      simp only [if_neg hvalid, hnumber]
    rw [hclosed] at hcounted ⊢
    refine ⟨htable.update rfl rfl ?_ hfd (fun hused => absurd rfl hused) ?_ hcounted, ?_, ?_⟩
    · simp only [SocketPoll.removeSocket, Function.update_of_ne hfd.symm]
    · intro other hother hmem
      exact (List.mem_erase_of_ne hother).mpr hmem
    · exact KeepsNumbers.update rfl fun hold => hold
    · exact sub_le_self _ zero_le_one

theorem relisten
    {watched : Bool} {socket : SocketConnection} (htable : Table listenFd watching server)
    (hsockets : next.sockets = Function.update server.sockets listenFd socket)
    (hstatus : socket.status = if watched then .listening else .invalid)
    (hpoller : next.poller listenFd = none ↔ watched = false)
    (hwatch : next.watchAccepted = server.watchAccepted)
    (hsame : server.SameCount next) : Table listenFd watched next := by
  refine ⟨hwatch.trans htable.watch, ?_, hpoller, fun slot hslot => ?_,
    hsame.accounted htable.counted⟩
  · unfold ServerImpl.status
    rw [hsockets, Function.update_self]
    exact hstatus
  · have hothers := htable.others slot hslot
    unfold ServerImpl.status at hothers ⊢
    rw [hsockets, Function.update_of_ne hslot, hsame.accepted_eq]
    exact hothers

theorem unwatch (htable : Table listenFd true server) :
    ∃ next, server.unwatchSocket listenFd true = (true, next) ∧ Table listenFd false next ∧
      KeepsNumbers server next ∧ next.connNum = server.connNum := by
  have hvalid : server.status listenFd ≠ .invalid := by
    rw [htable.listener]
    decide
  refine ⟨(server.resetSocketSlot listenFd).setPoller (server.poller.removeSocket listenFd),
    ?_, htable.relisten rfl rfl ?_ rfl ⟨rfl, rfl⟩, KeepsNumbers.update rfl fun hold => hold, rfl⟩
  · unfold ServerImpl.unwatchSocket
    rw [if_neg hvalid]
    rfl
  · simp only [ServerImpl.setPoller, SocketPoll.removeSocket, Function.update_self]

theorem watchAgain (htable : Table listenFd false server) :
    ∃ next, server.watchRawSocket listenFd true true = (true, next) ∧
      Table listenFd true next ∧ KeepsNumbers server next ∧ next.connNum = server.connNum := by
  have hinvalid : ¬ server.status listenFd ≠ .invalid := not_not.mpr htable.listener
  have hwatched : server.watchRawSocket listenFd true true =
      (true, (server.setSocket listenFd
        ⟨listenFd, .listening, (server.sockets listenFd).opaqueValue⟩).setPoller
          (server.poller.addSocket listenFd)) := by
    unfold ServerImpl.watchRawSocket
    rw [if_neg hinvalid]
    rfl
  refine ⟨_, hwatched, htable.relisten rfl rfl ?_ rfl ⟨rfl, rfl⟩,
    KeepsNumbers.update rfl fun _ => rfl, rfl⟩
  simp only [ServerImpl.setPoller, SocketPoll.addSocket, Function.update_self, reduceCtorEq]

end Table

/-! ## A batch -/

section Batches

variable {listenFd : ℕ} {watching : Bool} {server next : ServerImpl} {queues after : Queues}

theorem handleAcceptReady_table
    {listener conn : ℕ} {client : Option ℕ} {added : Bool} {code : Code}
    (htable : Table listenFd watching server) (hclient : client ≠ some listenFd)
    (haccept : server.handleAcceptReady listener client added = some (code, conn, next)) :
    (code ≠ .succ ∧ next = server) ∨
      (code = .succ ∧ Table listenFd watching next ∧ KeepsNumbers server next ∧
        Own listenFd next conn ∧ next.connNum = server.connNum + 1) := by
  have hcounted : next.Accounted :=
    ServerImpl.handleAcceptReady_accounted haccept htable.counted
  cases client with
  | none =>
      cases haccept
      exact .inl ⟨nofun, rfl⟩
  | some fd =>
      have hother : fd ≠ listenFd := fun heq => hclient (congrArg some heq)
      simp only [ServerImpl.handleAcceptReady] at haccept
      split at haccept
      · cases haccept
      · rename_i ready hsetup
        have hready := setupSocketConnection_polled htable.watch hsetup
        simp only [Option.some.injEq, Prod.mk.injEq] at haccept
        obtain ⟨hcode, hconn, hnext⟩ := haccept
        have hsockets : next.sockets = Function.update server.sockets fd
            ⟨fd, .connected, (server.sockets listener).opaqueValue⟩ := by
          rw [← hnext, hready]
          simp [htable.watch, ServerImpl.setStatus, ServerImpl.setSocket, ServerImpl.setPoller]
        have hpoller : next.poller = Function.update server.poller fd (some true) := by
          rw [← hnext, hready]
          rfl
        have haccepted : next.accepted = fd :: server.accepted := by
          rw [← hnext, hready]
          rfl
        refine .inr ⟨hcode.symm, htable.update hsockets ?_ ?_ hother ?_ ?_ hcounted,
          KeepsNumbers.update hsockets fun _ => rfl, ?_, ?_⟩
        · rw [← hnext, hready]
          rfl
        · rw [hpoller, Function.update_of_ne hother.symm]
        · intro _
          rw [haccepted]
          exact ⟨rfl, rfl, List.mem_cons_self⟩
        · intro other _ hmem
          rw [haccepted]
          exact List.mem_cons_of_mem fd hmem
        · rw [← hconn]
          refine ⟨hother, ?_⟩
          rw [hsockets, Function.update_self]
        · rw [← hnext, hready]
          rfl

/-- No event that is queued is one of the listener. -/
def Queued (listenFd : ℕ) (server : ServerImpl) (queues : Queues) : Prop :=
  ∀ event ∈ queues.accept ++ queues.readWrite, Own listenFd server event.conn

theorem Queued.keeps
    (hqueued : Queued listenFd server queues) (hkeeps : KeepsNumbers server next) :
    Queued listenFd next queues :=
  fun event hevent => (hqueued event hevent).keeps hkeeps

theorem Queued.pushAccept
    {event : SocketEvent} (hqueued : Queued listenFd server queues)
    (hown : Own listenFd server event.conn) :
    Queued listenFd server (queues.pushAccept event) := by
  intro other hother
  simp only [Queues.pushAccept, List.mem_append, List.mem_singleton] at hother
  rcases hother with (hold | rfl) | hold
  · exact hqueued other (List.mem_append_left _ hold)
  · exact hown
  · exact hqueued other (List.mem_append_right _ hold)

theorem Queued.pushReadWrite
    {event : SocketEvent} (hqueued : Queued listenFd server queues)
    (hown : Own listenFd server event.conn) :
    Queued listenFd server (queues.pushReadWrite event) := by
  intro other hother
  simp only [Queues.pushReadWrite, List.mem_append, List.mem_singleton] at hother
  rcases hother with hold | hold | rfl
  · exact hqueued other (List.mem_append_left _ hold)
  · exact hqueued other (List.mem_append_right _ hold)
  · exact hown

theorem Table.used
    {slot : ℕ} (htable : Table listenFd watching server)
    (hvalid : server.status slot ≠ .invalid) (hlistening : server.status slot ≠ .listening) :
    server.status slot = .connected ∧ Own listenFd server slot := by
  have hslot : slot ≠ listenFd := by
    rintro rfl
    have hlistener := htable.listener
    cases watching with
    | true => exact hlistening hlistener
    | false => exact hvalid hlistener
  obtain ⟨hstatus, hnumber, -⟩ := htable.others slot hslot hvalid
  exact ⟨hstatus, hslot, hnumber⟩

theorem Table.listens
    {slot : ℕ} (htable : Table listenFd watching server)
    (hlistening : server.status slot = .listening) : slot = listenFd ∧ watching = true := by
  have hslot : slot = listenFd := by
    by_contra hother
    have hvalid : server.status slot ≠ .invalid := by
      rw [hlistening]
      decide
    have hconnected := (htable.others slot hother hvalid).1
    rw [hlistening] at hconnected
    cases hconnected
  refine ⟨hslot, ?_⟩
  have hlistener := htable.listener
  rw [← hslot, hlistening] at hlistener
  cases watching with
  | true => rfl
  | false => cases hlistener

/-- No connection is accepted, or one is and it is queued. -/
def Accepts (watching : Bool) (server : ServerImpl) (queues : Queues) (heard : Prop)
    (next : ServerImpl) (after : Queues) : Prop :=
  (after.accept = queues.accept ∧ next.connNum = server.connNum) ∨
    (heard ∧ watching = true ∧ after.accept ≠ [] ∧ next.connNum = server.connNum + 1)

theorem handleEvent_table
    {self : ℕ} {event : PollEvent} {answer : Answer}
    (htable : Table listenFd watching server) (hqueued : Queued listenFd server queues)
    (hclient : answer.client ≠ some listenFd)
    (hevent : server.handleEvent self queues event answer = some (after, next)) :
    Table listenFd watching next ∧ KeepsNumbers server next ∧ Queued listenFd next after ∧
      Accepts watching server queues (event.data = listenFd) next after := by
  have hsame : KeepsNumbers server server := fun _ hnumber => hnumber
  unfold ServerImpl.handleEvent at hevent
  cases hstatus : server.status event.data with
  | invalid =>
      simp only [hstatus] at hevent
      cases hevent
      exact ⟨htable, hsame, hqueued, .inl ⟨rfl, rfl⟩⟩
  | connected =>
      have hused := (htable.used (by rw [hstatus]; decide) (by rw [hstatus]; decide)).2
      simp only [hstatus] at hevent
      cases hevent
      exact ⟨htable, hsame, hqueued.pushReadWrite hused, .inl ⟨rfl, rfl⟩⟩
  | connecting =>
      have hused := (htable.used (by rw [hstatus]; decide) (by rw [hstatus]; decide)).1
      rw [hstatus] at hused
      cases hused
  | paccept =>
      have hused := (htable.used (by rw [hstatus]; decide) (by rw [hstatus]; decide)).1
      rw [hstatus] at hused
      cases hused
  | listening =>
      obtain ⟨hlistener, hwatching⟩ := htable.listens hstatus
      simp only [hstatus] at hevent
      split at hevent
      · cases hevent
      · rename_i conn accepted haccept
        cases hevent
        rcases handleAcceptReady_table htable hclient haccept with
          ⟨hcode, -⟩ | ⟨-, hnext, hkeeps, hown, hcount⟩
        · exact absurd rfl hcode
        · refine ⟨hnext, hkeeps, (hqueued.keeps hkeeps).pushAccept hown, .inr ⟨hlistener,
            hwatching, ?_, hcount⟩⟩
          exact List.append_ne_nil_of_right_ne_nil _ (List.cons_ne_nil _ _)
      · rename_i code conn accepted hcode haccept
        cases hevent
        rcases handleAcceptReady_table htable hclient haccept with
          ⟨-, rfl⟩ | ⟨hsucc, -⟩
        · exact ⟨htable, hsame, hqueued, .inl ⟨rfl, rfl⟩⟩
        · exact absurd hsucc hcode

theorem handleEvents_table
    {self : ℕ} {batch : Batch}
    (htable : Table listenFd watching server) (hqueued : Queued listenFd server queues)
    (hclients : ∀ delivered ∈ batch, delivered.2.client ≠ some listenFd)
    (hdistinct : (batch.map fun delivered => delivered.1.data).Nodup)
    (hevents : ServerImpl.handleEvents self queues server batch = some (after, next)) :
    Table listenFd watching next ∧ KeepsNumbers server next ∧ Queued listenFd next after ∧
      Accepts watching server queues
        (listenFd ∈ batch.map fun delivered => delivered.1.data) next after := by
  induction batch generalizing queues server with
  | nil =>
      cases hevents
      exact ⟨htable, fun _ hnumber => hnumber, hqueued, .inl ⟨rfl, rfl⟩⟩
  | cons delivered rest ih =>
      obtain ⟨event, answer⟩ := delivered
      rw [List.map_cons, List.nodup_cons] at hdistinct
      simp only [ServerImpl.handleEvents] at hevents
      split at hevents
      · cases hevents
      · rename_i middle server' hevent
        obtain ⟨hfirst, hkeeps, hmiddle, haccepts⟩ := handleEvent_table htable hqueued
          (hclients (event, answer) List.mem_cons_self) hevent
        obtain ⟨hnext, hkeeps', hafter, haccepts'⟩ := ih hfirst hmiddle
          (fun other hother => hclients other (List.mem_cons_of_mem _ hother)) hdistinct.2 hevents
        refine ⟨hnext, fun slot hnumber => hkeeps' slot (hkeeps slot hnumber), hafter, ?_⟩
        rcases haccepts with ⟨hqueue, hcount⟩ | ⟨hheard, hwatching, hnonempty, hcount⟩
        · rcases haccepts' with ⟨hqueue', hcount'⟩ | ⟨hheard, hwatching, hnonempty, hcount'⟩
          · exact .inl ⟨hqueue'.trans hqueue, hcount'.trans hcount⟩
          · exact .inr ⟨List.mem_cons_of_mem _ hheard, hwatching, hnonempty, by omega⟩
        · rcases haccepts' with ⟨hqueue', hcount'⟩ | ⟨hheard', -⟩
          · refine .inr ⟨?_, hwatching, ?_, by omega⟩
            · rw [List.map_cons, ← hheard]
              exact List.mem_cons_self
            · rw [hqueue']
              exact hnonempty
          · rw [← hheard] at hheard'
            exact absurd hheard' hdistinct.1

end Batches

/-! ## Handling an event -/

/-- The clients point to slots of their own. -/
def Held (listenFd : ℕ) (server : ServerImpl) (conn : ℕ → Option Connection) : Prop :=
  ∀ id connection slot, conn id = some connection → connection.conn = some slot →
    Own listenFd server slot

theorem Held.keeps
    {listenFd : ℕ} {server next : ServerImpl} {conn : ℕ → Option Connection}
    (hheld : Held listenFd server conn) (hkeeps : KeepsNumbers server next) :
    Held listenFd next conn :=
  fun id connection slot hfound hslot => (hheld id connection slot hfound hslot).keeps hkeeps

theorem Held.set
    {listenFd id : ℕ} {server : ServerImpl} {conn : ℕ → Option Connection}
    {connection : Connection} (hheld : Held listenFd server conn)
    (hown : ∀ slot, connection.conn = some slot → Own listenFd server slot) :
    Held listenFd server (Function.update conn id (some connection)) := by
  intro other found slot hfound hslot
  by_cases heq : other = id
  · subst heq
    rw [Function.update_self] at hfound
    cases hfound
    exact hown slot hslot
  · rw [Function.update_of_ne heq] at hfound
    exact hheld other found slot hfound hslot

/-- What handling an event keeps of the loop and the server. -/
structure Handles (state next : State) : Prop where
  phase_eq : next.phase = state.phase
  watching_eq : next.watching = state.watching
  listenFd_eq : next.listenFd = state.listenFd
  queues_eq : next.queues = state.queues
  table : Table state.listenFd state.watching next.server
  keeps : KeepsNumbers state.server next.server
  connNum_le : next.server.connNum ≤ state.server.connNum
  held : Held state.listenFd next.server next.conn

namespace Handles

variable {cgi : HttpHandler} {policy : StringPolicy} {state next : State}

theorem setConn
    {id : ℕ} {connection : Connection}
    (htable : Table state.listenFd state.watching state.server)
    (hheld : Held state.listenFd state.server state.conn)
    (hown : ∀ slot, connection.conn = some slot → Own state.listenFd state.server slot) :
    Handles state (state.setConn id connection) :=
  ⟨rfl, rfl, rfl, rfl, htable, fun _ hnumber => hnumber, le_refl _, hheld.set hown⟩

theorem setServer
    {id : ℕ} {connection : Connection} {server : ServerImpl}
    (htable : Table state.listenFd state.watching server)
    (hkeeps : KeepsNumbers state.server server)
    (hcount : server.connNum ≤ state.server.connNum)
    (hheld : Held state.listenFd state.server state.conn)
    (hown : ∀ slot, connection.conn = some slot → Own state.listenFd state.server slot) :
    Handles state ((state.setServer server).setConn id connection) := by
  refine ⟨rfl, rfl, rfl, rfl, htable, hkeeps, hcount, ?_⟩
  exact (hheld.keeps hkeeps).set fun slot hslot => (hown slot hslot).keeps hkeeps

theorem processEvent
    {id : ℕ} {connection : Connection} {code : SocketCode} {traffic : Traffic} {fuel : ℕ}
    (htable : Table state.listenFd state.watching state.server)
    (hheld : Held state.listenFd state.server state.conn)
    (hown : ∀ slot, connection.conn = some slot → Own state.listenFd state.server slot)
    (hevent : state.processEvent cgi policy id connection code traffic fuel = some next) :
    Handles state next := by
  unfold State.processEvent at hevent
  split at hevent
  · cases hevent
  · rename_i ending session hsession
    split_ifs at hevent
    cases ending with
    | crashed => cases hevent
    | done =>
        cases hevent
        unfold State.rearm
        split
        · exact setConn htable hheld hown
        · rename_i slot hslot
          split_ifs
          · exact setConn htable hheld hown
          · exact setServer (htable.modify _) (fun _ hnumber => hnumber) (le_refl _) hheld hown
    | closed =>
        unfold State.closeConnection at hevent
        cases hconn : connection.conn with
        | none =>
            rw [hconn] at hevent
            cases hevent
        | some slot =>
            have hslot := hown slot hconn
            rw [hconn] at hevent
            simp only [hslot.number] at hevent
            cases hevent
            obtain ⟨hclosed, hkeeps, hcount⟩ := htable.closeSocket hslot.other
            exact setServer hclosed hkeeps hcount hheld fun _ hnone => nomatch hnone

theorem pollHandler
    {event : SocketEvent} {fresh : HttpClient} {stray : Code} {traffic : Traffic} {fuel : ℕ}
    (htable : Table state.listenFd state.watching state.server)
    (hheld : Held state.listenFd state.server state.conn)
    (hevent : Own state.listenFd state.server event.conn)
    (hhandler : state.pollHandler cgi policy event fresh stray traffic fuel = some next) :
    Handles state next := by
  have hown : ∀ id slot, (state.connection id fresh).conn = some slot →
      Own state.listenFd state.server slot := by
    intro id slot hslot
    unfold State.connection at hslot
    cases hfound : state.conn id with
    | none =>
        rw [hfound] at hslot
        cases hslot
    | some found =>
        rw [hfound] at hslot
        exact hheld id found slot hfound hslot
  unfold State.pollHandler at hhandler
  simp only at hhandler
  split at hhandler
  · exact processEvent htable hheld (hown _) hhandler
  · exact processEvent htable hheld (hown _) hhandler
  · cases hhandler
    refine setConn htable hheld fun slot hslot => ?_
    cases hslot
    exact hevent
  · cases hhandler
    rw [hevent.number]
    obtain ⟨hclosed, hkeeps, hcount⟩ := htable.closeSocket hevent.other
    exact setServer hclosed hkeeps hcount hheld (hown _)
  all_goals
    cases hhandler
    exact setConn htable hheld (hown _)

end Handles

/-! ## Whole runs -/

/-- `epoll_ctl` succeeds, no descriptor is delivered twice in a batch, and `accept4` does
not return the listening socket, which is open. -/
def Succeeds (state : State) : Action → Prop
  | .throttle removed added => removed = true ∧ added = true
  | .poll batch =>
      (batch.map fun delivered => delivered.1.data).Nodup ∧
        ∀ delivered ∈ batch, delivered.2.client ≠ some state.listenFd
  | .handle _ _ _ _ => True

/-- The number of connections above which the server stops listening. -/
def limit (total : ℕ) : ℤ :=
  total - total / 8

theorem half_le_limit (total : ℕ) : (total / 2 : ℤ) ≤ limit total := by
  unfold limit
  omega

/-- The invariant of the loop: while it listens, and until a connection is accepted, the
limit is not exceeded. -/
structure Steady (total : ℕ) (state : State) : Prop where
  table : Table state.listenFd state.watching state.server
  queued : Queued state.listenFd state.server state.queues
  held : Held state.listenFd state.server state.conn
  bound : state.server.connNum ≤ limit total + 1
  listening : state.phase = .polling → state.watching = true → state.queues.accept = [] →
    state.server.connNum ≤ limit total

namespace Steady

variable {cgi : HttpHandler} {policy : StringPolicy} {total : ℕ} {state next : State}

theorem start (unset : ℕ → ℕ × ℕ) (total listenFd : ℕ) :
    Steady total (start unset total listenFd true) := by
  have hbound : (0 : ℤ) ≤ limit total := by
    unfold limit
    omega
  have hunused : Table listenFd false
      ((ServerImpl.construct total unset).setWatchAcceptedSock true) :=
    ⟨rfl, rfl, ⟨fun _ => rfl, fun _ => rfl⟩, fun _ _ hused => absurd rfl hused, rfl⟩
  have htable : Table listenFd true
      ((((ServerImpl.construct total unset).setSocket listenFd
        ⟨listenFd, .listening, (unset listenFd).2⟩).setPoller
          ((ServerImpl.construct total unset).poller.addSocket listenFd)).setWatchAcceptedSock
            true) := by
    refine hunused.relisten rfl rfl ?_ rfl ⟨rfl, rfl⟩
    simp only [ServerImpl.setWatchAcceptedSock, ServerImpl.setPoller, SocketPoll.addSocket,
      Function.update_self, reduceCtorEq]
  exact
    { table := htable
      queued := fun _ hevent => absurd hevent List.not_mem_nil
      held := fun _ _ _ hnone => absurd hnone (Option.some_ne_none _).symm
      bound := hbound.trans (Int.le_add_of_nonneg_right zero_le_one)
      listening := fun _ _ _ => hbound }

theorem throttle
    (hsteady : Steady total state) :
    Steady total { state.throttle total true true with phase := .polling } := by
  have hhalf := half_le_limit total
  unfold State.throttle
  by_cases hfull : state.watching = true ∧ (total - total / 8 : ℤ) < state.server.connNum
  · rw [if_pos hfull]
    have htable := hsteady.table
    rw [hfull.1] at htable
    obtain ⟨server, hunwatch, hunwatched, hkeeps, hcount⟩ := htable.unwatch
    simp only [hunwatch]
    refine ⟨hunwatched, hsteady.queued.keeps hkeeps, ?_, ?_, fun _ hwatching => nomatch hwatching⟩
    · exact hsteady.held.keeps hkeeps
    · rw [hcount]
      exact hsteady.bound
  rw [if_neg hfull]
  by_cases hidle : state.watching = false ∧ state.server.connNum ≤ (total / 2 : ℤ)
  · rw [if_pos hidle]
    have htable := hsteady.table
    rw [hidle.1] at htable
    obtain ⟨server, hwatch, hwatched, hkeeps, hcount⟩ := htable.watchAgain
    simp only [hwatch]
    refine ⟨hwatched, hsteady.queued.keeps hkeeps, ?_, ?_, fun _ _ _ => ?_⟩
    · exact hsteady.held.keeps hkeeps
    · rw [hcount]
      exact hsteady.bound
    · rw [hcount]
      exact hidle.2.trans hhalf
  · rw [if_neg hidle]
    refine ⟨hsteady.table, hsteady.queued, hsteady.held, hsteady.bound, fun _ hwatching _ => ?_⟩
    exact not_lt.mp fun hless => hfull ⟨hwatching, hless⟩

theorem poll
    {batch : Batch} (hsteady : Steady total state) (hphase : state.phase = .polling)
    (hdistinct : (batch.map fun delivered => delivered.1.data).Nodup)
    (hclients : ∀ delivered ∈ batch, delivered.2.client ≠ some state.listenFd)
    (hpoll : state.poll batch = some next) : Steady total next := by
  unfold State.poll at hpoll
  split_ifs at hpoll with hready
  split at hpoll
  · cases hpoll
  · rename_i queues server hevents
    cases hpoll
    obtain ⟨htable, hkeeps, hqueued, haccepts⟩ := handleEvents_table
      (hsteady.table.waitAll batch) (hsteady.queued.keeps fun _ hnumber => hnumber) hclients
      hdistinct hevents
    have hempty : state.queues.accept = [] := by
      rw [hready.1]
    have hbound := hsteady.bound
    have hcounts : server.connNum = state.server.connNum ∨
        (state.watching = true ∧ queues.accept ≠ [] ∧
          server.connNum = state.server.connNum + 1) := by
      rcases haccepts with ⟨-, hcount⟩ | ⟨-, hwatching, hnonempty, hcount⟩
      · exact .inl hcount
      · exact .inr ⟨hwatching, hnonempty, hcount⟩
    refine ⟨htable, hqueued, ?_, ?_, fun _ hwatching hqueue => ?_⟩
    · exact hsteady.held.keeps hkeeps
    · rcases hcounts with hcount | ⟨hwatching, -, hcount⟩
      · exact hcount.le.trans hbound
      · have hlimit := hsteady.listening hphase hwatching hempty
        exact hcount.le.trans (Int.add_le_add_right hlimit 1)
    · rcases hcounts with hcount | ⟨-, hnonempty, -⟩
      · exact hcount.le.trans (hsteady.listening hphase hwatching hempty)
      · exact absurd hqueue hnonempty

theorem nextEvent_mem
    {queues rest : Queues} {event : SocketEvent}
    (hnext : State.nextEvent queues = some (event, rest)) :
    event ∈ queues.accept ++ queues.readWrite ∧
      ∀ other ∈ rest.accept ++ rest.readWrite, other ∈ queues.accept ++ queues.readWrite := by
  unfold State.nextEvent at hnext
  split at hnext
  · rename_i first later haccept
    cases hnext
    rw [haccept]
    exact ⟨List.mem_cons_self, fun other hother => List.mem_cons_of_mem _ hother⟩
  · rename_i haccept
    split at hnext
    · rename_i first later hreadWrite
      cases hnext
      rw [haccept, hreadWrite]
      refine ⟨List.mem_cons_self, fun other hother => ?_⟩
      exact List.mem_cons_of_mem _ hother
    · cases hnext

theorem handle
    {fresh : HttpClient} {stray : Code} {traffic : Traffic} {fuel : ℕ}
    (hsteady : Steady total state)
    (hhandle : state.handle cgi policy fresh stray traffic fuel = some next) :
    Steady total next := by
  unfold State.handle at hhandle
  split at hhandle
  · cases hhandle
  · rename_i event queues hnext
    obtain ⟨hevent, hrest⟩ := nextEvent_mem hnext
    have hhandles := @Handles.pollHandler cgi policy
      { state with phase := .checking, queues := queues } next event fresh stray traffic fuel
      hsteady.table hsteady.held (hsteady.queued event hevent) hhandle
    have hbound := hsteady.bound
    have hcount := hhandles.connNum_le
    have hphase : next.phase = .checking := hhandles.phase_eq
    have hlistenFd : next.listenFd = state.listenFd := hhandles.listenFd_eq
    have hwatching : next.watching = state.watching := hhandles.watching_eq
    have hqueues : next.queues = queues := hhandles.queues_eq
    refine ⟨?_, ?_, ?_, hcount.trans hbound, fun hpolling => ?_⟩
    · rw [hlistenFd, hwatching]
      exact hhandles.table
    · rw [hlistenFd, hqueues]
      exact fun other hother => (hsteady.queued other (hrest other hother)).keeps hhandles.keeps
    · rw [hlistenFd]
      exact hhandles.held
    · rw [hphase] at hpolling
      cases hpolling

theorem step
    {action : Action} (hsteady : Steady total state) (hsucceeds : Succeeds state action)
    (hstep : state.step cgi policy total action = some next) : Steady total next := by
  cases action with
  | throttle removed added =>
      obtain ⟨rfl, rfl⟩ := hsucceeds
      simp only [State.step] at hstep
      split_ifs at hstep
      cases hstep
      exact hsteady.throttle
  | poll batch =>
      simp only [State.step] at hstep
      split_ifs at hstep with hphase
      exact hsteady.poll hphase hsucceeds.1 hsucceeds.2 hstep
  | handle fresh stray traffic fuel =>
      simp only [State.step] at hstep
      split_ifs at hstep
      exact hsteady.handle hstep

end Steady

/-- The next check of `connNum_` adds the listening socket to the poller. -/
def State.AddsListener (total : ℕ) (state : State) : Prop :=
  state.phase = .checking ∧ state.watching = false ∧
    state.server.connNum ≤ (total / 2 : ℤ) ∧ state.server.status state.listenFd = .invalid

/-- The listener listens while it is watched and is not added twice, and the number of
connections exceeds the limit by one at most. -/
structure Admission (total : ℕ) (state : State) : Prop where
  watching_iff : state.watching = true ↔ state.server.status state.listenFd = .listening
  added_once : state.AddsListener total → state.server.poller state.listenFd = none
  connections : state.server.connNum = state.server.accepted.length
  bounded : state.server.connNum ≤ (total : ℤ) - total / 8 + 1

theorem Steady.admission {total : ℕ} {state : State} (hsteady : Steady total state) :
    Admission total state := by
  refine ⟨?_, fun hadds => hsteady.table.registered.mpr hadds.2.1, hsteady.table.counted,
    hsteady.bound⟩
  rw [hsteady.table.listener]
  cases state.watching with
  | true => exact ⟨fun _ => rfl, fun _ => rfl⟩
  | false =>
      constructor
      · intro hfalse
        cases hfalse
      · intro hinvalid
        cases hinvalid

/-- Admission control holds throughout every run of `RunPoll`. -/
theorem admission_of_succeeds
    {cgi : HttpHandler} {policy : StringPolicy} {unset : ℕ → ℕ × ℕ} {total listenFd : ℕ}
    {state : State}
    (hreached : (machine cgi policy unset total listenFd true).ReachedBy Succeeds state) :
    Admission total state := by
  have hsteady : Steady total state :=
    hreached.invariant (Steady total) (.start unset total listenFd)
      (fun _ _ _ hsteady hsucceeds hstep => hsteady.step hsucceeds hstep)
  exact hsteady.admission

/-- A connection is accepted and read from; there is room for more. -/
def acceptAndServe : List Action :=
  [.throttle true true, .poll [(⟨3, true, false⟩, ⟨some 5, true, true⟩)],
    .handle (.construct [0] 0 false 0) .error .quiet 1, .throttle true true,
    .poll [(⟨5, true, false⟩, ⟨none, true, true⟩)],
    .handle (.construct [0] 0 false 0) .error .quiet 1, .throttle true true]

theorem admission_acceptAndServe :
    ∃ state, (machine (fun _ response => response) .doubling (fun _ => (0, 0)) 16 3 true).run
        acceptAndServe = some state ∧
      state.watching = true ∧ state.server.connNum = 1 ∧ Admission 16 state := by
  have hpolls : ∀ (state : State) event, state.listenFd = 3 →
      Succeeds state (.poll [(event, ⟨some 5, true, true⟩)]) ∧
        Succeeds state (.poll [(event, ⟨none, true, true⟩)]) := by
    intro state event hlistenFd
    refine ⟨⟨List.nodup_singleton _, ?_⟩, List.nodup_singleton _, ?_⟩
    · intro delivered hdelivered
      rw [List.mem_singleton.mp hdelivered, hlistenFd]
      simp
    · intro delivered hdelivered
      rw [List.mem_singleton.mp hdelivered, hlistenFd]
      simp
  have hreached : ∀ state, (machine (fun _ response => response) .doubling (fun _ => (0, 0)) 16 3
        true).run acceptAndServe = some state →
      (machine (fun _ response => response) .doubling (fun _ => (0, 0)) 16 3 true).ReachedBy
        Succeeds state := by
    intro state hrun
    refine Machine.ReachedBy.runFrom .start ?_ hrun
    refine ⟨⟨rfl, rfl⟩, fun _ hfirst => ?_⟩
    cases hfirst
    refine ⟨(hpolls _ _ rfl).1, fun _ hpoll => ?_⟩
    cases hpoll
    refine ⟨trivial, fun _ haccept => ?_⟩
    cases haccept
    refine ⟨⟨rfl, rfl⟩, fun _ hsecond => ?_⟩
    cases hsecond
    refine ⟨(hpolls _ _ rfl).2, fun _ hready => ?_⟩
    cases hready
    refine ⟨trivial, fun _ hread => ?_⟩
    cases hread
    exact ⟨⟨rfl, rfl⟩, fun _ _ => trivial⟩
  obtain ⟨state, hrun, hwatching, hconnNum⟩ : ∃ state,
      (machine (fun _ response => response) .doubling (fun _ => (0, 0)) 16 3 true).run
        acceptAndServe = some state ∧ state.watching = true ∧ state.server.connNum = 1 :=
    ⟨_, rfl, rfl, rfl⟩
  exact ⟨state, hrun, hwatching, hconnNum, admission_of_succeeds (hreached state hrun)⟩

end HttpServer
end BackEndFacility
