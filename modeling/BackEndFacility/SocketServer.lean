import BackEndFacility.Machine
import Mathlib.Data.List.Basic
import Mathlib.Tactic

/-!
# The socket server

`ServerImpl` of `SocketServer.cc` over the poller of `SocketPoll.cc`.  A
descriptor is the number of its slot in `sockets_`.  The results of the system
calls are arguments of the operations that make them.

A failed assertion and a null pointer written through end the process.  Each of
the three callers of `SetupSocketConnection` writes through the pointer it
returns, so its failure ends the process as well.
-/

namespace BackEndFacility
namespace SocketServer

/-! ## The poller -/

/-- The descriptors in the epoll set, and whether each is armed.  All are added
with `EPOLLONESHOT`; whether `EPOLLOUT` is watched as well is left out. -/
abbrev SocketPoll := ℕ → Option Bool

namespace SocketPoll

def addSocket (poller : SocketPoll) (file : ℕ) : SocketPoll :=
  Function.update poller file (some true)

def removeSocket (poller : SocketPoll) (file : ℕ) : SocketPoll :=
  Function.update poller file none

/-- `EPOLL_CTL_MOD` fails on a descriptor that is not in the set. -/
def modifySocket (poller : SocketPoll) (file : ℕ) : SocketPoll :=
  if poller file = none then poller else Function.update poller file (some true)

/-- An event is delivered. -/
def disarm (poller : SocketPoll) (file : ℕ) : SocketPoll :=
  if poller file = none then poller else Function.update poller file (some false)

end SocketPoll

/-- An event of `epoll_wait`; `data` is the slot its pointer leads to. -/
structure PollEvent where
  data : ℕ
  read : Bool
  write : Bool
  deriving DecidableEq, Repr

/-! ## Slots and events -/

inductive SocketStatus where
  | invalid
  | listening
  | connected
  | connecting
  | paccept
  deriving DecidableEq, Repr

inductive Code where
  | read
  | write
  | connected
  | accepted
  | failConn
  | error
  | succ
  deriving DecidableEq, Repr

structure SocketConnection where
  fd : ℕ
  status : SocketStatus
  opaqueValue : ℕ
  deriving DecidableEq, Repr

/-- The event of a slot of one server.  A code that was never assigned is
`none`. -/
structure SocketEvent where
  code : Option Code
  server : ℕ
  conn : ℕ
  deriving DecidableEq, Repr

/-- The two queues with static storage in `RunPoll`. -/
structure Queues where
  accept : List SocketEvent
  readWrite : List SocketEvent
  deriving DecidableEq, Repr

/-- `accepted` lists the sockets accepted by `HandleAcceptReady` and not closed
since.  `connNum` stands for an `int`: it never exceeds the number of these sockets, one
for each descriptor, and 2^31 other sockets would have to be closed before it wraps. -/
structure ServerImpl where
  connNum : ℤ
  maxSocket : ℕ
  isRunning : Bool
  watchAccepted : Bool
  sockets : ℕ → SocketConnection
  poller : SocketPoll
  accepted : List ℕ

namespace ServerImpl

/-- A new server.  No constructor sets the descriptor and the opaque value of
its slots. -/
def construct (maxSocket : ℕ) (unset : ℕ → ℕ × ℕ) : ServerImpl where
  connNum := 0
  maxSocket := maxSocket
  isRunning := false
  watchAccepted := false
  sockets := fun slot => ⟨(unset slot).1, .invalid, (unset slot).2⟩
  poller := fun _ => none
  accepted := []

def status (server : ServerImpl) (slot : ℕ) : SocketStatus :=
  (server.sockets slot).status

def setSocket (server : ServerImpl) (slot : ℕ) (socket : SocketConnection) : ServerImpl :=
  { server with sockets := Function.update server.sockets slot socket }

def setStatus (server : ServerImpl) (slot : ℕ) (status : SocketStatus) : ServerImpl :=
  server.setSocket slot { server.sockets slot with status := status }

def setPoller (server : ServerImpl) (poller : SocketPoll) : ServerImpl :=
  { server with poller := poller }

def resetSocketSlot (server : ServerImpl) (slot : ℕ) : ServerImpl :=
  server.setStatus slot .invalid

/-! ## Closing -/

def forceSocketClose (server : ServerImpl) (slot : ℕ) : ServerImpl :=
  if server.status slot = .invalid then server
  else
    { server.resetSocketSlot slot with
      connNum := server.connNum - 1
      poller := server.poller.removeSocket (server.sockets slot).fd
      accepted := server.accepted.erase (server.sockets slot).fd }

def shutDownAllSockets (server : ServerImpl) : ServerImpl :=
  { (List.range server.maxSocket).foldl forceSocketClose server with isRunning := false }

def closeSocket (server : ServerImpl) (fd : ℕ) : Bool × ServerImpl :=
  if server.status fd = .invalid ∨ (server.sockets fd).fd ≠ fd then (false, server)
  else (true, server.forceSocketClose fd)

def startServer (server : ServerImpl) : ServerImpl :=
  if server.isRunning then server else { server with isRunning := true }

def stopServer (server : ServerImpl) : ServerImpl :=
  if server.isRunning then server.shutDownAllSockets else server

/-! ## Opening and watching -/

/-- `added` is the answer of `AddSocket`, which is asked only to `poll`. -/
def setupSocketConnection (server : ServerImpl) (fd opaqueValue : ℕ) (poll added : Bool) :
    Option ServerImpl :=
  if server.status fd = .invalid then
    let server := server.setSocket fd ⟨fd, .invalid, opaqueValue⟩
    if poll then
      if added then some (server.setPoller (server.poller.addSocket fd)) else none
    else some server
  else none

/-- `socket` is what `AllocSocketFd` found, and whether it is connected already. -/
def connectTo (server : ServerImpl) (socket : Option (ℕ × Bool)) (opaqueValue : ℕ)
    (added : Bool) : Option ServerImpl :=
  match socket with
  | none => some server
  | some (fd, done) =>
      match server.setupSocketConnection fd opaqueValue true added with
      | none => none
      | some server =>
          if done then some (server.setStatus fd .connected)
          else
            some ((server.setStatus fd .connecting).setPoller
              (server.poller.modifySocket fd))

def listenTo (server : ServerImpl) (socket : Option ℕ) (opaqueValue : ℕ) (added : Bool) :
    Option ServerImpl :=
  match socket with
  | none => some server
  | some fd =>
      match server.setupSocketConnection fd opaqueValue true added with
      | none => none
      | some server => some (server.setStatus fd .listening)

def watchSocket (server : ServerImpl) (fd : ℕ) (listen added : Bool) : Bool × ServerImpl :=
  let status := server.status fd
  if status = .paccept ∨ status = .invalid then
    if added then
      (true, (server.setStatus fd
        (if status = .paccept ∨ (listen = false ∧ status = .invalid) then .connected
          else .listening)).setPoller (server.poller.addSocket (server.sockets fd).fd))
    else (false, server.resetSocketSlot fd)
  else (false, server)

def watchRawSocket (server : ServerImpl) (fd : ℕ) (listen added : Bool) :
    Bool × ServerImpl :=
  if server.status fd ≠ .invalid then (false, server)
  else
    let server := server.setSocket fd
      { server.sockets fd with
        fd := fd
        status := if listen then .listening else .connected }
    if added then (true, server.setPoller (server.poller.addSocket fd))
    else (false, server.resetSocketSlot fd)

/-- `removed` is the answer of `RemoveSocket`. -/
def unwatchSocket (server : ServerImpl) (fd : ℕ) (removed : Bool) : Bool × ServerImpl :=
  if server.status fd = .invalid then (false, server)
  else if removed then
    (true, (server.resetSocketSlot fd).setPoller (server.poller.removeSocket fd))
  else (false, server)

def setWatchAcceptedSock (server : ServerImpl) (watch : Bool) : ServerImpl :=
  { server with watchAccepted := watch }

/-! ## Polling -/

/-- `connected` tells whether `getsockopt` found no error. -/
def handleConnectDone (server : ServerImpl) (slot : ℕ) (connected : Bool) :
    Code × ServerImpl :=
  if connected then
    (.connected, (server.setStatus slot .connected).setPoller
      (server.poller.modifySocket (server.sockets slot).fd))
  else (.failConn, server)

/-- `client` is the answer of `accept4`; the slot of the new connection comes
with `SC_SUCC`. -/
def handleAcceptReady (server : ServerImpl) (slot : ℕ) (client : Option ℕ) (added : Bool) :
    Option (Code × ℕ × ServerImpl) :=
  match client with
  | none => some (.error, slot, server)
  | some fd =>
      match { server with
          connNum := server.connNum + 1
          accepted := fd :: server.accepted }.setupSocketConnection fd
            (server.sockets slot).opaqueValue server.watchAccepted added with
      | none => none
      | some next =>
          some (.succ, fd,
            next.setStatus fd (if server.watchAccepted then .connected else .paccept))

end ServerImpl

/-- The system calls made for one event. -/
structure Answer where
  client : Option ℕ
  added : Bool
  connected : Bool
  deriving DecidableEq, Repr

/-- The events of one `epoll_wait`; none when it fails. -/
abbrev Batch := List (PollEvent × Answer)

def Queues.pushAccept (queues : Queues) (event : SocketEvent) : Queues :=
  { queues with accept := queues.accept ++ [event] }

def Queues.pushReadWrite (queues : Queues) (event : SocketEvent) : Queues :=
  { queues with readWrite := queues.readWrite ++ [event] }

/-- The code of an event that is neither an accept nor a connect. -/
def PollEvent.code (event : PollEvent) : Option Code :=
  if event.read then some .read else if event.write then some .write else none

namespace ServerImpl

/-- The body of the inner loop of `RunPoll`, run by the server numbered `self`. -/
def handleEvent (self : ℕ) (queues : Queues) (server : ServerImpl) (event : PollEvent)
    (answer : Answer) : Option (Queues × ServerImpl) :=
  match server.status event.data with
  | .connecting =>
      match server.handleConnectDone event.data answer.connected with
      | (code, server) =>
          some (queues.pushReadWrite ⟨some code, self, event.data⟩, server)
  | .listening =>
      match server.handleAcceptReady event.data answer.client answer.added with
      | none => none
      | some (.succ, conn, server) =>
          some (queues.pushAccept ⟨some .accepted, self, conn⟩, server)
      | some (_, _, server) => some (queues, server)
  | .invalid => some (queues, server)
  | .connected | .paccept =>
      some (queues.pushReadWrite ⟨event.code, self, event.data⟩, server)

def handleEvents (self : ℕ) : Queues → ServerImpl → Batch → Option (Queues × ServerImpl)
  | queues, server, [] => some (queues, server)
  | queues, server, (event, answer) :: rest =>
      match server.handleEvent self queues event answer with
      | none => none
      | some (queues, server) => handleEvents self queues server rest

/-- `WaitAll`: the kernel disarms what it delivers. -/
def waitAll (server : ServerImpl) (batch : Batch) : ServerImpl :=
  server.setPoller (batch.foldl
    (fun poller delivered => poller.disarm (server.sockets delivered.1.data).fd) server.poller)

end ServerImpl

/-! ## The process -/

/-- An event as it is handled: by whom, and in which status its slot was. -/
structure Handled where
  server : ℕ
  status : SocketStatus
  event : PollEvent
  answer : Answer
  deriving DecidableEq, Repr

/-- The events of a batch in the order in which they are handled. -/
def ServerImpl.handled (self : ℕ) (queues : Queues) : ServerImpl → Batch → List Handled
  | _, [] => []
  | server, (event, answer) :: rest =>
      ⟨self, server.status event.data, event, answer⟩ ::
        match server.handleEvent self queues event answer with
        | none => []
        | some (_, next) => next.handled self queues rest

/-- All servers of a process share the queues of `RunPoll`.  `polled` lists the
batches as they were handled, `returned` the events that `RunPoll` gave back,
each with the server that was asked. -/
structure Process where
  servers : ℕ → ServerImpl
  queues : Queues
  polled : List (List Handled)
  returned : List (ℕ × SocketEvent)
  crashed : Bool

/-- The calls other than `RunPoll`, with the answers of the system. -/
inductive Call where
  | connectTo (socket : Option (ℕ × Bool)) (opaqueValue : ℕ) (added : Bool)
  | listenTo (socket : Option ℕ) (opaqueValue : ℕ) (added : Bool)
  | watchSocket (fd : ℕ) (listen added : Bool)
  | watchRawSocket (fd : ℕ) (listen added : Bool)
  | unwatchSocket (fd : ℕ) (removed : Bool)
  | closeSocket (fd : ℕ)
  | startServer
  | stopServer
  | setWatchAcceptedSock (watch : Bool)
  deriving DecidableEq, Repr

/-- A call of a server, or one round of the loop of its `RunPoll`. -/
inductive Action where
  | call (self : ℕ) (call : Call)
  | runPoll (self : ℕ) (batch : Batch)
  deriving DecidableEq, Repr

def ServerImpl.perform (server : ServerImpl) : Call → Option ServerImpl
  | .connectTo socket opaqueValue added => server.connectTo socket opaqueValue added
  | .listenTo socket opaqueValue added => server.listenTo socket opaqueValue added
  | .watchSocket fd listen added => some (server.watchSocket fd listen added).2
  | .watchRawSocket fd listen added => some (server.watchRawSocket fd listen added).2
  | .unwatchSocket fd removed => some (server.unwatchSocket fd removed).2
  | .closeSocket fd => some (server.closeSocket fd).2
  | .startServer => some server.startServer
  | .stopServer => some server.stopServer
  | .setWatchAcceptedSock watch => some (server.setWatchAcceptedSock watch)

namespace Process

def construct (servers : ℕ → ServerImpl) : Process where
  servers := servers
  queues := ⟨[], []⟩
  polled := []
  returned := []
  crashed := false

def setServer (process : Process) (self : ℕ) (server : ServerImpl) : Process :=
  { process with servers := Function.update process.servers self server }

/-- `RunPoll` returns an event taken from the queues. -/
def giveBack (process : Process) (self : ℕ) (event : SocketEvent) (queues : Queues) : Process :=
  { process with
    queues := queues
    returned := process.returned ++ [(self, event)] }

/-- The part of a round that asks the poller. -/
def poll (process : Process) (self : ℕ) (batch : Batch) : Process :=
  let server := (process.servers self).waitAll batch
  let process :=
    { process with polled := process.polled ++ [server.handled self process.queues batch] }
  match server.handleEvents self process.queues batch with
  | none => { process with crashed := true }
  | some (queues, server) => { process.setServer self server with queues := queues }

def runPoll (process : Process) (self : ℕ) (batch : Batch) : Process :=
  match process.queues.accept with
  | event :: rest => process.giveBack self event { process.queues with accept := rest }
  | [] =>
      match process.queues.readWrite with
      | event :: rest => process.giveBack self event { process.queues with readWrite := rest }
      | [] => process.poll self batch

def step (process : Process) : Action → Option Process
  | .call self call =>
      if process.crashed then none
      else
        match (process.servers self).perform call with
        | none => some { process with crashed := true }
        | some server => some (process.setServer self server)
  | .runPoll self batch =>
      if process.crashed then none else some (process.runPoll self batch)

end Process

/-- `unset` is what the slots of each server hold before they are used. -/
def machine (maxSocket : ℕ) (unset : ℕ → ℕ → ℕ × ℕ) : Machine Process Action where
  start := .construct fun self => .construct maxSocket (unset self)
  step := Process.step

/-! ## Connection accounting -/

/-- `connNum_` is the number of accepted sockets that are still open. -/
def ServerImpl.Accounted (server : ServerImpl) : Prop :=
  server.connNum = server.accepted.length

/-- Every slot that is closed in turn holds an accepted socket. -/
def ServerImpl.ShutsAccepted : ServerImpl → List ℕ → Prop
  | _, [] => True
  | server, slot :: rest =>
      (server.status slot = .invalid ∨ (server.sockets slot).fd ∈ server.accepted) ∧
        (server.forceSocketClose slot).ShutsAccepted rest

/-- What `CloseSocket` and `StopServer` close was accepted by the same server. -/
def ClosesAccepted (process : Process) : Action → Prop
  | .call self (.closeSocket fd) =>
      (process.servers self).status fd ≠ .invalid →
        ((process.servers self).sockets fd).fd = fd →
          fd ∈ (process.servers self).accepted
  | .call self .stopServer =>
      (process.servers self).isRunning →
        (process.servers self).ShutsAccepted (List.range (process.servers self).maxSocket)
  | _ => True

namespace ServerImpl

variable {server next : ServerImpl}

/-- An operation that neither accepts nor closes a socket. -/
structure SameCount (server next : ServerImpl) : Prop where
  connNum_eq : next.connNum = server.connNum
  accepted_eq : next.accepted = server.accepted

theorem SameCount.accounted
    (hsame : server.SameCount next)
    (haccounted : server.Accounted) :
    next.Accounted := by
  unfold Accounted at haccounted ⊢
  rw [hsame.connNum_eq, hsame.accepted_eq]
  exact haccounted

theorem setupSocketConnection_sameCount
    {fd opaqueValue : ℕ} {poll added : Bool}
    (hsetup : server.setupSocketConnection fd opaqueValue poll added = some next) :
    server.SameCount next := by
  unfold setupSocketConnection at hsetup
  split_ifs at hsetup
  all_goals
    cases hsetup
    exact ⟨rfl, rfl⟩

theorem connectTo_sameCount
    {socket : Option (ℕ × Bool)} {opaqueValue : ℕ} {added : Bool}
    (hconnect : server.connectTo socket opaqueValue added = some next) :
    server.SameCount next := by
  cases socket with
  | none =>
      cases hconnect
      exact ⟨rfl, rfl⟩
  | some found =>
      simp only [connectTo] at hconnect
      cases hsetup : server.setupSocketConnection found.1 opaqueValue true added with
      | none => simp [hsetup] at hconnect
      | some ready =>
          have hsame := setupSocketConnection_sameCount hsetup
          simp only [hsetup] at hconnect
          split_ifs at hconnect
          all_goals
            cases hconnect
            exact ⟨hsame.connNum_eq, hsame.accepted_eq⟩

theorem listenTo_sameCount
    {socket : Option ℕ} {opaqueValue : ℕ} {added : Bool}
    (hlisten : server.listenTo socket opaqueValue added = some next) :
    server.SameCount next := by
  cases socket with
  | none =>
      cases hlisten
      exact ⟨rfl, rfl⟩
  | some fd =>
      simp only [listenTo] at hlisten
      cases hsetup : server.setupSocketConnection fd opaqueValue true added with
      | none => simp [hsetup] at hlisten
      | some ready =>
          have hsame := setupSocketConnection_sameCount hsetup
          simp only [hsetup] at hlisten
          cases hlisten
          exact ⟨hsame.connNum_eq, hsame.accepted_eq⟩

theorem watchSocket_sameCount (server : ServerImpl) (fd : ℕ) (listen added : Bool) :
    server.SameCount (server.watchSocket fd listen added).2 := by
  unfold watchSocket
  simp only
  split_ifs
  all_goals exact ⟨rfl, rfl⟩

theorem watchRawSocket_sameCount (server : ServerImpl) (fd : ℕ) (listen added : Bool) :
    server.SameCount (server.watchRawSocket fd listen added).2 := by
  unfold watchRawSocket
  simp only
  split_ifs
  all_goals exact ⟨rfl, rfl⟩

theorem unwatchSocket_sameCount (server : ServerImpl) (fd : ℕ) (removed : Bool) :
    server.SameCount (server.unwatchSocket fd removed).2 := by
  unfold unwatchSocket
  split_ifs
  all_goals exact ⟨rfl, rfl⟩

theorem forceSocketClose_accounted
    {slot : ℕ}
    (hcloses : server.status slot = .invalid ∨ (server.sockets slot).fd ∈ server.accepted)
    (haccounted : server.Accounted) :
    (server.forceSocketClose slot).Accounted := by
  unfold forceSocketClose
  split_ifs with hinvalid
  · exact haccounted
  · have hmem : (server.sockets slot).fd ∈ server.accepted := hcloses.resolve_left hinvalid
    have hpos : 0 < server.accepted.length := List.length_pos_of_mem hmem
    unfold Accounted at haccounted ⊢
    simp only
    rw [List.length_erase_of_mem hmem, haccounted]
    omega

theorem shutDownAllSockets_accounted
    {slots : List ℕ}
    (hshuts : server.ShutsAccepted slots)
    (haccounted : server.Accounted) :
    (slots.foldl forceSocketClose server).Accounted := by
  induction slots generalizing server with
  | nil => exact haccounted
  | cons slot rest ih =>
      exact ih hshuts.2 (forceSocketClose_accounted hshuts.1 haccounted)

theorem closeSocket_accounted
    {fd : ℕ}
    (hcloses : server.status fd ≠ .invalid → (server.sockets fd).fd = fd →
      fd ∈ server.accepted)
    (haccounted : server.Accounted) :
    (server.closeSocket fd).2.Accounted := by
  unfold closeSocket
  split_ifs with hbad
  · exact haccounted
  · have hvalid : server.status fd ≠ .invalid := fun h => hbad (.inl h)
    have hfd : (server.sockets fd).fd = fd := not_not.mp fun h => hbad (.inr h)
    refine forceSocketClose_accounted (.inr ?_) haccounted
    rw [hfd]
    exact hcloses hvalid hfd

theorem handleAcceptReady_accounted
    {slot conn : ℕ} {client : Option ℕ} {added : Bool} {code : Code}
    (haccept : server.handleAcceptReady slot client added = some (code, conn, next))
    (haccounted : server.Accounted) :
    next.Accounted := by
  cases client with
  | none =>
      cases haccept
      exact haccounted
  | some fd =>
      simp only [handleAcceptReady] at haccept
      split at haccept
      · cases haccept
      · rename_i ready hsetup
        have hsame := setupSocketConnection_sameCount hsetup
        cases haccept
        unfold Accounted at haccounted ⊢
        simp only [setStatus, setSocket]
        rw [hsame.connNum_eq, hsame.accepted_eq, haccounted, List.length_cons]
        push_cast
        rfl

theorem handleEvent_accounted
    {self : ℕ} {queues after : Queues} {event : PollEvent} {answer : Answer}
    (hevent : server.handleEvent self queues event answer = some (after, next))
    (haccounted : server.Accounted) :
    next.Accounted := by
  unfold handleEvent at hevent
  cases hstatus : server.status event.data with
  | invalid =>
      simp only [hstatus] at hevent
      cases hevent
      exact haccounted
  | listening =>
      simp only [hstatus] at hevent
      split at hevent
      · cases hevent
      · rename_i haccept
        cases hevent
        exact handleAcceptReady_accounted haccept haccounted
      · rename_i haccept
        cases hevent
        exact handleAcceptReady_accounted haccept haccounted
  | connecting =>
      simp only [hstatus, handleConnectDone] at hevent
      split_ifs at hevent
      all_goals
        cases hevent
        exact haccounted
  | connected =>
      simp only [hstatus] at hevent
      cases hevent
      exact haccounted
  | paccept =>
      simp only [hstatus] at hevent
      cases hevent
      exact haccounted

theorem handleEvents_accounted
    {self : ℕ} {queues after : Queues} {batch : Batch}
    (hevents : handleEvents self queues server batch = some (after, next))
    (haccounted : server.Accounted) :
    next.Accounted := by
  induction batch generalizing queues server with
  | nil =>
      cases hevents
      exact haccounted
  | cons delivered rest ih =>
      simp only [handleEvents] at hevents
      split at hevents
      · cases hevents
      · rename_i hevent
        exact ih hevents (handleEvent_accounted hevent haccounted)

end ServerImpl

namespace Process

variable {process next : Process} {action : Action}

/-- The server `self` may change, the others stay. -/
theorem accounted_setServer
    {self : ℕ} {server : ServerImpl}
    (hserver : server.Accounted)
    (haccounted : ∀ other, (process.servers other).Accounted) (other : ℕ) :
    ((process.setServer self server).servers other).Accounted := by
  unfold setServer
  simp only
  by_cases hother : other = self
  · subst hother
    rw [Function.update_self]
    exact hserver
  · rw [Function.update_of_ne hother]
    exact haccounted other

theorem perform_accounted
    {server after : ServerImpl} {self : ℕ} {call : Call}
    (hserver : process.servers self = server)
    (hcondition : ClosesAccepted process (.call self call))
    (hcall : server.perform call = some after)
    (haccounted : server.Accounted) :
    after.Accounted := by
  subst hserver
  cases call with
  | connectTo socket opaqueValue added =>
      exact (ServerImpl.connectTo_sameCount hcall).accounted haccounted
  | listenTo socket opaqueValue added =>
      exact (ServerImpl.listenTo_sameCount hcall).accounted haccounted
  | watchSocket fd listen added =>
      cases hcall
      exact (ServerImpl.watchSocket_sameCount _ fd listen added).accounted haccounted
  | watchRawSocket fd listen added =>
      cases hcall
      exact (ServerImpl.watchRawSocket_sameCount _ fd listen added).accounted haccounted
  | unwatchSocket fd removed =>
      cases hcall
      exact (ServerImpl.unwatchSocket_sameCount _ fd removed).accounted haccounted
  | closeSocket fd =>
      cases hcall
      exact ServerImpl.closeSocket_accounted hcondition haccounted
  | startServer =>
      cases hcall
      unfold ServerImpl.startServer
      split_ifs
      all_goals exact haccounted
  | stopServer =>
      cases hcall
      unfold ServerImpl.stopServer
      split_ifs with hrunning
      · exact ServerImpl.shutDownAllSockets_accounted (hcondition hrunning) haccounted
      · exact haccounted
  | setWatchAcceptedSock watch =>
      cases hcall
      exact haccounted

theorem runPoll_accounted
    (self : ℕ) (batch : Batch)
    (haccounted : ∀ other, (process.servers other).Accounted) (other : ℕ) :
    ((process.runPoll self batch).servers other).Accounted := by
  unfold runPoll
  split
  · exact haccounted other
  · split
    · exact haccounted other
    · unfold poll
      simp only
      split
      · exact haccounted other
      · rename_i queues server hevents
        have hserver : server.Accounted :=
          ServerImpl.handleEvents_accounted hevents (haccounted self)
        exact accounted_setServer hserver haccounted other

theorem step_accounted
    (hcondition : ClosesAccepted process action)
    (hstep : process.step action = some next)
    (haccounted : ∀ other, (process.servers other).Accounted) :
    ∀ other, (next.servers other).Accounted := by
  cases action with
  | call self call =>
      simp only [step] at hstep
      split_ifs at hstep
      split at hstep
      · cases hstep
        exact haccounted
      · rename_i after hcall
        cases hstep
        exact accounted_setServer (perform_accounted rfl hcondition hcall (haccounted self))
          haccounted
  | runPoll self batch =>
      simp only [step] at hstep
      split_ifs at hstep
      cases hstep
      exact runPoll_accounted self batch haccounted

end Process

/-- In every run in which only accepted sockets are closed, `connNum_` counts
the accepted sockets that are still open. -/
theorem accounted_of_closesAccepted
    {maxSocket : ℕ} {unset : ℕ → ℕ → ℕ × ℕ} {process : Process}
    (hreached : (machine maxSocket unset).ReachedBy ClosesAccepted process) (self : ℕ) :
    (process.servers self).connNum = (process.servers self).accepted.length ∧
      0 ≤ (process.servers self).connNum := by
  have haccounted : ∀ other, (process.servers other).Accounted :=
    hreached.invariant (fun process => ∀ other, (process.servers other).Accounted)
      (fun _ => rfl)
      (fun _ _ _ hinv hcondition hstep => Process.step_accounted hcondition hstep hinv)
  have hself : (process.servers self).connNum = (process.servers self).accepted.length :=
    haccounted self
  refine ⟨hself, ?_⟩
  rw [hself]
  exact Int.natCast_nonneg _

/-- A connection is accepted and closed again, next to the socket that listens. -/
def acceptThenClose : List Action :=
  [.call 0 (.listenTo (some 3) 0 true), .call 0 (.setWatchAcceptedSock true),
    .runPoll 0 [(⟨3, true, false⟩, ⟨some 5, true, false⟩)], .runPoll 0 [],
    .call 0 (.closeSocket 5)]

theorem accounted_acceptThenClose :
    ∃ process, (machine 8 fun _ _ => (0, 0)).run acceptThenClose = some process ∧
      process.returned = [(0, ⟨some .accepted, 0, 5⟩)] ∧
      (process.servers 0).status 3 = .listening ∧
      (process.servers 0).connNum = (process.servers 0).accepted.length ∧
        0 ≤ (process.servers 0).connNum := by
  have hreached : ∀ process, (machine 8 fun _ _ => (0, 0)).run acceptThenClose = some process →
      (machine 8 fun _ _ => (0, 0)).ReachedBy ClosesAccepted process := by
    intro process hrun
    refine Machine.ReachedBy.runFrom .start ?_ hrun
    refine ⟨trivial, fun _ hlisten => ⟨trivial, fun _ hwatch => ⟨trivial, fun _ hpoll =>
      ⟨trivial, fun _ hreturn => ⟨?_, fun _ _ => trivial⟩⟩⟩⟩⟩
    cases hlisten
    cases hwatch
    cases hpoll
    cases hreturn
    intro _ _
    decide
  exact ⟨_, rfl, rfl, rfl, accounted_of_closesAccepted (hreached _ rfl) 0⟩

/-- A server that listens on one socket is started and stopped. -/
def listenThenStop : List Action :=
  [.call 0 (.listenTo (some 3) 0 true), .call 0 .startServer, .call 0 .stopServer]

theorem not_accounted_listenThenStop :
    ¬ ∀ maxSocket unset process, (machine maxSocket unset).Reachable process →
      ∀ self, (process.servers self).connNum = (process.servers self).accepted.length ∧
        0 ≤ (process.servers self).connNum := by
  intro hall
  have hstopped : ∃ process, (machine 8 fun _ _ => (0, 0)).run listenThenStop = some process ∧
      (process.servers 0).connNum = -1 :=
    ⟨_, rfl, rfl⟩
  obtain ⟨process, hrun, hcount⟩ := hstopped
  have hreached : (machine 8 fun _ _ => (0, 0)).Reachable process :=
    Machine.Reachable.runFrom .start hrun
  have hnonneg := (hall 8 _ process hreached 0).2
  rw [hcount] at hnonneg
  cases hnonneg

end SocketServer
end BackEndFacility
