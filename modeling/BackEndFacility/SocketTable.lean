import BackEndFacility.SocketRegistration

/-!
# The slot table and the open descriptors

One `ServerImpl` next to the descriptors that are open in its process.  The kernel hands
out descriptors that are not open, and `epoll_ctl` adds only open ones.  Descriptors are
also opened elsewhere, for `WatchSocket` and `WatchRawSocket`, and closed elsewhere as
long as the server does not hold them.

A slot in use is to hold its own number.  `WatchSocket` takes a slot that is not in use
for its own without writing the number into it.
-/

namespace BackEndFacility
namespace SocketServer

namespace ServerImpl

/-- `ReadBuffer`, as far as the server is concerned; none when it asserts. -/
def readBuffer (server : ServerImpl) (fd sz : ℕ) : Option ServerImpl :=
  if sz = 0 ∨ server.status fd = .invalid then none
  else some (server.setPoller (server.poller.modifySocket (server.sockets fd).fd))

/-- `SendBuffer`; `failed` when `write` fails for good. -/
def sendBuffer (server : ServerImpl) (fd : ℕ) (failed : Bool) : Option ServerImpl :=
  if server.status fd = .invalid ∨ (server.sockets fd).fd ≠ fd then some server
  else if server.status fd = .listening then none
  else if failed then some server
  else some (server.setPoller (server.poller.modifySocket (server.sockets fd).fd))

/-- The descriptors that closing these slots in turn closes. -/
def closedBy : List ℕ → ServerImpl → List ℕ
  | [], _ => []
  | slot :: rest, server =>
      if server.status slot = .invalid then closedBy rest server
      else (server.sockets slot).fd :: closedBy rest (server.forceSocketClose slot)

end ServerImpl

/-- The descriptor that the kernel hands out during a call. -/
def Call.obtains : Call → Option ℕ
  | .connectTo (some (fd, _)) _ _ => some fd
  | .listenTo (some fd) _ _ => some fd
  | _ => none

/-- The descriptors that a call closes. -/
def Call.closes (server : ServerImpl) : Call → List ℕ
  | .closeSocket fd =>
      if server.status fd = .invalid ∨ (server.sockets fd).fd ≠ fd then []
      else [(server.sockets fd).fd]
  | .stopServer =>
      if server.isRunning then server.closedBy (List.range server.maxSocket) else []
  | _ => []

/-- The descriptor that `accept4` returns for an event. -/
def ServerImpl.accepts (server : ServerImpl) (event : PollEvent) (answer : Answer) : Option ℕ :=
  if server.status event.data = .listening then answer.client else none

namespace SocketTable

/-- The ends of the process: the assertion of `SetupSocketConnection`, the null pointer
it returns, and the assertions of `ReadBuffer` and `SendBuffer`. -/
inductive Fault where
  | assertion
  | nullPointer
  | misuse
  deriving DecidableEq, Repr

structure State where
  server : ServerImpl
  opened : ℕ → Bool
  fault : Option Fault

inductive Action where
  | call (call : Call)
  | readBuffer (fd sz : ℕ)
  | sendBuffer (fd : ℕ) (failed : Bool)
  | event (event : PollEvent) (answer : Answer)
  | openElsewhere (fd : ℕ)
  | closeElsewhere (fd : ℕ)
  deriving DecidableEq, Repr

def unused (opened : ℕ → Bool) : Option ℕ → Bool
  | none => true
  | some fd => !opened fd

def openFd (opened : ℕ → Bool) : Option ℕ → ℕ → Bool
  | none => opened
  | some fd => Function.update opened fd true

def closeFds (opened : ℕ → Bool) (fds : List ℕ) : ℕ → Bool :=
  fds.foldl (fun opened fd => Function.update opened fd false) opened

/-- Why `SetupSocketConnection` did not return a connection for this descriptor. -/
def setupFault (server : ServerImpl) (fd : Option ℕ) : Fault :=
  match fd with
  | none => .misuse
  | some fd => if server.status fd = .invalid then .nullPointer else .assertion

namespace State

/-- What the kernel may answer. -/
def admissible (state : State) : Action → Bool
  | .call (.watchSocket fd _ added) => !added || state.opened (state.server.sockets fd).fd
  | .call (.watchRawSocket fd _ added) => !added || state.opened fd
  | .call call => unused state.opened call.obtains
  | .event event answer => unused state.opened (state.server.accepts event answer)
  | .openElsewhere fd => unused state.opened (some fd)
  | .closeElsewhere fd => state.server.status fd = .invalid
  | .readBuffer _ _ | .sendBuffer _ _ => true

def perform (state : State) (call : Call) : State :=
  match state.server.perform call with
  | none =>
      { state with
        opened := openFd state.opened call.obtains
        fault := some (setupFault state.server call.obtains) }
  | some server =>
      { state with
        server := server
        opened := closeFds (openFd state.opened call.obtains) (call.closes state.server) }

def handle (state : State) (event : PollEvent) (answer : Answer) : State :=
  match state.server.handleEvent 0 ⟨[], []⟩ event answer with
  | none =>
      { state with
        opened := openFd state.opened (state.server.accepts event answer)
        fault := some (setupFault state.server (state.server.accepts event answer)) }
  | some (_, server) =>
      { state with
        server := server
        opened := openFd state.opened (state.server.accepts event answer) }

/-- An operation that the process may not survive. -/
def asserting (state : State) : Option ServerImpl → State
  | none => { state with fault := some .misuse }
  | some server => { state with server := server }

def apply (state : State) : Action → State
  | .call call => state.perform call
  | .readBuffer fd sz => state.asserting (state.server.readBuffer fd sz)
  | .sendBuffer fd failed => state.asserting (state.server.sendBuffer fd failed)
  | .event event answer => state.handle event answer
  | .openElsewhere fd => { state with opened := openFd state.opened (some fd) }
  | .closeElsewhere fd => { state with opened := closeFds state.opened [fd] }

def step (state : State) (action : Action) : Option State :=
  if state.fault = none ∧ state.admissible action = true then some (state.apply action) else none

end State

/-- `unset` is what the slots hold before they are used, `opened` what is open when the
server is made. -/
def machine (maxSocket : ℕ) (unset : ℕ → ℕ × ℕ) (opened : ℕ → Bool) : Machine State Action where
  start := ⟨.construct maxSocket unset, opened, none⟩
  step := State.step

/-! ## Consistency -/

/-- A slot in use holds its own number, which is open. -/
def Consistent (sockets : ℕ → SocketConnection) (opened : ℕ → Bool) : Prop :=
  ∀ slot, (sockets slot).status ≠ .invalid →
    (sockets slot).fd = slot ∧ opened slot = true

namespace Consistent

variable {sockets : ℕ → SocketConnection} {opened : ℕ → Bool}

theorem update (hconsistent : Consistent sockets opened) {slot : ℕ} {socket : SocketConnection}
    (hsocket : socket.status ≠ .invalid → socket.fd = slot ∧ opened slot = true) :
    Consistent (Function.update sockets slot socket) opened := by
  intro other hother
  by_cases hslot : other = slot
  · subst hslot
    rw [Function.update_self] at hother ⊢
    exact hsocket hother
  · rw [Function.update_of_ne hslot] at hother ⊢
    exact hconsistent other hother

theorem openFd (hconsistent : Consistent sockets opened) (fd : Option ℕ) :
    Consistent sockets (openFd opened fd) := by
  cases fd with
  | none => exact hconsistent
  | some fd =>
      intro slot hslot
      obtain ⟨hfd, hopened⟩ := hconsistent slot hslot
      refine ⟨hfd, ?_⟩
      change Function.update opened fd true slot = true
      rw [Function.update_apply]
      split_ifs
      · rfl
      · exact hopened

/-- A descriptor may be closed when its slot is not in use. -/
theorem closeFd (hconsistent : Consistent sockets opened) {fd : ℕ}
    (hunused : (sockets fd).status = .invalid) :
    Consistent sockets (Function.update opened fd false) := by
  intro slot hslot
  obtain ⟨hfd, hopened⟩ := hconsistent slot hslot
  refine ⟨hfd, ?_⟩
  rw [Function.update_of_ne]
  · exact hopened
  · rintro rfl
    exact hslot hunused

theorem status_of_unused (hconsistent : Consistent sockets opened) {fd : ℕ}
    (hunused : opened fd = false) : (sockets fd).status = .invalid := by
  by_contra hvalid
  have hopened := (hconsistent fd hvalid).2
  rw [hunused] at hopened
  cases hopened

variable {server next : ServerImpl}

theorem setStatus (hconsistent : Consistent server.sockets opened) {slot : ℕ}
    {status : SocketStatus}
    (hslot : status ≠ .invalid → (server.sockets slot).fd = slot ∧ opened slot = true) :
    Consistent (server.setStatus slot status).sockets opened :=
  hconsistent.update hslot

theorem resetSocketSlot (hconsistent : Consistent server.sockets opened) (slot : ℕ) :
    Consistent (server.resetSocketSlot slot).sockets opened :=
  hconsistent.setStatus fun hvalid => absurd rfl hvalid

theorem setup
    {fd opaqueValue : ℕ} {poll added : Bool} (hconsistent : Consistent server.sockets opened)
    (hsetup : server.setupSocketConnection fd opaqueValue poll added = some next) :
    Consistent next.sockets opened ∧ (next.sockets fd).fd = fd := by
  have hslot : Consistent (server.setSocket fd ⟨fd, .invalid, opaqueValue⟩).sockets opened :=
    hconsistent.update fun hvalid => absurd rfl hvalid
  have hfd : ((server.setSocket fd ⟨fd, .invalid, opaqueValue⟩).sockets fd).fd = fd := by
    simp only [ServerImpl.setSocket, Function.update_self]
  unfold ServerImpl.setupSocketConnection at hsetup
  split_ifs at hsetup
  · cases hsetup
    exact ⟨hslot, hfd⟩
  · cases hsetup
    exact ⟨hslot, hfd⟩

theorem forceSocketClose (hconsistent : Consistent server.sockets opened) {slot : ℕ}
    (hvalid : server.status slot ≠ .invalid) :
    Consistent (server.forceSocketClose slot).sockets
      (Function.update opened (server.sockets slot).fd false) := by
  have hfd := (hconsistent slot hvalid).1
  have hreset : (server.forceSocketClose slot).sockets = (server.resetSocketSlot slot).sockets := by
    unfold ServerImpl.forceSocketClose
    rw [if_neg hvalid]
  rw [hreset, hfd]
  refine (hconsistent.resetSocketSlot slot).closeFd ?_
  have hstatus := server.status_resetSocketSlot slot slot
  rw [if_pos rfl] at hstatus
  exact hstatus

theorem shutDown (hconsistent : Consistent server.sockets opened) (slots : List ℕ) :
    Consistent (slots.foldl ServerImpl.forceSocketClose server).sockets
      (closeFds opened (server.closedBy slots)) := by
  induction slots generalizing server opened with
  | nil => exact hconsistent
  | cons slot rest ih =>
      rw [List.foldl_cons, ServerImpl.closedBy]
      by_cases hinvalid : server.status slot = .invalid
      · have hsame : server.forceSocketClose slot = server := by
          unfold ServerImpl.forceSocketClose
          rw [if_pos hinvalid]
        rw [if_pos hinvalid, hsame]
        exact ih hconsistent
      · rw [if_neg hinvalid]
        exact ih (hconsistent.forceSocketClose hinvalid)

end Consistent

/-- `WatchSocket` takes a slot that is not in use only when it holds its own number, or
the poller refuses. -/
def OwnNumber (state : State) : Action → Prop
  | .call (.watchSocket fd _ added) =>
      state.server.status fd = .invalid → added = true → (state.server.sockets fd).fd = fd
  | _ => True

instance decidableOwnNumber (state : State) (action : Action) :
    Decidable (OwnNumber state action) :=
  match action with
  | .call (.watchSocket fd _ added) =>
      inferInstanceAs (Decidable
        (state.server.status fd = .invalid → added = true → (state.server.sockets fd).fd = fd))
  | .call (.connectTo _ _ _) | .call (.listenTo _ _ _) | .call (.watchRawSocket _ _ _)
  | .call (.unwatchSocket _ _) | .call (.closeSocket _) | .call .startServer
  | .call .stopServer | .call (.setWatchAcceptedSock _) | .readBuffer _ _ | .sendBuffer _ _
  | .event _ _ | .openElsewhere _ | .closeElsewhere _ => isTrue trivial

/-- The invariant: the table is consistent, and no assertion of `SetupSocketConnection`
has failed. -/
structure Kept (state : State) : Prop where
  consistent : Consistent state.server.sockets state.opened
  fault : state.fault ≠ some .assertion

namespace Kept

variable {state : State}

/-- A descriptor that has just been handed out has no slot in use. -/
theorem setupFault (hkept : Kept state) {fd : Option ℕ} (hunused : unused state.opened fd = true) :
    some (setupFault state.server fd) ≠ some .assertion := by
  cases fd with
  | none => exact fun h => nomatch h
  | some fd =>
      have hclosed : state.opened fd = false := by
        simpa [unused] using hunused
      have hinvalid : state.server.status fd = .invalid :=
        hkept.consistent.status_of_unused hclosed
      unfold SocketTable.setupFault
      simp only [hinvalid, if_true]
      exact fun h => nomatch h

theorem connectTo
    {socket : Option (ℕ × Bool)} {opaqueValue : ℕ} {added : Bool} {next : ServerImpl}
    (hkept : Kept state)
    (hconnect : state.server.connectTo socket opaqueValue added = some next) :
    Consistent next.sockets
      (openFd state.opened (Call.connectTo socket opaqueValue added).obtains) := by
  cases socket with
  | none =>
      cases hconnect
      exact hkept.consistent
  | some found =>
      obtain ⟨fd, done⟩ := found
      have hopened : (openFd state.opened (some fd)) fd = true := Function.update_self ..
      simp only [ServerImpl.connectTo] at hconnect
      split at hconnect
      · cases hconnect
      · rename_i server hsetup
        obtain ⟨hconsistent, hfd⟩ := hkept.consistent.setup hsetup
        split_ifs at hconnect
        · cases hconnect
          exact (hconsistent.openFd (some fd)).setStatus fun _ => ⟨hfd, hopened⟩
        · cases hconnect
          exact (hconsistent.openFd (some fd)).setStatus fun _ => ⟨hfd, hopened⟩

theorem listenTo
    {socket : Option ℕ} {opaqueValue : ℕ} {added : Bool} {next : ServerImpl}
    (hkept : Kept state)
    (hlisten : state.server.listenTo socket opaqueValue added = some next) :
    Consistent next.sockets
      (openFd state.opened (Call.listenTo socket opaqueValue added).obtains) := by
  cases socket with
  | none =>
      cases hlisten
      exact hkept.consistent
  | some fd =>
      have hopened : (openFd state.opened (some fd)) fd = true := Function.update_self ..
      simp only [ServerImpl.listenTo] at hlisten
      split at hlisten
      · cases hlisten
      · rename_i server hsetup
        obtain ⟨hconsistent, hfd⟩ := hkept.consistent.setup hsetup
        cases hlisten
        exact (hconsistent.openFd (some fd)).setStatus fun _ => ⟨hfd, hopened⟩

theorem watchSocket
    {fd : ℕ} {listen added : Bool} (hkept : Kept state)
    (hopened : added = true → state.opened (state.server.sockets fd).fd = true)
    (hown : state.server.status fd = .invalid → added = true →
      (state.server.sockets fd).fd = fd) :
    Consistent (state.server.watchSocket fd listen added).2.sockets state.opened := by
  have hnumber : added = true → (state.server.sockets fd).fd = fd := by
    intro hadded
    by_cases hinvalid : state.server.status fd = .invalid
    · exact hown hinvalid hadded
    · exact (hkept.consistent fd hinvalid).1
  have hfd : added = true → state.opened fd = true := by
    intro hadded
    have hregistered := hopened hadded
    rw [hnumber hadded] at hregistered
    exact hregistered
  unfold ServerImpl.watchSocket
  simp only
  split_ifs with hasks hadded hconnected
  · exact hkept.consistent.setStatus fun _ => ⟨hnumber hadded, hfd hadded⟩
  · exact hkept.consistent.setStatus fun _ => ⟨hnumber hadded, hfd hadded⟩
  · exact hkept.consistent.resetSocketSlot fd
  · exact hkept.consistent

theorem watchRawSocket
    {fd : ℕ} {listen added : Bool} (hkept : Kept state)
    (hopened : added = true → state.opened fd = true) :
    Consistent (state.server.watchRawSocket fd listen added).2.sockets state.opened := by
  unfold ServerImpl.watchRawSocket
  by_cases hvalid : state.server.status fd ≠ .invalid
  · rw [if_pos hvalid]
    exact hkept.consistent
  rw [if_neg hvalid]
  cases added with
  | true => exact hkept.consistent.update fun _ => ⟨rfl, hopened rfl⟩
  | false =>
      have htwice : ∀ first second, second.status = .invalid →
          Consistent (Function.update (Function.update state.server.sockets fd first) fd second)
            state.opened := by
        intro first second hsecond
        rw [Function.update_idem]
        exact hkept.consistent.update fun hused => absurd hsecond hused
      exact htwice _ _ rfl

theorem unwatchSocket {fd : ℕ} {removed : Bool} (hkept : Kept state) :
    Consistent (state.server.unwatchSocket fd removed).2.sockets state.opened := by
  unfold ServerImpl.unwatchSocket
  split_ifs
  · exact hkept.consistent
  · exact hkept.consistent.resetSocketSlot fd
  · exact hkept.consistent

theorem closeSocket {fd : ℕ} (hkept : Kept state) :
    Consistent (state.server.closeSocket fd).2.sockets
      (closeFds state.opened ((Call.closeSocket fd).closes state.server)) := by
  unfold ServerImpl.closeSocket Call.closes
  by_cases hbad : state.server.status fd = .invalid ∨ (state.server.sockets fd).fd ≠ fd
  · simp only [if_pos hbad]
    exact hkept.consistent
  · simp only [if_neg hbad]
    exact hkept.consistent.forceSocketClose fun hinvalid => hbad (.inl hinvalid)

theorem stopServer (hkept : Kept state) :
    Consistent state.server.stopServer.sockets
      (closeFds state.opened (Call.stopServer.closes state.server)) := by
  unfold ServerImpl.stopServer Call.closes
  by_cases hrunning : state.server.isRunning = true
  · simp only [if_pos hrunning]
    exact hkept.consistent.shutDown (List.range state.server.maxSocket)
  · simp only [if_neg hrunning]
    exact hkept.consistent

theorem perform
    {call : Call} (hkept : Kept state) (hfault : state.fault = none)
    (hadmissible : state.admissible (.call call) = true) (hown : OwnNumber state (.call call)) :
    Kept (state.perform call) := by
  have hfails : state.server.perform call = none → unused state.opened call.obtains = true := by
    intro hnone
    cases call with
    | connectTo socket opaqueValue added => exact hadmissible
    | listenTo socket opaqueValue added => exact hadmissible
    | _ => cases hnone
  have hdone : ∀ next, state.server.perform call = some next →
      Consistent next.sockets
        (closeFds (openFd state.opened call.obtains) (call.closes state.server)) := by
    intro next hnext
    cases call with
    | connectTo socket opaqueValue added => exact hkept.connectTo hnext
    | listenTo socket opaqueValue added => exact hkept.listenTo hnext
    | watchSocket fd listen added =>
        cases hnext
        refine hkept.watchSocket (fun hadded => ?_) hown
        rw [hadded] at hadmissible
        exact hadmissible
    | watchRawSocket fd listen added =>
        cases hnext
        refine hkept.watchRawSocket fun hadded => ?_
        rw [hadded] at hadmissible
        exact hadmissible
    | unwatchSocket fd removed =>
        cases hnext
        exact hkept.unwatchSocket
    | closeSocket fd =>
        cases hnext
        exact hkept.closeSocket
    | startServer =>
        cases hnext
        unfold ServerImpl.startServer
        split_ifs
        · exact hkept.consistent
        · exact hkept.consistent
    | stopServer =>
        cases hnext
        exact hkept.stopServer
    | setWatchAcceptedSock watch =>
        cases hnext
        exact hkept.consistent
  unfold State.perform
  split
  · rename_i hnone
    exact ⟨hkept.consistent.openFd _, hkept.setupFault (hfails hnone)⟩
  · rename_i next hnext
    refine ⟨hdone next hnext, ?_⟩
    simp only [hfault]
    exact fun h => nomatch h

theorem accept
    {slot conn : ℕ} {client : Option ℕ} {added : Bool} {code : Code} {next : ServerImpl}
    (hkept : Kept state)
    (haccept : state.server.handleAcceptReady slot client added = some (code, conn, next)) :
    Consistent next.sockets (openFd state.opened client) := by
  cases client with
  | none =>
      cases haccept
      exact hkept.consistent
  | some fd =>
      have hopened : (openFd state.opened (some fd)) fd = true := Function.update_self ..
      have hcounted : Consistent (ServerImpl.sockets
          { state.server with
            connNum := state.server.connNum + 1
            accepted := fd :: state.server.accepted }) state.opened := hkept.consistent
      simp only [ServerImpl.handleAcceptReady] at haccept
      split at haccept
      · cases haccept
      · rename_i server hsetup
        obtain ⟨hconsistent, hfd⟩ := hcounted.setup hsetup
        cases haccept
        exact (hconsistent.openFd (some conn)).setStatus fun _ => ⟨hfd, hopened⟩

theorem handleEvent
    {event : PollEvent} {answer : Answer} {queues : Queues} {next : ServerImpl}
    (hkept : Kept state)
    (hevent : state.server.handleEvent 0 ⟨[], []⟩ event answer = some (queues, next)) :
    Consistent next.sockets (openFd state.opened (state.server.accepts event answer)) := by
  unfold ServerImpl.handleEvent at hevent
  unfold ServerImpl.accepts
  cases hstatus : state.server.status event.data with
  | invalid =>
      simp only [hstatus] at hevent
      cases hevent
      exact hkept.consistent
  | listening =>
      simp only [hstatus] at hevent
      rw [if_pos rfl]
      split at hevent
      · cases hevent
      · rename_i haccept
        cases hevent
        exact hkept.accept haccept
      · rename_i haccept
        cases hevent
        exact hkept.accept haccept
  | connecting =>
      have hvalid : state.server.status event.data ≠ .invalid := by
        rw [hstatus]
        exact fun h => nomatch h
      simp only [hstatus, ServerImpl.handleConnectDone] at hevent
      split_ifs at hevent
      · cases hevent
        exact hkept.consistent.setStatus fun _ => hkept.consistent event.data hvalid
      · cases hevent
        exact hkept.consistent
  | connected =>
      simp only [hstatus] at hevent
      cases hevent
      exact hkept.consistent
  | paccept =>
      simp only [hstatus] at hevent
      cases hevent
      exact hkept.consistent

theorem handle
    {event : PollEvent} {answer : Answer} (hkept : Kept state) (hfault : state.fault = none)
    (hadmissible : state.admissible (.event event answer) = true) :
    Kept (state.handle event answer) := by
  unfold State.handle
  split
  · exact ⟨hkept.consistent.openFd _, hkept.setupFault hadmissible⟩
  · rename_i queues next hevent
    refine ⟨hkept.handleEvent hevent, ?_⟩
    simp only [hfault]
    exact fun h => nomatch h

theorem asserting
    {result : Option ServerImpl} (hkept : Kept state)
    (hsame : ∀ next, result = some next → next.sockets = state.server.sockets) :
    Kept (state.asserting result) := by
  cases result with
  | none => exact ⟨hkept.consistent, fun h => nomatch h⟩
  | some next =>
      refine ⟨?_, hkept.fault⟩
      have hconsistent := hkept.consistent
      rw [← hsame next rfl] at hconsistent
      exact hconsistent

theorem step
    {next : State} {action : Action} (hkept : Kept state) (hown : OwnNumber state action)
    (hstep : state.step action = some next) : Kept next := by
  unfold State.step at hstep
  split_ifs at hstep with henabled
  obtain ⟨hfault, hadmissible⟩ := henabled
  cases hstep
  cases action with
  | call call => exact hkept.perform hfault hadmissible hown
  | readBuffer fd sz =>
      refine hkept.asserting fun next hnext => ?_
      unfold ServerImpl.readBuffer at hnext
      split_ifs at hnext
      cases hnext
      rfl
  | sendBuffer fd failed =>
      refine hkept.asserting fun next hnext => ?_
      unfold ServerImpl.sendBuffer at hnext
      split_ifs at hnext
      all_goals
        cases hnext
        rfl
  | event event answer => exact hkept.handle hfault hadmissible
  | openElsewhere fd => exact ⟨hkept.consistent.openFd (some fd), hkept.fault⟩
  | closeElsewhere fd =>
      have hinvalid : state.server.status fd = .invalid := of_decide_eq_true hadmissible
      exact ⟨hkept.consistent.closeFd hinvalid, hkept.fault⟩

end Kept

/-! ## Closing a slot -/

/-- The table is consistent; hence `SetupSocketConnection` does not assert, `CloseSocket`
succeeds exactly on the slots in use, and only once. -/
structure Sound (state : State) : Prop extends Kept state where
  closes : ∀ slot, (state.server.closeSocket slot).1 = true ↔ state.server.status slot ≠ .invalid
  closesOnce : ∀ slot, (state.server.closeSocket slot).1 = true →
    (state.server.closeSocket slot).2.closeSocket slot =
      (false, (state.server.closeSocket slot).2)

theorem Kept.closes {state : State} (hkept : Kept state) (slot : ℕ) :
    (state.server.closeSocket slot).1 = true ↔ state.server.status slot ≠ .invalid := by
  unfold ServerImpl.closeSocket
  split_ifs with hbad
  · refine ⟨fun hfalse => hfalse.elim, fun hvalid => ?_⟩
    rcases hbad with hinvalid | hnumber
    · exact absurd hinvalid hvalid
    · exact absurd (hkept.consistent slot hvalid).1 hnumber
  · exact ⟨fun _ hinvalid => hbad (.inl hinvalid), fun _ => rfl⟩

theorem closesOnce {server : ServerImpl} {slot : ℕ}
    (hcloses : (server.closeSocket slot).1 = true) :
    (server.closeSocket slot).2.closeSocket slot = (false, (server.closeSocket slot).2) := by
  unfold ServerImpl.closeSocket at hcloses
  split_ifs at hcloses with hbad
  have hvalid : server.status slot ≠ .invalid := fun hinvalid => hbad (.inl hinvalid)
  have hclosed : (server.closeSocket slot).2 = server.forceSocketClose slot := by
    unfold ServerImpl.closeSocket
    rw [if_neg hbad]
  have hinvalid : (server.forceSocketClose slot).status slot = .invalid := by
    unfold ServerImpl.forceSocketClose
    rw [if_neg hvalid]
    exact (server.status_resetSocketSlot slot slot).trans (if_pos rfl)
  rw [hclosed]
  unfold ServerImpl.closeSocket
  rw [if_pos (.inl hinvalid)]

/-- In every run in which `WatchSocket` takes only slots that hold their own number, the
table stays consistent. -/
theorem sound_of_ownNumber
    {maxSocket : ℕ} {unset : ℕ → ℕ × ℕ} {opened : ℕ → Bool} {state : State}
    (hreached : (machine maxSocket unset opened).ReachedBy OwnNumber state) : Sound state := by
  have hkept : Kept state :=
    hreached.invariant Kept ⟨fun _ hvalid => absurd rfl hvalid, Option.some_ne_none _ ∘ Eq.symm⟩
      (fun _ _ _ hkept hown hstep => hkept.step hown hstep)
  exact ⟨hkept, hkept.closes, fun _ => closesOnce⟩

/-- A connection is accepted, closed, and its slot is used again. -/
def closeAndReuse : List Action :=
  [.call (.listenTo (some 3) 0 true), .event ⟨3, true, false⟩ ⟨some 5, true, false⟩,
    .call (.closeSocket 5), .openElsewhere 5, .call (.watchSocket 5 false true)]

theorem sound_closeAndReuse :
    ∃ state, (machine 8 (fun _ => (0, 0)) fun _ => false).run closeAndReuse = some state ∧
      state.server.status 5 = .connected ∧ Sound state := by
  have hadmits : (machine 8 (fun _ => (0, 0)) fun _ => false).Admits OwnNumber
      (machine 8 (fun _ => (0, 0)) fun _ => false).start closeAndReuse := by
    decide
  have hrun : ∃ state, (machine 8 (fun _ => (0, 0)) fun _ => false).run closeAndReuse =
      some state ∧ state.server.status 5 = .connected := ⟨_, rfl, by decide⟩
  obtain ⟨state, hstate, hstatus⟩ := hrun
  exact ⟨state, hstate, hstatus,
    sound_of_ownNumber (Machine.ReachedBy.start.runFrom hadmits hstate)⟩

/-- Slot 7 has never been used and happens to hold 3, which is open. -/
def watchUnused : List Action :=
  [.openElsewhere 3, .call (.watchSocket 7 false true)]

theorem not_sound_watchUnused :
    ¬ ∀ (maxSocket : ℕ) (unset : ℕ → ℕ × ℕ) (opened : ℕ → Bool) (state : State),
      (machine maxSocket unset opened).Reachable state → Sound state := by
  intro hall
  have hrun : ∃ state, (machine 8 (fun _ => (3, 0)) fun _ => false).run watchUnused =
      some state ∧ state.server.status 7 = .connected ∧ (state.server.sockets 7).fd = 3 :=
    ⟨_, rfl, by decide, by decide⟩
  obtain ⟨state, hstate, hstatus, hfd⟩ := hrun
  have hsound := hall 8 _ _ state (Machine.Reachable.runFrom .start hstate)
  have hvalid : (state.server.sockets 7).status ≠ .invalid := by
    rw [show (state.server.sockets 7).status = .connected from hstatus]
    decide
  have hnumber := (hsound.consistent 7 hvalid).1
  rw [hfd] at hnumber
  exact absurd hnumber (by decide)

end SocketTable
end SocketServer
end BackEndFacility
