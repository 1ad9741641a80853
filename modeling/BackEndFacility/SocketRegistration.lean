import BackEndFacility.SocketServer

/-!
# Registrations that fail

Five operations put a descriptor into the epoll set.  Each is given here with what it
tells its caller; the poller's answer is the last argument.  A call that writes
through the null pointer of `SetupSocketConnection` has no outcome.
-/

namespace BackEndFacility
namespace SocketServer

inductive Registration where
  | connectTo (socket : Option (ℕ × Bool)) (opaqueValue : ℕ)
  | listenTo (socket : Option ℕ) (opaqueValue : ℕ)
  | watchSocket (fd : ℕ) (listen : Bool)
  | watchRawSocket (fd : ℕ) (listen : Bool)
  | accept (slot : ℕ) (client : Option ℕ)
  deriving DecidableEq, Repr

namespace ServerImpl

/-- Whether the caller is told of success, and the server left behind. -/
def register (server : ServerImpl) : Registration → Bool → Option (Bool × ServerImpl)
  | .connectTo socket opaqueValue, added =>
      (server.connectTo socket opaqueValue added).map fun next => (socket.isSome, next)
  | .listenTo socket opaqueValue, added =>
      (server.listenTo socket opaqueValue added).map fun next => (socket.isSome, next)
  | .watchSocket fd listen, added => some (server.watchSocket fd listen added)
  | .watchRawSocket fd listen, added => some (server.watchRawSocket fd listen added)
  | .accept slot client, added =>
      (server.handleAcceptReady slot client added).map fun result =>
        (decide (result.1 = .succ), result.2.2)

/-- The operation gets as far as `AddSocket`. -/
def Asks (server : ServerImpl) : Registration → Prop
  | .connectTo socket _ => ∃ fd done, socket = some (fd, done) ∧ server.status fd = .invalid
  | .listenTo socket _ => ∃ fd, socket = some fd ∧ server.status fd = .invalid
  | .watchSocket fd _ => server.status fd = .paccept ∨ server.status fd = .invalid
  | .watchRawSocket fd _ => server.status fd = .invalid
  | .accept slot client =>
      server.status slot = .listening ∧ server.watchAccepted = true ∧
        ∃ fd, client = some fd ∧ server.status fd = .invalid

/-- `AddSocket` fails: the caller is told, and no status and no count has changed. -/
def Intact (server : ServerImpl) (registration : Registration) : Prop :=
  ∃ next, server.register registration false = some (false, next) ∧
    (∀ slot, next.status slot = server.status slot) ∧ next.connNum = server.connNum

/-- Nothing is done through the pointer that `SetupSocketConnection` returns, and there
was no connection in the slot. -/
def Bare (server : ServerImpl) : Registration → Prop
  | .watchSocket fd _ => server.status fd = .invalid
  | .watchRawSocket _ _ => True
  | _ => False

/-! ## The operations of the process -/

theorem register_perform
    (server : ServerImpl) (socket : Option (ℕ × Bool)) (target : Option ℕ) (opaqueValue fd : ℕ)
    (listen added : Bool) :
    (server.register (.connectTo socket opaqueValue) added).map Prod.snd =
        server.perform (.connectTo socket opaqueValue added) ∧
      (server.register (.listenTo target opaqueValue) added).map Prod.snd =
        server.perform (.listenTo target opaqueValue added) ∧
      (server.register (.watchSocket fd listen) added).map Prod.snd =
        server.perform (.watchSocket fd listen added) ∧
      (server.register (.watchRawSocket fd listen) added).map Prod.snd =
        server.perform (.watchRawSocket fd listen added) := by
  refine ⟨?_, ?_, rfl, rfl⟩
  · unfold register perform
    simp only [Option.map_map]
    exact congrFun Option.map_id _
  · unfold register perform
    simp only [Option.map_map]
    exact congrFun Option.map_id _

theorem register_handleEvent
    {self : ℕ} {queues : Queues} {server : ServerImpl} {event : PollEvent} (answer : Answer)
    (hlistening : server.status event.data = .listening) :
    (server.register (.accept event.data answer.client) answer.added).map Prod.snd =
      (server.handleEvent self queues event answer).map Prod.snd := by
  unfold handleEvent
  simp only [hlistening, register]
  cases server.handleAcceptReady event.data answer.client answer.added with
  | none => rfl
  | some result =>
      obtain ⟨code, conn, next⟩ := result
      cases code <;> rfl

/-! ## A failing `AddSocket` -/

theorem setupSocketConnection_fails (server : ServerImpl) (fd opaqueValue : ℕ) :
    server.setupSocketConnection fd opaqueValue true false = none := by
  unfold setupSocketConnection
  by_cases hinvalid : server.status fd = .invalid
  · rw [if_pos hinvalid]
    rfl
  · rw [if_neg hinvalid]

theorem status_setSocket (server : ServerImpl) (slot : ℕ) (socket : SocketConnection)
    (other : ℕ) :
    (server.setSocket slot socket).status other =
      if other = slot then socket.status else server.status other := by
  unfold status setSocket
  simp only [Function.update_apply]
  split_ifs
  · rfl
  · rfl

theorem status_resetSocketSlot (server : ServerImpl) (slot other : ℕ) :
    (server.resetSocketSlot slot).status other =
      if other = slot then .invalid else server.status other := by
  unfold resetSocketSlot setStatus
  rw [status_setSocket]

theorem connectTo_fails (server : ServerImpl) (fd : ℕ) (done : Bool) (opaqueValue : ℕ) :
    server.register (.connectTo (some (fd, done)) opaqueValue) false = none := by
  unfold register connectTo
  simp only [setupSocketConnection_fails]
  rfl

theorem listenTo_fails (server : ServerImpl) (fd opaqueValue : ℕ) :
    server.register (.listenTo (some fd) opaqueValue) false = none := by
  unfold register listenTo
  simp only [setupSocketConnection_fails]
  rfl

theorem accept_fails {server : ServerImpl} (slot fd : ℕ) (hwatch : server.watchAccepted = true) :
    server.register (.accept slot (some fd)) false = none := by
  unfold register handleAcceptReady
  simp only [hwatch, setupSocketConnection_fails]
  rfl

theorem watchSocket_fails
    {server : ServerImpl} {fd : ℕ} (listen : Bool)
    (hasks : server.status fd = .paccept ∨ server.status fd = .invalid) :
    server.register (.watchSocket fd listen) false = some (false, server.resetSocketSlot fd) := by
  unfold register watchSocket
  simp only [if_pos hasks]
  rfl

theorem watchRawSocket_fails
    {server : ServerImpl} {fd : ℕ} (listen : Bool) (hinvalid : server.status fd = .invalid) :
    ∃ next, server.register (.watchRawSocket fd listen) false = some (false, next) ∧
      (∀ slot, next.status slot = server.status slot) ∧ next.connNum = server.connNum := by
  have hregister : server.register (.watchRawSocket fd listen) false =
      some (server.watchRawSocket fd listen false) := rfl
  unfold watchRawSocket at hregister
  rw [if_neg (not_not.mpr hinvalid)] at hregister
  refine ⟨_, hregister, fun slot => ?_, rfl⟩
  rw [status_resetSocketSlot, status_setSocket]
  by_cases hslot : slot = fd
  · rw [if_pos hslot, hslot]
    exact hinvalid.symm
  · rw [if_neg hslot, if_neg hslot]

theorem not_intact_of_crash
    {server : ServerImpl} {registration : Registration}
    (hcrash : server.register registration false = none) : ¬ server.Intact registration := by
  rintro ⟨next, hnext, -⟩
  rw [hcrash] at hnext
  cases hnext

theorem watchSocket_intact
    {server : ServerImpl} {fd : ℕ} (listen : Bool)
    (hasks : server.status fd = .paccept ∨ server.status fd = .invalid) :
    server.Intact (.watchSocket fd listen) ↔ server.status fd = .invalid := by
  unfold Intact
  rw [watchSocket_fails listen hasks]
  constructor
  · rintro ⟨next, hnext, hstatus, -⟩
    cases hnext
    rw [← hstatus fd, status_resetSocketSlot, if_pos rfl]
  · intro hinvalid
    refine ⟨_, rfl, fun slot => ?_, rfl⟩
    rw [status_resetSocketSlot]
    by_cases hslot : slot = fd
    · rw [if_pos hslot, hslot]
      exact hinvalid.symm
    · rw [if_neg hslot]

/-- A failed registration leaves the table alone exactly when it is `WatchRawSocket`, or
`WatchSocket` on a slot without a connection. -/
theorem intact_iff_bare
    {server : ServerImpl} {registration : Registration} (hasks : server.Asks registration) :
    server.Intact registration ↔ server.Bare registration := by
  cases registration with
  | connectTo socket opaqueValue =>
      obtain ⟨fd, done, rfl, -⟩ := hasks
      exact ⟨fun hintact => absurd hintact (not_intact_of_crash (connectTo_fails _ fd done _)),
        fun hbare => hbare.elim⟩
  | listenTo socket opaqueValue =>
      obtain ⟨fd, rfl, -⟩ := hasks
      exact ⟨fun hintact => absurd hintact (not_intact_of_crash (listenTo_fails _ fd _)),
        fun hbare => hbare.elim⟩
  | watchSocket fd listen => exact watchSocket_intact listen hasks
  | watchRawSocket fd listen =>
      exact ⟨fun _ => trivial, fun _ => watchRawSocket_fails listen hasks⟩
  | accept slot client =>
      obtain ⟨-, hwatch, fd, rfl, -⟩ := hasks
      exact ⟨fun hintact => absurd hintact (not_intact_of_crash (accept_fails slot fd hwatch)),
        fun hbare => hbare.elim⟩

/-- A server has accepted a connection, which is not watched yet.  When the poller takes no
more, another socket is refused without a trace, and this one loses its slot. -/
theorem intact_besideConnection :
    ∃ process, (machine 8 fun _ _ => (0, 0)).run
        [.call 0 (.listenTo (some 3) 0 true),
          .runPoll 0 [(⟨3, true, false⟩, ⟨some 6, true, true⟩)]] = some process ∧
      (process.servers 0).status 6 = .paccept ∧
      (process.servers 0).Intact (.watchSocket 7 true) ∧
      (process.servers 0).Intact (.watchRawSocket 7 true) ∧
      ¬ (process.servers 0).Intact (.watchSocket 6 true) := by
  obtain ⟨process, hrun, hpaccept, hinvalid⟩ : ∃ process, (machine 8 fun _ _ => (0, 0)).run
      [.call 0 (.listenTo (some 3) 0 true),
        .runPoll 0 [(⟨3, true, false⟩, ⟨some 6, true, true⟩)]] = some process ∧
      (process.servers 0).status 6 = .paccept ∧ (process.servers 0).status 7 = .invalid :=
    ⟨_, rfl, rfl, rfl⟩
  have hraw : (process.servers 0).Asks (.watchRawSocket 7 true) := hinvalid
  have hother : (process.servers 0).Asks (.watchSocket 7 true) := .inr hinvalid
  have hown : (process.servers 0).Asks (.watchSocket 6 true) := .inl hpaccept
  refine ⟨process, hrun, hpaccept, (intact_iff_bare hother).mpr hinvalid,
    (intact_iff_bare hraw).mpr trivial, fun hintact => ?_⟩
  have hbare : (process.servers 0).status 6 = .invalid := (intact_iff_bare hown).mp hintact
  rw [hpaccept] at hbare
  cases hbare

/-- A new server connects, and the poller takes no more. -/
theorem not_intact_connectTo :
    ¬ ∀ (maxSocket : ℕ) (unset : ℕ → ℕ → ℕ × ℕ) (process : Process) (self : ℕ)
      (registration : Registration), (machine maxSocket unset).Reachable process →
        process.crashed = false → (process.servers self).Asks registration →
          (process.servers self).Intact registration := by
  intro hall
  have hintact := hall 8 (fun _ _ => (0, 0)) _ 0 (.connectTo (some (3, true)) 0) .start rfl
    ⟨3, true, rfl, rfl⟩
  exact not_intact_of_crash (connectTo_fails _ 3 true 0) hintact

end ServerImpl

end SocketServer
end BackEndFacility
