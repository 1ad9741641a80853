import BackEndFacility.HttpConnections

/-!
# The listener of the HTTP server

The listening socket is registered with `EPOLLONESHOT` like the others, and nothing arms
it again after an event: `HandleAcceptReady` does not, and the loop unregisters it only
when more connections are open than can have been accepted by then.
-/

namespace BackEndFacility
namespace HttpServer

open SocketServer

/-- The next connection that comes in is reported. -/
def State.Listens (state : State) : Prop :=
  state.server.poller state.listenFd = some true

/-! ## A batch -/

section Batches

variable {server next : ServerImpl} {queues after : Queues} {listenFd : ℕ} {watching : Bool}

theorem handleEvents_connected {self : ℕ} {batch : Batch}
    (hconnected : ∀ delivered ∈ batch, server.status delivered.1.data = .connected)
    (hevents : ServerImpl.handleEvents self queues server batch = some (after, next)) :
    next = server := by
  induction batch generalizing queues with
  | nil =>
      cases hevents
      rfl
  | cons delivered rest ih =>
      obtain ⟨event, answer⟩ := delivered
      have hstatus : server.status event.data = .connected :=
        hconnected (event, answer) List.mem_cons_self
      simp only [ServerImpl.handleEvents, ServerImpl.handleEvent, hstatus] at hevents
      exact ih (fun other hother => hconnected other (List.mem_cons_of_mem _ hother)) hevents

theorem handleEvents_listener {self : ℕ} {batch : Batch}
    (htable : Table listenFd watching server) (hqueued : Queued listenFd server queues)
    (hclients : ∀ delivered ∈ batch, delivered.2.client ≠ some listenFd)
    (hevents : ServerImpl.handleEvents self queues server batch = some (after, next)) :
    next.poller listenFd = server.poller listenFd := by
  induction batch generalizing queues server with
  | nil =>
      cases hevents
      rfl
  | cons delivered rest ih =>
      obtain ⟨event, answer⟩ := delivered
      have hclient := hclients (event, answer) List.mem_cons_self
      simp only [ServerImpl.handleEvents] at hevents
      split at hevents
      · cases hevents
      · rename_i middle server' hevent
        obtain ⟨hnext, -, hmiddle, -⟩ := handleEvent_table htable hqueued hclient hevent
        rw [ih hnext hmiddle (fun other hother => hclients other (List.mem_cons_of_mem _ hother))
          hevents]
        unfold ServerImpl.handleEvent at hevent
        cases hstatus : server.status event.data with
        | invalid =>
            simp only [hstatus] at hevent
            cases hevent
            rfl
        | connected =>
            simp only [hstatus] at hevent
            cases hevent
            rfl
        | connecting =>
            have hused := (htable.used (by rw [hstatus]; decide) (by rw [hstatus]; decide)).1
            rw [hstatus] at hused
            cases hused
        | paccept =>
            have hused := (htable.used (by rw [hstatus]; decide) (by rw [hstatus]; decide)).1
            rw [hstatus] at hused
            cases hused
        | listening =>
            simp only [hstatus] at hevent
            split at hevent
            · cases hevent
            · rename_i slot accepted haccept
              cases hevent
              rcases handleAcceptReady_table htable hclient haccept with
                ⟨hcode, -⟩ | ⟨-, -, -, hown, -⟩
              · exact absurd rfl hcode
              · rcases handleAcceptReady_opens htable.watch haccept with
                  ⟨hcode, -⟩ | ⟨socket, -, -, -, -, hpoller⟩
                · exact absurd rfl hcode
                · rw [hpoller, Function.update_of_ne hown.other.symm]
            · rename_i code slot accepted hcode haccept
              cases hevent
              rcases handleAcceptReady_opens htable.watch haccept with ⟨-, rfl⟩ | ⟨_, hsucc, -⟩
              · rfl
              · exact absurd hsucc hcode

theorem disarmAll_silent {batch : Batch} {poller : SocketPoll} {file : PollEvent × Answer → ℕ}
    {slot : ℕ}
    (hsilent : poller slot ≠ some true ∨ ∃ delivered ∈ batch, file delivered = slot) :
    batch.foldl (fun poller delivered => poller.disarm (file delivered)) poller slot ≠
      some true := by
  induction batch generalizing poller with
  | nil =>
      rcases hsilent with hsilent | ⟨delivered, hnone, -⟩
      · exact hsilent
      · exact absurd hnone List.not_mem_nil
  | cons delivered rest ih =>
      rw [List.foldl_cons]
      refine ih ?_
      rcases hsilent with hsilent | ⟨found, hfound, hfile⟩
      · left
        rw [disarm_apply]
        split_ifs
        · simp
        · exact hsilent
      · rcases List.mem_cons.mp hfound with rfl | hlater
        · left
          rw [disarm_apply]
          split_ifs with hknown
          · simp
          · intro harmed
            refine hknown ⟨hfile.symm, ?_⟩
            rw [harmed]
            simp
        · exact .inr ⟨found, hlater, hfile⟩

end Batches

/-! ## The loop -/

/-- Until the listener has reported something there is no connection, and afterwards one
at most, which is not enough to unregister it. -/
structure Once (state : State) : Prop where
  watching : state.watching = true
  number : (state.server.sockets state.listenFd).fd = state.listenFd
  before : state.Listens → state.server.connNum ≤ 0
  connNum_le : state.server.connNum ≤ 1

/-- Nothing is accepted any more. -/
structure Closing (state next : State) : Prop where
  listens : ¬ state.Listens → ¬ next.Listens
  connected : ¬ state.Listens →
    ∀ slot, next.server.status slot = .connected → state.server.status slot = .connected

section Steps

variable {cgi : HttpHandler} {policy : StringPolicy} {total : ℕ} {state next : State}

theorem handle_server {fresh : HttpClient} {stray : Code} {traffic : Traffic} {fuel : ℕ}
    (hserves : Serves total state)
    (hhandle : state.handle cgi policy fresh stray traffic fuel = some next) :
    next.server.poller state.listenFd = state.server.poller state.listenFd ∧
      ∀ slot, next.server.status slot = .connected → state.server.status slot = .connected := by
  cases haccept : state.queues.accept with
  | cons event rest =>
      have hmem : event ∈ state.queues.accept := by
        rw [haccept]
        exact List.mem_cons_self
      have hown := hserves.steady.queued event (List.mem_append_left _ hmem)
      rw [State.handle_accept haccept (hserves.linked.accepted event hmem) hown.number] at hhandle
      cases hhandle
      exact ⟨rfl, fun _ hconnected => hconnected⟩
  | nil =>
      cases hqueue : state.queues.readWrite with
      | nil => simp [State.handle, State.nextEvent, haccept, hqueue] at hhandle
      | cons event rest =>
          have hown := hserves.steady.queued event (by
            rw [haccept, hqueue]
            exact List.mem_cons_self)
          obtain ⟨connection, code, -, hslot, hconnected, -, hpending⟩ :=
            @handle_pending cgi policy state event rest hserves.linked haccept hqueue hown.number
          have hprocess : (state.taking ⟨[], rest⟩).processEvent cgi policy event.conn connection
              code traffic fuel = _ := State.processEvent_eq hslot hconnected hown.number
          rw [hpending, hprocess] at hhandle
          split at hhandle
          · cases hhandle
          · cases hhandle
          · cases hhandle
            unfold State.rearm
            simp only [hslot]
            split_ifs
            · exact ⟨rfl, fun _ hconnected => hconnected⟩
            · refine ⟨?_, fun _ hconnected => hconnected⟩
              change state.server.poller.modifySocket (state.server.sockets event.conn).fd
                state.listenFd = _
              rw [hown.number, modifySocket_apply, if_neg fun hboth => hown.other hboth.1.symm]
          · cases hhandle
            have hvalid : state.server.status event.conn ≠ .invalid := by
              rw [hconnected]
              simp
            constructor
            · exact ((Linked.closeSocket_apply hvalid hown.number state.listenFd).2).trans
                (if_neg (Ne.symm hown.other))
            · intro slot hstill
              change (state.server.closeSocket event.conn).2.status slot = .connected at hstill
              rw [(Linked.closeSocket_apply hvalid hown.number slot).1] at hstill
              split_ifs at hstill
              exact hstill

theorem throttle_once (htotal : 0 < total) (honce : Once state) (removed added : Bool) :
    state.throttle total removed added = state := by
  have hlimit : ¬ (state.watching = true ∧ (total - total / 8 : ℤ) < state.server.connNum) := by
    rintro ⟨-, hless⟩
    have hone := honce.connNum_le
    omega
  have hidle : ¬ (state.watching = false ∧ state.server.connNum ≤ (total / 2 : ℤ)) := by
    rintro ⟨hunwatched, -⟩
    rw [honce.watching] at hunwatched
    cases hunwatched
  unfold State.throttle
  rw [if_neg hlimit, if_neg hidle]

theorem poll_once {batch : Batch} (hserves : Serves total state) (honce : Once state)
    (hreports : Reports state (.poll batch)) (hpoll : state.poll batch = some next) :
    Once next ∧ Closing state next := by
  obtain ⟨⟨hdistinct, hclients⟩, -⟩ := hreports
  unfold State.poll at hpoll
  split_ifs at hpoll with hready
  split at hpoll
  · cases hpoll
  rename_i queues server hevents
  cases hpoll
  have htable := hserves.steady.table.waitAll batch
  have hqueued : Queued state.listenFd (state.server.waitAll batch) state.queues :=
    hserves.steady.queued.keeps fun _ hnumber => hnumber
  have hlistener : server.poller state.listenFd =
      (state.server.waitAll batch).poller state.listenFd :=
    handleEvents_listener htable hqueued hclients hevents
  have hused : ∀ delivered ∈ batch, state.server.status delivered.1.data ≠ .invalid := by
    intro delivered hmem
    refine hserves.linked.polled delivered.1.data ?_
    rw [hready.2 delivered hmem]
    simp
  obtain ⟨-, hkeeps, -, haccepts⟩ := handleEvents_table htable hqueued hclients hdistinct hevents
  have hnumber : (server.sockets state.listenFd).fd = state.listenFd :=
    hkeeps state.listenFd honce.number
  by_cases hheard : ∃ delivered ∈ batch, delivered.1.data = state.listenFd
  · obtain ⟨delivered, hmem, hdata⟩ := hheard
    have hlistens : state.Listens := by
      have harmed := hready.2 delivered hmem
      rw [hdata] at harmed
      exact harmed
    have hfile : (state.server.sockets delivered.1.data).fd = state.listenFd := by
      rw [hdata]
      exact honce.number
    have hsilent : server.poller state.listenFd ≠ some true := by
      rw [hlistener]
      exact disarmAll_silent (.inr ⟨delivered, hmem, hfile⟩)
    have hbefore := honce.before hlistens
    have hone : server.connNum ≤ 1 := by
      rcases haccepts with ⟨-, hcount⟩ | ⟨-, -, -, hcount⟩
      · rw [hcount]
        exact honce.connNum_le
      · rw [hcount]
        exact Int.add_le_add_right hbefore 1
    exact ⟨⟨honce.watching, hnumber, fun hlistens => absurd hlistens hsilent, hone⟩,
      ⟨fun hspent => absurd hlistens hspent, fun hspent => absurd hlistens hspent⟩⟩
  · -- the batch has events of connections only
    have hothers : ∀ delivered ∈ batch, state.server.status delivered.1.data = .connected ∧
        (state.server.sockets delivered.1.data).fd = delivered.1.data := by
      intro delivered hmem
      obtain ⟨hconnected, hfd, -⟩ := hserves.steady.table.others delivered.1.data
        (fun hdata => hheard ⟨delivered, hmem, hdata⟩) (hused delivered hmem)
      exact ⟨hconnected, hfd⟩
    have hstatus : ∀ delivered ∈ batch,
        (state.server.waitAll batch).status delivered.1.data = .connected :=
      fun delivered hmem => (hothers delivered hmem).1
    obtain rfl := handleEvents_connected hstatus hevents
    have hsame : (state.server.waitAll batch).poller state.listenFd =
        state.server.poller state.listenFd := by
      refine disarmAll_apply.2 fun delivered hmem hfile => hheard ⟨delivered, hmem, ?_⟩
      rw [(hothers delivered hmem).2] at hfile
      exact hfile
    refine ⟨⟨honce.watching, hnumber, fun hlistens => ?_, honce.connNum_le⟩, fun hspent => ?_,
      fun _ slot hconnected => hconnected⟩
    · exact honce.before (hsame.symm.trans hlistens)
    · exact fun hlistens => hspent (hsame.symm.trans hlistens)

theorem step_once {action : Action} (htotal : 0 < total) (hserves : Serves total state)
    (honce : Once state) (hreports : Reports state action)
    (hstep : state.step cgi policy total action = some next) :
    Once next ∧ Closing state next ∧ next.listenFd = state.listenFd := by
  cases action with
  | throttle removed added =>
      simp only [State.step, throttle_once htotal honce] at hstep
      split_ifs at hstep
      cases hstep
      exact ⟨⟨honce.watching, honce.number, honce.before, honce.connNum_le⟩,
        ⟨id, fun _ _ hconnected => hconnected⟩, rfl⟩
  | poll batch =>
      simp only [State.step] at hstep
      split_ifs at hstep
      obtain ⟨hnext, hcloses⟩ := poll_once hserves honce hreports hstep
      refine ⟨hnext, hcloses, ?_⟩
      unfold State.poll at hstep
      split_ifs at hstep
      split at hstep
      · cases hstep
      · cases hstep
        rfl
  | handle fresh stray traffic fuel =>
      simp only [State.step] at hstep
      split_ifs at hstep
      obtain ⟨hlistener, hconnected⟩ := handle_server hserves hstep
      unfold State.handle at hstep
      split at hstep
      · cases hstep
      · rename_i event queues hnext
        have hevent := (Steady.nextEvent_mem hnext).1
        have hhandles := @Handles.pollHandler cgi policy (state.taking queues) next event fresh
          stray traffic fuel hserves.steady.table hserves.steady.held
          (hserves.steady.queued event hevent) hstep
        have hlistenFd : next.listenFd = state.listenFd := hhandles.listenFd_eq
        have hlistens : next.Listens ↔ state.Listens := by
          unfold State.Listens
          rw [hlistenFd, hlistener]
        refine ⟨⟨hhandles.watching_eq.trans honce.watching, ?_, fun hnow => ?_, ?_⟩,
          ⟨fun hspent hnow => hspent (hlistens.mp hnow), fun _ => hconnected⟩, hlistenFd⟩
        · rw [hlistenFd]
          exact hhandles.keeps _ honce.number
        · exact hhandles.connNum_le.trans (honce.before (hlistens.mp hnow))
        · exact hhandles.connNum_le.trans honce.connNum_le

theorem once_start (unset : ℕ → ℕ × ℕ) (total listenFd : ℕ) :
    Once (start unset total listenFd true) := by
  have hsockets : (start unset total listenFd true).server.sockets =
      Function.update (fun slot => ⟨(unset slot).1, .invalid, (unset slot).2⟩) listenFd
        ⟨listenFd, .listening, (unset listenFd).2⟩ := rfl
  have hnumber : ((start unset total listenFd true).server.sockets listenFd).fd = listenFd := by
    rw [hsockets, Function.update_self]
  exact ⟨rfl, hnumber, fun _ => le_refl 0, Int.zero_le_ofNat 1⟩

theorem once_of_reached {unset : ℕ → ℕ × ℕ} {listenFd : ℕ} (htotal : 0 < total)
    (hreached : (machine cgi policy unset total listenFd true).ReachedBy Reports state) :
    Serves total state ∧ Once state :=
  hreached.invariant (fun state => Serves total state ∧ Once state)
    ⟨.start unset total listenFd, once_start unset total listenFd⟩
    (fun _ _ _ hboth hreports hstep => ⟨(hboth.1.step hreports hstep).1,
      (step_once htotal hboth.1 hboth.2 hreports hstep).1⟩)

end Steps

/-! ## Every run -/

/-- After its first event the listener is silent for good: whatever the loop does from then
on, no slot becomes a connection that was not one before, and the connections never
exceed one. -/
theorem accepts_once (cgi : HttpHandler) (policy : StringPolicy) (unset : ℕ → ℕ × ℕ)
    (total listenFd : ℕ) (htotal : 0 < total) (state final : State)
    (hreached : (machine cgi policy unset total listenFd true).ReachedBy Reports state)
    (hspent : ¬ state.Listens) (schedule : List Action)
    (hadmits : (machine cgi policy unset total listenFd true).Admits Reports state schedule)
    (hrun : (machine cgi policy unset total listenFd true).runFrom state schedule = some final) :
    ¬ final.Listens ∧ final.watching = true ∧ final.server.connNum ≤ 1 ∧
      ∀ slot, final.server.status slot = .connected → state.server.status slot = .connected := by
  induction schedule generalizing state with
  | nil =>
      obtain rfl := Option.some.inj hrun
      have honce := (once_of_reached htotal hreached).2
      exact ⟨hspent, honce.watching, honce.connNum_le, fun _ hconnected => hconnected⟩
  | cons action rest ih =>
      obtain ⟨hreports, hrest⟩ := hadmits
      cases hstep : (machine cgi policy unset total listenFd true).step state action with
      | none => simp [Machine.runFrom, hstep] at hrun
      | some next =>
          simp only [Machine.runFrom, hstep] at hrun
          obtain ⟨hserves, honce⟩ := once_of_reached htotal hreached
          obtain ⟨-, hcloses, -⟩ := step_once htotal hserves honce hreports hstep
          obtain ⟨hsilent, hwatching, hone, hconnected⟩ :=
            ih next (.step hreached hreports hstep) (hcloses.listens hspent) (hrest next hstep) hrun
          exact ⟨hsilent, hwatching, hone, fun slot hslot =>
            hcloses.connected hspent slot (hconnected slot hslot)⟩

/-- The listener reports a connection. -/
def acceptFirst : List Action :=
  [.throttle true true, .poll [(⟨3, true, false⟩, ⟨some 5, true, true⟩)]]

/-- The connection is handled, and the loop goes on. -/
def goOn : List Action :=
  [.handle (.construct [0] 0 false 0) .error .quiet 1, .throttle true true]

theorem accepts_once_acceptFirst :
    ∃ state final, (machine (fun _ response => response) .doubling (fun _ => (0, 0)) 8 3 true).run
        acceptFirst = some state ∧
      (machine (fun _ response => response) .doubling (fun _ => (0, 0)) 8 3 true).runFrom state
        goOn = some final ∧
      final.server.status 5 = .connected ∧ ¬ final.Listens := by
  have hrun : (machine (fun _ response => response) .doubling (fun _ => (0, 0)) 8 3 true).run
      acceptFirst = some _ := rfl
  have hadmits : (machine (fun _ response => response) .doubling (fun _ => (0, 0)) 8 3 true).Admits
      Reports (machine (fun _ response => response) .doubling (fun _ => (0, 0)) 8 3 true).start
      acceptFirst := by
    refine ⟨⟨⟨rfl, rfl⟩, trivial⟩, fun _ hfirst => ?_⟩
    cases hfirst
    exact ⟨reports_poll _ (by decide) rfl, fun _ _ => trivial⟩
  refine ⟨_, _, hrun, rfl, rfl, ?_⟩
  exact (accepts_once (fun _ response => response) .doubling (fun _ => (0, 0)) 8 3 (by decide) _ _
    (Machine.ReachedBy.runFrom .start hadmits hrun) nofun goOn
    ⟨⟨trivial, trivial⟩, fun _ _ => ⟨⟨⟨rfl, rfl⟩, trivial⟩, fun _ _ => trivial⟩⟩ rfl).1

end HttpServer
end BackEndFacility
