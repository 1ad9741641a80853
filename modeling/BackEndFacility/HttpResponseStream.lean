import BackEndFacility.HttpWriteMemory
import BackEndFacility.Machine

/-!
# The stream of responses

`GenerateResponse`, `SendResponse` and `ResetClient` over the buffers in memory, in any
order and with any answers of `SendBuffer`.  They are followed by the session over
lists, in which what was accepted and what still waits make up what was queued.
-/

namespace BackEndFacility

/-- The sending half of a client.  Since the last `ResetClient`, `queued` is what was
written into buffers and `accepted` what `SendBuffer` took; `taken` and `returned` are
the buffers that ever left the pool and came back to it. -/
structure Sender where
  memory : WriteMemory
  evtHandler : EventHandler
  sendCalls : Nat
  accepted : Bytes
  queued : Bytes
  taken : List Nat
  returned : List Nat

namespace Sender

def construct (garbage : Nat → Bytes) : Sender where
  memory := .construct garbage
  evtHandler := .processRequestLine
  sendCalls := 0
  accepted := []
  queued := []
  taken := []
  returned := []

/-- Write the response into the buffer that was allocated for it; no result when that is
a null pointer. -/
def queueResponse (sender : Sender) (response : HttpResponse) :
    Option (Nat × WriteMemory) → Option Sender
  | none => none
  | some (buf, memory) =>
      let data := response.generateResponse (memory.node buf).size
      some
        { sender with
          memory := (memory.fill buf data).pushBack buf
          evtHandler := .sendResponse
          queued := sender.queued ++ data
          taken := sender.taken ++ [buf] }

/-- `GenerateResponse` behind the call of the handler. -/
def generateResponse (garbage : Nat → Bytes) (response : HttpResponse) (sender : Sender) :
    Option Sender :=
  sender.queueResponse response
    (sender.memory.allocWriteBuffer (garbage sender.memory.allocated)
      (Session.responseSize response))

def sendBuffer (env : Environment) (sender : Sender) (node : BufferNode) :
    Option Nat × Sender :=
  let called := { sender with sendCalls := sender.sendCalls + 1 }
  match env.accepts sender.sendCalls node.curSize with
  | none => (none, called)
  | some n =>
      (some (min n node.curSize),
        { called with accepted := sender.accepted ++ node.content.take n })

def releaseWriteBuffer (sender : Sender) (buf : Nat) : Sender :=
  { sender with
    memory := sender.memory.releaseWriteBuffer buf
    returned := sender.returned ++ [buf] }

def sendLoop (env : Environment) : Nat → Option Nat → Nat → Sender → Option (Int × Sender)
  | 0, _, _, _ => none
  | _ + 1, none, len, sender => some (len, { sender with evtHandler := .processRequestLine })
  | fuel + 1, some buf, len, sender =>
      match sender.sendBuffer env (sender.memory.node buf) with
      | (none, sender) => some (-1, sender)
      | (some sz, sender) =>
          if sz < (sender.memory.node buf).curSize then
            some (len + sz, { sender with memory := sender.memory.advance buf sz })
          else
            let sender := { sender with memory := sender.memory.popFront.2 }.releaseWriteBuffer buf
            sendLoop env fuel sender.memory.head (len + sz) sender

/-- No more turns are needed than there are buffers. -/
def sendResponse (env : Environment) (sender : Sender) : Option (Int × Sender) :=
  sendLoop env (sender.memory.allocated + 1) sender.memory.head 0 sender

def releasePending : Nat → Sender → Option Sender
  | 0, _ => none
  | fuel + 1, sender =>
      match sender.memory.popFront with
      | (none, memory) => some { sender with memory := memory }
      | (some buf, memory) =>
          releasePending fuel ({ sender with memory := memory }.releaseWriteBuffer buf)

def resetClient (sender : Sender) : Option Sender :=
  match sender.releasePending (sender.memory.allocated + 1) with
  | none => none
  | some sender =>
      some
        { sender with
          evtHandler := .processRequestLine
          accepted := []
          queued := [] }

end Sender

inductive SendAction
  | generate (response : HttpResponse)
  | send
  | reset

def sendStep (env : Environment) (garbage : Nat → Bytes) (sender : Sender) :
    SendAction → Option Sender
  | .generate response => sender.generateResponse garbage response
  | .send =>
      if sender.evtHandler = .sendResponse then (sender.sendResponse env).map Prod.snd else none
  | .reset => sender.resetClient

def sendMachine (env : Environment) (garbage : Nat → Bytes) : Machine Sender SendAction where
  start := .construct garbage
  step := sendStep env garbage

/-! ## The session that is followed -/

namespace Sender

def waitingBytes (pending : List HttpBuffer) : Bytes :=
  (pending.map HttpBuffer.data).flatten

/-- The memory holds the session's lists, what was accepted and what waits is what was
queued, and a buffer that was taken came back or waits. -/
structure Mirrors (sender : Sender) (session : Session) (pending : List HttpBuffer) : Prop where
  memory : sender.memory.Represents session.client.writeBuffer pending []
  evtHandler : sender.evtHandler = session.client.evtHandler
  sendCalls : sender.sendCalls = session.sendCalls
  sent : sender.accepted <:+ session.sent
  stream : sender.queued = sender.accepted ++ waitingBytes pending
  ledger : ∀ buf, sender.taken.count buf =
    sender.returned.count buf + (pending.map HttpBuffer.id).count buf

variable {env : Environment} {garbage : Nat → Bytes} {sender : Sender} {session : Session}
  {pending : List HttpBuffer}

theorem Mirrors.length_le
    (hmirrors : sender.Mirrors session pending) :
    pending.length ≤ sender.memory.allocated := by
  have hlength := hmirrors.memory.once.length_eq
  rw [List.length_map, List.length_append, List.length_append, List.length_range] at hlength
  omega

theorem Mirrors.released
    {buffer : HttpBuffer}
    (hmirrors : sender.Mirrors session (buffer :: pending)) :
    ({ sender with
        accepted := sender.accepted ++ buffer.data
        sendCalls := sender.sendCalls + 1
        memory := sender.memory.popFront.2 }.releaseWriteBuffer buffer.id).Mirrors
      ({ session with
        sent := session.sent ++ buffer.data
        sendCalls := session.sendCalls + 1 }.setClient
          { session.client with
            writeBuffer := session.client.writeBuffer.releaseWriteBuffer buffer }) pending := by
  obtain ⟨popped, hpop, hpopped⟩ := hmirrors.memory.popFront_cons
  refine ⟨?_, hmirrors.evtHandler, congrArg (· + 1) hmirrors.sendCalls, ?_, ?_, ?_⟩
  · show (sender.memory.popFront.2.releaseWriteBuffer buffer.id).Represents _ _ _
    rw [hpop]
    exact hpopped.release
  · obtain ⟨before, hsent⟩ := hmirrors.sent
    refine ⟨before, ?_⟩
    show before ++ (sender.accepted ++ buffer.data) = session.sent ++ buffer.data
    rw [← hsent, List.append_assoc]
  · have hstream := hmirrors.stream
    show sender.queued = sender.accepted ++ buffer.data ++ waitingBytes pending
    rw [hstream, List.append_assoc]
    rfl
  · intro buf
    have hledger := hmirrors.ledger buf
    show sender.taken.count buf =
      (sender.returned ++ [buffer.id]).count buf + (pending.map HttpBuffer.id).count buf
    rw [List.map_cons, List.count_cons] at hledger
    rw [List.count_append, List.count_singleton, hledger]
    omega

theorem Mirrors.advanced
    {buffer : HttpBuffer} {sz : Nat}
    (hmirrors : sender.Mirrors session (buffer :: pending))
    (hsz : sz ≤ buffer.data.length) :
    ({ sender with
        accepted := sender.accepted ++ buffer.data.take sz
        sendCalls := sender.sendCalls + 1
        memory := sender.memory.advance buffer.id sz }).Mirrors
      ({ session with
        sent := session.sent ++ buffer.data.take sz
        sendCalls := session.sendCalls + 1 }.setClient
          { session.client with
            pendingWrite := { buffer with data := buffer.data.drop sz } :: pending })
      ({ buffer with data := buffer.data.drop sz } :: pending) := by
  refine ⟨hmirrors.memory.advance hsz, hmirrors.evtHandler, congrArg (· + 1) hmirrors.sendCalls,
    ?_, ?_, hmirrors.ledger⟩
  · obtain ⟨before, hsent⟩ := hmirrors.sent
    refine ⟨before, ?_⟩
    show before ++ (sender.accepted ++ buffer.data.take sz) =
      session.sent ++ buffer.data.take sz
    rw [← hsent, List.append_assoc]
  · have hstream := hmirrors.stream
    have hsplit : waitingBytes (buffer :: pending) = buffer.data.take sz ++
        waitingBytes ({ buffer with data := buffer.data.drop sz } :: pending) := by
      unfold waitingBytes
      rw [List.map_cons, List.flatten_cons, List.map_cons, List.flatten_cons, ← List.append_assoc,
        List.take_append_drop]
    show sender.queued = sender.accepted ++ buffer.data.take sz ++ waitingBytes _
    rw [hstream, hsplit, List.append_assoc]

theorem Mirrors.front
    {buffer : HttpBuffer}
    (hmirrors : sender.Mirrors session (buffer :: pending)) :
    sender.memory.head = some buffer.id ∧
      (sender.memory.node buffer.id).content = buffer.data ∧
      (sender.memory.node buffer.id).curSize = buffer.data.length :=
  ⟨hmirrors.memory.queue.1, hmirrors.memory.content buffer List.mem_cons_self⟩

theorem Mirrors.sendLoop
    {fuel : Nat} (len : Nat)
    (hmirrors : sender.Mirrors session pending)
    (hfuel : pending.length < fuel) :
    ∃ next, sendLoop env fuel sender.memory.head len sender =
        some ((session.sendPending env pending len).1, next) ∧
      next.Mirrors (session.sendPending env pending len).2
        (session.sendPending env pending len).2.client.pendingWrite := by
  induction pending generalizing sender session fuel len with
  | nil =>
      obtain ⟨fuel, rfl⟩ : ∃ more, fuel = more + 1 := Nat.exists_eq_add_one.mpr hfuel
      have hhead : sender.memory.head = none := hmirrors.memory.queue
      rw [hhead]
      exact ⟨_, rfl, hmirrors.memory, rfl, hmirrors.sendCalls, hmirrors.sent, hmirrors.stream,
        hmirrors.ledger⟩
  | cons buffer rest ih =>
      obtain ⟨fuel, rfl⟩ : ∃ more, fuel = more + 1 :=
        Nat.exists_eq_add_one.mpr (Nat.zero_lt_of_lt hfuel)
      obtain ⟨hhead, hcontent, hcurSize⟩ := hmirrors.front
      have hanswer : env.accepts sender.sendCalls (sender.memory.node buffer.id).curSize =
          env.accepts session.sendCalls buffer.data.length := by
        rw [hcurSize, hmirrors.sendCalls]
      rw [hhead, Sender.sendLoop, Session.sendPending]
      unfold sendBuffer Session.sendBuffer
      rw [hanswer, hcontent]
      cases env.accepts session.sendCalls buffer.data.length with
      | none =>
          exact ⟨_, rfl, hmirrors.memory, hmirrors.evtHandler,
            congrArg (· + 1) hmirrors.sendCalls, hmirrors.sent, hmirrors.stream, hmirrors.ledger⟩
      | some n =>
          simp only [hcurSize]
          have htake : buffer.data.take n = buffer.data.take (min n buffer.data.length) := by
            rw [List.take_eq_take_min]
          rw [htake]
          by_cases hshort : min n buffer.data.length < buffer.data.length
          · rw [if_pos hshort, if_pos hshort]
            exact ⟨_, rfl, hmirrors.advanced hshort.le⟩
          · have hwhole : min n buffer.data.length = buffer.data.length := by
              omega
            rw [if_neg hshort, if_neg hshort, hwhole, List.take_length]
            exact ih (len + buffer.data.length) hmirrors.released
              (Nat.lt_of_succ_lt_succ hfuel)

/-- How a call of `SendResponse` ends: with an error, with nothing left to send, or with
bytes that were not accepted. -/
theorem sendPending_ending (env : Environment) (pending : List HttpBuffer) (len : Nat)
    (session : Session) :
    ((session.sendPending env pending len).1 = -1 ∧
      (session.sendPending env pending len).2.client.evtHandler = session.client.evtHandler) ∨
    (0 ≤ (session.sendPending env pending len).1 ∧
      (session.sendPending env pending len).2.client.evtHandler = .processRequestLine ∧
      waitingBytes (session.sendPending env pending len).2.client.pendingWrite = []) ∨
    (0 ≤ (session.sendPending env pending len).1 ∧
      (session.sendPending env pending len).2.client.evtHandler = session.client.evtHandler ∧
      waitingBytes (session.sendPending env pending len).2.client.pendingWrite ≠ []) := by
  induction pending generalizing session len with
  | nil => exact .inr (.inl ⟨Int.natCast_nonneg len, rfl, rfl⟩)
  | cons buffer rest ih =>
      rw [Session.sendPending]
      unfold Session.sendBuffer
      cases env.accepts session.sendCalls buffer.data.length with
      | none => exact .inl ⟨rfl, rfl⟩
      | some n =>
          simp only
          split_ifs with hshort
          · refine .inr (.inr ⟨by positivity, rfl, ?_⟩)
            show waitingBytes
              ({ buffer with data := buffer.data.drop (min n buffer.data.length) } :: rest) ≠ []
            unfold waitingBytes
            rw [List.map_cons, List.flatten_cons]
            intro hnil
            have hdrop := (List.append_eq_nil_iff.mp hnil).1
            rw [List.drop_eq_nil_iff] at hdrop
            omega
          · exact ih (len + min n buffer.data.length) _

theorem Mirrors.releasePending
    {pool : HttpWriteBuffer} {fuel : Nat}
    (hmemory : sender.memory.Represents pool pending [])
    (hfuel : pending.length < fuel) :
    ∃ next, sender.releasePending fuel = some next ∧
      next.memory.Represents (pending.foldl (·.releaseWriteBuffer ·) pool) [] [] ∧
      next.sendCalls = sender.sendCalls ∧ next.taken = sender.taken ∧
      next.returned = sender.returned ++ pending.map HttpBuffer.id := by
  induction pending generalizing sender pool fuel with
  | nil =>
      obtain ⟨fuel, rfl⟩ : ∃ more, fuel = more + 1 := Nat.exists_eq_add_one.mpr hfuel
      have hpop := hmemory.popFront_nil
      refine ⟨sender, ?_, hmemory, rfl, rfl, (List.append_nil _).symm⟩
      rw [Sender.releasePending, hpop]
  | cons buffer rest ih =>
      obtain ⟨fuel, rfl⟩ : ∃ more, fuel = more + 1 :=
        Nat.exists_eq_add_one.mpr (Nat.zero_lt_of_lt hfuel)
      obtain ⟨popped, hpop, hpopped⟩ := hmemory.popFront_cons
      have hreleased : ({ sender with memory := popped }.releaseWriteBuffer
          buffer.id).memory.Represents (pool.releaseWriteBuffer buffer) rest [] :=
        hpopped.release
      obtain ⟨next, hnext, hlast, hcalls, htaken, hreturned⟩ :=
        ih hreleased (Nat.lt_of_succ_lt_succ hfuel)
      refine ⟨next, ?_, hlast, hcalls, htaken, ?_⟩
      · rw [Sender.releasePending, hpop]
        exact hnext
      · rw [hreturned]
        exact List.append_assoc sender.returned [buffer.id] (rest.map HttpBuffer.id)

theorem Mirrors.resetClient
    (hmirrors : sender.Mirrors session session.client.pendingWrite) :
    ∃ next, sender.resetClient = some next ∧
      next.Mirrors (session.closeConnection env) [] := by
  obtain ⟨next, hnext, hmemory, hcalls, htaken, hreturned⟩ :=
    Mirrors.releasePending hmirrors.memory (Nat.lt_succ_of_le hmirrors.length_le)
  refine ⟨{ next with evtHandler := .processRequestLine, accepted := [], queued := [] }, ?_,
    hmemory, rfl, hcalls.trans hmirrors.sendCalls, List.nil_suffix, rfl, ?_⟩
  · unfold Sender.resetClient
    rw [hnext]
  · intro buf
    have hledger := hmirrors.ledger buf
    show next.taken.count buf = next.returned.count buf + 0
    rw [htaken, hreturned, List.count_append, hledger]
    rfl

theorem Mirrors.queueResponse
    {response : HttpResponse} {next : Sender} {sz : Int} {bytes : Bytes}
    (hmirrors : sender.Mirrors session session.client.pendingWrite)
    (hnext : sender.queueResponse response (sender.memory.allocWriteBuffer bytes sz) =
      some next) :
    ∃ after, session.queueResponse response
        (session.client.writeBuffer.allocWriteBuffer sz) = .returned 1 after ∧
      next.Mirrors after after.client.pendingWrite := by
  cases halloc : session.client.writeBuffer.allocWriteBuffer sz with
  | none =>
      rw [hmirrors.memory.alloc_none _ halloc] at hnext
      cases hnext
  | some found =>
      obtain ⟨buffer, left⟩ := found
      obtain ⟨memory, htake, hrep, hnull, hptr⟩ :=
        hmirrors.memory.alloc bytes halloc
      have hsize : (memory.node buffer.id).size = buffer.size :=
        hrep.sizes buffer (by simp)
      rw [htake, Sender.queueResponse, hsize] at hnext
      cases hnext
      have hfilled := hrep.fill (response.generateResponse buffer.size) hptr
      have hlinked : (memory.fill buffer.id (response.generateResponse buffer.size)).next
          buffer.id = none := by
        unfold WriteMemory.next WriteMemory.fill
        rw [WriteMemory.node_setNode_self]
        exact hnull
      refine ⟨_, rfl, hfilled.pushBack hlinked, rfl, hmirrors.sendCalls, hmirrors.sent, ?_, ?_⟩
      · have hstream := hmirrors.stream
        show sender.queued ++ response.generateResponse buffer.size =
          sender.accepted ++ waitingBytes (session.client.pendingWrite ++ [_])
        rw [hstream, List.append_assoc]
        simp [waitingBytes]
      · intro buf
        have hledger := hmirrors.ledger buf
        show (sender.taken ++ [buffer.id]).count buf = sender.returned.count buf +
          ((session.client.pendingWrite ++ [_]).map HttpBuffer.id).count buf
        rw [List.count_append, hledger, List.map_append, List.count_append, Nat.add_assoc]
        rfl

theorem mirrors_construct (env : Environment) (garbage : Nat → Bytes) (memory : Bytes) :
    (construct garbage).Mirrors (.connect env (HttpClient.construct memory 15 false 0)) [] :=
  ⟨WriteMemory.represents_construct garbage, rfl, rfl, List.nil_suffix, rfl, fun _ => rfl⟩

/-- Whatever is queued, sent and reset, the memory mirrors a session. -/
theorem exists_mirrored
    (hreach : (sendMachine env garbage).Reachable sender) :
    ∃ session, sender.Mirrors session session.client.pendingWrite := by
  refine Machine.ReachedBy.invariant
    (fun sender => ∃ session : Session, sender.Mirrors session session.client.pendingWrite)
    ⟨_, mirrors_construct env garbage []⟩ ?_ hreach
  rintro before action after ⟨session, hmirrors⟩ - htaken
  have hstep : sendStep env garbage before action = some after := htaken
  cases action with
  | generate response =>
      rw [sendStep, Sender.generateResponse] at hstep
      obtain ⟨after', -, hafter⟩ := hmirrors.queueResponse hstep
      exact ⟨after', hafter⟩
  | send =>
      rw [sendStep] at hstep
      obtain ⟨next, hnext, hafter⟩ :=
        @Mirrors.sendLoop env _ _ _ _ 0 hmirrors (Nat.lt_succ_of_le hmirrors.length_le)
      split_ifs at hstep
      unfold sendResponse at hstep
      rw [hnext] at hstep
      cases hstep
      exact ⟨_, hafter⟩
  | reset =>
      obtain ⟨next, hnext, hafter⟩ := @Mirrors.resetClient env _ _ hmirrors
      rw [sendStep, hnext] at hstep
      cases hstep
      exact ⟨_, hafter⟩

/-- Every buffer there is waits in the queue or is in one free list, once; and each one
that was taken came back, or waits. -/
def Accounted (sender : Sender) : Prop :=
  ∃ (waiting : List Nat) (free : List (List Nat)),
    Chained sender.memory.next sender.memory.head waiting ∧
    (∀ index, Chained sender.memory.next (sender.memory.freeBuffer.getD index none)
      (free.getD index [])) ∧
    (waiting ++ free.flatten).Perm (List.range sender.memory.allocated) ∧
    ∀ buf, sender.taken.count buf = sender.returned.count buf + waiting.count buf

theorem Mirrors.accounted
    (hmirrors : sender.Mirrors session pending) :
    sender.Accounted := by
  refine ⟨pending.map HttpBuffer.id,
    session.client.writeBuffer.freeBuffer.map (·.map HttpBuffer.id), hmirrors.memory.queue, ?_,
    ?_, hmirrors.ledger⟩
  · intro index
    have hslot := hmirrors.memory.slots index
    simp only [List.getD_eq_getElem?_getD] at hslot ⊢
    rw [List.getElem?_map]
    cases hlist : session.client.writeBuffer.freeBuffer[index]? with
    | none =>
        rw [hlist] at hslot
        exact hslot
    | some list =>
        rw [hlist] at hslot
        exact hslot
  · have honce := hmirrors.memory.once
    rw [List.append_nil, List.map_append, List.map_flatten] at honce
    exact honce

/-- In every run the bytes accepted are a prefix of what was queued, a call of
`SendResponse` leaves the send state exactly when it has had all of it accepted, every
buffer is in one place, and closing the connection brings back those that wait. -/
theorem responses_delivered
    (hreach : (sendMachine env garbage).Reachable sender) :
    sender.accepted <+: sender.queued ∧
    (sender.evtHandler = .sendResponse → ∃ ret next,
      sender.sendResponse env = some (ret, next) ∧
      (next.evtHandler ≠ .sendResponse ↔ 0 ≤ ret ∧ next.accepted = next.queued)) ∧
    sender.Accounted ∧
    ∃ next, sender.resetClient = some next ∧ next.memory.head = none ∧
      ∀ buf, next.taken.count buf = next.returned.count buf := by
  obtain ⟨session, hmirrors⟩ := exists_mirrored hreach
  refine ⟨⟨_, hmirrors.stream.symm⟩, ?_, hmirrors.accounted, ?_⟩
  · intro hsending
    obtain ⟨next, hnext, hafter⟩ :=
      @Mirrors.sendLoop env _ _ _ _ 0 hmirrors (Nat.lt_succ_of_le hmirrors.length_le)
    refine ⟨_, next, hnext, ?_⟩
    have hstream := hafter.stream
    have hsession : session.client.evtHandler = .sendResponse :=
      hmirrors.evtHandler.symm.trans hsending
    rcases sendPending_ending env session.client.pendingWrite 0 session with
      ⟨hret, hhandler⟩ | ⟨hret, hhandler, hnil⟩ | ⟨hret, hhandler, hleft⟩
    · rw [hret, hafter.evtHandler, hhandler, hsession]
      exact ⟨fun hne => absurd rfl hne, fun hnonneg => absurd hnonneg.1 (by decide)⟩
    · rw [hafter.evtHandler, hhandler]
      rw [hnil, List.append_nil] at hstream
      exact ⟨fun _ => ⟨hret, hstream.symm⟩, fun _ => nofun⟩
    · rw [hafter.evtHandler, hhandler, hsession]
      refine ⟨fun hne => absurd rfl hne, fun hall => absurd ?_ hleft⟩
      rw [hall.2] at hstream
      exact List.self_eq_append_right.mp hstream
  · obtain ⟨next, hnext, hafter⟩ := @Mirrors.resetClient env _ _ hmirrors
    exact ⟨next, hnext, hafter.memory.queue, hafter.ledger⟩

def fiveAtATime : Environment where
  cgi := fun _ response => response
  policy := .doubling
  readEnd := .again
  accepts := fun _ _ => some 5

def emptyResponse : HttpResponse where
  response := true
  closeConn := false
  msgLen := 15
  statusCode := 200
  statusMsg := []
  httpBody := []
  httpHeader := .empty

def fiveBytesLeft : List SendAction :=
  .generate emptyResponse :: .generate emptyResponse :: List.replicate 6 .send

theorem responses_delivered_fiveBytes :
    ∃ sender, (sendMachine fiveAtATime (fun _ => [])).run fiveBytesLeft = some sender ∧
      sender.accepted.length = 32 ∧ sender.accepted <+: sender.queued ∧ sender.Accounted ∧
      ∃ ret next, sender.sendResponse fiveAtATime = some (ret, next) ∧
        next.evtHandler ≠ .sendResponse ∧ 0 ≤ ret ∧ next.accepted = next.queued := by
  have hrun : ((sendMachine fiveAtATime (fun _ => [])).run fiveBytesLeft).map
      (fun sender => (sender.accepted.length, sender.evtHandler,
        (sender.sendResponse fiveAtATime).map (·.2.evtHandler))) =
      some (32, .sendResponse, some .processRequestLine) := by
    decide +kernel
  obtain ⟨sender, hsender, hseen⟩ := Option.map_eq_some_iff.mp hrun
  simp only [Prod.mk.injEq] at hseen
  obtain ⟨hlength, hsending, hlast⟩ := hseen
  have hreach : (sendMachine fiveAtATime (fun _ => [])).Reachable sender :=
    Machine.Reachable.runFrom .start hsender
  obtain ⟨hinitial, hends, haccounted, -⟩ := responses_delivered hreach
  obtain ⟨ret, next, hnext, hiff⟩ := hends hsending
  have hleft : next.evtHandler ≠ .sendResponse := by
    rw [hnext, Option.map_some, Option.some.injEq] at hlast
    rw [hlast]
    decide
  obtain ⟨hret, hall⟩ := hiff.mp hleft
  exact ⟨sender, hsender, hlength, hinitial, haccounted, ret, next, hnext, hleft, hret, hall⟩

def lostAfterOne : Environment where
  cgi := fun _ response => response
  policy := .doubling
  readEnd := .again
  accepts := fun call size => if call = 0 then some size else none

/-- Behind the first response `CleanUp` has forgotten the status line, and this one is
announced as 1024 bytes and does not fit into them. -/
def overlongResponse : HttpResponse :=
  { emptyResponse with
    msgLen := 0
    httpBody := List.replicate 1020 97 }

/-- The first response is sent; for the second one an empty buffer is queued, of which
nothing is left to accept, and `SendBuffer` reports the error. -/
theorem not_leaves_overlongResponse :
    ∃ sender, (sendMachine lostAfterOne (fun _ => [])).run
        [.generate emptyResponse, .send, .generate overlongResponse] = some sender ∧
      sender.evtHandler = .sendResponse ∧
      ∃ next, sender.sendResponse lostAfterOne = some (-1, next) ∧
        next.accepted = next.queued ∧ next.accepted.length = 17 ∧
        ¬ (next.evtHandler ≠ .sendResponse ↔ next.accepted = next.queued) := by
  have hrun : ((sendMachine lostAfterOne (fun _ => [])).run
      [.generate emptyResponse, .send, .generate overlongResponse]).map
        (fun sender => (sender.evtHandler, (sender.sendResponse lostAfterOne).map fun reply =>
          (reply.1, decide (reply.2.accepted = reply.2.queued), reply.2.accepted.length,
            reply.2.evtHandler))) =
      some (.sendResponse, some (-1, true, 17, .sendResponse)) := by
    decide +kernel
  obtain ⟨sender, hsender, hseen⟩ := Option.map_eq_some_iff.mp hrun
  simp only [Prod.mk.injEq] at hseen
  obtain ⟨hsending, hsend⟩ := hseen
  obtain ⟨⟨ret, next⟩, hnext, hreply⟩ := Option.map_eq_some_iff.mp hsend
  simp only [Prod.mk.injEq, decide_eq_true_eq] at hreply
  obtain ⟨rfl, hall, hlength, hstays⟩ := hreply
  refine ⟨sender, hsender, hsending, next, hnext, hall, hlength, ?_⟩
  intro hiff
  exact hiff.mpr hall hstays

end Sender

end BackEndFacility
