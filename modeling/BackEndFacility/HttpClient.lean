import BackEndFacility.HttpBuffer
import Mathlib.Data.List.Basic

/-!
# The HTTP client

`HttpClient::ProcessEvent` runs the handler of the current state until one
returns no progress.  The parsers read the buffer between two pointers of which
`end` is taken once, on entry, while `start` follows `ConsumeBuffer`.

A parser that runs into undefined ground gives no result: a range whose end lies
before its start throws, and a response that needs more than the largest write
buffer is written through a null pointer.
-/

namespace BackEndFacility

inductive EventHandler
  | processRequestLine
  | processHeader
  | processBody
  | generateResponse
  | sendResponse
deriving DecidableEq

/-- The codes of an event that reaches a client. -/
inductive SocketCode
  | read
  | write
deriving DecidableEq

structure HttpClient where
  keepalive : Bool
  readBuffer : HttpReadBuffer
  writeBuffer : HttpWriteBuffer
  pendingWrite : List HttpBuffer
  request : HttpRequest
  response : HttpResponse
  evtHandler : EventHandler
deriving DecidableEq

namespace HttpClient

/-- A new client.  Its read buffer and the fields of the response that no
constructor sets may hold anything. -/
def construct (memory : Bytes) (bodyCapacity : Nat) (closeConn : Bool) (statusCode : Int) :
    HttpClient where
  keepalive := false
  readBuffer := .init memory
  writeBuffer := .init 1024 8
  pendingWrite := []
  request :=
    { bodyLen := 0
      method := .invalid
      version := .invalid
      reqUrl := []
      urlData := []
      httpBody := []
      bodyCapacity := bodyCapacity
      httpHeader := .empty }
  response :=
    { response := false
      closeConn := closeConn
      msgLen := 13 + 2
      statusCode := statusCode
      statusMsg := []
      httpBody := []
      httpHeader := .empty }
  evtHandler := .processRequestLine

def resetClient (policy : StringPolicy) (client : HttpClient) : HttpClient where
  keepalive := false
  readBuffer := client.readBuffer.resetBuffer
  writeBuffer := client.pendingWrite.foldl (·.releaseWriteBuffer ·) client.writeBuffer
  pendingWrite := []
  request := client.request.cleanUp policy
  response := client.response.cleanUp
  evtHandler := .processRequestLine

def consumeBuffer (client : HttpClient) (sz : Nat) : HttpClient :=
  { client with readBuffer := client.readBuffer.consumeBuffer sz }

def setRequest (client : HttpClient) (request : HttpRequest) : HttpClient :=
  { client with request := request }

def finishParsingRequestLine (client : HttpClient) : HttpClient :=
  { client with evtHandler := .processHeader }

def finishParsingHeader (client : HttpClient) : HttpClient :=
  { client with evtHandler := .processBody }

def finishParsingBody (client : HttpClient) : HttpClient :=
  { client with evtHandler := .generateResponse }

def finishGenerateResponse (client : HttpClient) : HttpClient :=
  { client with evtHandler := .sendResponse }

def finishSendResponse (client : HttpClient) : HttpClient :=
  { client with evtHandler := .processRequestLine }

/-! ## Parsing -/

/-- The version at the end of the request line; `stop` is the stale `end`. -/
def parseVersion (client : HttpClient) (stop len : Nat) : Int × HttpClient :=
  let memory := client.readBuffer.memory
  let start := client.readBuffer.getContentStart
  let endOfReq := search httpCtrl memory start stop
  if endOfReq = stop then (len, client)
  else if endOfReq - start ≠ 8 then (-1, client)
  else
    let client := client.setRequest (client.request.setVersion (slice memory start endOfReq))
    if client.request.version = .invalid then (-1, client)
    else (len + 10, (client.consumeBuffer 10).finishParsingRequestLine)

/-- The url and the data behind its question mark, which is looked for in all
that follows.  No result when it lies behind the url. -/
def parseUrl (request : HttpRequest) (memory : Bytes) (start delim stop : Nat) :
    Option HttpRequest :=
  let mark := find questionMark memory start stop
  if mark = stop then some (request.setUrl (slice memory start delim))
  else if mark < delim then
    some ((request.setUrl (slice memory start mark)).setUrlData (slice memory (mark + 1) delim))
  else none

def parseTarget (client : HttpClient) (stop len : Nat) : Option (Int × HttpClient) :=
  let memory := client.readBuffer.memory
  let start := client.readBuffer.getContentStart
  let delim := find space memory start stop
  if delim = stop then some (len, client)
  else
    match parseUrl client.request memory start delim stop with
    | none => none
    | some request =>
        some (((client.setRequest request).consumeBuffer (delim - start + 1)).parseVersion
          stop (len + (delim - start + 1)))

def parseRequestLine (client : HttpClient) : Option (Int × HttpClient) :=
  let memory := client.readBuffer.memory
  let start := client.readBuffer.getContentStart
  let stop := client.readBuffer.getContentEnd
  let delim := find space memory start stop
  if delim = stop then some (0, client)
  else
    let client := client.setRequest (client.request.setHttpMethod (slice memory start delim))
    if client.request.method = .invalid then some (-1, client)
    else (client.consumeBuffer (delim - start + 1)).parseTarget stop (delim - start + 1)

def setKeepalive (client : HttpClient) : HttpClient :=
  { client with
    keepalive := client.request.getHeaderValue
        (ascii ['C', 'o', 'n', 'n', 'e', 'c', 't', 'i', 'o', 'n']) =
      ascii ['K', 'e', 'e', 'p', '-', 'A', 'l', 'i', 'v', 'e'] }

/-- The loop over the header lines, bounded by `fuel`. -/
def parseHeaderLines (stop : Nat) : Nat → Nat → HttpClient → Option (Int × HttpClient)
  | 0, _, _ => none
  | fuel + 1, len, client =>
      let memory := client.readBuffer.memory
      let start := client.readBuffer.getContentStart
      let lineEnd := search httpCtrl memory start stop
      if lineEnd = stop then some (1, client)
      else
        let delim := search httpHeaderDelim memory start lineEnd
        let consumed := client.consumeBuffer (lineEnd - start + 2)
        let len := len + (lineEnd - start + 2)
        if delim = lineEnd then some (len, consumed.setKeepalive.finishParsingHeader)
        else
          let key := slice memory start delim
          let value := slice memory (delim + 2) lineEnd
          parseHeaderLines stop fuel len
            (consumed.setRequest (consumed.request.addHeader key value))

def parseHeader (fuel : Nat) (client : HttpClient) : Option (Int × HttpClient) :=
  parseHeaderLines client.readBuffer.getContentEnd fuel 0 client

def contentLengthKey : Bytes :=
  ascii ['C', 'o', 'n', 't', 'e', 'n', 't', '-', 'L', 'e', 'n', 'g', 't', 'h']

def receiveBody (policy : StringPolicy) (client : HttpClient) (contentLen : Nat) :
    Int × HttpClient :=
  let received := client.request.httpBody.length
  if contentLen ≤ received then (0, client)
  else
    let left := contentLen - received
    let data := client.readBuffer.content
    if left < data.length then (-1, client)
    else
      let client := if data.length = left then client.finishParsingBody else client
      let client := client.setRequest (client.request.appendBody policy data)
      (data.length, client.consumeBuffer data.length)

def parseBody (policy : StringPolicy) (client : HttpClient) : Int × HttpClient :=
  if client.request.method ≠ .post then
    (1, (client.consumeBuffer client.readBuffer.content.length).finishParsingBody)
  else if client.request.bodyLen ≠ 0 then
    client.receiveBody policy client.request.bodyLen
  else
    let clen := client.request.getHeaderValue contentLengthKey
    let contentLen := toSize (atoi clen)
    if clen = [] ∨ contentLen = 0 then (0, client)
    else if maxBodyLength ≤ contentLen then (-1, client)
    else
      (client.setRequest (client.request.setBodySize policy contentLen)).receiveBody policy
        contentLen

end HttpClient

/-! ## The connection -/

/-- What reads answer once the peer's bytes are used up. -/
inductive ReadEnd
  | again
  | error
deriving DecidableEq

/-- The surroundings of a client: its handler, `std::string`, the end of the
input and how many bytes each call of `SendBuffer` accepts. -/
structure Environment where
  cgi : HttpHandler
  policy : StringPolicy
  readEnd : ReadEnd
  accepts : Nat → Nat → Option Nat

/-- A connection on which reads end with `EAGAIN` and everything sent is accepted. -/
def Environment.accepting (cgi : HttpHandler) (policy : StringPolicy) : Environment where
  cgi := cgi
  policy := policy
  readEnd := .again
  accepts := fun _ size => some size

/-- A client with the connection behind it: the pieces that reads will return,
the calls of `ReadBuffer` and `SendBuffer` made, the bytes the latter accepted
and the requests passed to the handler. -/
structure Session where
  client : HttpClient
  incoming : List Bytes
  readCalls : Nat
  sendCalls : Nat
  sent : Bytes
  passed : List HttpRequest

/-- The outcome of one call of an event handler. -/
inductive Reply
  | returned (len : Int) (session : Session)
  | crashed (session : Session)

/-- Bytes stored by a read that was given room for `sz`. -/
structure Received (sz : Nat) where
  bytes : Bytes
  fits : bytes.length ≤ sz

namespace Session

/-- `ReadBuffer`: its value and the bytes it stored.  A piece is what one `read`
would return with room enough; an empty one is the end of the stream. -/
def readBuffer (env : Environment) (session : Session) (sz : Nat) :
    Int × Received sz × Session :=
  let session := { session with readCalls := session.readCalls + 1 }
  match session.incoming with
  | [] =>
      match env.readEnd with
      | .again => (0, ⟨[], Nat.zero_le sz⟩, session)
      | .error => (-1, ⟨[], Nat.zero_le sz⟩, session)
  | [] :: rest => (-1, ⟨[], Nat.zero_le sz⟩, { session with incoming := rest })
  | piece :: rest =>
      ((piece.take sz).length, ⟨piece.take sz, List.length_take_le sz piece⟩,
        { session with incoming := if piece.length ≤ sz then rest else piece.drop sz :: rest })

/-- `SendBuffer`, with no count for an error. -/
def sendBuffer (env : Environment) (session : Session) (data : Bytes) :
    Option Nat × Session :=
  let called := { session with sendCalls := session.sendCalls + 1 }
  match env.accepts session.sendCalls data.length with
  | none => (none, called)
  | some n => (some (min n data.length), { called with sent := session.sent ++ data.take n })

def setReadBuffer (session : Session) (buffer : HttpReadBuffer) : Session :=
  { session with client := { session.client with readBuffer := buffer } }

/-- Read into the free end of the buffer. -/
def readInto (env : Environment) (session : Session) (buffer : HttpReadBuffer) : Int × Session :=
  match (session.setReadBuffer buffer).readBuffer env buffer.freeSize with
  | (ret, received, session) =>
      if 0 < ret then
        (ret, session.setReadBuffer (buffer.increaseContentRange received.bytes received.fits))
      else (ret, session)

def readHttpData (env : Environment) (session : Session) : Int × Session :=
  if session.client.readBuffer.getContenLen ≠ 0 then (0, session)
  else
    let buffer := session.client.readBuffer.getFreeBuffer
    if buffer.freeSize = 0 then (0, session.setReadBuffer buffer)
    else session.readInto env buffer

/-! ## The event handlers -/

/-- The read that opens `ProcessRequestLine`, `ProcessHeader` and `ProcessBody`. -/
def fetch (env : Environment) (code : SocketCode) (session : Session) : Int × Session :=
  if code = .read then session.readHttpData env else (0, session)

/-- Run `parse` on what is buffered, unless the read failed. -/
def process (env : Environment) (code : SocketCode) (session : Session)
    (parse : Session → Option Reply) : Option Reply :=
  match session.fetch env code with
  | (ret, session) =>
      if ret < 0 then some (.returned ret session) else parse session

def setClient (session : Session) (client : HttpClient) : Session :=
  { session with client := client }

def processRequestLine (env : Environment) (code : SocketCode) (session : Session) :
    Option Reply :=
  session.process env code fun session =>
    match session.client.parseRequestLine with
    | none => some (.crashed session)
    | some (len, client) => some (.returned len (session.setClient client))

def processHeader (env : Environment) (code : SocketCode) (fuel : Nat) (session : Session) :
    Option Reply :=
  session.process env code fun session =>
    match session.client.parseHeader fuel with
    | none => none
    | some (len, client) => some (.returned len (session.setClient client))

def processBody (env : Environment) (code : SocketCode) (session : Session) : Option Reply :=
  session.process env code fun session =>
    match session.client.parseBody env.policy with
    | (len, client) => some (.returned len (session.setClient client))

/-- `int sz = response_.GetResponseSize()` -/
def responseSize (response : HttpResponse) : Int :=
  (response.getResponseSize : Int).bmod (2 ^ 32)

/-- Write the response into the buffer that was allocated for it. -/
def queueResponse (session : Session) (response : HttpResponse) :
    Option (HttpBuffer × HttpWriteBuffer) → Reply
  | none => .crashed (session.setClient { session.client with response := response })
  | some (buffer, writeBuffer) =>
      .returned 1 (session.setClient
        { session.client with
          writeBuffer := writeBuffer
          pendingWrite := session.client.pendingWrite ++
            [{ buffer with data := response.generateResponse buffer.size }]
          response := response.cleanUp }.finishGenerateResponse)

def generateResponse (env : Environment) (session : Session) : Reply :=
  { session with passed := session.passed ++ [session.client.request] }.queueResponse
    (env.cgi session.client.request session.client.response)
    (session.client.writeBuffer.allocWriteBuffer
      (responseSize (env.cgi session.client.request session.client.response)))

def sendPending (env : Environment) : List HttpBuffer → Nat → Session → Int × Session
  | [], len, session =>
      (len, session.setClient { session.client with pendingWrite := [] }.finishSendResponse)
  | buffer :: rest, len, session =>
      match session.sendBuffer env buffer.data with
      | (none, session) =>
          (-1, session.setClient { session.client with pendingWrite := buffer :: rest })
      | (some sz, session) =>
          if sz < buffer.data.length then
            (len + sz, session.setClient
              { session.client with
                pendingWrite := { buffer with data := buffer.data.drop sz } :: rest })
          else
            sendPending env rest (len + sz) (session.setClient
              { session.client with
                writeBuffer := session.client.writeBuffer.releaseWriteBuffer buffer })

def sendResponse (env : Environment) (session : Session) : Reply :=
  match session.sendPending env session.client.pendingWrite 0 with
  | (len, session) => .returned len session

def handle (env : Environment) (code : SocketCode) (fuel : Nat) (session : Session) :
    Option Reply :=
  match session.client.evtHandler with
  | .processRequestLine => session.processRequestLine env code
  | .processHeader => session.processHeader env code fuel
  | .processBody => session.processBody env code
  | .generateResponse => some (session.generateResponse env)
  | .sendResponse => some (session.sendResponse env)

def closeConnection (env : Environment) (session : Session) : Session :=
  session.setClient (session.client.resetClient env.policy)

end Session

/-- How an event ends: nothing more to do, the connection closed, or a crash. -/
inductive Ending
  | done
  | closed
  | crashed
deriving DecidableEq

/-- `ProcessEvent`, with `fuel` iterations for its loop and for each loop inside
it.  The sum it returns is read by no caller. -/
def Session.processEvent (env : Environment) (code : SocketCode) :
    Nat → Session → Option (Ending × Session)
  | 0, _ => none
  | fuel + 1, session =>
      match session.handle env code fuel with
      | none => none
      | some (.crashed session) => some (.crashed, session)
      | some (.returned len session) =>
          if len < 0 then some (.closed, session.closeConnection env)
          else if len = 0 then some (.done, session)
          else session.processEvent env code fuel

/-- A client that has just been handed a connection. -/
def Session.connect (env : Environment) (client : HttpClient) : Session where
  client := client.resetClient env.policy
  incoming := []
  readCalls := 0
  sendCalls := 0
  sent := []
  passed := []

/-- The peer's next pieces arrive. -/
def Session.deliver (session : Session) (pieces : List Bytes) : Session :=
  { session with incoming := session.incoming ++ pieces }

/-! ## Events that end -/

theorem HttpClient.parseHeaderLines_mono
    {stop fuel len : Nat} {client : HttpClient} {result : Int × HttpClient}
    (hresult : parseHeaderLines stop fuel len client = some result) :
    parseHeaderLines stop (fuel + 1) len client = some result := by
  induction fuel generalizing len client with
  | zero => simp [parseHeaderLines] at hresult
  | succ fuel ih =>
      rw [parseHeaderLines] at hresult ⊢
      simp only at hresult ⊢
      split_ifs at hresult ⊢ with hline hdelim
      · exact hresult
      · exact hresult
      · exact ih hresult

namespace Session

variable {env : Environment} {code : SocketCode}

theorem handle_mono
    {fuel : Nat} {session : Session} {reply : Reply}
    (hreply : session.handle env code fuel = some reply) :
    session.handle env code (fuel + 1) = some reply := by
  unfold handle at hreply ⊢
  cases hhandler : session.client.evtHandler with
  | processHeader =>
      simp only [hhandler, processHeader, process] at hreply ⊢
      split_ifs at hreply ⊢ with hret
      · exact hreply
      · cases hparse : (session.fetch env code).2.client.parseHeader fuel with
        | none => simp [hparse] at hreply
        | some result =>
            have hmono : (session.fetch env code).2.client.parseHeader (fuel + 1) =
                some result :=
              HttpClient.parseHeaderLines_mono hparse
            rw [hparse] at hreply
            rw [hmono]
            exact hreply
  | _ => simpa [hhandler] using hreply

theorem processEvent_mono
    {fuel : Nat} {session : Session} {result : Ending × Session}
    (hresult : session.processEvent env code fuel = some result) :
    session.processEvent env code (fuel + 1) = some result := by
  induction fuel generalizing session with
  | zero => simp [processEvent] at hresult
  | succ fuel ih =>
      rw [processEvent] at hresult ⊢
      cases hreply : session.handle env code fuel with
      | none => simp [hreply] at hresult
      | some reply =>
          rw [handle_mono hreply]
          rw [hreply] at hresult
          cases reply with
          | crashed next => exact hresult
          | returned len next =>
              simp only at hresult ⊢
              split_ifs at hresult ⊢ with hneg hzero
              · exact hresult
              · exact hresult
              · exact ih hresult

theorem handle_le
    {fuel more : Nat} {session : Session} {reply : Reply}
    (hle : fuel ≤ more)
    (hreply : session.handle env code fuel = some reply) :
    session.handle env code more = some reply := by
  induction hle with
  | refl => exact hreply
  | step _ ih => exact handle_mono ih

theorem processEvent_le
    {fuel more : Nat} {session : Session} {result : Ending × Session}
    (hle : fuel ≤ more)
    (hresult : session.processEvent env code fuel = some result) :
    session.processEvent env code more = some result := by
  induction hle with
  | refl => exact hresult
  | step _ ih => exact processEvent_mono ih

/-- The handler of the current state returns this. -/
def Replies (env : Environment) (code : SocketCode) (session : Session) (reply : Reply) : Prop :=
  ∃ fuel, session.handle env code fuel = some reply

/-- `ProcessEvent` returns, and leaves this behind. -/
def Runs (env : Environment) (code : SocketCode) (session : Session)
    (ending : Ending) (final : Session) : Prop :=
  ∃ fuel, session.processEvent env code fuel = some (ending, final)

theorem Replies.unique
    {session : Session} {first second : Reply}
    (hfirst : session.Replies env code first)
    (hsecond : session.Replies env code second) :
    first = second := by
  obtain ⟨fuel₁, h₁⟩ := hfirst
  obtain ⟨fuel₂, h₂⟩ := hsecond
  have hmax₁ := handle_le (le_max_left fuel₁ fuel₂) h₁
  have hmax₂ := handle_le (le_max_right fuel₁ fuel₂) h₂
  rw [hmax₁] at hmax₂
  exact Option.some.inj hmax₂

theorem Runs.unique
    {session first second : Session} {e₁ e₂ : Ending}
    (hfirst : session.Runs env code e₁ first)
    (hsecond : session.Runs env code e₂ second) :
    e₁ = e₂ ∧ first = second := by
  obtain ⟨fuel₁, h₁⟩ := hfirst
  obtain ⟨fuel₂, h₂⟩ := hsecond
  have hmax₁ := processEvent_le (le_max_left fuel₁ fuel₂) h₁
  have hmax₂ := processEvent_le (le_max_right fuel₁ fuel₂) h₂
  rw [hmax₁] at hmax₂
  simpa using hmax₂

theorem Runs.replies
    {session final : Session} {ending : Ending}
    (hruns : session.Runs env code ending final) :
    ∃ reply, session.Replies env code reply := by
  obtain ⟨fuel, hfuel⟩ := hruns
  cases fuel with
  | zero => simp [processEvent] at hfuel
  | succ fuel =>
      rw [processEvent] at hfuel
      cases hreply : session.handle env code fuel with
      | none => simp [hreply] at hfuel
      | some reply => exact ⟨reply, fuel, hreply⟩

theorem runs_of_crashed
    {session next : Session}
    (hreply : session.Replies env code (.crashed next)) :
    session.Runs env code .crashed next := by
  obtain ⟨fuel, hfuel⟩ := hreply
  refine ⟨fuel + 1, ?_⟩
  rw [processEvent, hfuel]

theorem runs_of_negative
    {session next : Session} {len : Int}
    (hreply : session.Replies env code (.returned len next))
    (hneg : len < 0) :
    session.Runs env code .closed (next.closeConnection env) := by
  obtain ⟨fuel, hfuel⟩ := hreply
  refine ⟨fuel + 1, ?_⟩
  rw [processEvent, hfuel]
  simp only [if_pos hneg]

theorem runs_of_zero
    {session next : Session}
    (hreply : session.Replies env code (.returned 0 next)) :
    session.Runs env code .done next := by
  obtain ⟨fuel, hfuel⟩ := hreply
  refine ⟨fuel + 1, ?_⟩
  rw [processEvent, hfuel]
  rfl

/-- One more iteration of the loop: the handler reports progress. -/
def Continues (env : Environment) (code : SocketCode) (session next : Session) : Prop :=
  ∃ len, 0 < len ∧ session.Replies env code (.returned len next)

theorem Continues.runs_iff
    {session next : Session}
    (hcontinues : session.Continues env code next)
    (ending : Ending) (final : Session) :
    session.Runs env code ending final ↔ next.Runs env code ending final := by
  obtain ⟨len, hpos, base, hbase⟩ := hcontinues
  have hunfold : ∀ fuel, base ≤ fuel →
      session.processEvent env code (fuel + 1) = next.processEvent env code fuel := by
    intro fuel hle
    rw [processEvent, handle_le hle hbase]
    simp only [if_neg (show ¬ len < 0 by omega), if_neg (show ¬ len = 0 by omega)]
  constructor
  · rintro ⟨fuel, hfuel⟩
    refine ⟨max base fuel, ?_⟩
    rw [← hunfold _ (le_max_left base fuel)]
    exact processEvent_le (by omega) hfuel
  · rintro ⟨fuel, hfuel⟩
    refine ⟨max base fuel + 1, ?_⟩
    rw [hunfold _ (le_max_left base fuel)]
    exact processEvent_le (le_max_right base fuel) hfuel

end Session

end BackEndFacility
