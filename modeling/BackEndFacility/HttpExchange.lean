import BackEndFacility.HttpHead

/-!
# A request and its response

A well-formed request that arrives in one read takes an idle client through all
of its states: the request line, the header lines, the body, the handler and the
response.  What the handler is given depends on the request object it was left
with, and `Message.handed` says how.
-/

namespace BackEndFacility

/-! ## Well-formed requests -/

/-- The length that a header announces, 0 when it announces none. -/
def announcedLength (header : SortedMap Bytes Bytes) : Nat :=
  toSize (atoi ((header.lookup HttpClient.contentLengthKey).getD []))

/-- A request in which the `Content-Length`, if any, is that of the body, and only
a `POST` has a body. -/
structure Message where
  method : HttpMethod
  version : HttpVersion
  url : Bytes
  query : Option Bytes
  fields : List HeaderField
  body : Bytes
  method_valid : method ≠ .invalid
  version_valid : version ≠ .invalid
  url_space : space ∉ url
  url_mark : questionMark ∉ url
  query_space : ∀ data, query = some data → space ∉ data
  announced : announcedLength (storeFields .empty fields) = body.length
  bounded : body.length < maxBodyLength
  bodyless : method ≠ .post → body = []

namespace Message

/-- The url with its query. -/
def target (message : Message) : Bytes :=
  match message.query with
  | none => message.url
  | some data => message.url ++ questionMark :: data

/-- Everything behind the request line, when these bytes follow the header. -/
def tail (message : Message) (behind : Bytes) : Bytes :=
  headerText message.fields ++ httpCtrl ++ behind

def textBefore (message : Message) (behind : Bytes) : Bytes :=
  message.method.name ++ space ::
    (message.target ++ space :: (message.version.name ++ httpCtrl ++ message.tail behind))

def text (message : Message) : Bytes :=
  message.textBefore message.body

/-- The request object once the request line is parsed. -/
def startLine (message : Message) (request : HttpRequest) : HttpRequest :=
  let request := (request.setHttpMethod message.method.name).setUrl message.url
  match message.query with
  | none => request.setVersion message.version.name
  | some data => (request.setUrlData data).setVersion message.version.name

/-- The request line of the message. -/
def head (message : Message) : StartLine where
  method := message.method
  version := message.version
  url := message.url
  query := message.query
  method_valid := message.method_valid
  version_valid := message.version_valid
  url_space := message.url_space
  url_mark := message.url_mark
  query_space := message.query_space

theorem tail_ne_nil (message : Message) (behind : Bytes) :
    message.tail behind ≠ [] := by
  simp [tail, httpCtrl]

theorem textBefore_ne_nil (message : Message) (behind : Bytes) :
    message.textBefore behind ≠ [] := by
  simp [textBefore]

theorem text_append (message : Message) (rest : Bytes) :
    message.text ++ rest = message.textBefore (message.body ++ rest) := by
  simp [text, textBefore, tail]

/-- A question mark behind a url that has none of its own. -/
def MarkBehind (message : Message) (behind : Bytes) : Prop :=
  message.query = none ∧ questionMark ∈ message.tail behind

instance decidableMarkBehind (message : Message) (behind : Bytes) :
    Decidable (message.MarkBehind behind) :=
  inferInstanceAs (Decidable (message.query = none ∧ questionMark ∈ message.tail behind))

end Message

namespace HttpClient

/-! ## The head of a message -/

section Head

variable {client : HttpClient} {message : Message} {behind : Bytes}

theorem parseRequestLine_marked
    (hcontent : client.readBuffer.content = message.textBefore behind)
    (hmark : message.MarkBehind behind) :
    client.parseRequestLine = none :=
  @parseRequestLine_throws client message.head (message.tail behind) hcontent hmark

theorem parseRequestLine_message
    (hcontent : client.readBuffer.content = message.textBefore behind)
    (hmark : ¬ message.MarkBehind behind) :
    ∃ (len : Nat) (next : HttpClient), 0 < len ∧
      client.Advanced (message.startLine client.request) (message.tail behind) next ∧
      client.parseRequestLine = some ((len : Int), next.finishParsingRequestLine) := by
  obtain ⟨len, stored, hpos, hstored, hparse⟩ :=
    @parseRequestLine_stores client message.head (message.tail behind) hcontent hmark
  have hline : (message.head.located client.request).setVersion message.version.name =
      message.startLine client.request := by
    have hquery : message.head.query = message.query := rfl
    unfold StartLine.located Message.startLine
    rw [hquery]
    cases message.query <;> rfl
  have hlength : (message.version.name ++ httpCtrl).length = 10 := by
    rw [List.length_append, HttpVersion.name_length message.version_valid]
    rfl
  have hnext := hstored.consume (message.startLine client.request) rfl
    (message.tail_ne_nil behind)
  rw [show message.head.version = message.version from rfl, hlength] at hnext
  rw [show message.head.version = message.version from rfl, hline] at hparse
  exact ⟨len, _, hpos, hnext, hparse⟩

end Head

end HttpClient

/-! ## The body of a message -/

namespace HttpRequest

/-- The request handed on when these bytes complete the body. -/
def completeBody (policy : StringPolicy) (request : HttpRequest) (data : Bytes) :
    Option HttpRequest :=
  if data ≠ [] ∧ request.httpBody.length + data.length = request.bodyLen then
    some (request.appendBody policy data)
  else none

/-- The request handed on when `ParseBody` finds these bytes behind the header. -/
def acceptBody (policy : StringPolicy) (request : HttpRequest) (data : Bytes) :
    Option HttpRequest :=
  if request.method ≠ .post then some request
  else if request.bodyLen ≠ 0 then request.completeBody policy data
  else
    let contentLen := announcedLength request.httpHeader
    if contentLen = 0 ∨ maxBodyLength ≤ contentLen then none
    else (request.setBodySize policy contentLen).completeBody policy data

end HttpRequest

namespace HttpClient

variable {policy : StringPolicy}

/-- The client with a whole request, ready for the handler. -/
structure BodyRead (client : HttpClient) (request : HttpRequest) (next : HttpClient) : Prop where
  frame : next =
    { client with
      request := request
      evtHandler := .generateResponse
      readBuffer := next.readBuffer }
  content : next.readBuffer.content = []
  size : next.readBuffer.size = client.readBuffer.size

theorem receiveBody_complete
    {client : HttpClient} {request : HttpRequest}
    (hcomplete : client.request.completeBody policy client.readBuffer.content = some request) :
    ∃ (len : Nat) (next : HttpClient), 0 < len ∧ client.BodyRead request next ∧
      client.receiveBody policy client.request.bodyLen = ((len : Int), next) := by
  unfold HttpRequest.completeBody at hcomplete
  split_ifs at hcomplete with hbody
  obtain ⟨hdata, hlength⟩ := hbody
  have hpos : 0 < client.readBuffer.content.length := List.length_pos_iff.mpr hdata
  have hdrained : client.readBuffer.curSize ≤ client.readBuffer.content.length := by
    rw [HttpReadBuffer.content_length]
  refine ⟨client.readBuffer.content.length,
    (client.finishParsingBody.setRequest request).consumeBuffer client.readBuffer.content.length,
    hpos, ⟨rfl, HttpReadBuffer.content_drained hdrained, rfl⟩, ?_⟩
  have hrequest := Option.some.inj hcomplete
  unfold receiveBody
  simp only
  rw [if_neg (by omega), if_neg (by omega), if_pos (by omega), ← hrequest]
  rfl

theorem getHeaderValue_length (request : HttpRequest) :
    toSize (atoi (request.getHeaderValue contentLengthKey)) =
      announcedLength request.httpHeader :=
  rfl

theorem parseBody_accepted
    {client : HttpClient} {request : HttpRequest}
    (haccept : client.request.acceptBody policy client.readBuffer.content = some request) :
    ∃ (len : Nat) (next : HttpClient), 0 < len ∧ client.BodyRead request next ∧
      client.parseBody policy = ((len : Int), next) := by
  unfold HttpRequest.acceptBody at haccept
  unfold parseBody
  simp only at haccept ⊢
  by_cases hmethod : client.request.method ≠ .post
  · rw [if_pos hmethod] at haccept
    have hrequest := Option.some.inj haccept
    have hdrained : client.readBuffer.curSize ≤ client.readBuffer.content.length := by
      rw [HttpReadBuffer.content_length]
    rw [if_pos hmethod]
    refine ⟨1, (client.consumeBuffer client.readBuffer.content.length).finishParsingBody,
      Nat.one_pos, ⟨?_, HttpReadBuffer.content_drained hdrained, rfl⟩, rfl⟩
    rw [← hrequest]
    rfl
  · rw [if_neg hmethod] at haccept ⊢
    by_cases hset : client.request.bodyLen ≠ 0
    · rw [if_pos hset] at haccept ⊢
      exact receiveBody_complete haccept
    · rw [if_neg hset] at haccept ⊢
      split_ifs at haccept with hnone
      rw [not_or, not_le] at hnone
      have hzero : ¬ (client.request.getHeaderValue contentLengthKey = [] ∨
          toSize (atoi (client.request.getHeaderValue contentLengthKey)) = 0) := by
        rw [not_or]
        refine ⟨fun hempty => hnone.1 ?_, hnone.1⟩
        rw [← getHeaderValue_length, hempty]
        rfl
      rw [if_neg hzero, getHeaderValue_length, if_neg (not_le.mpr hnone.2)]
      obtain ⟨len, next, hpos, hread, hreceive⟩ := @receiveBody_complete policy
        (client.setRequest
          (client.request.setBodySize policy (announcedLength client.request.httpHeader)))
        request haccept
      exact ⟨len, next, hpos, ⟨hread.frame, hread.content, hread.size⟩, hreceive⟩

/-- The client has taken all there is and waits for more of the body. -/
structure Detained (client : HttpClient) : Prop where
  handler : client.evtHandler = .processBody
  method : client.request.method = .post
  content : client.readBuffer.content = []

theorem appendBody_method (policy : StringPolicy) (request : HttpRequest) (data : Bytes) :
    (request.appendBody policy data).method = request.method := by
  unfold HttpRequest.appendBody
  split_ifs
  · rfl
  · rfl

theorem negOne_nonpos : (-1 : Int) ≤ 0 := by
  decide

theorem receiveBody_refused
    {client : HttpClient}
    (hhandler : client.evtHandler = .processBody)
    (hmethod : client.request.method = .post)
    (hrefused : client.request.completeBody policy client.readBuffer.content = none) :
    (client.receiveBody policy client.request.bodyLen).1 ≤ 0 ∨
      (client.receiveBody policy client.request.bodyLen).2.Detained := by
  have hdrained : client.readBuffer.curSize ≤ client.readBuffer.content.length := by
    rw [HttpReadBuffer.content_length]
  unfold HttpRequest.completeBody at hrefused
  unfold receiveBody
  simp only
  by_cases hfull : client.request.bodyLen ≤ client.request.httpBody.length
  · rw [if_pos hfull]
    exact .inl le_rfl
  rw [if_neg hfull]
  by_cases hlong : client.request.bodyLen - client.request.httpBody.length <
      client.readBuffer.content.length
  · rw [if_pos hlong]
    exact .inl negOne_nonpos
  rw [if_neg hlong]
  by_cases hempty : client.readBuffer.content = []
  · rw [hempty]
    exact .inl le_rfl
  have hpartial : ¬ client.readBuffer.content.length =
      client.request.bodyLen - client.request.httpBody.length := by
    intro hexact
    rw [if_pos ⟨hempty, by omega⟩] at hrefused
    cases hrefused
  rw [if_neg hpartial]
  refine .inr ⟨hhandler, ?_, HttpReadBuffer.content_drained hdrained⟩
  exact (appendBody_method policy client.request _).trans hmethod

/-- Bytes that do not complete a body are refused, or they are taken and the client
waits for more. -/
theorem parseBody_refused
    {client : HttpClient}
    (hhandler : client.evtHandler = .processBody)
    (hrefused : client.request.acceptBody policy client.readBuffer.content = none) :
    (client.parseBody policy).1 ≤ 0 ∨ (client.parseBody policy).2.Detained := by
  unfold HttpRequest.acceptBody at hrefused
  unfold parseBody
  simp only at hrefused ⊢
  by_cases hmethod : client.request.method ≠ .post
  · rw [if_pos hmethod] at hrefused
    cases hrefused
  rw [if_neg hmethod] at hrefused ⊢
  rw [not_not] at hmethod
  by_cases hset : client.request.bodyLen ≠ 0
  · rw [if_pos hset] at hrefused ⊢
    exact receiveBody_refused hhandler hmethod hrefused
  rw [if_neg hset] at hrefused ⊢
  split_ifs with hnone hlong
  · exact .inl le_rfl
  · exact .inl negOne_nonpos
  · rw [not_or, getHeaderValue_length] at hnone
    rw [getHeaderValue_length] at hlong ⊢
    rw [if_neg (by omega)] at hrefused
    exact receiveBody_refused hhandler hmethod hrefused

theorem Detained.parseBody_le
    {client : HttpClient}
    (hdetained : client.Detained) :
    (client.parseBody policy).1 ≤ 0 := by
  have hreceive : ∀ (request : HttpRequest) (contentLen : Nat),
      ((client.setRequest request).receiveBody policy contentLen).1 ≤ 0 := by
    intro request contentLen
    have hcontent : (client.setRequest request).readBuffer.content = [] := hdetained.content
    unfold receiveBody
    simp only
    rw [hcontent]
    split_ifs
    · exact le_rfl
    · exact negOne_nonpos
    · exact le_rfl
    · exact le_rfl
  unfold parseBody
  simp only
  rw [if_neg (not_not.mpr hdetained.method)]
  split_ifs
  · exact hreceive client.request _
  · exact le_rfl
  · exact negOne_nonpos
  · exact hreceive _ _

end HttpClient

/-! ## A message and an idle connection -/

namespace Message

/-- The request object once the header is parsed. -/
def opened (message : Message) (request : HttpRequest) : HttpRequest :=
  HttpClient.storeHeader (message.startLine request) message.fields

/-- The request that reaches the handler, if one does: a question mark behind the
url throws, and the read that `ProcessBody` makes when nothing is buffered may
fail. -/
def handed (env : Environment) (request : HttpRequest) (behind : Bytes) (message : Message) :
    Option HttpRequest :=
  if message.MarkBehind behind ∨ (behind = [] ∧ env.readEnd = .error) then none
  else (message.opened request).acceptBody env.policy behind

end Message

namespace Session

variable {env : Environment} {code : SocketCode} {message : Message} {behind : Bytes}

theorem header_replies
    {session : Session} {client : HttpClient} {fuel : Nat} {len : Int}
    (hhandler : session.client.evtHandler = .processHeader)
    (hcontent : session.client.readBuffer.content ≠ [])
    (hparse : HttpClient.parseHeaderLines session.client.readBuffer.getContentEnd fuel 0
      session.client = some (len, client)) :
    session.Replies env code (.returned len (session.setClient client)) := by
  refine ⟨fuel, ?_⟩
  unfold handle processHeader process HttpClient.parseHeader
  simp only [hhandler, fetch_nonempty hcontent, hparse]
  rfl

theorem body_replies
    {session fetched : Session}
    (hhandler : session.client.evtHandler = .processBody)
    (hfetch : session.fetch env code = (0, fetched)) :
    session.Replies env code (.returned (fetched.client.parseBody env.policy).1
      (fetched.setClient (fetched.client.parseBody env.policy).2)) := by
  refine ⟨0, ?_⟩
  unfold handle processBody process
  simp only [hhandler, hfetch]
  rfl

/-- The connection with the header parsed and these bytes behind it. -/
structure AtBody (session : Session) (request : HttpRequest) (body : Bytes)
    (reached : Session) : Prop where
  client : reached.client =
    { session.client with
      keepalive := reached.client.keepalive
      request := request
      evtHandler := .processBody
      readBuffer := reached.client.readBuffer }
  size : reached.client.readBuffer.size = session.client.readBuffer.size
  content : reached.client.readBuffer.content = body
  incoming : reached.incoming = []
  passed : reached.passed = session.passed
  sent : reached.sent = session.sent

theorem crashes_marked
    {session : Session}
    (hidle : session.Idle)
    (hfits : (message.textBefore behind).length ≤ session.client.readBuffer.size)
    (hmark : message.MarkBehind behind) :
    ∃ final, (session.deliver [message.textBefore behind]).Runs env .read .crashed final ∧
      final.passed = session.passed := by
  obtain ⟨loaded, hloaded, hruns⟩ := exists_loaded env (message.textBefore behind) hidle
    (message.textBefore_ne_nil behind) hfits
  have hhandler : loaded.client.evtHandler = .processRequestLine := by
    rw [hloaded.client]
    exact hidle.handler
  have hcontent : loaded.client.readBuffer.content ≠ [] := by
    rw [hloaded.content]
    exact message.textBefore_ne_nil behind
  have hparse := HttpClient.parseRequestLine_marked hloaded.content hmark
  exact ⟨loaded, (hruns _ _).mpr (runs_of_crashed (requestLine_crashes hhandler hcontent hparse)),
    hloaded.passed⟩

theorem exists_atBody_waiting
    (env : Environment) {session : Session}
    (hidle : session.Idle)
    (hfits : (message.textBefore behind).length ≤ session.client.readBuffer.size)
    (hmark : ¬ message.MarkBehind behind) :
    ∃ reached, session.AtBody (message.opened session.client.request) behind reached ∧
      ∀ waiting ending final,
        (session.deliver (message.textBefore behind :: waiting)).Runs env .read ending final ↔
          (reached.deliver waiting).Runs env .read ending final := by
  obtain ⟨loaded, hloaded, hruns⟩ := exists_loaded_waiting env (message.textBefore behind) hidle
    (message.textBefore_ne_nil behind) hfits
  have hhandler : loaded.client.evtHandler = .processRequestLine := by
    rw [hloaded.client]
    exact hidle.handler
  have hcontent : loaded.client.readBuffer.content ≠ [] := by
    rw [hloaded.content]
    exact message.textBefore_ne_nil behind
  obtain ⟨len, next, hpos, hnext, hline⟩ :=
    HttpClient.parseRequestLine_message hloaded.content hmark
  have hfirst : loaded.Continues env .read (loaded.setClient next.finishParsingRequestLine) :=
    ⟨len, by omega, requestLine_replies hhandler hcontent hline⟩
  have hstart : HttpClient.Advanced next.finishParsingRequestLine
      (message.startLine loaded.client.request)
      (headerText message.fields ++ httpCtrl ++ behind) next.finishParsingRequestLine := by
    refine ⟨?_, hnext.content, rfl, rfl, rfl⟩
    rw [hnext.frame]
    rfl
  obtain ⟨header, hheader, -, hlines⟩ :=
    HttpClient.parseHeaderLines_block 0 hstart (Nat.lt_succ_self _)
  have hret : 0 < (headerText message.fields ++ httpCtrl).length := by
    simp [httpCtrl]
  have hleft : (loaded.setClient next.finishParsingRequestLine).client.readBuffer.content ≠
      [] := by
    have htail : (loaded.setClient next.finishParsingRequestLine).client.readBuffer.content =
        message.tail behind := hnext.content
    rw [htail]
    exact message.tail_ne_nil behind
  have hsecond : (loaded.setClient next.finishParsingRequestLine).Continues env .read
      ((loaded.setClient next.finishParsingRequestLine).setClient header) :=
    ⟨_, by omega, header_replies rfl hleft hlines⟩
  have hrequest : loaded.client.request = session.client.request := by
    rw [hloaded.client]
  refine ⟨(loaded.setClient next.finishParsingRequestLine).setClient header,
    ⟨?_, ?_, hheader.content, hloaded.incoming, hloaded.passed, hloaded.sent⟩,
    fun waiting ending final => ?_⟩
  · have hframe : header =
        { next.finishParsingRequestLine with
          keepalive := header.keepalive
          request := HttpClient.storeHeader (message.startLine loaded.client.request)
            message.fields
          evtHandler := .processBody
          readBuffer := header.readBuffer } := hheader.frame
    rw [hrequest] at hframe
    have hnextFrame := hnext.frame
    have hclient := hloaded.client
    show header = _
    rw [hframe, hnextFrame, hclient]
    rfl
  · exact hheader.size.trans (hnext.size.trans hloaded.size)
  · rw [hruns, (hfirst.deliver waiting fun _ => .inr (.inr (.inl hcontent))).runs_iff,
      (hsecond.deliver waiting fun _ => .inr (.inr (.inl hleft))).runs_iff]

theorem exists_atBody
    (env : Environment) {session : Session}
    (hidle : session.Idle)
    (hfits : (message.textBefore behind).length ≤ session.client.readBuffer.size)
    (hmark : ¬ message.MarkBehind behind) :
    ∃ reached, session.AtBody (message.opened session.client.request) behind reached ∧
      ∀ ending final, (session.deliver [message.textBefore behind]).Runs env .read ending final ↔
        reached.Runs env .read ending final := by
  obtain ⟨reached, hreached, hruns⟩ := exists_atBody_waiting env hidle hfits hmark
  refine ⟨reached, hreached, fun ending final => ?_⟩
  have hiff := hruns [] ending final
  rwa [deliver_nil] at hiff

theorem fetch_used
    (env : Environment) (code : SocketCode) {session : Session}
    (hincoming : session.incoming = []) :
    ∃ calls, session.fetch env code = (0, { session with readCalls := calls }) ∨
      (session.fetch env code = (-1, { session with readCalls := calls }) ∧
        session.client.readBuffer.content = [] ∧ env.readEnd = .error) := by
  have hsame : session = { session with readCalls := session.readCalls } := rfl
  have hafter : session.afterRead [] session.client.readBuffer =
      { session with readCalls := session.readCalls + 1 } := by
    unfold afterRead setReadBuffer
    simp only
    rw [← hincoming]
  unfold fetch
  split_ifs
  swap
  · exact ⟨session.readCalls, .inl rfl⟩
  rcases session.readHttpData_cases env with
    ⟨-, hread⟩ | ⟨-, -, hread⟩ | ⟨-, -, -, -, hread⟩ | ⟨hempty, -, -, herror, hread⟩ |
    ⟨rest, -, -, hnil, -⟩ | ⟨piece, rest, buffer, -, -, hcons, -⟩
  · exact ⟨session.readCalls, .inl hread⟩
  · exact ⟨session.readCalls, .inl hread⟩
  · rw [hafter] at hread
    exact ⟨session.readCalls + 1, .inl hread⟩
  · rw [hafter] at hread
    exact ⟨session.readCalls + 1, .inr ⟨hread, hempty, herror⟩⟩
  · rw [hincoming] at hnil
    cases hnil
  · rw [hincoming] at hcons
    cases hcons

theorem fetch_failed
    {session : Session}
    (hincoming : session.incoming = [])
    (hempty : session.client.readBuffer.content = [])
    (hsize : 0 < session.client.readBuffer.size)
    (herror : env.readEnd = .error) :
    (session.fetch env .read).1 < 0 := by
  unfold fetch
  rw [if_pos rfl]
  rcases session.readHttpData_cases env with
    ⟨hcontent, -⟩ | ⟨-, hzero, -⟩ | ⟨-, -, -, hagain, -⟩ | ⟨-, -, -, -, hread⟩ |
    ⟨rest, -, -, hnil, -⟩ | ⟨piece, rest, buffer, -, -, hcons, -⟩
  · exact absurd hempty hcontent
  · omega
  · rw [herror] at hagain
    cases hagain
  · rw [hread]
    exact Int.negSucc_lt_zero 0
  · rw [hincoming] at hnil
    cases hnil
  · rw [hincoming] at hcons
    cases hcons

/-- The connection with a request that is passed on next. -/
structure AtHandler (session : Session) (request : HttpRequest) (reached : Session) : Prop where
  client : reached.client =
    { session.client with
      keepalive := reached.client.keepalive
      request := request
      evtHandler := .generateResponse
      readBuffer := reached.client.readBuffer }
  size : reached.client.readBuffer.size = session.client.readBuffer.size
  content : reached.client.readBuffer.content = []
  incoming : reached.incoming = []
  passed : reached.passed = session.passed
  sent : reached.sent = session.sent

/-- `ProcessBody` reads when nothing is buffered, so nothing may wait behind a
request without a body. -/
theorem AtBody.accepted
    {session reached : Session} {request accepted : HttpRequest} {body : Bytes}
    (hreached : session.AtBody request body reached)
    (hread : ¬ (body = [] ∧ env.readEnd = .error))
    (haccept : request.acceptBody env.policy body = some accepted) :
    ∃ ready, session.AtHandler accepted ready ∧
      ∀ waiting, (body = [] → waiting = []) → ∀ ending final,
        (reached.deliver waiting).Runs env .read ending final ↔
          (ready.deliver waiting).Runs env .read ending final := by
  have hhandler : reached.client.evtHandler = .processBody := by
    rw [hreached.client]
  have hrequest : reached.client.request = request := by
    rw [hreached.client]
  obtain ⟨calls, hfetch | ⟨-, hempty, herror⟩⟩ := fetch_used env .read hreached.incoming
  swap
  · rw [hreached.content] at hempty
    exact absurd ⟨hempty, herror⟩ hread
  rw [← hrequest, ← hreached.content] at haccept
  obtain ⟨len, next, hpos, hnext, hparse⟩ := HttpClient.parseBody_accepted haccept
  have hreply := body_replies hhandler hfetch
  have hcontinues : reached.Continues env .read
      (({ reached with readCalls := calls } : Session).setClient next) := by
    refine ⟨len, by omega, ?_⟩
    simp only [hparse] at hreply
    exact hreply
  refine ⟨({ reached with readCalls := calls } : Session).setClient next,
    ⟨?_, hnext.size.trans hreached.size, hnext.content, hreached.incoming,
    hreached.passed, hreached.sent⟩, fun waiting hquiet => ?_⟩
  · have hclient := hreached.client
    show next = _
    rw [hnext.frame, hclient]
    rfl
  · by_cases hempty : body = []
    · rw [hquiet hempty, deliver_nil, deliver_nil]
      exact hcontinues.runs_iff
    · have hfed : reached.Fed := by
        refine .inr (.inr (.inl ?_))
        rw [hreached.content]
        exact hempty
      exact (hcontinues.deliver waiting fun _ => hfed).runs_iff

theorem ends_of_nonpos
    {session next : Session} {len : Int}
    (hreply : session.Replies env code (.returned len next))
    (hlen : len ≤ 0) :
    ∃ ending final, session.Runs env code ending final ∧ final.passed = next.passed := by
  rcases lt_or_eq_of_le hlen with hneg | rfl
  · exact ⟨_, _, runs_of_negative hreply hneg, rfl⟩
  · exact ⟨_, _, runs_of_zero hreply, rfl⟩

theorem body_fails
    {session fetched : Session} {ret : Int}
    (hhandler : session.client.evtHandler = .processBody)
    (hfetch : session.fetch env code = (ret, fetched))
    (hneg : ret < 0) :
    session.Replies env code (.returned ret fetched) := by
  refine ⟨0, ?_⟩
  unfold handle processBody process
  simp only [hhandler, hfetch, if_pos hneg]

theorem detained_ends
    {session : Session}
    (hdetained : session.client.Detained)
    (hincoming : session.incoming = []) :
    ∃ ending final, session.Runs env code ending final ∧ final.passed = session.passed := by
  obtain ⟨calls, hfetch | ⟨hfetch, -, -⟩⟩ := fetch_used env code hincoming
  · have hreply := body_replies hdetained.handler hfetch
    obtain ⟨ending, final, hruns, hpassed⟩ := ends_of_nonpos hreply hdetained.parseBody_le
    exact ⟨ending, final, hruns, hpassed⟩
  · have hreply := body_fails hdetained.handler hfetch (Int.negSucc_lt_zero 0)
    obtain ⟨ending, final, hruns, hpassed⟩ := ends_of_nonpos hreply HttpClient.negOne_nonpos
    exact ⟨ending, final, hruns, hpassed⟩

theorem AtBody.refused
    {session reached : Session} {request : HttpRequest} {body : Bytes}
    (hreached : session.AtBody request body reached)
    (hsize : 0 < session.client.readBuffer.size)
    (hrefused : (body = [] ∧ env.readEnd = .error) ∨
      request.acceptBody env.policy body = none) :
    ∃ ending final, reached.Runs env .read ending final ∧ final.passed = session.passed := by
  have hhandler : reached.client.evtHandler = .processBody := by
    rw [hreached.client]
  have hrequest : reached.client.request = request := by
    rw [hreached.client]
  obtain ⟨calls, hfetch | ⟨hfetch, -, -⟩⟩ := fetch_used env .read hreached.incoming
  swap
  · obtain ⟨ending, final, hruns, hpassed⟩ := ends_of_nonpos
      (body_fails hhandler hfetch (Int.negSucc_lt_zero 0)) HttpClient.negOne_nonpos
    exact ⟨ending, final, hruns, hpassed.trans hreached.passed⟩
  have hrefused : reached.client.request.acceptBody env.policy
      reached.client.readBuffer.content = none := by
    rcases hrefused with ⟨hempty, herror⟩ | hnone
    · have hfailed := fetch_failed hreached.incoming (hreached.content.trans hempty)
        (hreached.size.symm ▸ hsize) herror
      rw [hfetch] at hfailed
      exact absurd hfailed (lt_irrefl 0)
    · rw [hrequest, hreached.content]
      exact hnone
  have hreply := body_replies hhandler hfetch
  rcases HttpClient.parseBody_refused hhandler hrefused with hlen | hdetained
  · obtain ⟨ending, final, hruns, hpassed⟩ := ends_of_nonpos hreply hlen
    exact ⟨ending, final, hruns, hpassed.trans hreached.passed⟩
  · by_cases hlen : (reached.client.parseBody env.policy).1 ≤ 0
    · obtain ⟨ending, final, hruns, hpassed⟩ := ends_of_nonpos hreply hlen
      exact ⟨ending, final, hruns, hpassed.trans hreached.passed⟩
    · have hcontinues : reached.Continues env .read _ := ⟨_, not_le.mp hlen, hreply⟩
      obtain ⟨ending, final, hruns, hpassed⟩ := @detained_ends env .read
        (({ reached with readCalls := calls } : Session).setClient
          (reached.client.parseBody env.policy).2) hdetained hreached.incoming
      exact ⟨ending, final, (hcontinues.runs_iff _ _).mpr hruns,
        hpassed.trans hreached.passed⟩

/-! ## The response -/

/-- A response is on its way or has been sent, and nothing has arrived since. -/
structure Answering (session : Session) : Prop where
  handler : session.client.evtHandler = .sendResponse ∨
    session.client.evtHandler = .processRequestLine
  content : session.client.readBuffer.content = []
  incoming : session.incoming = []

/-- What sending leaves as it is. -/
structure Kept (session next : Session) : Prop where
  readBuffer : next.client.readBuffer = session.client.readBuffer
  request : next.client.request = session.client.request
  incoming : next.incoming = session.incoming
  passed : next.passed = session.passed

theorem Kept.trans
    {first second third : Session}
    (hfirst : first.Kept second)
    (hsecond : second.Kept third) :
    first.Kept third :=
  ⟨hsecond.readBuffer.trans hfirst.readBuffer, hsecond.request.trans hfirst.request,
    hsecond.incoming.trans hfirst.incoming, hsecond.passed.trans hfirst.passed⟩

theorem sendPending_kept
    (env : Environment) (pending : List HttpBuffer) (len : Nat) (session : Session) :
    session.Kept (session.sendPending env pending len).2 ∧
      ((session.sendPending env pending len).2.client.evtHandler = session.client.evtHandler ∨
        (session.sendPending env pending len).2.client.evtHandler = .processRequestLine) := by
  induction pending generalizing len session with
  | nil => exact ⟨⟨rfl, rfl, rfl, rfl⟩, .inr rfl⟩
  | cons buffer rest ih =>
      unfold sendPending sendBuffer
      cases env.accepts session.sendCalls buffer.data.length with
      | none => exact ⟨⟨rfl, rfl, rfl, rfl⟩, .inl rfl⟩
      | some n =>
          simp only
          split_ifs
          · exact ⟨⟨rfl, rfl, rfl, rfl⟩, .inl rfl⟩
          · obtain ⟨hkept, hhandler⟩ := ih (len + min n buffer.data.length) _
            exact ⟨⟨hkept.readBuffer, hkept.request, hkept.incoming, hkept.passed⟩, hhandler⟩

theorem Answering.kept
    {session next : Session}
    (hanswering : session.Answering)
    (hkept : session.Kept next)
    (hhandler : next.client.evtHandler = session.client.evtHandler ∨
      next.client.evtHandler = .processRequestLine) :
    next.Answering := by
  refine ⟨?_, ?_, hkept.incoming.trans hanswering.incoming⟩
  · rcases hhandler with hsame | hdone
    · rw [hsame]
      exact hanswering.handler
    · exact .inr hdone
  · rw [hkept.readBuffer]
    exact hanswering.content

theorem sending_replies
    (env : Environment) (code : SocketCode) {session : Session}
    (hanswering : session.Answering)
    (hsend : session.client.evtHandler = .sendResponse) :
    ∃ len next, session.Replies env code (.returned len next) ∧ session.Kept next ∧
      next.Answering := by
  obtain ⟨hkept, hhandler⟩ := sendPending_kept env session.client.pendingWrite 0 session
  refine ⟨(session.sendPending env session.client.pendingWrite 0).1, _, ⟨0, ?_⟩, hkept,
    hanswering.kept hkept hhandler⟩
  unfold handle sendResponse
  simp only [hsend]

/-- Nothing is there to be parsed. -/
theorem idle_replies
    (env : Environment) (code : SocketCode) {session : Session}
    (hanswering : session.Answering)
    (hline : session.client.evtHandler = .processRequestLine) :
    ∃ len next, len ≤ 0 ∧ session.Replies env code (.returned len next) ∧ session.Kept next ∧
      next.Answering := by
  obtain ⟨calls, hfetch | ⟨hfetch, -, -⟩⟩ := fetch_used env code hanswering.incoming
  · have hparse : session.client.parseRequestLine = some (0, session.client) :=
      HttpClient.parseRequestLine_short
        (by rw [hanswering.content]; exact List.not_mem_nil)
    have hkept : session.Kept { session with readCalls := calls } := ⟨rfl, rfl, rfl, rfl⟩
    refine ⟨0, { session with readCalls := calls }, le_rfl, ⟨0, ?_⟩, hkept,
      hanswering.kept hkept (.inl rfl)⟩
    unfold handle processRequestLine process
    simp only [hline, hfetch, hparse]
    rfl
  · have hkept : session.Kept { session with readCalls := calls } := ⟨rfl, rfl, rfl, rfl⟩
    refine ⟨-1, { session with readCalls := calls }, HttpClient.negOne_nonpos, ⟨0, ?_⟩, hkept,
      hanswering.kept hkept (.inl rfl)⟩
    unfold handle processRequestLine process
    simp only [hline, hfetch]
    rfl

theorem Answering.replies
    (env : Environment) (code : SocketCode) {session : Session}
    (hanswering : session.Answering) :
    ∃ len next, session.Replies env code (.returned len next) ∧ session.Kept next ∧
      next.Answering := by
  rcases hanswering.handler with hsend | hline
  · exact sending_replies env code hanswering hsend
  · obtain ⟨len, next, -, hreplies⟩ := idle_replies env code hanswering hline
    exact ⟨len, next, hreplies⟩

theorem Answering.runs
    (env : Environment) (code : SocketCode) {session : Session}
    (hanswering : session.Answering) :
    ∃ ending final, session.Runs env code ending final ∧ final.passed = session.passed ∧
      (ending = .done → session.Kept final ∧ final.Answering) := by
  generalize hwork : session.work = work
  induction work using WellFoundedLT.induction generalizing session with
  | ind work ih =>
      obtain ⟨len, next, hreply, hkept, hnext⟩ := hanswering.replies env code
      rcases lt_trichotomy len 0 with hneg | rfl | hpos
      · exact ⟨_, _, runs_of_negative hreply hneg, hkept.passed, nofun⟩
      · exact ⟨_, _, runs_of_zero hreply, hkept.passed, fun _ => ⟨hkept, hnext⟩⟩
      · have hcontinues : session.Continues env code next := ⟨len, hpos, hreply⟩
        have huncut : ¬ session.HeaderCut env code := by
          intro hcut
          rcases hanswering.handler with hsend | hline
          · rw [hcut.1] at hsend
            cases hsend
          · rw [hcut.1] at hline
            cases hline
        obtain ⟨ending, final, hruns, hpassed, hdone⟩ :=
          ih next.work (hwork ▸ hcontinues.work_lt huncut) hnext rfl
        refine ⟨ending, final, (hcontinues.runs_iff _ _).mpr hruns,
          hpassed.trans hkept.passed, fun hending => ?_⟩
        exact ⟨hkept.trans (hdone hending).1, (hdone hending).2⟩

/-- The handler is called, and an answer is on its way unless there is no buffer
for it. -/
theorem AtHandler.replies
    {session ready : Session} {request : HttpRequest}
    (hready : session.AtHandler request ready) :
    ∃ reply, ready.Replies env code reply ∧
      ((∃ final, reply = .crashed final ∧ final.incoming = [] ∧
          final.passed = session.passed ++ [request]) ∨
        ∃ next, reply = .returned 1 next ∧ next.passed = session.passed ++ [request] ∧
          next.client.request = request ∧ next.Answering ∧
          next.client.readBuffer.size = session.client.readBuffer.size) := by
  have hhandler : ready.client.evtHandler = .generateResponse := by
    rw [hready.client]
  have hrequest : ready.client.request = request := by
    rw [hready.client]
  have hpassed : ready.passed ++ [ready.client.request] = session.passed ++ [request] := by
    rw [hready.passed, hrequest]
  have hreply : ready.Replies env code (ready.generateResponse env) := by
    refine ⟨0, ?_⟩
    unfold handle
    simp only [hhandler]
  refine ⟨_, hreply, ?_⟩
  unfold generateResponse
  generalize ready.client.writeBuffer.allocWriteBuffer
    (responseSize (env.cgi ready.client.request ready.client.response)) = allocated
  cases allocated with
  | none => exact .inl ⟨_, rfl, hready.incoming, hpassed⟩
  | some allocated =>
      exact .inr ⟨_, rfl, hpassed, hrequest, ⟨.inl rfl, hready.content, hready.incoming⟩,
        hready.size⟩

theorem AtHandler.runs
    {session ready : Session} {request : HttpRequest}
    (hready : session.AtHandler request ready) :
    ∃ ending final, ready.Runs env code ending final ∧
      final.passed = session.passed ++ [request] ∧
      (ending = .done → final.client.request = request ∧ final.Answering ∧
        final.client.readBuffer.size = session.client.readBuffer.size) := by
  obtain ⟨reply, hreply, ⟨final, rfl, -, hpassed⟩ | ⟨next, rfl, hpassed, hrequest, hnext, hsize⟩⟩ :=
    @AtHandler.replies env code session ready request hready
  · exact ⟨_, final, runs_of_crashed hreply, hpassed, nofun⟩
  · have hcontinues : ready.Continues env code next := ⟨1, Int.one_pos, hreply⟩
    obtain ⟨ending, final, hruns, hsame, hdone⟩ := hnext.runs env code
    refine ⟨ending, final, (hcontinues.runs_iff _ _).mpr hruns, hsame.trans hpassed,
      fun hending => ?_⟩
    obtain ⟨hkept, hfinal⟩ := hdone hending
    exact ⟨hkept.request.trans hrequest, hfinal, by rw [hkept.readBuffer, hsize]⟩

theorem exists_atHandler_waiting
    {session : Session} {request : HttpRequest}
    (hidle : session.Idle)
    (hfits : (message.textBefore behind).length ≤ session.client.readBuffer.size)
    (hhanded : message.handed env session.client.request behind = some request) :
    ∃ ready, session.AtHandler request ready ∧
      ∀ waiting, (behind = [] → waiting = []) → ∀ ending final,
        (session.deliver (message.textBefore behind :: waiting)).Runs env .read ending final ↔
          (ready.deliver waiting).Runs env .read ending final := by
  unfold Message.handed at hhanded
  split_ifs at hhanded with hnone
  rw [not_or] at hnone
  obtain ⟨reached, hreached, hiff⟩ := exists_atBody_waiting env hidle hfits hnone.1
  obtain ⟨ready, hready, hiff'⟩ := hreached.accepted hnone.2 hhanded
  exact ⟨ready, hready, fun waiting hquiet ending final =>
    (hiff waiting ending final).trans (hiff' waiting hquiet ending final)⟩

theorem exists_atHandler
    {session : Session} {request : HttpRequest}
    (hidle : session.Idle)
    (hfits : (message.textBefore behind).length ≤ session.client.readBuffer.size)
    (hhanded : message.handed env session.client.request behind = some request) :
    ∃ ready, session.AtHandler request ready ∧
      ∀ ending final, (session.deliver [message.textBefore behind]).Runs env .read ending final ↔
        ready.Runs env .read ending final := by
  obtain ⟨ready, hready, hiff⟩ := exists_atHandler_waiting hidle hfits hhanded
  refine ⟨ready, hready, fun ending final => ?_⟩
  have hnone := hiff [] (fun _ => rfl) ending final
  rwa [deliver_nil] at hnone

theorem unhanded_ends
    (env : Environment) {session : Session}
    (hidle : session.Idle)
    (hfits : (message.textBefore behind).length ≤ session.client.readBuffer.size)
    (hhanded : message.handed env session.client.request behind = none) :
    ∃ ending final, (session.deliver [message.textBefore behind]).Runs env .read ending final ∧
      final.passed = session.passed := by
  have hsize : 0 < session.client.readBuffer.size :=
    lt_of_lt_of_le (List.length_pos_iff.mpr (message.textBefore_ne_nil behind)) hfits
  by_cases hmark : message.MarkBehind behind
  · obtain ⟨final, hruns, hpassed⟩ := @crashes_marked env message behind session hidle hfits hmark
    exact ⟨.crashed, final, hruns, hpassed⟩
  obtain ⟨reached, hreached, hiff⟩ := exists_atBody env hidle hfits hmark
  have hrefused : (behind = [] ∧ env.readEnd = .error) ∨
      (message.opened session.client.request).acceptBody env.policy behind = none := by
    unfold Message.handed at hhanded
    split_ifs at hhanded with hnone
    · exact .inl (hnone.resolve_left hmark)
    · exact .inr hhanded
  obtain ⟨ending, final, hruns, hpassed⟩ := hreached.refused hsize hrefused
  exact ⟨ending, final, (hiff _ _).mpr hruns, hpassed⟩

/-- The header of a message and any bytes behind it arrive in one read on an idle
connection: what is passed on. -/
theorem exchange
    (env : Environment) {session : Session}
    (hidle : session.Idle)
    (hfits : (message.textBefore behind).length ≤ session.client.readBuffer.size) :
    ∃ ending final, (session.deliver [message.textBefore behind]).Runs env .read ending final ∧
      final.passed =
        session.passed ++ (message.handed env session.client.request behind).toList ∧
      ∀ request, message.handed env session.client.request behind = some request →
        ending = .done → final.client.request = request ∧ final.Answering ∧
          final.client.readBuffer.size = session.client.readBuffer.size := by
  cases hhanded : message.handed env session.client.request behind with
  | none =>
      obtain ⟨ending, final, hruns, hpassed⟩ := unhanded_ends env hidle hfits hhanded
      refine ⟨ending, final, hruns, ?_, nofun⟩
      rw [Option.toList_none, List.append_nil]
      exact hpassed
  | some request =>
      obtain ⟨ready, hready, hiff⟩ := exists_atHandler hidle hfits hhanded
      obtain ⟨ending, final, hruns, hpassed, hdone⟩ :=
        @AtHandler.runs env .read session ready request hready
      refine ⟨ending, final, (hiff _ _).mpr hruns, hpassed, ?_⟩
      intro other hother
      cases hother
      exact hdone

theorem query_none : ∀ data, (none : Option Bytes) = some data → space ∉ data := by
  intro data hnone
  cases hnone

end Session

/-! ## A body of one byte -/

theorem contentLengthKey_nul : 0 ∉ HttpClient.contentLengthKey := by decide

theorem contentLengthKey_ctrl : ¬ httpCtrl <:+: HttpClient.contentLengthKey := by decide

theorem contentLengthKey_delim : ¬ httpHeaderDelim <:+: HttpClient.contentLengthKey := by decide

theorem one_nul : 0 ∉ ascii ['1'] := by decide

theorem one_ctrl : ¬ httpCtrl <:+: ascii ['1'] := by decide

/-- `Content-Length: 1` -/
def singleField : HeaderField where
  key := HttpClient.contentLengthKey
  value := ascii ['1']
  key_nul := contentLengthKey_nul
  key_ctrl := contentLengthKey_ctrl
  key_delim := contentLengthKey_delim
  value_nul := one_nul
  value_ctrl := one_ctrl

theorem singleField_announced : announcedLength (storeFields .empty [singleField]) = 1 := by
  decide

theorem one_lt_maxBodyLength : 1 < maxBodyLength := by decide

theorem post_ne_invalid : HttpMethod.post ≠ .invalid := by decide

theorem post_bodyless (body : Bytes) : HttpMethod.post ≠ .post → body = [] :=
  fun hmethod => absurd rfl hmethod

/-- A `POST` with one byte. -/
def postByte (byte : UInt8) : Message where
  method := .post
  version := .v11
  url := ascii ['/']
  query := none
  fields := [singleField]
  body := [byte]
  method_valid := post_ne_invalid
  version_valid := HttpClient.v11_ne_invalid
  url_space := HttpClient.space_notMem_root
  url_mark := HttpClient.mark_notMem_root
  query_space := Session.query_none
  announced := singleField_announced
  bounded := one_lt_maxBodyLength
  bodyless := post_bodyless [byte]

end BackEndFacility
