import BackEndFacility.HttpAnswer

/-!
# The announced length of the body

The requests that the parser builds: their headers are C strings and their bodies are
short, and a body may hold any byte.  The default handler announces the size of its page
as a `std::string` and sends the page as a C string, which ends at the first NUL.
-/

namespace BackEndFacility

/-! ## Requests of the parser -/

/-- What the parser keeps of every request. -/
structure HttpRequest.Parsed (request : HttpRequest) : Prop where
  header : request.HeaderNulFree
  body : request.httpBody.length ≤ request.bodyLen
  bounded : request.bodyLen < maxBodyLength

namespace HttpRequest.Parsed

variable {policy : StringPolicy} {request : HttpRequest}

theorem cleanUp (policy : StringPolicy) (request : HttpRequest) :
    (request.cleanUp policy).Parsed where
  header := fun _ hentry => absurd hentry List.not_mem_nil
  body := le_refl 0
  bounded := Nat.zero_lt_succ 4095

theorem nul_cStr (text : Bytes) : 0 ∉ cStr text :=
  Arena.nul_takeWhile text

theorem addHeader (hparsed : request.Parsed) (key value : Bytes) :
    (request.addHeader key value).Parsed where
  header := by
    intro entry hentry
    rcases SortedMap.mem_insertEntry hentry with rfl | hold
    · exact ⟨nul_cStr key, nul_cStr value⟩
    · exact hparsed.header entry hold
  body := hparsed.body
  bounded := hparsed.bounded

theorem setBodySize (hparsed : request.Parsed) {sz : Nat} (hzero : request.bodyLen = 0)
    (hbound : sz < maxBodyLength) : (request.setBodySize policy sz).Parsed where
  header := hparsed.header
  body := by
    have hbody := hparsed.body
    rw [hzero] at hbody
    exact hbody.trans (Nat.zero_le sz)
  bounded := hbound

theorem appendBody (hparsed : request.Parsed) {data : Bytes}
    (hroom : request.httpBody.length + data.length ≤ request.bodyLen) :
    (request.appendBody policy data).Parsed := by
  unfold HttpRequest.appendBody
  split_ifs
  · exact hparsed
  · refine ⟨hparsed.header, ?_, hparsed.bounded⟩
    rw [List.length_append]
    exact hroom

end HttpRequest.Parsed

namespace HttpClient

variable {policy : StringPolicy} {client next : HttpClient} {len : Int}

theorem parseVersion_parsed (stop len : Nat) (hparsed : client.request.Parsed) :
    (client.parseVersion stop len).2.request.Parsed := by
  have hversion : ∀ version, (client.request.setVersion version).Parsed :=
    fun _ => ⟨hparsed.header, hparsed.body, hparsed.bounded⟩
  unfold parseVersion
  simp only
  split_ifs
  · exact hparsed
  · exact hparsed
  · exact hversion _
  · exact hversion _

theorem parseUrl_parsed
    {request found : HttpRequest} {memory : Bytes} {start delim stop : Nat}
    (hparsed : request.Parsed) (hurl : parseUrl request memory start delim stop = some found) :
    found.Parsed := by
  unfold parseUrl at hurl
  simp only at hurl
  split_ifs at hurl
  · cases hurl
    exact ⟨hparsed.header, hparsed.body, hparsed.bounded⟩
  · cases hurl
    exact ⟨hparsed.header, hparsed.body, hparsed.bounded⟩

theorem parseTarget_parsed
    {stop start : Nat} (hparsed : client.request.Parsed)
    (htarget : client.parseTarget stop start = some (len, next)) : next.request.Parsed := by
  unfold parseTarget at htarget
  simp only at htarget
  split_ifs at htarget
  · cases htarget
    exact hparsed
  · split at htarget
    · cases htarget
    · rename_i request hurl
      have hfound := parseUrl_parsed hparsed hurl
      have hversion := fun sz stop len => @parseVersion_parsed
        ((client.setRequest request).consumeBuffer sz) stop len hfound
      have hnext := congrArg Prod.snd (Option.some.inj htarget)
      rw [show next = _ from hnext.symm]
      exact hversion _ _ _

theorem parseRequestLine_parsed
    (hparsed : client.request.Parsed) (hline : client.parseRequestLine = some (len, next)) :
    next.request.Parsed := by
  have hmethod : ∀ method, (client.request.setHttpMethod method).Parsed :=
    fun _ => ⟨hparsed.header, hparsed.body, hparsed.bounded⟩
  unfold parseRequestLine at hline
  simp only at hline
  split_ifs at hline
  · cases hline
    exact hparsed
  · cases hline
    exact hmethod _
  · exact parseTarget_parsed (hmethod _) hline

theorem parseHeaderLines_parsed
    {stop fuel start : Nat} (hparsed : client.request.Parsed)
    (hlines : parseHeaderLines stop fuel start client = some (len, next)) :
    next.request.Parsed := by
  induction fuel generalizing start client with
  | zero => cases hlines
  | succ fuel ih =>
      rw [parseHeaderLines] at hlines
      simp only at hlines
      split_ifs at hlines
      · cases hlines
        exact hparsed
      · cases hlines
        exact hparsed
      · exact ih (hparsed.addHeader _ _) hlines

theorem receiveBody_parsed
    {contentLen : Nat} (hparsed : client.request.Parsed)
    (hlength : client.request.bodyLen = contentLen) :
    (client.receiveBody policy contentLen).2.request.Parsed := by
  unfold receiveBody
  simp only
  split_ifs with hfull hlong hlast
  · exact hparsed
  · exact hparsed
  · exact hparsed.appendBody (by omega)
  · exact hparsed.appendBody (by omega)

theorem parseBody_parsed (hparsed : client.request.Parsed) :
    (client.parseBody policy).2.request.Parsed := by
  unfold parseBody
  simp only
  split_ifs with hmethod hset hnone hlong
  · exact hparsed
  · exact receiveBody_parsed hparsed rfl
  · exact hparsed
  · exact hparsed
  · exact receiveBody_parsed (hparsed.setBodySize (not_not.mp hset) (not_le.mp hlong)) rfl

end HttpClient

/-! ## Connections -/

def Reply.session : Reply → Session
  | .returned _ session => session
  | .crashed session => session

namespace Session

/-- The connections that a client serves one after the other, whatever its handlers do
and its peers send. -/
inductive Reached (policy : StringPolicy) (object : HttpClient) : Session → Prop
  | first {env : Environment} (hpolicy : env.policy = policy) :
      Reached policy object (.connect env object)
  | connect {env : Environment} {session : Session} (hreached : Reached policy object session)
      (hpolicy : env.policy = policy) : Reached policy object (.connect env session.client)
  | deliver {session : Session} (pieces : List Bytes)
      (hreached : Reached policy object session) :
      Reached policy object (session.deliver pieces)
  | event {env : Environment} {code : SocketCode} {session final : Session} {ending : Ending}
      (hreached : Reached policy object session) (hpolicy : env.policy = policy)
      (hruns : session.Runs env code ending final) : Reached policy object final

/-- The request at hand and those passed on were built by the parser. -/
structure Sound (session : Session) : Prop where
  current : session.client.request.Parsed
  passed : ∀ request ∈ session.passed, request.Parsed

variable {env : Environment} {code : SocketCode} {session : Session} {reply : Reply}

theorem Sound.setClient
    {client : HttpClient} (hsound : session.Sound) (hparsed : client.request.Parsed) :
    (session.setClient client).Sound :=
  ⟨hparsed, hsound.passed⟩

theorem Sound.fetch (hsound : session.Sound) (env : Environment) (code : SocketCode) :
    (session.fetch env code).2.Sound := by
  obtain ⟨hclient, hpassed⟩ := fetch_frame env code session
  refine ⟨?_, ?_⟩
  · rw [hclient]
    exact hsound.current
  · rw [hpassed]
    exact hsound.passed

theorem Sound.process
    {parse : Session → Option Reply} (hsound : session.Sound)
    (hparse : ∀ {fetched : Session} {reply : Reply}, fetched.Sound →
      parse fetched = some reply → reply.session.Sound)
    (hreply : session.process env code parse = some reply) : reply.session.Sound := by
  have hfetched := hsound.fetch env code
  unfold Session.process at hreply
  simp only at hreply
  split_ifs at hreply
  · cases hreply
    exact hfetched
  · exact hparse hfetched hreply

theorem Sound.processRequestLine
    (hsound : session.Sound) (hreply : session.processRequestLine env code = some reply) :
    reply.session.Sound := by
  refine hsound.process (fun hfetched hparse => ?_) hreply
  split at hparse
  · cases hparse
    exact hfetched
  · rename_i len client hline
    cases hparse
    exact hfetched.setClient (HttpClient.parseRequestLine_parsed hfetched.current hline)

theorem Sound.processHeader
    {fuel : Nat} (hsound : session.Sound)
    (hreply : session.processHeader env code fuel = some reply) : reply.session.Sound := by
  refine hsound.process (fun hfetched hparse => ?_) hreply
  split at hparse
  · cases hparse
  · rename_i len client hlines
    cases hparse
    exact hfetched.setClient (HttpClient.parseHeaderLines_parsed hfetched.current hlines)

theorem Sound.processBody
    (hsound : session.Sound) (hreply : session.processBody env code = some reply) :
    reply.session.Sound := by
  refine hsound.process (fun hfetched hparse => ?_) hreply
  cases hparse
  exact hfetched.setClient (HttpClient.parseBody_parsed hfetched.current)

/-- The handler is called with the request at hand. -/
theorem Sound.generateResponse (hsound : session.Sound) (env : Environment) :
    (session.generateResponse env).session.Sound := by
  have hpassed : ∀ request ∈ session.passed ++ [session.client.request], request.Parsed := by
    intro request hmem
    rcases List.mem_append.mp hmem with hold | hnew
    · exact hsound.passed request hold
    · rw [List.mem_singleton.mp hnew]
      exact hsound.current
  unfold Session.generateResponse
  generalize session.client.writeBuffer.allocWriteBuffer _ = allocated
  cases allocated with
  | none => exact ⟨hsound.current, hpassed⟩
  | some allocated => exact ⟨hsound.current, hpassed⟩

theorem Sound.sendResponse (hsound : session.Sound) (env : Environment) :
    (session.sendResponse env).session.Sound := by
  obtain ⟨hkept, -⟩ := sendPending_kept env session.client.pendingWrite 0 session
  refine ⟨?_, ?_⟩
  · change (session.sendPending env session.client.pendingWrite 0).2.client.request.Parsed
    rw [hkept.request]
    exact hsound.current
  · change ∀ request ∈ (session.sendPending env session.client.pendingWrite 0).2.passed,
      request.Parsed
    rw [hkept.passed]
    exact hsound.passed

theorem Sound.handle
    {fuel : Nat} (hsound : session.Sound)
    (hreply : session.handle env code fuel = some reply) : reply.session.Sound := by
  unfold Session.handle at hreply
  cases hhandler : session.client.evtHandler with
  | processRequestLine =>
      rw [hhandler] at hreply
      exact hsound.processRequestLine hreply
  | processHeader =>
      rw [hhandler] at hreply
      exact hsound.processHeader hreply
  | processBody =>
      rw [hhandler] at hreply
      exact hsound.processBody hreply
  | generateResponse =>
      rw [hhandler] at hreply
      rw [← Option.some.inj hreply]
      exact hsound.generateResponse env
  | sendResponse =>
      rw [hhandler] at hreply
      rw [← Option.some.inj hreply]
      exact hsound.sendResponse env

theorem Sound.processEvent
    {fuel : Nat} {ending : Ending} {final : Session} (hsound : session.Sound)
    (hevent : session.processEvent env code fuel = some (ending, final)) : final.Sound := by
  induction fuel generalizing session with
  | zero => cases hevent
  | succ fuel ih =>
      rw [Session.processEvent] at hevent
      split at hevent
      · cases hevent
      · rename_i crashed hreply
        have hcrashed : crashed.Sound := hsound.handle hreply
        cases hevent
        exact hcrashed
      · rename_i len next hreply
        have hnext : next.Sound := hsound.handle hreply
        split_ifs at hevent
        · cases hevent
          exact hnext.setClient (.cleanUp env.policy _)
        · cases hevent
          exact hnext
        · exact ih hnext hevent

/-- Every request passed on was built by the parser. -/
theorem Reached.sound
    {policy : StringPolicy} {object : HttpClient} (hreached : Reached policy object session) :
    session.Sound := by
  induction hreached with
  | @first env hpolicy =>
      exact ⟨.cleanUp env.policy object.request, fun _ hmem => absurd hmem List.not_mem_nil⟩
  | @connect env session _ hpolicy _ =>
      exact ⟨.cleanUp env.policy _, fun _ hmem => absurd hmem List.not_mem_nil⟩
  | deliver pieces _ ih => exact ⟨ih.current, ih.passed⟩
  | event _ _ hruns ih =>
      obtain ⟨fuel, hevent⟩ := hruns
      exact ih.processEvent hevent

end Session

/-! ## Reading a response -/

/-- What follows the first empty line. -/
def behindBlankLine : Bytes → Option Bytes
  | [] => none
  | byte :: rest =>
      if (httpCtrl ++ httpCtrl).isPrefixOf (byte :: rest) then some (rest.drop 3)
      else behindBlankLine rest

theorem behindBlankLine_printable {text : Bytes} (hprintable : Printable text) (rest : Bytes) :
    behindBlankLine (text ++ rest) = behindBlankLine rest := by
  induction text with
  | nil => rfl
  | cons byte text ih =>
      have hbyte : carriageReturn ≠ byte := by
        rintro rfl
        exact absurd (hprintable carriageReturn List.mem_cons_self) (by decide)
      have hprefix : (httpCtrl ++ httpCtrl).isPrefixOf (byte :: (text ++ rest)) = false := by
        change (carriageReturn :: lineFeed :: httpCtrl).isPrefixOf (byte :: (text ++ rest)) = false
        rw [List.isPrefixOf_cons_cons, beq_false_of_ne hbyte, Bool.false_and]
      rw [List.cons_append, behindBlankLine, hprefix, if_neg (by decide)]
      exact ih fun other hother => hprintable other (List.mem_cons_of_mem byte hother)

/-- The end of a line before another line. -/
theorem behindBlankLine_ctrl {line : Bytes} (hprintable : Printable line) (hne : line ≠ [])
    (rest : Bytes) :
    behindBlankLine (httpCtrl ++ (line ++ rest)) = behindBlankLine rest := by
  rw [← behindBlankLine_printable hprintable rest]
  cases line with
  | nil => exact absurd rfl hne
  | cons byte line =>
      have hbyte : carriageReturn ≠ byte := by
        rintro rfl
        exact absurd (hprintable carriageReturn List.mem_cons_self) (by decide)
      generalize htail : byte :: line ++ rest = tail
      have hfirst : (httpCtrl ++ httpCtrl).isPrefixOf (carriageReturn :: lineFeed :: tail) =
          false := by
        rw [← htail]
        change (carriageReturn == carriageReturn && (lineFeed == lineFeed &&
          (carriageReturn == byte && _))) = false
        rw [beq_false_of_ne hbyte]
        rfl
      have hsecond : (httpCtrl ++ httpCtrl).isPrefixOf (lineFeed :: tail) = false := rfl
      change behindBlankLine (carriageReturn :: lineFeed :: tail) = behindBlankLine tail
      rw [behindBlankLine, hfirst, if_neg (by decide), behindBlankLine, hsecond,
        if_neg (by decide)]

theorem behindBlankLine_blank (body : Bytes) :
    behindBlankLine (httpCtrl ++ (httpCtrl ++ body)) = some body := rfl

theorem behindBlankLine_fields {entries : List (Bytes × Bytes)}
    (hprintable : ∀ entry ∈ entries, Printable entry.1 ∧ Printable entry.2) (body : Bytes) :
    behindBlankLine (httpCtrl ++ (HttpResponse.fieldText entries ++ (httpCtrl ++ body))) =
      some body := by
  induction entries with
  | nil => exact behindBlankLine_blank body
  | cons entry rest ih =>
      obtain ⟨hkey, hvalue⟩ := hprintable entry List.mem_cons_self
      have hline : Printable (entry.1 ++ httpHeaderDelim ++ entry.2) :=
        (hkey.append (by decide)).append hvalue
      have hne : entry.1 ++ httpHeaderDelim ++ entry.2 ≠ [] := by
        simp [httpHeaderDelim]
      have hsplit : HttpResponse.fieldText (entry :: rest) ++ (httpCtrl ++ body) =
          entry.1 ++ httpHeaderDelim ++ entry.2 ++
            (httpCtrl ++ (HttpResponse.fieldText rest ++ (httpCtrl ++ body))) := by
        rw [HttpResponse.fieldText_cons]
        simp only [List.append_assoc]
      rw [hsplit, behindBlankLine_ctrl hline hne]
      exact ih fun other hother => hprintable other (List.mem_cons_of_mem entry hother)

/-- A response of printable lines is read back behind its first empty line. -/
theorem behindBlankLine_wireText {response : HttpResponse}
    (hstatus : Printable response.statusText) (hmsg : Printable response.statusMsg)
    (hheader : ∀ entry ∈ response.httpHeader.entries, Printable entry.1 ∧ Printable entry.2) :
    behindBlankLine response.wireText = some response.httpBody := by
  have hsplit : response.wireText = response.statusText ++ response.statusMsg ++
      (httpCtrl ++ (HttpResponse.fieldText response.httpHeader.entries ++
        (httpCtrl ++ response.httpBody))) := by
    unfold HttpResponse.wireText HttpResponse.headText
    simp only [List.append_assoc]
  rw [hsplit, behindBlankLine_printable (hstatus.append hmsg)]
  exact behindBlankLine_fields hheader response.httpBody

/-! ## The page and its length -/

theorem atoi_sizeText (size : Nat) : atoi (sizeText size) = (size : Int).bmod (2 ^ 32) := by
  have hlow := @Int.le_bmod size (2 ^ 32) (by norm_num)
  have hhigh := @Int.bmod_lt size (2 ^ 32) (by norm_num)
  refine atoi_decimal ?_ ?_
  · omega
  · omega

theorem cStr_length_lt {text : Bytes} (hnul : 0 ∈ text) : (cStr text).length < text.length := by
  have hprefix : cStr text <+: text := List.takeWhile_prefix _
  refine lt_of_le_of_ne hprefix.length_le fun hlength => ?_
  have hsame : cStr text = text := hprefix.eq_of_length hlength
  rw [← hsame] at hnul
  exact HttpRequest.Parsed.nul_cStr text hnul

theorem cStr_append {front : Bytes} (hfront : 0 ∉ front) (rest : Bytes) :
    cStr (front ++ rest) = front ++ cStr rest :=
  Arena.takeWhile_append hfront rest

/-- What stands before the body. -/
def pageFront (entries : List (Bytes × Bytes)) : Bytes :=
  pageHead ++ pageHeaders entries ++ ascii "</p>".toList ++
    ascii "Body from request: </p> ".toList

theorem nul_pageFront {entries : List (Bytes × Bytes)}
    (hentries : ∀ entry ∈ entries, 0 ∉ entry.1 ∧ 0 ∉ entry.2) : 0 ∉ pageFront entries := by
  have hhead := nul_pageHead
  have hheaders := nul_pageHeaders hentries
  have hclose : (0 : UInt8) ∉ ascii "</p>".toList := by decide
  have hintro : (0 : UInt8) ∉ ascii "Body from request: </p> ".toList := by decide
  unfold pageFront
  simp only [List.mem_append, hhead, hheaders, hclose, hintro, or_false, not_false_eq_true]

theorem pageText_eq (request : HttpRequest) :
    pageText request =
      pageFront request.httpHeader.entries ++ (request.httpBody ++ pageTail) := by
  unfold pageText pageFront
  simp only [List.append_assoc]

/-- Only the body and what stands behind it can be cut off. -/
theorem pageText_length_le {request : HttpRequest} (hheader : request.HeaderNulFree) :
    (pageText request).length ≤
      (cStr (pageText request)).length + request.httpBody.length + 44 := by
  have htail : pageTail.length = 44 := by decide
  rw [pageText_eq, cStr_append (nul_pageFront hheader)]
  simp only [List.length_append, htail]
  omega

/-- The value of `Content-Length` is the number of bytes behind the empty line. -/
def LengthAgrees (response : HttpResponse) (wire : Bytes) : Prop :=
  ∃ value body, response.httpHeader.lookup HttpClient.contentLengthKey = some value ∧
    behindBlankLine wire = some body ∧ atoi value = body.length

section Default

variable {now : Tm} {request : HttpRequest} {response : HttpResponse}

theorem default_lookup (hheader : response.httpHeader = .empty) :
    (defaultHttpRequestHandler now request response).httpHeader.lookup
      HttpClient.contentLengthKey = some (sizeText (pageText request).length) := by
  unfold SortedMap.lookup
  rw [defaultHandler_entries now request hheader]
  unfold defaultEntries
  generalize sizeText (pageText request).length = length
  generalize now.strftime = date
  rfl

theorem default_behindBlankLine (hheader : response.httpHeader = .empty) :
    behindBlankLine (defaultHttpRequestHandler now request response).wireText =
      some (cStr (pageText request)) := by
  refine behindBlankLine_wireText ?_ ?_ ?_
  · unfold HttpResponse.statusText
    rw [show (defaultHttpRequestHandler now request response).statusCode = 200 from rfl]
    decide
  · rw [show (defaultHttpRequestHandler now request response).statusMsg = ascii ['O', 'K'] from rfl]
    decide
  · have hlengthKey : Printable HttpClient.contentLengthKey := by decide
    have hdateKey : Printable dateKey := by decide
    rw [defaultHandler_entries now request hheader]
    intro entry hentry
    simp only [defaultEntries, List.mem_cons, List.not_mem_nil, or_false] at hentry
    rcases hentry with rfl | rfl | rfl | rfl | rfl
    · exact ⟨by decide, by decide⟩
    · exact ⟨hlengthKey, .decimal _⟩
    · exact ⟨by decide, by decide⟩
    · exact ⟨hdateKey, .strftime now⟩
    · exact ⟨by decide, by decide⟩

theorem lengthAgrees_default (hheader : response.httpHeader = .empty) :
    LengthAgrees (defaultHttpRequestHandler now request response)
        (defaultHttpRequestHandler now request response).wireText ↔
      ((pageText request).length : Int).bmod (2 ^ 32) = (cStr (pageText request)).length := by
  unfold LengthAgrees
  rw [default_lookup hheader, default_behindBlankLine hheader, ← atoi_sizeText]
  constructor
  · rintro ⟨value, body, hvalue, hbody, hagrees⟩
    rw [Option.some.inj hvalue, Option.some.inj hbody]
    exact hagrees
  · intro hagrees
    exact ⟨_, _, rfl, rfl, hagrees⟩

end Default

/-- A page that is cut off is shorter than announced, by less than an `int` wraps. -/
theorem pageLength_agrees_iff
    {request : HttpRequest} (hparsed : request.Parsed)
    (hsmall : (cStr (pageText request)).length < 2 ^ 31) :
    ((pageText request).length : Int).bmod (2 ^ 32) = (cStr (pageText request)).length ↔
      0 ∉ request.httpBody := by
  have hcut := pageText_length_le hparsed.header
  have hbody := hparsed.body
  have hbounded : request.bodyLen < 4096 := hparsed.bounded
  constructor
  · intro hagrees hnul
    have hless := cStr_length_lt ((nul_pageText hparsed.header).mpr hnul)
    have hdvd := Int.dvd_self_sub_bmod (x := ((pageText request).length : Int)) (m := 2 ^ 32)
    rw [hagrees] at hdvd
    omega
  · intro hnul
    have hwhole : cStr (pageText request) = pageText request := by
      refine HttpClient.cStr_eq fun hmem => hnul ?_
      rwa [nul_pageText hparsed.header] at hmem
    rw [hwhole] at hsmall ⊢
    exact Int.bmod_eq_of_le (by omega) (by omega)

theorem lengthAgrees_parsed
    {request : HttpRequest} {size : Nat} (now : Tm) (left : HttpResponse)
    (hparsed : request.Parsed) (hsize : size < 2 ^ 31)
    (hserialized :
      (defaultHttpRequestHandler now request left.cleanUp).generateResponse size ≠ []) :
    LengthAgrees (defaultHttpRequestHandler now request left.cleanUp)
        ((defaultHttpRequestHandler now request left.cleanUp).generateResponse size) ↔
      0 ∉ request.httpBody := by
  have hheader : left.cleanUp.httpHeader = .empty := rfl
  have hwire := HttpResponse.wireText_length (defaultHttpRequestHandler now request left.cleanUp)
  have hbody : (defaultHttpRequestHandler now request left.cleanUp).httpBody =
      cStr (pageText request) := rfl
  rw [HttpResponse.generateResponse_eq] at hserialized ⊢
  split_ifs at hserialized ⊢ with hfits
  · rw [hbody] at hwire
    rw [lengthAgrees_default hheader]
    exact pageLength_agrees_iff hparsed (by omega)
  · exact absurd rfl hserialized

/-- `Content-Length` agrees with the body exactly when the request's body has no NUL. -/
theorem lengthAgrees_iff_nul
    {policy : StringPolicy} {object : HttpClient} {session : Session} {request : HttpRequest}
    {size : Nat} (now : Tm) (left : HttpResponse)
    (hreached : session.Reached policy object) (hpassed : request ∈ session.passed)
    (hsize : size < 2 ^ 31)
    (hserialized :
      (defaultHttpRequestHandler now request left.cleanUp).generateResponse size ≠ []) :
    LengthAgrees (defaultHttpRequestHandler now request left.cleanUp)
        ((defaultHttpRequestHandler now request left.cleanUp).generateResponse size) ↔
      0 ∉ request.httpBody :=
  lengthAgrees_parsed now left (hreached.sound.passed request hpassed) hsize hserialized

/-! ## A body of one byte -/

/-- A request with this header and one byte. -/
structure OneByte (byte : UInt8) (request : HttpRequest) : Prop where
  entries : request.httpHeader.entries = [(HttpClient.contentLengthKey, ascii ['1'])]
  body : request.httpBody = [byte]

theorem OneByte.serialized {byte : UInt8} {request : HttpRequest}
    (hrequest : OneByte byte request) (left : HttpResponse) :
    (defaultHttpRequestHandler Session.epoch request left.cleanUp).generateResponse (8 * 1024) ≠
      [] := by
  have hlength : (pageText request).length = 399 := by
    have hheaders : (pageHeaders [(HttpClient.contentLengthKey, ascii ['1'])]).length = 20 := by
      decide
    rw [pageText_length, hrequest.entries, hrequest.body, hheaders, List.length_singleton]
  have hcut : (cStr (pageText request)).length ≤ 399 := by
    rw [← hlength]
    exact (List.takeWhile_prefix _).length_le
  have hdigits : (sizeText 399).length = 3 := by decide
  have hdate : Session.epoch.strftime.length = 26 := by decide
  have hwire := defaultHandler_wireText_length Session.epoch request
    (show left.cleanUp.httpHeader = .empty from rfl)
  unfold defaultSize at hwire
  rw [hlength, hdigits, hdate] at hwire
  rw [HttpResponse.generateResponse_eq, if_pos (by omega)]
  exact List.ne_nil_of_length_pos (wireText_pos _)

/-- The byte reaches the handler. -/
theorem exists_postByte {byte : UInt8} (hmark : questionMark ≠ byte) :
    ∃ session request, Session.Reached .doubling
      (.construct (List.replicate (8 * 1024) 0) 15 false 0) session ∧
        request ∈ session.passed ∧ OneByte byte request := by
  have hidle : Session.firstConnection.Idle := Session.idle_connect _ _
  have hfits : ((postByte byte).textBefore [byte]).length ≤
      Session.firstConnection.client.readBuffer.size := by
    have hlength : ((postByte byte).textBefore [byte]).length = 39 := rfl
    rw [Session.firstConnection_size, hlength]
    decide
  have hbehind : ¬ (postByte byte).MarkBehind [byte] := by
    rintro ⟨-, hmem⟩
    have hhead : questionMark ∉ headerText [singleField] ++ httpCtrl := by decide
    rcases List.mem_append.mp hmem with hleft | hright
    · exact hhead hleft
    · exact hmark (List.mem_singleton.mp hright)
  have hhanded : ∃ request, (postByte byte).handed Session.defaultEnv
      Session.firstConnection.client.request [byte] = some request ∧ OneByte byte request := by
    unfold Message.handed
    rw [if_neg (not_or.mpr ⟨hbehind, fun hread => by cases hread.1⟩)]
    exact ⟨_, rfl, rfl, rfl⟩
  obtain ⟨request, hrequest, honeByte⟩ := hhanded
  obtain ⟨ending, final, hruns, hpassed, -⟩ :=
    Session.exchange Session.defaultEnv hidle hfits
  refine ⟨final, request, ?_, ?_, honeByte⟩
  · exact .event (.deliver _ (.first rfl)) rfl hruns
  · rw [hpassed, hrequest]
    exact List.mem_append_right _ List.mem_cons_self

theorem lengthAgrees_letter :
    ∃ session request, Session.Reached .doubling
      (.construct (List.replicate (8 * 1024) 0) 15 false 0) session ∧
        request ∈ session.passed ∧ request.httpBody = [97] ∧
          LengthAgrees
            (defaultHttpRequestHandler Session.epoch request (.cleanUp (.construct false 0)))
            ((defaultHttpRequestHandler Session.epoch request
              (.cleanUp (.construct false 0))).generateResponse (8 * 1024)) := by
  obtain ⟨session, request, hreached, hpassed, honeByte⟩ :=
    exists_postByte (show questionMark ≠ 97 by decide)
  refine ⟨session, request, hreached, hpassed, honeByte.body, ?_⟩
  refine (lengthAgrees_iff_nul Session.epoch (.construct false 0) hreached hpassed (by decide)
    (honeByte.serialized _)).mpr ?_
  rw [honeByte.body]
  decide

/-- A body that is a NUL. -/
theorem not_lengthAgrees_nul :
    ¬ ∀ (policy : StringPolicy) (object : HttpClient) (session : Session) (request : HttpRequest)
      (now : Tm) (left : HttpResponse) (size : Nat), session.Reached policy object →
        request ∈ session.passed → size < 2 ^ 31 →
        (defaultHttpRequestHandler now request left.cleanUp).generateResponse size ≠ [] →
          LengthAgrees (defaultHttpRequestHandler now request left.cleanUp)
            ((defaultHttpRequestHandler now request left.cleanUp).generateResponse size) := by
  intro hall
  obtain ⟨session, request, hreached, hpassed, honeByte⟩ :=
    exists_postByte (show questionMark ≠ 0 by decide)
  have hsize : 8 * 1024 < 2 ^ 31 := by decide
  have hserialized := honeByte.serialized (.construct false 0)
  have hagrees := hall _ _ session request Session.epoch (.construct false 0) (8 * 1024) hreached
    hpassed hsize hserialized
  rw [lengthAgrees_parsed Session.epoch _ (hreached.sound.passed request hpassed) hsize
    hserialized, honeByte.body] at hagrees
  exact hagrees List.mem_cons_self

end BackEndFacility
