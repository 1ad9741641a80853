import BackEndFacility.HttpDefaultHandler

/-!
# Answering a request

`HttpClient::GenerateResponse` takes a response from the handler, a buffer for its
announced size from the write pool and the bytes from the serializer.  It looks at
neither whether there is a buffer nor whether there are bytes.
-/

namespace BackEndFacility

/-- The text is queued in full, or a negative value closes the connection and the queue
stays as it was. -/
def Reply.Handled (pending : List HttpBuffer) (text : Bytes) : Reply → Prop
  | .crashed _ => False
  | .returned len next =>
      (len < 0 ∧ next.client.pendingWrite = pending) ∨
      (0 ≤ len ∧ ∃ buffer, next.client.pendingWrite = pending ++ [buffer] ∧
        buffer.data = text ∧ buffer.data ≠ [])

namespace Session

def Handles (env : Environment) (session : Session) : Prop :=
  ∃ reply, session.generateResponse env = reply ∧
    reply.Handled session.client.pendingWrite
      (env.cgi session.client.request session.client.response).wireText

/-- The pool has a buffer of this size, and the serializer fills it with a text of this
length. -/
def Answerable (announced : Int) (length : Nat) : Prop :=
  0 < announced ∧ announced ≤ 8 * 1024 ∧
    length + 2 ≤ HttpWriteBuffer.roundUp 1024 announced.toNat

instance decidableAnswerable (announced : Int) (length : Nat) :
    Decidable (Answerable announced length) :=
  inferInstanceAs (Decidable (_ ∧ _ ∧ _))

variable {env : Environment} {session : Session}

/-- Nothing but the allocation decides. -/
theorem queueResponse_handled (session : Session) (response : HttpResponse)
    (allocated : Option (HttpBuffer × HttpWriteBuffer)) :
    (session.queueResponse response allocated).Handled session.client.pendingWrite
        response.wireText ↔
      ∃ buffer left, allocated = some (buffer, left) ∧
        response.wireText.length + 2 ≤ buffer.size := by
  have hpos := wireText_pos response
  cases allocated with
  | none =>
      constructor
      · intro hcrash
        exact hcrash.elim
      · rintro ⟨buffer, left, hnone, -⟩
        cases hnone
  | some allocated =>
      obtain ⟨buffer, left⟩ := allocated
      simp only [queueResponse, Reply.Handled, setClient, HttpClient.finishGenerateResponse,
        Option.some.injEq, Prod.mk.injEq]
      rw [HttpResponse.generateResponse_eq]
      constructor
      · rintro (⟨hneg, -⟩ | ⟨-, other, hqueue, -, hne⟩)
        · exact absurd hneg (by decide)
        · have hother := List.append_cancel_left hqueue
          rw [List.singleton_inj] at hother
          rw [← hother] at hne
          refine ⟨buffer, left, ⟨rfl, rfl⟩, ?_⟩
          by_contra hlong
          rw [if_neg (by omega)] at hne
          exact hne rfl
      · rintro ⟨other, rest, ⟨rfl, rfl⟩, hfits⟩
        refine .inr ⟨by decide, _, rfl, ?_, ?_⟩
        · rw [if_pos (by omega)]
        · rw [if_pos (by omega)]
          exact List.ne_nil_of_length_pos hpos

theorem handles_iff_alloc
    {response : HttpResponse} {announced : Int}
    (hresponse : env.cgi session.client.request session.client.response = response)
    (hannounced : responseSize response = announced) :
    session.Handles env ↔
      ∃ buffer left,
        session.client.writeBuffer.allocWriteBuffer announced = some (buffer, left) ∧
          response.wireText.length + 2 ≤ buffer.size := by
  have hreply : session.generateResponse env =
      { session with passed := session.passed ++ [session.client.request] }.queueResponse response
        (session.client.writeBuffer.allocWriteBuffer announced) := by
    unfold generateResponse
    rw [hresponse, hannounced]
  have hiff := queueResponse_handled
    { session with passed := session.passed ++ [session.client.request] } response
    (session.client.writeBuffer.allocWriteBuffer announced)
  unfold Handles
  rw [hresponse, hreply]
  constructor
  · rintro ⟨reply, rfl, hhandled⟩
    exact hiff.mp hhandled
  · intro hroom
    exact ⟨_, rfl, hiff.mpr hroom⟩

/-- A response is handled when the pool has a buffer of its announced size that the
serialized text fits in. -/
theorem handles_of_sizedBy
    {response : HttpResponse} {announced : Int}
    (hsized : session.client.writeBuffer.SizedBy 1024)
    (hresponse : env.cgi session.client.request session.client.response = response)
    (hannounced : responseSize response = announced) :
    session.Handles env ↔ Answerable announced response.wireText.length := by
  rw [handles_iff_alloc hresponse hannounced]
  unfold Answerable
  by_cases hout : announced ≤ 0 ∨ (8 * (1024 : Nat) : Int) < announced
  · rw [hsized.alloc_eq_none hout]
    constructor
    · rintro ⟨buffer, left, hnone, -⟩
      cases hnone
    · intro hbounds
      omega
  · rw [not_or, not_le, not_lt] at hout
    obtain ⟨buffer, left, halloc, hsize, -, -⟩ := hsized.exists_alloc hout.1 hout.2
    rw [halloc, ← hsize]
    constructor
    · rintro ⟨other, rest, hother, hfits⟩
      cases hother
      exact ⟨hout.1, hout.2, hfits⟩
    · rintro ⟨-, -, hfits⟩
      exact ⟨buffer, left, rfl, hfits⟩

theorem roundUp_le {announced : Nat} (hbound : announced ≤ 8 * 1024) :
    HttpWriteBuffer.roundUp 1024 announced ≤ 8 * 1024 := by
  unfold HttpWriteBuffer.roundUp
  omega

/-- What the default handler announces is fifteen bytes short of what the serializer
needs. -/
theorem answerable_default {now : Tm} {request : HttpRequest} {announced : Int} {length : Nat}
    (hannounced : announced = (defaultSize now request : Int).bmod (2 ^ 32))
    (hlength : length = defaultSize now request + 13) :
    Answerable announced length ↔
      defaultSize now request ≤ 8 * 1024 ∧
        defaultSize now request + 15 ≤
          HttpWriteBuffer.roundUp 1024 (defaultSize now request) := by
  have hpos : 0 < defaultSize now request := by
    unfold defaultSize
    omega
  generalize defaultSize now request = size at hannounced hlength hpos ⊢
  by_cases hsmall : size ≤ 8 * 1024
  · have hsame : announced = size := by
      rw [hannounced]
      exact Int.bmod_eq_of_le (by omega) (by omega)
    unfold Answerable
    rw [hsame, Int.toNat_natCast, hlength]
    constructor
    · rintro ⟨-, -, hfits⟩
      exact ⟨hsmall, by omega⟩
    · rintro ⟨-, hfits⟩
      exact ⟨by omega, by omega, by omega⟩
  · constructor
    · rintro ⟨hlow, hhigh, hfits⟩
      have hround := roundUp_le (show announced.toNat ≤ 8 * 1024 by omega)
      omega
    · rintro ⟨hlong, -⟩
      exact absurd hlong hsmall

theorem responseSize_default {now : Tm} {request : HttpRequest} {response : HttpResponse}
    (hmsgLen : response.msgLen = 0) :
    responseSize (defaultHttpRequestHandler now request response) =
      (defaultSize now request : Int).bmod (2 ^ 32) := by
  unfold responseSize
  rw [defaultHandler_getResponseSize now request hmsgLen]

/-- For the page of the default handler both bounds are on its size. -/
theorem handles_default
    {now : Tm} {left : HttpResponse}
    (hsized : session.client.writeBuffer.SizedBy 1024)
    (hcgi : env.cgi = defaultHttpRequestHandler now)
    (hleft : session.client.response = left.cleanUp) :
    session.Handles env ↔
      defaultSize now session.client.request ≤ 8 * 1024 ∧
        defaultSize now session.client.request + 15 ≤
          HttpWriteBuffer.roundUp 1024 (defaultSize now session.client.request) := by
  have hheader : session.client.response.httpHeader = .empty := by
    rw [hleft]
    rfl
  have hmsgLen : session.client.response.msgLen = 0 := by
    rw [hleft]
    rfl
  rw [handles_of_sizedBy hsized (congrFun (congrFun hcgi _) _) (responseSize_default hmsgLen)]
  exact answerable_default rfl (defaultHandler_wireText_length now _ hheader)

/-- `GenerateResponse` handles a response exactly when the pool serves the announced size
and the serialized text fits in the buffer it gives. -/
theorem handles_iff_answerable
    {env : Environment} {session : Session} {held : List HttpBuffer}
    (hpool : HttpWriteBuffer.Reached 1024 8 session.client.writeBuffer held) :
    (session.Handles env ↔
      Answerable (responseSize (env.cgi session.client.request session.client.response))
        (env.cgi session.client.request session.client.response).wireText.length) ∧
      ∀ (now : Tm) (left : HttpResponse), env.cgi = defaultHttpRequestHandler now →
        session.client.response = left.cleanUp →
          (session.Handles env ↔
            defaultSize now session.client.request ≤ 8 * 1024 ∧
              defaultSize now session.client.request + 15 ≤
                HttpWriteBuffer.roundUp 1024 (defaultSize now session.client.request)) :=
  ⟨handles_of_sizedBy hpool.sizedBy.1 rfl rfl,
    fun _ _ hcgi hleft => handles_default hpool.sizedBy.1 hcgi hleft⟩

/-- Thursday, the first of January 1970. -/
def epoch : Tm where
  wday := 4
  mday := 1
  mon := 0
  year := 1970
  hour := 0
  sec := 0

/-- The default handler on a connection that takes everything. -/
def defaultEnv : Environment :=
  .accepting (defaultHttpRequestHandler epoch) .doubling

theorem defaultEnv_cgi : defaultEnv.cgi = defaultHttpRequestHandler epoch := by
  unfold defaultEnv Environment.accepting
  rfl

/-- A client that has just been handed its first connection. -/
def firstConnection : Session :=
  .connect defaultEnv (.construct (List.replicate (8 * 1024) 0) 15 false 0)

theorem firstConnection_pool :
    HttpWriteBuffer.Reached 1024 8 firstConnection.client.writeBuffer [] :=
  HttpWriteBuffer.Reached.init

theorem firstConnection_response :
    firstConnection.client.response = (HttpResponse.construct false 0).cleanUp := rfl

theorem firstConnection_size : firstConnection.client.readBuffer.size = 8 * 1024 :=
  List.length_replicate

/-- Two header fields and a body have been read. -/
def twoFields : Session :=
  firstConnection.setClient
    { firstConnection.client with
      request :=
        { firstConnection.client.request with
          httpHeader := .insert (.insert .empty (ascii ['H', 'o', 's', 't']) (ascii ['a']))
            (ascii ['A', 'g', 'e']) (ascii ['7'])
          httpBody := ascii ['b', 'o', 'd', 'y'] } }

/-- The page is handled, since it has less than 1024 bytes. -/
theorem handles_twoFields :
    twoFields.Handles defaultEnv ∧
      Answerable (responseSize (defaultEnv.cgi twoFields.client.request twoFields.client.response))
        (defaultEnv.cgi twoFields.client.request twoFields.client.response).wireText.length := by
  have hpool : HttpWriteBuffer.Reached 1024 8 twoFields.client.writeBuffer [] :=
    firstConnection_pool
  obtain ⟨hiff, hpage⟩ := @handles_iff_answerable defaultEnv twoFields [] hpool
  have hhandles : twoFields.Handles defaultEnv := by
    rw [hpage epoch _ defaultEnv_cgi firstConnection_response]
    decide +kernel
  exact ⟨hhandles, hiff.mp hhandles⟩

/-! ## A long header -/

theorem zero_lt_maxBodyLength : ([] : Bytes).length < maxBodyLength := by decide

theorem get_bodyless : HttpMethod.get ≠ .post → ([] : Bytes) = [] := fun _ => rfl

section LongHeader

variable (field : HeaderField)

/-- A `GET` with one header. -/
def fieldMessage (hannounced : announcedLength (storeFields .empty [field]) = 0) : Message where
  method := .get
  version := .v11
  url := ascii ['/']
  query := none
  fields := [field]
  body := []
  method_valid := HttpClient.get_ne_invalid
  version_valid := HttpClient.v11_ne_invalid
  url_space := HttpClient.space_notMem_root
  url_mark := HttpClient.mark_notMem_root
  query_space := query_none
  announced := hannounced
  bounded := zero_lt_maxBodyLength
  bodyless := get_bodyless

variable {field}

theorem fieldMessage_length (hannounced : announcedLength (storeFields .empty [field]) = 0) :
    (fieldMessage field hannounced).text.length = field.line.length + 20 := by
  have hctrl : httpCtrl.length = 2 := rfl
  have hmethod : HttpMethod.get.name.length = 3 := rfl
  have hversion : HttpVersion.v11.name.length = 8 := rfl
  have hurl : (ascii ['/']).length = 1 := rfl
  simp only [Message.text, Message.textBefore, Message.tail, Message.target, fieldMessage,
    headerText, List.map_cons, List.map_nil, List.flatten_cons, List.flatten_nil,
    List.length_append, List.length_cons, List.length_nil, hctrl, hmethod, hversion, hurl]
  omega

theorem fieldMessage_handed
    (hannounced : announcedLength (storeFields .empty [field]) = 0)
    (hmark : questionMark ∉ field.line) (request : HttpRequest) :
    (fieldMessage field hannounced).handed defaultEnv request [] =
      some ((fieldMessage field hannounced).opened request) := by
  have hbehind : ¬ (fieldMessage field hannounced).MarkBehind [] := by
    rintro ⟨-, hmem⟩
    have hctrl : questionMark ∉ httpCtrl := by decide
    simp only [Message.tail, fieldMessage, headerText, List.map_cons, List.map_nil,
      List.flatten_cons, List.flatten_nil, List.mem_append, hmark, hctrl, List.not_mem_nil,
      or_false] at hmem
  unfold Message.handed
  rw [if_neg (not_or.mpr ⟨hbehind, fun hread => by cases hread.2⟩)]
  rfl

/-- The page repeats the header. -/
theorem fieldMessage_size
    (hannounced : announcedLength (storeFields .empty [field]) = 0) {request : HttpRequest}
    (hheader : request.httpHeader = .empty) (hbody : request.httpBody = []) (now : Tm) :
    494 + field.key.length + field.value.length ≤
      defaultSize now ((fieldMessage field hannounced).opened request) := by
  have hentries : ((fieldMessage field hannounced).opened request).httpHeader.entries =
      [(field.key, field.value)] := by
    have hstored : ((fieldMessage field hannounced).opened request).httpHeader =
        storeFields request.httpHeader [field] := rfl
    rw [hstored, hheader]
    rfl
  have hsame : ((fieldMessage field hannounced).opened request).httpBody = [] := hbody
  have hfree : ((fieldMessage field hannounced).opened request).HeaderNulFree := by
    intro entry hentry
    rw [hentries, List.mem_singleton] at hentry
    rw [hentry]
    exact ⟨field.key_nul, field.value_nul⟩
  have hnul : 0 ∉ ((fieldMessage field hannounced).opened request).httpBody := by
    rw [hsame]
    exact List.not_mem_nil
  have hlength : (pageHeaders [(field.key, field.value)]).length =
      field.key.length + 1 + field.value.length + 4 := by
    have hclose : (ascii "</p>".toList).length = 4 := by decide
    simp only [pageHeaders, List.map_cons, List.map_nil, List.flatten_cons, List.flatten_nil,
      List.length_append, List.length_cons, List.length_nil, hclose]
  rw [defaultSize_eq hfree hnul, hentries, hlength]
  omega

end LongHeader

def longValue : Bytes := List.replicate 8000 97

theorem mem_longValue {byte : UInt8} (hmem : byte ∈ longValue) : byte = 97 :=
  List.eq_of_mem_replicate hmem

theorem longValue_nul : 0 ∉ longValue :=
  fun hmem => absurd (mem_longValue hmem) (by decide)

theorem longValue_ctrl : ¬ httpCtrl <:+: longValue := by
  intro hinside
  have hmem : carriageReturn ∈ longValue := hinside.subset List.mem_cons_self
  exact absurd (mem_longValue hmem) (by decide)

def longField : HeaderField where
  key := ascii ['A']
  value := longValue
  key_nul := by decide
  key_ctrl := by decide
  key_delim := by decide
  value_nul := longValue_nul
  value_ctrl := longValue_ctrl

theorem longField_key : longField.key.length = 1 := rfl

theorem longField_value : longField.value.length = 8000 := List.length_replicate

theorem longField_line : longField.line.length = 8003 := by
  unfold HeaderField.line
  rw [List.length_append, List.length_append, longField_key, longField_value,
    HttpResponse.httpHeaderDelim_length]

theorem longField_mark : questionMark ∉ longField.line := by
  have hkey : questionMark ∉ longField.key := by decide
  have hdelim : questionMark ∉ httpHeaderDelim := by decide
  have hvalue : questionMark ∉ longField.value :=
    fun hmem => absurd (mem_longValue hmem) (by decide)
  unfold HeaderField.line
  simp only [List.mem_append, hkey, hdelim, hvalue, or_false, not_false_eq_true]

theorem longField_announced : announcedLength (storeFields .empty [longField]) = 0 := by
  have hlookup : (storeFields .empty [longField]).lookup HttpClient.contentLengthKey = none := rfl
  unfold announcedLength
  rw [hlookup]
  decide

/-- A `GET` of 8,023 bytes. -/
def longMessage : Message :=
  fieldMessage longField longField_announced

/-- A request that fits the read buffer, and whose page fits no write buffer. -/
theorem not_handles_longMessage :
    ¬ ∀ (now : Tm) (env : Environment) (session ready : Session) (message : Message)
      (request : HttpRequest), env.cgi = defaultHttpRequestHandler now → session.Idle →
        HttpWriteBuffer.Reached 1024 8 session.client.writeBuffer [] →
        session.client.readBuffer.size = 8 * 1024 → message.text.length ≤ 8 * 1024 →
        message.handed env session.client.request message.body = some request →
        session.AtHandler request ready → ready.Handles env := by
  intro hall
  have hlength : longMessage.text.length = 8023 := by
    unfold longMessage
    rw [fieldMessage_length, longField_line]
  have hfits : longMessage.text.length ≤ 8 * 1024 := by
    rw [hlength]
    decide
  have hidle : firstConnection.Idle := idle_connect _ _
  have hhanded := fieldMessage_handed longField_announced longField_mark
    firstConnection.client.request
  obtain ⟨ready, hready, -⟩ := exists_atHandler hidle
    (show longMessage.text.length ≤ firstConnection.client.readBuffer.size by
      rw [firstConnection_size]
      exact hfits) hhanded
  have hhandles := hall epoch defaultEnv firstConnection ready longMessage _
    defaultEnv_cgi hidle firstConnection_pool firstConnection_size hfits hhanded hready
  have hclient := hready.client
  have hreached : HttpWriteBuffer.Reached 1024 8 ready.client.writeBuffer [] := by
    rw [hclient]
    exact firstConnection_pool
  have hresponse : ready.client.response = (HttpResponse.construct false 0).cleanUp := by
    rw [hclient]
    exact firstConnection_response
  have hrequest : ready.client.request =
      (fieldMessage longField longField_announced).opened firstConnection.client.request := by
    rw [hclient]
  have hbound := ((handles_default hreached.sizedBy.1 defaultEnv_cgi hresponse).mp hhandles).1
  have hsize := fieldMessage_size longField_announced
    (show firstConnection.client.request.httpHeader = .empty from rfl) rfl epoch
  rw [hrequest] at hbound
  rw [longField_key, longField_value] at hsize
  omega

end Session

end BackEndFacility
