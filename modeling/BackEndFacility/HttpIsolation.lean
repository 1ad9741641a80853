import BackEndFacility.HttpExchange

/-!
# What one request leaves to the next

`FinishSendResponse` goes back to the request line without cleaning the request
object.  After some requests have been answered it holds the headers of all of
them, the url data of the last one that had any, and the body of the first `POST`.
So the next request is passed on as it would be by a client that was just reset
exactly when it overwrites all of that.
-/

namespace BackEndFacility

/-! ## Header maps -/

theorem lookup_storeFields_of_notMem
    {fields : List HeaderField} {key : Bytes} (header : SortedMap Bytes Bytes)
    (hkey : ∀ field ∈ fields, field.key ≠ key) :
    (storeFields header fields).lookup key = header.lookup key := by
  have hnone : fields.reverse.find? (fun field => field.key = key) = none := by
    rw [List.find?_eq_none]
    intro field hfield
    simpa using hkey field (List.mem_reverse.mp hfield)
  rw [lookup_storeFields, hnone]
  rfl

theorem lookup_storeFields_of_mem
    {fields : List HeaderField} {key : Bytes} (header : SortedMap Bytes Bytes)
    (hkey : ∃ field ∈ fields, field.key = key) :
    ∃ value, (storeFields header fields).lookup key = some value ∧
      (storeFields .empty fields).lookup key = some value := by
  obtain ⟨field, hfield, hsame⟩ := hkey
  have hsome : (fields.reverse.find? (fun field => field.key = key)).isSome := by
    rw [List.find?_isSome]
    exact ⟨field, List.mem_reverse.mpr hfield, by simpa using hsame⟩
  obtain ⟨last, hlast⟩ := Option.isSome_iff_exists.mp hsome
  refine ⟨last.value, ?_, ?_⟩
  · rw [lookup_storeFields, hlast]
    rfl
  · rw [lookup_storeFields, hlast]
    rfl

theorem storeFields_append (header : SortedMap Bytes Bytes) (first second : List HeaderField) :
    storeFields header (first ++ second) = storeFields (storeFields header first) second :=
  List.foldl_append

theorem storeFields_eq_iff {old fields : List HeaderField} :
    storeFields (storeFields .empty old) fields = storeFields .empty fields ↔
      ∀ field ∈ old, field.key ∈ fields.map HeaderField.key := by
  constructor
  · intro heq field hfield
    by_contra hnot
    have hnone : ∀ other ∈ fields, other.key ≠ field.key := by
      intro other hother hsame
      exact hnot (hsame ▸ List.mem_map_of_mem hother)
    obtain ⟨value, hvalue, -⟩ := lookup_storeFields_of_mem .empty ⟨field, hfield, rfl⟩
    have hlookup := congrArg (SortedMap.lookup · field.key) heq
    rw [lookup_storeFields_of_notMem _ hnone, lookup_storeFields_of_notMem _ hnone, hvalue,
      SortedMap.lookup_empty] at hlookup
    cases hlookup
  · intro hkeys
    refine SortedMap.ext fun key => ?_
    by_cases hmem : ∃ field ∈ fields, field.key = key
    · obtain ⟨value, hvalue, hempty⟩ :=
        lookup_storeFields_of_mem (storeFields .empty old) hmem
      rw [hvalue, hempty]
    · have hnone : ∀ field ∈ fields, field.key ≠ key := by
        intro field hfield heq
        exact hmem ⟨field, hfield, heq⟩
      have hold : ∀ field ∈ old, field.key ≠ key := by
        intro field hfield heq
        obtain ⟨other, hother, hsame⟩ := List.mem_map.mp (hkeys field hfield)
        exact hnone other hother (hsame.trans heq)
      rw [lookup_storeFields_of_notMem _ hnone, lookup_storeFields_of_notMem _ hnone,
        lookup_storeFields_of_notMem _ hold]

theorem Message.announced_of_body
    {message : Message} (header : SortedMap Bytes Bytes)
    (hbody : message.body ≠ []) :
    announcedLength (storeFields header message.fields) = message.body.length := by
  have hannounced := message.announced
  have hmem : ∃ field ∈ message.fields, field.key = HttpClient.contentLengthKey := by
    by_contra hnone
    have hkey : ∀ field ∈ message.fields, field.key ≠ HttpClient.contentLengthKey := by
      intro field hfield heq
      exact hnone ⟨field, hfield, heq⟩
    unfold announcedLength at hannounced
    rw [lookup_storeFields_of_notMem _ hkey, SortedMap.lookup_empty] at hannounced
    have hzero : toSize (atoi (Option.getD none [])) = 0 := by decide
    rw [hzero] at hannounced
    exact hbody (List.length_eq_zero_iff.mp hannounced.symm)
  obtain ⟨value, hvalue, hempty⟩ := lookup_storeFields_of_mem header hmem
  unfold announcedLength at hannounced ⊢
  rw [hempty] at hannounced
  rw [hvalue]
  exact hannounced

/-! ## The request object between two requests -/

/-- The data of the last url that had any. -/
def lastQuery (earlier : List Message) : Bytes :=
  earlier.foldl (fun data message => message.query.getD data) []

/-- The first `POST`. -/
def firstPost (earlier : List Message) : Option Message :=
  earlier.find? (fun message => message.method = .post)

/-- The body that `AppendBody` keeps of one that arrives in one read. -/
def keptBody (policy : StringPolicy) (capacity : Nat) (body : Bytes) : Bytes :=
  if policy.reserve capacity body.length ≤ body.length then [] else body

/-- What the body of a request object is after these requests. -/
def BodyCarried (policy : StringPolicy) (capacity : Nat) (request : HttpRequest) :
    Option Message → Prop
  | none => request.bodyLen = 0 ∧ request.httpBody = [] ∧ request.bodyCapacity = capacity
  | some post =>
      post.body ≠ [] ∧ request.bodyLen = post.body.length ∧
        request.httpBody = keptBody policy capacity post.body ∧
        request.bodyCapacity = policy.reserve capacity post.body.length

/-- The request object after these requests, on a client whose body had this
capacity when it was reset. -/
structure Carried (policy : StringPolicy) (capacity : Nat) (earlier : List Message)
    (request : HttpRequest) : Prop where
  header : request.httpHeader = storeFields .empty (earlier.flatMap Message.fields)
  urlData : request.urlData = lastQuery earlier
  body : BodyCarried policy capacity request (firstPost earlier)

theorem appendBody_whole
    {policy : StringPolicy} {request : HttpRequest} {data : Bytes}
    (hempty : request.httpBody = [])
    (hcapacity : data.length ≤ request.bodyCapacity) :
    request.appendBody policy data =
      { request with httpBody := if request.bodyCapacity ≤ data.length then [] else data } := by
  unfold HttpRequest.appendBody
  split_ifs with hfull
  · rw [← hempty]
  · simp only [hempty, List.nil_append]
    rw [if_pos hcapacity]

section Opened

variable {policy : StringPolicy} {message : Message} (request : HttpRequest)

theorem Message.opened_eq (message : Message) :
    message.opened request =
      { request with
        method := message.method
        version := message.version
        reqUrl := message.url
        urlData := message.query.getD request.urlData
        httpHeader := storeFields request.httpHeader message.fields } := by
  unfold Message.opened HttpClient.storeHeader Message.startLine
  have hmethod := HttpMethod.ofText_name message.method
  have hversion := HttpVersion.ofText_name message.version
  cases message.query with
  | none =>
      simp only [HttpRequest.setVersion, HttpRequest.setUrl, HttpRequest.setHttpMethod, hmethod,
        hversion, Option.getD_none]
  | some data =>
      simp only [HttpRequest.setVersion, HttpRequest.setUrl, HttpRequest.setUrlData,
        HttpRequest.setHttpMethod, hmethod, hversion, Option.getD_some]

theorem acceptBody_bodyless
    (hmethod : message.method ≠ .post) :
    (message.opened request).acceptBody policy message.body = some (message.opened request) := by
  have hopened : (message.opened request).method ≠ .post := by
    rw [message.opened_eq]
    exact hmethod
  unfold HttpRequest.acceptBody
  rw [if_pos hopened]

theorem acceptBody_empty
    (hmethod : message.method = .post)
    (hbody : message.body = []) :
    (message.opened request).acceptBody policy message.body = none := by
  have hopened : ¬ (message.opened request).method ≠ .post := by
    rw [message.opened_eq]
    exact not_not.mpr hmethod
  have hnone : ∀ other : HttpRequest, other.completeBody policy [] = none := by
    intro other
    unfold HttpRequest.completeBody
    rw [if_neg]
    exact fun hdata => hdata.1 rfl
  unfold HttpRequest.acceptBody
  rw [if_neg hopened, hbody]
  simp only
  split_ifs
  · exact hnone _
  · rfl
  · exact hnone _

theorem acceptBody_first
    (hmethod : message.method = .post)
    (hbody : message.body ≠ [])
    (hunset : request.bodyLen = 0)
    (hempty : request.httpBody = []) :
    (message.opened request).acceptBody policy message.body =
      some { message.opened request with
        bodyLen := message.body.length
        bodyCapacity := policy.reserve request.bodyCapacity message.body.length
        httpBody := keptBody policy request.bodyCapacity message.body } := by
  have hpos : 0 < message.body.length := List.length_pos_iff.mpr hbody
  have hbound := message.bounded
  have hannounced := message.announced_of_body request.httpHeader hbody
  rw [message.opened_eq]
  unfold HttpRequest.acceptBody
  simp only
  rw [if_neg (not_not.mpr hmethod), if_neg (not_not.mpr hunset), hannounced,
    if_neg (by omega)]
  unfold HttpRequest.completeBody HttpRequest.setBodySize
  simp only
  rw [if_pos ⟨hbody, by rw [hempty, List.length_nil, Nat.zero_add]⟩,
    appendBody_whole (by exact hempty) (by exact policy.le_reserve _ _)]
  rfl

theorem acceptBody_next
    (hmethod : message.method = .post)
    (hset : request.bodyLen ≠ 0) :
    (message.opened request).acceptBody policy message.body =
      if message.body ≠ [] ∧ request.httpBody.length + message.body.length = request.bodyLen then
        some ((message.opened request).appendBody policy message.body)
      else none := by
  rw [message.opened_eq]
  unfold HttpRequest.acceptBody
  simp only
  rw [if_neg (not_not.mpr hmethod), if_pos hset]
  rfl

end Opened

/-! ## Requests one after the other -/

section Carry

variable {policy : StringPolicy} {capacity : Nat} {earlier : List Message} {message : Message}
  {request next : HttpRequest}

theorem lastQuery_append (earlier : List Message) (message : Message) :
    lastQuery (earlier ++ [message]) = message.query.getD (lastQuery earlier) := by
  unfold lastQuery
  rw [List.foldl_append]
  rfl

theorem firstPost_append_of_some
    {post : Message}
    (hpost : firstPost earlier = some post) :
    firstPost (earlier ++ [message]) = some post := by
  unfold firstPost at hpost ⊢
  rw [List.find?_append, hpost]
  rfl

theorem firstPost_append_of_none
    (hnone : firstPost earlier = none) :
    firstPost (earlier ++ [message]) = if message.method = .post then some message else none := by
  unfold firstPost at hnone ⊢
  rw [List.find?_append, hnone, Option.none_or, List.find?_singleton]
  simp only [decide_eq_true_eq]

theorem firstPost_append_of_ne
    (hmethod : message.method ≠ .post) :
    firstPost (earlier ++ [message]) = firstPost earlier := by
  cases hpost : firstPost earlier with
  | none => rw [firstPost_append_of_none hpost, if_neg hmethod]
  | some post => exact firstPost_append_of_some hpost

/-- A request that is taken adds its header and its url data to the request
object. -/
theorem Carried.opened
    (hcarried : Carried policy capacity earlier request)
    (hheader : next.httpHeader = (message.opened request).httpHeader)
    (hurlData : next.urlData = (message.opened request).urlData)
    (hbody : BodyCarried policy capacity next (firstPost (earlier ++ [message]))) :
    Carried policy capacity (earlier ++ [message]) next := by
  rw [message.opened_eq] at hheader hurlData
  refine ⟨?_, ?_, hbody⟩
  · rw [hheader, hcarried.header, ← storeFields_append, List.flatMap_append,
      List.flatMap_singleton]
  · rw [hurlData, hcarried.urlData, lastQuery_append]

/-- What a body does to the request object when an earlier one is there: it is
taken only if it is as long and that one was dropped, and then it is dropped as
well. -/
theorem acceptBody_carried
    {post : Message}
    (hbody : BodyCarried policy capacity request (some post))
    (hmethod : message.method = .post) :
    (message.opened request).acceptBody policy message.body =
      if keptBody policy capacity post.body = [] ∧ message.body.length = post.body.length then
        some (message.opened request)
      else none := by
  obtain ⟨hpost, hlen, hkept, hcapacity⟩ := hbody
  have hpos : 0 < post.body.length := List.length_pos_iff.mpr hpost
  rw [acceptBody_next request hmethod (by omega), hlen, hkept]
  by_cases hdropped : keptBody policy capacity post.body = []
  · rw [hdropped, List.length_nil, Nat.zero_add]
    by_cases hlength : message.body.length = post.body.length
    · have hne : message.body ≠ [] := by
        intro hempty
        rw [hempty, List.length_nil] at hlength
        omega
      have hfull : policy.reserve capacity post.body.length ≤ post.body.length := by
        by_contra hroom
        unfold keptBody at hdropped
        rw [if_neg hroom] at hdropped
        exact hpost hdropped
      rw [if_pos ⟨hne, hlength⟩, if_pos ⟨rfl, hlength⟩]
      unfold HttpRequest.appendBody
      rw [if_pos]
      rw [message.opened_eq]
      simp only
      rw [hcapacity, hlength]
      exact hfull
    · rw [if_neg (fun hboth => hlength hboth.2), if_neg (fun hboth => hlength hboth.2)]
  · have hwhole : keptBody policy capacity post.body = post.body := by
      unfold keptBody at hdropped ⊢
      split_ifs at hdropped ⊢
      · exact absurd rfl hdropped
      · rfl
    rw [hwhole, if_neg, if_neg (fun hboth => hpost hboth.1)]
    rintro ⟨hne, hlength⟩
    have hmore : 0 < message.body.length := List.length_pos_iff.mpr hne
    omega

theorem Carried.accept
    (hcarried : Carried policy capacity earlier request)
    (haccept : (message.opened request).acceptBody policy message.body = some next) :
    Carried policy capacity (earlier ++ [message]) next := by
  have hopened := message.opened_eq request
  by_cases hmethod : message.method = .post
  swap
  · rw [acceptBody_bodyless request hmethod] at haccept
    cases haccept
    refine hcarried.opened rfl rfl ?_
    have hbody := hcarried.body
    rw [firstPost_append_of_ne hmethod, hopened]
    cases hpost : firstPost earlier with
    | none =>
        rw [hpost] at hbody
        exact hbody
    | some post =>
        rw [hpost] at hbody
        exact hbody
  have hbody := hcarried.body
  cases hpost : firstPost earlier with
  | none =>
      rw [hpost] at hbody
      have hne : message.body ≠ [] := by
        intro hempty
        rw [acceptBody_empty request hmethod hempty] at haccept
        cases haccept
      rw [acceptBody_first request hmethod hne hbody.1 hbody.2.1] at haccept
      cases haccept
      refine hcarried.opened rfl rfl ?_
      rw [firstPost_append_of_none hpost, if_pos hmethod]
      refine ⟨hne, rfl, ?_, ?_⟩
      · rw [hbody.2.2]
      · rw [hbody.2.2]
  | some post =>
      rw [hpost] at hbody
      rw [acceptBody_carried hbody hmethod] at haccept
      split_ifs at haccept with hsame
      cases haccept
      refine hcarried.opened rfl rfl ?_
      rw [firstPost_append_of_some hpost, hopened]
      exact hbody

end Carry

namespace Session

variable {env : Environment}

/-- The connection after these requests have been answered, each of which arrived
in one read when the answer before it had been sent. -/
inductive Served (env : Environment) (start : Session) : List Message → Session → Prop
  | start : Served env start [] start
  | send {earlier : List Message} {session next : Session}
      (hserved : Served env start earlier session)
      (hruns : session.Runs env .write .done next) :
      Served env start earlier next
  | answer {earlier : List Message} {session next : Session} {message : Message}
      (hserved : Served env start earlier session) (hidle : session.Idle)
      (hfits : message.text.length ≤ session.client.readBuffer.size)
      (hruns : (session.deliver [message.text]).Runs env .read .done next)
      (hanswered : next.passed ≠ session.passed) :
      Served env start (earlier ++ [message]) next

/-- The requests that are passed on when a message arrives. -/
def Passes (env : Environment) (session : Session) (message : Message)
    (requests : List RequestView) : Prop :=
  ∃ ending final new, (session.deliver [message.text]).Runs env .read ending final ∧
    final.passed = session.passed ++ new ∧ new.map HttpRequest.view = requests

/-- A message is passed on as by a client that was just reset. -/
def Isolated (env : Environment) (client : HttpClient) (session : Session)
    (message : Message) : Prop :=
  ∀ requests, session.Passes env message requests ↔
    (connect env client).Passes env message requests

theorem passes_iff
    {session : Session} {message : Message} {requests : List RequestView}
    (hidle : session.Idle)
    (hfits : message.text.length ≤ session.client.readBuffer.size) :
    session.Passes env message requests ↔
      requests =
        ((message.handed env session.client.request message.body).map
          HttpRequest.view).toList := by
  obtain ⟨ending, final, hruns, hpassed, -⟩ := exchange env hidle hfits
  have hview : (message.handed env session.client.request message.body).toList.map
      HttpRequest.view =
      ((message.handed env session.client.request message.body).map HttpRequest.view).toList := by
    cases message.handed env session.client.request message.body <;> rfl
  constructor
  · rintro ⟨ending', final', new, hruns', hpassed', rfl⟩
    obtain ⟨-, rfl⟩ := hruns.unique hruns'
    rw [hpassed, List.append_cancel_left_eq] at hpassed'
    rw [← hpassed']
    exact hview
  · rintro rfl
    exact ⟨ending, final, _, hruns, hpassed, hview⟩

theorem idle_answering
    {session : Session}
    (hidle : session.Idle) :
    session.Answering :=
  ⟨.inr hidle.handler, hidle.content, hidle.incoming⟩

theorem Served.carried
    {client : HttpClient} {earlier : List Message} {session : Session}
    (hserved : (connect env client).Served env earlier session) :
    Carried env.policy (env.policy.clear client.request.bodyCapacity) earlier
        session.client.request ∧
      session.Answering ∧ session.client.readBuffer.size = client.readBuffer.size := by
  induction hserved with
  | start =>
      exact ⟨⟨rfl, rfl, rfl, rfl, rfl⟩, idle_answering (idle_connect env client), rfl⟩
  | send _ hruns ih =>
      obtain ⟨hcarried, hanswering, hsize⟩ := ih
      obtain ⟨ending, final, hruns', -, hdone⟩ := hanswering.runs env .write
      obtain ⟨hending, rfl⟩ := hruns.unique hruns'
      obtain ⟨hkept, hfinal⟩ := hdone hending.symm
      rw [hkept.request, hkept.readBuffer]
      exact ⟨hcarried, hfinal, hsize⟩
  | @answer earlier session next message _ hidle hfits hruns hanswered ih =>
      obtain ⟨hcarried, -, hsize⟩ := ih
      obtain ⟨ending, final, hruns', hpassed, hdone⟩ := exchange env hidle hfits
      obtain ⟨hending, rfl⟩ := hruns.unique hruns'
      cases hhanded : message.handed env session.client.request message.body with
      | none =>
          rw [hhanded, Option.toList_none, List.append_nil] at hpassed
          exact absurd hpassed hanswered
      | some request =>
          obtain ⟨hrequest, hanswering, hsame⟩ := hdone request hhanded hending.symm
          unfold Message.handed at hhanded
          split_ifs at hhanded
          refine ⟨?_, hanswering, hsame.trans hsize⟩
          rw [hrequest]
          exact hcarried.accept hhanded

end Session

/-! ## Isolation -/

/-- A message that reaches no handler, whatever came before it. -/
def Message.Unanswerable (env : Environment) (message : Message) : Prop :=
  message.MarkBehind message.body ∨
    (message.body = [] ∧ (env.readEnd = .error ∨ message.method = .post))

/-- The message overwrites what the earlier ones left: it has all their header
keys, and url data unless the last of them is empty; and if one was a `POST`, its
body was dropped, and a further `POST` has a body of the same length. -/
def Overwrites (policy : StringPolicy) (capacity : Nat) (earlier : List Message)
    (message : Message) : Prop :=
  (∀ past ∈ earlier, ∀ field ∈ past.fields,
    field.key ∈ message.fields.map HeaderField.key) ∧
  (message.query ≠ none ∨ lastQuery earlier = []) ∧
  ∀ post, firstPost earlier = some post →
    policy.reserve capacity post.body.length = post.body.length ∧
      (message.method = .post → message.body.length = post.body.length)

theorem Message.handed_of_unanswerable
    {env : Environment} {message : Message} (request : HttpRequest)
    (hunanswerable : message.Unanswerable env) :
    message.handed env request message.body = none := by
  unfold Message.handed
  rcases hunanswerable with hmark | ⟨hempty, herror | hmethod⟩
  · rw [if_pos (.inl hmark)]
  · rw [if_pos (.inr ⟨hempty, herror⟩)]
  · split_ifs
    · rfl
    · exact acceptBody_empty request hmethod hempty

theorem Message.handed_of_answerable
    {env : Environment} {message : Message} (request : HttpRequest)
    (hanswerable : ¬ message.Unanswerable env) :
    message.handed env request message.body =
      (message.opened request).acceptBody env.policy message.body := by
  unfold Message.Unanswerable at hanswerable
  unfold Message.handed
  rw [if_neg]
  rintro (hmark | ⟨hempty, herror⟩)
  · exact hanswerable (.inl hmark)
  · exact hanswerable (.inr ⟨hempty, .inl herror⟩)

section Isolation

variable {policy : StringPolicy} {capacity : Nat} {earlier : List Message} {message : Message}
  {request : HttpRequest}

/-- What a handler sees of a message that is taken. -/
def Message.seen (message : Message) (earlier : List Message) (body : Bytes) : RequestView where
  method := message.method
  version := message.version
  url := message.url
  urlData := message.query.getD (lastQuery earlier)
  header := storeFields (storeFields .empty (earlier.flatMap Message.fields)) message.fields
  body := body

theorem Carried.view_opened
    (hcarried : Carried policy capacity earlier request) :
    (message.opened request).view = message.seen earlier request.httpBody := by
  rw [message.opened_eq]
  unfold HttpRequest.view Message.seen
  simp only [hcarried.header, hcarried.urlData]

theorem seen_eq_iff
    {body body' : Bytes} :
    message.seen earlier body = message.seen [] body' ↔
      (∀ past ∈ earlier, ∀ field ∈ past.fields,
        field.key ∈ message.fields.map HeaderField.key) ∧
      (message.query ≠ none ∨ lastQuery earlier = []) ∧ body = body' := by
  have hheader : storeFields (storeFields .empty (earlier.flatMap Message.fields))
        message.fields = storeFields (storeFields .empty ([].flatMap Message.fields))
          message.fields ↔
      ∀ past ∈ earlier, ∀ field ∈ past.fields,
        field.key ∈ message.fields.map HeaderField.key := by
    have hiff := @storeFields_eq_iff (earlier.flatMap Message.fields) message.fields
    simp only [List.mem_flatMap, forall_exists_index, and_imp] at hiff
    rw [show storeFields (.empty : SortedMap Bytes Bytes) ([].flatMap Message.fields) = .empty
      from rfl, hiff]
    exact ⟨fun hall past hpast field hfield => hall field past hpast hfield,
      fun hall field past hpast hfield => hall past hpast field hfield⟩
  have hquery : message.query.getD (lastQuery earlier) = message.query.getD (lastQuery []) ↔
      (message.query ≠ none ∨ lastQuery earlier = []) := by
    cases message.query with
    | none => simp [lastQuery]
    | some data => simp
  unfold Message.seen
  simp only [RequestView.mk.injEq, true_and]
  rw [hheader, hquery]
  tauto

theorem Carried.afterPost
    {post : Message}
    (hcarried : Carried policy capacity earlier request)
    (hpost : firstPost earlier = some post) :
    ((message.opened request).acceptBody policy message.body).map HttpRequest.view =
      if message.method = .post ∧
          ¬ (keptBody policy capacity post.body = [] ∧
            message.body.length = post.body.length) then none
      else some (message.seen earlier (keptBody policy capacity post.body)) := by
  have hbody := hcarried.body
  rw [hpost] at hbody
  have hkept : request.httpBody = keptBody policy capacity post.body := hbody.2.2.1
  by_cases hmethod : message.method = .post
  · rw [acceptBody_carried hbody hmethod]
    split_ifs with hsame hboth hboth
    · exact absurd hsame hboth.2
    · rw [Option.map_some, hcarried.view_opened, hkept]
    · rfl
    · exact absurd ⟨hmethod, hsame⟩ hboth
  · rw [acceptBody_bodyless request hmethod, if_neg (fun hboth => hmethod hboth.1),
      Option.map_some, hcarried.view_opened, hkept]

theorem Carried.withoutPost
    (hcarried : Carried policy capacity earlier request)
    (hpost : firstPost earlier = none)
    (hempty : message.method = .post → message.body ≠ []) :
    ((message.opened request).acceptBody policy message.body).map HttpRequest.view =
      some (message.seen earlier (if message.method = .post then
        keptBody policy capacity message.body else [])) := by
  have hbody := hcarried.body
  rw [hpost] at hbody
  obtain ⟨hunset, hnone, hcapacity⟩ := hbody
  by_cases hmethod : message.method = .post
  · rw [acceptBody_first request hmethod (hempty hmethod) hunset hnone, if_pos hmethod,
      hcapacity, Option.map_some]
    have hview : (message.opened request).view = message.seen earlier request.httpBody :=
      hcarried.view_opened
    unfold HttpRequest.view Message.seen at hview ⊢
    simp only [RequestView.mk.injEq] at hview
    simp only [hview]
  · rw [acceptBody_bodyless request hmethod, if_neg hmethod, Option.map_some,
      hcarried.view_opened, hnone]

theorem keptBody_eq_nil_iff
    {body : Bytes}
    (hbody : body ≠ []) :
    keptBody policy capacity body = [] ↔
      policy.reserve capacity body.length = body.length := by
  have hle := policy.le_reserve capacity body.length
  unfold keptBody
  split_ifs with hfull
  · exact ⟨fun _ => le_antisymm hfull hle, fun _ => rfl⟩
  · exact ⟨fun hnil => absurd hnil hbody, fun heq => absurd heq.le hfull⟩

/-- The request objects of a connection and of a client that was just reset agree on
a message exactly when it overwrites what the connection has left. -/
theorem Carried.agree_iff
    {fresh : HttpRequest}
    (hcarried : Carried policy capacity earlier request)
    (hfresh : Carried policy capacity [] fresh)
    (hempty : message.method = .post → message.body ≠ []) :
    ((message.opened request).acceptBody policy message.body).map HttpRequest.view =
        ((message.opened fresh).acceptBody policy message.body).map HttpRequest.view ↔
      Overwrites policy capacity earlier message := by
  rw [hfresh.withoutPost rfl hempty]
  unfold Overwrites
  cases hpost : firstPost earlier with
  | none =>
      rw [hcarried.withoutPost hpost hempty, Option.some.injEq, seen_eq_iff]
      simp
  | some post =>
      have hbody := hcarried.body
      rw [hpost] at hbody
      have hdropped := @keptBody_eq_nil_iff policy capacity post.body hbody.1
      rw [hcarried.afterPost hpost]
      simp only [Option.some.injEq, forall_eq']
      rw [← hdropped]
      by_cases hmethod : message.method = .post
      · by_cases hsame : keptBody policy capacity post.body = [] ∧
            message.body.length = post.body.length
        · have hkept : keptBody policy capacity message.body = [] := by
            rw [keptBody_eq_nil_iff (hempty hmethod), hsame.2, ← hdropped]
            exact hsame.1
          rw [if_neg (fun hboth => hboth.2 hsame), Option.some.injEq, seen_eq_iff,
            if_pos hmethod, hkept]
          tauto
        · rw [if_pos ⟨hmethod, hsame⟩]
          constructor
          · nofun
          · rintro ⟨-, -, hnil, hlength⟩
            exact absurd ⟨hnil, hlength hmethod⟩ hsame
      · rw [if_neg (fun hboth => hmethod hboth.1), Option.some.injEq, seen_eq_iff,
          if_neg hmethod]
        tauto

end Isolation

namespace Session

theorem isolated_iff_handed
    {env : Environment} {client : HttpClient} {session : Session} {message : Message}
    (hidle : session.Idle)
    (hfits : message.text.length ≤ client.readBuffer.size)
    (hsize : session.client.readBuffer.size = client.readBuffer.size) :
    session.Isolated env client message ↔
      (message.handed env session.client.request message.body).map HttpRequest.view =
        (message.handed env (connect env client).client.request message.body).map
          HttpRequest.view := by
  have hpasses : ∀ requests, session.Passes env message requests ↔
      requests =
        ((message.handed env session.client.request message.body).map
          HttpRequest.view).toList :=
    fun requests => passes_iff hidle (hsize.symm ▸ hfits)
  have hconnect : ∀ requests, (connect env client).Passes env message requests ↔
      requests = ((message.handed env (connect env client).client.request message.body).map
        HttpRequest.view).toList :=
    fun requests => passes_iff (idle_connect env client) hfits
  have hinjective : ∀ first second : Option RequestView,
      first.toList = second.toList → first = second := by
    intro first second heq
    cases first <;> cases second <;> simp_all
  unfold Isolated
  simp only [hpasses, hconnect]
  constructor
  · intro hall
    exact hinjective _ _ ((hall _).mp rfl)
  · intro heq requests
    rw [heq]

theorem Served.isolated_iff
    {env : Environment} {client : HttpClient} {earlier : List Message} {session : Session}
    {message : Message}
    (hserved : (connect env client).Served env earlier session)
    (hidle : session.Idle)
    (hfits : message.text.length ≤ client.readBuffer.size)
    (hanswerable : ¬ message.Unanswerable env) :
    session.Isolated env client message ↔
      Overwrites env.policy (env.policy.clear client.request.bodyCapacity) earlier message := by
  obtain ⟨hcarried, -, hsize⟩ := hserved.carried
  obtain ⟨hfresh, -, -⟩ := @Served.carried env client [] _ .start
  have hempty : message.method = .post → message.body ≠ [] := by
    intro hmethod hnil
    exact hanswerable (.inr ⟨hnil, .inr hmethod⟩)
  rw [isolated_iff_handed hidle hfits hsize, message.handed_of_answerable _ hanswerable,
    message.handed_of_answerable _ hanswerable]
  exact hcarried.agree_iff hfresh hempty

/-- The request passed on after these requests is the one that a client just reset
would pass on exactly when the message reaches no handler at all or overwrites
what they left. -/
theorem isolated_iff_overwrites
    {env : Environment} {client : HttpClient} {earlier : List Message} {session : Session}
    {message : Message}
    (hserved : (connect env client).Served env earlier session)
    (hidle : session.Idle)
    (hfits : message.text.length ≤ client.readBuffer.size) :
    session.Isolated env client message ↔
      message.Unanswerable env ∨
        Overwrites env.policy (env.policy.clear client.request.bodyCapacity) earlier message := by
  by_cases hunanswerable : message.Unanswerable env
  · rw [isolated_iff_handed hidle hfits hserved.carried.2.2,
      message.handed_of_unanswerable _ hunanswerable,
      message.handed_of_unanswerable _ hunanswerable]
    exact ⟨fun _ => .inl hunanswerable, fun _ => rfl⟩
  · rw [hserved.isolated_iff hidle hfits hunanswerable]
    exact ⟨.inr, fun hor => hor.resolve_left hunanswerable⟩

/-! ## Two requests -/

/-- The event has answered one request and nothing is left to do. -/
def answersOnce : Option (Ending × Session) → Bool
  | some (.done, final) =>
      decide (final.client.evtHandler = .processRequestLine ∧
        final.client.readBuffer.content = [] ∧ final.incoming = [] ∧ final.passed.length = 1)
  | _ => false

theorem exists_answered
    {message : Message} (fuel : Nat)
    (hanswers : answersOnce ((fresh.deliver [message.text]).processEvent plain .read fuel) =
      true) :
    ∃ session, (fresh.deliver [message.text]).Runs plain .read .done session ∧ session.Idle ∧
      session.passed ≠ fresh.passed := by
  cases hevent : (fresh.deliver [message.text]).processEvent plain .read fuel with
  | none =>
      rw [hevent] at hanswers
      cases hanswers
  | some result =>
      obtain ⟨ending, final⟩ := result
      rw [hevent] at hanswers
      cases ending with
      | done =>
          unfold answersOnce at hanswers
          rw [decide_eq_true_eq] at hanswers
          obtain ⟨hhandler, hcontent, hincoming, hpassed⟩ := hanswers
          refine ⟨final, ⟨fuel, hevent⟩, ⟨hhandler, hcontent, hincoming⟩, fun hsame => ?_⟩
          rw [hsame] at hpassed
          cases hpassed
      | closed => cases hanswers
      | crashed => cases hanswers

theorem exists_served
    {message : Message} (fuel : Nat)
    (hfits : message.text.length ≤ 8 * 1024)
    (hanswers : answersOnce ((fresh.deliver [message.text]).processEvent plain .read fuel) =
      true) :
    ∃ session, fresh.Served plain [message] session ∧ session.Idle := by
  obtain ⟨session, hruns, hidle, hanswered⟩ := exists_answered fuel hanswers
  have hserved : fresh.Served plain ([] ++ [message]) session :=
    .answer .start (idle_connect _ _) (fresh_size.symm ▸ hfits) hruns hanswered
  exact ⟨session, hserved, hidle⟩

def hostField : HeaderField where
  key := ascii ['H', 'o', 's', 't']
  value := ascii ['a']
  key_nul := by decide
  key_ctrl := by decide
  key_delim := by decide
  value_nul := by decide
  value_ctrl := by decide

/-- `GET /` with a host. -/
def getMessage (query : Option Bytes) (hquery : ∀ data, query = some data → space ∉ data) :
    Message where
  method := .get
  version := .v11
  url := ascii ['/']
  query := query
  fields := [hostField]
  body := []
  method_valid := HttpClient.get_ne_invalid
  version_valid := HttpClient.v11_ne_invalid
  url_space := HttpClient.space_notMem_root
  url_mark := HttpClient.mark_notMem_root
  query_space := hquery
  announced := by decide
  bounded := by decide
  bodyless := fun _ => rfl

def getPlain : Message :=
  getMessage none nofun

def getQuery : Message :=
  getMessage (some (ascii ['b'])) (by
    intro data hdata
    cases hdata
    decide)

/-- The url data of the second request replaces what the first left. -/
theorem isolated_plainThenQuery :
    ∃ session, fresh.Served plain [getPlain] session ∧ session.Idle ∧
      session.Isolated plain (.construct (List.replicate (8 * 1024) 0) 15 false 0) getQuery := by
  obtain ⟨session, hserved, hidle⟩ := @exists_served getPlain 8 (by decide) (by decide +kernel)
  refine ⟨session, hserved, hidle, (isolated_iff_overwrites hserved hidle ?_).mpr (.inr ?_)⟩
  · rw [show (HttpClient.construct (List.replicate (8 * 1024) 0) 15 false 0).readBuffer.size =
      8 * 1024 from List.length_replicate]
    decide
  · refine ⟨?_, .inl nofun, nofun⟩
    decide

/-- The url data of the first request is passed on with the second. -/
theorem not_isolated_queryThenPlain :
    ¬ ∀ env client earlier session message, (connect env client).Served env earlier session →
      session.Idle → message.text.length ≤ client.readBuffer.size →
        session.Isolated env client message := by
  intro hall
  obtain ⟨session, hserved, hidle⟩ := @exists_served getQuery 8 (by decide) (by decide +kernel)
  have hfits : getPlain.text.length ≤
      (HttpClient.construct (List.replicate (8 * 1024) 0) 15 false 0).readBuffer.size := by
    rw [show (HttpClient.construct (List.replicate (8 * 1024) 0) 15 false 0).readBuffer.size =
      8 * 1024 from List.length_replicate]
    decide
  have hanswerable : ¬ getPlain.Unanswerable plain := by
    rintro (⟨-, hmark⟩ | ⟨-, herror | hpost⟩)
    · revert hmark
      decide
    · cases herror
    · cases hpost
  have hisolated := hall plain _ [getQuery] session getPlain hserved hidle hfits
  rw [hserved.isolated_iff hidle hfits hanswerable] at hisolated
  rcases hisolated.2.1 with hquery | hdata
  · exact hquery rfl
  · revert hdata
    decide

end Session

end BackEndFacility
