import BackEndFacility.HttpConnections
import BackEndFacility.HttpContentLength
import BackEndFacility.HttpExchange
import BackEndFacility.HttpRoundTrip

/-!
# What a handler is handed

Whatever bytes arrive, in whatever pieces, on whichever connection and behind however many
other requests: the request that `GenerateResponse` hands to the handler has a method and a
version, a url without a space or a question mark, plain headers, and a body that is no
longer than announced; a `POST` announces one.
-/

namespace BackEndFacility

/-! ## Ranges up to a byte -/

section Ranges

variable {α : Type*}

theorem slice_prefix {memory : List α} {first last last' : Nat} (hle : last ≤ last') :
    slice memory first last <+: slice memory first last' :=
  (List.take_prefix_take_left hle).drop first

variable [DecidableEq α]

theorem notMem_slice_find (value : α) (memory : List α) (first last : Nat) :
    value ∉ slice memory first (find value memory first last) := by
  have hle : (slice memory first last).idxOf value ≤ (slice memory first last).length :=
    List.idxOf_le_length
  have hleft := slice_left (List.take_append_drop
    ((slice memory first last).idxOf value) (slice memory first last)).symm
  rw [List.length_take, min_eq_left hle] at hleft
  intro hmem
  rw [find, hleft] at hmem
  have hless := (List.mem_take_iff_idxOf_lt (List.mem_of_mem_take hmem)).mp hmem
  exact lt_irrefl _ hless

end Ranges

/-! ## Requests -/

/-- What holds of the fields of a request at any time. -/
structure HttpRequest.Carried (request : HttpRequest) : Prop where
  url_space : space ∉ request.reqUrl
  url_mark : questionMark ∉ request.reqUrl
  urlData : space ∉ request.urlData
  header : Plain request.httpHeader

/-- What holds of a request that is complete. -/
structure HttpRequest.WellFormed (request : HttpRequest) : Prop where
  method : request.method ≠ .invalid
  version : request.version ≠ .invalid
  carried : request.Carried
  announced : request.method = .post → 0 < request.bodyLen

namespace HttpClient

/-- The request of a client, as far as it has been read. -/
structure Sane (client : HttpClient) : Prop where
  carried : client.request.Carried
  line : client.evtHandler ≠ .processRequestLine →
    client.request.method ≠ .invalid ∧ client.request.version ≠ .invalid
  announced : client.evtHandler = .generateResponse →
    client.request.method = .post → 0 < client.request.bodyLen

theorem Sane.wellFormed {client : HttpClient} (hsane : client.Sane)
    (hhandler : client.evtHandler = .generateResponse) : client.request.WellFormed where
  method := (hsane.line (by rw [hhandler]; simp)).1
  version := (hsane.line (by rw [hhandler]; simp)).2
  carried := hsane.carried
  announced := hsane.announced hhandler

/-- Only the request and the handler count. -/
theorem Sane.congr {client next : HttpClient} (hsane : client.Sane)
    (hrequest : next.request = client.request) (hhandler : next.evtHandler = client.evtHandler) :
    next.Sane := by
  refine ⟨?_, ?_, ?_⟩
  · rw [hrequest]
    exact hsane.carried
  · rw [hrequest, hhandler]
    exact hsane.line
  · rw [hrequest, hhandler]
    exact hsane.announced

theorem sane_of_waiting {client : HttpClient} (hcarried : client.request.Carried)
    (hhandler : client.evtHandler = .processRequestLine) : client.Sane where
  carried := hcarried
  line := fun hother => absurd hhandler hother
  announced := fun hother => by
    rw [hhandler] at hother
    cases hother

theorem sane_resetClient (policy : StringPolicy) (client : HttpClient) :
    (client.resetClient policy).Sane :=
  sane_of_waiting ⟨List.not_mem_nil, List.not_mem_nil, List.not_mem_nil, plain_empty⟩ rfl

/-! ## The request line -/

theorem parseUrl_carried {request next : HttpRequest} {memory : Bytes} {start stop : Nat}
    (hcarried : request.Carried)
    (hparse : parseUrl request memory start (find space memory start stop) stop = some next) :
    next.Carried ∧ next.method = request.method := by
  have hspace := notMem_slice_find space memory start stop
  have hmark := notMem_slice_find questionMark memory start stop
  have hdelim := find_le space memory start stop
  have hstart := le_find questionMark memory start stop
  unfold parseUrl at hparse
  simp only at hparse
  generalize find space memory start stop = delim at *
  generalize find questionMark memory start stop = mark at *
  split_ifs at hparse with hnone hbefore
  · cases hparse
    have hfront : slice memory start delim <+: slice memory start mark :=
      slice_prefix (by omega)
    exact ⟨⟨hspace, fun hmem => hmark (hfront.subset hmem), hcarried.urlData,
      hcarried.header⟩, rfl⟩
  · cases hparse
    have hfront : slice memory start mark <+: slice memory start delim :=
      slice_prefix hbefore.le
    have hsuffix : slice memory (mark + 1) delim <:+ slice memory start delim :=
      slice_suffix (by omega)
    exact ⟨⟨fun hmem => hspace (hfront.subset hmem), hmark,
      fun hmem => hspace (hsuffix.subset hmem), hcarried.header⟩, rfl⟩

theorem parseVersion_sane {client next : HttpClient} {stop len : Nat} {ret : Int}
    (hcarried : client.request.Carried) (hmethod : client.request.method ≠ .invalid)
    (hhandler : client.evtHandler = .processRequestLine)
    (hparse : client.parseVersion stop len = (ret, next)) : next.Sane := by
  obtain ⟨hspace, hmark, hdata, hheader⟩ := hcarried
  unfold parseVersion at hparse
  simp only at hparse
  split_ifs at hparse with hshort hother hversion
  · cases hparse
    exact sane_of_waiting ⟨hspace, hmark, hdata, hheader⟩ hhandler
  · cases hparse
    exact sane_of_waiting ⟨hspace, hmark, hdata, hheader⟩ hhandler
  · cases hparse
    exact sane_of_waiting ⟨hspace, hmark, hdata, hheader⟩ hhandler
  · cases hparse
    exact ⟨⟨hspace, hmark, hdata, hheader⟩, fun _ => ⟨hmethod, hversion⟩,
      fun hdone => by cases hdone⟩

theorem parseTarget_sane {client next : HttpClient} {stop len : Nat} {ret : Int}
    (hcarried : client.request.Carried) (hmethod : client.request.method ≠ .invalid)
    (hhandler : client.evtHandler = .processRequestLine)
    (hparse : client.parseTarget stop len = some (ret, next)) : next.Sane := by
  unfold parseTarget at hparse
  simp only at hparse
  split_ifs at hparse with hshort
  · cases hparse
    exact sane_of_waiting hcarried hhandler
  · split at hparse
    · cases hparse
    · rename_i request hurl
      obtain ⟨hrequest, hsame⟩ := parseUrl_carried hcarried hurl
      have hvalid : request.method ≠ .invalid := by
        rw [hsame]
        exact hmethod
      refine parseVersion_sane ?_ ?_ ?_ (Option.some.inj hparse)
      · exact hrequest
      · exact hvalid
      · exact hhandler

theorem parseRequestLine_sane {client next : HttpClient} {ret : Int} (hsane : client.Sane)
    (hhandler : client.evtHandler = .processRequestLine)
    (hparse : client.parseRequestLine = some (ret, next)) : next.Sane := by
  obtain ⟨hspace, hmark, hdata, hheader⟩ := hsane.carried
  unfold parseRequestLine at hparse
  simp only at hparse
  split_ifs at hparse with hshort hmethod
  · cases hparse
    exact hsane
  · cases hparse
    exact sane_of_waiting ⟨hspace, hmark, hdata, hheader⟩ hhandler
  · refine parseTarget_sane ?_ ?_ ?_ hparse
    · exact ⟨hspace, hmark, hdata, hheader⟩
    · exact hmethod
    · exact hhandler

/-! ## The header and the body -/

/-- Nothing but headers is stored, and the handler stays or goes on to the body. -/
theorem parseHeaderLines_fields {stop fuel len : Nat} {client next : HttpClient} {ret : Int}
    (hparse : parseHeaderLines stop fuel len client = some (ret, next)) :
    next.request = { client.request with httpHeader := next.request.httpHeader } ∧
      (next.evtHandler = client.evtHandler ∨ next.evtHandler = .processBody) := by
  induction fuel generalizing len client with
  | zero => cases hparse
  | succ fuel ih =>
      rw [parseHeaderLines] at hparse
      simp only at hparse
      split_ifs at hparse with hshort hlast
      · cases hparse
        exact ⟨rfl, .inl rfl⟩
      · cases hparse
        exact ⟨rfl, .inr rfl⟩
      · have hrest := ih hparse
        exact hrest

theorem parseHeader_sane {fuel : Nat} {client next : HttpClient} {ret : Int}
    (hsane : client.Sane) (hhandler : client.evtHandler = .processHeader)
    (hparse : client.parseHeader fuel = some (ret, next)) : next.Sane := by
  obtain ⟨hspace, hmark, hdata, hheader⟩ := hsane.carried
  have hplain := parseHeader_plain hheader hparse
  obtain ⟨hmethod, hversion⟩ := hsane.line (by rw [hhandler]; simp)
  obtain ⟨hrequest, hnext⟩ := parseHeaderLines_fields hparse
  refine ⟨?_, ?_, ?_⟩
  · rw [hrequest]
    exact ⟨hspace, hmark, hdata, hplain⟩
  · rw [hrequest]
    exact fun _ => ⟨hmethod, hversion⟩
  · intro hdone
    rw [hdone, hhandler] at hnext
    rcases hnext with hnext | hnext
    · cases hnext
    · cases hnext

theorem appendBody_carried {policy : StringPolicy} {request : HttpRequest} {data : Bytes}
    (hcarried : request.Carried) :
    (request.appendBody policy data).Carried ∧
      (request.appendBody policy data).method = request.method ∧
      (request.appendBody policy data).version = request.version ∧
      (request.appendBody policy data).bodyLen = request.bodyLen := by
  unfold HttpRequest.appendBody
  split_ifs
  · exact ⟨hcarried, rfl, rfl, rfl⟩
  · exact ⟨⟨hcarried.url_space, hcarried.url_mark, hcarried.urlData, hcarried.header⟩, rfl, rfl,
      rfl⟩

theorem receiveBody_sane {policy : StringPolicy} {client next : HttpClient} {contentLen : Nat}
    {ret : Int} (hsane : client.Sane) (hhandler : client.evtHandler = .processBody)
    (hpos : 0 < client.request.bodyLen)
    (hparse : client.receiveBody policy contentLen = (ret, next)) : next.Sane := by
  have hline := hsane.line (by rw [hhandler]; simp)
  obtain ⟨hcarried, hmethod, hversion, hbodyLen⟩ := @appendBody_carried policy client.request
    client.readBuffer.content hsane.carried
  have hstored : ∀ other : HttpClient,
      other.request = client.request.appendBody policy client.readBuffer.content →
      other.Sane := by
    intro other hrequest
    refine ⟨?_, fun _ => ?_, fun _ _ => ?_⟩
    · rw [hrequest]
      exact hcarried
    · rw [hrequest, hmethod, hversion]
      exact hline
    · rw [hrequest, hbodyLen]
      exact hpos
  unfold receiveBody at hparse
  simp only at hparse
  split_ifs at hparse
  · cases hparse
    exact hsane
  · cases hparse
    exact hsane
  · cases hparse
    exact hstored _ rfl
  · cases hparse
    exact hstored _ rfl

theorem parseBody_sane {policy : StringPolicy} {client next : HttpClient} {ret : Int}
    (hsane : client.Sane) (hhandler : client.evtHandler = .processBody)
    (hparse : client.parseBody policy = (ret, next)) : next.Sane := by
  have hline := hsane.line (by rw [hhandler]; simp)
  unfold parseBody at hparse
  simp only at hparse
  split_ifs at hparse with hmethod hbodyLen hnone hlong
  · cases hparse
    exact ⟨hsane.carried, fun _ => hline, fun _ hpost => absurd hpost hmethod⟩
  · exact receiveBody_sane hsane hhandler (Nat.pos_of_ne_zero hbodyLen) hparse
  · cases hparse
    exact hsane
  · cases hparse
    exact hsane
  · obtain ⟨hspace, hmark, hdata, hheader⟩ := hsane.carried
    rw [not_or] at hnone
    have hsized : (client.setRequest (client.request.setBodySize policy
        (toSize (atoi (client.request.getHeaderValue contentLengthKey))))).Sane := by
      refine ⟨⟨hspace, hmark, hdata, hheader⟩, fun _ => hline, fun hdone => ?_⟩
      have hboth : client.evtHandler = .generateResponse := hdone
      rw [hhandler] at hboth
      cases hboth
    exact receiveBody_sane hsized hhandler (Nat.pos_of_ne_zero hnone.2) hparse

end HttpClient

/-! ## Events -/

namespace Session

variable {env : Environment} {code : SocketCode}

/-- Every request that has been passed on was well formed. -/
structure Sane (session : Session) : Prop where
  client : session.client.Sane
  passed : ∀ request ∈ session.passed, request.WellFormed

/-- The request stays, and the handler too unless it waits for the next one. -/
theorem Sane.keep {session next : Session} (hsane : session.Sane)
    (hrequest : next.client.request = session.client.request)
    (hpassed : next.passed = session.passed)
    (hhandler : next.client.evtHandler = session.client.evtHandler ∨
      next.client.evtHandler = .processRequestLine) : next.Sane := by
  refine ⟨?_, ?_⟩
  · rcases hhandler with hhandler | hhandler
    · exact hsane.client.congr hrequest hhandler
    · refine HttpClient.sane_of_waiting ?_ hhandler
      rw [hrequest]
      exact hsane.client.carried
  · rw [hpassed]
    exact hsane.passed

theorem fetch_sane {session : Session} (hsane : session.Sane) :
    (session.fetch env code).2.Sane := by
  obtain ⟨hclient, hpassed⟩ := fetch_frame env code session
  refine hsane.keep ?_ hpassed (.inl ?_)
  · rw [hclient]
  · rw [hclient]

theorem fetch_handler (env : Environment) (code : SocketCode) (session : Session) :
    (session.fetch env code).2.client.evtHandler = session.client.evtHandler := by
  rw [(fetch_frame env code session).1]

theorem queueResponse_sane {session : Session} {response : HttpResponse}
    {allocated : Option (HttpBuffer × HttpWriteBuffer)} (hsane : session.Sane)
    (hhandler : session.client.evtHandler = .generateResponse) :
    (session.queueResponse response allocated).session.Sane := by
  have hwell := hsane.client.wellFormed hhandler
  cases allocated with
  | none => exact hsane.keep rfl rfl (.inl rfl)
  | some allocated =>
      refine ⟨⟨hwell.carried, fun _ => ⟨hwell.method, hwell.version⟩, fun hdone => ?_⟩,
        hsane.passed⟩
      cases hdone

theorem handle_sane {session : Session} {fuel : Nat} {reply : Reply} (hsane : session.Sane)
    (hreply : session.handle env code fuel = some reply) : reply.session.Sane := by
  have hfetch : (session.fetch env code).2.Sane := fetch_sane hsane
  have hsame := fetch_handler env code session
  unfold handle at hreply
  cases hhandler : session.client.evtHandler with
  | processRequestLine =>
      rw [hhandler] at hreply hsame
      simp only [processRequestLine, process] at hreply
      split_ifs at hreply
      · cases hreply
        exact hfetch
      · split at hreply
        · cases hreply
          exact hfetch
        · rename_i len client hparse
          cases hreply
          exact ⟨HttpClient.parseRequestLine_sane hfetch.client hsame hparse, hfetch.passed⟩
  | processHeader =>
      rw [hhandler] at hreply hsame
      simp only [processHeader, process] at hreply
      split_ifs at hreply
      · cases hreply
        exact hfetch
      · split at hreply
        · cases hreply
        · rename_i len client hparse
          cases hreply
          exact ⟨HttpClient.parseHeader_sane hfetch.client hsame hparse, hfetch.passed⟩
  | processBody =>
      rw [hhandler] at hreply hsame
      simp only [processBody, process] at hreply
      split_ifs at hreply
      · cases hreply
        exact hfetch
      · cases hreply
        exact ⟨HttpClient.parseBody_sane hfetch.client hsame rfl, hfetch.passed⟩
  | generateResponse =>
      rw [hhandler] at hreply
      have hwell := hsane.client.wellFormed hhandler
      have hpassed : ∀ request ∈ session.passed ++ [session.client.request],
          request.WellFormed := by
        intro request hmem
        rcases List.mem_append.mp hmem with hold | hnew
        · exact hsane.passed request hold
        · rw [List.mem_singleton.mp hnew]
          exact hwell
      rw [← Option.some.inj hreply]
      unfold generateResponse
      generalize session.client.writeBuffer.allocWriteBuffer _ = allocated
      exact queueResponse_sane ⟨hsane.client, hpassed⟩ hhandler
  | sendResponse =>
      rw [hhandler] at hreply
      cases hreply
      obtain ⟨hkept, hnext⟩ := sendPending_kept env session.client.pendingWrite 0 session
      exact hsane.keep hkept.request hkept.passed hnext

/-- A whole event, however it ends. -/
theorem processEvent_sane {session final : Session} {ending : Ending} {fuel : Nat}
    (hsane : session.Sane)
    (hevent : session.processEvent env code fuel = some (ending, final)) : final.Sane := by
  induction fuel generalizing session with
  | zero => cases hevent
  | succ fuel ih =>
      rw [processEvent] at hevent
      cases hreply : session.handle env code fuel with
      | none => simp [hreply] at hevent
      | some reply =>
          have hnext := handle_sane hsane hreply
          rw [hreply] at hevent
          cases reply with
          | crashed next =>
              cases hevent
              exact hnext
          | returned len next =>
              simp only at hevent
              split_ifs at hevent
              · cases hevent
                exact ⟨HttpClient.sane_resetClient env.policy next.client, hnext.passed⟩
              · cases hevent
                exact hnext
              · exact ih hnext hevent

end Session

/-! ## Every run -/

namespace HttpServer

variable {cgi : HttpHandler} {policy : StringPolicy}

theorem LoneClient.processEvent_sane {client : HttpClient} {code : SocketCode}
    {traffic : Traffic} {fuel : ℕ} {next : LoneClient}
    (hsane : client.Sane ∧ client.request.Parsed)
    (hstep : LoneClient.processEvent cgi policy client code traffic fuel = some next) :
    ∀ client ∈ next.client, client.Sane ∧ client.request.Parsed := by
  unfold LoneClient.processEvent at hstep
  cases hevent : Session.processEvent ⟨cgi, policy, traffic.readEnd, traffic.accepts⟩ code fuel
      ⟨client, traffic.pieces, 0, 0, [], []⟩ with
  | none =>
      rw [hevent] at hstep
      cases hstep
  | some result =>
      obtain ⟨ending, session⟩ := result
      have hfinal := Session.processEvent_sane
        ⟨hsane.1, fun _ hmem => absurd hmem List.not_mem_nil⟩ hevent
      have hparsed := Session.Sound.processEvent
        ⟨hsane.2, fun _ hmem => absurd hmem List.not_mem_nil⟩ hevent
      rw [hevent] at hstep
      cases ending with
      | crashed => cases hstep
      | done =>
          cases hstep
          rintro _ ⟨⟩
          exact ⟨hfinal.client, hparsed.current⟩
      | closed =>
          cases hstep
          rintro _ ⟨⟩
          exact ⟨hfinal.client, hparsed.current⟩

theorem LoneClient.runFrom_sane {lone final : LoneClient} {actions : List ClientAction}
    (hsane : ∀ client ∈ lone.client, client.Sane ∧ client.request.Parsed)
    (hrun : (LoneClient.machine cgi policy).runFrom lone actions = some final) :
    ∀ client ∈ final.client, client.Sane ∧ client.request.Parsed := by
  induction actions generalizing lone with
  | nil =>
      obtain rfl := Option.some.inj hrun
      exact hsane
  | cons action rest ih =>
      cases hstep : (LoneClient.machine cgi policy).step lone action with
      | none => simp [Machine.runFrom, hstep] at hrun
      | some next =>
          simp only [Machine.runFrom, hstep] at hrun
          refine ih ?_ hrun
          cases action with
          | accept fresh =>
              change (if lone.attached then none else _) = some next at hstep
              split_ifs at hstep
              cases hstep
              rintro _ ⟨⟩
              exact ⟨HttpClient.sane_resetClient policy _, .cleanUp policy _⟩
          | event code traffic fuel =>
              obtain ⟨client, attached⟩ := lone
              cases client with
              | none => cases hstep
              | some client =>
                  cases attached with
                  | false => cases hstep
                  | true => exact LoneClient.processEvent_sane (hsane client rfl) hstep

theorem client_sane {unset : ℕ → ℕ × ℕ} {total listenFd : ℕ} {state : State}
    (hreached : (machine cgi policy unset total listenFd true).ReachedBy Reports state)
    (slot : ℕ) :
    ∀ client ∈ (state.view slot).client, client.Sane ∧ client.request.Parsed := by
  have hboth := hreached.invariant
    (fun state => Serves total state ∧
      ∀ client ∈ (state.view slot).client, client.Sane ∧ client.request.Parsed)
    ⟨.start unset total listenFd, fun _ hnone => by cases hnone⟩
    (fun _ _ _ hbefore hreports hstep =>
      ⟨(hbefore.1.step hreports hstep).1,
        LoneClient.runFrom_sane hbefore.2 ((hbefore.1.step hreports hstep).2 slot)⟩)
  exact hboth.2

/-- Whatever has been read on the connection and on those before it, in whatever pieces,
and whatever comes in with the next event: the requests that it passes to the handler are
well formed. -/
theorem passed_wellFormed (cgi : HttpHandler) (policy : StringPolicy) (unset : ℕ → ℕ × ℕ)
    (total listenFd : ℕ) (state : State)
    (hreached : (machine cgi policy unset total listenFd true).ReachedBy Reports state)
    (slot : ℕ) (connection : Connection) (hconn : state.conn slot = some connection)
    (env : Environment) (code : SocketCode) (pieces : List Bytes) (ending : Ending)
    (final : Session)
    (hruns : Session.Runs env code ⟨connection.client, pieces, 0, 0, [], []⟩ ending final) :
    ∀ request ∈ final.passed, request.WellFormed ∧ request.Parsed := by
  have hclient : connection.client.Sane ∧ connection.client.request.Parsed := by
    apply client_sane hreached slot
    unfold State.view
    rw [hconn]
    rfl
  obtain ⟨fuel, hevent⟩ := hruns
  have hsane := Session.processEvent_sane
    ⟨hclient.1, fun _ hmem => absurd hmem List.not_mem_nil⟩ hevent
  have hparsed := Session.Sound.processEvent
    ⟨hclient.2, fun _ hmem => absurd hmem List.not_mem_nil⟩ hevent
  exact fun request hmem => ⟨hsane.passed request hmem, hparsed.passed request hmem⟩

/-- A connection is accepted. -/
def acceptOne : List Action :=
  [.throttle true true, .poll [(⟨3, true, false⟩, ⟨some 5, true, true⟩)],
    .handle (.construct (List.replicate 32 0) 0 false 0) .error .quiet 1]

/-- `GET / HTTP/1.1` and an empty header. -/
def getRoot : Bytes :=
  ascii ['G', 'E', 'T', ' ', '/', ' ', 'H', 'T', 'T', 'P', '/', '1', '.', '1', '\r', '\n', '\r',
    '\n']

theorem passed_wellFormed_getRoot :
    ∃ state connection final,
      (machine (fun _ response => response) .doubling (fun _ => (0, 0)) 8 3 true).run acceptOne =
        some state ∧
      state.conn 5 = some connection ∧
      Session.Runs (.accepting (fun _ response => response) .doubling) .read
        ⟨connection.client, [getRoot], 0, 0, [], []⟩ .done final ∧
      final.passed.length = 1 ∧ ∀ request ∈ final.passed, request.WellFormed ∧ request.Parsed := by
  have hrun : (machine (fun _ response => response) .doubling (fun _ => (0, 0)) 8 3 true).run
      acceptOne = some _ := rfl
  have hadmits : (machine (fun _ response => response) .doubling (fun _ => (0, 0)) 8 3 true).Admits
      Reports (machine (fun _ response => response) .doubling (fun _ => (0, 0)) 8 3 true).start
      acceptOne := by
    refine ⟨⟨⟨rfl, rfl⟩, trivial⟩, fun _ hfirst => ?_⟩
    cases hfirst
    exact ⟨reports_poll _ (by decide) rfl, fun _ _ => ⟨⟨trivial, trivial⟩, fun _ _ => trivial⟩⟩
  have hruns : Session.Runs (.accepting (fun _ response => response) .doubling) .read
      ⟨(HttpClient.construct (List.replicate 32 0) 0 false 0).resetClient .doubling, [getRoot],
        0, 0, [], []⟩ .done _ := ⟨8, rfl⟩
  refine ⟨_, _, _, hrun, rfl, hruns, rfl, ?_⟩
  exact passed_wellFormed (fun _ response => response) .doubling (fun _ => (0, 0)) 8 3 _
    (Machine.ReachedBy.runFrom .start hadmits hrun) 5 _ rfl _ _ _ _ _ hruns

end HttpServer
end BackEndFacility
