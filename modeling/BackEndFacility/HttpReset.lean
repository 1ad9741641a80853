import BackEndFacility.HttpReuse
import BackEndFacility.HttpIsolation

/-!
# Connections that share a client

`ResetClient` leaves the status code of the response and the capacity of the body
as they are.  A handler can answer with the one, and `AppendBody` drops a body
depending on the other, so two clients that were reset behave alike on every
connection exactly when they agree on both.
-/

namespace BackEndFacility

namespace Session

/-! ## An answer that is sent at once -/

section Answer

variable {cgi : HttpHandler} {policy : StringPolicy}

theorem Idle.rests
    {session : Session}
    (hidle : session.Idle) :
    ∃ final, session.Runs (.accepting cgi policy) .read .done final ∧
      final.sent = session.sent ∧ final.passed = session.passed := by
  obtain ⟨calls, hfetch | ⟨-, -, herror⟩⟩ :=
    fetch_used (.accepting cgi policy) .read hidle.incoming
  · have hparse : session.client.parseRequestLine = some (0, session.client) :=
      HttpClient.parseRequestLine_short (by rw [hidle.content]; exact List.not_mem_nil)
    refine ⟨{ session with readCalls := calls }, runs_of_zero ⟨0, ?_⟩, rfl, rfl⟩
    unfold handle processRequestLine process
    simp only [hidle.handler, hfetch, hparse]
    rfl
  · cases herror

theorem sendPending_accepting
    (pending : List HttpBuffer) (len : Nat) (session : Session) :
    ∃ (sz : Nat) (final : Session),
      session.sendPending (.accepting cgi policy) pending len = ((sz : Int), final) ∧
      final.sent = session.sent ++ (pending.map HttpBuffer.data).flatten ∧
      final.client.evtHandler = .processRequestLine ∧ session.Kept final := by
  induction pending generalizing len session with
  | nil =>
      refine ⟨len, _, rfl, ?_, rfl, rfl, rfl, rfl, rfl⟩
      rw [List.map_nil, List.flatten_nil, List.append_nil]
      rfl
  | cons buffer rest ih =>
      obtain ⟨sz, final, hsend, hsent, hhandler, hkept⟩ :=
        ih (len + min buffer.data.length buffer.data.length)
          (({ session with
              sendCalls := session.sendCalls + 1
              sent := session.sent ++ buffer.data.take buffer.data.length } : Session).setClient
            { session.client with
              writeBuffer := session.client.writeBuffer.releaseWriteBuffer buffer })
      refine ⟨sz, final, ?_, ?_, hhandler, hkept.readBuffer, hkept.request, hkept.incoming,
        hkept.passed⟩
      · unfold sendPending sendBuffer Environment.accepting
        simp only
        rw [if_neg (by omega)]
        exact hsend
      · rw [hsent, List.map_cons, List.flatten_cons, ← List.append_assoc, List.take_length]
        rfl

theorem AtHandler.answered
    {session ready : Session} {request : HttpRequest} {buffer : HttpBuffer}
    {left : HttpWriteBuffer}
    (hready : session.AtHandler request ready)
    (hpending : session.client.pendingWrite = [])
    (halloc : session.client.writeBuffer.allocWriteBuffer
      (responseSize (cgi request session.client.response)) = some (buffer, left)) :
    ∃ final, ready.Runs (.accepting cgi policy) .read .done final ∧
      final.sent = session.sent ++
        (cgi request session.client.response).generateResponse buffer.size ∧
      final.passed = session.passed ++ [request] := by
  have hclient := hready.client
  have hhandler : ready.client.evtHandler = .generateResponse := by
    rw [hclient]
  have hreply : ready.Replies (.accepting cgi policy) .read
      (ready.generateResponse (.accepting cgi policy)) := by
    refine ⟨0, ?_⟩
    unfold handle
    simp only [hhandler]
  have hresponse : ready.client.response = session.client.response := by
    rw [hclient]
  have hrequest : ready.client.request = request := by
    rw [hclient]
  have hpool : ready.client.writeBuffer = session.client.writeBuffer := by
    rw [hclient]
  have hnone : ready.client.pendingWrite = [] := by
    rw [hclient]
    exact hpending
  unfold generateResponse at hreply
  rw [hrequest, hresponse, hpool] at hreply
  have hcgi : (Environment.accepting cgi policy).cgi = cgi := rfl
  rw [hcgi, halloc] at hreply
  generalize cgi request session.client.response = response at hreply ⊢
  unfold queueResponse at hreply
  simp only [hnone, List.nil_append] at hreply
  generalize hqueued : Session.setClient _ _ = queued at hreply
  have hcontinues : ready.Continues (.accepting cgi policy) .read queued :=
    ⟨1, Int.one_pos, hreply⟩
  obtain ⟨sz, sent, hsend, hsent, hline, hkept⟩ :=
    @sendPending_accepting cgi policy queued.client.pendingWrite 0 queued
  have hsendReply : queued.Replies (.accepting cgi policy) .read (.returned sz sent) := by
    refine ⟨0, ?_⟩
    have hsending : queued.client.evtHandler = .sendResponse := by
      rw [← hqueued]
      rfl
    unfold handle sendResponse
    simp only [hsending, hsend]
  have hidle : sent.Idle := by
    refine ⟨hline, ?_, ?_⟩
    · rw [hkept.readBuffer, ← hqueued]
      exact hready.content
    · rw [hkept.incoming, ← hqueued]
      exact hready.incoming
  have hbytes : sent.sent = session.sent ++ response.generateResponse buffer.size := by
    rw [hsent, ← hqueued, ← hready.sent]
    simp [setClient, HttpClient.finishGenerateResponse]
  have hpassed : sent.passed = session.passed ++ [request] := by
    rw [hkept.passed, ← hqueued, ← hready.passed]
    rfl
  rcases Nat.eq_zero_or_pos sz with rfl | hpos
  · exact ⟨sent, (hcontinues.runs_iff _ _).mpr (runs_of_zero hsendReply), hbytes, hpassed⟩
  · have hnext : queued.Continues (.accepting cgi policy) .read sent :=
      ⟨sz, by omega, hsendReply⟩
    obtain ⟨final, hruns, hrest, hsame⟩ := @Idle.rests cgi policy sent hidle
    exact ⟨final, (hcontinues.runs_iff _ _).mpr ((hnext.runs_iff _ _).mpr hruns),
      hrest.trans hbytes, hsame.trans hpassed⟩

end Answer

end Session

/-! ## A body of a given length -/

def digit (n : Nat) : UInt8 :=
  UInt8.ofNat (48 + n % 10)

/-- A number below 10000 with its leading zeros. -/
def fourDigits (n : Nat) : Bytes :=
  [digit (n / 1000), digit (n / 100), digit (n / 10), digit n]

theorem digit_toNat (n : Nat) : (digit n).toNat = 48 + n % 10 := by
  unfold digit
  rw [UInt8.toNat_ofNat_of_lt']
  have hmod : n % 10 < 10 := Nat.mod_lt n (by decide)
  have hsize : UInt8.size = 256 := rfl
  omega

theorem digit_bounds (n : Nat) : 48 ≤ digit n ∧ digit n ≤ 57 := by
  have hmod : n % 10 < 10 := Nat.mod_lt n (by decide)
  rw [UInt8.le_iff_toNat_le, UInt8.le_iff_toNat_le, digit_toNat]
  exact ⟨Nat.le_add_right 48 _, by show 48 + n % 10 ≤ 57; omega⟩

theorem isDigit_digit (n : Nat) : isDigit (digit n) = true := by
  obtain ⟨hlow, hhigh⟩ := digit_bounds n
  simp [isDigit, hlow, hhigh]

theorem isSpace_digit (n : Nat) : isSpace (digit n) = false := by
  have hlow := (digit_bounds n).1
  rw [← Bool.not_eq_true]
  intro hspace
  simp only [isSpace, Bool.or_eq_true, beq_iff_eq, Bool.and_eq_true, decide_eq_true_eq] at hspace
  rcases hspace with hspace | ⟨-, hspace⟩
  · rw [hspace] at hlow
    exact absurd hlow (by decide)
  · exact absurd (hlow.trans hspace) (by decide)

theorem readSign_of_isDigit
    {byte : UInt8} {rest : Bytes}
    (hdigit : isDigit byte = true) :
    readSign (byte :: rest) = (1, byte :: rest) := by
  unfold readSign
  split
  · rename_i heq
    cases heq
    cases hdigit
  · rename_i heq
    cases heq
    cases hdigit
  · rfl

theorem isDigit_of_mem
    {byte : UInt8} {n : Nat}
    (hbyte : byte ∈ fourDigits n) :
    isDigit byte = true := by
  unfold fourDigits at hbyte
  simp only [List.mem_cons, List.not_mem_nil, or_false] at hbyte
  rcases hbyte with rfl | rfl | rfl | rfl
  · exact isDigit_digit _
  · exact isDigit_digit _
  · exact isDigit_digit _
  · exact isDigit_digit _

theorem atoi_fourDigits
    {n : Nat}
    (hn : n < 10000) :
    atoi (fourDigits n) = n := by
  have hdrop : (fourDigits n).dropWhile isSpace = fourDigits n := by
    unfold fourDigits
    rw [List.dropWhile_cons_of_neg]
    rw [isSpace_digit]
    nofun
  have htake : (fourDigits n).takeWhile isDigit = fourDigits n :=
    List.takeWhile_eq_self_iff.mpr fun byte hbyte => isDigit_of_mem hbyte
  have hvalue : (fourDigits n).foldl (fun n digit => 10 * n + (digit.toNat - 48)) 0 = n := by
    unfold fourDigits
    simp only [List.foldl_cons, List.foldl_nil, digit_toNat]
    omega
  have hsign : readSign (fourDigits n) = (1, fourDigits n) :=
    readSign_of_isDigit (isDigit_digit _)
  have hlong : max (-2 ^ 63) (min (2 ^ 63 - 1) ((1 : Int) * (n : Nat))) = n := by
    omega
  unfold atoi
  rw [hdrop, hsign]
  simp only
  rw [htake, hvalue, hlong]
  exact Int.bmod_eq_of_le (by omega) (by omega)

/-- A length that a header announces. -/
def lengthField (n : Nat) : HeaderField where
  key := HttpClient.contentLengthKey
  value := fourDigits n
  key_nul := by decide
  key_ctrl := by decide
  key_delim := by decide
  value_nul := by
    intro hnul
    exact absurd (isDigit_of_mem hnul) (by decide)
  value_ctrl := by
    intro hctrl
    have hreturn : carriageReturn ∈ fourDigits n := hctrl.subset List.mem_cons_self
    exact absurd (isDigit_of_mem hreturn) (by decide)

theorem announcedLength_lengthField
    {n : Nat}
    (hn : n < maxBodyLength) :
    announcedLength (storeFields .empty [lengthField n]) = n := by
  have hbound : n < 4096 := hn
  have hlookup : (storeFields .empty [lengthField n]).lookup HttpClient.contentLengthKey =
      some (fourDigits n) := by
    unfold storeFields
    rw [List.foldl_cons, List.foldl_nil, SortedMap.lookup_insert]
    exact if_pos rfl
  unfold announcedLength
  rw [hlookup, Option.getD_some, atoi_fourDigits (by omega)]
  unfold toSize
  omega

/-- A `POST` with a body of this length. -/
def postMessage (n : Nat) (hn : n < maxBodyLength) : Message where
  method := .post
  version := .v11
  url := ascii ['/']
  query := some []
  fields := [lengthField n]
  body := List.replicate n 0
  method_valid := nofun
  version_valid := HttpClient.v11_ne_invalid
  url_space := HttpClient.space_notMem_root
  url_mark := HttpClient.mark_notMem_root
  query_space := by
    rintro data ⟨⟩
    exact List.not_mem_nil
  announced := by
    rw [List.length_replicate]
    exact announcedLength_lengthField hn
  bounded := by
    rw [List.length_replicate]
    exact hn
  bodyless := fun hpost => absurd rfl hpost

theorem postMessage_fits
    {n : Nat} (hn : n < maxBodyLength) :
    (postMessage n hn).text.length ≤ 8 * 1024 := by
  have hbound : n < 4096 := hn
  have hlength : (postMessage n hn).text.length = 42 + n := by
    unfold Message.text Message.textBefore Message.tail Message.target postMessage headerText
      HeaderField.line lengthField fourDigits
    simp [HttpMethod.name, HttpVersion.name, ascii, httpCtrl, httpHeaderDelim,
      HttpClient.contentLengthKey]
    omega
  omega

/-! ## What is left of a connection shows in the next -/

section Residue

variable {policy : StringPolicy} {client client' : HttpClient}

namespace Session

theorem shows_iff_of_runs
    {env : Environment} {pieces : List Bytes} {code : SocketCode} {ending : Ending}
    {final : Session} {sent : Bytes} {passed : List HttpRequest}
    (hruns : ((connect env client).deliver pieces).Runs env code ending final) :
    Shows env client [(pieces, code)] sent passed ↔
      final.sent = sent ∧ final.passed.map HttpRequest.readable = passed := by
  constructor
  · rintro ⟨ending', final', hfollows, hsent, hpassed⟩
    cases hfollows with
    | stop hruns' _ =>
        obtain ⟨-, rfl⟩ := hruns.unique hruns'
        exact ⟨hsent, hpassed⟩
    | next hruns' hrest =>
        obtain ⟨-, rfl⟩ := hruns.unique hruns'
        cases hrest
        exact ⟨hsent, hpassed⟩
  · rintro ⟨hsent, hpassed⟩
    by_cases hending : ending = .done
    · subst hending
      exact ⟨.done, final, .next hruns .nil, hsent, hpassed⟩
    · exact ⟨ending, final, .stop hruns hending, hsent, hpassed⟩

theorem shows_answer
    {cgi : HttpHandler} {message : Message} {request : HttpRequest} {sent : Bytes}
    {passed : List HttpRequest}
    (hready : client.Ready)
    (hfits : message.text.length ≤ 8 * 1024)
    (hhanded : message.handed (.accepting cgi policy) (client.request.cleanUp policy)
      message.body = some request)
    (hpos : 0 < responseSize (cgi request client.response.cleanUp))
    (hsmall : responseSize (cgi request client.response.cleanUp) ≤ 1024) :
    Shows (.accepting cgi policy) client [([message.text], .read)] sent passed ↔
      (cgi request client.response.cleanUp).generateResponse 1024 = sent ∧
        [request.readable] = passed := by
  have hsound := hready.writeBuffer.releaseAll hready.pendingWrite
  obtain ⟨buffer, left, halloc, hsize, -⟩ := hsound.exists_alloc hpos (by omega)
  have hslot : buffer.size = 1024 := by
    rw [hsize]
    unfold HttpWriteBuffer.slotIndex
    rw [hsound.granularity]
    simp only
    split_ifs <;> omega
  have hroom : message.text.length ≤
      (connect (.accepting cgi policy) client).client.readBuffer.size :=
    hfits.trans hready.whole.ge
  obtain ⟨ready, hatHandler, hiff⟩ := exists_atHandler
    (idle_connect (.accepting cgi policy) client) hroom hhanded
  obtain ⟨final, hruns, hsent, hpassed⟩ :=
    @AtHandler.answered cgi policy _ ready request buffer left hatHandler rfl halloc
  have hevent : ((connect (.accepting cgi policy) client).deliver [message.text]).Runs
      (.accepting cgi policy) .read .done final := (hiff _ _).mpr hruns
  rw [shows_iff_of_runs hevent, hsent, hpassed, hslot]
  rfl

end Session

/-- A handler that tells a status code from all others. -/
def statusProbe (code : Int) : HttpHandler :=
  fun _ response => response.setStatusCode (if response.statusCode = code then 200 else 404)

/-- A response with a status code and nothing else. -/
def bareResponse (code : Int) : HttpResponse where
  response := false
  closeConn := false
  msgLen := 0
  statusCode := code
  statusMsg := []
  httpBody := []
  httpHeader := .empty

theorem shows_bareResponse
    {cgi : HttpHandler} {sent : Bytes} {passed : List HttpRequest} {code : Int}
    (hready : client.Ready)
    (hcgi : cgi (Session.getPlain.opened (client.request.cleanUp policy))
      (bareResponse client.response.statusCode) = bareResponse code) :
    Session.Shows (.accepting cgi policy) client [([Session.getPlain.text], .read)] sent
        passed ↔
      (bareResponse code).generateResponse 1024 = sent ∧
        [(Session.getPlain.opened (client.request.cleanUp policy)).readable] = passed := by
  have hclean : client.response.cleanUp = bareResponse client.response.statusCode := rfl
  have hsize : Session.responseSize (bareResponse code) = 4 := by
    have hfour : (bareResponse code).getResponseSize = 4 := rfl
    unfold Session.responseSize
    rw [hfour]
    decide
  have hhanded : Session.getPlain.handed (.accepting cgi policy)
      (client.request.cleanUp policy) Session.getPlain.body =
        some (Session.getPlain.opened (client.request.cleanUp policy)) := by
    unfold Message.handed
    rw [if_neg]
    · exact acceptBody_bodyless _ nofun
    · rintro (⟨-, hmark⟩ | ⟨-, herror⟩)
      · revert hmark
        decide
      · cases herror
  rw [Session.shows_answer hready (by decide) hhanded, hclean, hcgi]
  · rw [hclean, hcgi, hsize]
    decide
  · rw [hclean, hcgi, hsize]
    decide

theorem Indistinguishable.statusCode
    (hready : client.Ready)
    (hready' : client'.Ready)
    (hsame : Indistinguishable policy client client') :
    client.response.statusCode = client'.response.statusCode := by
  by_contra hne
  have hprobe : ∀ request code, statusProbe client.response.statusCode request
      (bareResponse code) =
        bareResponse (if code = client.response.statusCode then 200 else 404) :=
    fun _ _ => rfl
  have hfirst : Session.Shows (.accepting (statusProbe client.response.statusCode) policy)
      client [([Session.getPlain.text], .read)] ((bareResponse 200).generateResponse 1024) _ :=
    (shows_bareResponse hready (by rw [hprobe, if_pos rfl])).mpr ⟨rfl, rfl⟩
  have hsecond := (hsame _ rfl (fun _ => rfl) _ _ _).mp hfirst
  rw [shows_bareResponse hready' (by rw [hprobe, if_neg (fun heq => hne heq.symm)])] at hsecond
  have hbytes := hsecond.1
  revert hbytes
  decide +kernel

/-- Everything is accepted, and the response stays as it is. -/
def Environment.silent (policy : StringPolicy) : Environment :=
  .accepting (fun _ response => response) policy

theorem handed_postMessage
    {sz : Nat}
    (request : HttpRequest)
    (hpos : 0 < sz)
    (hbound : sz < maxBodyLength)
    (hunset : request.bodyLen = 0)
    (hempty : request.httpBody = []) :
    ((postMessage sz hbound).handed (.silent policy) request
        (postMessage sz hbound).body).map HttpRequest.httpBody =
      some (keptBody policy request.bodyCapacity (List.replicate sz 0)) := by
  have hbody : (postMessage sz hbound).body ≠ [] := by
    have hlength : (postMessage sz hbound).body.length = sz := List.length_replicate
    exact List.length_pos_iff.mp (hlength.symm ▸ hpos)
  unfold Message.handed
  rw [if_neg]
  · rw [acceptBody_first request rfl hbody hunset hempty]
    rfl
  · rintro (⟨hquery, -⟩ | ⟨-, herror⟩)
    · cases hquery
    · cases herror

theorem exists_shows_postMessage
    {sz : Nat}
    (hready : client.Ready)
    (hpos : 0 < sz)
    (hbound : sz < maxBodyLength) :
    ∃ sent passed,
      (∀ sent' passed', Session.Shows (.silent policy) client
        [([(postMessage sz hbound).text], .read)] sent' passed' ↔
          sent = sent' ∧ passed = passed') ∧
      passed.map HttpRequest.httpBody =
        [keptBody policy (policy.clear client.request.bodyCapacity) (List.replicate sz 0)] := by
  have hroom : (postMessage sz hbound).text.length ≤
      (Session.connect (.silent policy) client).client.readBuffer.size :=
    (postMessage_fits hbound).trans hready.whole.ge
  obtain ⟨ending, final, hruns, hpassed, -⟩ := Session.exchange (.silent policy)
    (Session.idle_connect (.silent policy) client) hroom
  have hhanded := @handed_postMessage policy sz
    (Session.connect (.silent policy) client).client.request hpos hbound rfl rfl
  refine ⟨final.sent, final.passed.map HttpRequest.readable,
    fun _ _ => Session.shows_iff_of_runs hruns, ?_⟩
  rw [hpassed]
  cases hsome : (postMessage sz hbound).handed (.silent policy)
      (Session.connect (.silent policy) client).client.request (postMessage sz hbound).body with
  | none =>
      rw [hsome] at hhanded
      cases hhanded
  | some request =>
      rw [hsome] at hhanded
      exact congrArg (fun body => [body]) (Option.some.inj hhanded)

theorem Indistinguishable.capacity
    (hready : client.Ready)
    (hready' : client'.Ready)
    (hsame : Indistinguishable policy client client') :
    CapacitiesAlike policy (policy.clear client.request.bodyCapacity)
      (policy.clear client'.request.bodyCapacity) := by
  intro sz hpos hbound
  obtain ⟨sent, passed, hshows, hbody⟩ :=
    @exists_shows_postMessage policy client sz hready hpos hbound
  obtain ⟨sent', passed', hshows', hbody'⟩ :=
    @exists_shows_postMessage policy client' sz hready' hpos hbound
  have hfirst := (hshows sent passed).mpr ⟨rfl, rfl⟩
  have hsecond := (hsame (.silent policy) rfl (fun _ => rfl) _ _ _).mp hfirst
  obtain ⟨-, rfl⟩ := (hshows' _ _).mp hsecond
  have hkept : keptBody policy (policy.clear client.request.bodyCapacity)
      (List.replicate sz 0) =
        keptBody policy (policy.clear client'.request.bodyCapacity) (List.replicate sz 0) :=
    List.singleton_inj.mp (hbody.symm.trans hbody')
  have hne : List.replicate sz (0 : UInt8) ≠ [] := by
    rw [ne_eq, List.replicate_eq_nil_iff]
    omega
  have hiff := @keptBody_eq_nil_iff policy (policy.clear client.request.bodyCapacity) _ hne
  have hiff' := @keptBody_eq_nil_iff policy (policy.clear client'.request.bodyCapacity) _ hne
  rw [List.length_replicate] at hiff hiff'
  rw [← hiff, ← hiff', hkept]

end Residue

/-! ## Earlier connections -/

section Histories

variable {cgi : HttpHandler} {policy : StringPolicy} {memory : Bytes} {bodyCapacity : Nat}
  {closeConn : Bool} {statusCode : Int} {client client' : HttpClient}

/-- After two histories of a client no handler and no further connection tells what
they were, exactly when they left the same status code and capacities that treat
every body alike. -/
theorem indistinguishable_iff_residueAlike
    (hplain : HttpHandler.Plain cgi)
    (hmemory : memory.length = 8 * 1024)
    (hhandled : Handled cgi policy (.construct memory bodyCapacity closeConn statusCode) client)
    (hhandled' : Handled cgi policy (.construct memory bodyCapacity closeConn statusCode)
      client') :
    Indistinguishable policy client client' ↔ ResidueAlike policy client client' := by
  have hready := (hhandled.alike hplain hmemory).ready
  have hready' := (hhandled'.alike hplain hmemory).ready
  constructor
  · intro hsame
    exact ⟨hsame.statusCode hready hready', hsame.capacity hready hready'⟩
  · exact indistinguishable_of_residueAlike hready hready'

end Histories

/-! ## One earlier connection -/

/-- A new client, on memory that holds zeros. -/
def newClient : HttpClient :=
  .construct (List.replicate (8 * 1024) 0) 15 false 0

/-- The event has left this status code and this capacity. -/
def leavesResidue (code : Int) (capacity : Nat) : Option (Ending × Session) → Bool
  | some (.done, final) =>
      decide (final.client.response.statusCode = code ∧
        final.client.request.bodyCapacity = capacity)
  | _ => false

theorem exists_handled
    {cgi : HttpHandler} {message : Message} {code : Int} {capacity : Nat} (fuel : Nat)
    (hleaves : leavesResidue code capacity
      (((Session.connect (.accepting cgi .doubling) newClient).deliver
        [message.text]).processEvent (.accepting cgi .doubling) .read fuel) = true) :
    ∃ client, Handled cgi .doubling newClient client ∧ client.response.statusCode = code ∧
      client.request.bodyCapacity = capacity := by
  cases hevent : ((Session.connect (.accepting cgi .doubling) newClient).deliver
      [message.text]).processEvent (.accepting cgi .doubling) .read fuel with
  | none =>
      rw [hevent] at hleaves
      cases hleaves
  | some result =>
      obtain ⟨ending, final⟩ := result
      rw [hevent] at hleaves
      cases ending with
      | done =>
          unfold leavesResidue at hleaves
          rw [decide_eq_true_eq] at hleaves
          have hreset : Handled cgi .doubling newClient
              ((Session.connect (.accepting cgi .doubling) newClient).deliver
                [message.text]).client := .reset .start
          exact ⟨final.client, .event hreset rfl rfl ⟨fuel, hevent⟩ nofun, hleaves⟩
      | closed => cases hleaves
      | crashed => cases hleaves

/-- A handler that sets a status code for one query only. -/
def notFoundQuery : HttpHandler :=
  fun request response =>
    if request.urlData = ascii ['b'] then response.setStatusCode 404 else response

/-- A request that changes neither the status code nor the capacity leaves no
trace. -/
theorem indistinguishable_afterPlain :
    ∃ client, Handled notFoundQuery .doubling newClient client ∧
      Indistinguishable .doubling newClient client := by
  obtain ⟨client, hhandled, hcode, hcapacity⟩ :=
    @exists_handled notFoundQuery Session.getPlain 0 15 8 (by decide +kernel)
  refine ⟨client, hhandled, (indistinguishable_iff_residueAlike (fun _ => rfl)
    List.length_replicate .start hhandled).mpr ⟨hcode.symm, ?_⟩⟩
  rw [hcapacity]
  exact fun _ _ _ => Iff.rfl

/-- A handler that sets a status code for one request sends it again, on another
connection, for a request of which it sets none. -/
theorem not_indistinguishable_afterQuery :
    ¬ ∀ (cgi : HttpHandler) (policy : StringPolicy) (memory : Bytes) (bodyCapacity : Nat)
      (closeConn : Bool) (statusCode : Int) (client client' : HttpClient),
      HttpHandler.Plain cgi → memory.length = 8 * 1024 →
      Handled cgi policy (.construct memory bodyCapacity closeConn statusCode) client →
      Handled cgi policy (.construct memory bodyCapacity closeConn statusCode) client' →
      ∀ env : Environment, env.cgi = cgi → env.policy = policy → ∀ future sent passed,
        Session.Shows env client future sent passed ↔
          Session.Shows env client' future sent passed := by
  intro hall
  obtain ⟨client, hhandled, hcode, -⟩ :=
    @exists_handled notFoundQuery Session.getQuery 404 15 8 (by decide +kernel)
  have hready := (Handled.alike (fun _ => rfl) List.length_replicate hhandled).ready
  have hstart : Handled notFoundQuery .doubling newClient newClient := .start
  have hnew := (Handled.alike (fun _ => rfl) List.length_replicate hstart).ready
  have hleft : ∀ (request : HttpRequest) (code : Int),
      notFoundQuery (Session.getPlain.opened (request.cleanUp .doubling)) (bareResponse code) =
        bareResponse code := by
    intro request code
    rfl
  have hfirst : Session.Shows (.accepting notFoundQuery .doubling) newClient
      [([Session.getPlain.text], .read)] ((bareResponse 0).generateResponse 1024) _ :=
    (shows_bareResponse hnew (hleft _ _)).mpr ⟨rfl, rfl⟩
  have hsecond := (hall notFoundQuery .doubling _ _ _ _ newClient client (fun _ => rfl)
    List.length_replicate hstart hhandled (.accepting notFoundQuery .doubling) rfl rfl _ _ _).mp
    hfirst
  rw [shows_bareResponse hready (hleft _ _), hcode] at hsecond
  have hbytes := hsecond.1
  revert hbytes
  decide +kernel

end BackEndFacility
