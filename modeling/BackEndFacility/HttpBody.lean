import BackEndFacility.HttpReset

/-!
# A body that arrives in pieces

`ParseBody` is called with one piece of an announced body at a time.  The room for the
body is reserved by the first call, and `AppendBody` compares the length of a piece
with the capacity, so only a piece as long as the whole body can be dropped.
-/

namespace BackEndFacility

namespace HttpClient

variable {policy : StringPolicy}

/-- `ParseBody` with this read buffer. -/
def feed (policy : StringPolicy) (client : HttpClient) (buffer : HttpReadBuffer) : HttpClient :=
  ({ client with readBuffer := buffer }.parseBody policy).2

def assemble (policy : StringPolicy) (client : HttpClient) (buffers : List HttpReadBuffer) :
    HttpClient :=
  buffers.foldl (feed policy) client

/-- What the read buffers hold, one after the other. -/
def received (buffers : List HttpReadBuffer) : Bytes :=
  (buffers.map HttpReadBuffer.content).flatten

/-- The response is generated after the last piece and not before, and the body is
then what was received. -/
def AssemblesBody (policy : StringPolicy) (client : HttpClient) (buffers : List HttpReadBuffer) :
    Prop :=
  (∀ k < buffers.length,
    (assemble policy client (buffers.take k)).evtHandler = .processBody) ∧
  (assemble policy client buffers).evtHandler = .generateResponse ∧
  (assemble policy client buffers).request.httpBody = received buffers

/-- A cleaned request with a body of this length announced. -/
structure Announced (client : HttpClient) (length : Nat) : Prop where
  handler : client.evtHandler = .processBody
  body : client.request.httpBody = []
  unset : client.request.bodyLen = 0
  announced : announcedLength client.request.httpHeader = length
  pos : 0 < length
  bounded : length < maxBodyLength

/-- Some of the body is there, and the rest of it still fits. -/
structure Receiving (client : HttpClient) (length : Nat) (sofar : Bytes) : Prop where
  handler : client.evtHandler = .processBody
  method : client.request.method = .post
  body : client.request.httpBody = sofar
  bodyLen : client.request.bodyLen = length
  capacity : length ≤ client.request.bodyCapacity

theorem appendBody_fits
    {request : HttpRequest} {data : Bytes}
    (hshort : data.length < request.bodyCapacity)
    (hfits : (request.httpBody ++ data).length ≤ request.bodyCapacity) :
    request.appendBody policy data = { request with httpBody := request.httpBody ++ data } := by
  unfold HttpRequest.appendBody
  rw [if_neg (not_le.mpr hshort)]
  simp only
  rw [if_pos hfits]

theorem appendBody_drops
    {request : HttpRequest} {data : Bytes}
    (hfull : request.bodyCapacity ≤ data.length) :
    request.appendBody policy data = request := by
  unfold HttpRequest.appendBody
  exact if_pos hfull

section Pieces

variable {client : HttpClient} {length : Nat} {sofar : Bytes} {buffer : HttpReadBuffer}

theorem feed_other
    (hmethod : client.request.method ≠ .post) :
    (feed policy client buffer).request = client.request := by
  unfold feed parseBody
  rw [if_pos hmethod]
  rfl

theorem feed_receiving
    (hreceiving : client.Receiving length sofar)
    (hpos : 0 < length) :
    feed policy client buffer =
      ({ client with readBuffer := buffer }.receiveBody policy length).2 := by
  unfold feed parseBody
  have hset : client.request.bodyLen ≠ 0 := by
    rw [hreceiving.bodyLen]
    exact hpos.ne'
  rw [if_neg (not_not.mpr hreceiving.method), if_pos hset, hreceiving.bodyLen]

/-- The client once the room is reserved. -/
def reserved (policy : StringPolicy) (client : HttpClient) (length : Nat) : HttpClient :=
  client.setRequest (client.request.setBodySize policy length)

theorem Announced.receiving
    (hannounced : client.Announced length)
    (hmethod : client.request.method = .post) :
    (reserved policy client length).Receiving length [] :=
  ⟨hannounced.handler, hmethod, hannounced.body, rfl, policy.le_reserve _ _⟩

theorem feed_announced
    (hannounced : client.Announced length)
    (hmethod : client.request.method = .post) :
    feed policy client buffer = feed policy (reserved policy client length) buffer := by
  rw [feed_receiving (hannounced.receiving hmethod) hannounced.pos]
  unfold feed parseBody
  have hzero : ¬ (client.request.getHeaderValue contentLengthKey = [] ∨
      toSize (atoi (client.request.getHeaderValue contentLengthKey)) = 0) := by
    rw [not_or, getHeaderValue_length, hannounced.announced]
    refine ⟨fun hempty => hannounced.pos.ne ?_, hannounced.pos.ne'⟩
    rw [← hannounced.announced, ← getHeaderValue_length, hempty]
    rfl
  rw [if_neg (not_not.mpr hmethod), if_neg (not_not.mpr hannounced.unset)]
  simp only
  rw [if_neg hzero, getHeaderValue_length, hannounced.announced,
    if_neg (not_le.mpr hannounced.bounded)]
  rfl

theorem Receiving.piece
    (hreceiving : client.Receiving length sofar)
    (hshort : sofar.length + buffer.content.length < length) :
    (feed policy client buffer).Receiving length (sofar ++ buffer.content) := by
  have hbody := hreceiving.body
  have hcapacity := hreceiving.capacity
  have hfits : (client.request.httpBody ++ buffer.content).length ≤
      client.request.bodyCapacity := by
    rw [hbody, List.length_append]
    omega
  rw [feed_receiving hreceiving (by omega)]
  unfold receiveBody
  simp only
  rw [hbody, if_neg (by omega), if_neg (by omega), if_neg (by omega),
    appendBody_fits (by omega) hfits]
  exact ⟨hreceiving.handler, hreceiving.method, by rw [← hbody]; rfl, hreceiving.bodyLen,
    hcapacity⟩

theorem Receiving.lastPiece
    (hreceiving : client.Receiving length sofar)
    (hexact : sofar.length + buffer.content.length = length)
    (hpos : buffer.content ≠ []) :
    (feed policy client buffer).evtHandler = .generateResponse ∧
      (feed policy client buffer).request.httpBody =
        if client.request.bodyCapacity ≤ buffer.content.length then sofar
        else sofar ++ buffer.content := by
  have hbody := hreceiving.body
  have hcapacity := hreceiving.capacity
  have hlength : 0 < buffer.content.length := List.length_pos_iff.mpr hpos
  rw [feed_receiving hreceiving (by omega)]
  unfold receiveBody
  simp only
  rw [hbody, if_neg (by omega), if_neg (by omega), if_pos (by omega)]
  refine ⟨rfl, ?_⟩
  show (client.request.appendBody policy buffer.content).httpBody = _
  by_cases hfull : client.request.bodyCapacity ≤ buffer.content.length
  · rw [if_pos hfull, appendBody_drops hfull, hbody]
  · have hfits : (client.request.httpBody ++ buffer.content).length ≤
        client.request.bodyCapacity := by
      rw [hbody, List.length_append]
      omega
    rw [if_neg hfull, appendBody_fits (not_le.mp hfull) hfits]
    exact congrArg (· ++ buffer.content) hbody

end Pieces

section Assembly

variable {client : HttpClient} {length : Nat} {sofar : Bytes}

theorem received_cons (buffer : HttpReadBuffer) (buffers : List HttpReadBuffer) :
    received (buffer :: buffers) = buffer.content ++ received buffers := by
  simp [received]

variable {buffers : List HttpReadBuffer}

theorem received_ne_nil
    (hpieces : ∀ buffer ∈ buffers, buffer.content ≠ [])
    (hmore : buffers ≠ []) :
    received buffers ≠ [] := by
  obtain ⟨next, hnext⟩ := List.exists_mem_of_ne_nil buffers hmore
  intro hempty
  exact hpieces next hnext (List.flatten_eq_nil_iff.mp hempty _ (List.mem_map_of_mem hnext))

theorem Receiving.rest
    (hreceiving : client.Receiving length sofar)
    (hsome : sofar ≠ [])
    (hpieces : ∀ buffer ∈ buffers, buffer.content ≠ [])
    (hmore : buffers ≠ [])
    (hlength : sofar.length + (received buffers).length = length) :
    (∀ k < buffers.length,
      (assemble policy client (buffers.take k)).evtHandler = .processBody) ∧
    (assemble policy client buffers).evtHandler = .generateResponse ∧
    (assemble policy client buffers).request.httpBody = sofar ++ received buffers := by
  have hsofar : 0 < sofar.length := List.length_pos_iff.mpr hsome
  induction buffers generalizing client sofar with
  | nil => exact absurd rfl hmore
  | cons buffer buffers ih =>
      have hbuffer : buffer.content ≠ [] := hpieces buffer List.mem_cons_self
      rw [received_cons, List.length_append] at hlength
      by_cases hnil : buffers = []
      · subst hnil
        have hzero : (received []).length = 0 := rfl
        have hcapacity := hreceiving.capacity
        obtain ⟨hhandler, hbody⟩ :=
          @Receiving.lastPiece policy client length sofar buffer hreceiving (by omega) hbuffer
        rw [if_neg (by omega)] at hbody
        refine ⟨?_, hhandler, ?_⟩
        · intro k hk
          have hfirst : k = 0 := Nat.lt_one_iff.mp hk
          subst hfirst
          exact hreceiving.handler
        · rw [received_cons]
          exact hbody.trans (by simp [received])
      · have hlater : ∀ other ∈ buffers, other.content ≠ [] :=
          fun other hother => hpieces other (List.mem_cons_of_mem _ hother)
        have hrest : received buffers ≠ [] := received_ne_nil hlater hnil
        have hpos : 0 < (received buffers).length := List.length_pos_iff.mpr hrest
        have hnext : (feed policy client buffer).Receiving length (sofar ++ buffer.content) :=
          hreceiving.piece (by omega)
        obtain ⟨hbefore, hhandler, hbody⟩ := ih hnext (by simp [hsome]) hlater hnil
          (by rw [List.length_append]; omega) (by rw [List.length_append]; omega)
        refine ⟨?_, hhandler, ?_⟩
        · intro k hk
          cases k with
          | zero => exact hreceiving.handler
          | succ k => exact hbefore k (Nat.lt_of_succ_lt_succ hk)
        · rw [received_cons, ← List.append_assoc]
          exact hbody

theorem assemble_other
    (hmethod : client.request.method ≠ .post) :
    (assemble policy client buffers).request = client.request := by
  induction buffers generalizing client with
  | nil => rfl
  | cons buffer buffers ih =>
      have hfirst : (feed policy client buffer).request = client.request := feed_other hmethod
      have hrest := @ih (feed policy client buffer) (by rwa [hfirst])
      exact hrest.trans hfirst

theorem Announced.assemble_cons
    (hannounced : client.Announced length)
    (hmethod : client.request.method = .post)
    (buffer : HttpReadBuffer) :
    assemble policy client (buffer :: buffers) =
      assemble policy (reserved policy client length) (buffer :: buffers) :=
  congrArg (assemble policy · buffers) (feed_announced hannounced hmethod)

theorem Announced.whole_iff
    {buffer : HttpReadBuffer}
    (hannounced : client.Announced length)
    (hmethod : client.request.method = .post)
    (hlength : buffer.content.length = length) :
    AssemblesBody policy client [buffer] ↔
      length < policy.reserve client.request.bodyCapacity length := by
  have hpos := hannounced.pos
  have hne : buffer.content ≠ [] := List.length_pos_iff.mp (by omega)
  have hreceived : received [buffer] = buffer.content := by
    simp [received]
  obtain ⟨hhandler, hbody⟩ := @Receiving.lastPiece policy _ length [] buffer
    (hannounced.receiving hmethod) (by rw [List.length_nil]; omega) hne
  have hsame : assemble policy client [buffer] =
      feed policy (reserved policy client length) buffer :=
    hannounced.assemble_cons hmethod buffer
  have hcapacity : (reserved policy client length).request.bodyCapacity =
      policy.reserve client.request.bodyCapacity length := rfl
  rw [hcapacity, hlength, List.nil_append] at hbody
  unfold AssemblesBody
  rw [hsame, hbody, hreceived]
  constructor
  · rintro ⟨-, -, hkept⟩
    by_contra hfull
    rw [if_pos (not_lt.mp hfull)] at hkept
    exact hne hkept.symm
  · intro hroom
    refine ⟨?_, hhandler, if_neg (not_le.mpr hroom)⟩
    intro k hk
    have hfirst : k = 0 := Nat.lt_one_iff.mp hk
    subst hfirst
    exact hannounced.handler

theorem Announced.assembles
    {buffer : HttpReadBuffer}
    (hannounced : client.Announced length)
    (hmethod : client.request.method = .post)
    (hpieces : ∀ other ∈ buffer :: buffers, other.content ≠ [])
    (hmore : buffers ≠ [])
    (hlength : (received (buffer :: buffers)).length = length) :
    AssemblesBody policy client (buffer :: buffers) := by
  have hlater : ∀ other ∈ buffers, other.content ≠ [] :=
    fun other hother => hpieces other (List.mem_cons_of_mem _ hother)
  have hpos : 0 < (received buffers).length :=
    List.length_pos_iff.mpr (received_ne_nil hlater hmore)
  rw [received_cons, List.length_append] at hlength
  have hnext : (feed policy (reserved policy client length) buffer).Receiving length
      ([] ++ buffer.content) :=
    (hannounced.receiving hmethod).piece (by rw [List.length_nil]; omega)
  rw [List.nil_append] at hnext
  obtain ⟨hbefore, hhandler, hbody⟩ := @Receiving.rest policy _ _ _ buffers hnext
    (hpieces buffer List.mem_cons_self) hlater hmore hlength
  refine ⟨?_, ?_, ?_⟩
  · intro k hk
    cases k with
    | zero => exact hannounced.handler
    | succ k =>
        rw [List.take_succ_cons, hannounced.assemble_cons hmethod]
        exact hbefore k (Nat.lt_of_succ_lt_succ hk)
  · rw [hannounced.assemble_cons hmethod]
    exact hhandler
  · rw [hannounced.assemble_cons hmethod, received_cons]
    exact hbody

/-- A body is assembled exactly when the request is a `POST` and the body comes in
several pieces, or the string has more room than the body needs. -/
theorem assemblesBody_iff
    (hannounced : client.Announced length)
    (hpieces : ∀ buffer ∈ buffers, buffer.content ≠ [])
    (hlength : (received buffers).length = length) :
    AssemblesBody policy client buffers ↔
      client.request.method = .post ∧
        (1 < buffers.length ∨ length < policy.reserve client.request.bodyCapacity length) := by
  have hpos := hannounced.pos
  by_cases hmethod : client.request.method = .post
  swap
  · constructor
    · rintro ⟨-, -, hbody⟩
      rw [assemble_other hmethod, hannounced.body] at hbody
      rw [← hbody] at hlength
      exact absurd hlength hpos.ne
    · rintro ⟨hpost, -⟩
      exact absurd hpost hmethod
  cases buffers with
  | nil => exact absurd hlength hpos.ne
  | cons buffer buffers =>
      by_cases hmore : buffers = []
      · subst hmore
        have hwhole : buffer.content.length = length := by
          rw [← hlength, received_cons]
          simp [received]
        rw [hannounced.whole_iff hmethod hwhole]
        simp [hmethod]
      · have hseveral : 1 < (buffer :: buffers).length := by
          have hsome : 0 < buffers.length := List.length_pos_iff.mpr hmore
          rw [List.length_cons]
          omega
        have hassembles := @Announced.assembles policy _ _ _ _ hannounced hmethod hpieces hmore
          hlength
        exact ⟨fun _ => ⟨hmethod, .inl hseveral⟩, fun _ => hassembles⟩

end Assembly

/-- A `POST` whose header announces a body of this length, with a string of this
capacity. -/
def announcing (length capacity : Nat) : HttpClient :=
  let client := construct (List.replicate (8 * 1024) 0) capacity false 0
  { client with
    evtHandler := .processBody
    request :=
      { client.request with
        method := .post
        httpHeader := storeFields .empty [lengthField length] } }

theorem announced_announcing
    {length : Nat} (capacity : Nat)
    (hpos : 0 < length)
    (hbounded : length < maxBodyLength) :
    (announcing length capacity).Announced length :=
  ⟨rfl, rfl, rfl, announcedLength_lengthField hbounded, hpos, hbounded⟩

/-- A read buffer with these bytes. -/
def piece (bytes : Bytes) (hfits : bytes.length ≤ 8 * 1024) : HttpReadBuffer :=
  (holding bytes hfits).readBuffer

theorem content_piece (bytes : Bytes) (hfits : bytes.length ≤ 8 * 1024) :
    (piece bytes hfits).content = bytes :=
  content_holding bytes hfits

/-- Forty bytes. -/
def fortyBytes : Bytes :=
  List.replicate 40 97

/-- In two pieces the forty bytes are assembled. -/
theorem assemblesBody_twoPieces :
    AssemblesBody .doubling (announcing 40 15)
      [piece (fortyBytes.take 1) (by decide), piece (fortyBytes.drop 1) (by decide)] := by
  refine (assemblesBody_iff (announced_announcing 15 (by decide) (by decide)) ?_ ?_).mpr
    ⟨rfl, .inl (by decide)⟩
  · intro buffer hbuffer
    rcases List.mem_cons.mp hbuffer with rfl | hsecond
    · rw [content_piece]
      decide
    · rw [List.mem_singleton.mp hsecond, content_piece]
      decide
  · rw [received_cons, received_cons, content_piece, content_piece]
    rfl

/-- In one piece they are dropped: the string has room for forty bytes exactly. -/
theorem not_assemblesBody_onePiece :
    ¬ ∀ (policy : StringPolicy) (client : HttpClient) (length : Nat)
      (buffers : List HttpReadBuffer),
      client.Announced length → client.request.method = .post →
        (∀ buffer ∈ buffers, buffer.content ≠ []) → (received buffers).length = length →
          AssemblesBody policy client buffers := by
  intro hall
  have hannounced := @announced_announcing 40 15 (by decide) (by decide)
  have hcontent := content_piece fortyBytes (by decide)
  have hwhole : (piece fortyBytes (by decide)).content.length = 40 := by
    rw [hcontent]
    rfl
  have hassembles := hall .doubling (announcing 40 15) 40 [piece fortyBytes (by decide)] hannounced
    rfl ?_ ?_
  · have hroom := (hannounced.whole_iff rfl hwhole).mp hassembles
    exact absurd hroom (by decide)
  · intro buffer hbuffer
    rw [List.mem_singleton.mp hbuffer, hcontent]
    decide
  · rw [received_cons, hcontent]
    rfl

end HttpClient

end BackEndFacility
