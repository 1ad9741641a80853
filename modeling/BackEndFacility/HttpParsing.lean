import BackEndFacility.HttpClient

/-!
# What the parsers read

The parsers look at the bytes between the start of the content and a pointer
`stop` taken on entry.  These are the content itself as long as some of it is
left.  Once a step has consumed all of it, the start is back at the front of the
memory and they are the whole window.
-/

namespace BackEndFacility

namespace HttpReadBuffer

def ahead (buffer : HttpReadBuffer) (stop : Nat) : Bytes :=
  slice buffer.memory buffer.getContentStart stop

theorem ahead_drained
    {buffer : HttpReadBuffer} {sz : Nat} (stop : Nat)
    (hall : buffer.curSize ≤ sz) :
    (buffer.consumeBuffer sz).ahead stop = slice buffer.memory 0 stop := by
  unfold ahead
  rw [start_drained hall, consumeBuffer_memory]

theorem getContentEnd_consumeBuffer
    {buffer : HttpReadBuffer} {sz : Nat}
    (hleft : sz < buffer.curSize) :
    (buffer.consumeBuffer sz).getContentEnd = buffer.getContentEnd := by
  unfold getContentEnd consumeBuffer
  simp only [if_neg (show ¬ buffer.curSize ≤ sz by omega)]
  omega

theorem ahead_consumeBuffer
    {buffer : HttpReadBuffer} {u v : Bytes}
    (hcontent : buffer.content = u ++ v)
    (hv : v ≠ []) :
    (buffer.consumeBuffer u.length).ahead buffer.getContentEnd = v := by
  have hlen : buffer.curSize = u.length + v.length := by
    rw [← content_length, hcontent, List.length_append]
  have hpos : 0 < v.length := List.length_pos_iff.mpr hv
  have hend : (buffer.consumeBuffer u.length).getContentEnd = buffer.getContentEnd :=
    getContentEnd_consumeBuffer (by omega)
  rw [← hend]
  exact content_consumeBuffer hcontent

theorem window_consumeBuffer
    {buffer : HttpReadBuffer} {sz : Nat}
    (hleft : sz < buffer.curSize) :
    (buffer.consumeBuffer sz).window = buffer.window := by
  unfold window
  rw [getContentEnd_consumeBuffer hleft, consumeBuffer_memory]

theorem start_consumeBuffer_le
    {buffer : HttpReadBuffer} {sz stop : Nat}
    (hstop : buffer.getContentEnd ≤ stop) :
    (buffer.consumeBuffer sz).getContentStart ≤ stop := by
  unfold getContentStart consumeBuffer
  unfold getContentEnd at hstop
  simp only
  split_ifs <;> omega

theorem end_consumeBuffer_le
    {buffer : HttpReadBuffer} {sz stop : Nat}
    (hstop : buffer.getContentEnd ≤ stop) :
    (buffer.consumeBuffer sz).getContentEnd ≤ stop := by
  unfold getContentEnd consumeBuffer at *
  simp only
  split_ifs <;> omega

end HttpReadBuffer

namespace HttpClient

/-! ## The request line -/

theorem ctrl_ne : carriageReturn ≠ lineFeed := by
  decide

theorem headerDelim_ne : colon ≠ space := by
  decide

section Version

variable {client : HttpClient} {stop : Nat} (len : Nat)

theorem parseVersion_short
    (hstart : client.readBuffer.getContentStart ≤ stop)
    (hstop : stop ≤ client.readBuffer.memory.length)
    (hshort : ¬ httpCtrl <:+: client.readBuffer.ahead stop) :
    client.parseVersion stop len = ((len : Int), client) := by
  unfold parseVersion
  simp only
  rw [search_eq_last hstart hstop hshort, if_pos rfl]

theorem parseVersion_eq
    {version rest : Bytes}
    (hstop : stop ≤ client.readBuffer.memory.length)
    (hahead : client.readBuffer.ahead stop = version ++ httpCtrl ++ rest)
    (hversion : ¬ httpCtrl <:+: version) :
    client.parseVersion stop len =
      if version.length ≠ 8 then ((-1 : Int), client)
      else if HttpVersion.ofText version = .invalid then
        (-1, client.setRequest (client.request.setVersion version))
      else
        ((len + 10 : Int),
          ((client.setRequest (client.request.setVersion version)).consumeBuffer
            10).finishParsingRequestLine) := by
  have hslice : slice client.readBuffer.memory client.readBuffer.getContentStart stop =
      version ++ carriageReturn :: lineFeed :: rest := by
    unfold HttpReadBuffer.ahead at hahead
    simpa [httpCtrl] using hahead
  have hsearch : search httpCtrl client.readBuffer.memory client.readBuffer.getContentStart stop =
      client.readBuffer.getContentStart + version.length :=
    search_eq ctrl_ne hslice hversion
  have hlast := last_eq hstop (by simp [hslice]) hslice
  rw [List.length_cons, List.length_cons] at hlast
  unfold parseVersion
  simp only [hsearch, slice_left hslice]
  rw [if_neg (by omega), Nat.add_sub_cancel_left]
  rfl

end Version

section Target

variable {client : HttpClient} {stop : Nat} (request : HttpRequest) (len : Nat)

theorem parseUrl_plain
    {memory url rest : Bytes} {start : Nat}
    (hstart : start ≤ stop)
    (hstop : stop ≤ memory.length)
    (hslice : slice memory start stop = url ++ space :: rest)
    (hmark : questionMark ∉ url ++ space :: rest) :
    parseUrl request memory start (start + url.length) stop = some (request.setUrl url) := by
  unfold parseUrl
  simp only
  rw [find_eq_last hstart hstop (by rwa [hslice]), if_pos rfl, slice_left hslice]

theorem parseUrl_data
    {memory url data rest : Bytes} {start : Nat}
    (hstop : stop ≤ memory.length)
    (hslice : slice memory start stop = url ++ questionMark :: data ++ space :: rest)
    (hmark : questionMark ∉ url) :
    parseUrl request memory start (start + (url ++ questionMark :: data).length) stop =
      some ((request.setUrl url).setUrlData data) := by
  have hurl : slice memory start stop = url ++ questionMark :: (data ++ space :: rest) := by
    rw [hslice, List.append_assoc, List.cons_append]
  have hfind : find questionMark memory start stop = start + url.length := find_eq hurl hmark
  have hlast := last_eq hstop (by simp [hurl]) hurl
  have hdata : slice memory (start + url.length + 1) stop = data ++ space :: rest := by
    have hsplit : slice memory start stop = (url ++ [questionMark]) ++ (data ++ space :: rest) := by
      rw [hurl, List.append_assoc, List.singleton_append]
    have hright := slice_right hsplit
    rwa [List.length_append, List.length_singleton, ← Nat.add_assoc] at hright
  have hdelim : start + (url ++ questionMark :: data).length =
      start + url.length + 1 + data.length := by
    rw [List.length_append, List.length_cons]
    omega
  rw [List.length_cons] at hlast
  unfold parseUrl
  simp only
  rw [hfind, if_neg (by omega), if_pos (by rw [hdelim]; omega), slice_left hurl, hdelim,
    slice_left hdata]

theorem parseUrl_throws
    {memory url rest : Bytes} {start : Nat}
    (hstop : stop ≤ memory.length)
    (hslice : slice memory start stop = url ++ space :: rest)
    (hurl : questionMark ∉ url)
    (hmark : questionMark ∈ rest) :
    parseUrl request memory start (start + url.length) stop = none := by
  obtain ⟨before, after, rfl, hbefore⟩ := List.eq_append_cons_of_mem hmark
  have hsplit : slice memory start stop =
      (url ++ space :: before) ++ questionMark :: after := by
    rw [hslice, List.append_assoc, List.cons_append]
  have habsent : questionMark ∉ url ++ space :: before := by
    simp only [List.mem_append, List.mem_cons, not_or]
    exact ⟨hurl, by decide, hbefore⟩
  have hfind := find_eq hsplit habsent
  have hlast := last_eq hstop (by simp [hsplit]) hsplit
  rw [List.length_append, List.length_cons] at hfind hlast
  rw [List.length_cons] at hlast
  unfold parseUrl
  simp only
  rw [hfind, if_neg (by omega), if_neg (by omega)]

theorem parseTarget_short
    (hstart : client.readBuffer.getContentStart ≤ stop)
    (hstop : stop ≤ client.readBuffer.memory.length)
    (hshort : space ∉ client.readBuffer.ahead stop) :
    client.parseTarget stop len = some ((len : Int), client) := by
  unfold parseTarget
  simp only
  rw [find_eq_last hstart hstop hshort, if_pos rfl]

theorem parseTarget_eq
    {url rest : Bytes}
    (hstop : stop ≤ client.readBuffer.memory.length)
    (hahead : client.readBuffer.ahead stop = url ++ space :: rest)
    (hurl : space ∉ url) :
    client.parseTarget stop len =
      match parseUrl client.request client.readBuffer.memory client.readBuffer.getContentStart
          (client.readBuffer.getContentStart + url.length) stop with
      | none => none
      | some request =>
          some (((client.setRequest request).consumeBuffer (url.length + 1)).parseVersion
            stop (len + (url.length + 1))) := by
  have hfind : find space client.readBuffer.memory client.readBuffer.getContentStart stop =
      client.readBuffer.getContentStart + url.length :=
    find_eq hahead hurl
  have hlast := last_eq hstop (by unfold HttpReadBuffer.ahead at hahead; simp [hahead]) hahead
  rw [List.length_cons] at hlast
  unfold parseTarget
  simp only [hfind, Nat.add_sub_cancel_left]
  exact if_neg (by omega)

end Target

section RequestLine

variable {client : HttpClient}

theorem parseRequestLine_short
    (hshort : space ∉ client.readBuffer.content) :
    client.parseRequestLine = some (0, client) := by
  unfold parseRequestLine
  simp only
  rw [find_eq_last client.readBuffer.start_le_end client.readBuffer.getContentEnd_le hshort,
    if_pos rfl]

theorem parseRequestLine_eq
    {method rest : Bytes}
    (hcontent : client.readBuffer.content = method ++ space :: rest)
    (hmethod : space ∉ method) :
    client.parseRequestLine =
      if HttpMethod.ofText method = .invalid then
        some (-1, client.setRequest (client.request.setHttpMethod method))
      else
        ((client.setRequest (client.request.setHttpMethod method)).consumeBuffer
          (method.length + 1)).parseTarget client.readBuffer.getContentEnd (method.length + 1) := by
  have hfind : find space client.readBuffer.memory client.readBuffer.getContentStart
      client.readBuffer.getContentEnd = client.readBuffer.getContentStart + method.length :=
    find_eq hcontent hmethod
  have hslice : slice client.readBuffer.memory client.readBuffer.getContentStart
      (client.readBuffer.getContentStart + method.length) = method :=
    slice_left hcontent
  have hlast := last_eq client.readBuffer.getContentEnd_le
    (by unfold HttpReadBuffer.content at hcontent; simp [hcontent]) hcontent
  rw [List.length_cons] at hlast
  unfold parseRequestLine
  simp only [hfind, hslice]
  rw [if_neg (by omega), Nat.add_sub_cancel_left]
  rfl

end RequestLine

/-! ## Parsing inside the content -/

/-- `next` is `client` further on: it has this request, and these bytes of the
content are left, some at least. -/
structure Advanced (client : HttpClient) (request : HttpRequest) (left : Bytes)
    (next : HttpClient) : Prop where
  frame : next = { client with request := request, readBuffer := next.readBuffer }
  content : next.readBuffer.content = left
  memory : next.readBuffer.memory = client.readBuffer.memory
  size : next.readBuffer.size = client.readBuffer.size
  stop : next.readBuffer.getContentEnd = client.readBuffer.getContentEnd

namespace Advanced

variable {client next : HttpClient} {request : HttpRequest} {left : Bytes}

theorem ahead
    (hnext : client.Advanced request left next) :
    next.readBuffer.ahead client.readBuffer.getContentEnd = left := by
  rw [← hnext.stop]
  exact hnext.content

theorem stop_le
    (hnext : client.Advanced request left next) :
    client.readBuffer.getContentEnd ≤ next.readBuffer.memory.length := by
  rw [hnext.memory]
  exact client.readBuffer.getContentEnd_le

theorem refl (client : HttpClient) :
    client.Advanced client.request client.readBuffer.content client :=
  ⟨rfl, rfl, rfl, rfl, rfl⟩

theorem consume
    {u v : Bytes} (request' : HttpRequest)
    (hnext : client.Advanced request left next)
    (hleft : left = u ++ v)
    (hv : v ≠ []) :
    client.Advanced request' v ((next.setRequest request').consumeBuffer u.length) := by
  have hcontent : next.readBuffer.content = u ++ v := hnext.content.trans hleft
  have hlen : next.readBuffer.curSize = u.length + v.length := by
    rw [← HttpReadBuffer.content_length, hcontent, List.length_append]
  have hpos : 0 < v.length := List.length_pos_iff.mpr hv
  refine ⟨?_, HttpReadBuffer.content_consumeBuffer hcontent, hnext.memory, hnext.size, ?_⟩
  · rw [hnext.frame]
    rfl
  · have hend : (next.readBuffer.consumeBuffer u.length).getContentEnd =
        next.readBuffer.getContentEnd :=
      HttpReadBuffer.getContentEnd_consumeBuffer (by omega)
    exact hend.trans hnext.stop

end Advanced

theorem parseRequestLine_target
    {client : HttpClient} {method rest : Bytes}
    (hcontent : client.readBuffer.content = method ++ space :: rest)
    (hmethod : space ∉ method)
    (hvalid : HttpMethod.ofText method ≠ .invalid)
    (hrest : rest ≠ []) :
    ∃ next, client.Advanced (client.request.setHttpMethod method) rest next ∧
      client.parseRequestLine =
        next.parseTarget client.readBuffer.getContentEnd (method.length + 1) := by
  have hsplit : client.readBuffer.content = (method ++ [space]) ++ rest := by
    rw [hcontent, List.append_assoc, List.singleton_append]
  have hadvanced := (Advanced.refl client).consume (client.request.setHttpMethod method)
    hsplit hrest
  rw [List.length_append, List.length_singleton] at hadvanced
  refine ⟨_, hadvanced, ?_⟩
  rw [parseRequestLine_eq hcontent hmethod, if_neg hvalid]

/-- Behind the method: the url is stored and the version is next. -/
theorem Advanced.parseTarget
    {client target : HttpClient} {request request' : HttpRequest} {url rest : Bytes} (len : Nat)
    (htarget : client.Advanced request (url ++ space :: rest) target)
    (hurl : space ∉ url)
    (hrest : rest ≠ [])
    (hparse : parseUrl target.request target.readBuffer.memory
      target.readBuffer.getContentStart (target.readBuffer.getContentStart + url.length)
      client.readBuffer.getContentEnd = some request') :
    ∃ next, client.Advanced request' rest next ∧
      target.parseTarget client.readBuffer.getContentEnd len =
        some (next.parseVersion client.readBuffer.getContentEnd (len + (url.length + 1))) := by
  have hadvanced := htarget.consume request'
    (show url ++ space :: rest = (url ++ [space]) ++ rest by
      rw [List.append_assoc, List.singleton_append]) hrest
  rw [List.length_append, List.length_singleton] at hadvanced
  refine ⟨_, hadvanced, ?_⟩
  rw [parseTarget_eq len htarget.stop_le htarget.ahead hurl, hparse]

/-! ## Header lines -/

section HeaderLines

variable {client : HttpClient} {stop : Nat} (fuel len : Nat)

theorem parseHeaderLines_short
    (hstart : client.readBuffer.getContentStart ≤ stop)
    (hstop : stop ≤ client.readBuffer.memory.length)
    (hshort : ¬ httpCtrl <:+: client.readBuffer.ahead stop) :
    parseHeaderLines stop (fuel + 1) len client = some (1, client) := by
  unfold parseHeaderLines
  simp only
  rw [search_eq_last hstart hstop hshort, if_pos rfl]

theorem search_line
    {line rest : Bytes}
    (hstop : stop ≤ client.readBuffer.memory.length)
    (hahead : client.readBuffer.ahead stop = line ++ httpCtrl ++ rest)
    (hline : ¬ httpCtrl <:+: line) :
    search httpCtrl client.readBuffer.memory client.readBuffer.getContentStart stop =
        client.readBuffer.getContentStart + line.length ∧
      client.readBuffer.getContentStart + line.length < stop ∧
      slice client.readBuffer.memory client.readBuffer.getContentStart
        (client.readBuffer.getContentStart + line.length) = line := by
  have hslice : slice client.readBuffer.memory client.readBuffer.getContentStart stop =
      line ++ carriageReturn :: lineFeed :: rest := by
    unfold HttpReadBuffer.ahead at hahead
    simpa [httpCtrl] using hahead
  have hlast := last_eq hstop (by simp [hslice]) hslice
  rw [List.length_cons] at hlast
  exact ⟨search_eq ctrl_ne hslice hline, by omega, slice_left hslice⟩

theorem parseHeaderLines_last
    {line rest : Bytes}
    (hstop : stop ≤ client.readBuffer.memory.length)
    (hahead : client.readBuffer.ahead stop = line ++ httpCtrl ++ rest)
    (hline : ¬ httpCtrl <:+: line)
    (hdelim : ¬ httpHeaderDelim <:+: line) :
    parseHeaderLines stop (fuel + 1) len client =
      some (((len + (line.length + 2) : Nat) : Int),
        (client.consumeBuffer (line.length + 2)).setKeepalive.finishParsingHeader) := by
  obtain ⟨hsearch, hlt, hslice⟩ := search_line hstop hahead hline
  have hnone : search httpHeaderDelim client.readBuffer.memory client.readBuffer.getContentStart
      (client.readBuffer.getContentStart + line.length) =
        client.readBuffer.getContentStart + line.length :=
    search_eq_last (by omega) (by omega) (by rwa [hslice])
  unfold parseHeaderLines
  simp only [hsearch, hnone, Nat.add_sub_cancel_left]
  rw [if_neg (by omega), if_pos trivial]

theorem parseHeaderLines_field
    {key value rest : Bytes}
    (hstop : stop ≤ client.readBuffer.memory.length)
    (hahead : client.readBuffer.ahead stop =
      (key ++ httpHeaderDelim ++ value) ++ httpCtrl ++ rest)
    (hline : ¬ httpCtrl <:+: key ++ httpHeaderDelim ++ value)
    (hkey : ¬ httpHeaderDelim <:+: key) :
    parseHeaderLines stop (fuel + 1) len client =
      parseHeaderLines stop fuel (len + ((key ++ httpHeaderDelim ++ value).length + 2))
        ((client.consumeBuffer ((key ++ httpHeaderDelim ++ value).length + 2)).setRequest
          (client.request.addHeader key value)) := by
  obtain ⟨hsearch, hlt, hslice⟩ := search_line hstop hahead hline
  have hsplit : slice client.readBuffer.memory client.readBuffer.getContentStart
      (client.readBuffer.getContentStart + (key ++ httpHeaderDelim ++ value).length) =
        key ++ colon :: space :: value := by
    rw [hslice]
    simp [httpHeaderDelim]
  have hdelim : search httpHeaderDelim client.readBuffer.memory
      client.readBuffer.getContentStart
      (client.readBuffer.getContentStart + (key ++ httpHeaderDelim ++ value).length) =
        client.readBuffer.getContentStart + key.length :=
    search_eq headerDelim_ne hsplit hkey
  have hvalue : slice client.readBuffer.memory
      (client.readBuffer.getContentStart + key.length + 2)
      (client.readBuffer.getContentStart + (key ++ httpHeaderDelim ++ value).length) = value := by
    have hpair : slice client.readBuffer.memory client.readBuffer.getContentStart
        (client.readBuffer.getContentStart + (key ++ httpHeaderDelim ++ value).length) =
          (key ++ httpHeaderDelim) ++ value := hslice
    have hright := slice_right hpair
    rwa [List.length_append, ← Nat.add_assoc] at hright
  rw [parseHeaderLines]
  simp only [hsearch, hdelim, hvalue, slice_left hsplit, Nat.add_sub_cancel_left]
  rw [if_neg (by omega), if_neg (by simp [httpHeaderDelim])]
  rfl

end HeaderLines

end HttpClient

/-! ## Reading -/

namespace Session

/-- The session after a call of `ReadBuffer` that leaves this input and buffer. -/
def afterRead (session : Session) (incoming : List Bytes) (buffer : HttpReadBuffer) : Session :=
  { session.setReadBuffer buffer with
    readCalls := session.readCalls + 1
    incoming := incoming }

/-- The outcomes of `ReadHttpData`: there is content left, the buffer has no
memory, the input has ended, the peer has closed, or a piece is stored. -/
theorem readHttpData_cases (env : Environment) (session : Session) :
    (session.client.readBuffer.content ≠ [] ∧ session.readHttpData env = (0, session)) ∨
    (session.client.readBuffer.content = [] ∧ session.client.readBuffer.size = 0 ∧
      session.readHttpData env = (0, session)) ∨
    (session.client.readBuffer.content = [] ∧ 0 < session.client.readBuffer.size ∧
      session.incoming = [] ∧ env.readEnd = .again ∧
      session.readHttpData env = (0, session.afterRead [] session.client.readBuffer)) ∨
    (session.client.readBuffer.content = [] ∧ 0 < session.client.readBuffer.size ∧
      session.incoming = [] ∧ env.readEnd = .error ∧
      session.readHttpData env = (-1, session.afterRead [] session.client.readBuffer)) ∨
    (∃ rest, session.client.readBuffer.content = [] ∧ 0 < session.client.readBuffer.size ∧
      session.incoming = [] :: rest ∧
      session.readHttpData env = (-1, session.afterRead rest session.client.readBuffer)) ∨
    (∃ piece rest buffer, session.client.readBuffer.content = [] ∧
      0 < session.client.readBuffer.size ∧ session.incoming = piece :: rest ∧ piece ≠ [] ∧
      session.readHttpData env =
        (((piece.take session.client.readBuffer.size).length : Int),
          session.afterRead
            (if piece.length ≤ session.client.readBuffer.size then rest
              else piece.drop session.client.readBuffer.size :: rest) buffer) ∧
      buffer.size = session.client.readBuffer.size ∧
      buffer.content = piece.take session.client.readBuffer.size ∧
      buffer.window = piece.take session.client.readBuffer.size) := by
  by_cases hcontent : session.client.readBuffer.content = []
  swap
  · have hsize : session.client.readBuffer.getContenLen ≠ 0 := fun hempty =>
      hcontent ((session.client.readBuffer.content_eq_nil_iff).mpr hempty)
    exact .inl ⟨hcontent, by rw [readHttpData, if_pos hsize]⟩
  have hempty := (session.client.readBuffer.content_eq_nil_iff).mp hcontent
  have hlen : ¬ session.client.readBuffer.getContenLen ≠ 0 := not_not.mpr hempty
  have hsame : session.setReadBuffer session.client.readBuffer = session := by
    rfl
  by_cases hsize : session.client.readBuffer.size = 0
  · refine .inr (.inl ⟨hcontent, hsize, ?_⟩)
    unfold readHttpData
    simp only [if_neg hlen, HttpReadBuffer.getFreeBuffer_of_empty hempty,
      HttpReadBuffer.freeSize_of_empty hempty, if_pos hsize, hsame]
  have hread : session.readHttpData env =
      session.readInto env session.client.readBuffer := by
    unfold readHttpData
    simp only [if_neg hlen]
    rw [HttpReadBuffer.getFreeBuffer_of_empty hempty, if_neg
      (by rwa [HttpReadBuffer.freeSize_of_empty hempty])]
  have hpos : 0 < session.client.readBuffer.size := Nat.pos_of_ne_zero hsize
  rw [hread, readInto, hsame]
  cases hincoming : session.incoming with
  | nil =>
      cases hend : env.readEnd with
      | again =>
          refine .inr (.inr (.inl ⟨hcontent, hpos, rfl, rfl, ?_⟩))
          simp [readBuffer, hincoming, hend, afterRead, hsame]
      | error =>
          refine .inr (.inr (.inr (.inl ⟨hcontent, hpos, rfl, rfl, ?_⟩)))
          simp [readBuffer, hincoming, hend, afterRead, hsame]
  | cons piece rest =>
      cases piece with
      | nil =>
          refine .inr (.inr (.inr (.inr (.inl ⟨rest, hcontent, hpos, rfl, ?_⟩))))
          simp [readBuffer, hincoming, afterRead, hsame]
      | cons byte piece =>
          have hfree := HttpReadBuffer.freeSize_of_empty hempty
          have hroom : ((byte :: piece).take session.client.readBuffer.size).length ≤
              session.client.readBuffer.freeSize := by
            rw [hfree]
            exact List.length_take_le _ _
          obtain ⟨hstored, hwindow⟩ :=
            HttpReadBuffer.content_increaseContentRange hroom hempty
          refine .inr (.inr (.inr (.inr (.inr ⟨byte :: piece, rest,
            session.client.readBuffer.increaseContentRange _ hroom, hcontent, hpos, rfl, nofun,
            ?_, rfl, hstored, hwindow⟩))))
          simp [readBuffer, hincoming, afterRead, hfree, setReadBuffer]
          omega

theorem fetch_frame (env : Environment) (code : SocketCode) (session : Session) :
    (session.fetch env code).2.client =
        { session.client with readBuffer := (session.fetch env code).2.client.readBuffer } ∧
      (session.fetch env code).2.passed = session.passed := by
  unfold fetch
  split_ifs with hcode
  · rcases session.readHttpData_cases env with
      ⟨-, heq⟩ | ⟨-, -, heq⟩ | ⟨-, -, -, -, heq⟩ | ⟨-, -, -, -, heq⟩ | ⟨rest, -, -, -, heq⟩ |
      ⟨piece, rest, buffer, -, -, -, -, heq, -⟩ <;>
    · rw [heq]
      exact ⟨rfl, rfl⟩
  · exact ⟨rfl, rfl⟩

end Session

/-! ## Pieces that wait behind -/

def Reply.deliver (pieces : List Bytes) : Reply → Reply
  | .returned len session => .returned len (session.deliver pieces)
  | .crashed session => .crashed (session.deliver pieces)

namespace Session

variable {env : Environment} {code : SocketCode} {session : Session}

theorem deliver_nil (session : Session) :
    session.deliver [] = session := by
  unfold deliver
  rw [List.append_nil]

theorem deliver_deliver (session : Session) (first second : List Bytes) :
    (session.deliver first).deliver second = session.deliver (first ++ second) := by
  unfold deliver
  rw [List.append_assoc]

theorem readBuffer_deliver
    (pieces : List Bytes) (sz : Nat)
    (hincoming : session.incoming ≠ []) :
    (session.deliver pieces).readBuffer env sz =
      ((session.readBuffer env sz).1, (session.readBuffer env sz).2.1,
        (session.readBuffer env sz).2.2.deliver pieces) := by
  cases hpieces : session.incoming with
  | nil => exact absurd hpieces hincoming
  | cons piece rest =>
      unfold readBuffer deliver
      cases piece with
      | nil => simp only [hpieces, List.cons_append]
      | cons byte piece =>
          simp only [hpieces, List.cons_append]
          split_ifs
          · rfl
          · rfl

theorem readInto_deliver
    (pieces : List Bytes) (buffer : HttpReadBuffer)
    (hincoming : session.incoming ≠ []) :
    (session.deliver pieces).readInto env buffer =
      ((session.readInto env buffer).1, (session.readInto env buffer).2.deliver pieces) := by
  have hread : ((session.setReadBuffer buffer).deliver pieces).readBuffer env buffer.freeSize =
      (((session.setReadBuffer buffer).readBuffer env buffer.freeSize).1,
        ((session.setReadBuffer buffer).readBuffer env buffer.freeSize).2.1,
        ((session.setReadBuffer buffer).readBuffer env buffer.freeSize).2.2.deliver pieces) :=
    readBuffer_deliver pieces buffer.freeSize hincoming
  have hset : (session.deliver pieces).setReadBuffer buffer =
      (session.setReadBuffer buffer).deliver pieces := rfl
  unfold readInto
  rw [hset, hread]
  simp only
  split_ifs
  · rfl
  · rfl

/-- The next call of a handler does not find the end of the input. -/
def Fed (session : Session) : Prop :=
  session.client.evtHandler = .generateResponse ∨ session.client.evtHandler = .sendResponse ∨
    session.client.readBuffer.content ≠ [] ∨ session.incoming ≠ []

theorem fetch_deliver
    (pieces : List Bytes)
    (hfed : code = .read →
      session.client.readBuffer.content ≠ [] ∨ session.incoming ≠ []) :
    (session.deliver pieces).fetch env code =
      ((session.fetch env code).1, (session.fetch env code).2.deliver pieces) := by
  unfold fetch
  split_ifs with hread
  swap
  · rfl
  have hclient : (session.deliver pieces).client = session.client := rfl
  unfold readHttpData
  simp only [hclient]
  split_ifs with hlen hsize
  · rfl
  · rfl
  · refine readInto_deliver pieces _ ((hfed hread).resolve_left ?_)
    rw [not_not] at hlen ⊢
    exact session.client.readBuffer.content_eq_nil_iff.mpr hlen

theorem process_deliver
    {parse : Session → Option Reply} (pieces : List Bytes)
    (hfed : code = .read →
      session.client.readBuffer.content ≠ [] ∨ session.incoming ≠ [])
    (hparse : ∀ other : Session,
      parse (other.deliver pieces) = (parse other).map (Reply.deliver pieces)) :
    (session.deliver pieces).process env code parse =
      (session.process env code parse).map (Reply.deliver pieces) := by
  unfold process
  rw [fetch_deliver pieces hfed]
  simp only
  split_ifs
  · rfl
  · exact hparse _

theorem generateResponse_deliver (env : Environment) (session : Session) (pieces : List Bytes) :
    (session.deliver pieces).generateResponse env =
      (session.generateResponse env).deliver pieces := by
  have hclient : (session.deliver pieces).client = session.client := rfl
  unfold generateResponse
  rw [hclient]
  cases session.client.writeBuffer.allocWriteBuffer
    (responseSize (env.cgi session.client.request session.client.response)) with
  | none => rfl
  | some allocated => rfl

theorem sendPending_deliver
    (env : Environment) (pending : List HttpBuffer) (len : Nat) (session : Session)
    (pieces : List Bytes) :
    (session.deliver pieces).sendPending env pending len =
      ((session.sendPending env pending len).1,
        (session.sendPending env pending len).2.deliver pieces) := by
  induction pending generalizing len session with
  | nil => rfl
  | cons buffer rest ih =>
      have hcalls : (session.deliver pieces).sendCalls = session.sendCalls := rfl
      unfold sendPending sendBuffer
      rw [hcalls]
      cases env.accepts session.sendCalls buffer.data.length with
      | none => rfl
      | some n =>
          simp only
          split_ifs
          · rfl
          · exact ih (len + min n buffer.data.length)
              (({ session with
                sendCalls := session.sendCalls + 1
                sent := session.sent ++ buffer.data.take n } : Session).setClient
                { session.client with
                  writeBuffer := session.client.writeBuffer.releaseWriteBuffer buffer })

/-- A handler that does not find the end of the input leaves what waits behind it. -/
theorem handle_deliver
    (fuel : Nat) (pieces : List Bytes)
    (hfed : code = .read → session.Fed) :
    (session.deliver pieces).handle env code fuel =
      (session.handle env code fuel).map (Reply.deliver pieces) := by
  have hclient : (session.deliver pieces).client = session.client := rfl
  have hsome : session.client.evtHandler ≠ .generateResponse →
      session.client.evtHandler ≠ .sendResponse → code = .read →
        session.client.readBuffer.content ≠ [] ∨ session.incoming ≠ [] :=
    fun hgenerate hsend hread => ((hfed hread).resolve_left hgenerate).resolve_left hsend
  unfold handle
  rw [hclient]
  cases hhandler : session.client.evtHandler with
  | processRequestLine =>
      rw [hhandler] at hsome
      refine process_deliver pieces (hsome nofun nofun) fun other => ?_
      have hother : (other.deliver pieces).client = other.client := rfl
      rw [hother]
      cases other.client.parseRequestLine with
      | none => rfl
      | some result => rfl
  | processHeader =>
      rw [hhandler] at hsome
      refine process_deliver pieces (hsome nofun nofun) fun other => ?_
      have hother : (other.deliver pieces).client = other.client := rfl
      rw [hother]
      cases other.client.parseHeader fuel with
      | none => rfl
      | some result => rfl
  | processBody =>
      rw [hhandler] at hsome
      exact process_deliver pieces (hsome nofun nofun) fun other => rfl
  | generateResponse => exact congrArg some (generateResponse_deliver env session pieces)
  | sendResponse =>
      have hpending := sendPending_deliver env session.client.pendingWrite 0 session pieces
      unfold sendResponse
      simp only [hclient, hpending]
      rfl

theorem Replies.deliver
    {reply : Reply} (pieces : List Bytes)
    (hreply : session.Replies env code reply)
    (hfed : code = .read → session.Fed) :
    (session.deliver pieces).Replies env code (reply.deliver pieces) := by
  obtain ⟨fuel, hfuel⟩ := hreply
  refine ⟨fuel, ?_⟩
  rw [handle_deliver fuel pieces hfed, hfuel]
  rfl

theorem Continues.deliver
    {next : Session} (pieces : List Bytes)
    (hcontinues : session.Continues env code next)
    (hfed : code = .read → session.Fed) :
    (session.deliver pieces).Continues env code (next.deliver pieces) := by
  obtain ⟨len, hpos, hreply⟩ := hcontinues
  exact ⟨len, hpos, hreply.deliver pieces hfed⟩

end Session

end BackEndFacility
