import BackEndFacility.HttpParsing
import BackEndFacility.HttpWritePool

/-!
# Two runs of one client

What of the state of a client can be seen from outside: everything but the bytes
of the read buffer that are not content, the identities and the order of the write
buffers, and the capacity of the body.  Two clients that differ in no more than
that are alike, and they stay alike whatever arrives.

The capacity is read by `AppendBody`.  A body that arrives in one read is dropped
when `reserve` gave it exactly its length, so capacities count as alike when they
agree on that for every length a body may have.
-/

namespace BackEndFacility

/-! ## Memories that agree -/

section Ranges

variable {α : Type*} {memory memory' : List α} {stop : Nat}

theorem slice_congr
    (hagree : memory.take stop = memory'.take stop) {first last : Nat}
    (hlast : last ≤ max first stop) :
    slice memory first last = slice memory' first last := by
  by_cases hle : last ≤ stop
  · unfold slice
    rw [← min_eq_left hle, ← List.take_take, ← List.take_take, hagree]
  · have hempty : last ≤ first := by omega
    rw [slice_of_le hempty, slice_of_le hempty]

variable [DecidableEq α]

theorem le_find (value : α) (memory : List α) (first last : Nat) :
    first ≤ find value memory first last :=
  Nat.le_add_right _ _

theorem find_le (value : α) (memory : List α) (first last : Nat) :
    find value memory first last ≤ max first last := by
  have hindex : (slice memory first last).idxOf value ≤ (slice memory first last).length :=
    List.idxOf_le_length
  unfold find
  unfold slice at hindex ⊢
  rw [List.length_drop, List.length_take] at hindex
  omega

theorem indexOf_le (pattern cells : List α) : indexOf pattern cells ≤ cells.length := by
  induction cells with
  | nil => exact Nat.zero_le _
  | cons cell cells ih =>
      unfold indexOf
      split
      · exact Nat.zero_le _
      · rw [List.length_cons]
        omega

theorem le_search (pattern memory : List α) (first last : Nat) :
    first ≤ search pattern memory first last :=
  Nat.le_add_right _ _

theorem search_le (pattern memory : List α) (first last : Nat) :
    search pattern memory first last ≤ max first last := by
  have hindex := indexOf_le pattern (slice memory first last)
  unfold search
  unfold slice at hindex ⊢
  rw [List.length_drop, List.length_take] at hindex
  omega

theorem find_congr
    (hagree : memory.take stop = memory'.take stop) (value : α) {first last : Nat}
    (hlast : last ≤ max first stop) :
    find value memory first last = find value memory' first last := by
  unfold find
  rw [slice_congr hagree hlast]

theorem search_congr
    (hagree : memory.take stop = memory'.take stop) (pattern : List α) {first last : Nat}
    (hlast : last ≤ max first stop) :
    search pattern memory first last = search pattern memory' first last := by
  unfold search
  rw [slice_congr hagree hlast]

end Ranges

/-- Read buffers that hold the same bytes before `stop`. -/
structure HttpReadBuffer.Alike (stop : Nat) (buffer buffer' : HttpReadBuffer) : Prop where
  whole : buffer.size = 8 * 1024
  size : buffer.size = buffer'.size
  curPtr : buffer.curPtr = buffer'.curPtr
  curSize : buffer.curSize = buffer'.curSize
  memory : buffer.memory.take stop = buffer'.memory.take stop
  inside : buffer.getContentEnd ≤ stop

namespace HttpReadBuffer.Alike

variable {buffer buffer' : HttpReadBuffer} {stop : Nat}

theorem getContentStart (halike : buffer.Alike stop buffer') :
    buffer.getContentStart = buffer'.getContentStart :=
  halike.curPtr

theorem getContentEnd (halike : buffer.Alike stop buffer') :
    buffer.getContentEnd = buffer'.getContentEnd := by
  unfold HttpReadBuffer.getContentEnd
  rw [halike.curPtr, halike.curSize]

theorem content (halike : buffer.Alike stop buffer') : buffer.content = buffer'.content := by
  unfold HttpReadBuffer.content
  rw [← halike.getContentStart, ← halike.getContentEnd]
  exact slice_congr halike.memory (halike.inside.trans (le_max_right _ _))

theorem tighten (halike : buffer.Alike stop buffer') :
    buffer.Alike buffer.getContentEnd buffer' := by
  refine ⟨halike.whole, halike.size, halike.curPtr, halike.curSize, ?_, le_rfl⟩
  rw [← min_eq_left halike.inside, ← List.take_take, ← List.take_take, halike.memory]

theorem consumeBuffer (halike : buffer.Alike stop buffer') (sz : Nat) :
    (buffer.consumeBuffer sz).Alike stop (buffer'.consumeBuffer sz) := by
  have hinside := halike.inside
  refine ⟨halike.whole, halike.size, ?_, ?_, halike.memory, ?_⟩
  · unfold HttpReadBuffer.consumeBuffer
    simp only [halike.curPtr, halike.curSize]
  · unfold HttpReadBuffer.consumeBuffer
    simp only [halike.curSize]
  · unfold HttpReadBuffer.getContentEnd HttpReadBuffer.consumeBuffer at *
    simp only
    split_ifs <;> omega

/-- A piece is stored in two empty buffers. -/
theorem increaseContentRange (halike : buffer.Alike stop buffer') {bytes bytes' : Bytes}
    (hbytes : bytes = bytes') (hroom : bytes.length ≤ buffer.freeSize)
    (hroom' : bytes'.length ≤ buffer'.freeSize) (hempty : buffer.curSize = 0) :
    (buffer.increaseContentRange bytes hroom).Alike
      (buffer.increaseContentRange bytes hroom).getContentEnd
      (buffer'.increaseContentRange bytes' hroom') := by
  subst hbytes
  have hempty' : buffer'.curSize = 0 := halike.curSize.symm.trans hempty
  have hptr := buffer.rewound hempty
  have hptr' := buffer'.rewound hempty'
  refine ⟨halike.whole, halike.size, halike.curPtr, ?_, ?_, le_rfl⟩
  · unfold HttpReadBuffer.increaseContentRange
    simp only [halike.curSize]
  · unfold HttpReadBuffer.getContentEnd HttpReadBuffer.increaseContentRange overwrite
    simp [hempty, hempty', hptr, hptr']

end HttpReadBuffer.Alike

/-! ## Requests that agree -/

/-- Capacities from which `reserve` gives exactly the length of a body, or more
than it, alike. -/
def CapacitiesAlike (policy : StringPolicy) (capacity capacity' : Nat) : Prop :=
  ∀ sz, 0 < sz → sz < maxBodyLength →
    (policy.reserve capacity sz = sz ↔ policy.reserve capacity' sz = sz)

/-- Requests that differ in the capacity of the body, and in the method and the
version, which `CleanUp` leaves. -/
structure HttpRequest.Alike (policy : StringPolicy) (request request' : HttpRequest) :
    Prop where
  same : request' =
    { request with
      method := request'.method
      version := request'.version
      bodyCapacity := request'.bodyCapacity }
  filled : request.httpBody.length ≤ request.bodyLen
  unsized : request.bodyLen = 0 →
    CapacitiesAlike policy request.bodyCapacity request'.bodyCapacity
  sized : request.bodyLen ≠ 0 →
    request.bodyLen ≤ request.bodyCapacity ∧ request.bodyLen ≤ request'.bodyCapacity ∧
      (request.bodyCapacity = request.bodyLen ↔ request'.bodyCapacity = request.bodyLen)

namespace HttpRequest.Alike

variable {policy : StringPolicy} {request request' : HttpRequest}

theorem setHttpMethod (halike : request.Alike policy request') (method : Bytes) :
    (request.setHttpMethod method).Alike policy (request'.setHttpMethod method) :=
  ⟨congrArg (HttpRequest.setHttpMethod · method) halike.same, halike.filled, halike.unsized,
    halike.sized⟩

theorem setVersion (halike : request.Alike policy request') (version : Bytes) :
    (request.setVersion version).Alike policy (request'.setVersion version) :=
  ⟨congrArg (HttpRequest.setVersion · version) halike.same, halike.filled, halike.unsized,
    halike.sized⟩

theorem setUrl (halike : request.Alike policy request') (url : Bytes) :
    (request.setUrl url).Alike policy (request'.setUrl url) :=
  ⟨congrArg (HttpRequest.setUrl · url) halike.same, halike.filled, halike.unsized,
    halike.sized⟩

theorem setUrlData (halike : request.Alike policy request') (data : Bytes) :
    (request.setUrlData data).Alike policy (request'.setUrlData data) :=
  ⟨congrArg (HttpRequest.setUrlData · data) halike.same, halike.filled, halike.unsized,
    halike.sized⟩

theorem addHeader (halike : request.Alike policy request') (key value : Bytes) :
    (request.addHeader key value).Alike policy (request'.addHeader key value) :=
  ⟨congrArg (HttpRequest.addHeader · key value) halike.same, halike.filled, halike.unsized,
    halike.sized⟩

theorem bodyLen (halike : request.Alike policy request') :
    request.bodyLen = request'.bodyLen := by
  rw [halike.same]

theorem httpBody (halike : request.Alike policy request') :
    request.httpBody = request'.httpBody := by
  rw [halike.same]

theorem getHeaderValue (halike : request.Alike policy request') (key : Bytes) :
    request.getHeaderValue key = request'.getHeaderValue key := by
  unfold HttpRequest.getHeaderValue
  rw [halike.same]

theorem setBodySize (halike : request.Alike policy request') {sz : Nat}
    (hunset : request.bodyLen = 0) (hpos : 0 < sz) (hbound : sz < maxBodyLength) :
    (request.setBodySize policy sz).Alike policy (request'.setBodySize policy sz) := by
  have hempty : request.httpBody.length = 0 := by
    have hfilled := halike.filled
    omega
  refine ⟨?_, ?_, fun hzero => ?_, fun _ => ⟨?_, ?_, ?_⟩⟩
  · have hsame := congrArg (fun other : HttpRequest => { other with
      bodyLen := sz
      bodyCapacity := policy.reserve request'.bodyCapacity sz }) halike.same
    exact hsame
  · exact hempty.le.trans (Nat.zero_le _)
  · exact absurd hzero (by simp [HttpRequest.setBodySize]; omega)
  · exact policy.le_reserve _ _
  · exact policy.le_reserve _ _
  · exact halike.unsized hunset sz hpos hbound

/-- Bytes of a body whose size is set are kept by both or dropped by both. -/
theorem appendBody (halike : request.Alike policy request') {data : Bytes}
    (hset : request.bodyLen ≠ 0)
    (hleft : data.length ≤ request.bodyLen - request.httpBody.length) :
    (request.appendBody policy data).Alike policy (request'.appendBody policy data) := by
  obtain ⟨hcap, hcap', hiff⟩ := halike.sized hset
  have hfilled := halike.filled
  have hbody := halike.httpBody
  have hroom : (request.httpBody ++ data).length ≤ request.bodyLen := by
    rw [List.length_append]
    omega
  have hdrop : request.bodyCapacity ≤ data.length ↔ request'.bodyCapacity ≤ data.length := by
    constructor
    · intro hfull
      have hexact : request'.bodyCapacity = request.bodyLen := hiff.mp (by omega)
      omega
    · intro hfull
      have hexact : request.bodyCapacity = request.bodyLen := hiff.mpr (by omega)
      omega
  by_cases hfull : request.bodyCapacity ≤ data.length
  · unfold HttpRequest.appendBody
    rw [if_pos hfull, if_pos (hdrop.mp hfull)]
    exact halike
  · have hkept : request.appendBody policy data =
        { request with httpBody := request.httpBody ++ data } := by
      unfold HttpRequest.appendBody
      rw [if_neg hfull]
      simp only
      rw [if_pos (hroom.trans hcap)]
    have hkept' : request'.appendBody policy data =
        { request' with httpBody := request'.httpBody ++ data } := by
      unfold HttpRequest.appendBody
      rw [if_neg (mt hdrop.mpr hfull)]
      simp only
      rw [← hbody, if_pos (hroom.trans hcap')]
    rw [hkept, hkept', ← hbody]
    have hsame := congrArg (fun other : HttpRequest => { other with
      httpBody := request.httpBody ++ data }) halike.same
    exact ⟨hsame, hroom, halike.unsized, halike.sized⟩

end HttpRequest.Alike

/-! ## Write pools -/

/-- A size that a write buffer of the pool may have. -/
def HttpBuffer.Sized (buffer : HttpBuffer) : Prop :=
  ∃ index < 8, buffer.size = (index + 1) * 1024

/-- Every slot of the pool has buffers of its own size. -/
structure HttpWriteBuffer.Sound (pool : HttpWriteBuffer) : Prop where
  granularity : pool.size = 1024
  numSlot : pool.numSlot = 8
  slots : pool.freeBuffer.length = 8
  sizes : ∀ index, ∀ buffer ∈ pool.freeBuffer.getD index [], buffer.size = (index + 1) * 1024

namespace HttpWriteBuffer.Sound

variable {pool pool' : HttpWriteBuffer}

theorem sizedBy (hsound : pool.Sound) : pool.SizedBy 1024 :=
  ⟨hsound.granularity, hsound.numSlot, hsound.sizes⟩

theorem of_sizedBy (hsized : pool.SizedBy 1024) (hslots : pool.freeBuffer.length = 8) :
    pool.Sound :=
  ⟨hsized.size_eq, hsized.numSlot_eq, hslots, hsized.sizes⟩

theorem init : (HttpWriteBuffer.init 1024 8).Sound :=
  of_sizedBy (.init 1024 8) rfl

theorem slotIndex_lt (hsound : pool.Sound) {sz : Nat} (hpos : 0 < sz)
    (hbound : sz ≤ 8 * 1024) : pool.slotIndex sz < 8 := by
  unfold HttpWriteBuffer.slotIndex
  rw [hsound.granularity]
  simp only
  split_ifs <;> omega

theorem slotIndex_size (hsound : pool.Sound) (index : Nat) :
    pool.slotIndex ((index + 1) * 1024) = index :=
  slotIndex_multiple hsound.granularity (by omega) index

/-- A slot gets another list of buffers of its size. -/
theorem setSlot (hsound : pool.Sound) {index : Nat} {list : List HttpBuffer}
    (hsizes : ∀ buffer ∈ list, buffer.size = (index + 1) * 1024) :
    { pool with freeBuffer := pool.freeBuffer.set index list }.Sound := by
  apply of_sizedBy
  · exact hsound.sizedBy.setSlot hsizes
  · exact List.length_set.trans hsound.slots

theorem exists_alloc (hsound : pool.Sound) {sz : Int} (hpos : 0 < sz)
    (hbound : sz ≤ 8 * 1024) :
    ∃ buffer left, pool.allocWriteBuffer sz = some (buffer, left) ∧
      buffer.size = (pool.slotIndex sz.toNat + 1) * 1024 ∧ left.Sound := by
  obtain ⟨buffer, left, halloc, -, hsize, hleft⟩ := hsound.sizedBy.exists_alloc hpos hbound
  have hslots : left.freeBuffer.length = 8 := (length_of_allocWriteBuffer halloc).trans hsound.slots
  exact ⟨buffer, left, halloc, hsize, of_sizedBy hleft hslots⟩

/-- Two pools answer a request for a buffer alike. -/
theorem allocWriteBuffer (hsound : pool.Sound) (hsound' : pool'.Sound) (sz : Int) :
    (pool.allocWriteBuffer sz = none ∧ pool'.allocWriteBuffer sz = none) ∨
    ∃ buffer buffer' left left', pool.allocWriteBuffer sz = some (buffer, left) ∧
      pool'.allocWriteBuffer sz = some (buffer', left') ∧ buffer.Sized ∧
      buffer.size = buffer'.size ∧ left.Sound ∧ left'.Sound := by
  by_cases hfits : 0 < sz ∧ sz ≤ 8 * 1024
  · obtain ⟨buffer, left, halloc, hsize, hleft⟩ := hsound.exists_alloc hfits.1 hfits.2
    obtain ⟨buffer', left', halloc', hsize', hleft'⟩ := hsound'.exists_alloc hfits.1 hfits.2
    have hindex : pool.slotIndex sz.toNat = pool'.slotIndex sz.toNat := by
      unfold HttpWriteBuffer.slotIndex
      rw [hsound.granularity, hsound'.granularity]
    refine .inr ⟨buffer, buffer', left, left', halloc, halloc', ⟨_, ?_, hsize⟩, ?_, hleft,
      hleft'⟩
    · exact hsound.slotIndex_lt (by omega) (by omega)
    · rw [hsize, hsize', hindex]
  · have hout : sz ≤ 0 ∨ (8 * (1024 : Nat) : Int) < sz := by
      push_cast
      omega
    exact .inl ⟨hsound.sizedBy.alloc_eq_none hout, hsound'.sizedBy.alloc_eq_none hout⟩

theorem releaseWriteBuffer (hsound : pool.Sound) {buffer : HttpBuffer} (hsized : buffer.Sized) :
    (pool.releaseWriteBuffer buffer).Sound := by
  obtain ⟨index, hindex, hsize⟩ := hsized
  apply of_sizedBy
  · exact hsound.sizedBy.releaseWriteBuffer (by omega) hsize
  · exact List.length_set.trans hsound.slots

end HttpWriteBuffer.Sound

/-! ## Clients that agree -/

/-- Write buffers with the same bytes to send. -/
structure HttpBuffer.Alike (buffer buffer' : HttpBuffer) : Prop where
  sized : buffer.Sized
  size : buffer.size = buffer'.size
  data : buffer.data = buffer'.data

/-- Clients that cannot be told apart from outside, while a parser looks at what
lies before `stop`. -/
structure HttpClient.Alike (policy : StringPolicy) (stop : Nat) (client client' : HttpClient) :
    Prop where
  keepalive : client.keepalive = client'.keepalive
  readBuffer : client.readBuffer.Alike stop client'.readBuffer
  writeBuffer : client.writeBuffer.Sound
  writeBuffer' : client'.writeBuffer.Sound
  pendingWrite : List.Forall₂ HttpBuffer.Alike client.pendingWrite client'.pendingWrite
  request : client.request.Alike policy client'.request
  response : client.response = client'.response
  evtHandler : client.evtHandler = client'.evtHandler
  settled : client.evtHandler ≠ .processRequestLine →
    client.request.method = client'.request.method ∧
      client.request.version = client'.request.version

namespace HttpClient

/-- The results of two parsers that agree. -/
def Matched (policy : StringPolicy) (stop : Nat) (result result' : Int × HttpClient) : Prop :=
  result.1 = result'.1 ∧ result.2.Alike policy stop result'.2

namespace Alike

variable {policy : StringPolicy} {stop : Nat} {client client' : HttpClient}

theorem tighten (halike : client.Alike policy stop client') :
    client.Alike policy client.readBuffer.getContentEnd client' :=
  { halike with readBuffer := halike.readBuffer.tighten }

theorem consumeBuffer (halike : client.Alike policy stop client') (sz : Nat) :
    (client.consumeBuffer sz).Alike policy stop (client'.consumeBuffer sz) :=
  { halike with readBuffer := halike.readBuffer.consumeBuffer sz }

theorem setRequest (halike : client.Alike policy stop client') {request request' : HttpRequest}
    (hrequest : request.Alike policy request')
    (hsettled : client.evtHandler ≠ .processRequestLine →
      request.method = request'.method ∧ request.version = request'.version) :
    (client.setRequest request).Alike policy stop (client'.setRequest request') :=
  { halike with request := hrequest, settled := hsettled }

theorem setHandler (halike : client.Alike policy stop client')
    (hsettled : client.request.method = client'.request.method ∧
      client.request.version = client'.request.version) (handler : EventHandler) :
    { client with evtHandler := handler }.Alike policy stop
      { client' with evtHandler := handler } :=
  { halike with evtHandler := rfl, settled := fun _ => hsettled }

theorem parseVersion (halike : client.Alike policy stop client')
    (hhandler : client.evtHandler = .processRequestLine)
    (hmethod : client.request.method = client'.request.method) (len : Nat) :
    Matched policy stop (client.parseVersion stop len) (client'.parseVersion stop len) := by
  have hagree := halike.readBuffer.memory
  have hsearch := search_congr hagree httpCtrl
    (le_max_right client.readBuffer.getContentStart stop)
  have hslice := slice_congr hagree (search_le httpCtrl client.readBuffer.memory
    client.readBuffer.getContentStart stop)
  rw [halike.readBuffer.getContentStart] at hsearch hslice
  unfold HttpClient.parseVersion
  simp only
  rw [halike.readBuffer.getContentStart, hslice, hsearch]
  generalize slice client'.readBuffer.memory client'.readBuffer.getContentStart
    (search httpCtrl client'.readBuffer.memory client'.readBuffer.getContentStart stop) = text
  have hset := halike.setRequest (halike.request.setVersion text)
    fun hne => absurd hhandler hne
  have hversion : (client.setRequest (client.request.setVersion text)).request.version =
      (client'.setRequest (client'.request.setVersion text)).request.version := rfl
  rw [← hversion]
  split_ifs
  · exact ⟨rfl, halike⟩
  · exact ⟨rfl, halike⟩
  · exact ⟨rfl, hset⟩
  · exact ⟨rfl, (hset.consumeBuffer 10).setHandler ⟨hmethod, rfl⟩ .processHeader⟩

theorem parseUrl {request request' : HttpRequest} {memory memory' : Bytes} {start delim : Nat}
    (hrequest : request.Alike policy request')
    (hagree : memory.take stop = memory'.take stop) (hdelim : delim ≤ max start stop)
    (hstart : start ≤ delim) :
    (HttpClient.parseUrl request memory start delim stop = none ∧
      HttpClient.parseUrl request' memory' start delim stop = none) ∨
    ∃ parsed parsed', HttpClient.parseUrl request memory start delim stop = some parsed ∧
      HttpClient.parseUrl request' memory' start delim stop = some parsed' ∧
      parsed.Alike policy parsed' ∧ parsed.method = request.method ∧
      parsed'.method = request'.method := by
  have hmark := find_congr hagree questionMark (le_max_right start stop)
  have hbound := find_le questionMark memory start stop
  have hafter := le_find questionMark memory start stop
  have hurl := slice_congr hagree hdelim
  have hbefore := slice_congr hagree hbound
  have hdata : slice memory (find questionMark memory start stop + 1) delim =
      slice memory' (find questionMark memory start stop + 1) delim :=
    slice_congr hagree (by omega)
  unfold HttpClient.parseUrl
  simp only
  rw [← hmark, hurl, hbefore, hdata]
  split_ifs
  · exact .inr ⟨_, _, rfl, rfl, hrequest.setUrl _, rfl, rfl⟩
  · exact .inr ⟨_, _, rfl, rfl, (hrequest.setUrl _).setUrlData _, rfl, rfl⟩
  · exact .inl ⟨rfl, rfl⟩

/-- The results of two parsers that may throw. -/
def Answers (policy : StringPolicy) (stop : Nat) (result result' : Option (Int × HttpClient)) :
    Prop :=
  (result = none ∧ result' = none) ∨
    ∃ found found', result = some found ∧ result' = some found' ∧
      Matched policy stop found found'

theorem parseTarget (halike : client.Alike policy stop client')
    (hhandler : client.evtHandler = .processRequestLine)
    (hmethod : client.request.method = client'.request.method) (len : Nat) :
    Answers policy stop (client.parseTarget stop len) (client'.parseTarget stop len) := by
  have hagree := halike.readBuffer.memory
  have hdelim := find_congr hagree space (le_max_right client.readBuffer.getContentStart stop)
  have hbound := find_le space client.readBuffer.memory client.readBuffer.getContentStart stop
  have hafter := le_find space client.readBuffer.memory client.readBuffer.getContentStart stop
  have hurl := parseUrl halike.request hagree hbound hafter
  rw [halike.readBuffer.getContentStart] at hdelim hurl
  unfold HttpClient.parseTarget
  simp only
  rw [halike.readBuffer.getContentStart]
  rw [hdelim] at hurl ⊢
  split_ifs with hend
  · exact .inr ⟨_, _, rfl, rfl, rfl, halike⟩
  · rcases hurl with ⟨hnone, hnone'⟩ | ⟨parsed, parsed', hsome, hsome', hparsed, hkept, hkept'⟩
    · rw [hnone, hnone']
      exact .inl ⟨rfl, rfl⟩
    · rw [hsome, hsome']
      have hset := halike.setRequest hparsed fun hne => absurd hhandler hne
      have hsame : parsed.method = parsed'.method := hkept.trans (hmethod.trans hkept'.symm)
      exact .inr ⟨_, _, rfl, rfl, (hset.consumeBuffer _).parseVersion hhandler hsame _⟩

theorem parseRequestLine
    (halike : client.Alike policy client.readBuffer.getContentEnd client')
    (hhandler : client.evtHandler = .processRequestLine) :
    Answers policy client.readBuffer.getContentEnd client.parseRequestLine
      client'.parseRequestLine := by
  have hagree := halike.readBuffer.memory
  have hstart := halike.readBuffer.getContentStart
  have hstop := halike.readBuffer.getContentEnd
  have hdelim := find_congr hagree space
    (le_max_right client.readBuffer.getContentStart client.readBuffer.getContentEnd)
  have hslice := slice_congr hagree (find_le space client.readBuffer.memory
    client.readBuffer.getContentStart client.readBuffer.getContentEnd)
  unfold HttpClient.parseRequestLine
  simp only
  rw [← hstart, ← hstop, ← hdelim, ← hslice]
  generalize slice client.readBuffer.memory client.readBuffer.getContentStart
    (find space client.readBuffer.memory client.readBuffer.getContentStart
      client.readBuffer.getContentEnd) = text
  have hset := halike.setRequest (halike.request.setHttpMethod text)
    fun hne => absurd hhandler hne
  have hmethod : (client.setRequest (client.request.setHttpMethod text)).request.method =
      (client'.setRequest (client'.request.setHttpMethod text)).request.method := rfl
  rw [← hmethod]
  split_ifs
  · exact .inr ⟨_, _, rfl, rfl, rfl, halike⟩
  · exact .inr ⟨_, _, rfl, rfl, rfl, hset⟩
  · exact (hset.consumeBuffer _).parseTarget hhandler rfl _

theorem setKeepalive (halike : client.Alike policy stop client') :
    client.setKeepalive.Alike policy stop client'.setKeepalive := by
  refine { halike with keepalive := ?_ }
  unfold HttpClient.setKeepalive
  simp only
  rw [halike.request.getHeaderValue]

theorem parseHeaderLines (halike : client.Alike policy stop client')
    (hhandler : client.evtHandler ≠ .processRequestLine) (fuel len : Nat) :
    Answers policy stop (HttpClient.parseHeaderLines stop fuel len client)
      (HttpClient.parseHeaderLines stop fuel len client') := by
  induction fuel generalizing client client' len with
  | zero => exact .inl ⟨rfl, rfl⟩
  | succ fuel ih =>
      have hagree := halike.readBuffer.memory
      have hstart := halike.readBuffer.getContentStart
      have hline := search_congr hagree httpCtrl
        (le_max_right client.readBuffer.getContentStart stop)
      have hbound := search_le httpCtrl client.readBuffer.memory
        client.readBuffer.getContentStart stop
      have hdelim := search_congr hagree httpHeaderDelim hbound
      have hafter := le_search httpHeaderDelim client.readBuffer.memory
        client.readBuffer.getContentStart
        (search httpCtrl client.readBuffer.memory client.readBuffer.getContentStart stop)
      have hdelimBound := search_le httpHeaderDelim client.readBuffer.memory
        client.readBuffer.getContentStart
        (search httpCtrl client.readBuffer.memory client.readBuffer.getContentStart stop)
      unfold HttpClient.parseHeaderLines
      simp only
      rw [← hstart, ← hline, ← hdelim]
      generalize search httpCtrl client.readBuffer.memory client.readBuffer.getContentStart stop =
        lineEnd at hbound hafter hdelimBound ⊢
      generalize search httpHeaderDelim client.readBuffer.memory
        client.readBuffer.getContentStart lineEnd = delim at hafter hdelimBound ⊢
      have hkey : slice client.readBuffer.memory client.readBuffer.getContentStart delim =
          slice client'.readBuffer.memory client.readBuffer.getContentStart delim :=
        slice_congr hagree (by omega)
      have hvalue : slice client.readBuffer.memory (delim + 2) lineEnd =
          slice client'.readBuffer.memory (delim + 2) lineEnd :=
        slice_congr hagree (by omega)
      rw [← hkey, ← hvalue]
      have hconsumed :=
        halike.consumeBuffer (lineEnd - client.readBuffer.getContentStart + 2)
      split_ifs
      · exact .inr ⟨_, _, rfl, rfl, rfl, halike⟩
      · exact .inr ⟨_, _, rfl, rfl, rfl,
          hconsumed.setKeepalive.setHandler (halike.settled hhandler) .processBody⟩
      · exact ih (hconsumed.setRequest (hconsumed.request.addHeader _ _) halike.settled)
          hhandler _

theorem receiveBody (halike : client.Alike policy stop client')
    (hhandler : client.evtHandler ≠ .processRequestLine)
    (hset : client.request.bodyLen ≠ 0) :
    Matched policy stop (client.receiveBody policy client.request.bodyLen)
      (client'.receiveBody policy client.request.bodyLen) := by
  have hbody := halike.request.httpBody
  have hcontent := halike.readBuffer.content
  have hsettled := halike.settled hhandler
  have hkept : ∀ data, (client.request.appendBody policy data).method =
      (client'.request.appendBody policy data).method ∧
      (client.request.appendBody policy data).version =
        (client'.request.appendBody policy data).version := by
    intro data
    unfold HttpRequest.appendBody
    split_ifs <;> exact hsettled
  unfold HttpClient.receiveBody
  simp only
  rw [← hbody, ← hcontent]
  split_ifs with hfull hlong hexact
  · exact ⟨rfl, halike⟩
  · exact ⟨rfl, halike⟩
  · have hfinish := halike.setHandler hsettled .generateResponse
    have happend := halike.request.appendBody hset (not_lt.mp hlong)
    exact ⟨rfl, (hfinish.setRequest happend fun _ => hkept _).consumeBuffer _⟩
  · have happend := halike.request.appendBody hset (not_lt.mp hlong)
    exact ⟨rfl, (halike.setRequest happend fun _ => hkept _).consumeBuffer _⟩

theorem parseBody (halike : client.Alike policy stop client')
    (hhandler : client.evtHandler ≠ .processRequestLine) :
    Matched policy stop (client.parseBody policy) (client'.parseBody policy) := by
  have hsettled := halike.settled hhandler
  have hbodyLen := halike.request.bodyLen
  have hvalue := halike.request.getHeaderValue contentLengthKey
  unfold HttpClient.parseBody
  simp only
  rw [← hsettled.1, ← hbodyLen, ← hvalue, ← halike.readBuffer.content]
  split_ifs with hother hset hnone hlong
  · exact ⟨rfl, (halike.consumeBuffer _).setHandler hsettled .generateResponse⟩
  · exact halike.receiveBody hhandler hset
  · exact ⟨rfl, halike⟩
  · exact ⟨rfl, halike⟩
  · rw [not_or] at hnone
    have hsized := halike.setRequest (halike.request.setBodySize (not_not.mp hset)
      (Nat.pos_of_ne_zero hnone.2) (not_le.mp hlong)) fun _ => hsettled
    exact hsized.receiveBody hhandler hnone.2

end Alike
end HttpClient

/-! ## Sessions that agree -/

/-- What a handler can read of a request: everything but a capacity. -/
def HttpRequest.readable (request : HttpRequest) : HttpRequest :=
  { request with bodyCapacity := 0 }

/-- A handler that is a function of what it can read. -/
def HttpHandler.Plain (cgi : HttpHandler) : Prop :=
  ∀ request, cgi request = cgi request.readable

theorem HttpClient.Alike.readable {policy : StringPolicy} {stop : Nat}
    {client client' : HttpClient} (halike : client.Alike policy stop client')
    (hhandler : client.evtHandler ≠ .processRequestLine) :
    client.request.readable = client'.request.readable := by
  obtain ⟨hmethod, hversion⟩ := halike.settled hhandler
  rw [halike.request.same, ← hmethod, ← hversion]
  rfl

namespace Session

/-- What has been seen of two connections so far. -/
structure Unseen (session session' : Session) : Prop where
  sent : session.sent = session'.sent
  passed : session.passed.map HttpRequest.readable = session'.passed.map HttpRequest.readable

structure Alike (policy : StringPolicy) (session session' : Session) : Prop
    extends Unseen session session' where
  client : session.client.Alike policy session.client.readBuffer.getContentEnd session'.client
  incoming : session.incoming = session'.incoming
  readCalls : session.readCalls = session'.readCalls
  sendCalls : session.sendCalls = session'.sendCalls

namespace Alike

variable {policy : StringPolicy} {session session' : Session} {env : Environment}

theorem setClient (halike : session.Alike policy session') {client client' : HttpClient}
    {stop : Nat} (hclient : client.Alike policy stop client') :
    (session.setClient client).Alike policy (session'.setClient client') :=
  { halike with client := hclient.tighten }

theorem setReadBuffer (halike : session.Alike policy session') {buffer buffer' : HttpReadBuffer}
    (hbuffer : buffer.Alike buffer.getContentEnd buffer') :
    (session.setReadBuffer buffer).Alike policy (session'.setReadBuffer buffer') :=
  { halike with client := { halike.client with readBuffer := hbuffer } }

/-- `ReadBuffer` answers two connections alike. -/
theorem answer (halike : session.Alike policy session') {sz sz' : Nat} (hsz : sz = sz') :
    (session.readBuffer env sz).1 = (session'.readBuffer env sz').1 ∧
      (session.readBuffer env sz).2.1.bytes = (session'.readBuffer env sz').2.1.bytes ∧
      (session.readBuffer env sz).2.2.Alike policy (session'.readBuffer env sz').2.2 := by
  subst hsz
  have hcalled : ({ session with readCalls := session.readCalls + 1 } : Session).Alike policy
      { session' with readCalls := session'.readCalls + 1 } :=
    { halike with readCalls := congrArg (· + 1) halike.readCalls }
  have hstored : ∀ incoming, ({ session with
      readCalls := session.readCalls + 1
      incoming := incoming } : Session).Alike policy { session' with
        readCalls := session'.readCalls + 1
        incoming := incoming } := fun incoming => { hcalled with incoming := rfl }
  unfold readBuffer
  simp only
  rw [← halike.incoming]
  cases hincoming : session.incoming with
  | nil =>
      cases env.readEnd with
      | again => exact ⟨rfl, rfl, hstored []⟩
      | error => exact ⟨rfl, rfl, hstored []⟩
  | cons piece rest =>
      cases piece with
      | nil => exact ⟨rfl, rfl, hstored rest⟩
      | cons byte piece => exact ⟨rfl, rfl, hstored _⟩

theorem readInto (halike : session.Alike policy session')
    (hempty : session.client.readBuffer.curSize = 0) :
    (session.readInto env session.client.readBuffer).1 =
        (session'.readInto env session'.client.readBuffer).1 ∧
      (session.readInto env session.client.readBuffer).2.Alike policy
        (session'.readInto env session'.client.readBuffer).2 := by
  have hread := halike.client.readBuffer
  have hfree : session.client.readBuffer.freeSize = session'.client.readBuffer.freeSize := by
    unfold HttpReadBuffer.freeSize
    rw [hread.size, hread.curPtr, hread.curSize]
  obtain ⟨hret, hbytes, hafter⟩ := @answer policy session session' env halike _ _ hfree
  have hself : ∀ other : Session, other.setReadBuffer other.client.readBuffer = other :=
    fun _ => rfl
  unfold Session.readInto
  rw [hself, hself]
  simp only
  rw [← hret]
  split_ifs
  · exact ⟨rfl, hafter.setReadBuffer (hread.increaseContentRange hbytes _ _ hempty)⟩
  · exact ⟨rfl, hafter⟩

theorem fetch (halike : session.Alike policy session') (code : SocketCode) :
    (session.fetch env code).1 = (session'.fetch env code).1 ∧
      (session.fetch env code).2.Alike policy (session'.fetch env code).2 := by
  unfold Session.fetch
  split_ifs
  swap
  · exact ⟨rfl, halike⟩
  have hread := halike.client.readBuffer
  unfold readHttpData
  by_cases hlen : session.client.readBuffer.getContenLen ≠ 0
  · have hlen' : session'.client.readBuffer.getContenLen ≠ 0 := by
      unfold HttpReadBuffer.getContenLen at hlen ⊢
      rwa [← hread.curSize]
    rw [if_pos hlen, if_pos hlen']
    exact ⟨rfl, halike⟩
  · have hempty : session.client.readBuffer.curSize = 0 := not_not.mp hlen
    have hempty' : session'.client.readBuffer.curSize = 0 := hread.curSize.symm.trans hempty
    have hlen' : ¬ session'.client.readBuffer.getContenLen ≠ 0 := not_not.mpr hempty'
    rw [if_neg hlen, if_neg hlen']
    simp only
    rw [HttpReadBuffer.getFreeBuffer_of_empty hempty,
      HttpReadBuffer.getFreeBuffer_of_empty hempty', HttpReadBuffer.freeSize_of_empty hempty,
      HttpReadBuffer.freeSize_of_empty hempty', ← hread.size]
    split_ifs
    · exact ⟨rfl, halike⟩
    · exact halike.readInto hempty

end Alike

/-- The outcomes of one call of an event handler on two clients. -/
inductive Paired (policy : StringPolicy) : Option Reply → Option Reply → Prop
  | none : Paired policy none none
  | crashed {session session' : Session} (hunseen : session.Unseen session') :
      Paired policy (some (.crashed session)) (some (.crashed session'))
  | returned {session session' : Session} (len : Int) (halike : session.Alike policy session') :
      Paired policy (some (.returned len session)) (some (.returned len session'))

namespace Alike

variable {policy : StringPolicy} {session session' : Session} {env : Environment}

theorem process (halike : session.Alike policy session') (code : SocketCode)
    {parse : Session → Option Reply}
    (hparse : ∀ fetched fetched', fetched.Alike policy fetched' →
      fetched.client.evtHandler = session.client.evtHandler →
        Paired policy (parse fetched) (parse fetched')) :
    Paired policy (session.process env code parse) (session'.process env code parse) := by
  obtain ⟨hret, hfetched⟩ := @fetch policy session session' env halike code
  unfold Session.process
  simp only
  rw [← hret]
  split_ifs
  · exact .returned _ hfetched
  · refine hparse _ _ hfetched ?_
    rw [(session.fetch_frame env code).1]

theorem processRequestLine (halike : session.Alike policy session')
    (hhandler : session.client.evtHandler = .processRequestLine) (code : SocketCode) :
    Paired policy (session.processRequestLine env code)
      (session'.processRequestLine env code) := by
  refine halike.process code fun fetched fetched' hfetched hsame => ?_
  rcases hfetched.client.parseRequestLine (hsame.trans hhandler) with
    ⟨hnone, hnone'⟩ | ⟨found, found', hsome, hsome', hlen, hclient⟩
  · rw [hnone, hnone']
    exact .crashed hfetched.toUnseen
  · rw [hsome, hsome']
    simp only
    rw [← hlen]
    exact .returned _ (hfetched.setClient hclient)

theorem processHeader (halike : session.Alike policy session')
    (hhandler : session.client.evtHandler = .processHeader) (code : SocketCode) (fuel : Nat) :
    Paired policy (session.processHeader env code fuel)
      (session'.processHeader env code fuel) := by
  refine halike.process code fun fetched fetched' hfetched hsame => ?_
  have hlines := hfetched.client.parseHeaderLines (by rw [hsame, hhandler]; nofun) fuel 0
  unfold HttpClient.parseHeader
  rw [← hfetched.client.readBuffer.getContentEnd]
  rcases hlines with ⟨hnone, hnone'⟩ | ⟨found, found', hsome, hsome', hlen, hclient⟩
  · rw [hnone, hnone']
    exact .none
  · rw [hsome, hsome']
    simp only
    rw [← hlen]
    exact .returned _ (hfetched.setClient hclient)

theorem processBody (halike : session.Alike env.policy session')
    (hhandler : session.client.evtHandler = .processBody) (code : SocketCode) :
    Paired env.policy (session.processBody env code) (session'.processBody env code) := by
  refine halike.process code fun fetched fetched' hfetched hsame => ?_
  obtain ⟨hlen, hclient⟩ := hfetched.client.parseBody (by rw [hsame, hhandler]; nofun)
  simp only
  rw [← hlen]
  exact .returned _ (hfetched.setClient hclient)

theorem generateResponse (hplain : HttpHandler.Plain env.cgi)
    (halike : session.Alike policy session')
    (hhandler : session.client.evtHandler = .generateResponse) :
    Paired policy (some (session.generateResponse env))
      (some (session'.generateResponse env)) := by
  have hne : session.client.evtHandler ≠ .processRequestLine := by
    rw [hhandler]
    nofun
  have hreadable := halike.client.readable hne
  have hresponse : env.cgi session.client.request session.client.response =
      env.cgi session'.client.request session'.client.response := by
    rw [hplain session.client.request, hplain session'.client.request, hreadable,
      halike.client.response]
  have hpassed : (session.passed ++ [session.client.request]).map HttpRequest.readable =
      (session'.passed ++ [session'.client.request]).map HttpRequest.readable := by
    rw [List.map_append, List.map_append, halike.passed, List.map_singleton,
      List.map_singleton, hreadable]
  unfold Session.generateResponse
  rw [← hresponse]
  generalize env.cgi session.client.request session.client.response = response
  rcases halike.client.writeBuffer.allocWriteBuffer halike.client.writeBuffer'
    (responseSize response) with ⟨hnone, hnone'⟩ | ⟨buffer, buffer', left, left', hsome, hsome',
      hsized, hsize, hleft, hleft'⟩
  · rw [hnone, hnone']
    exact .crashed ⟨halike.sent, hpassed⟩
  · rw [hsome, hsome']
    have hbuffer : HttpBuffer.Alike
        { buffer with data := response.generateResponse buffer.size }
        { buffer' with data := response.generateResponse buffer'.size } :=
      ⟨hsized, hsize, by rw [hsize]⟩
    have hclient : HttpClient.Alike policy session.client.readBuffer.getContentEnd
        { session.client with
          writeBuffer := left
          pendingWrite := session.client.pendingWrite ++
            [{ buffer with data := response.generateResponse buffer.size }]
          response := response.cleanUp }.finishGenerateResponse
        { session'.client with
          writeBuffer := left'
          pendingWrite := session'.client.pendingWrite ++
            [{ buffer' with data := response.generateResponse buffer'.size }]
          response := response.cleanUp }.finishGenerateResponse :=
      { halike.client with
        writeBuffer := hleft
        writeBuffer' := hleft'
        pendingWrite := List.rel_append halike.client.pendingWrite (.cons hbuffer .nil)
        response := rfl
        evtHandler := rfl
        settled := fun _ => halike.client.settled hne }
    have hafter : Session.Alike policy
        { session with passed := session.passed ++ [session.client.request] }
        { session' with passed := session'.passed ++ [session'.client.request] } :=
      { halike with passed := hpassed }
    exact .returned 1 (hafter.setClient hclient)

theorem sendPending {pending pending' : List HttpBuffer}
    (hpending : List.Forall₂ HttpBuffer.Alike pending pending')
    (halike : session.Alike policy session') (len : Nat) :
    (session.sendPending env pending len).1 = (session'.sendPending env pending' len).1 ∧
      (session.sendPending env pending len).2.Alike policy
        (session'.sendPending env pending' len).2 := by
  induction hpending generalizing session session' len with
  | nil =>
      have hclient : HttpClient.Alike policy session.client.readBuffer.getContentEnd
          { session.client with pendingWrite := [] }.finishSendResponse
          { session'.client with pendingWrite := [] }.finishSendResponse :=
        { halike.client with
          pendingWrite := .nil
          evtHandler := rfl
          settled := fun hne => absurd rfl hne }
      exact ⟨rfl, halike.setClient hclient⟩
  | @cons buffer buffer' rest rest' hbuffer hrest ih =>
      have hkeep : ∀ {buffer buffer' : HttpBuffer} {sent sent' : Session},
          buffer.Alike buffer' → sent.Alike policy sent' →
          (sent.setClient { sent.client with pendingWrite := buffer :: rest }).Alike policy
            (sent'.setClient { sent'.client with pendingWrite := buffer' :: rest' }) := by
        intro buffer buffer' sent sent' hbuffer hsent
        have hclient : HttpClient.Alike policy sent.client.readBuffer.getContentEnd
            { sent.client with pendingWrite := buffer :: rest }
            { sent'.client with pendingWrite := buffer' :: rest' } :=
          { hsent.client with pendingWrite := .cons hbuffer hrest }
        exact hsent.setClient hclient
      have hcalled : Session.Alike policy { session with sendCalls := session.sendCalls + 1 }
          { session' with sendCalls := session'.sendCalls + 1 } :=
        { halike with sendCalls := congrArg (· + 1) halike.sendCalls }
      unfold Session.sendPending Session.sendBuffer
      simp only
      rw [← hbuffer.data, ← halike.sendCalls]
      cases haccepts : env.accepts session.sendCalls buffer.data.length with
      | none =>
          rw [← halike.sendCalls] at hcalled
          exact ⟨rfl, hkeep hbuffer hcalled⟩
      | some n =>
          have hsent : Session.Alike policy
              { session with
                sendCalls := session.sendCalls + 1
                sent := session.sent ++ buffer.data.take n }
              { session' with
                sendCalls := session.sendCalls + 1
                sent := session'.sent ++ buffer.data.take n } :=
            { halike with
              sendCalls := rfl
              sent := congrArg (· ++ buffer.data.take n) halike.sent }
          simp only
          split_ifs
          · have hleft : HttpBuffer.Alike
                { buffer with data := buffer.data.drop (min n buffer.data.length) }
                { buffer' with data := buffer.data.drop (min n buffer.data.length) } :=
              ⟨hbuffer.sized, hbuffer.size, rfl⟩
            exact ⟨rfl, hkeep hleft hsent⟩
          · have hsized' : buffer'.Sized := by
              obtain ⟨index, hindex, hsize⟩ := hbuffer.sized
              exact ⟨index, hindex, hbuffer.size.symm.trans hsize⟩
            have hclient : HttpClient.Alike policy session.client.readBuffer.getContentEnd
                { session.client with
                  writeBuffer := session.client.writeBuffer.releaseWriteBuffer buffer }
                { session'.client with
                  writeBuffer := session'.client.writeBuffer.releaseWriteBuffer buffer' } :=
              { hsent.client with
                writeBuffer := hsent.client.writeBuffer.releaseWriteBuffer hbuffer.sized
                writeBuffer' := hsent.client.writeBuffer'.releaseWriteBuffer hsized' }
            exact ih (hsent.setClient hclient) _

theorem sendResponse (halike : session.Alike policy session') :
    Paired policy (some (session.sendResponse env)) (some (session'.sendResponse env)) := by
  obtain ⟨hlen, hafter⟩ :=
    @sendPending policy session session' env _ _ halike.client.pendingWrite halike 0
  unfold Session.sendResponse
  simp only
  rw [← hlen]
  exact .returned _ hafter

theorem handle (hplain : HttpHandler.Plain env.cgi) (halike : session.Alike env.policy session')
    (code : SocketCode) (fuel : Nat) :
    Paired env.policy (session.handle env code fuel) (session'.handle env code fuel) := by
  unfold Session.handle
  rw [← halike.client.evtHandler]
  cases hhandler : session.client.evtHandler with
  | processRequestLine => exact halike.processRequestLine hhandler code
  | processHeader => exact halike.processHeader hhandler code fuel
  | processBody => exact halike.processBody hhandler code
  | generateResponse => exact generateResponse hplain halike hhandler
  | sendResponse => exact halike.sendResponse

end Alike

/-! ## Whole connections -/

/-- The ways in which an event may end on two clients. -/
inductive EndsAlike (policy : StringPolicy) :
    Option (Ending × Session) → Option (Ending × Session) → Prop
  | none : EndsAlike policy none none
  | done {session session' : Session} (halike : session.Alike policy session') :
      EndsAlike policy (some (.done, session)) (some (.done, session'))
  | closed {session session' : Session} (halike : session.Alike policy session') :
      EndsAlike policy
        (some (.closed, session.setClient (session.client.resetClient policy)))
        (some (.closed, session'.setClient (session'.client.resetClient policy)))
  | crashed {session session' : Session} (hunseen : session.Unseen session') :
      EndsAlike policy (some (.crashed, session)) (some (.crashed, session'))

theorem Alike.processEvent {env : Environment} {session session' : Session}
    (hplain : HttpHandler.Plain env.cgi) (halike : session.Alike env.policy session')
    (code : SocketCode) (fuel : Nat) :
    EndsAlike env.policy (session.processEvent env code fuel)
      (session'.processEvent env code fuel) := by
  induction fuel generalizing session session' with
  | zero => exact .none
  | succ fuel ih =>
      have hreply := halike.handle hplain code fuel
      unfold Session.processEvent
      generalize session.handle env code fuel = reply at hreply ⊢
      generalize session'.handle env code fuel = reply' at hreply ⊢
      cases hreply with
      | none => exact .none
      | crashed hunseen => exact .crashed hunseen
      | returned len hnext =>
          simp only
          split_ifs
          · exact .closed hnext
          · exact .done hnext
          · exact ih hnext

theorem EndsAlike.exists_of_some {policy : StringPolicy} {ending : Ending} {final : Session}
    {result : Option (Ending × Session)}
    (hends : EndsAlike policy (some (ending, final)) result) :
    ∃ final', result = some (ending, final') ∧ final.Unseen final' ∧
      (ending = .done → final.Alike policy final') := by
  cases hends with
  | done halike => exact ⟨_, rfl, halike.toUnseen, fun _ => halike⟩
  | closed halike =>
      exact ⟨_, rfl, ⟨halike.sent, halike.passed⟩, nofun⟩
  | crashed hunseen => exact ⟨_, rfl, hunseen, nofun⟩

theorem Alike.runs {env : Environment} {session session' final : Session} {code : SocketCode}
    {ending : Ending} (hplain : HttpHandler.Plain env.cgi)
    (halike : session.Alike env.policy session')
    (hruns : session.Runs env code ending final) :
    ∃ final', session'.Runs env code ending final' ∧ final.Unseen final' ∧
      (ending = .done → final.Alike env.policy final') := by
  obtain ⟨fuel, hfuel⟩ := hruns
  have hends := halike.processEvent hplain code fuel
  rw [hfuel] at hends
  obtain ⟨final', hresult, hunseen, hdone⟩ := hends.exists_of_some
  exact ⟨final', ⟨fuel, hresult⟩, hunseen, hdone⟩

/-- What happens on a connection, event by event: the pieces that have arrived
before the event and its code. -/
abbrev Future := List (List Bytes × SocketCode)

/-- The events of a connection, up to the one that ends it. -/
inductive Follows (env : Environment) : Session → Future → Ending → Session → Prop
  | nil {session : Session} : Follows env session [] .done session
  | stop {session final : Session} {pieces : List Bytes} {code : SocketCode} {rest : Future}
      {ending : Ending} (hruns : (session.deliver pieces).Runs env code ending final)
      (hending : ending ≠ .done) :
      Follows env session ((pieces, code) :: rest) ending final
  | next {session next final : Session} {pieces : List Bytes} {code : SocketCode}
      {rest : Future} {ending : Ending}
      (hruns : (session.deliver pieces).Runs env code .done next)
      (hfollows : Follows env next rest ending final) :
      Follows env session ((pieces, code) :: rest) ending final

theorem Alike.deliver {policy : StringPolicy} {session session' : Session}
    (halike : session.Alike policy session') (pieces : List Bytes) :
    (session.deliver pieces).Alike policy (session'.deliver pieces) :=
  { halike with incoming := congrArg (· ++ pieces) halike.incoming }

theorem Alike.follows {env : Environment} {session session' final : Session} {future : Future}
    {ending : Ending} (hplain : HttpHandler.Plain env.cgi)
    (halike : session.Alike env.policy session')
    (hfollows : session.Follows env future ending final) :
    ∃ final', session'.Follows env future ending final' ∧ final.Unseen final' := by
  induction hfollows generalizing session' with
  | nil => exact ⟨session', .nil, halike.toUnseen⟩
  | @stop session final pieces code rest ending hruns hending =>
      obtain ⟨final', hruns', hunseen, -⟩ := (halike.deliver pieces).runs hplain hruns
      exact ⟨final', .stop hruns' hending, hunseen⟩
  | @next session next final pieces code rest ending hruns _ ih =>
      obtain ⟨next', hruns', -, hnext⟩ := (halike.deliver pieces).runs hplain hruns
      obtain ⟨final', hfollows', hunseen⟩ := ih (hnext rfl)
      exact ⟨final', .next hruns' hfollows', hunseen⟩

/-- The bytes sent and the requests passed on in a connection. -/
def Shows (env : Environment) (client : HttpClient) (future : Future) (sent : Bytes)
    (passed : List HttpRequest) : Prop :=
  ∃ ending final, (connect env client).Follows env future ending final ∧ final.sent = sent ∧
    final.passed.map HttpRequest.readable = passed

end Session

/-! ## Resetting a client -/

/-- What a client needs to be handed on to another connection. -/
structure HttpClient.Ready (client : HttpClient) : Prop where
  whole : client.readBuffer.size = 8 * 1024
  writeBuffer : client.writeBuffer.Sound
  pendingWrite : ∀ buffer ∈ client.pendingWrite, buffer.Sized

theorem HttpClient.Alike.ready {policy : StringPolicy} {stop : Nat} {client client' : HttpClient}
    (halike : client.Alike policy stop client') : client.Ready := by
  refine ⟨halike.readBuffer.whole, halike.writeBuffer, ?_⟩
  have hpending := halike.pendingWrite
  generalize client.pendingWrite = pending at hpending ⊢
  generalize client'.pendingWrite = pending' at hpending
  induction hpending with
  | nil => nofun
  | cons hbuffer _ ih =>
      intro buffer hmem
      rcases List.mem_cons.mp hmem with rfl | hrest
      · exact hbuffer.sized
      · exact ih buffer hrest

theorem HttpWriteBuffer.Sound.releaseAll {pool : HttpWriteBuffer} (hsound : pool.Sound)
    {pending : List HttpBuffer} (hsized : ∀ buffer ∈ pending, buffer.Sized) :
    (pending.foldl (·.releaseWriteBuffer ·) pool).Sound := by
  induction pending generalizing pool with
  | nil => exact hsound
  | cons buffer rest ih =>
      exact ih (hsound.releaseWriteBuffer (hsized buffer List.mem_cons_self))
        fun other hother => hsized other (List.mem_cons_of_mem buffer hother)

/-- What `ResetClient` leaves of an earlier connection: the status code, and what
the capacity of the body makes of the bodies to come. -/
structure ResidueAlike (policy : StringPolicy) (client client' : HttpClient) : Prop where
  statusCode : client.response.statusCode = client'.response.statusCode
  capacity : CapacitiesAlike policy (policy.clear client.request.bodyCapacity)
    (policy.clear client'.request.bodyCapacity)

theorem HttpClient.Ready.reset {policy : StringPolicy} {client client' : HttpClient}
    (hready : client.Ready) (hready' : client'.Ready)
    (hresidue : ResidueAlike policy client client') :
    (client.resetClient policy).Alike policy
      (client.resetClient policy).readBuffer.getContentEnd (client'.resetClient policy) where
  keepalive := rfl
  readBuffer := ⟨hready.whole, hready.whole.trans hready'.whole.symm, rfl, rfl, rfl, le_rfl⟩
  writeBuffer := hready.writeBuffer.releaseAll hready.pendingWrite
  writeBuffer' := hready'.writeBuffer.releaseAll hready'.pendingWrite
  pendingWrite := .nil
  request := ⟨rfl, le_rfl, fun _ => hresidue.capacity, fun hset => absurd rfl hset⟩
  response := by
    unfold HttpClient.resetClient HttpResponse.cleanUp
    simp only
    rw [hresidue.statusCode]
  evtHandler := rfl
  settled := fun hne => absurd rfl hne

theorem ResidueAlike.refl (policy : StringPolicy) (client : HttpClient) :
    ResidueAlike policy client client :=
  ⟨rfl, fun _ _ _ => Iff.rfl⟩

/-- The states that earlier connections may leave a client in, whatever they were. -/
inductive Handled (cgi : HttpHandler) (policy : StringPolicy) (object : HttpClient) :
    HttpClient → Prop
  | start : Handled cgi policy object object
  | reset {client : HttpClient} (hhandled : Handled cgi policy object client) :
      Handled cgi policy object (client.resetClient policy)
  | event {env : Environment} {code : SocketCode} {session final : Session} {ending : Ending}
      (hhandled : Handled cgi policy object session.client) (hcgi : env.cgi = cgi)
      (hpolicy : env.policy = policy) (hruns : session.Runs env code ending final)
      (hending : ending ≠ .crashed) : Handled cgi policy object final.client

theorem Session.Alike.self {policy : StringPolicy} {session : Session}
    (halike : session.client.Alike policy session.client.readBuffer.getContentEnd
      session.client) : session.Alike policy session :=
  ⟨⟨rfl, rfl⟩, halike, rfl, rfl, rfl⟩

theorem Session.EndsAlike.client {policy : StringPolicy} {ending ending' : Ending}
    {final final' : Session}
    (hends : Session.EndsAlike policy (some (ending, final)) (some (ending', final')))
    (hsame : final' = final) (hending : ending ≠ .crashed) :
    final.client.Alike policy final.client.readBuffer.getContentEnd final.client := by
  cases hends with
  | done halike =>
      rw [hsame] at halike
      exact halike.client
  | closed halike => exact halike.client.ready.reset halike.client.ready (.refl _ _)
  | crashed _ => exact absurd rfl hending

theorem Handled.alike {cgi : HttpHandler} {policy : StringPolicy} {memory : Bytes}
    {bodyCapacity : Nat} {closeConn : Bool} {statusCode : Int} {client : HttpClient}
    (hplain : HttpHandler.Plain cgi) (hmemory : memory.length = 8 * 1024)
    (hhandled : Handled cgi policy (.construct memory bodyCapacity closeConn statusCode)
      client) :
    client.Alike policy client.readBuffer.getContentEnd client := by
  induction hhandled with
  | start =>
      exact
        { keepalive := rfl
          readBuffer := ⟨hmemory, rfl, rfl, rfl, rfl, le_rfl⟩
          writeBuffer := .init
          writeBuffer' := .init
          pendingWrite := .nil
          request := ⟨rfl, le_rfl, fun _ _ _ _ => Iff.rfl, fun hset => absurd rfl hset⟩
          response := rfl
          evtHandler := rfl
          settled := fun _ => ⟨rfl, rfl⟩ }
  | reset _ ih => exact ih.ready.reset ih.ready (.refl _ _)
  | @event env code session final ending _ hcgi hpolicy hruns hending ih =>
      subst hcgi hpolicy
      obtain ⟨fuel, hfuel⟩ := hruns
      have hends := (Session.Alike.self ih).processEvent hplain code fuel
      rw [hfuel] at hends
      exact hends.client rfl hending

/-- No handler and no connection tells the two clients apart, once they are
reset. -/
def Indistinguishable (policy : StringPolicy) (client client' : HttpClient) : Prop :=
  ∀ env : Environment, env.policy = policy → HttpHandler.Plain env.cgi →
    ∀ future sent passed,
      Session.Shows env client future sent passed ↔
        Session.Shows env client' future sent passed

theorem Session.Alike.connect {env : Environment} {client client' : HttpClient}
    (hready : client.Ready) (hready' : client'.Ready)
    (hresidue : ResidueAlike env.policy client client') :
    (Session.connect env client).Alike env.policy (Session.connect env client') :=
  ⟨⟨rfl, rfl⟩, hready.reset hready' hresidue, rfl, rfl, rfl⟩

theorem ResidueAlike.symm {policy : StringPolicy} {client client' : HttpClient}
    (hresidue : ResidueAlike policy client client') : ResidueAlike policy client' client :=
  ⟨hresidue.statusCode.symm, fun sz hpos hbound => (hresidue.capacity sz hpos hbound).symm⟩

theorem Session.Shows.of_residueAlike {env : Environment} {client client' : HttpClient}
    (hplain : HttpHandler.Plain env.cgi) (hready : client.Ready) (hready' : client'.Ready)
    (hresidue : ResidueAlike env.policy client client') {future : Session.Future} {sent : Bytes}
    {passed : List HttpRequest} (hshows : Session.Shows env client future sent passed) :
    Session.Shows env client' future sent passed := by
  obtain ⟨ending, final, hfollows, hsent, hpassed⟩ := hshows
  obtain ⟨final', hfollows', hunseen⟩ :=
    (Session.Alike.connect hready hready' hresidue).follows hplain hfollows
  exact ⟨ending, final', hfollows', hunseen.sent ▸ hsent, hunseen.passed ▸ hpassed⟩

theorem indistinguishable_of_residueAlike {policy : StringPolicy} {client client' : HttpClient}
    (hready : client.Ready) (hready' : client'.Ready)
    (hresidue : ResidueAlike policy client client') :
    Indistinguishable policy client client' := by
  intro env hpolicy hplain future sent passed
  subst hpolicy
  exact ⟨fun hshows => hshows.of_residueAlike hplain hready hready' hresidue,
    fun hshows => hshows.of_residueAlike hplain hready' hready hresidue.symm⟩

end BackEndFacility
