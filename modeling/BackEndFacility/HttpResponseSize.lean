import BackEndFacility.HttpClient
import BackEndFacility.HttpSerialize
import BackEndFacility.HttpWritePool

/-!
# The size of a response

`GetResponseSize` adds up what the calls on a response announce: the constructor the
fixed part of the status line, `AddHeader` a line for every call, also when the key is
there already.  `CleanUp` starts again from nothing.  A write buffer rounds the size
up to its granularity, and the serializer needs two bytes more than it writes.
-/

namespace BackEndFacility

/-- The calls that build a response. -/
inductive ResponseCall
  | setStatusCode (code : HttpStatusCode)
  | setStatusMessage (msg : Bytes)
  | addHeader (key value : Bytes)
  | setBody (body : Bytes)
  | cleanUp
deriving DecidableEq

namespace HttpResponse

/-- A new response.  No constructor sets the status code and `closeConn_`. -/
def construct (closeConn : Bool) (statusCode : Int) : HttpResponse where
  response := false
  closeConn := closeConn
  msgLen := 13 + 2
  statusCode := statusCode
  statusMsg := []
  httpBody := []
  httpHeader := .empty

def perform (response : HttpResponse) : ResponseCall → HttpResponse
  | .setStatusCode code => response.setStatusCode code.value
  | .setStatusMessage msg => response.setStatusMessage msg
  | .addHeader key value => response.addHeader key value
  | .setBody body => response.setBody body
  | .cleanUp => response.cleanUp

def after (response : HttpResponse) (history : List ResponseCall) : HttpResponse :=
  history.foldl perform response

end HttpResponse

/-! ## What a history announces -/

/-- The header lines announced since the last `CleanUp`. -/
def announcedHeaders (history : List ResponseCall) : Nat :=
  history.foldl
    (fun announced call =>
      match call with
      | .addHeader key value =>
          announced + ((cStr key).length + 2 + (cStr value).length + 2)
      | .cleanUp => 0
      | _ => announced) 0

/-- The part of the status line that the constructor counts and `CleanUp` forgets. -/
def announcedStatus (history : List ResponseCall) : Nat :=
  if .cleanUp ∈ history then 0 else 15

theorem after_concat (response : HttpResponse) (history : List ResponseCall)
    (call : ResponseCall) :
    response.after (history ++ [call]) = (response.after history).perform call :=
  List.foldl_concat _ _ _ _

theorem announcedHeaders_concat (history : List ResponseCall) (call : ResponseCall) :
    announcedHeaders (history ++ [call]) =
      match call with
      | .addHeader key value =>
          announcedHeaders history + ((cStr key).length + 2 + (cStr value).length + 2)
      | .cleanUp => 0
      | _ => announcedHeaders history := by
  unfold announcedHeaders
  rw [List.foldl_concat]

theorem msgLen_after (closeConn : Bool) (statusCode : Int) (history : List ResponseCall) :
    ((HttpResponse.construct closeConn statusCode).after history).msgLen =
      announcedStatus history + announcedHeaders history := by
  induction history using List.reverseRecOn with
  | nil => rfl
  | append_singleton history call ih =>
      rw [after_concat, announcedHeaders_concat]
      unfold announcedStatus at ih ⊢
      cases call with
      | addHeader key value =>
          simp only [HttpResponse.perform, HttpResponse.addHeader, ih, List.mem_append,
            List.mem_singleton, reduceCtorEq, or_false]
          omega
      | cleanUp =>
          simp [HttpResponse.perform, HttpResponse.cleanUp]
      | setStatusCode code =>
          simp only [HttpResponse.perform, HttpResponse.setStatusCode, ih, List.mem_append,
            List.mem_singleton, reduceCtorEq, or_false]
      | setStatusMessage msg =>
          simp only [HttpResponse.perform, HttpResponse.setStatusMessage, ih, List.mem_append,
            List.mem_singleton, reduceCtorEq, or_false]
      | setBody body =>
          simp only [HttpResponse.perform, HttpResponse.setBody, ih, List.mem_append,
            List.mem_singleton, reduceCtorEq, or_false]

theorem fieldText_insertEntry_le (key value : Bytes) (entries : List (Bytes × Bytes)) :
    (HttpResponse.fieldText (SortedMap.insertEntry key value entries)).length ≤
      (HttpResponse.fieldText entries).length + (key.length + 2 + value.length + 2) := by
  induction entries with
  | nil =>
      rw [SortedMap.insertEntry, HttpResponse.fieldText_cons_length]
      omega
  | cons entry rest ih =>
      obtain ⟨other, content⟩ := entry
      have hentry := HttpResponse.fieldText_cons_length other content rest
      have hnew := HttpResponse.fieldText_cons_length key value
      rw [SortedMap.insertEntry]
      split_ifs with hlt heq
      · rw [hnew]
        omega
      · have hkey : key = other := heq
        rw [hnew, hentry]
        omega
      · rw [HttpResponse.fieldText_cons_length, hentry]
        omega

theorem fieldText_after_le (closeConn : Bool) (statusCode : Int) (history : List ResponseCall) :
    (HttpResponse.fieldText
      ((HttpResponse.construct closeConn statusCode).after history).httpHeader.entries).length ≤
        announcedHeaders history := by
  induction history using List.reverseRecOn with
  | nil => exact le_refl 0
  | append_singleton history call ih =>
      rw [after_concat, announcedHeaders_concat]
      cases call with
      | addHeader key value =>
          exact (fieldText_insertEntry_le (cStr key) (cStr value) _).trans
            (Nat.add_le_add_right ih _)
      | cleanUp => exact le_refl 0
      | setStatusCode code => exact ih
      | setStatusMessage msg => exact ih
      | setBody body => exact ih

theorem statusCode_after
    {closeConn : Bool} {statusCode : Int} {history : List ResponseCall}
    (hset : ∃ code, .setStatusCode code ∈ history) :
    ∃ code, .setStatusCode code ∈ history ∧
      ((HttpResponse.construct closeConn statusCode).after history).statusCode = code.value := by
  induction history using List.reverseRecOn with
  | nil =>
      obtain ⟨code, hmem⟩ := hset
      exact absurd hmem List.not_mem_nil
  | append_singleton history call ih =>
      rw [after_concat]
      cases call with
      | setStatusCode code => exact ⟨code, List.mem_concat_self, rfl⟩
      | addHeader key value | cleanUp | setStatusMessage msg | setBody body =>
          have hearlier : ∃ code, .setStatusCode code ∈ history := by
            obtain ⟨code, hmem⟩ := hset
            simp only [List.mem_append, List.mem_singleton, reduceCtorEq, or_false] at hmem
            exact ⟨code, hmem⟩
          obtain ⟨code, hmem, hcode⟩ := ih hearlier
          exact ⟨code, List.mem_append_left _ hmem, hcode⟩

/-! ## The buffer for a response -/

/-- What `GetResponseSize` answers after a history, and what its calls announced. -/
def announcedSize (history : List ResponseCall) (response : HttpResponse) : Nat :=
  announcedStatus history + announcedHeaders history + response.statusMsg.length + 2 +
    response.httpBody.length + 2

theorem getResponseSize_after (closeConn : Bool) (statusCode : Int)
    (history : List ResponseCall) :
    ((HttpResponse.construct closeConn statusCode).after history).getResponseSize =
      announcedSize history ((HttpResponse.construct closeConn statusCode).after history) := by
  unfold HttpResponse.getResponseSize announcedSize
  rw [msgLen_after]

/-- A buffer that the pool returns takes the whole response. -/
def Sufficient (pool : HttpWriteBuffer) (response : HttpResponse) : Prop :=
  ∀ (buffer : HttpBuffer) (left : HttpWriteBuffer) (cell : Nat → UInt8),
    pool.allocWriteBuffer (Session.responseSize response) = some (buffer, left) →
      (response.generateResponseInto (.fresh cell) buffer.size).1 = response.wireText.length ∧
        (response.generateResponseInto (.fresh cell) buffer.size).1 ≠ 0

/-- The announced size, as an `int`, asks for no buffer, or it is rounded up to room
for the response and two more bytes. -/
def Covered (granularity : Nat) (announced : Int) (response : HttpResponse) : Prop :=
  announced ≤ 0 ∨ (8 * granularity : Int) < announced ∨
    response.wireText.length + 2 ≤ HttpWriteBuffer.roundUp granularity announced.toNat

theorem wireText_pos (response : HttpResponse) : 0 < response.wireText.length := by
  rw [HttpResponse.wireText_length]
  omega

theorem sufficient_iff_covered
    {pool : HttpWriteBuffer} {granularity : Nat} (hsized : pool.SizedBy granularity)
    (response : HttpResponse) :
    Sufficient pool response ↔ Covered granularity (Session.responseSize response) response := by
  have hpos := wireText_pos response
  unfold Sufficient Covered
  generalize Session.responseSize response = sz
  by_cases hout : sz ≤ 0 ∨ (8 * granularity : Int) < sz
  · have hnone := hsized.alloc_eq_none hout
    refine ⟨fun _ => ?_, fun _ buffer left cell halloc => ?_⟩
    · rcases hout with hlow | hhigh
      · exact .inl hlow
      · exact .inr (.inl hhigh)
    · rw [hnone] at halloc
      cases halloc
  · rw [not_or, not_le, not_lt] at hout
    obtain ⟨buffer, left, halloc, hsize, -, -⟩ := hsized.exists_alloc hout.1 hout.2
    constructor
    · intro hall
      obtain ⟨hcount, -⟩ := hall buffer left (fun _ => 0) halloc
      rw [HttpResponse.generateResponseInto_fst] at hcount
      split_ifs at hcount with hfits
      · exact .inr (.inr (by omega))
      · omega
    · rintro (hlow | hhigh | hfits)
      · omega
      · omega
      · intro other rest cell hother
        rw [halloc] at hother
        cases hother
        rw [HttpResponse.generateResponseInto_fst, if_pos (by omega)]
        exact ⟨rfl, hpos.ne'⟩

theorem decimal_length_three {code : HttpStatusCode} (hcode : 200 ≤ code.value) :
    (decimal code.value).length = 3 := by
  cases code with
  | hscUnknown => exact absurd hcode (by decide)
  | hsc200 | hsc400 | hsc401 | hsc403 | hsc404 | hsc500 | hsc503 => decide

theorem responseSize_eq
    {response : HttpResponse} (hsmall : response.getResponseSize < 2 ^ 31) :
    Session.responseSize response = response.getResponseSize := by
  unfold Session.responseSize
  exact Int.bmod_eq_of_le (by omega) (by omega)

theorem announcedSize_uncleaned
    {history : List ResponseCall} (hclean : .cleanUp ∉ history) (response : HttpResponse) :
    announcedSize history response =
      15 + announcedHeaders history + response.statusMsg.length + 2 +
        response.httpBody.length + 2 := by
  unfold announcedSize announcedStatus
  rw [if_neg hclean]

theorem wireText_length_three
    {response : HttpResponse} {code : HttpStatusCode} (hcode : response.statusCode = code.value)
    (hthree : 200 ≤ code.value) :
    response.wireText.length =
      response.statusMsg.length + 13 + 2 +
        (HttpResponse.fieldText response.httpHeader.entries).length + 2 +
          response.httpBody.length := by
  have hstatus : response.statusText.length = 13 := by
    unfold HttpResponse.statusText
    rw [hcode, List.length_append, List.length_append, decimal_length_three hthree]
    rfl
  rw [HttpResponse.wireText_length, HttpResponse.headText_length, hstatus]

theorem covered_of_uncleaned
    {closeConn : Bool} {statusCode : Int} {history : List ResponseCall} (granularity : Nat)
    (hclean : .cleanUp ∉ history) (hset : ∃ code, .setStatusCode code ∈ history)
    (hcodes : ∀ code, .setStatusCode code ∈ history → 200 ≤ code.value)
    (hsmall : announcedSize history
      ((HttpResponse.construct closeConn statusCode).after history) < 2 ^ 31) :
    Covered granularity
      (Session.responseSize ((HttpResponse.construct closeConn statusCode).after history))
      ((HttpResponse.construct closeConn statusCode).after history) := by
  obtain ⟨code, hmem, hcode⟩ := @statusCode_after closeConn statusCode history hset
  have hfields := fieldText_after_le closeConn statusCode history
  have hannounced := getResponseSize_after closeConn statusCode history
  have hwire := wireText_length_three hcode (hcodes code hmem)
  have hsize := announcedSize_uncleaned hclean
    ((HttpResponse.construct closeConn statusCode).after history)
  rw [responseSize_eq (by omega), hannounced]
  unfold Covered
  by_cases hgranularity : 0 < granularity
  · have hround := HttpWriteBuffer.le_roundUp hgranularity
      (announcedSize history ((HttpResponse.construct closeConn statusCode).after history))
    exact .inr (.inr (by rw [Int.toNat_natCast]; omega))
  · exact .inr (.inl (by omega))

/-- The announced size is enough for a response exactly when it covers it; it does
unless `CleanUp` was called. -/
theorem sufficient_iff_announced
    {granularity num : Nat} {pool : HttpWriteBuffer} {held : List HttpBuffer}
    (hpool : HttpWriteBuffer.Reached granularity num pool held) (closeConn : Bool)
    (statusCode : Int) (history : List ResponseCall) :
    (Sufficient pool ((HttpResponse.construct closeConn statusCode).after history) ↔
      Covered granularity
        ((announcedSize history
          ((HttpResponse.construct closeConn statusCode).after history) : Int).bmod (2 ^ 32))
        ((HttpResponse.construct closeConn statusCode).after history)) ∧
      (.cleanUp ∉ history → (∃ code, .setStatusCode code ∈ history) →
        (∀ code, .setStatusCode code ∈ history → 200 ≤ code.value) →
        announcedSize history
          ((HttpResponse.construct closeConn statusCode).after history) < 2 ^ 31 →
        Sufficient pool ((HttpResponse.construct closeConn statusCode).after history)) := by
  have hannounced : Session.responseSize
      ((HttpResponse.construct closeConn statusCode).after history) =
        (announcedSize history
          ((HttpResponse.construct closeConn statusCode).after history) : Int).bmod (2 ^ 32) := by
    unfold Session.responseSize
    rw [getResponseSize_after]
  have hiff := sufficient_iff_covered hpool.sizedBy.1
    ((HttpResponse.construct closeConn statusCode).after history)
  rw [← hannounced]
  exact ⟨hiff, fun hclean hset hcodes hsmall =>
    hiff.mpr (covered_of_uncleaned granularity hclean hset hcodes hsmall)⟩

/-- A response with a header that is set twice. -/
def twoHosts : List ResponseCall :=
  [.setStatusCode .hsc200, .setStatusMessage (ascii ['O', 'K']),
    .addHeader (ascii ['H', 'o', 's', 't']) (ascii ['a']),
    .addHeader (ascii ['H', 'o', 's', 't']) (ascii ['b']), .setBody (ascii ['h', 'i'])]

/-- A second response, whose announced size is the granularity. -/
def cleaned : List ResponseCall :=
  [.setStatusCode .hsc200, .cleanUp, .setStatusCode .hsc200, .setBody (List.replicate 60 97)]

/-- The first response fits.  The second one does in a pool of larger buffers, and in one of
this granularity it does not. -/
theorem sufficient_twoHosts :
    Sufficient (.init 1024 8) ((HttpResponse.construct false 0).after twoHosts) ∧
      Sufficient (.init 1024 8) ((HttpResponse.construct false 0).after cleaned) ∧
      ¬ Sufficient (.init 64 8) ((HttpResponse.construct false 0).after cleaned) := by
  refine ⟨?_, ?_, fun hsufficient => ?_⟩
  · refine (sufficient_iff_announced (.init : HttpWriteBuffer.Reached 1024 8 _ _) false 0
      twoHosts).2 (by decide) ⟨.hsc200, by decide⟩ ?_ (by decide)
    intro code hmem
    have hcode : code = .hsc200 := by
      simpa [twoHosts] using hmem
    rw [hcode]
    decide
  · refine (sufficient_iff_announced (.init : HttpWriteBuffer.Reached 1024 8 _ _) false 0
      cleaned).1.mpr ?_
    unfold Covered
    decide +kernel
  · have hcovered := (sufficient_iff_announced (.init : HttpWriteBuffer.Reached 64 8 _ _) false 0
      cleaned).1.mp hsufficient
    unfold Covered at hcovered
    revert hcovered
    decide +kernel

theorem not_sufficient_cleaned :
    ¬ ∀ (granularity num : Nat) (pool : HttpWriteBuffer) (held : List HttpBuffer)
      (closeConn : Bool) (statusCode : Int) (history : List ResponseCall),
      HttpWriteBuffer.Reached granularity num pool held →
        (∃ code, .setStatusCode code ∈ history) →
        (∀ code, .setStatusCode code ∈ history → 200 ≤ code.value) →
        Sufficient pool ((HttpResponse.construct closeConn statusCode).after history) := by
  intro hall
  have hcodes : ∀ code, .setStatusCode code ∈ cleaned → 200 ≤ code.value := by
    intro code hmem
    have hcode : code = .hsc200 := by
      simpa [cleaned] using hmem
    rw [hcode]
    decide
  have hsufficient := hall 64 8 (.init 64 8) [] false 0 cleaned .init ⟨.hsc200, by decide⟩ hcodes
  have halloc : (HttpWriteBuffer.init 64 8).allocWriteBuffer
      (Session.responseSize ((HttpResponse.construct false 0).after cleaned)) =
        some (⟨7, 64, []⟩, { HttpWriteBuffer.init 64 8 with
          freeBuffer := (HttpWriteBuffer.init 64 8).freeBuffer.set 0
            (((HttpWriteBuffer.init 64 8).freeBuffer.getD 0 []).tail) }) := by
    decide +kernel
  have hzero := (hsufficient _ _ (fun _ => 0) halloc).2
  rw [HttpResponse.generateResponseInto_fst] at hzero
  exact hzero (by decide)

end BackEndFacility
