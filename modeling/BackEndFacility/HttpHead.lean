import BackEndFacility.HttpSegmentation
import Mathlib.Data.List.TakeWhile

/-!
# The request line and the header as text

What `ParseRequestLine` and `ParseHeader` make of a request line and of a header
section that stand in the read buffer with any bytes behind them.

The question mark of the url is looked for in everything that is buffered, so a
url without a query is parsed only if there is none in the bytes behind the line
either.  The header section is taken to end at the first line without a `": "`, and
when header lines use up the content the next line is looked for at the front of
the memory.
-/

namespace BackEndFacility

/-! ## Names -/

/-- `GetHttpMethodName` -/
def HttpMethod.name : HttpMethod → Bytes
  | .get => ascii ['G', 'E', 'T']
  | .post => ascii ['P', 'O', 'S', 'T']
  | .head => ascii ['H', 'E', 'A', 'D']
  | .put => ascii ['P', 'U', 'T']
  | .delete => ascii ['D', 'E', 'L', 'E', 'T', 'E']
  | .invalid => ascii ['U', 'N', 'K', 'N', 'O', 'W', 'N']

/-- `GetVersionName` -/
def HttpVersion.name : HttpVersion → Bytes
  | .v10 => ascii ['H', 'T', 'T', 'P', '/', '1', '.', '0']
  | .v11 => ascii ['H', 'T', 'T', 'P', '/', '1', '.', '1']
  | .invalid => ascii ['U', 'N', 'K', 'N', 'O', 'W', 'N']

theorem HttpMethod.ofText_name (method : HttpMethod) :
    HttpMethod.ofText method.name = method := by
  cases method <;> decide

theorem HttpVersion.ofText_name (version : HttpVersion) :
    HttpVersion.ofText version.name = version := by
  cases version <;> decide

theorem HttpVersion.name_plain (version : HttpVersion) :
    questionMark ∉ version.name ∧ ¬ httpCtrl <:+: version.name := by
  cases version <;> decide

theorem HttpVersion.name_length
    {version : HttpVersion}
    (hvalid : version ≠ .invalid) :
    version.name.length = 8 := by
  cases version with
  | v10 => rfl
  | v11 => rfl
  | invalid => exact absurd rfl hvalid

/-! ## The request line -/

/-- A request line: the method and the version have names of their own, and the url
and its query end where the line says. -/
structure StartLine where
  method : HttpMethod
  version : HttpVersion
  url : Bytes
  query : Option Bytes
  method_valid : method ≠ .invalid
  version_valid : version ≠ .invalid
  url_space : space ∉ url
  url_mark : questionMark ∉ url
  query_space : ∀ data, query = some data → space ∉ data

namespace StartLine

/-- The url with its query. -/
def target (line : StartLine) : Bytes :=
  match line.query with
  | none => line.url
  | some data => line.url ++ questionMark :: data

/-- The line with these bytes behind it. -/
def text (line : StartLine) (rest : Bytes) : Bytes :=
  line.method.name ++ space ::
    (line.target ++ space :: (line.version.name ++ httpCtrl ++ rest))

/-- The request object once the url is parsed. -/
def located (line : StartLine) (request : HttpRequest) : HttpRequest :=
  match line.query with
  | none => (request.setHttpMethod line.method.name).setUrl line.url
  | some data => ((request.setHttpMethod line.method.name).setUrl line.url).setUrlData data

theorem space_not_mem_target (line : StartLine) :
    space ∉ line.target := by
  unfold target
  cases hquery : line.query with
  | none => exact line.url_space
  | some data =>
      simp only [List.mem_append, List.mem_cons, not_or]
      exact ⟨line.url_space, by decide, line.query_space data hquery⟩

/-- A question mark behind a url that has none of its own. -/
def MarkBehind (line : StartLine) (rest : Bytes) : Prop :=
  line.query = none ∧ questionMark ∈ rest

instance decidableMarkBehind (line : StartLine) (rest : Bytes) :
    Decidable (line.MarkBehind rest) :=
  inferInstanceAs (Decidable (line.query = none ∧ questionMark ∈ rest))

end StartLine

namespace HttpClient

section RequestLine

variable {client : HttpClient} {line : StartLine} {rest : Bytes}

theorem parseRequestLine_startLine
    (hcontent : client.readBuffer.content = line.text rest) :
    ∃ target, client.Advanced (client.request.setHttpMethod line.method.name)
        (line.target ++ space :: (line.version.name ++ httpCtrl ++ rest)) target ∧
      client.parseRequestLine =
        target.parseTarget client.readBuffer.getContentEnd (line.method.name.length + 1) := by
  have hvalid : HttpMethod.ofText line.method.name ≠ .invalid := by
    rw [HttpMethod.ofText_name]
    exact line.method_valid
  exact parseRequestLine_target hcontent (space_not_mem_method hvalid) hvalid (by simp)

theorem parseRequestLine_throws
    (hcontent : client.readBuffer.content = line.text rest)
    (hmark : line.MarkBehind rest) :
    client.parseRequestLine = none := by
  obtain ⟨target, htarget, hparse⟩ := parseRequestLine_startLine hcontent
  have hurl : line.target = line.url := by
    unfold StartLine.target
    rw [hmark.1]
  have hthrows := parseUrl_throws target.request htarget.stop_le htarget.ahead
    (hurl ▸ line.url_mark) (List.mem_append_right _ hmark.2)
  rw [hparse, parseTarget_eq _ htarget.stop_le htarget.ahead line.space_not_mem_target,
    hthrows]

theorem parseUrl_startLine
    {target : HttpClient}
    (htarget : client.Advanced (client.request.setHttpMethod line.method.name)
      (line.target ++ space :: (line.version.name ++ httpCtrl ++ rest)) target)
    (hmark : ¬ line.MarkBehind rest) :
    parseUrl target.request target.readBuffer.memory target.readBuffer.getContentStart
        (target.readBuffer.getContentStart + line.target.length)
        client.readBuffer.getContentEnd =
      some (line.located client.request) := by
  have hahead := htarget.ahead
  have hstart : target.readBuffer.getContentStart ≤ client.readBuffer.getContentEnd :=
    target.readBuffer.start_le_end.trans htarget.stop.le
  have hrequest : target.request = client.request.setHttpMethod line.method.name := by
    rw [htarget.frame]
  rw [hrequest]
  unfold StartLine.located
  cases hquery : line.query with
  | none =>
      have hurl : line.target = line.url := by
        unfold StartLine.target
        rw [hquery]
      have habsent : questionMark ∉
          line.url ++ space :: (line.version.name ++ httpCtrl ++ rest) := by
        simp only [List.mem_append, List.mem_cons, not_or]
        exact ⟨line.url_mark, by decide, ⟨line.version.name_plain.1, by decide⟩,
          fun hrest => hmark ⟨hquery, hrest⟩⟩
      rw [hurl] at hahead ⊢
      exact parseUrl_plain _ hstart htarget.stop_le hahead habsent
  | some data =>
      have hurl : line.target = line.url ++ questionMark :: data := by
        unfold StartLine.target
        rw [hquery]
      rw [hurl] at hahead ⊢
      exact parseUrl_data _ htarget.stop_le hahead line.url_mark

theorem parseRequestLine_stores
    (hcontent : client.readBuffer.content = line.text rest)
    (hmark : ¬ line.MarkBehind rest) :
    ∃ (len : Nat) (stored : HttpClient), 0 < len ∧
      client.Advanced (line.located client.request) (line.version.name ++ httpCtrl ++ rest)
        stored ∧
      client.parseRequestLine = some ((len : Int),
        ((stored.setRequest ((line.located client.request).setVersion
          line.version.name)).consumeBuffer 10).finishParsingRequestLine) := by
  obtain ⟨target, htarget, hparse⟩ := parseRequestLine_startLine hcontent
  obtain ⟨stored, hstored, htail⟩ := htarget.parseTarget (line.method.name.length + 1)
    line.space_not_mem_target (by simp [httpCtrl]) (parseUrl_startLine htarget hmark)
  have hlength := HttpVersion.name_length line.version_valid
  have hversion := parseVersion_eq
    (line.method.name.length + 1 + (line.target.length + 1)) hstored.stop_le
    hstored.ahead line.version.name_plain.2
  rw [if_neg (not_not.mpr hlength), HttpVersion.ofText_name, if_neg line.version_valid]
    at hversion
  have hrequest : stored.request = line.located client.request := by
    rw [hstored.frame]
  rw [hrequest] at hversion
  refine ⟨line.method.name.length + 1 + (line.target.length + 1) + 10, stored, by omega,
    hstored, ?_⟩
  rw [hparse, htail, hversion]
  rfl

/-- The line is parsed as it stands, and what is behind it is left. -/
def ParsesLine (client : HttpClient) (line : StartLine) (rest : Bytes) : Prop :=
  ∃ (len : Nat) (next : HttpClient), client.parseRequestLine = some ((len : Int), next) ∧
    next.request.method = line.method ∧ next.request.version = line.version ∧
    next.request.reqUrl = line.url ∧ next.request.urlData = line.query.getD [] ∧
    next.evtHandler = .processHeader ∧ next.readBuffer.content = rest

theorem located_eq (line : StartLine) (request : HttpRequest) :
    line.located request =
      { request with
        method := line.method
        reqUrl := line.url
        urlData := line.query.getD request.urlData } := by
  have hmethod := HttpMethod.ofText_name line.method
  unfold StartLine.located
  cases line.query with
  | none => simp only [HttpRequest.setHttpMethod, HttpRequest.setUrl, hmethod, Option.getD_none]
  | some data =>
      simp only [HttpRequest.setHttpMethod, HttpRequest.setUrl, HttpRequest.setUrlData, hmethod,
        Option.getD_some]

theorem parsesLine_of_unmarked
    (hcontent : client.readBuffer.content = line.text rest)
    (hmark : ¬ line.MarkBehind rest) :
    client.ParsesLine line rest ↔ line.query.getD client.request.urlData = line.query.getD [] := by
  obtain ⟨len, stored, -, hstored, hparse⟩ := parseRequestLine_stores hcontent hmark
  have hlength : (line.version.name ++ httpCtrl).length = 10 := by
    rw [List.length_append, HttpVersion.name_length line.version_valid]
    rfl
  have hleft : (stored.readBuffer.consumeBuffer 10).content = rest := by
    have hconsumed := HttpReadBuffer.content_consumeBuffer hstored.content
    rwa [hlength] at hconsumed
  have hversion := HttpVersion.ofText_name line.version
  have hlocated := located_eq line client.request
  constructor
  · rintro ⟨len', next, hnext, -, -, -, hdata, -, -⟩
    rw [hparse] at hnext
    cases hnext
    have hurlData : (line.located client.request).urlData = line.query.getD [] := hdata
    rw [hlocated] at hurlData
    exact hurlData
  · intro hdata
    refine ⟨len, _, hparse, ?_, hversion, ?_, ?_, rfl, hleft⟩
    · show (line.located client.request).method = line.method
      rw [hlocated]
    · show (line.located client.request).reqUrl = line.url
      rw [hlocated]
    · show (line.located client.request).urlData = line.query.getD []
      rw [hlocated]
      exact hdata

/-- A request line is parsed as it stands exactly when it has a query, or there is no
question mark behind it and no url data is left from before. -/
theorem parsesLine_iff
    (hcontent : client.readBuffer.content = line.text rest) :
    client.ParsesLine line rest ↔
      line.query ≠ none ∨ (questionMark ∉ rest ∧ client.request.urlData = []) := by
  by_cases hmark : line.MarkBehind rest
  · have hthrows := parseRequestLine_throws hcontent hmark
    constructor
    · rintro ⟨len, next, hnext, -⟩
      rw [hthrows] at hnext
      cases hnext
    · rintro (hquery | ⟨hrest, -⟩)
      · exact absurd hmark.1 hquery
      · exact absurd hmark.2 hrest
  · rw [parsesLine_of_unmarked hcontent hmark]
    cases hquery : line.query with
    | none =>
        have hrest : questionMark ∉ rest := fun hmem => hmark ⟨hquery, hmem⟩
        simp [hrest]
    | some data => simp

end RequestLine

theorem fits_init
    {bytes : Bytes}
    (hfits : bytes.length ≤ 8 * 1024) :
    bytes.length ≤ (HttpReadBuffer.init (List.replicate (8 * 1024) 0)).freeSize := by
  rw [HttpReadBuffer.freeSize_of_empty rfl]
  exact hfits.trans (List.length_replicate (a := (0 : UInt8))).ge

/-- A new client with these bytes in its read buffer. -/
def holding (bytes : Bytes) (hfits : bytes.length ≤ 8 * 1024) : HttpClient :=
  { construct (List.replicate (8 * 1024) 0) 15 false 0 with
    readBuffer := (HttpReadBuffer.init (List.replicate (8 * 1024) 0)).increaseContentRange bytes
      (fits_init hfits) }

theorem content_holding (bytes : Bytes) (hfits : bytes.length ≤ 8 * 1024) :
    (holding bytes hfits).readBuffer.content = bytes :=
  (HttpReadBuffer.content_increaseContentRange (fits_init hfits) rfl).1

theorem get_ne_invalid : HttpMethod.get ≠ .invalid := by decide

theorem v11_ne_invalid : HttpVersion.v11 ≠ .invalid := by decide

theorem space_notMem_root : space ∉ ascii ['/'] := by decide

theorem mark_notMem_root : questionMark ∉ ascii ['/'] := by decide

/-- `GET /` -/
def getLine (query : Option Bytes) (hquery : ∀ data, query = some data → space ∉ data) :
    StartLine where
  method := .get
  version := .v11
  url := ascii ['/']
  query := query
  method_valid := get_ne_invalid
  version_valid := v11_ne_invalid
  url_space := space_notMem_root
  url_mark := mark_notMem_root
  query_space := hquery

/-- `Host: a?` and the empty line. -/
def markedHeader : Bytes :=
  ascii ['H', 'o', 's', 't', ':', ' ', 'a', '?', '\r', '\n', '\r', '\n']

/-- With a query of its own the line is parsed whatever follows. -/
theorem parsesLine_emptyQuery :
    (holding ((getLine (some []) (by simp)).text markedHeader) (by decide)).ParsesLine
      (getLine (some []) (by simp)) markedHeader :=
  (parsesLine_iff (content_holding _ _)).mpr (.inl nofun)

/-- The question mark of a header field is taken for that of the url. -/
theorem not_parsesLine_markedHeader :
    ¬ ∀ (client : HttpClient) (line : StartLine) (rest : Bytes),
      client.request.urlData = [] → client.readBuffer.content = line.text rest →
        client.ParsesLine line rest := by
  intro hall
  have hcontent := content_holding ((getLine none nofun).text markedHeader) (by decide)
  have hmark : (getLine none nofun).MarkBehind markedHeader := by
    decide
  obtain ⟨len, next, hnext, -⟩ := hall _ _ _ rfl hcontent
  rw [parseRequestLine_throws hcontent hmark] at hnext
  cases hnext

end HttpClient

/-! ## Header fields -/

/-- A header field that stands on a line of its own. -/
structure HeaderField where
  key : Bytes
  value : Bytes
  key_nul : 0 ∉ key
  key_ctrl : ¬ httpCtrl <:+: key
  key_delim : ¬ httpHeaderDelim <:+: key
  value_nul : 0 ∉ value
  value_ctrl : ¬ httpCtrl <:+: value

def HeaderField.line (field : HeaderField) : Bytes :=
  field.key ++ httpHeaderDelim ++ field.value

def headerText (fields : List HeaderField) : Bytes :=
  (fields.map (fun field => field.line ++ httpCtrl)).flatten

def storeFields (header : SortedMap Bytes Bytes) (fields : List HeaderField) :
    SortedMap Bytes Bytes :=
  fields.foldl (fun header field => header.insert field.key field.value) header

theorem HeaderField.line_plain (field : HeaderField) :
    ¬ httpCtrl <:+: field.line := by
  intro hinside
  have hline : field.line = field.key ++ colon :: ([] ++ space :: field.value) := by
    simp [line, httpHeaderDelim]
  rw [hline] at hinside
  rcases pair_infix_cons (by decide) (by decide) hinside with hkey | hrest
  · exact field.key_ctrl hkey
  · rcases pair_infix_cons (by decide) (by decide) hrest with hnil | hvalue
    · simp at hnil
    · exact field.value_ctrl hvalue

/-- The last field with a key decides, and the header from before where there is
none. -/
theorem lookup_storeFields
    (header : SortedMap Bytes Bytes) (fields : List HeaderField) (key : Bytes) :
    (storeFields header fields).lookup key =
      ((fields.reverse.find? (fun field => field.key = key)).map HeaderField.value).or
        (header.lookup key) := by
  induction fields generalizing header with
  | nil => rfl
  | cons field fields ih =>
      have hrest := ih (header.insert field.key field.value)
      have hfold : storeFields header (field :: fields) =
          storeFields (header.insert field.key field.value) fields := rfl
      rw [hfold, hrest, List.reverse_cons, List.find?_append, SortedMap.lookup_insert]
      cases List.find? (fun field => field.key = key) fields.reverse with
      | some found => rfl
      | none =>
          by_cases hkey : field.key = key
          · rw [if_pos hkey.symm]
            simp [hkey]
          · rw [if_neg (fun heq => hkey heq.symm)]
            simp [hkey]

namespace HttpClient

theorem cStr_eq
    {text : Bytes}
    (hnul : 0 ∉ text) :
    cStr text = text := by
  unfold cStr
  rw [List.takeWhile_eq_self_iff]
  intro byte hbyte
  simp only [bne_iff_ne, ne_eq]
  rintro rfl
  exact hnul hbyte

def storeHeader (request : HttpRequest) (fields : List HeaderField) : HttpRequest :=
  { request with httpHeader := storeFields request.httpHeader fields }

theorem addHeader_field (request : HttpRequest) (field : HeaderField) :
    request.addHeader field.key field.value = storeHeader request [field] := by
  unfold HttpRequest.addHeader
  rw [cStr_eq field.key_nul, cStr_eq field.value_nul]
  rfl

/-- The client behind the header section. -/
structure HeaderRead (client : HttpClient) (request : HttpRequest) (left : Bytes)
    (next : HttpClient) : Prop where
  frame : next =
    { client with
      keepalive := next.keepalive
      request := request
      evtHandler := .processBody
      readBuffer := next.readBuffer }
  content : next.readBuffer.content = left
  size : next.readBuffer.size = client.readBuffer.size

/-- `Connection: Keep-Alive` -/
def AsksKeepalive (request : HttpRequest) : Prop :=
  request.getHeaderValue (ascii ['C', 'o', 'n', 'n', 'e', 'c', 't', 'i', 'o', 'n']) =
    ascii ['K', 'e', 'e', 'p', '-', 'A', 'l', 'i', 'v', 'e']

theorem parseHeaderLines_block
    {client current : HttpClient} {request : HttpRequest} {fields : List HeaderField}
    {rest : Bytes} {fuel : Nat} (len : Nat)
    (hcurrent : client.Advanced request (headerText fields ++ httpCtrl ++ rest) current)
    (hfuel : fields.length < fuel) :
    ∃ next, client.HeaderRead (storeHeader request fields) rest next ∧
      (next.keepalive = true ↔ AsksKeepalive (storeHeader request fields)) ∧
      parseHeaderLines client.readBuffer.getContentEnd fuel len current =
        some (((len + (headerText fields ++ httpCtrl).length : Nat) : Int), next) := by
  induction fields generalizing current request len fuel with
  | nil =>
      obtain ⟨fuel, rfl⟩ : ∃ more, fuel = more + 1 := Nat.exists_eq_add_one.mpr hfuel
      have hahead : current.readBuffer.ahead client.readBuffer.getContentEnd =
          [] ++ httpCtrl ++ rest := hcurrent.ahead
      have hlast := parseHeaderLines_last fuel len hcurrent.stop_le hahead (by decide) (by decide)
      refine ⟨(current.consumeBuffer 2).setKeepalive.finishParsingHeader,
        ⟨?_, ?_, hcurrent.size⟩, ?_, hlast⟩
      · rw [hcurrent.frame]
        rfl
      · have hcontent : current.readBuffer.content = httpCtrl ++ rest := hcurrent.content
        exact HttpReadBuffer.content_consumeBuffer hcontent
      · have hrequest : current.request = request := by
          rw [hcurrent.frame]
        unfold AsksKeepalive
        rw [← hrequest]
        exact decide_eq_true_iff
  | cons field fields ih =>
      obtain ⟨fuel, rfl⟩ : ∃ more, fuel = more + 1 :=
        Nat.exists_eq_add_one.mpr (Nat.zero_lt_of_lt hfuel)
      have hleft : headerText (field :: fields) ++ httpCtrl ++ rest =
          (field.line ++ httpCtrl) ++ (headerText fields ++ httpCtrl ++ rest) := by
        simp [headerText]
      have hnext := hcurrent.consume (storeHeader request [field]) hleft (by simp [httpCtrl])
      rw [List.length_append] at hnext
      obtain ⟨next, hread, hkeepalive, hparse⟩ :=
        ih (len + (field.line.length + 2)) hnext (Nat.lt_of_succ_lt_succ hfuel)
      have hahead := hcurrent.ahead
      rw [hleft] at hahead
      have hfield := parseHeaderLines_field fuel len hcurrent.stop_le hahead field.line_plain
        field.key_delim
      have hrequest : current.request = request := by
        rw [hcurrent.frame]
      rw [hrequest, addHeader_field] at hfield
      have hlength : len + (field.line.length + 2) + (headerText fields ++ httpCtrl).length =
          len + (headerText (field :: fields) ++ httpCtrl).length := by
        simp [headerText, httpCtrl]
        omega
      rw [hlength] at hparse
      exact ⟨next, hread, hkeepalive, hfield.trans hparse⟩

/-- A header section that stands in the buffer is parsed by one call, which returns
its length and leaves what is behind it. -/
theorem parseHeader_block
    {client : HttpClient} {fields : List HeaderField} {rest : Bytes} {fuel : Nat}
    (hcontent : client.readBuffer.content = headerText fields ++ httpCtrl ++ rest)
    (hfuel : fields.length < fuel) :
    ∃ next, client.parseHeader fuel =
        some (((headerText fields ++ httpCtrl).length : Int), next) ∧
      next.request = { client.request with httpHeader := next.request.httpHeader } ∧
      (∀ key, next.request.httpHeader.lookup key =
        ((fields.reverse.find? (fun field => field.key = key)).map HeaderField.value).or
          (client.request.httpHeader.lookup key)) ∧
      (next.keepalive = true ↔ AsksKeepalive next.request) ∧
      next.evtHandler = .processBody ∧ next.readBuffer.content = rest := by
  have hstart : client.Advanced client.request (headerText fields ++ httpCtrl ++ rest) client :=
    ⟨rfl, hcontent, rfl, rfl, rfl⟩
  obtain ⟨next, hread, hkeepalive, hparse⟩ := parseHeaderLines_block 0 hstart hfuel
  rw [Nat.zero_add] at hparse
  have hrequest : next.request = storeHeader client.request fields := by
    rw [hread.frame]
  have hhandler : next.evtHandler = .processBody := by
    rw [hread.frame]
  refine ⟨next, hparse, ?_, ?_, ?_, hhandler, hread.content⟩
  · rw [hrequest]
    rfl
  · intro key
    rw [hrequest]
    exact lookup_storeFields client.request.httpHeader fields key
  · rw [hrequest]
    exact hkeepalive

/-- `Connection: Keep-Alive` as a field. -/
def keepaliveField : HeaderField where
  key := ascii ['C', 'o', 'n', 'n', 'e', 'c', 't', 'i', 'o', 'n']
  value := ascii ['K', 'e', 'e', 'p', '-', 'A', 'l', 'i', 'v', 'e']
  key_nul := by decide
  key_ctrl := by decide
  key_delim := by decide
  value_nul := by decide
  value_ctrl := by decide

/-- `Connection: close` as a field. -/
def closeField : HeaderField where
  key := keepaliveField.key
  value := ascii ['c', 'l', 'o', 's', 'e']
  key_nul := by decide
  key_ctrl := by decide
  key_delim := by decide
  value_nul := by decide
  value_ctrl := by decide

/-- A body behind the header section. -/
def behindHeader : Bytes := ascii ['a', 'b', 'c']

theorem parseHeader_repeatedKey :
    ∃ next, (holding (headerText [closeField, keepaliveField] ++ httpCtrl ++ behindHeader)
        (by decide)).parseHeader 3 =
        some (((headerText [closeField, keepaliveField] ++ httpCtrl).length : Int), next) ∧
      next.request.httpHeader.lookup closeField.key = some keepaliveField.value ∧
      next.keepalive = true ∧ next.readBuffer.content = behindHeader := by
  obtain ⟨next, hparse, -, hlookup, hkeepalive, -, hleft⟩ :=
    @parseHeader_block _ [closeField, keepaliveField] behindHeader 3
      (content_holding _ (by decide)) (by decide)
  have hlast : next.request.httpHeader.lookup closeField.key = some keepaliveField.value := by
    rw [hlookup]
    rfl
  have hasks : AsksKeepalive next.request := by
    change (next.request.httpHeader.lookup closeField.key).getD [] = keepaliveField.value
    rw [hlast]
    rfl
  exact ⟨next, hparse, hlast, hkeepalive.mpr hasks, hleft⟩

end HttpClient

/-! ## Where the header section ends -/

/-- Lines, each with its end. -/
def lineText (lines : List Bytes) : Bytes :=
  (lines.map (· ++ httpCtrl)).flatten

/-- Header lines up to an empty line, or up to one that has not ended yet. -/
def Sectioned (content : Bytes) : Prop :=
  ∃ lines rest, (∀ line ∈ lines, FieldLine line) ∧ content = lineText lines ++ rest ∧
    ((∃ behind, rest = httpCtrl ++ behind) ∨ (¬ httpCtrl <:+: rest ∧ (rest ≠ [] ∨ lines = [])))

theorem lineText_cons (line : Bytes) (lines : List Bytes) :
    lineText (line :: lines) = line ++ httpCtrl ++ lineText lines := by
  simp [lineText]

theorem lineText_concat (lines : List Bytes) (line : Bytes) :
    lineText (lines ++ [line]) = lineText lines ++ line ++ httpCtrl := by
  simp [lineText]

theorem FieldLine.ne_nil
    {line : Bytes}
    (hline : FieldLine line) :
    line ≠ [] := by
  rintro rfl
  have hdelim := hline.2
  simp [httpHeaderDelim] at hdelim

/-- Header lines as far as they go: what is behind them starts with a line of
another kind, or with one that has not ended. -/
theorem exists_section (content : Bytes) :
    ∃ lines rest, (∀ line ∈ lines, FieldLine line) ∧ content = lineText lines ++ rest ∧
      (EndsHeader rest ∨ ¬ httpCtrl <:+: rest) := by
  induction hlength : content.length using Nat.strong_induction_on generalizing content with
  | _ length ih =>
      by_cases hctrl : httpCtrl <:+: content
      swap
      · exact ⟨[], content, nofun, rfl, .inr hctrl⟩
      obtain ⟨line, rest, heq, hline⟩ := exists_line hctrl
      by_cases hdelim : httpHeaderDelim <:+: line
      swap
      · exact ⟨[], content, nofun, rfl, .inl ⟨line, rest, heq, hline, hdelim⟩⟩
      have hshorter : rest.length < length := by
        rw [← hlength, heq]
        simp [httpCtrl]
        omega
      obtain ⟨lines, behind, hlines, hrest, hends⟩ := ih rest.length hshorter rest rfl
      refine ⟨line :: lines, behind, ?_, ?_, hends⟩
      · intro other hother
        rcases List.mem_cons.mp hother with rfl | hmem
        · exact ⟨hline, hdelim⟩
        · exact hlines other hmem
      · rw [heq, hrest, lineText_cons]
        simp [List.append_assoc]

theorem lineText_inside
    {lines others : List Bytes} {line : Bytes}
    (hctrl : ¬ httpCtrl <:+: line)
    (heq : lineText lines ++ line = lineText others) :
    line = [] := by
  by_contra hne
  have hothers : others ≠ [] := by
    rintro rfl
    exact hne (List.append_eq_nil_iff.mp heq).2
  obtain ⟨front, last, rfl⟩ : ∃ front last, others = front ++ [last] :=
    ⟨_, _, (List.dropLast_append_getLast hothers).symm⟩
  obtain ⟨start, byte, rfl⟩ : ∃ start byte, line = start ++ [byte] :=
    ⟨_, _, (List.dropLast_append_getLast hne).symm⟩
  have hends : (lineText lines ++ start) ++ [byte] =
      (lineText front ++ last ++ [carriageReturn]) ++ [lineFeed] := by
    rw [lineText_concat] at heq
    simpa [httpCtrl] using heq
  obtain ⟨hbefore, hbyte⟩ := List.append_inj' hends rfl
  by_cases hstart : start = []
  · subst hstart
    rw [List.append_nil] at hbefore
    have hlines : lines ≠ [] := by
      rintro rfl
      simp [lineText] at hbefore
    obtain ⟨early, late, rfl⟩ : ∃ early late, lines = early ++ [late] :=
      ⟨_, _, (List.dropLast_append_getLast hlines).symm⟩
    have hfeed : (lineText early ++ late ++ [carriageReturn]) ++ [lineFeed] =
        (lineText front ++ last) ++ [carriageReturn] := by
      rw [lineText_concat] at hbefore
      simpa [httpCtrl] using hbefore
    have hsame := (List.append_inj' hfeed rfl).2
    exact absurd hsame (by decide)
  · obtain ⟨begin, next, rfl⟩ : ∃ begin next, start = begin ++ [next] :=
      ⟨_, _, (List.dropLast_append_getLast hstart).symm⟩
    rw [← List.append_assoc] at hbefore
    have hnext := (List.append_inj' hbefore rfl).2
    refine hctrl ⟨begin, [], ?_⟩
    rw [hnext, hbyte]
    simp [httpCtrl]

namespace HttpClient

/-- One turn of the loop that comes to another line. -/
def nextLine (stop : Nat) (client : HttpClient) : Option HttpClient :=
  let memory := client.readBuffer.memory
  let start := client.readBuffer.getContentStart
  let lineEnd := search httpCtrl memory start stop
  if lineEnd = stop then none
  else
    let delim := search httpHeaderDelim memory start lineEnd
    let consumed := client.consumeBuffer (lineEnd - start + 2)
    if delim = lineEnd then none
    else some (consumed.setRequest (consumed.request.addHeader (slice memory start delim)
      (slice memory (delim + 2) lineEnd)))

theorem parseHeaderLines_eq (stop fuel len : Nat) (client : HttpClient) :
    (∃ (next : HttpClient) (sz : Nat), client.nextLine stop = some next ∧
      parseHeaderLines stop (fuel + 1) len client =
        parseHeaderLines stop fuel (len + sz) next) ∨
    (client.nextLine stop = none ∧
      ∃ result, parseHeaderLines stop (fuel + 1) len client = some result) := by
  unfold nextLine
  rw [parseHeaderLines]
  simp only
  split_ifs
  · exact .inr ⟨rfl, _, rfl⟩
  · exact .inr ⟨rfl, _, rfl⟩
  · exact .inl ⟨_, _, rfl, rfl⟩

theorem nextLine_eq_none
    {stop len : Nat} {client : HttpClient} {result : Int × HttpClient}
    (hresult : parseHeaderLines stop 1 len client = some result) :
    client.nextLine stop = none := by
  rcases parseHeaderLines_eq stop 0 len client with ⟨next, sz, -, heq⟩ | ⟨hnone, -⟩
  · rw [hresult] at heq
    cases heq
  · exact hnone

theorem nextLine_fieldLine
    {client : HttpClient} {stop : Nat} {line rest : Bytes}
    (hstop : stop ≤ client.readBuffer.memory.length)
    (hahead : client.readBuffer.ahead stop = line ++ httpCtrl ++ rest)
    (hline : FieldLine line) :
    ∃ request, client.nextLine stop =
      some ((client.setRequest request).consumeBuffer (line.length + 2)) := by
  obtain ⟨request, hfield⟩ := parseHeaderLines_fieldLine hstop hahead hline
  rcases parseHeaderLines_eq stop 0 0 client with ⟨next, sz, hnext, -⟩ | ⟨-, result, hresult⟩
  · obtain ⟨hsearch, -, -⟩ := search_line hstop hahead hline.1
    have hsize : search httpCtrl client.readBuffer.memory client.readBuffer.getContentStart stop -
        client.readBuffer.getContentStart = line.length := by
      rw [hsearch, Nat.add_sub_cancel_left]
    have hstep := hnext
    unfold nextLine at hstep
    simp only [hsize] at hstep
    split_ifs at hstep
    cases hstep
    exact ⟨client.request.addHeader _ _, hnext⟩
  · rw [hfield 0 0] at hresult
    cases hresult

/-- The turns of the loop from this one on. -/
inductive AtLine (stop : Nat) : HttpClient → HttpClient → Prop
  | here (client : HttpClient) : AtLine stop client client
  | later {client next head : HttpClient} (hnext : client.nextLine stop = some next)
      (hlater : AtLine stop next head) : AtLine stop client head

theorem parseHeaderLines_atLine
    {stop : Nat} {client head : HttpClient}
    (hhead : AtLine stop client head) (fuel : Nat) :
    ∃ fuel', ∀ len, ∃ len',
      parseHeaderLines stop fuel' len client = parseHeaderLines stop fuel len' head := by
  induction hhead with
  | here client => exact ⟨fuel, fun len => ⟨len, rfl⟩⟩
  | @later client next head hnext _ ih =>
      obtain ⟨fuel', hfuel⟩ := ih
      refine ⟨fuel' + 1, fun len => ?_⟩
      rcases parseHeaderLines_eq stop fuel' len client with ⟨other, sz, hother, heq⟩ | ⟨hnone, -⟩
      · rw [hnext] at hother
        cases hother
        obtain ⟨len', hlen⟩ := hfuel (len + sz)
        exact ⟨len', heq.trans hlen⟩
      · rw [hnext] at hnone
        cases hnone

theorem AtLine.returns
    {stop fuel len : Nat} {client head : HttpClient} {result : Int × HttpClient}
    (hhead : AtLine stop client head)
    (hresult : parseHeaderLines stop fuel len client = some result) :
    ∃ fuel' len', parseHeaderLines stop (fuel' + 1) len' head = some result := by
  induction hhead generalizing fuel len with
  | here client =>
      cases fuel with
      | zero => cases hresult
      | succ fuel => exact ⟨fuel, len, hresult⟩
  | @later client next head hnext _ ih =>
      cases fuel with
      | zero => cases hresult
      | succ fuel =>
          rcases parseHeaderLines_eq stop fuel len client with
            ⟨other, sz, hother, heq⟩ | ⟨hnone, -⟩
          · rw [hnext] at hother
            cases hother
            exact ih (heq.symm.trans hresult)
          · rw [hnext] at hnone
            cases hnone

/-- The section that `ParseHeader` takes for complete ends at the first empty line,
and no turn of its loop looks at bytes that have been consumed. -/
def SectionSound (client : HttpClient) : Prop :=
  (∀ (fuel : Nat) (ret : Int) (next : HttpClient), client.parseHeader fuel = some (ret, next) →
    next.evtHandler = .processBody →
      ∃ lines : List Bytes, (∀ line ∈ lines, line ≠ [] ∧ ¬ httpCtrl <:+: line) ∧
        client.readBuffer.content = lineText lines ++ httpCtrl ++ next.readBuffer.content) ∧
  ∀ head, AtLine client.readBuffer.getContentEnd client head →
    head.readBuffer.ahead client.readBuffer.getContentEnd = head.readBuffer.content

section Sections

variable {client current : HttpClient} {request : HttpRequest} {lines : List Bytes} {rest : Bytes}

theorem Advanced.fieldLine
    {line : Bytes}
    (hcurrent : client.Advanced request (line ++ httpCtrl ++ rest) current)
    (hline : FieldLine line)
    (hrest : rest ≠ []) :
    ∃ request' next, client.Advanced request' rest next ∧
      current.nextLine client.readBuffer.getContentEnd = some next := by
  obtain ⟨request', hnext⟩ := nextLine_fieldLine hcurrent.stop_le hcurrent.ahead hline
  have hadvanced := hcurrent.consume request' rfl hrest
  rw [List.length_append] at hadvanced
  exact ⟨request', _, hadvanced, hnext⟩

theorem Advanced.fieldLines
    (hcurrent : client.Advanced request (lineText lines ++ rest) current)
    (hlines : ∀ line ∈ lines, FieldLine line)
    (hrest : rest ≠ [] ∨ lines = []) :
    ∃ request' last, client.Advanced request' rest last ∧
      (∀ head, AtLine client.readBuffer.getContentEnd last head →
        AtLine client.readBuffer.getContentEnd current head) ∧
      ∀ head, AtLine client.readBuffer.getContentEnd current head →
        head.readBuffer.ahead client.readBuffer.getContentEnd = head.readBuffer.content ∨
          AtLine client.readBuffer.getContentEnd last head := by
  induction lines generalizing current request with
  | nil => exact ⟨request, current, hcurrent, fun _ h => h, fun _ h => .inr h⟩
  | cons line lines ih =>
      have hne : rest ≠ [] := hrest.resolve_right nofun
      rw [lineText_cons, List.append_assoc] at hcurrent
      obtain ⟨request', next, hnext, hstep⟩ :=
        hcurrent.fieldLine (hlines line List.mem_cons_self) (by simp [hne])
      obtain ⟨request'', last, hlast, hlater, hbefore⟩ :=
        ih hnext (fun other hother => hlines other (List.mem_cons_of_mem _ hother)) (.inl hne)
      refine ⟨request'', last, hlast, fun head hhead => .later hstep (hlater head hhead), ?_⟩
      intro head hhead
      cases hhead with
      | here => exact .inl (hcurrent.ahead.trans hcurrent.content.symm)
      | later hother hhead =>
          rw [hstep] at hother
          cases hother
          exact hbefore head hhead

theorem Advanced.ends
    {line : Bytes}
    (hlast : client.Advanced request (line ++ httpCtrl ++ rest) current)
    (hline : ¬ httpCtrl <:+: line)
    (hdelim : ¬ httpHeaderDelim <:+: line)
    (fuel len : Nat) :
    ∃ (ret : Int) (next : HttpClient),
      parseHeaderLines client.readBuffer.getContentEnd (fuel + 1) len current =
        some (ret, next) ∧
      next.evtHandler = .processBody ∧ next.readBuffer.content = rest :=
  ⟨_, _, parseHeaderLines_last fuel len hlast.stop_le hlast.ahead hline hdelim, rfl,
    content_afterLine hlast.content⟩

theorem Advanced.waits
    (hlast : client.Advanced request rest current)
    (hctrl : ¬ httpCtrl <:+: rest)
    (fuel len : Nat) :
    parseHeaderLines client.readBuffer.getContentEnd (fuel + 1) len current =
      some (1, current) := by
  refine parseHeaderLines_short fuel len ?_ hlast.stop_le ?_
  · exact current.readBuffer.start_le_end.trans hlast.stop.le
  · rwa [hlast.ahead]

theorem atLine_stopped
    {stop : Nat} {last head : HttpClient}
    (hnone : last.nextLine stop = none)
    (hhead : AtLine stop last head) :
    head = last := by
  cases hhead with
  | here => rfl
  | later hnext _ =>
      rw [hnone] at hnext
      cases hnext

theorem sectionSound_of_sectioned
    (hhandler : client.evtHandler = .processHeader)
    (hsection : Sectioned client.readBuffer.content) :
    client.SectionSound := by
  obtain ⟨lines, rest, hlines, hcontent, hends⟩ := hsection
  have hstart : client.Advanced client.request (lineText lines ++ rest) client :=
    ⟨rfl, hcontent, rfl, rfl, rfl⟩
  have hrest : rest ≠ [] ∨ lines = [] := by
    rcases hends with ⟨behind, rfl⟩ | ⟨-, hrest⟩
    · exact .inl (by simp [httpCtrl])
    · exact hrest
  obtain ⟨request, last, hlast, hlater, hbefore⟩ := hstart.fieldLines hlines hrest
  have hnone : last.nextLine client.readBuffer.getContentEnd = none := by
    rcases hends with ⟨behind, rfl⟩ | ⟨hctrl, -⟩
    · obtain ⟨ret, next, hparse, -⟩ :=
        @Advanced.ends _ _ _ _ [] hlast (by decide) (by decide) 0 0
      exact nextLine_eq_none hparse
    · exact nextLine_eq_none (hlast.waits hctrl 0 0)
  refine ⟨?_, ?_⟩
  · intro fuel ret next hparse hbody
    obtain ⟨fuel', len', hreturns⟩ := (hlater last (.here last)).returns hparse
    rcases hends with ⟨behind, rfl⟩ | ⟨hctrl, -⟩
    · obtain ⟨ret', next', hparse', -, hleft⟩ :=
        @Advanced.ends _ _ _ _ [] hlast (by decide) (by decide) fuel' len'
      rw [hreturns] at hparse'
      cases hparse'
      refine ⟨lines, fun line hline => ⟨(hlines line hline).ne_nil, (hlines line hline).1⟩, ?_⟩
      rw [hcontent, hleft, List.append_assoc]
    · rw [hlast.waits hctrl fuel' len'] at hreturns
      cases hreturns
      rw [hlast.frame] at hbody
      have hboth : client.evtHandler = .processBody := hbody
      rw [hhandler] at hboth
      cases hboth
  · intro head hhead
    rcases hbefore head hhead with hahead | hhead'
    · exact hahead
    · rw [atLine_stopped hnone hhead']
      exact hlast.ahead.trans hlast.content.symm

theorem not_sectionSound_of_line
    {line behind : Bytes}
    (hlines : ∀ line ∈ lines, FieldLine line)
    (hcontent : client.readBuffer.content = lineText lines ++ (line ++ httpCtrl ++ behind))
    (hline : ¬ httpCtrl <:+: line)
    (hdelim : ¬ httpHeaderDelim <:+: line)
    (hne : line ≠ []) :
    ¬ client.SectionSound := by
  rintro ⟨hsection, -⟩
  have hstart : client.Advanced client.request
      (lineText lines ++ (line ++ httpCtrl ++ behind)) client :=
    ⟨rfl, hcontent, rfl, rfl, rfl⟩
  obtain ⟨request, last, hlast, hlater, -⟩ :=
    hstart.fieldLines hlines (.inl (by simp [httpCtrl]))
  obtain ⟨fuel, hfuel⟩ := parseHeaderLines_atLine (hlater last (.here last)) 1
  obtain ⟨len, hlen⟩ := hfuel 0
  obtain ⟨ret, next, hparse, hbody, hleft⟩ := hlast.ends hline hdelim 0 len
  obtain ⟨others, -, heq⟩ := hsection fuel ret next (hlen.trans hparse) hbody
  refine hne (@lineText_inside lines others line hline ?_)
  rw [hleft, hcontent] at heq
  have hpair : (lineText lines ++ line) ++ (httpCtrl ++ behind) =
      lineText others ++ (httpCtrl ++ behind) := by
    simpa [List.append_assoc] using heq
  exact List.append_cancel_right hpair

theorem not_sectionSound_of_drained
    (hlines : ∀ line ∈ lines, FieldLine line)
    (hne : lines ≠ [])
    (hcontent : client.readBuffer.content = lineText lines) :
    ¬ client.SectionSound := by
  rintro ⟨-, hahead⟩
  obtain ⟨front, line, rfl⟩ : ∃ front last, lines = front ++ [last] :=
    ⟨_, _, (List.dropLast_append_getLast hne).symm⟩
  have hstart : client.Advanced client.request (lineText front ++ (line ++ httpCtrl)) client := by
    refine ⟨rfl, ?_, rfl, rfl, rfl⟩
    rw [hcontent, lineText_concat, List.append_assoc]
  obtain ⟨request, last, hlast, hlater, -⟩ := hstart.fieldLines
    (fun other hother => hlines other (List.mem_append_left _ hother))
    (.inl (by simp [httpCtrl]))
  have hfield : FieldLine line := hlines line (by simp)
  have hlast' : last.readBuffer.content = line ++ httpCtrl ++ [] := by
    rw [hlast.content, List.append_nil]
  obtain ⟨request', hnext⟩ := nextLine_fieldLine hlast.stop_le
    (hlast.ahead.trans (List.append_nil _).symm) hfield
  have hsame := hahead _ (hlater _ (.later hnext (.here _)))
  have hempty : (last.readBuffer.consumeBuffer (line.length + 2)).content = [] :=
    content_afterLine hlast'
  have hsize := curSize_of_line hlast'
  rw [List.length_nil, Nat.add_zero] at hsize
  have hwindow : (last.readBuffer.consumeBuffer (line.length + 2)).ahead
      client.readBuffer.getContentEnd = client.readBuffer.window := by
    rw [HttpReadBuffer.ahead_drained _ hsize.le, hlast.memory]
    rfl
  have hnil : client.readBuffer.window = [] := by
    rw [← hwindow, ← hempty]
    exact hsame
  have hcontent' : client.readBuffer.content = [] :=
    List.suffix_nil.mp (hnil ▸ client.readBuffer.content_suffix_window)
  rw [hcontent, lineText_concat] at hcontent'
  simp [httpCtrl] at hcontent'

/-- The section ends at the first empty line exactly when the header lines go on to an
empty line, or to a line that has not ended. -/
theorem sectionSound_iff
    (hhandler : client.evtHandler = .processHeader) :
    client.SectionSound ↔ Sectioned client.readBuffer.content := by
  constructor
  · intro hsound
    obtain ⟨lines, rest, hlines, hcontent, hends⟩ := exists_section client.readBuffer.content
    refine ⟨lines, rest, hlines, hcontent, ?_⟩
    rcases hends with ⟨line, behind, rfl, hline, hdelim⟩ | hctrl
    · left
      by_cases hne : line = []
      · exact ⟨behind, by rw [hne, List.nil_append]⟩
      · exact absurd hsound (not_sectionSound_of_line hlines hcontent hline hdelim hne)
    · refine .inr ⟨hctrl, ?_⟩
      by_contra hdrained
      push Not at hdrained
      rw [hdrained.1, List.append_nil] at hcontent
      exact not_sectionSound_of_drained hlines hdrained.2 hcontent hsound
  · exact sectionSound_of_sectioned hhandler

end Sections

/-- A client with these bytes where the header is expected. -/
def atHeader (bytes : Bytes) (hfits : bytes.length ≤ 8 * 1024) : HttpClient :=
  { holding bytes hfits with evtHandler := .processHeader }

/-- A line without a delimiter, and the empty line. -/
def plainLine : Bytes :=
  ascii ['a', 'b', 'c', '\r', '\n', '\r', '\n']

theorem sectionSound_repeatedKey :
    (atHeader (lineText [closeField.line, keepaliveField.line] ++ (httpCtrl ++ behindHeader))
      (by decide)).SectionSound := by
  refine (sectionSound_iff rfl).mpr ⟨[closeField.line, keepaliveField.line],
    httpCtrl ++ behindHeader, ?_, content_holding _ (by decide), .inl ⟨behindHeader, rfl⟩⟩
  intro line hline
  rcases List.mem_pair.mp hline with rfl | rfl
  · exact ⟨closeField.line_plain, by decide⟩
  · exact ⟨keepaliveField.line_plain, by decide⟩

/-- The line `abc` ends the header. -/
theorem not_sectionSound_plainLine :
    ¬ ∀ client : HttpClient, client.evtHandler = .processHeader → client.SectionSound := by
  intro hall
  have hcontent : (atHeader plainLine (by decide)).readBuffer.content =
      lineText [] ++ (ascii ['a', 'b', 'c'] ++ httpCtrl ++ httpCtrl) :=
    content_holding plainLine (by decide)
  have hlines : ∀ line ∈ ([] : List Bytes), FieldLine line := nofun
  exact not_sectionSound_of_line hlines hcontent (by decide) (by decide) nofun
    (hall (atHeader plainLine (by decide)) rfl)

end HttpClient

end BackEndFacility
