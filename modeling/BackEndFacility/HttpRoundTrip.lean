import BackEndFacility.HttpHead
import BackEndFacility.HttpReuse
import BackEndFacility.HttpSerialize
import BackEndFacility.Numeral

/-!
# Reading a header back

Requests and responses have the form of their header sections in common, so what
`GenerateResponse` writes behind its status line can be read by `ParseHeader`.  The
header and the body come back as they were just when no entry breaks a line or holds
a delimiter in its key, and of this kind are all entries that `ParseHeader` stores.
-/

namespace BackEndFacility

/-! ## Ranges up to a pattern -/

section Ranges

variable {α : Type*}

theorem slice_suffix {memory : List α} {first other last : Nat} (hle : first ≤ other) :
    slice memory other last <:+ slice memory first last := by
  unfold slice
  rw [← Nat.add_sub_of_le hle, ← List.drop_drop]
  exact List.drop_suffix _ _

variable [DecidableEq α]

theorem not_infix_take_indexOf {pattern : List α} (hne : pattern ≠ []) (cells : List α) :
    ¬ pattern <:+: cells.take (indexOf pattern cells) := by
  induction cells with
  | nil =>
      intro hinside
      rw [List.take_nil, List.infix_nil] at hinside
      exact hne hinside
  | cons cell cells ih =>
      unfold indexOf
      split
      · intro hinside
        rw [List.take_zero, List.infix_nil] at hinside
        exact hne hinside
      · rename_i hfront
        intro hinside
        rw [List.take_succ_cons] at hinside
        rcases List.infix_cons_iff.mp hinside with hhead | htail
        · have hwhole : cell :: cells.take (indexOf pattern cells) <+: cell :: cells :=
            List.cons_prefix_cons.mpr ⟨rfl, List.take_prefix _ _⟩
          exact hfront (List.isPrefixOf_iff_prefix.mpr (hhead.trans hwhole))
        · exact ih htail

theorem slice_search (pattern memory : List α) (first last : Nat) :
    slice memory first (search pattern memory first last) =
      (slice memory first last).take (indexOf pattern (slice memory first last)) := by
  have hle := indexOf_le pattern (slice memory first last)
  have hleft := slice_left (List.take_append_drop
    (indexOf pattern (slice memory first last)) (slice memory first last)).symm
  rw [List.length_take, min_eq_left hle] at hleft
  exact hleft

theorem slice_search_prefix (pattern memory : List α) (first last : Nat) :
    slice memory first (search pattern memory first last) <+: slice memory first last := by
  rw [slice_search]
  exact List.take_prefix _ _

theorem not_infix_slice_search {pattern : List α} (hne : pattern ≠ []) (memory : List α)
    (first last : Nat) :
    ¬ pattern <:+: slice memory first (search pattern memory first last) := by
  rw [slice_search]
  exact not_infix_take_indexOf hne _

theorem append_pair_inj {a b : α} {u u' v v' : List α} (hne : a ≠ b)
    (hu : ¬ [a, b] <:+: u) (hu' : ¬ [a, b] <:+: u')
    (heq : u ++ a :: b :: v = u' ++ a :: b :: v') : u = u' ∧ v = v' := by
  have hlength : u.length = u'.length := by
    rw [← indexOf_pair hne hu, heq, indexOf_pair hne hu']
  obtain ⟨hfront, hrest⟩ := List.append_inj heq hlength
  simp only [List.cons.injEq, true_and] at hrest
  exact ⟨hfront, hrest⟩

end Ranges

/-! ## Entries that keep to their line -/

/-- A header entry that stands on one line and is split where it was joined. -/
structure PlainEntry (entry : Bytes × Bytes) : Prop where
  key_nul : 0 ∉ entry.1
  key_ctrl : ¬ httpCtrl <:+: entry.1
  key_delim : ¬ httpHeaderDelim <:+: entry.1
  value_nul : 0 ∉ entry.2
  value_ctrl : ¬ httpCtrl <:+: entry.2

abbrev Plain (header : SortedMap Bytes Bytes) : Prop :=
  ∀ entry ∈ header.entries, PlainEntry entry

theorem plain_empty : Plain .empty := by
  intro entry hentry
  cases hentry

def PlainEntry.field {entry : Bytes × Bytes} (hplain : PlainEntry entry) : HeaderField where
  key := entry.1
  value := entry.2
  key_nul := hplain.key_nul
  key_ctrl := hplain.key_ctrl
  key_delim := hplain.key_delim
  value_nul := hplain.value_nul
  value_ctrl := hplain.value_ctrl

def fieldsOf (header : SortedMap Bytes Bytes) (hplain : Plain header) : List HeaderField :=
  header.entries.pmap (fun _ hentry => hentry.field) hplain

theorem headerText_fieldsOf {header : SortedMap Bytes Bytes} (hplain : Plain header) :
    headerText (fieldsOf header hplain) = HttpResponse.fieldText header.entries := by
  have hlines : header.entries.pmap (fun _ hentry => hentry.field.line ++ httpCtrl) hplain =
      header.entries.map fun entry => entry.1 ++ httpHeaderDelim ++ entry.2 ++ httpCtrl :=
    @List.pmap_eq_map _ _ PlainEntry
      (fun entry => entry.1 ++ httpHeaderDelim ++ entry.2 ++ httpCtrl) _ hplain
  unfold headerText HttpResponse.fieldText fieldsOf
  rw [List.map_pmap, hlines]

theorem mem_fieldsOf {header : SortedMap Bytes Bytes} {hplain : Plain header}
    {field : HeaderField} :
    field ∈ fieldsOf header hplain ↔ (field.key, field.value) ∈ header.entries := by
  unfold fieldsOf
  rw [List.mem_pmap]
  constructor
  · rintro ⟨entry, hentry, rfl⟩
    exact hentry
  · intro hentry
    exact ⟨(field.key, field.value), hentry, rfl⟩

theorem storeFields_fieldsOf {header : SortedMap Bytes Bytes} (hplain : Plain header) :
    storeFields .empty (fieldsOf header hplain) = header := by
  apply SortedMap.ext
  intro key
  rw [lookup_storeFields, SortedMap.lookup_empty, Option.or_none]
  cases hfind : (fieldsOf header hplain).reverse.find? (fun field => field.key = key) with
  | some field =>
      have hkey : field.key = key := by simpa using List.find?_some hfind
      have hmem := List.mem_reverse.mp (List.mem_of_find?_eq_some hfind)
      rw [Option.map_some, eq_comm, SortedMap.lookup_eq_some_iff, ← hkey]
      exact mem_fieldsOf.mp hmem
  | none =>
      rw [Option.map_none, eq_comm, Option.eq_none_iff_forall_not_mem]
      intro value hvalue
      have hentry := SortedMap.lookup_eq_some_iff.mp hvalue
      have hmem : (hplain _ hentry).field ∈ (fieldsOf header hplain).reverse :=
        List.mem_reverse.mpr (mem_fieldsOf.mpr hentry)
      exact List.find?_eq_none.mp hfind _ hmem (by simp [PlainEntry.field])

/-! ## What `ParseHeader` stores -/

namespace HttpClient

theorem plain_addHeader {request : HttpRequest} {key value : Bytes}
    (hplain : Plain request.httpHeader) (hkey : ¬ httpCtrl <:+: key)
    (hdelim : ¬ httpHeaderDelim <:+: key) (hvalue : ¬ httpCtrl <:+: value) :
    Plain (request.addHeader key value).httpHeader := by
  have hfront : ∀ text : Bytes, cStr text <:+: text := fun text =>
    (List.takeWhile_prefix _).isInfix
  have hnul : ∀ text : Bytes, 0 ∉ cStr text := by
    intro text hmem
    simpa using List.mem_takeWhile_imp hmem
  intro entry hentry
  rcases SortedMap.mem_insertEntry hentry with rfl | hold
  · exact ⟨hnul key, fun hctrl => hkey (hctrl.trans (hfront key)),
      fun hinside => hdelim (hinside.trans (hfront key)), hnul value,
      fun hctrl => hvalue (hctrl.trans (hfront value))⟩
  · exact hplain entry hold

/-- Whatever comes in, the lines are cut before the first `"\r\n"` and the keys before the
first `": "`. -/
theorem parseHeaderLines_plain {stop fuel len : Nat} {client next : HttpClient} {ret : Int}
    (hplain : Plain client.request.httpHeader)
    (hparse : parseHeaderLines stop fuel len client = some (ret, next)) :
    Plain next.request.httpHeader := by
  induction fuel generalizing len client with
  | zero => cases hparse
  | succ fuel ih =>
      rw [parseHeaderLines] at hparse
      simp only at hparse
      split_ifs at hparse with hshort hlast
      · cases hparse
        exact hplain
      · cases hparse
        exact hplain
      · refine ih ?_ hparse
        generalize client.readBuffer.memory = memory at *
        generalize client.readBuffer.getContentStart = start at *
        have hline := not_infix_slice_search (by decide : httpCtrl ≠ []) memory start stop
        generalize search httpCtrl memory start stop = lineEnd at *
        have hkey := slice_search_prefix httpHeaderDelim memory start lineEnd
        have hdelim := not_infix_slice_search (by decide : httpHeaderDelim ≠ []) memory start
          lineEnd
        have hvalue : slice memory (search httpHeaderDelim memory start lineEnd + 2) lineEnd <:+
            slice memory start lineEnd :=
          slice_suffix (Nat.le_add_right_of_le (le_search _ _ _ _))
        exact plain_addHeader hplain (fun hctrl => hline (hctrl.trans hkey.isInfix)) hdelim
          fun hctrl => hline (hctrl.trans hvalue.isInfix)

theorem parseHeader_plain {fuel : Nat} {client next : HttpClient} {ret : Int}
    (hplain : Plain client.request.httpHeader)
    (hparse : client.parseHeader fuel = some (ret, next)) : Plain next.request.httpHeader :=
  parseHeaderLines_plain hplain hparse

end HttpClient

/-! ## The round trip -/

/-- The line in front of the headers. -/
def HttpResponse.statusLine (response : HttpResponse) : Bytes :=
  response.statusText ++ response.statusMsg ++ httpCtrl

theorem HttpResponse.wireText_eq (response : HttpResponse) :
    response.wireText = response.statusLine ++
      (fieldText response.httpHeader.entries ++ httpCtrl ++ response.httpBody) := by
  unfold wireText headText statusLine
  simp only [List.append_assoc]

theorem HttpResponse.generateResponse_written {response : HttpResponse} {size : Nat}
    (hwritten : response.generateResponse size ≠ []) :
    response.generateResponse size = response.wireText := by
  rw [generateResponse_eq] at hwritten ⊢
  split_ifs at hwritten ⊢
  · rfl
  · exact absurd rfl hwritten

namespace HttpClient

/-- `ParseHeader` comes to the end of the header, and both the header and what it leaves
in the buffer are those of the response. -/
def ReadsBack (client : HttpClient) (response : HttpResponse) : Prop :=
  ∃ fuel len next, client.parseHeader fuel = some (len, next) ∧
    next.evtHandler = .processBody ∧ next.request.httpHeader = response.httpHeader ∧
    next.readBuffer.content = response.httpBody

/-- Sent to a client that expects a header, what stands behind the status line gives the
header and the body back just when no key and no value breaks its line and no key holds
a delimiter. -/
theorem readsBack_iff_plain (response : HttpResponse) (size : Nat) (client : HttpClient)
    (hwritten : response.generateResponse size ≠ [])
    (hempty : client.request.httpHeader = .empty)
    (hcontent : client.readBuffer.content =
      (response.generateResponse size).drop response.statusLine.length) :
    client.ReadsBack response ↔ Plain response.httpHeader := by
  constructor
  · rintro ⟨fuel, len, next, hparse, -, hheader, -⟩
    rw [← hheader]
    apply parseHeader_plain _ hparse
    rw [hempty]
    exact plain_empty
  · intro hplain
    have hblock : client.readBuffer.content =
        headerText (fieldsOf response.httpHeader hplain) ++ httpCtrl ++ response.httpBody := by
      rw [hcontent, HttpResponse.generateResponse_written hwritten, HttpResponse.wireText_eq,
        List.drop_left, headerText_fieldsOf hplain]
    have hstart : client.Advanced client.request
        (headerText (fieldsOf response.httpHeader hplain) ++ httpCtrl ++ response.httpBody)
        client := ⟨rfl, hblock, rfl, rfl, rfl⟩
    obtain ⟨next, hread, -, hparse⟩ := parseHeaderLines_block 0 hstart (Nat.lt_succ_self _)
    refine ⟨_, _, next, hparse, ?_, ?_, hread.content⟩
    · rw [hread.frame]
    · rw [hread.frame]
      change storeFields client.request.httpHeader _ = _
      rw [hempty, storeFields_fieldsOf]

/-- One header and a body. -/
def keepaliveResponse : HttpResponse where
  response := false
  closeConn := false
  msgLen := 0
  statusCode := 200
  statusMsg := ascii ['O', 'K']
  httpBody := ascii ['b', 'o', 'd', 'y']
  httpHeader := .insert .empty keepaliveField.key keepaliveField.value

theorem readsBack_keepalive :
    Plain keepaliveResponse.httpHeader ∧
      (atHeader ((keepaliveResponse.generateResponse 64).drop
        keepaliveResponse.statusLine.length) (by decide)).ReadsBack keepaliveResponse := by
  have hplain : Plain keepaliveResponse.httpHeader := by
    intro entry hentry
    rw [List.mem_singleton.mp hentry]
    exact ⟨keepaliveField.key_nul, keepaliveField.key_ctrl, keepaliveField.key_delim,
      keepaliveField.value_nul, keepaliveField.value_ctrl⟩
  refine ⟨hplain, (readsBack_iff_plain keepaliveResponse 64 _ (by decide) rfl ?_).mpr hplain⟩
  exact content_holding _ (by decide)

end HttpClient

/-! ## What a text says -/

namespace HttpResponse

theorem mem_decimal {value : Int} {byte : UInt8} (hmem : byte ∈ decimal value) :
    byte = 45 ∨ 48 ≤ byte.toNat := by
  rcases List.mem_append.mp hmem with hsign | hdigits
  · split_ifs at hsign
    · exact .inl (List.mem_singleton.mp hsign)
    · cases hsign
  · have hnumeral : byte ∈ numeral 10 decimalDigit value.natAbs := by
      rw [← toDigits_eq_numeral]
      exact hdigits
    obtain ⟨d, hd, rfl⟩ := mem_numeral (by norm_num) hnumeral
    rw [decimalDigit_toNat hd]
    exact .inr (Nat.le_add_right _ _)

theorem decimal_inj {first second : Int} (heq : decimal first = decimal second) :
    first = second := by
  have hread : ∀ n : Nat, numeralValue 10 (fun byte : UInt8 => byte.toNat - 48)
      (ascii (Nat.toDigits 10 n)) = n := by
    intro n
    have hvalue : ∀ d < 10, (decimalDigit d).toNat - 48 = d := by
      intro d hd
      rw [decimalDigit_toNat hd]
      omega
    unfold ascii
    rw [toDigits_eq_numeral]
    exact numeralValue_numeral hvalue (by norm_num) n
  have hsign : ∀ n : Nat, (45 : UInt8) ∉ ascii (Nat.toDigits 10 n) := by
    intro n hmem
    unfold ascii at hmem
    rw [toDigits_eq_numeral] at hmem
    obtain ⟨d, hd, hdigit⟩ := mem_numeral (by norm_num) hmem
    have hnat := congrArg UInt8.toNat hdigit
    rw [decimalDigit_toNat hd] at hnat
    change 45 = 48 + d at hnat
    omega
  unfold decimal at heq
  by_cases hfirst : first < 0
  · by_cases hsecond : second < 0
    · rw [if_pos hfirst, if_pos hsecond, List.append_cancel_left_eq] at heq
      have hsame := hread first.natAbs
      rw [heq, hread] at hsame
      omega
    · rw [if_pos hfirst, if_neg hsecond, List.nil_append] at heq
      exact absurd (heq ▸ List.mem_append_left _ (List.mem_singleton.mpr rfl)) (hsign _)
  · by_cases hsecond : second < 0
    · rw [if_neg hfirst, if_pos hsecond, List.nil_append] at heq
      exact absurd (heq ▸ List.mem_append_left _ (List.mem_singleton.mpr rfl)) (hsign _)
    · rw [if_neg hfirst, if_neg hsecond, List.nil_append, List.nil_append] at heq
      have hsame := hread first.natAbs
      rw [heq, hread] at hsame
      omega

theorem fieldText_inj {first second : List (Bytes × Bytes)} {body body' : Bytes}
    (hfirst : ∀ entry ∈ first, PlainEntry entry)
    (hsecond : ∀ entry ∈ second, PlainEntry entry)
    (heq : fieldText first ++ httpCtrl ++ body = fieldText second ++ httpCtrl ++ body') :
    first = second ∧ body = body' := by
  have hctrl : carriageReturn ≠ lineFeed := by decide
  have hdelim : colon ≠ space := by decide
  have hnil : ¬ httpCtrl <:+: ([] : Bytes) := by decide
  have hline : ∀ {entry : Bytes × Bytes}, PlainEntry entry →
      ¬ httpCtrl <:+: entry.1 ++ httpHeaderDelim ++ entry.2 := fun hplain =>
    hplain.field.line_plain
  have hcons : ∀ (entry : Bytes × Bytes) (rest : List (Bytes × Bytes)) (body : Bytes),
      fieldText (entry :: rest) ++ httpCtrl ++ body =
        (entry.1 ++ httpHeaderDelim ++ entry.2) ++ carriageReturn :: lineFeed ::
          (fieldText rest ++ httpCtrl ++ body) := by
    intro entry rest body
    rw [fieldText_cons]
    simp [httpCtrl]
  have hend : ∀ body : Bytes, fieldText [] ++ httpCtrl ++ body =
      [] ++ carriageReturn :: lineFeed :: body := fun _ => rfl
  induction first generalizing second with
  | nil =>
      cases second with
      | nil =>
          rw [hend, hend] at heq
          exact ⟨rfl, (append_pair_inj hctrl hnil hnil heq).2⟩
      | cons entry rest =>
          rw [hend, hcons] at heq
          have hempty := (append_pair_inj hctrl hnil
            (hline (hsecond entry List.mem_cons_self)) heq).1
          simp [httpHeaderDelim] at hempty
  | cons entry rest ih =>
      have hentry := hline (hfirst entry List.mem_cons_self)
      cases second with
      | nil =>
          rw [hend, hcons] at heq
          have hempty := (append_pair_inj hctrl hentry hnil heq).1
          simp [httpHeaderDelim] at hempty
      | cons other others =>
          rw [hcons, hcons] at heq
          have hother := hsecond other List.mem_cons_self
          obtain ⟨hsame, hrest⟩ := append_pair_inj hctrl hentry (hline hother) heq
          obtain ⟨hkey, hvalue⟩ : entry.1 = other.1 ∧ entry.2 = other.2 := by
            apply append_pair_inj hdelim (hfirst entry List.mem_cons_self).key_delim
              hother.key_delim
            simpa [httpHeaderDelim] using hsame
          obtain ⟨rfl, hbody⟩ := ih (fun entry hmem => hfirst entry (List.mem_cons_of_mem _ hmem))
            (fun entry hmem => hsecond entry (List.mem_cons_of_mem _ hmem)) hrest
          exact ⟨by rw [Prod.ext hkey hvalue], hbody⟩

theorem statusText_plain {response : HttpResponse}
    (hmsg : ¬ httpCtrl <:+: response.statusMsg) :
    ¬ httpCtrl <:+: response.statusText ++ response.statusMsg := by
  intro hinside
  unfold statusText at hinside
  rw [List.append_assoc, List.singleton_append] at hinside
  rcases pair_infix_cons (by decide) (by decide) hinside with hfront | hbehind
  · have hreturn : carriageReturn ∈
        ascii ['H', 'T', 'T', 'P', '/', '1', '.', '1', ' '] ++ decimal response.statusCode :=
      hfront.subset List.mem_cons_self
    rcases List.mem_append.mp hreturn with hname | hcode
    · exact absurd hname (by decide)
    · rcases mem_decimal hcode with hsign | hdigit
      · exact absurd hsign (by decide)
      · exact absurd hdigit (by decide)
  · exact hmsg hbehind

/-- Two responses that are written as the same text are the same: their codes, their
messages, their headers and their bodies. -/
theorem generateResponse_inj (first second : HttpResponse) (size size' : Nat)
    (hwritten : first.generateResponse size ≠ [])
    (hfirst : Plain first.httpHeader) (hsecond : Plain second.httpHeader)
    (hmsg : ¬ httpCtrl <:+: first.statusMsg) (hmsg' : ¬ httpCtrl <:+: second.statusMsg)
    (heq : first.generateResponse size = second.generateResponse size') :
    first.statusCode = second.statusCode ∧ first.statusMsg = second.statusMsg ∧
      first.httpHeader = second.httpHeader ∧ first.httpBody = second.httpBody := by
  have hwritten' : second.generateResponse size' ≠ [] := heq ▸ hwritten
  rw [generateResponse_written hwritten, generateResponse_written hwritten', wireText_eq,
    wireText_eq] at heq
  have hlines : (first.statusText ++ first.statusMsg) ++ carriageReturn :: lineFeed ::
      (fieldText first.httpHeader.entries ++ httpCtrl ++ first.httpBody) =
      (second.statusText ++ second.statusMsg) ++ carriageReturn :: lineFeed ::
      (fieldText second.httpHeader.entries ++ httpCtrl ++ second.httpBody) := by
    simpa [statusLine, httpCtrl] using heq
  obtain ⟨hstatus, hrest⟩ := append_pair_inj (by decide) (statusText_plain hmsg)
    (statusText_plain hmsg') hlines
  obtain ⟨hentries, hbody⟩ := fieldText_inj hfirst hsecond hrest
  have hspace : ∀ code : Int, space ∉ decimal code := by
    intro code hmem
    rcases mem_decimal hmem with hsign | hdigit
    · exact absurd hsign (by decide)
    · exact absurd hdigit (by decide)
  have hcodes : decimal first.statusCode ++ space :: first.statusMsg =
      decimal second.statusCode ++ space :: second.statusMsg := by
    unfold statusText at hstatus
    simpa only [List.append_assoc, List.append_cancel_left_eq, List.singleton_append]
      using hstatus
  obtain ⟨hcode, hmessage⟩ := append_cons_inj (hspace _) (hspace _) hcodes
  have hheader : first.httpHeader = second.httpHeader := by
    apply SortedMap.ext
    intro key
    unfold SortedMap.lookup
    rw [hentries]
  exact ⟨decimal_inj hcode, hmessage, hheader, hbody⟩

theorem plain_keepalive : Plain HttpClient.keepaliveResponse.httpHeader := by
  intro entry hentry
  obtain rfl := List.mem_singleton.mp hentry
  exact ⟨by decide, by decide, by decide, by decide, by decide⟩

/-- The same response in a larger buffer. -/
theorem generateResponse_inj_keepalive :
    HttpClient.keepaliveResponse.httpHeader =
      { HttpClient.keepaliveResponse with msgLen := 9 }.httpHeader :=
  (generateResponse_inj HttpClient.keepaliveResponse
    { HttpClient.keepaliveResponse with msgLen := 9 } 64 256 (by decide) plain_keepalive
    plain_keepalive (by decide) (by decide) (by decide)).2.2.1

end HttpResponse
end BackEndFacility
