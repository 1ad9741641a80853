import BackEndFacility.Arena
import BackEndFacility.HttpMessage

/-!
# Writing a response into a buffer

`HttpResponse::GenerateResponse` copies its pieces one behind the other, most of
them with the NUL that ends them, and checks the room before each copy but one.
The bytes that the return value counts are those of `generateResponse`; this
module adds the memory they are copied to.
-/

namespace BackEndFacility

/-- `HttpStatusCode` -/
inductive HttpStatusCode
  | hscUnknown
  | hsc200
  | hsc400
  | hsc401
  | hsc403
  | hsc404
  | hsc500
  | hsc503
deriving DecidableEq

def HttpStatusCode.value : HttpStatusCode → Int
  | .hscUnknown => 0
  | .hsc200 => 200
  | .hsc400 => 400
  | .hsc401 => 401
  | .hsc403 => 403
  | .hsc404 => 404
  | .hsc500 => 500
  | .hsc503 => 503

namespace HttpResponse

/-- `"HTTP/1.1 %d "` -/
def statusText (response : HttpResponse) : Bytes :=
  ascii ['H', 'T', 'T', 'P', '/', '1', '.', '1', ' '] ++ decimal response.statusCode ++ [space]

/-- The loop over the headers; no length when it runs into `return false`. -/
def copyHeaders (size : Nat) : List (Bytes × Bytes) → Nat → Arena UInt8 →
    Option Nat × Arena UInt8
  | [], sz, buffer => (some sz, buffer)
  | (key, value) :: rest, sz, buffer =>
      if size ≤ sz + key.length + 1 then (none, buffer)
      else
        let buffer := buffer.copy sz (key ++ [0])
        let sz := sz + key.length
        if size < sz + 3 then (none, buffer)
        else
          let buffer := buffer.copy sz (httpHeaderDelim ++ [0])
          let sz := sz + 2
          if size ≤ sz + value.length + 3 then (none, buffer)
          else
            let buffer := buffer.copy sz (value ++ [0])
            let buffer := buffer.copy (sz + value.length) (httpCtrl ++ [0])
            copyHeaders size rest (sz + value.length + 2) buffer

/-- `GenerateResponse` behind the headers. -/
def copyBody (response : HttpResponse) (size sz : Nat) (buffer : Arena UInt8) :
    Nat × Arena UInt8 :=
  let buffer := buffer.copy sz (httpCtrl ++ [0])
  let sz := sz + 2
  if size ≤ sz + response.httpBody.length + 1 then (0, buffer)
  else (sz + response.httpBody.length, buffer.copy sz (response.httpBody ++ [0]))

/-- `GenerateResponse`: the value it returns and the memory it leaves. -/
def generateResponseInto (response : HttpResponse) (buffer : Arena UInt8) (size : Nat) :
    Nat × Arena UInt8 :=
  let buffer := buffer.snprintf 0 32 response.statusText
  let sz := response.statusText.length
  let tmp := response.statusMsg.length
  if size ≤ tmp + sz + 2 then (0, buffer)
  else
    let buffer := buffer.copy sz (response.statusMsg ++ [0])
    let buffer := buffer.strcat httpCtrl
    match copyHeaders size response.httpHeader.entries (sz + (tmp + 2)) buffer with
    | (none, buffer) => (0, buffer)
    | (some sz, buffer) => response.copyBody size sz buffer

/-! ## What is written -/

/-- The lines of the headers. -/
def fieldText (entries : List (Bytes × Bytes)) : Bytes :=
  (entries.map fun entry => entry.1 ++ httpHeaderDelim ++ entry.2 ++ httpCtrl).flatten

/-- The status line and the headers. -/
def headText (response : HttpResponse) : Bytes :=
  response.statusText ++ response.statusMsg ++ httpCtrl ++
    fieldText response.httpHeader.entries

/-- The response as it goes over the wire. -/
def wireText (response : HttpResponse) : Bytes :=
  response.headText ++ httpCtrl ++ response.httpBody

theorem fieldText_cons (key value : Bytes) (rest : List (Bytes × Bytes)) :
    fieldText ((key, value) :: rest) =
      key ++ httpHeaderDelim ++ value ++ httpCtrl ++ fieldText rest := rfl

theorem httpCtrl_length : httpCtrl.length = 2 := rfl

theorem httpHeaderDelim_length : httpHeaderDelim.length = 2 := rfl

theorem fieldText_cons_length (key value : Bytes) (rest : List (Bytes × Bytes)) :
    (fieldText ((key, value) :: rest)).length =
      key.length + 2 + value.length + 2 + (fieldText rest).length := by
  rw [fieldText_cons]
  simp only [List.length_append, httpCtrl_length, httpHeaderDelim_length]

/-- Headers that the loop copies behind a text of this length. -/
def HeadersFit (size : Nat) (entries : List (Bytes × Bytes)) (sz : Nat) : Prop :=
  entries = [] ∨ sz + (fieldText entries).length + 1 < size

instance decidableHeadersFit (size : Nat) (entries : List (Bytes × Bytes)) (sz : Nat) :
    Decidable (HeadersFit size entries sz) :=
  inferInstanceAs (Decidable (entries = [] ∨ sz + (fieldText entries).length + 1 < size))

theorem headersFit_cons
    {size sz : Nat} {key value : Bytes} {rest : List (Bytes × Bytes)} :
    HeadersFit size ((key, value) :: rest) sz ↔
      sz + key.length + 2 + value.length + 3 < size ∧
        HeadersFit size rest (sz + key.length + 2 + value.length + 2) := by
  have hlength := fieldText_cons_length key value rest
  unfold HeadersFit
  constructor
  · rintro (hnil | hless)
    · exact absurd hnil (List.cons_ne_nil _ _)
    · exact ⟨by omega, .inr (by omega)⟩
  · rintro ⟨hvalue, rfl | hless⟩
    · have hnil : (fieldText ([] : List (Bytes × Bytes))).length = 0 := rfl
      exact .inr (by omega)
    · exact .inr (by omega)

theorem writeHeaders_eq (size : Nat) (entries : List (Bytes × Bytes)) (text : Bytes) :
    writeHeaders size entries text =
      if HeadersFit size entries text.length then some (text ++ fieldText entries) else none := by
  induction entries generalizing text with
  | nil =>
      rw [if_pos (.inl rfl)]
      exact congrArg some (List.append_nil text).symm
  | cons entry rest ih =>
      obtain ⟨key, value⟩ := entry
      have htext : (text ++ key ++ httpHeaderDelim ++ value ++ httpCtrl).length =
          text.length + key.length + 2 + value.length + 2 := by
        simp only [List.length_append, httpCtrl_length, httpHeaderDelim_length]
      have happend : text ++ fieldText ((key, value) :: rest) =
          text ++ key ++ httpHeaderDelim ++ value ++ httpCtrl ++ fieldText rest := by
        rw [fieldText_cons]
        simp only [List.append_assoc]
      rw [writeHeaders, ih, htext, happend]
      by_cases hvalue : text.length + key.length + 2 + value.length + 3 < size
      · rw [if_neg (by omega), if_neg (by omega), if_neg (by omega)]
        by_cases hrest : HeadersFit size rest (text.length + key.length + 2 + value.length + 2)
        · rw [if_pos hrest, if_pos (headersFit_cons.mpr ⟨hvalue, hrest⟩)]
        · rw [if_neg hrest, if_neg fun hfit => hrest (headersFit_cons.mp hfit).2]
      · rw [if_pos (not_lt.mp hvalue), ite_self, ite_self,
          if_neg fun hfit => hvalue (headersFit_cons.mp hfit).1]

theorem generateResponse_eq (response : HttpResponse) (size : Nat) :
    response.generateResponse size =
      if response.wireText.length + 1 < size then response.wireText else [] := by
  have hhead : (response.statusText ++ response.statusMsg ++ httpCtrl).length =
      response.statusMsg.length + response.statusText.length + 2 := by
    simp only [List.length_append, httpCtrl_length]
    omega
  have hwire : response.wireText.length =
      response.headText.length + 2 + response.httpBody.length := by
    unfold wireText
    simp only [List.length_append, httpCtrl_length]
  have htext : response.headText.length =
      response.statusMsg.length + response.statusText.length + 2 +
        (fieldText response.httpHeader.entries).length := by
    unfold headText
    rw [List.length_append, hhead]
  unfold generateResponse
  simp only
  rw [← statusText, writeHeaders_eq, hhead]
  by_cases hfits : response.wireText.length + 1 < size
  · have hheaders : HeadersFit size response.httpHeader.entries
        (response.statusMsg.length + response.statusText.length + 2) := .inr (by omega)
    rw [if_pos hfits, if_neg (by omega), if_pos hheaders]
    simp only
    rw [← headText, if_neg (by omega)]
    rfl
  · rw [if_neg hfits]
    split_ifs with hstatus hheaders
    · rfl
    · simp only
      rw [← headText, if_pos (by omega)]
    · rfl

/-! ## The memory -/

theorem terminated_extent_le
    {buffer : Arena UInt8} {text : Bytes} {size : Nat} (hbuffer : buffer.extent ≤ size)
    (hroom : text.length + 1 ≤ size) :
    (buffer.copy 0 (text ++ [0])).extent ≤ size := by
  refine Arena.copy_extent_le hbuffer ?_
  rw [List.length_append, List.length_singleton, Nat.zero_add]
  exact hroom

theorem copyHeaders_cases
    {buffer : Arena UInt8} {size : Nat} (hbuffer : buffer.extent ≤ size)
    (entries : List (Bytes × Bytes)) {text : Bytes} (hroom : text.length + 1 ≤ size) :
    (HeadersFit size entries text.length ∧
      copyHeaders size entries text.length (buffer.copy 0 (text ++ [0])) =
        (some (text ++ fieldText entries).length,
          buffer.copy 0 (text ++ fieldText entries ++ [0]))) ∨
    (¬ HeadersFit size entries text.length ∧
      ∃ left, copyHeaders size entries text.length (buffer.copy 0 (text ++ [0])) =
        (none, left) ∧ left.extent ≤ size) := by
  induction entries generalizing text with
  | nil =>
      refine .inl ⟨.inl rfl, ?_⟩
      have hnil : text ++ fieldText ([] : List (Bytes × Bytes)) = text := List.append_nil text
      rw [hnil]
      rfl
  | cons entry rest ih =>
      obtain ⟨key, value⟩ := entry
      have hkey : text.length + key.length = (text ++ key).length := List.length_append.symm
      have hdelim : text.length + key.length + 2 = (text ++ key ++ httpHeaderDelim).length := by
        rw [List.length_append, ← hkey, httpHeaderDelim_length]
      have hvalue : text.length + key.length + 2 + value.length =
          (text ++ key ++ httpHeaderDelim ++ value).length := by
        rw [List.length_append, ← hdelim]
      have hline : text.length + key.length + 2 + value.length + 2 =
          (text ++ key ++ httpHeaderDelim ++ value ++ httpCtrl).length := by
        rw [List.length_append, ← hvalue, httpCtrl_length]
      have happend : text ++ fieldText ((key, value) :: rest) =
          text ++ key ++ httpHeaderDelim ++ value ++ httpCtrl ++ fieldText rest := by
        rw [fieldText_cons]
        simp only [List.append_assoc]
      rw [copyHeaders]
      simp only
      rw [headersFit_cons]
      split_ifs with hnokey hnodelim hnovalue
      · exact .inr ⟨fun hfit => by omega, _, rfl, terminated_extent_le hbuffer hroom⟩
      · refine .inr ⟨fun hfit => by omega, _, rfl, ?_⟩
        rw [Arena.copy_terminated]
        exact terminated_extent_le hbuffer (by omega)
      · refine .inr ⟨fun hfit => by omega, _, rfl, ?_⟩
        rw [Arena.copy_terminated, hkey, Arena.copy_terminated]
        exact terminated_extent_le hbuffer (by omega)
      · rw [Arena.copy_terminated, hkey, Arena.copy_terminated, ← hkey, hdelim,
          Arena.copy_terminated, ← hdelim, hvalue, Arena.copy_terminated, ← hvalue, hline, happend]
        have hline_room :
            (text ++ key ++ httpHeaderDelim ++ value ++ httpCtrl).length + 1 ≤ size := by
          omega
        rcases ih hline_room with ⟨hfit, heq⟩ | ⟨hfit, hleft⟩
        · exact .inl ⟨⟨by omega, hfit⟩, heq⟩
        · exact .inr ⟨fun hboth => hfit hboth.2, hleft⟩

theorem statusLine_length (response : HttpResponse) :
    (response.statusText ++ response.statusMsg ++ httpCtrl).length =
      response.statusMsg.length + response.statusText.length + 2 := by
  simp only [List.length_append, httpCtrl_length]
  omega

/-- The checks up to the last header are passed. -/
def HeadFits (response : HttpResponse) (size : Nat) : Prop :=
  response.statusMsg.length + response.statusText.length + 2 < size ∧
    HeadersFit size response.httpHeader.entries
      (response.statusMsg.length + response.statusText.length + 2)

theorem generateResponseInto_cases
    {response : HttpResponse} {buffer : Arena UInt8} {size : Nat}
    (hbuffer : buffer.extent ≤ size) (hsize : 32 ≤ size)
    (hstatus : response.statusText.length < 32) (hcode : 0 ∉ response.statusText)
    (hmsg : 0 ∉ response.statusMsg) :
    (response.HeadFits size ∧ response.generateResponseInto buffer size =
      response.copyBody size response.headText.length
        (buffer.copy 0 (response.headText ++ [0]))) ∨
    (¬ response.HeadFits size ∧ ∃ left,
      response.generateResponseInto buffer size = (0, left) ∧ left.extent ≤ size) := by
  have hprint : buffer.snprintf 0 32 response.statusText =
      buffer.copy 0 (response.statusText ++ [0]) := by
    unfold Arena.snprintf
    rw [if_neg (by decide), List.take_of_length_le (by omega)]
  have hnul : 0 ∉ response.statusText ++ response.statusMsg := by
    rw [List.mem_append, not_or]
    exact ⟨hcode, hmsg⟩
  have hline := response.statusLine_length
  unfold generateResponseInto HeadFits
  simp only
  rw [hprint]
  split_ifs with hshort
  · refine .inr ⟨fun hfit => by omega, _, rfl, ?_⟩
    exact terminated_extent_le hbuffer (by omega)
  · rw [Arena.copy_terminated, Arena.strcat, Arena.strlen_copy hnul, Arena.copy_terminated,
      show response.statusText.length + (response.statusMsg.length + 2) =
        (response.statusText ++ response.statusMsg ++ httpCtrl).length by omega, ← hline]
    have hroom : (response.statusText ++ response.statusMsg ++ httpCtrl).length + 1 ≤ size := by
      omega
    rcases copyHeaders_cases hbuffer response.httpHeader.entries hroom with
      ⟨hfit, heq⟩ | ⟨hfit, left, heq, hleft⟩
    · refine .inl ⟨⟨by omega, hfit⟩, ?_⟩
      rw [heq]
      rfl
    · refine .inr ⟨fun hboth => hfit hboth.2, left, ?_, hleft⟩
      rw [heq]

theorem wireText_length (response : HttpResponse) :
    response.wireText.length = response.headText.length + 2 + response.httpBody.length := by
  unfold wireText
  simp only [List.length_append, httpCtrl_length]

theorem headText_length (response : HttpResponse) :
    response.headText.length =
      response.statusMsg.length + response.statusText.length + 2 +
        (fieldText response.httpHeader.entries).length := by
  unfold headText
  rw [List.length_append, statusLine_length]

theorem copyBody_eq (response : HttpResponse) (size : Nat) (buffer : Arena UInt8) :
    response.copyBody size response.headText.length (buffer.copy 0 (response.headText ++ [0])) =
      if response.wireText.length + 1 < size then
        (response.wireText.length, buffer.copy 0 (response.wireText ++ [0]))
      else (0, buffer.copy 0 (response.headText ++ httpCtrl ++ [0])) := by
  have hwire := response.wireText_length
  have hctrl : response.headText.length + 2 = (response.headText ++ httpCtrl).length := by
    rw [List.length_append, httpCtrl_length]
  unfold copyBody
  simp only
  rw [Arena.copy_terminated]
  by_cases hfits : response.wireText.length + 1 < size
  · rw [if_pos hfits, if_neg (by omega), hctrl, Arena.copy_terminated, ← hctrl, hwire]
    rfl
  · rw [if_neg hfits, if_pos (by omega)]

theorem headFits_of_fits
    {response : HttpResponse} {size : Nat} (hfits : response.wireText.length + 1 < size) :
    response.HeadFits size := by
  have hwire := response.wireText_length
  have hhead := response.headText_length
  exact ⟨by omega, .inr (by omega)⟩

theorem copyHeaders_fst (size : Nat) (entries : List (Bytes × Bytes)) (sz : Nat)
    (buffer : Arena UInt8) :
    (copyHeaders size entries sz buffer).1 =
      if HeadersFit size entries sz then some (sz + (fieldText entries).length) else none := by
  induction entries generalizing sz buffer with
  | nil =>
      rw [if_pos (.inl rfl)]
      rfl
  | cons entry rest ih =>
      obtain ⟨key, value⟩ := entry
      have hlength := fieldText_cons_length key value rest
      rw [copyHeaders]
      simp only
      by_cases hvalue : sz + key.length + 2 + value.length + 3 < size
      · rw [if_neg (by omega), if_neg (by omega), if_neg (by omega), ih, hlength]
        by_cases hrest : HeadersFit size rest (sz + key.length + 2 + value.length + 2)
        · rw [if_pos hrest, if_pos (headersFit_cons.mpr ⟨hvalue, hrest⟩)]
          exact congrArg some (by omega)
        · rw [if_neg hrest, if_neg fun hfit => hrest (headersFit_cons.mp hfit).2]
      · rw [if_neg fun hfit => hvalue (headersFit_cons.mp hfit).1]
        split_ifs with hnokey hnodelim hnovalue
        · rfl
        · rfl
        · rfl
        · exact absurd (not_le.mp hnovalue) hvalue

theorem copyBody_fst (response : HttpResponse) (size sz : Nat) (buffer : Arena UInt8) :
    (response.copyBody size sz buffer).1 =
      if sz + 2 + response.httpBody.length + 1 < size then sz + 2 + response.httpBody.length
      else 0 := by
  unfold copyBody
  simp only
  by_cases hfits : sz + 2 + response.httpBody.length + 1 < size
  · rw [if_pos hfits, if_neg (not_le.mpr hfits)]
  · rw [if_neg hfits, if_pos (not_lt.mp hfits)]

theorem generateResponseInto_fst (response : HttpResponse) (buffer : Arena UInt8) (size : Nat) :
    (response.generateResponseInto buffer size).1 =
      if response.wireText.length + 1 < size then response.wireText.length else 0 := by
  have hwire := response.wireText_length
  have hhead := response.headText_length
  unfold generateResponseInto
  simp only
  by_cases hshort : size ≤ response.statusMsg.length + response.statusText.length + 2
  · rw [if_pos hshort, if_neg (by omega)]
  · rw [if_neg hshort]
    generalize ((buffer.snprintf 0 32 response.statusText).copy _ _).strcat httpCtrl = started
    have hcount := copyHeaders_fst size response.httpHeader.entries
      (response.statusText.length + (response.statusMsg.length + 2)) started
    generalize copyHeaders size _ _ started = result at hcount ⊢
    obtain ⟨count, left⟩ := result
    by_cases hheaders : HeadersFit size response.httpHeader.entries
        (response.statusText.length + (response.statusMsg.length + 2))
    · have hsome : count = some response.headText.length := by
        rw [if_pos hheaders] at hcount
        rw [hhead]
        exact hcount.trans (congrArg some (by omega))
      rw [hsome]
      simp only
      rw [copyBody_fst, hwire]
    · rw [if_neg hheaders] at hcount
      have hlong : ¬ response.wireText.length + 1 < size := by
        intro hfits
        exact hheaders (.inr (by omega))
      rw [show count = none from hcount, if_neg hlong]

theorem generateResponseInto_refines
    {response : HttpResponse} {buffer : Arena UInt8} {size : Nat}
    (hbuffer : buffer.extent ≤ size) (hsize : 32 ≤ size)
    (hstatus : response.statusText.length < 32) (hcode : 0 ∉ response.statusText)
    (hmsg : 0 ∉ response.statusMsg) :
    (response.generateResponseInto buffer size).1 = (response.generateResponse size).length ∧
      (response.generateResponseInto buffer size).2.read 0
        (response.generateResponse size).length = response.generateResponse size := by
  rw [generateResponse_eq]
  rcases generateResponseInto_cases hbuffer hsize hstatus hcode hmsg with
    ⟨-, heq⟩ | ⟨hnot, left, heq, -⟩
  · rw [heq, copyBody_eq]
    split_ifs
    · have hread := Arena.read_copy_self buffer 0 (response.wireText ++ [0])
      rw [List.length_append, Arena.read_add] at hread
      have hwire := List.append_inj_left hread (Arena.read_length _ 0 response.wireText.length)
      -- without the projections of the pair `hwire` is the second half as it stands
      dsimp only
      exact ⟨rfl, hwire⟩
    · exact ⟨rfl, rfl⟩
  · rw [heq, if_neg fun hfits => hnot (headFits_of_fits hfits)]
    exact ⟨rfl, rfl⟩

/-! ## The end of the buffer -/

theorem statusText_spec (code : HttpStatusCode) {response : HttpResponse}
    (hcode : response.statusCode = code.value) :
    response.statusText.length < 32 ∧ 0 ∉ response.statusText := by
  unfold statusText
  rw [hcode]
  cases code <;> decide

/-- Every byte is written inside the buffer, and what is counted is the response. -/
def Exact (response : HttpResponse) (cell : Nat → UInt8) (size : Nat) : Prop :=
  let result := response.generateResponseInto (.fresh cell) size
  result.2.extent ≤ size ∧
    (0 < result.1 → result.1 < size ∧ result.2.read 0 result.1 = response.wireText)

theorem headFits_iff (response : HttpResponse) (size : Nat) :
    response.HeadFits size ↔ response.headText.length < size ∧
      (response.httpHeader.entries ≠ [] → response.headText.length + 1 < size) := by
  have hhead := response.headText_length
  unfold HeadFits HeadersFit
  by_cases hempty : response.httpHeader.entries = []
  · have hnil : (fieldText response.httpHeader.entries).length = 0 := by
      rw [hempty]
      rfl
    simp only [hempty, true_or, and_true, ne_eq, not_true_eq_false, false_implies]
    omega
  · simp only [hempty, false_or, ne_eq, not_false_eq_true, true_implies]
    omega

theorem fresh_extent (cell : Nat → UInt8) (text : Bytes) :
    ((Arena.fresh cell).copy 0 (text ++ [0])).extent = text.length + 1 := by
  rw [Arena.copy_extent, if_neg (List.append_ne_nil_of_right_ne_nil text (List.cons_ne_nil 0 [])),
    List.length_append, Nat.zero_add]
  exact Nat.max_eq_right (Nat.zero_le _)

theorem counted_eq_wireText
    {response : HttpResponse} {buffer : Arena UInt8} {size : Nat}
    (hbuffer : buffer.extent ≤ size) (hsize : 32 ≤ size)
    (hstatus : response.statusText.length < 32) (hcode : 0 ∉ response.statusText)
    (hmsg : 0 ∉ response.statusMsg)
    (hpos : 0 < (response.generateResponseInto buffer size).1) :
    (response.generateResponseInto buffer size).1 < size ∧
      (response.generateResponseInto buffer size).2.read 0
        (response.generateResponseInto buffer size).1 = response.wireText := by
  obtain ⟨hcount, hread⟩ := generateResponseInto_refines hbuffer hsize hstatus hcode hmsg
  rw [hcount] at hpos ⊢
  rw [hread]
  rw [generateResponse_eq] at hpos ⊢
  split_ifs at hpos ⊢ with hfits
  · exact ⟨by omega, rfl⟩
  · exact absurd hpos (lt_irrefl 0)

/-- The copy of the empty line is not checked: it leaves the buffer when the head
ends two bytes before the end, or one byte before it and without headers. -/
theorem exact_iff_head
    {code : HttpStatusCode} {response : HttpResponse} {size : Nat} (cell : Nat → UInt8)
    (hcode : response.statusCode = code.value) (hmsg : 0 ∉ response.statusMsg)
    (hsize : 32 ≤ size) :
    response.Exact cell size ↔
      response.headText.length + 2 ≠ size ∧
        (response.httpHeader.entries = [] → response.headText.length + 1 ≠ size) := by
  have hwire := response.wireText_length
  obtain ⟨hstatus, hnul⟩ := statusText_spec code hcode
  have hfresh : (Arena.fresh cell).extent ≤ size := Nat.zero_le size
  have hfit := response.headFits_iff size
  have hinside : response.Exact cell size ↔
      (response.generateResponseInto (.fresh cell) size).2.extent ≤ size :=
    ⟨fun hexact => hexact.1,
      fun hextent => ⟨hextent, counted_eq_wireText hfresh hsize hstatus hnul hmsg⟩⟩
  rw [hinside]
  rcases generateResponseInto_cases hfresh hsize hstatus hnul hmsg with
    ⟨hhead, heq⟩ | ⟨hhead, left, heq, hleft⟩
  · have hctrl : (response.headText ++ httpCtrl).length = response.headText.length + 2 := by
      rw [List.length_append, httpCtrl_length]
    rw [hfit] at hhead
    rw [heq, copyBody_eq]
    split_ifs with hfits
    · simp only [fresh_extent]
      omega
    · simp only [fresh_extent, hctrl]
      by_cases hempty : response.httpHeader.entries = []
      · simp only [hempty, true_implies]
        omega
      · have hheaders := hhead.2 hempty
        simp only [hempty, false_implies, and_true]
        omega
  · rw [hfit] at hhead
    rw [heq]
    refine ⟨fun _ => ⟨fun hend => hhead ⟨by omega, fun _ => by omega⟩, fun hempty hend =>
      hhead ⟨by omega, fun hne => absurd hempty hne⟩⟩, fun _ => hleft⟩

/-- No NUL in any text of the response. -/
structure NulFree (response : HttpResponse) : Prop where
  statusMsg : 0 ∉ response.statusMsg
  header : ∀ entry ∈ response.httpHeader.entries, 0 ∉ entry.1 ∧ 0 ∉ entry.2
  body : 0 ∉ response.httpBody

/-- A response without headers and body. -/
def bare (statusMsg : Bytes) : HttpResponse where
  response := true
  closeConn := false
  msgLen := 0
  statusCode := 200
  statusMsg := statusMsg
  httpBody := []
  httpHeader := .empty

theorem exact_iff_head_ok : (bare (ascii ['O', 'K'])).Exact (fun _ => 0) 32 := by
  refine (@exact_iff_head .hsc200 _ 32 (fun _ => 0) rfl (by decide) (le_refl 32)).mpr ⟨?_, ?_⟩
  · decide
  · intro _
    decide

/-- The status line ends one byte before the end of the buffer. -/
theorem not_exact_sixteen :
    ¬ ∀ (code : HttpStatusCode) (response : HttpResponse) (cell : Nat → UInt8) (size : Nat),
      response.statusCode = code.value → response.NulFree → 32 ≤ size →
        response.Exact cell size := by
  intro hall
  have hfree : (bare (List.replicate 16 97)).NulFree :=
    ⟨by decide, fun _ hentry => absurd hentry List.not_mem_nil, List.not_mem_nil⟩
  have hexact := hall .hsc200 (bare (List.replicate 16 97)) (fun _ => 0) 32 rfl hfree (le_refl 32)
  have hextent : ((bare (List.replicate 16 97)).generateResponseInto
      (.fresh fun _ => 0) 32).2.extent = 34 := by decide
  have hinside := hexact.1
  rw [hextent] at hinside
  exact absurd hinside (by decide)

end HttpResponse

end BackEndFacility
