import BackEndFacility.HttpExchange
import BackEndFacility.HttpResponseSize
import BackEndFacility.Numeral

/-!
# The default handler

`DefaultHttpRequestHandler` answers with a page that repeats the headers and the body
of the request.  The page is a `std::string`, of which `Content-Length` gives the size;
the response takes it as a C string.
-/

namespace BackEndFacility

/-! ## The date -/

/-- The fields of `struct tm` that the date shows, the year in full. -/
structure Tm where
  wday : Nat
  mday : Nat
  mon : Nat
  year : Nat
  hour : Nat
  sec : Nat
deriving DecidableEq

namespace Tm

def dayNames : List Bytes :=
  [ascii ['S', 'u', 'n'], ascii ['M', 'o', 'n'], ascii ['T', 'u', 'e'], ascii ['W', 'e', 'd'],
    ascii ['T', 'h', 'u'], ascii ['F', 'r', 'i'], ascii ['S', 'a', 't']]

def monthNames : List Bytes :=
  [ascii ['J', 'a', 'n'], ascii ['F', 'e', 'b'], ascii ['M', 'a', 'r'], ascii ['A', 'p', 'r'],
    ascii ['M', 'a', 'y'], ascii ['J', 'u', 'n'], ascii ['J', 'u', 'l'], ascii ['A', 'u', 'g'],
    ascii ['S', 'e', 'p'], ascii ['O', 'c', 't'], ascii ['N', 'o', 'v'], ascii ['D', 'e', 'c']]

def twoDigits (n : Nat) : Bytes :=
  if n < 10 then 48 :: decimal n else decimal n

/-- `strftime` with `"%a, %d %b %Y %H:%S %Z"`, for a time of `gmtime`. -/
def strftime (tm : Tm) : Bytes :=
  dayNames.getD tm.wday (ascii ['?']) ++ ascii [',', ' '] ++ twoDigits tm.mday ++ [space] ++
    monthNames.getD tm.mon (ascii ['?']) ++ [space] ++ decimal tm.year ++ [space] ++
      twoDigits tm.hour ++ [colon] ++ twoDigits tm.sec ++ [space] ++ ascii ['G', 'M', 'T']

end Tm

/-! ## The page -/

def pageHead : Bytes :=
  ascii "<!DOCTYPE HTML PUBLIC \"-//W3C//DTD HTML 1.0 Frameset//EN\" ".toList ++
    ascii "\"http://www.w3.org/TR/xhtml1/DTD/xhtml1-Frameset.dtd\">".toList ++
    ascii "<html><head>    <meta http-equiv=\"Content-Type\" ".toList ++
    ascii "content=\"text/html; charset=gb2312\" />".toList ++
    ascii "    <title>miliao http server</title></head><body> <p>".toList ++
    ascii "Page auto-generated from http request header:\r\n</p><p>".toList

theorem pageHead_length : pageHead.length = 306 := by
  decide +kernel

def pageHeaders (entries : List (Bytes × Bytes)) : Bytes :=
  (entries.map fun entry => entry.1 ++ [colon] ++ entry.2 ++ ascii "</p>".toList).flatten

def pageTail : Bytes :=
  ascii "</p>             </body>             </html>".toList

def pageText (request : HttpRequest) : Bytes :=
  pageHead ++ pageHeaders request.httpHeader.entries ++ ascii "</p>".toList ++
    (ascii "Body from request: </p> ".toList ++ request.httpBody) ++ pageTail

theorem pageText_length (request : HttpRequest) :
    (pageText request).length =
      378 + (pageHeaders request.httpHeader.entries).length + request.httpBody.length := by
  have hclose : (ascii "</p>".toList).length = 4 := by decide
  have hintro : (ascii "Body from request: </p> ".toList).length = 24 := by decide
  have htail : pageTail.length = 44 := by decide
  unfold pageText
  simp only [List.length_append, pageHead_length, hclose, hintro, htail]
  omega

/-- What `"%d"` makes of a `size_t`. -/
def sizeText (size : Nat) : Bytes :=
  decimal ((size : Int).bmod (2 ^ 32))

def connectionKey : Bytes := ascii "Connection".toList

def hostKey : Bytes := ascii "Host".toList

def contentTypeKey : Bytes := ascii "Content-Type".toList

def dateKey : Bytes := ascii "Date".toList

def defaultHttpRequestHandler (now : Tm) : HttpHandler := fun request response =>
  let response := { response with response := true }
  let response := response.setStatusCode HttpStatusCode.hsc200.value
  let response := response.setStatusMessage (ascii ['O', 'K'])
  let body := pageText request
  let response := response.setBody body
  let response := response.addHeader connectionKey (ascii "close".toList)
  let response := response.addHeader hostKey (ascii "miliao server".toList)
  let response := response.addHeader contentTypeKey (ascii "text/html;charset=utf-8".toList)
  let response := response.addHeader HttpClient.contentLengthKey (sizeText body.length)
  let response := response.addHeader dateKey now.strftime
  { response with closeConn := false }

/-! ## Texts without control characters -/

/-- No control character. -/
def Printable (text : Bytes) : Prop :=
  ∀ byte ∈ text, 32 ≤ byte

instance decidablePrintable (text : Bytes) : Decidable (Printable text) :=
  List.decidableBAll (fun byte : UInt8 => 32 ≤ byte) text

namespace Printable

theorem append {first second : Bytes} (hfirst : Printable first) (hsecond : Printable second) :
    Printable (first ++ second) := by
  intro byte hbyte
  rcases List.mem_append.mp hbyte with hleft | hright
  · exact hfirst byte hleft
  · exact hsecond byte hright

theorem nul {text : Bytes} (hprintable : Printable text) : 0 ∉ text :=
  fun hmem => absurd (hprintable 0 hmem) (by decide)

theorem getD {names : List Bytes} (hnames : ∀ name ∈ names, Printable name) {default : Bytes}
    (hdefault : Printable default) (index : Nat) : Printable (names.getD index default) := by
  rw [List.getD_eq_getElem?_getD]
  cases hget : names[index]? with
  | none => exact hdefault
  | some name => exact hnames name (List.mem_of_getElem? hget)

theorem decimal (value : Int) : Printable (BackEndFacility.decimal value) := by
  unfold BackEndFacility.decimal
  refine append ?_ ?_
  · split_ifs
    · decide
    · decide
  · intro byte hbyte
    unfold ascii at hbyte
    rw [toDigits_eq_numeral] at hbyte
    obtain ⟨d, hd, rfl⟩ := mem_numeral (by norm_num) hbyte
    rw [UInt8.le_iff_toNat_le, decimalDigit_toNat hd]
    change 32 ≤ 48 + d
    omega

theorem twoDigits (n : Nat) : Printable (Tm.twoDigits n) := by
  unfold Tm.twoDigits
  split_ifs
  · intro byte hbyte
    rcases List.mem_cons.mp hbyte with rfl | hrest
    · decide
    · exact decimal n byte hrest
  · exact decimal n

theorem strftime (tm : Tm) : Printable tm.strftime := by
  have hday := getD (show ∀ name ∈ Tm.dayNames, Printable name by decide)
    (show Printable (ascii ['?']) by decide) tm.wday
  have hmonth := getD (show ∀ name ∈ Tm.monthNames, Printable name by decide)
    (show Printable (ascii ['?']) by decide) tm.mon
  have hspace : Printable [space] := by decide
  unfold Tm.strftime
  exact ((((((((((((hday.append (by decide)).append (twoDigits _)).append hspace).append
    hmonth).append hspace).append (decimal _)).append hspace).append (twoDigits _)).append
      (by decide)).append (twoDigits _)).append hspace).append (by decide))

end Printable

/-! ## Numbers read back -/

theorem readSign_digit {d : Nat} (hd : d < 10) (rest : Bytes) :
    readSign (decimalDigit d :: rest) = (1, decimalDigit d :: rest) := by
  interval_cases d <;> rfl

/-- A numeral starts with a digit and goes on with digits. -/
theorem numeral_digits (n : Nat) :
    ∃ d rest, d < 10 ∧ numeral 10 decimalDigit n = decimalDigit d :: rest ∧
      ∀ byte ∈ numeral 10 decimalDigit n, isDigit byte = true ∧ isSpace byte = false := by
  have hbytes : ∀ byte ∈ numeral 10 decimalDigit n, ∃ d < 10, byte = decimalDigit d :=
    fun byte hbyte => mem_numeral (by norm_num) hbyte
  cases hnumeral : numeral 10 decimalDigit n with
  | nil => exact absurd hnumeral (numeral_ne_nil 10 decimalDigit n)
  | cons first rest =>
      rw [hnumeral] at hbytes
      obtain ⟨d, hd, rfl⟩ := hbytes first List.mem_cons_self
      refine ⟨d, rest, hd, rfl, fun byte hbyte => ?_⟩
      obtain ⟨e, he, rfl⟩ := hbytes byte hbyte
      interval_cases e <;> decide

theorem atoi_decimal {value : Int} (hlow : -2 ^ 31 ≤ value) (hhigh : value < 2 ^ 31) :
    atoi (decimal value) = value := by
  obtain ⟨d, rest, hd, hnumeral, hbytes⟩ := numeral_digits value.natAbs
  have hvalue : (numeral 10 decimalDigit value.natAbs).foldl
      (fun n digit => 10 * n + (digit.toNat - 48)) 0 = value.natAbs :=
    numeralValue_numeral (fun e he => by rw [decimalDigit_toNat he]; omega) (by norm_num) _
  have htake : (numeral 10 decimalDigit value.natAbs).takeWhile isDigit =
      numeral 10 decimalDigit value.natAbs :=
    List.takeWhile_eq_self_iff.mpr fun byte hbyte => (hbytes byte hbyte).1
  have hdrop : (numeral 10 decimalDigit value.natAbs).dropWhile isSpace =
      numeral 10 decimalDigit value.natAbs := by
    rw [hnumeral] at hbytes ⊢
    rw [List.dropWhile_cons, (hbytes _ List.mem_cons_self).2]
    rfl
  have hsign : readSign (numeral 10 decimalDigit value.natAbs) =
      (1, numeral 10 decimalDigit value.natAbs) := by
    rw [hnumeral]
    exact readSign_digit hd rest
  have hbmod : value.bmod (2 ^ 32) = value := Int.bmod_eq_of_le (by omega) (by omega)
  unfold atoi decimal ascii
  rw [toDigits_eq_numeral]
  by_cases hneg : value < 0
  · have hminus : ([45] ++ numeral 10 decimalDigit value.natAbs).dropWhile isSpace =
        45 :: numeral 10 decimalDigit value.natAbs := rfl
    rw [if_pos hneg, hminus]
    simp only [readSign, htake, hvalue]
    rw [show max (-2 ^ 63) (min (2 ^ 63 - 1) (-1 * (value.natAbs : Int))) = value by omega]
    exact hbmod
  · rw [if_neg hneg, List.nil_append, hdrop, hsign]
    simp only [htake, hvalue]
    rw [show max (-2 ^ 63) (min (2 ^ 63 - 1) (1 * (value.natAbs : Int))) = value by omega]
    exact hbmod

/-! ## The response -/

section Response

variable (now : Tm) (request : HttpRequest)

/-- The headers in key order. -/
def defaultEntries : List (Bytes × Bytes) :=
  [(connectionKey, ascii "close".toList),
    (HttpClient.contentLengthKey, sizeText (pageText request).length),
    (contentTypeKey, ascii "text/html;charset=utf-8".toList),
    (dateKey, now.strftime), (hostKey, ascii "miliao server".toList)]

theorem cStr_sizeText (size : Nat) : cStr (sizeText size) = sizeText size :=
  HttpClient.cStr_eq (Printable.decimal _).nul

theorem cStr_strftime : cStr now.strftime = now.strftime :=
  HttpClient.cStr_eq (Printable.strftime now).nul

theorem defaultHandler_entries {response : HttpResponse}
    (hheader : response.httpHeader = .empty) :
    (defaultHttpRequestHandler now request response).httpHeader.entries =
      defaultEntries now request := by
  have hlength : cStr (sizeText (pageText request).length) =
      sizeText (pageText request).length := cStr_sizeText _
  have hdate := cStr_strftime now
  unfold defaultHttpRequestHandler defaultEntries
  simp only [HttpResponse.addHeader, HttpResponse.setBody, HttpResponse.setStatusMessage,
    HttpResponse.setStatusCode, SortedMap.insert, hheader, SortedMap.empty, hlength, hdate]
  generalize sizeText (pageText request).length = length
  generalize now.strftime = date
  rfl

/-- What `GetResponseSize` answers for the page when the response was cleaned. -/
def defaultSize : Nat :=
  111 + (sizeText (pageText request).length).length + now.strftime.length +
    (cStr (pageText request)).length

theorem defaultEntries_length :
    (HttpResponse.fieldText (defaultEntries now request)).length =
      105 + (sizeText (pageText request).length).length + now.strftime.length := by
  unfold defaultEntries
  simp only [HttpResponse.fieldText_cons_length]
  generalize (sizeText (pageText request).length).length = length
  generalize now.strftime.length = date
  change 10 + 2 + 5 + 2 + (14 + 2 + length + 2 + (12 + 2 + 23 + 2 + (4 + 2 + date + 2 +
    (4 + 2 + 13 + 2 + 0)))) = 105 + length + date
  omega

variable {response : HttpResponse}

theorem defaultHandler_wireText_length (hheader : response.httpHeader = .empty) :
    (defaultHttpRequestHandler now request response).wireText.length =
      defaultSize now request + 13 := by
  have hstatus : (defaultHttpRequestHandler now request response).statusText.length = 13 := by
    unfold HttpResponse.statusText
    rw [show (defaultHttpRequestHandler now request response).statusCode = 200 from rfl]
    decide
  have hmsg : (defaultHttpRequestHandler now request response).statusMsg.length = 2 := rfl
  have hbody : (defaultHttpRequestHandler now request response).httpBody =
      cStr (pageText request) := rfl
  rw [HttpResponse.wireText_length, HttpResponse.headText_length,
    defaultHandler_entries now request hheader, defaultEntries_length, hstatus, hmsg, hbody]
  unfold defaultSize
  omega

theorem defaultHandler_getResponseSize (hmsgLen : response.msgLen = 0) :
    (defaultHttpRequestHandler now request response).getResponseSize =
      defaultSize now request := by
  unfold defaultHttpRequestHandler HttpResponse.getResponseSize defaultSize
  simp only [HttpResponse.addHeader, HttpResponse.setBody, HttpResponse.setStatusMessage,
    HttpResponse.setStatusCode, hmsgLen, cStr_sizeText, cStr_strftime]
  generalize (sizeText (pageText request).length).length = length
  generalize now.strftime.length = date
  generalize (cStr (pageText request)).length = body
  change 0 + 10 + 2 + 5 + 2 + 4 + 2 + 13 + 2 + 12 + 2 + 23 + 2 + 14 + 2 + length + 2 +
    4 + 2 + date + 2 + 2 + 2 + body + 2 = 111 + length + date + body
  omega

end Response

/-! ## NUL bytes in the page -/

namespace HttpRequest

/-- The keys and values of the header are C strings. -/
def HeaderNulFree (request : HttpRequest) : Prop :=
  ∀ entry ∈ request.httpHeader.entries, 0 ∉ entry.1 ∧ 0 ∉ entry.2

end HttpRequest

theorem nul_pageHeaders {entries : List (Bytes × Bytes)}
    (hentries : ∀ entry ∈ entries, 0 ∉ entry.1 ∧ 0 ∉ entry.2) : 0 ∉ pageHeaders entries := by
  have hclose : (0 : UInt8) ∉ ascii "</p>".toList := by decide
  have hcolon : (0 : UInt8) ∉ [colon] := by decide
  unfold pageHeaders
  rw [List.mem_flatten]
  rintro ⟨line, hline, hmem⟩
  obtain ⟨entry, hentry, rfl⟩ := List.mem_map.mp hline
  obtain ⟨hkey, hvalue⟩ := hentries entry hentry
  simp only [List.mem_append, hkey, hvalue, hclose, hcolon, or_false] at hmem

theorem nul_pageHead : (0 : UInt8) ∉ pageHead := by
  decide +kernel

/-- A NUL in the page is one of the body. -/
theorem nul_pageText {request : HttpRequest} (hheader : request.HeaderNulFree) :
    0 ∈ pageText request ↔ 0 ∈ request.httpBody := by
  have hhead := nul_pageHead
  have hheaders := nul_pageHeaders hheader
  have hclose : (0 : UInt8) ∉ ascii "</p>".toList := by decide
  have hintro : (0 : UInt8) ∉ ascii "Body from request: </p> ".toList := by decide
  have htail : (0 : UInt8) ∉ pageTail := by decide
  unfold pageText
  simp only [List.mem_append, hhead, hheaders, hclose, hintro, htail, false_or, or_false]

theorem defaultSize_eq {now : Tm} {request : HttpRequest} (hheader : request.HeaderNulFree)
    (hbody : 0 ∉ request.httpBody) :
    defaultSize now request =
      489 + (sizeText (pageText request).length).length + now.strftime.length +
        (pageHeaders request.httpHeader.entries).length + request.httpBody.length := by
  have hnul : 0 ∉ pageText request := by
    rw [nul_pageText hheader]
    exact hbody
  have hlength := pageText_length request
  unfold defaultSize
  rw [HttpClient.cStr_eq hnul]
  omega

theorem defaultSize_empty {now : Tm} {request : HttpRequest}
    (hentries : request.httpHeader.entries = []) (hbody : request.httpBody = []) :
    defaultSize now request = 492 + now.strftime.length := by
  have hheader : request.HeaderNulFree := by
    intro entry hentry
    rw [hentries] at hentry
    cases hentry
  have hnul : 0 ∉ request.httpBody := by
    rw [hbody]
    exact List.not_mem_nil
  have hlength : (pageText request).length = 378 := by
    rw [pageText_length, hentries, hbody]
    rfl
  have hdigits : (sizeText 378).length = 3 := by decide
  rw [defaultSize_eq hheader hnul, hlength, hdigits, hentries, hbody]
  change 489 + 3 + now.strftime.length + 0 + 0 = 492 + now.strftime.length
  omega

end BackEndFacility
