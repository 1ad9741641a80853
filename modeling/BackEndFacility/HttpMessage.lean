import BackEndFacility.SortedMap
import Mathlib.Data.List.Lex
import Mathlib.Order.Lex
import Mathlib.Order.Defs.LinearOrder
import Mathlib.Tactic

/-!
# Requests and responses

`HttpRequest` and `HttpResponse` with their setters.  Texts are byte lists.  A
`std::string` that comes from a `const char*` ends at its first NUL, and the
body of a request carries its capacity, which `AppendBody` reads.
-/

namespace BackEndFacility

abbrev Bytes := List UInt8

def ascii (text : List Char) : Bytes :=
  text.map Char.toUInt8

def space : UInt8 := 32

def questionMark : UInt8 := 63

def carriageReturn : UInt8 := 13

def lineFeed : UInt8 := 10

def colon : UInt8 := 58

/-- `HTTP_CTRL` -/
def httpCtrl : Bytes := [carriageReturn, lineFeed]

/-- `HTTP_HEADER_DELIM` -/
def httpHeaderDelim : Bytes := [colon, space]

instance linearOrderByte : LinearOrder UInt8 where
  le_refl := UInt8.le_refl
  le_trans := fun _ _ _ => UInt8.le_trans
  le_antisymm := fun _ _ => UInt8.le_antisymm
  le_total := UInt8.le_total
  lt_iff_le_not_ge := by
    intro a b
    rw [UInt8.not_le]
    exact ⟨fun h => ⟨UInt8.le_of_lt h, h⟩, fun h => h.2⟩
  toDecidableLE := inferInstance
  toDecidableLT := inferInstance
  toDecidableEq := inferInstance
  min := fun a b => if a ≤ b then a else b
  max := fun a b => if a ≤ b then b else a

/-! ## The C library -/

def cStr (text : Bytes) : Bytes :=
  text.takeWhile (· != 0)

def isSpace (byte : UInt8) : Bool :=
  byte == 32 || (9 ≤ byte && byte ≤ 13)

def isDigit (byte : UInt8) : Bool :=
  48 ≤ byte && byte ≤ 57

def readSign : Bytes → Int × Bytes
  | 45 :: rest => (-1, rest)
  | 43 :: rest => (1, rest)
  | rest => (1, rest)

/-- `strtol` saturates to `long`; the cast to `int` then keeps the low 32 bits. -/
def atoi (text : Bytes) : Int :=
  let (sign, rest) := readSign (text.dropWhile isSpace)
  let magnitude : Nat :=
    (rest.takeWhile isDigit).foldl (fun n digit => 10 * n + (digit.toNat - 48)) 0
  let long := max (-2 ^ 63) (min (2 ^ 63 - 1) (sign * magnitude))
  long.bmod (2 ^ 32)

/-- An `int` assigned to a `size_t`. -/
def toSize (value : Int) : Nat :=
  (value % 2 ^ 64).toNat

def decimal (value : Int) : Bytes :=
  (if value < 0 then [45] else []) ++ ascii (Nat.toDigits 10 value.natAbs)

/-- What is known of the capacity of a `std::string`: `reserve` makes room for
what it is asked for, and assigning the empty string may keep any part of it. -/
structure StringPolicy where
  reserve : Nat → Nat → Nat
  clear : Nat → Nat
  le_reserve : ∀ capacity size, size ≤ reserve capacity size

/-- The capacities of libstdc++: growth at least doubles, clearing keeps. -/
def StringPolicy.doubling : StringPolicy where
  reserve := fun capacity size => if size ≤ capacity then capacity else max size (2 * capacity)
  clear := id
  le_reserve := by
    intro capacity size
    split_ifs <;> omega

/-! ## Requests -/

inductive HttpMethod
  | get
  | post
  | head
  | put
  | delete
  | invalid
deriving DecidableEq

inductive HttpVersion
  | v10
  | v11
  | invalid
deriving DecidableEq

def maxBodyLength : Nat := 4096

def HttpMethod.ofText (method : Bytes) : HttpMethod :=
  if method = ascii ['G', 'E', 'T'] then .get
  else if method = ascii ['P', 'O', 'S', 'T'] then .post
  else if method = ascii ['H', 'E', 'A', 'D'] then .head
  else if method = ascii ['P', 'U', 'T'] then .put
  else if method = ascii ['D', 'E', 'L', 'E', 'T', 'E'] then .delete
  else .invalid

def HttpVersion.ofText (version : Bytes) : HttpVersion :=
  if version = ascii ['H', 'T', 'T', 'P', '/', '1', '.', '1'] then .v11
  else if version = ascii ['H', 'T', 'T', 'P', '/', '1', '.', '0'] then .v10
  else .invalid

structure HttpRequest where
  bodyLen : Nat
  method : HttpMethod
  version : HttpVersion
  reqUrl : Bytes
  urlData : Bytes
  httpBody : Bytes
  bodyCapacity : Nat
  httpHeader : SortedMap Bytes Bytes
deriving DecidableEq

namespace HttpRequest

def setHttpMethod (request : HttpRequest) (method : Bytes) : HttpRequest :=
  { request with method := .ofText method }

def setVersion (request : HttpRequest) (version : Bytes) : HttpRequest :=
  { request with version := .ofText version }

def setUrl (request : HttpRequest) (url : Bytes) : HttpRequest :=
  { request with reqUrl := url }

def setUrlData (request : HttpRequest) (data : Bytes) : HttpRequest :=
  { request with urlData := data }

def setBodySize (policy : StringPolicy) (request : HttpRequest) (sz : Nat) : HttpRequest :=
  { request with
    bodyLen := sz
    bodyCapacity := policy.reserve request.bodyCapacity sz }

def appendBody (policy : StringPolicy) (request : HttpRequest) (data : Bytes) : HttpRequest :=
  if request.bodyCapacity ≤ data.length then request
  else
    let body := request.httpBody ++ data
    { request with
      httpBody := body
      bodyCapacity :=
        if body.length ≤ request.bodyCapacity then request.bodyCapacity
        else policy.reserve request.bodyCapacity body.length }

def addHeader (request : HttpRequest) (key value : Bytes) : HttpRequest :=
  { request with httpHeader := request.httpHeader.insert (cStr key) (cStr value) }

def getHeaderValue (request : HttpRequest) (key : Bytes) : Bytes :=
  (request.httpHeader.lookup key).getD []

def cleanUp (policy : StringPolicy) (request : HttpRequest) : HttpRequest :=
  { request with
    reqUrl := []
    urlData := []
    httpBody := []
    bodyCapacity := policy.clear request.bodyCapacity
    httpHeader := .empty
    bodyLen := 0 }

end HttpRequest

/-- The part of a request that a handler can read. -/
structure RequestView where
  method : HttpMethod
  version : HttpVersion
  url : Bytes
  urlData : Bytes
  header : SortedMap Bytes Bytes
  body : Bytes
deriving DecidableEq

def HttpRequest.view (request : HttpRequest) : RequestView where
  method := request.method
  version := request.version
  url := request.reqUrl
  urlData := request.urlData
  header := request.httpHeader
  body := request.httpBody

/-! ## Responses -/

structure HttpResponse where
  response : Bool
  closeConn : Bool
  msgLen : Nat
  statusCode : Int
  statusMsg : Bytes
  httpBody : Bytes
  httpHeader : SortedMap Bytes Bytes
deriving DecidableEq

/-- A handler reads the request and fills the response. -/
abbrev HttpHandler := HttpRequest → HttpResponse → HttpResponse

namespace HttpResponse

def addHeader (response : HttpResponse) (key value : Bytes) : HttpResponse :=
  { response with
    msgLen := response.msgLen + (cStr key).length + 2 + (cStr value).length + 2
    httpHeader := response.httpHeader.insert (cStr key) (cStr value) }

def setStatusCode (response : HttpResponse) (code : Int) : HttpResponse :=
  { response with statusCode := code }

def setStatusMessage (response : HttpResponse) (message : Bytes) : HttpResponse :=
  { response with statusMsg := cStr message }

def setBody (response : HttpResponse) (body : Bytes) : HttpResponse :=
  { response with httpBody := cStr body }

def getResponseSize (response : HttpResponse) : Nat :=
  response.msgLen + response.statusMsg.length + 2 + response.httpBody.length + 2

def writeHeaders (size : Nat) : List (Bytes × Bytes) → Bytes → Option Bytes
  | [], text => some text
  | (key, value) :: rest, text =>
      if size ≤ text.length + key.length + 1 then none
      else if size < text.length + key.length + 3 then none
      else if size ≤ text.length + key.length + 2 + value.length + 3 then none
      else writeHeaders size rest (text ++ key ++ httpHeaderDelim ++ value ++ httpCtrl)

/-- The bytes counted by the return value: none when it is `false`. -/
def generateResponse (response : HttpResponse) (size : Nat) : Bytes :=
  let status :=
    ascii ['H', 'T', 'T', 'P', '/', '1', '.', '1', ' '] ++ decimal response.statusCode ++ [space]
  if size ≤ response.statusMsg.length + status.length + 2 then []
  else
    match writeHeaders size response.httpHeader.entries
        (status ++ response.statusMsg ++ httpCtrl) with
    | none => []
    | some head =>
        if size ≤ head.length + 2 + response.httpBody.length + 1 then []
        else head ++ httpCtrl ++ response.httpBody

def cleanUp (response : HttpResponse) : HttpResponse :=
  { response with
    closeConn := false
    response := false
    msgLen := 0
    statusMsg := []
    httpBody := []
    httpHeader := .empty }

end HttpResponse

end BackEndFacility
