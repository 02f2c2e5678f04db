import GStore.Http.Form

/-! # HTTP requests

`server.rs`, `Request`: a request is read off a byte stream line by line, and its parameters
are sought in the query of its target first and in its body then, whatever the body is. A
header whose scheme is cut inside a character is a panic, the outer `none`. -/

namespace GStore.Http

open Reason

structure Request where
  method : Text
  path : Text
  query : Option Text
  /-- Names are in lower case. -/
  headers : List (Text × Text)
  body : Bytes

def maxRequestBody : Nat := 256 * 1024 * 1024

inductive RequestError where
  | notUtf8
  | oversized
  | truncated
deriving DecidableEq

namespace Request

/-! ## Reading -/

def toAsciiLower (text : Text) : Text := text.map Char.toLower

/-- `BufRead::read_line`: up to and with the line feed; an empty line is the end. -/
def readLine (bytes : Bytes) : Except RequestError (Text × Bytes) :=
  let cut := (bytes.takeWhile (· != '\n'.toUInt8)).length + 1
  match fromUtf8 (bytes.take cut) with
  | some line => .ok (line, bytes.drop cut)
  | none => .error .notUtf8

def trimEnd (text : Text) : Text := (text.reverse.dropWhile isWhite).reverse

/-- `str::parse::<usize>`. -/
def parseUsize (text : Text) : Option Nat :=
  let digits := match text with
    | '+' :: rest => rest
    | _ => text
  if digits ≠ [] ∧ digits.all Char.isDigit then
    let value := digits.foldl (fun value digit => value * 10 + (digit.toNat - '0'.toNat)) 0
    if value < 2 ^ 64 then some value else none
  else none

/-- The header lines: the length of the body, the headers and what follows them. -/
def readHeaders : Nat → Bytes → Nat → List (Text × Text) →
    Except RequestError (Nat × List (Text × Text) × Bytes)
  | 0, bytes, length, headers => .ok (length, headers, bytes)
  | fuel + 1, bytes, length, headers => do
    let (line, rest) ← readLine bytes
    let line := trimEnd line
    if line = [] then
      return (length, headers, rest)
    match splitOnce ':' line with
    | none => readHeaders fuel rest length headers
    | some (name, value) =>
      let name := toAsciiLower (trim name)
      let value := trim value
      let length :=
        if name = "content-length".toList then (parseUsize value).getD 0 else length
      readHeaders fuel rest length (headers ++ [(name, value)])

/-- `none` is a stream that was closed before the first byte. -/
def parse (bytes : Bytes) : Except RequestError (Option Request) := do
  if bytes = [] then
    return none
  let (line, rest) ← readLine bytes
  let words := splitWhitespace [] line
  let method := (words[0]?).getD []
  let target := (words[1]?).getD []
  let (path, query) := match splitOnce '?' target with
    | some (path, query) => (path, some query)
    | none => (target, none)
  let (length, headers, rest) ← readHeaders (rest.length + 1) rest 0 []
  if maxRequestBody < length then
    throw .oversized
  if rest.length < length then
    throw .truncated
  return some { method, path, query, headers, body := rest.take length }

/-! ## Parameters -/

variable (request : Request)

def header (name : Text) : Option Text :=
  (request.headers.find? fun entry => entry.1 == name).map Prod.snd

def bodyStr : Text := Utf8.lossy request.body

def param (key : String) : Option Text :=
  (request.query.bind (formGet · key.toList)).orElse fun _ => formGet request.bodyStr key.toList

/-- The query text: a `query` parameter, else the body. -/
def queryString : Option Text :=
  (request.param "query").orElse fun _ =>
    if trim request.bodyStr = [] then none else some (trim request.bodyStr)

/-! ## Credentials -/

/-- Cut after so many bytes; `none` is a cut inside a character. -/
def splitAtByte : Nat → Text → Option (Text × Text)
  | 0, text => some ([], text)
  | _ + 1, [] => none
  | count, char :: rest =>
    if char.utf8Size ≤ count then
      (splitAtByte (count - char.utf8Size) rest).map fun (front, back) => (char :: front, back)
    else none

/-- What follows the scheme in the value of a header, in any case. -/
def stripScheme (scheme : String) (value : Text) : Option (Option Text) :=
  let value := value.dropWhile isWhite
  if (utf8 value).length < scheme.toList.length then some none
  else
    (splitAtByte scheme.toList.length value).map fun (front, back) =>
      if toAsciiLower front = scheme.toList then some back else none

def base64Digit (byte : UInt8) : Option Nat :=
  let code := byte.toNat
  if 65 ≤ code ∧ code ≤ 90 then some (code - 65)
  else if 97 ≤ code ∧ code ≤ 122 then some (code - 97 + 26)
  else if 48 ≤ code ∧ code ≤ 57 then some (code - 48 + 52)
  else if code = 43 then some 62
  else if code = 47 then some 63
  else none

/-- Whether a byte is skipped: carriage return, line feed, blank and tab. -/
def base64Blank (byte : UInt8) : Bool :=
  byte == 13 || byte == 10 || byte == 32 || byte == 9

/-- `base64_decode`: up to the padding, with the bits that are not written out yet. -/
def base64From (acc bits : Nat) : Bytes → Option Bytes
  | [] => some []
  | byte :: rest =>
    match base64Digit byte with
    | some digit =>
      let acc := acc * 64 + digit
      let bits := bits + 6
      if 8 ≤ bits then
        (base64From (acc % 2 ^ (bits - 8)) (bits - 8) rest).map
          (UInt8.ofNat (acc / 2 ^ (bits - 8)) :: ·)
      else base64From acc bits rest
    | none =>
      if byte = '='.toUInt8 then some []
      else if base64Blank byte then base64From acc bits rest
      else none

def parseBasicAuth : Option (Option (Text × Text)) :=
  match request.header "authorization".toList with
  | none => some none
  | some value =>
    (stripScheme "basic " value).map fun token => do
      let decoded ← base64From 0 0 (utf8 (trim (← token)))
      splitOnce ':' (← fromUtf8 decoded)

def bearerOrSessionToken : Option (Option Text) :=
  let fallback := match request.header "x-session-token".toList with
    | some value => some (trim value)
    | none => (request.param "session").orElse fun _ => request.param "token"
  match request.header "authorization".toList with
  | none => some fallback
  | some value =>
    (stripScheme "bearer " value).map fun token =>
      match token with
      | some token => some (trim token)
      | none => fallback

end Request

end GStore.Http
