import GStore.Db.RedoRecord
import GStore.Foundation.Utf8

/-! # Form parameters

`server.rs`, `form_get` and `url_decode`. A parameter is sought in a text cut at every
ampersand; names and values are decoded byte by byte, and what is not UTF-8 then is replaced. -/

namespace GStore.Http

open Reason

def hex (byte : UInt8) : Option UInt8 :=
  if '0'.toUInt8 ≤ byte ∧ byte ≤ '9'.toUInt8 then some (byte - '0'.toUInt8)
  else if 'a'.toUInt8 ≤ byte ∧ byte ≤ 'f'.toUInt8 then some (byte - 'a'.toUInt8 + 10)
  else if 'A'.toUInt8 ≤ byte ∧ byte ≤ 'F'.toUInt8 then some (byte - 'A'.toUInt8 + 10)
  else none

/-- The byte that two hexadecimal digits stand for. -/
def hexPair (high low : UInt8) : Option UInt8 := do
  return (← hex high) * 16 + (← hex low)

def plain (byte : UInt8) : UInt8 := if byte = '+'.toUInt8 then ' '.toUInt8 else byte

/-- The loop of `url_decode`: a percent sign without two digits stands for itself. -/
def urlBytes : Bytes → Bytes
  | byte :: high :: low :: rest =>
    if byte = '%'.toUInt8 then
      match hexPair high low with
      | some decoded => decoded :: urlBytes rest
      | none => byte :: urlBytes (high :: low :: rest)
    else plain byte :: urlBytes (high :: low :: rest)
  | short => short.map plain

def urlDecode (text : Text) : Text := Utf8.lossy (urlBytes (utf8 text))

/-- `str::split_once`. -/
def splitOnce (separator : Char) : Text → Option (Text × Text)
  | [] => none
  | char :: rest =>
    if char = separator then some ([], rest)
    else (splitOnce separator rest).map fun (front, back) => (char :: front, back)

/-- The value of a `key=value` piece, if its decoded key is the one sought. -/
def pairValue (key piece : Text) : Option Text :=
  match splitOnce '=' piece with
  | some (name, value) => if urlDecode name = key then some (urlDecode value) else none
  | none => none

def formGet (text key : Text) : Option Text := (text.splitOn '&').findSome? (pairValue key)

end GStore.Http
