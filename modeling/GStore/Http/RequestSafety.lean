import GStore.Http.Base64
import GStore.Http.Registry

/-! # Requests that stop a worker

`server.rs`: the helpers that look at a request index its bytes and cut its headers. The loops stay
inside their bytes; a header is cut at a byte that may lie inside a character. -/

namespace GStore.Http

open Reason

/-! ## Percent signs -/

/-- `url_decode` with its index: the outer `none` is an index out of range or an overflow. -/
def urlLoop (bytes : Bytes) : Nat → Nat → Bytes → Option Bytes
  | 0, _, _ => none
  | fuel + 1, i, out =>
    if i < bytes.length then do
      let byte ← bytes[i]?
      if byte = '+'.toUInt8 then urlLoop bytes fuel (i + 1) (out ++ [' '.toUInt8])
      else if byte = '%'.toUInt8 ∧ i + 2 < bytes.length then do
        let first ← bytes[i + 1]?
        let second ← bytes[i + 2]?
        match hex first, hex second with
        | some high, some low =>
          if high.toNat * 16 + low.toNat < 256 then
            urlLoop bytes fuel (i + 3) (out ++ [high * 16 + low])
          else none
        | _, _ => urlLoop bytes fuel (i + 1) (out ++ ['%'.toUInt8])
      else urlLoop bytes fuel (i + 1) (out ++ [byte])
    else some out

theorem toNat_sub_le {byte base top : UInt8} (low : base ≤ byte) (high : byte ≤ top) :
    (byte - base).toNat ≤ top.toNat - base.toNat := by
  have bound : byte.toNat ≤ top.toNat := high
  rw [UInt8.toNat_sub_of_le _ _ low]
  omega

theorem hex_lt {byte digit : UInt8} (isDigit : hex byte = some digit) : digit.toNat < 16 := by
  rw [hex] at isDigit
  split_ifs at isDigit with decimal lower upper
  · obtain rfl := Option.some.inj isDigit
    have small : _ ≤ 9 := toNat_sub_le decimal.1 decimal.2
    omega
  · obtain rfl := Option.some.inj isDigit
    have small : _ ≤ 5 := toNat_sub_le lower.1 lower.2
    rw [UInt8.toNat_add]
    change (_ + 10) % 256 < 16
    omega
  · obtain rfl := Option.some.inj isDigit
    have small : _ ≤ 5 := toNat_sub_le upper.1 upper.2
    rw [UInt8.toNat_add]
    change (_ + 10) % 256 < 16
    omega

theorem urlBytes_other {byte : UInt8} (other : byte ≠ '%'.toUInt8) (rest : Bytes) :
    urlBytes (byte :: rest) = plain byte :: urlBytes rest := by
  rcases rest with _ | ⟨high, _ | ⟨low, rest⟩⟩
  · rfl
  · rfl
  · rw [urlBytes, if_neg other]

theorem urlBytes_short {rest : Bytes} (short : rest.length < 2) (byte : UInt8) :
    urlBytes (byte :: rest) = plain byte :: urlBytes rest := by
  rcases rest with _ | ⟨high, _ | ⟨low, rest⟩⟩
  · rfl
  · rfl
  · simp only [List.length_cons] at short
    omega

theorem urlBytes_pair {high low decoded : UInt8} (isPair : hexPair high low = some decoded)
    (rest : Bytes) : urlBytes ('%'.toUInt8 :: high :: low :: rest) = decoded :: urlBytes rest := by
  rw [urlBytes, if_pos rfl, isPair]

theorem urlBytes_bare {high low : UInt8} (bare : hexPair high low = none) (rest : Bytes) :
    urlBytes ('%'.toUInt8 :: high :: low :: rest) =
      '%'.toUInt8 :: urlBytes (high :: low :: rest) := by
  rw [urlBytes, if_pos rfl, bare]

/-- The index stays inside the bytes, and the loop ends. -/
theorem urlLoop_eq (bytes : Bytes) (fuel : Nat) : ∀ (i : Nat) (out : Bytes), i ≤ bytes.length →
    bytes.length < fuel + i → urlLoop bytes fuel i out = some (out ++ urlBytes (bytes.drop i)) := by
  induction fuel with
  | zero =>
    intro i out inside enough
    omega
  | succ fuel induction =>
    intro i out inside enough
    rw [urlLoop]
    by_cases more : i < bytes.length
    · have cut : bytes.drop i = bytes[i] :: bytes.drop (i + 1) :=
        List.drop_eq_getElem_cons more
      have once := fun byte => induction (i + 1) (out ++ [byte]) (by omega) (by omega)
      rw [if_pos more, List.getElem?_eq_getElem more, cut]
      dsimp only [Option.bind_eq_bind, Option.bind_some]
      by_cases plus : bytes[i] = '+'.toUInt8
      · rw [if_pos plus, once, plus, urlBytes_other (by decide), List.append_assoc]
        rfl
      · rw [if_neg plus]
        have same : plain bytes[i] = bytes[i] := if_neg plus
        by_cases percent : bytes[i] = '%'.toUInt8
        · by_cases room : i + 2 < bytes.length
          · have next : bytes.drop (i + 1) =
                bytes[i + 1] :: bytes[i + 2] :: bytes.drop (i + 3) := by
              rw [List.drop_eq_getElem_cons (by omega), List.drop_eq_getElem_cons room]
            rw [if_pos ⟨percent, room⟩, List.getElem?_eq_getElem (show i + 1 < _ by omega),
              List.getElem?_eq_getElem room]
            dsimp only [Option.bind_some]
            cases isHigh : hex bytes[i + 1] with
            | none =>
              have bare : hexPair bytes[i + 1] bytes[i + 2] = none := by
                rw [hexPair, isHigh]
                rfl
              dsimp only
              rw [once, percent, next, urlBytes_bare bare, List.append_assoc]
              rfl
            | some high =>
              cases isLow : hex bytes[i + 2] with
              | none =>
                have bare : hexPair bytes[i + 1] bytes[i + 2] = none := by
                  rw [hexPair, isHigh, isLow]
                  rfl
                dsimp only
                rw [once, percent, next, urlBytes_bare bare, List.append_assoc]
                rfl
              | some low =>
                have isPair : hexPair bytes[i + 1] bytes[i + 2] = some (high * 16 + low) := by
                  rw [hexPair, isHigh, isLow]
                  rfl
                have highSmall := hex_lt isHigh
                have lowSmall := hex_lt isLow
                dsimp only
                rw [if_pos (by omega), induction (i + 3) _ room (by omega), percent, next,
                  urlBytes_pair isPair, List.append_assoc]
                rfl
          · have short : (bytes.drop (i + 1)).length < 2 := by
              rw [List.length_drop]
              omega
            rw [if_neg (fun both => room both.2), once, urlBytes_short short, same,
              List.append_assoc]
            rfl
        · rw [if_neg (fun both => percent both.1), once, urlBytes_other percent, same,
            List.append_assoc]
          rfl
    · have done : bytes.drop i = [] := List.drop_eq_nil_of_le (by omega)
      rw [if_neg more, done]
      exact congrArg some (List.append_nil out).symm

/-- `url_decode` up to its conversion. -/
def urlChecked (text : Text) : Option Bytes := urlLoop (utf8 text) ((utf8 text).length + 1) 0 []

theorem urlChecked_eq (text : Text) : urlChecked text = some (urlBytes (utf8 text)) :=
  urlLoop_eq (utf8 text) _ 0 [] (Nat.zero_le _) (Nat.lt_succ_self _)

/-! ## Schemes -/

/-- A text can be cut after so many bytes, or is not asked to be: it is shorter. -/
def CutsAt (count : Nat) (text : Text) : Prop :=
  (utf8 text).length < count ∨ ∃ front back, text = front ++ back ∧ (utf8 front).length = count

namespace Request

theorem utf8_cons_length (char : Char) (text : Text) :
    (utf8 (char :: text)).length = char.utf8Size + (utf8 text).length := by
  rw [utf8_cons, List.length_append, String.length_utf8EncodeChar]

theorem isSome_splitAtByte (text : Text) : ∀ count, (splitAtByte count text).isSome ↔
    ∃ front back, text = front ++ back ∧ (utf8 front).length = count := by
  induction text with
  | nil =>
    intro count
    cases count with
    | zero => exact iff_of_true rfl ⟨[], [], rfl, rfl⟩
    | succ count =>
      refine iff_of_false (by simp [splitAtByte]) ?_
      rintro ⟨front, back, same, width⟩
      obtain ⟨rfl, rfl⟩ := List.append_eq_nil_iff.mp same.symm
      cases width
  | cons char rest induction =>
    intro count
    cases count with
    | zero => exact iff_of_true rfl ⟨[], char :: rest, rfl, rfl⟩
    | succ count =>
      rw [splitAtByte.eq_3 (count + 1) char rest (Nat.succ_ne_zero count)]
      split_ifs with fits
      · rw [Option.isSome_map, induction]
        constructor
        · rintro ⟨front, back, rfl, width⟩
          refine ⟨char :: front, back, rfl, ?_⟩
          rw [utf8_cons_length, width]
          omega
        · rintro ⟨_ | ⟨other, front⟩, back, same, width⟩
          · cases width
          · obtain ⟨rfl, rfl⟩ := List.cons.inj same
            rw [utf8_cons_length] at width
            exact ⟨front, back, rfl, by omega⟩
      · refine iff_of_false (by simp) ?_
        rintro ⟨_ | ⟨other, front⟩, back, same, width⟩
        · cases width
        · obtain ⟨rfl, rfl⟩ := List.cons.inj same
          rw [utf8_cons_length] at width
          omega

theorem isSome_stripScheme (scheme : String) (value : Text) : (stripScheme scheme value).isSome ↔
    CutsAt scheme.toList.length (value.dropWhile isWhite) := by
  rw [stripScheme, CutsAt]
  dsimp only
  split_ifs with short
  · exact iff_of_true rfl (.inl short)
  · rw [Option.isSome_map, isSome_splitAtByte, or_iff_right short]

/-! ## Requests -/

/-- `ct_eq`. -/
def ctEq (left right : Bytes) : Bool :=
  left.length == right.length &&
    (left.zip right).foldl (fun diff (x, y) => diff ||| (x ^^^ y)) 0 == 0

variable (request : Request)

/-- The outer `none` is a cut inside a character, or a shift too far. -/
def authorized (user pass : Text) : Option Bool :=
  match request.header "authorization".toList with
  | none => some false
  | some value =>
    (stripScheme "basic " value).bind fun token =>
      match token with
      | none => some false
      | some token =>
        (Base64.decode (trim token)).map fun decoded =>
          match decoded with
          | none => false
          | some decoded => ctEq decoded (utf8 (user ++ ':' :: pass))

/-- What `base64_decode` reserves. -/
def capacity (text : Text) : Nat := (utf8 text).length / 4 * 3 + 3

/-- No helper stops its worker: what is allocated is bounded, every helper that cuts or indexes
returns, and the decoder reads what the encoder writes. -/
structure Safe (user pass : Text) : Prop where
  body : request.body.length ≤ maxRequestBody
  basic : request.parseBasicAuth.isSome
  authorized : (request.authorized user pass).isSome
  session : request.bearerOrSessionToken.isSome
  percent : ∀ text, urlChecked text = some (urlBytes (utf8 text))
  decoded : ∀ text, Base64.decode text = some (base64From 0 0 (utf8 text))
  reserved : ∀ text, (utf8 text).length < 2 ^ 63 → capacity text < 2 ^ 63
  encoded : ∀ input, ∃ text, Base64.encode input = some text ∧
    Base64.decode text = some (some input)

/-- The header's value can be cut after the length of either scheme. -/
def HeaderCuts : Prop := ∀ value, request.header "authorization".toList = some value →
  CutsAt 6 (value.dropWhile isWhite) ∧ CutsAt 7 (value.dropWhile isWhite)

variable {request}

theorem isSome_parseBasicAuth : request.parseBasicAuth.isSome ↔
    ∀ value, request.header "authorization".toList = some value →
      CutsAt 6 (value.dropWhile isWhite) := by
  rw [parseBasicAuth]
  cases request.header "authorization".toList with
  | none => simp only [Option.isSome_some, reduceCtorEq, false_implies, implies_true]
  | some value =>
    simp only [Option.isSome_map, isSome_stripScheme, Option.some.injEq, forall_eq']
    exact Iff.rfl

theorem isSome_authorized (user pass : Text) : (request.authorized user pass).isSome ↔
    ∀ value, request.header "authorization".toList = some value →
      CutsAt 6 (value.dropWhile isWhite) := by
  rw [authorized]
  cases request.header "authorization".toList with
  | none => simp only [Option.isSome_some, reduceCtorEq, false_implies, implies_true]
  | some value =>
    simp only [Option.some.injEq, forall_eq']
    rw [show 6 = "basic ".toList.length from rfl, ← isSome_stripScheme]
    rcases stripScheme "basic " value with _ | _ | token
    · exact Iff.rfl
    · exact Iff.rfl
    · rw [Option.bind_some]
      dsimp only
      rw [Base64.decode_eq]
      exact Iff.rfl

theorem isSome_bearerOrSessionToken : request.bearerOrSessionToken.isSome ↔
    ∀ value, request.header "authorization".toList = some value →
      CutsAt 7 (value.dropWhile isWhite) := by
  rw [bearerOrSessionToken]
  cases request.header "authorization".toList with
  | none => simp only [Option.isSome_some, reduceCtorEq, false_implies, implies_true]
  | some value =>
    simp only [Option.isSome_map, isSome_stripScheme, Option.some.injEq, forall_eq']
    exact Iff.rfl

/-- The body is no longer than its header said, which is checked before it is reserved. -/
theorem length_body_le {bytes : Bytes} {parsed : Request}
    (isParsed : parse bytes = .ok (some parsed)) : parsed.body.length ≤ maxRequestBody := by
  rw [parse] at isParsed
  by_cases closed : bytes = []
  · rw [if_pos closed] at isParsed
    cases isParsed
  · rw [if_neg closed] at isParsed
    simp only [pure, Except.pure, GStore.Parser.bind_eq_ok] at isParsed
    obtain ⟨⟨line, rest⟩, _, isParsed⟩ := isParsed
    dsimp only at isParsed
    obtain ⟨⟨length, headers, rest⟩, _, isParsed⟩ := isParsed
    dsimp only at isParsed
    split_ifs at isParsed with oversized truncated truncated
    · cases isParsed
    · cases isParsed
    · cases isParsed
    · obtain rfl := Option.some.inj (Except.ok.inj isParsed)
      have taken : (rest.take length).length ≤ length := List.length_take_le _ _
      exact taken.trans (Nat.le_of_not_lt oversized)

theorem safe_iff {parsed : Request} (body : parsed.body.length ≤ maxRequestBody)
    (user pass : Text) : parsed.Safe user pass ↔ parsed.HeaderCuts := by
  constructor
  · rintro safe value found
    exact ⟨isSome_parseBasicAuth.mp safe.basic value found,
      isSome_bearerOrSessionToken.mp safe.session value found⟩
  · intro cuts
    exact {
      body
      basic := isSome_parseBasicAuth.mpr fun value found => (cuts value found).1
      authorized := (isSome_authorized user pass).mpr fun value found => (cuts value found).1
      session := isSome_bearerOrSessionToken.mpr fun value found => (cuts value found).2
      percent := urlChecked_eq
      decoded := Base64.decode_eq
      reserved := fun text small => by
        rw [capacity]
        omega
      encoded := fun input => by
        obtain ⟨text, written, read⟩ := Base64.decode_encode input
        rw [← Option.some_inj, ← Base64.decode_eq] at read
        exact ⟨text, written, read⟩ }

/-- The only requests that stop a worker are those whose header is cut inside a character. -/
theorem safe_iff_headerCuts (bytes : Bytes) (user pass : Text) :
    (∀ parsed, parse bytes = .ok (some parsed) → parsed.Safe user pass) ↔
      ∀ parsed, parse bytes = .ok (some parsed) → parsed.HeaderCuts :=
  forall₂_congr fun _ isParsed => safe_iff (length_body_le isParsed) user pass

/-- A header whose seventh byte lies inside a character. -/
def cutInside : Bytes := utf8 "GET / HTTP/1.1\r\nAuthorization: éééé\r\n\r\n".toList

theorem bearer_cutInside : ((parse cutInside).toOption.join.map
    fun parsed => parsed.bearerOrSessionToken.isSome) = some false := by
  decide

theorem not_safe : ¬ ∀ bytes user pass parsed, parse bytes = .ok (some parsed) →
    parsed.Safe user pass := by
  intro all
  obtain ⟨parsed, isParsed, stops⟩ := Option.map_eq_some_iff.mp bearer_cutInside
  have read : parse cutInside = .ok (some parsed) := by
    cases reading : parse cutInside with
    | error failure =>
      rw [reading] at isParsed
      cases isParsed
    | ok found =>
      rw [reading] at isParsed
      exact congrArg Except.ok isParsed
  have safe := all cutInside [] [] parsed read
  rw [safe.session] at stops
  cases stops

end Request

end GStore.Http
