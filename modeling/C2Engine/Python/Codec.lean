import C2Engine.Python.Object

/-!
# Bytes and text

UTF-8 with the error handlers `strict`, `ignore` and `surrogateescape`, Latin-1, and Base64 as
`base64.b64decode(s, validate=True)` reads it.

## Main definitions

* `utf8Decode`, `utf8DecodeIgnore`, `utf8DecodeEscape`, `latin1Decode`: `data.decode(...)`.
* `utf8Encode`, `utf8EncodeEscape`: `s.encode(...)`.
* `b64decode`: the bytes of a Base64 text, `none` where `binascii.Error` or `ValueError` is raised.
* `b64encode`, `hexText`: bytes as text.
-/

namespace C2Engine.Python

/-- A continuation byte with its six bits. -/
def tailBits (b : UInt8) (lo hi : ℕ) : Option ℕ :=
  if lo ≤ b.toNat ∧ b.toNat ≤ hi then some (b.toNat - 0x80) else none

/-- The code point of a number below the end of the code space. -/
def codePoint? (n : ℕ) : Option CodePoint := if h : n < 0x110000 then some ⟨n, h⟩ else none

/-- The first character of a well-formed UTF-8 text and the number of its bytes. -/
def utf8First : Bytes → Option (CodePoint × ℕ)
  | [] => none
  | b :: bs =>
    let b := b.toNat
    if b < 0x80 then (codePoint? b).map (·, 1)
    else if 0xC2 ≤ b ∧ b ≤ 0xDF then match bs with
      | c :: _ => do
        let c ← tailBits c 0x80 0xBF
        (codePoint? ((b - 0xC0) * 64 + c)).map (·, 2)
      | _ => none
    else if 0xE0 ≤ b ∧ b ≤ 0xEF then match bs with
      | c :: d :: _ => do
        let c ← tailBits c (if b = 0xE0 then 0xA0 else 0x80) (if b = 0xED then 0x9F else 0xBF)
        let d ← tailBits d 0x80 0xBF
        (codePoint? (((b - 0xE0) * 64 + c) * 64 + d)).map (·, 3)
      | _ => none
    else if 0xF0 ≤ b ∧ b ≤ 0xF4 then match bs with
      | c :: d :: e :: _ => do
        let c ← tailBits c (if b = 0xF0 then 0x90 else 0x80) (if b = 0xF4 then 0x8F else 0xBF)
        let d ← tailBits d 0x80 0xBF
        let e ← tailBits e 0x80 0xBF
        (codePoint? ((((b - 0xF0) * 64 + c) * 64 + d) * 64 + e)).map (·, 4)
      | _ => none
    else none

/-- The decoder loop; `skip` bytes belong to the character decoded last. An ill-formed sequence
ends it when `strict`, and is left out otherwise. -/
def utf8Go (strict : Bool) : ℕ → Bytes → Option PyStr
  | _, [] => some []
  | skip + 1, _ :: bs => utf8Go strict skip bs
  | 0, b :: bs => match utf8First (b :: bs) with
    | some (c, n) => (utf8Go strict (n - 1) bs).map (c :: ·)
    | none => if strict then none else utf8Go strict 0 bs

/-- `data.decode("utf-8")`; `none` is its `UnicodeDecodeError`. -/
def utf8Decode (data : Bytes) : Option PyStr := utf8Go true 0 data

/-- `data.decode("utf-8", "ignore")`. -/
def utf8DecodeIgnore (data : Bytes) : PyStr := (utf8Go false 0 data).getD []

/-- The loop of the decoder with the handler `surrogateescape`: a byte of an ill-formed sequence
becomes a lone surrogate. -/
def utf8EscapeGo : ℕ → Bytes → PyStr
  | _, [] => []
  | skip + 1, _ :: bs => utf8EscapeGo skip bs
  | 0, b :: bs => match utf8First (b :: bs) with
    | some (c, n) => c :: utf8EscapeGo (n - 1) bs
    | none => ⟨0xDC00 + b.toNat, by have := b.toNat_lt; omega⟩ :: utf8EscapeGo 0 bs

/-- `data.decode("utf-8", "surrogateescape")`. -/
def utf8DecodeEscape (data : Bytes) : PyStr := utf8EscapeGo 0 data

/-- `data.decode("latin-1")`. -/
def latin1Decode (data : Bytes) : PyStr :=
  data.map fun b => ⟨b.toNat, b.toNat_lt.trans (by decide)⟩

/-! ### Encoding -/

/-- The bytes of a character in UTF-8. -/
def utf8EncodeChar (c : CodePoint) : Bytes :=
  let n := c.val
  (if n < 0x80 then [n]
  else if n < 0x800 then [0xC0 + n / 64, 0x80 + n % 64]
  else if n < 0x10000 then [0xE0 + n / 4096, 0x80 + n / 64 % 64, 0x80 + n % 64]
  else [0xF0 + n / 262144, 0x80 + n / 4096 % 64, 0x80 + n / 64 % 64, 0x80 + n % 64]).map UInt8.ofNat

/-- `s.encode("utf-8")`, which raises at a lone surrogate. -/
def utf8Encode (s : PyStr) : Except PyExc Bytes :=
  if s.Encodable then .ok (s.flatMap utf8EncodeChar) else .error .valueError

/-- `s.encode("utf-8", "surrogateescape")`: the surrogates of `utf8DecodeEscape` become the bytes
they came from, and others raise. -/
def utf8EncodeEscape (s : PyStr) : Except PyExc Bytes := do
  let parts ← s.mapM fun c =>
    if 0xDC80 ≤ c.val ∧ c.val ≤ 0xDCFF then .ok [UInt8.ofNat (c.val - 0xDC00)]
    else if c.isSurrogate then .error .valueError
    else .ok (utf8EncodeChar c)
  return parts.flatten

/-- `s.encode("ascii")` of an ASCII text. -/
def asciiBytes (s : PyStr) : Bytes := s.map fun c => UInt8.ofNat c.val

theorem isOk_utf8Encode (s : PyStr) : (utf8Encode s).isOk ↔ s.Encodable := by
  unfold utf8Encode
  split
  · next h => exact iff_of_true rfl h
  · next h => exact iff_of_false Bool.false_ne_true h

/-! ### Base64 -/

/-- The value of a character of the Base64 alphabet. -/
def b64Value (c : CodePoint) : Option ℕ :=
  if c.between 'A' 'Z' then some (c.val - 65)
  else if c.between 'a' 'z' then some (c.val - 71)
  else if c.between '0' '9' then some (c.val + 4)
  else if c = cp '+' then some 62
  else if c = cp '/' then some 63
  else none

/-- The loop of `binascii.a2b_base64` in strict mode: `quad` is the place in the group of four,
`left` the bits not yet written, `pads` the padding seen in the group and `padded` whether any
padding was seen. -/
def a2bGo : PyStr → (quad left pads : ℕ) → (padded : Bool) → Option Bytes
  | [], quad, _, _, _ => if quad = 0 then some [] else none
  | c :: cs, quad, left, pads, padded =>
    if c = cp '=' then
      if 2 ≤ quad ∧ 4 ≤ quad + (pads + 1) then (if cs.isEmpty then some [] else none)
      else a2bGo cs quad left (if 2 ≤ quad then pads + 1 else pads) true
    else match b64Value c with
      | none => none
      | some v =>
        if padded then none
        else match quad with
          | 0 => a2bGo cs 1 v 0 padded
          | 1 => (a2bGo cs 2 (v % 16) 0 padded).map (UInt8.ofNat (left * 4 + v / 16) :: ·)
          | 2 => (a2bGo cs 3 (v % 4) 0 padded).map (UInt8.ofNat (left * 16 + v / 4) :: ·)
          | _ => (a2bGo cs 0 0 0 padded).map (UInt8.ofNat (left * 64 + v) :: ·)

/-- `base64.b64decode(s, validate=True)`; `none` is its `binascii.Error`, and the `ValueError` for
text outside ASCII. -/
def b64decode (s : PyStr) : Option Bytes :=
  if s.head? = some (cp '=') then none else a2bGo s 0 0 0 false

example : (b64decode (str "aMOp")).bind utf8Decode = some [104, 233] := by decide

/-- The character of the Base64 alphabet with a value. -/
def b64Char (n : ℕ) : CodePoint :=
  (str "ABCDEFGHIJKLMNOPQRSTUVWXYZabcdefghijklmnopqrstuvwxyz0123456789+/").getD n (cp '=')

/-- `base64.b64encode(data).decode("ascii")`. -/
def b64encode : Bytes → PyStr
  | [] => []
  | [a] => [b64Char (a.toNat / 4), b64Char (a.toNat % 4 * 16), cp '=', cp '=']
  | [a, b] => [b64Char (a.toNat / 4), b64Char (a.toNat % 4 * 16 + b.toNat / 16),
      b64Char (b.toNat % 16 * 4), cp '=']
  | a :: b :: c :: data => [b64Char (a.toNat / 4), b64Char (a.toNat % 4 * 16 + b.toNat / 16),
      b64Char (b.toNat % 16 * 4 + c.toNat / 64), b64Char (c.toNat % 64)] ++ b64encode data

example : b64encode [104, 195, 169, 10] = str "aMOpCg==" := by decide

/-- `data.hex()`. -/
def hexText (data : Bytes) : PyStr :=
  let digit (n : ℕ) := (str "0123456789abcdef").getD n (cp '0')
  data.flatMap fun b => [digit (b.toNat / 16), digit (b.toNat % 16)]

end C2Engine.Python
