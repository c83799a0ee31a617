import C2Engine.Python.Datetime

/-!
# What the engine calls outside its own source

The hash functions of `hashlib`, the conversions of scalars that `pydantic` does in its lax mode,
the parser of ISO 8601 times, the clock, and of the interpreter the texts of values and the limit
on recursion. They are parameters of the development: a theorem about the engine holds for whatever
they return.

## Main definitions

* `Hashlib`, `Pydantic`: the hash functions and the conversions.
* `Runtime`: all of them, with the character database.
* `Runtime.pyStr`: the text of a value.
* `Runtime.basic`: a runtime for closed examples.
-/

namespace C2Engine

open Python

/-- The hash functions, each giving its digest in hexadecimal. -/
structure Hashlib where
  sha1 : Bytes → PyStr
  md5 : Bytes → PyStr
  sha256 : Bytes → PyStr
  length_sha1 : ∀ data, (sha1 data).length = 40
  length_md5 : ∀ data, (md5 data).length = 32
  length_sha256 : ∀ data, (sha256 data).length = 64
  sha1_hex : ∀ data, ∀ c ∈ sha1 data, c.isAsciiDigit || c.between 'a' 'f'

/-- The conversions of scalars: `none` is a validation error. -/
structure Pydantic where
  /-- A field of type `int`. -/
  parseInt : Obj → Option ℤ
  /-- A field of type `bool`. -/
  parseBool : Obj → Option Bool
  /-- A field of type `datetime`. -/
  parseDatetime : Obj → Option Datetime
  /-- A `datetime` dumped in JSON mode. -/
  dumpDatetime : Datetime → PyStr

/-- The runtime. -/
structure Runtime where
  unicode : Unicode
  hashlib : Hashlib
  pydantic : Pydantic
  /-- `datetime.fromisoformat`; `none` is its `ValueError`. -/
  fromisoformat : PyStr → Option Datetime
  /-- `datetime.now(UTC)`. -/
  now : Datetime
  /-- The text of a value that is no text, `None`, truth value or whole number. -/
  repr : Obj → PyStr
  /-- How deep arrays and objects may be nested before `json.loads` exceeds the recursion limit. -/
  jsonDepth : ℕ
  /-- How many calls of `copy.deepcopy` the recursion limit leaves room for in `enrich_session`. -/
  enrichCalls : ℕ
  /-- The same in `_strip_bytes`, which stands on fewer callers. -/
  stripCalls : ℕ
  enrichCalls_le : enrichCalls ≤ stripCalls
  five_le_enrichCalls : 5 ≤ enrichCalls
  /-- `int(text)`; `none` is its `ValueError`. -/
  parseIntText : PyStr → Option ℤ

/-- `str(v)`. -/
def Runtime.pyStr (rt : Runtime) : Obj → PyStr
  | .str s => s
  | .none => str "None"
  | .bool b => str (if b then "True" else "False")
  | .int n => if n < 0 then cp '-' :: PyStr.ofNat n.natAbs else PyStr.ofNat n.natAbs
  | v => rt.repr v

/-- Hash functions that answer every input with the digest of the empty byte string. -/
def Hashlib.empty : Hashlib where
  sha1 _ := str "da39a3ee5e6b4b0d3255bfef95601890afd80709"
  md5 _ := str "d41d8cd98f00b204e9800998ecf8427e"
  sha256 _ := str "e3b0c44298fc1c149afbf4c8996fb92427ae41e4649b934ca495991b7852b855"
  length_sha1 _ := rfl
  length_md5 _ := rfl
  length_sha256 _ := rfl
  sha1_hex _ := by
    have hall : (str "da39a3ee5e6b4b0d3255bfef95601890afd80709").all
        fun c => c.isAsciiDigit || c.between 'a' 'f' := by decide
    exact List.all_eq_true.mp hall

/-- Conversions that accept values of the type itself and, of times, none. -/
def Pydantic.basic : Pydantic where
  parseInt
    | .int n => some n
    | _ => none
  parseBool
    | .bool b => some b
    | _ => none
  parseDatetime _ := none
  dumpDatetime _ := []

/-- A runtime on which closed examples are evaluated. -/
def Runtime.basic : Runtime where
  unicode := .basic
  hashlib := .empty
  pydantic := .basic
  fromisoformat _ := none
  now := ⟨0, some 0⟩
  repr _ := []
  jsonDepth := 900
  enrichCalls := 470
  stripCalls := 470
  enrichCalls_le := le_rfl
  five_le_enrichCalls := by decide
  parseIntText _ := none

end C2Engine
