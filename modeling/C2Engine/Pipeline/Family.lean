import C2Engine.Python.Codec
import C2Engine.Python.Regex

/-!
# Malware families

`pipeline/enrich/family.py`: the label of a served file, by markers in its bytes or in its text.

## Main definitions

* `familyLabel`: `label(content, magic, interpreter)`.
-/

namespace C2Engine

open Python

/-- The alphabet of `bytes` patterns. -/
def bytesAlphabet : Alphabet UInt8 :=
  ⟨fun b => let n := b.toNat
      (48 ≤ n && n ≤ 57) || (65 ≤ n && n ≤ 90) || (97 ≤ n && n ≤ 122) || n == 95,
    fun b => b == 10⟩

/-- The lower case of an ASCII letter. -/
def lowerByte (b : UInt8) : UInt8 := if 65 ≤ b.toNat ∧ b.toNat ≤ 90 then b + 32 else b

/-- A given lower-case text in bytes, ignoring case. -/
def bytesI (s : String) : Re UInt8 :=
  .cat ((asciiBytes (str s)).map fun b => .set fun x => lowerByte x == b)

/-- `\s` in a `bytes` pattern. -/
def isSpaceByte (b : UInt8) : Bool := (9 ≤ b.toNat && b.toNat ≤ 13) || b == 32

/-- `_BINARY_MARKERS`. -/
def binaryMarkers : List (Re UInt8 × PyStr) :=
  [(.cat [.wordB, bytesI "mozi", .wordB], str "trojan.mirai/mozi"),
   (.alt (bytesI "gafgyt") (bytesI "bashlite"), str "trojan.gafgyt/possible"),
   (.alt (.cat [bytesI "/bin/busybox", .plus (.set isSpaceByte), bytesI "mirai"])
      (.cat [.wordB, bytesI "mirai", .wordB]), str "trojan.mirai/possible"),
   (.oneOf [bytesI "stratum+tcp://", bytesI "xmrig", bytesI "minerd"], str "miner.xmrig")]

/-- `_SCRIPT_MARKERS`. -/
def scriptMarkers : List (Re CodePoint × PyStr) :=
  [(.oneOf [.litI (str "stratum+tcp://"), .litI (str "xmrig"), .litI (str "minerd")],
      str "miner.shell"),
   (.cat [.oneOf [.litI (str "wget"), .litI (str "curl"), .litI (str "tftp")], .wordB,
      .star true .any,
      .oneOf [.litI (str "chmod"), .lit (str "./"), .seq (.litI (str "sh")) .wordB]],
      str "downloader.shell")]

/-- The label of the first marker found. -/
def firstMarker {α : Type} (A : Alphabet α) (markers : List (Re α × PyStr)) (text : List α) :
    Option PyStr :=
  (markers.find? fun m => (Re.search A m.1 text).isSome).map Prod.snd

/-- `label(content, magic, interpreter)`. -/
def familyLabel (uni : Unicode) (content : Bytes) (magic interpreter : Option PyStr) :
    Option PyStr :=
  let magic := magic.getD []
  if (str "ELF").isPrefixOf magic then
    some ((firstMarker bytesAlphabet binaryMarkers content).getD
      (str "trojan.elf/" ++ uni.lower ((PyStr.words magic).getLastD [])))
  else interpreter.bind fun _ =>
    firstMarker (Re.text uni) scriptMarkers (utf8DecodeIgnore content)

end C2Engine
