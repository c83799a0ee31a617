import C2Engine.Analyze.Iocs

/-!
# The playbook of a session

`analyze/canonical.py`: the commands of a session with addresses, URLs, temporary paths, keys and
Base64 blobs replaced by placeholders, and the SHA-1 of the result. The hash is taken of the UTF-8
bytes, so a lone surrogate that is left in a canonical command makes it raise.

## Main definitions

* `canonicalizeCommand`, `canonicalText`, `canonicalizeAndHash`.

## Main results

* `isOk_canonicalizeAndHash`: it raises exactly when some canonical command has no UTF-8 form.
-/

namespace C2Engine

open Python

/-! ### Patterns -/

/-- `[A-Za-z0-9+/]`. -/
def isBlobChar (c : CodePoint) : Bool := c.isAsciiAlnum || PyStr.oneOf (str "+/") c

/-- `_RE_SSHKEY`, the key type in group 1 and the key body in group 2. -/
def reCanonSshKey : Re CodePoint :=
  .cat [.group 1 sshKeyType, .plus .space, .group 2 (.atLeast (.set isBase64Char) 64)]

/-- `_RE_URL`. -/
def reCanonUrl : Re CodePoint :=
  .cat [.litI (str "http"), .opt (.litI (str "s")), .litI (str "://"),
    .plus (.set fun c => !(c.isSpace || PyStr.oneOf (str "\"'`>") c))]

/-- `_RE_IPV6`. -/
def reCanonIpv6 : Re CodePoint :=
  .cat [.wordB, .atLeast (.seq (.between hexRe 1 4) (.char (cp ':'))) 2, .between hexRe 1 4,
    .wordB]

/-- `_RE_TMPRAND`. -/
def reTmpRand : Re CodePoint :=
  .cat [.oneOf [.lit (str "/tmp"), .lit (str "/var/tmp"), .lit (str "/dev/shm")], .char (cp '/'),
    .opt (.char (cp '.')),
    .atLeast (.set fun c => c.isAsciiAlnum || PyStr.oneOf (str "_.-") c) 6]

/-- `_RE_B64BLOB`. -/
def reB64Blob : Re CodePoint :=
  .cat [.wordB, .atLeast (.set isBlobChar) 32, .upTo (.char (cp '=')) 2, .wordB]

/-! ### Canonical commands -/

/-- `_hash_short`, of an ASCII text. -/
def hashShort (rt : Runtime) (text : PyStr) : PyStr := (rt.hashlib.sha1 (asciiBytes text)).take 12

/-- `canonicalize_command`. -/
def canonicalizeCommand (rt : Runtime) (cmd : PyStr) : PyStr :=
  let re := Re.text rt.unicode
  let out := Re.sub re reCanonSshKey (fun m =>
    (m.group 1).getD [] ++ str " <SSH_KEY:" ++ hashShort rt ((m.group 2).getD []) ++ str ">") cmd
  let out := Re.sub re reCanonUrl (fun _ => str "<URL>") out
  let out := Re.sub re reCanonIpv6 (fun _ => str "<IP>") out
  let out := Re.sub re (reIpv4 rt.unicode) (fun _ => str "<IP>") out
  let out := Re.sub re reTmpRand (fun m =>
    (PyStr.rpartition (cp '/') m.text).1 ++ str "/<RAND>") out
  let out := Re.sub re reB64Blob (fun m => str "<B64:" ++ hashShort rt m.text ++ str ">") out
  let out := Re.sub re (.plus .space) (fun _ => str " ") out
  rt.unicode.lower (PyStr.strip out)

/-- The lines of the canonical text. -/
def canonicalLines (rt : Runtime) (commands unknownCommands : List PyStr) : List PyStr :=
  commands.map (canonicalizeCommand rt) ++
    unknownCommands.map fun c => str "[unknown] " ++ canonicalizeCommand rt c

/-- The canonical text. -/
def canonicalText (rt : Runtime) (commands unknownCommands : List PyStr) : PyStr :=
  PyStr.join [cp '\n'] (canonicalLines rt commands unknownCommands)

/-- `canonicalize_and_hash`. -/
def canonicalizeAndHash (rt : Runtime) (commands unknownCommands : List PyStr) :
    Except PyExc (PyStr × PyStr) := do
  let canonical := canonicalText rt commands unknownCommands
  let data ← utf8Encode canonical
  return (canonical, rt.hashlib.sha1 data)

/-- The hash raises exactly when the canonical form of some command has a lone surrogate. -/
theorem isOk_canonicalizeAndHash (rt : Runtime) (commands unknownCommands : List PyStr) :
    (canonicalizeAndHash rt commands unknownCommands).isOk ↔
      ∀ c ∈ commands ++ unknownCommands, (canonicalizeCommand rt c).Encodable := by
  have hbind : (canonicalizeAndHash rt commands unknownCommands).isOk ↔
      (utf8Encode (canonicalText rt commands unknownCommands)).isOk := by
    simp only [canonicalizeAndHash, bind, Except.bind]
    cases utf8Encode (canonicalText rt commands unknownCommands) <;> rfl
  have hunknown : (str "[unknown] ").Encodable := by decide
  rw [hbind, isOk_utf8Encode, canonicalText, PyStr.encodable_join (by decide), canonicalLines]
  simp only [List.forall_mem_append, List.forall_mem_map, PyStr.encodable_append, hunknown,
    true_and]

end C2Engine
