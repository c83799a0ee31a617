import C2Engine.Model.Session
import C2Engine.Python.Regex

/-!
# Features of a session

The modules `banner`, `credentials` and `shape` of `analyze`: the client software of an SSH
banner, the hash of the credentials tried, and counts over the session document. None of them
feeds a ledger row, but each runs before the rows are made, and the credentials hash and the
duration may raise.

## Main definitions

* `Cpe`, `parseBanner`: the software of a banner.
* `CredEnrichment`, `enrichCredentials`: the credentials.
* `ShapeFeatures`, `computeShape`: the counts.
-/

namespace C2Engine

open Python

/-! ### The banner -/

/-- `_BANNER_RE`, which `re.match` holds to the start of the text. -/
def reBanner (uni : Unicode) : Re CodePoint :=
  let inner : Re CodePoint := .set fun c => c.isAsciiAlnum || PyStr.oneOf (str "._-") c
  .cat [.lit (str "SSH-"), .plus (.set uni.isDigit), .char (cp '.'), .plus (.set uni.isDigit),
    .char (cp '-'),
    .group 1 (.seq (.set CodePoint.isAsciiAlnum) (.star false inner)),
    .opt (.seq (.set (PyStr.oneOf (str "_-"))) (.group 2 (.plus inner))),
    .alt .space .eos]

/-- `_KNOWN`: vendor and product of a software id. -/
def knownSoftware : List (PyStr × PyStr × PyStr) :=
  [(str "openssh", str "openbsd", str "openssh"),
   (str "libssh", str "libssh", str "libssh"),
   (str "dropbear", str "dropbear_ssh_project", str "dropbear_ssh"),
   (str "paramiko", str "paramiko", str "paramiko"),
   (str "russh", str "russh_project", str "russh"),
   (str "go", str "golang", str "go"),
   (str "golang", str "golang", str "go"),
   (str "putty", str "putty", str "putty"),
   (str "winscp", str "winscp", str "winscp"),
   (str "jsch", str "jcraft", str "jsch"),
   (str "asyncssh", str "asyncssh_project", str "asyncssh"),
   (str "trilead", str "trilead", str "ssh-2")]

/-- `Cpe`. -/
structure Cpe where
  vendor : Option PyStr := none
  product : Option PyStr := none
  version : Option PyStr := none
  cpe23 : Option PyStr := none

/-- `banner.parse`. -/
def parseBanner (rt : Runtime) (banner : Option PyStr) : Option Cpe :=
  match banner with
  | none | some [] => none
  | some b => match Re.match? (Re.text rt.unicode) (reBanner rt.unicode) b.strip with
    | none => some {}
    | some m =>
      let software := rt.unicode.lower ((m.group 1).getD [])
      let version := (m.group 2).getD []
      let (vendor, product) := ((knownSoftware.find? fun k => k.1 = software).map Prod.snd).getD
        (software, software)
      let cpe23 := if version.isEmpty then none else some (str "cpe:2.3:a:" ++ vendor ++ str ":" ++
        product ++ str ":" ++ version ++ str ":*:*:*:*:*:*:*")
      some ⟨some vendor, some product, PyStr.orNone version, cpe23⟩

/-! ### The credentials -/

/-- `CredEnrichment`. -/
structure CredEnrichment where
  pairsSeen : ℕ
  sequenceHash : Option PyStr
  successUser : Option PyStr
  successPass : Option PyStr

/-- The text whose hash stands for the pairs in their order. -/
def credentialSequence (credentials : List Credential) : PyStr :=
  PyStr.join [cp '\x00'] (credentials.map fun c => c.username ++ cp '\x01' :: c.password)

/-- `sequence_hash`. -/
def sequenceHash (rt : Runtime) (credentials : List Credential) : Except PyExc (Option PyStr) :=
  if credentials.isEmpty then .ok none
  else (utf8Encode (credentialSequence credentials)).map fun data => some (rt.hashlib.sha1 data)

/-- `credentials.enrich`. -/
def enrichCredentials (rt : Runtime) (credentials : List Credential) :
    Except PyExc CredEnrichment := do
  let success := credentials.find? fun c => c.success
  let hash ← sequenceHash rt credentials
  return ⟨credentials.length, hash, success.map fun c => c.username,
    success.map fun c => c.password⟩

/-! ### The shape -/

/-- `ShapeFeatures`; the duration is in microseconds. -/
structure ShapeFeatures where
  durationUs : Option ℤ
  commandCount : ℕ
  unknownCommandCount : ℕ
  credAttempts : ℕ
  failedAttemptsBeforeSuccess : Option ℕ
  ttylogBytes : ℕ
  hasPty : Bool
  distinctUrls : ℕ
  distinctFileHashes : ℕ

/-- `end - start`: times on clocks with and without an offset cannot be subtracted. -/
def subtractTimes (end_ start : Datetime) : Except PyExc ℤ :=
  match end_.offset, start.offset with
  | some a, some b => .ok ((end_.wall - a) - (start.wall - b))
  | none, none => .ok (end_.wall - start.wall)
  | _, _ => .error .typeError

/-- `_duration`. -/
def duration (start end_ : Option Datetime) : Except PyExc (Option ℤ) :=
  match start, end_ with
  | some s, some e => (subtractTimes e s).map some
  | _, _ => .ok none

/-- `_failed_before_success`. -/
def failedBeforeSuccess (creds : List Credential) : Option ℕ :=
  if creds.any fun c => c.success then some (creds.findIdx fun c => c.success) else none

/-- The number of distinct non-empty texts, `len({x for x in xs if x})`. -/
def countDistinct (xs : List PyStr) : ℕ := (unseen [] (xs.filter fun x => !x.isEmpty)).length

/-- `shape.compute`. -/
def computeShape (s : SessionIn) : Except PyExc ShapeFeatures := do
  let hp := s.hpData
  let durationUs ← duration s.startTime s.endTime
  return {
    durationUs := durationUs
    commandCount := hp.commands.length
    unknownCommandCount := hp.unknownCommands.length
    credAttempts := hp.credentials.length
    failedAttemptsBeforeSuccess := failedBeforeSuccess hp.credentials
    ttylogBytes := (hp.ttylog.getD []).length / 2
    hasPty := 0 < hp.clientWidth.getD 0 && 0 < hp.clientHeight.getD 0
    distinctUrls := countDistinct hp.urls
    distinctFileHashes := countDistinct (hp.files.map fun f => f.shasum) }

end C2Engine
