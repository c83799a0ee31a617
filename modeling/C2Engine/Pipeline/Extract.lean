import C2Engine.Context
import C2Engine.Model.Observation
import C2Engine.Pipeline.Family
import Mathlib.Data.List.ReduceOption

/-!
# Ledger rows

`pipeline/extract`: the three producers of evidence rows, one for the hosts the attacker named in
commands, one for the files fetched in the session, and one for the hosts found inside those
files.

Four of the functions on the way may raise: `splitUrl` on a file's URL, `sniffMagic` on a
truncated ELF header, `findHosts` on a URL inside the file, and `build_context` before all of
them.

## Main definitions

* `classifyHost`, `splitUrl`, `findHosts`, `sniffMagic`, `interpreterOf`, `strings`: the helpers.
* `baseObs`, `shellReferences`, `servedFiles`, `fileCallbacks`, `allObservations`: the producers.

## Main results

* `isOk_sniffMagic`: the header it cannot read.
* `servedPayload_eq_ok`, `servedAs_of_eq`: the row of a file.
* `mem_servedFiles`, `mem_shellReferences`, `mem_fileCallbacks`: the rows of each producer.
-/

namespace C2Engine

open Python

/-! ### Helpers -/

/-- `classify_host`. -/
def classifyHost (host : PyStr) : HostKind := if isIp host then .ip else .domain

/-- `split_url`: host, port and path. -/
def splitUrl (rt : Runtime) (url : PyStr) : Except PyExc (PyStr × Option ℕ × PyStr) := do
  let parts ← urlsplit rt.unicode url
  let port ← parts.port
  return (rt.unicode.lower (parts.hostname rt.unicode), port, parts.path)

/-- `find_hosts`. -/
def findHosts (rt : Runtime) (text : PyStr) : Except PyExc (List (PyStr × HostKind)) := do
  let bundle ← extract rt (expandedText rt.unicode [text]) []
  return bundle.c2Hosts.map fun h => (h, classifyHost h)

/-- `_ELF_MACHINES`. -/
def elfMachines : List (ℕ × PyStr) :=
  [(3, str "x86"), (8, str "MIPS"), (20, str "PowerPC"), (40, str "ARM"), (42, str "SuperH"),
   (62, str "x86-64"), (183, str "AArch64")]

/-- `b"\x7fELF"`. -/
def elfMagic : Bytes := [0x7f, 0x45, 0x4c, 0x46]

/-- `data[i]`. -/
def index (data : Bytes) (i : ℕ) : Except PyExc ℕ :=
  match data[i]? with
  | some b => .ok b.toNat
  | none => .error .indexError

/-- `int.from_bytes(data, "little" if little else "big")`. -/
def fromBytes (little : Bool) (data : Bytes) : ℕ :=
  (if little then data.reverse else data).foldl (fun n b => n * 256 + b.toNat) 0

/-- `sniff_magic`. -/
def sniffMagic (data : Bytes) : Except PyExc (Option PyStr) :=
  if elfMagic.isPrefixOf data then do
    let cls ← index data 4
    let bits := if cls = 1 then str "32-bit" else if cls = 2 then str "64-bit" else str "?"
    let order ← index data 5
    let machine := fromBytes (order = 1) ((data.drop 18).take 2)
    let arch := ((elfMachines.find? fun m => m.1 = machine).map Prod.snd).getD
      (str "machine " ++ PyStr.ofNat machine)
    return some (str "ELF " ++ bits ++ str " " ++ arch)
  else if (asciiBytes (str "#!")).isPrefixOf data then .ok (some (str "script (shebang)"))
  else if (asciiBytes (str "MZ")).isPrefixOf data then .ok (some (str "PE/DOS executable"))
  else if [0x1f, 0x8b, 0x08, 0x08].isPrefixOf data || [0x1f, 0x8b, 0x08, 0x00].isPrefixOf data then
    .ok (some (str "gzip"))
  else .ok none

/-- A trailing version number, `\d+(\.\d+)*$`. -/
def reVersion (uni : Unicode) : Re CodePoint :=
  .cat [.plus (.set uni.isDigit), .star true (.seq (.char (cp '.')) (.plus (.set uni.isDigit))),
    .eos]

/-- The last component of a path, `path.rsplit("/", 1)[-1]`. -/
def basename (path : PyStr) : PyStr := (PyStr.rpartition (cp '/') path).2.2

/-- `interpreter_of`. -/
def interpreterOf (uni : Unicode) (content : PyStr) : Option PyStr :=
  if !(str "#!").isPrefixOf content then none
  else
    let first := (PyStr.splitlines content).headD []
    match PyStr.words (PyStr.strip (first.drop 2)) with
    | [] => none
    | token :: tokens =>
      let exe := basename token
      let exe := if exe = str "env" then (tokens.head?.map basename).getD exe else exe
      let plain := Re.sub (Re.text uni) (reVersion uni) (fun _ => []) exe
      some (if plain.isEmpty then exe else plain)

/-- `strings(data)`: the runs of at least six printable ASCII characters. -/
def strings (data : Bytes) : PyStr :=
  let run : Re UInt8 := .atLeast (.set fun b => 0x20 ≤ b.toNat && b.toNat ≤ 0x7e) 6
  PyStr.join [cp '\n'] ((Re.findall bytesAlphabet run data).map latin1Decode)

/-! ### The producers -/

/-- `base_obs`: a row with the columns every row of a session shares. -/
def baseObs (session : SessionIn) (c2Host : PyStr) (c2HostKind : HostKind) (evidence : Evidence) :
    C2Observation where
  ts := session.endTime <|> session.startTime
  sensorUuid := session.sensorUuid
  sensorHostname := session.sensorHostname
  srcIp := session.srcIp
  sessionId := session.sessionId
  c2Host := c2Host
  c2HostKind := c2HostKind
  evidence := evidence
  selfHosted := c2Host = session.srcIp
  hassh := session.hpData.kex.bind fun k => k.hassh

/-- `shell_references`. -/
def shellReferences (session : SessionIn) (ctx : SessionContext) : List C2Observation :=
  ctx.iocs.c2Hosts.map fun host => baseObs session host (classifyHost host) .shellReference

/-- `_decode_bytes`. -/
def decodeBytes (f : FileRef) : Option Bytes :=
  match f.contentB64 with
  | none | some [] => none
  | some s => b64decode s

/-- `_BINARY_MAGIC`: the magic of a binary. -/
def isBinaryMagic (magic : PyStr) : Bool :=
  [str "ELF", str "PE/", str "gzip"].any fun p => p.isPrefixOf magic

/-- The kind of a payload and the text its hosts are looked for in: a file is a script where its
bytes are UTF-8 and its magic does not say otherwise. -/
def payloadText (magic : Option PyStr) (data : Bytes) : FileKind × PyStr :=
  if isBinaryMagic (magic.getD []) then (.binary, strings data)
  else match utf8Decode data with
    | some text => (.script, text)
    | none => (.binary, strings data)

/-- `_classify_payload`. -/
def classifyPayload (rt : Runtime) (obs : C2Observation) (data : Bytes) :
    Except PyExc C2Observation := do
  let (kind, text) := payloadText obs.magic data
  let obs := { obs with fileKind := some kind }
  let obs := match kind with
    | .binary => obs
    | .script =>
      let obs := { obs with interpreter := interpreterOf rt.unicode text }
      if contentCap < data.length then
        { obs with content := some (utf8DecodeIgnore (data.take contentCap))
                   contentTruncated := true }
      else { obs with content := some text }
  let hosts ← findHosts rt text
  return { obs with
    callbacks := (hosts.map Prod.fst).filter fun h => h ≠ obs.c2Host
    family := familyLabel rt.unicode data obs.magic obs.interpreter }

/-- A file the session fetched: `f.action == "download" and f.status == "successful"`. -/
def FileRef.fetched (f : FileRef) : Bool :=
  f.action = str "download" && f.status = str "successful"

/-- The columns of a served file that its bytes have no part in. -/
def servedObs (session : SessionIn) (f : FileRef) (host : PyStr) (port : Option ℕ) (path : PyStr) :
    C2Observation :=
  { baseObs session host (classifyHost host) .servedFile with
    c2Url := PyStr.orNone f.url
    c2Port := port
    c2Path := PyStr.orNone path
    c2ResolvedIp := f.resolvedIp.bind PyStr.orNone
    sha256 := PyStr.orNone f.shasum }

/-- The columns of a served file that its bytes give. -/
def servedPayload (rt : Runtime) (obs : C2Observation) (data : Bytes) :
    Except PyExc C2Observation := do
  let obs := { obs with
    size := some data.length
    sha1 := some (rt.hashlib.sha1 data)
    md5 := some (rt.hashlib.md5 data)
    sha256 := obs.sha256 <|> some (rt.hashlib.sha256 data) }
  let magic ← sniffMagic data
  classifyPayload rt { obs with magic := magic } data

/-- The host of a served file: that of its URL, or else the address it was resolved to. -/
def servedHost (f : FileRef) (urlHost : PyStr) : PyStr :=
  if urlHost.isEmpty then f.resolvedIp.getD [] else urlHost

/-- One iteration of `served_files`. -/
def servedFile (rt : Runtime) (session : SessionIn) (f : FileRef) :
    Except PyExc (Option C2Observation) :=
  if !f.fetched then .ok none
  else do
    let (urlHost, port, path) ← splitUrl rt f.url
    let host := servedHost f urlHost
    if host.isEmpty then return none
    else
      let obs := servedObs session f host port path
      match decodeBytes f with
      | none => return some obs
      | some data => some <$> servedPayload rt obs data

/-- `served_files`. -/
def servedFiles (rt : Runtime) (session : SessionIn) : Except PyExc (List C2Observation) := do
  let rows ← session.hpData.files.mapM (servedFile rt session)
  return rows.reduceOption

/-- The chain edges of the served files: callback host and the file that revealed it. -/
def callbackEdges (served : List C2Observation) : List (PyStr × Option PyStr) :=
  served.flatMap fun f => f.callbacks.map fun host => (host, f.sha256)

/-- `file_callbacks`. -/
def fileCallbacks (session : SessionIn) (served : List C2Observation) : List C2Observation :=
  (unseen [] (callbackEdges served)).map fun edge =>
    { baseObs session edge.1 (classifyHost edge.1) .fileCallback with c2ViaSha256 := edge.2 }

/-- `all_observations`. -/
def allObservations (rt : Runtime) (session : SessionIn) (ctx : SessionContext) :
    Except PyExc (List C2Observation) := do
  let refs := shellReferences session ctx
  let files ← servedFiles rt session
  let callbacks := fileCallbacks session files
  return refs ++ files ++ callbacks

/-! ### When they raise -/

theorem isOk_index {data : Bytes} {i : ℕ} : (index data i).isOk ↔ i < data.length := by
  unfold index
  cases h : data[i]? with
  | none =>
    have := List.getElem?_eq_none_iff.mp h
    exact iff_of_false Bool.false_ne_true (by omega)
  | some b =>
    obtain ⟨hi, -⟩ := List.getElem?_eq_some_iff.mp h
    exact iff_of_true rfl hi

/-- `sniff_magic` raises exactly on an ELF header cut off before its sixth byte. -/
theorem isOk_sniffMagic (data : Bytes) :
    (sniffMagic data).isOk ↔ ¬ (elfMagic <+: data ∧ data.length < 6) := by
  unfold sniffMagic
  split
  · next h =>
    have hpre : elfMagic <+: data := List.isPrefixOf_iff_prefix.mp h
    simp only [isOk_bind, isOk_pure, and_true, hpre, true_and, not_lt]
    constructor
    · rintro ⟨_, -, _, h5⟩
      have := isOk_index.mp (isOk_iff.mpr ⟨_, h5⟩)
      omega
    · intro hlen
      obtain ⟨a, ha⟩ := isOk_iff.mp (isOk_index.mpr (show 4 < data.length by omega))
      obtain ⟨b, hb⟩ := isOk_iff.mp (isOk_index.mpr (show 5 < data.length by omega))
      exact ⟨a, ha, b, hb⟩
  · next h =>
    have hpre : ¬ elfMagic <+: data := fun hpre => h (List.isPrefixOf_iff_prefix.mpr hpre)
    refine iff_of_true ?_ fun h' => hpre h'.1
    split_ifs <;> rfl

theorem isOk_findHosts (rt : Runtime) (text : PyStr) : (findHosts rt text).isOk ↔
    (extract rt (expandedText rt.unicode [text]) []).isOk := isOk_bind_pure

theorem isOk_classifyPayload (rt : Runtime) (obs : C2Observation) (data : Bytes) :
    (classifyPayload rt obs data).isOk ↔ (findHosts rt (payloadText obs.magic data).2).isOk := by
  exact isOk_bind_pure

/-! ### What they return -/

/-- The interpreter of a payload: that of the shebang line of a script. -/
def payloadInterpreter (uni : Unicode) (magic : Option PyStr) (data : Bytes) : Option PyStr :=
  match payloadText magic data with
  | (.script, text) => interpreterOf uni text
  | (.binary, _) => none

/-- What becomes of a row under the bytes of its file. -/
theorem servedPayload_eq_ok {rt : Runtime} {obs o : C2Observation} {data : Bytes}
    (h : servedPayload rt obs data = .ok o) (hobs : obs.interpreter = none) :
    ∃ magic hosts, sniffMagic data = .ok magic ∧
      findHosts rt (payloadText magic data).2 = .ok hosts ∧
      ∃ content truncated, o = { obs with
        size := some data.length
        sha1 := some (rt.hashlib.sha1 data)
        md5 := some (rt.hashlib.md5 data)
        sha256 := obs.sha256 <|> some (rt.hashlib.sha256 data)
        magic := magic
        fileKind := some (payloadText magic data).1
        interpreter := payloadInterpreter rt.unicode magic data
        content := content
        contentTruncated := truncated
        callbacks := (hosts.map Prod.fst).filter fun h => h ≠ obs.c2Host
        family := familyLabel rt.unicode data magic
          (payloadInterpreter rt.unicode magic data) } := by
  simp only [servedPayload, classifyPayload, bind_eq_ok, pure, Except.pure, Except.ok.injEq] at h
  obtain ⟨magic, hmagic, hosts, hhosts, rfl⟩ := h
  refine ⟨magic, hosts, hmagic, hhosts, ?_⟩
  unfold payloadInterpreter
  rcases payloadText magic data with ⟨_ | _, text⟩
  · by_cases hcap : contentCap < data.length
    · exact ⟨some (utf8DecodeIgnore (data.take contentCap)), true, by simp [hcap]⟩
    · exact ⟨some text, obs.contentTruncated, by simp [hcap]⟩
  · exact ⟨obs.content, obs.contentTruncated, by simp [hobs]⟩

/-- A file that serves a host: it was fetched, and its URL or its resolved address gives one. -/
def FileServes (rt : Runtime) (f : FileRef) (host : PyStr) : Prop :=
  f.fetched ∧ ∃ urlHost port path, splitUrl rt f.url = .ok (urlHost, port, path) ∧
    servedHost f urlHost = host ∧ host ≠ []

theorem FileServes.ne_nil {rt : Runtime} {f : FileRef} {host : PyStr} (h : FileServes rt f host) :
    host ≠ [] := by
  obtain ⟨-, _, _, _, -, -, hne⟩ := h
  exact hne

/-- The row of a file that serves a host, with the columns of its bytes where it has bytes. -/
inductive ServedAs (rt : Runtime) (session : SessionIn) (f : FileRef) : C2Observation → Prop
  | bare {host path : PyStr} {port : Option ℕ} (hserves : FileServes rt f host)
      (hurl : ∃ urlHost, splitUrl rt f.url = .ok (urlHost, port, path))
      (hdata : decodeBytes f = none) : ServedAs rt session f (servedObs session f host port path)
  | payload {host path : PyStr} {port : Option ℕ} {data : Bytes} {o : C2Observation}
      (hserves : FileServes rt f host)
      (hurl : ∃ urlHost, splitUrl rt f.url = .ok (urlHost, port, path))
      (hdata : decodeBytes f = some data)
      (hrow : servedPayload rt (servedObs session f host port path) data = .ok o) :
      ServedAs rt session f o

theorem servedAs_of_eq {rt : Runtime} {session : SessionIn} {f : FileRef} {o : C2Observation}
    (h : servedFile rt session f = .ok (some o)) : ServedAs rt session f o := by
  by_cases hf : f.fetched = true
  · simp only [servedFile, hf, Bool.not_true, Bool.false_eq_true, if_false, bind_eq_ok,
      Prod.exists] at h
    obtain ⟨urlHost, port, path, hurl, h⟩ := h
    by_cases hhost : servedHost f urlHost = []
    · simp [hhost, pure, Except.pure] at h
    · have hserves : FileServes rt f (servedHost f urlHost) :=
        ⟨hf, urlHost, port, path, hurl, rfl, hhost⟩
      simp only [List.isEmpty_iff, hhost, if_false] at h
      cases hdata : decodeBytes f with
      | none =>
        obtain rfl : servedObs session f (servedHost f urlHost) port path = o := by
          simpa [hdata, pure, Except.pure] using h
        exact .bare hserves ⟨urlHost, hurl⟩ hdata
      | some data =>
        simp only [hdata, Functor.map, Except.map] at h
        refine .payload hserves ⟨urlHost, hurl⟩ hdata ?_
        cases hp : servedPayload rt (servedObs session f (servedHost f urlHost) port path) data with
        | error e => simp [hp] at h
        | ok o' => simpa [hp] using h
  · simp [servedFile, hf] at h

/-- A file with a row serves a host. -/
theorem exists_fileServes_of_eq {rt : Runtime} {session : SessionIn} {f : FileRef}
    {o : C2Observation} (h : servedFile rt session f = .ok (some o)) :
    ∃ host, FileServes rt f host := by
  cases servedAs_of_eq h with
  | bare hserves | payload hserves => exact ⟨_, hserves⟩

theorem FileServes.unique {rt : Runtime} {f : FileRef} {host host' : PyStr}
    (h : FileServes rt f host) (h' : FileServes rt f host') : host = host' := by
  obtain ⟨-, urlHost, port, path, hurl, rfl, -⟩ := h
  obtain ⟨-, urlHost', port', path', hurl', rfl, -⟩ := h'
  rw [hurl] at hurl'
  cases hurl'
  rfl

/-- A file that serves a host gives a row, if it does not raise. -/
theorem exists_servedFile_eq {rt : Runtime} {session : SessionIn} {f : FileRef} {host : PyStr}
    (hok : (servedFile rt session f).isOk) (h : FileServes rt f host) :
    ∃ o, servedFile rt session f = .ok (some o) := by
  obtain ⟨hf, urlHost, port, path, hurl, rfl, hhost⟩ := h
  obtain ⟨row, hrow⟩ := isOk_iff.mp hok
  cases row with
  | some o => exact ⟨o, hrow⟩
  | none =>
    simp only [servedFile, hf, Bool.not_true, Bool.false_eq_true, if_false, bind_eq_ok, hurl,
      Except.ok.injEq, exists_eq_left', List.isEmpty_iff, hhost] at hrow
    cases hdata : decodeBytes f with
    | none => simp [hdata, pure, Except.pure] at hrow
    | some data =>
      simp only [hdata, Functor.map, Except.map] at hrow
      cases hp : servedPayload rt (servedObs session f (servedHost f urlHost) port path) data <;>
        simp [hp] at hrow

/-! ### The rows -/

theorem mem_shellReferences {session : SessionIn} {ctx : SessionContext} {o : C2Observation} :
    o ∈ shellReferences session ctx ↔
      ∃ host ∈ ctx.iocs.c2Hosts, baseObs session host (classifyHost host) .shellReference = o :=
  List.mem_map

theorem isOk_servedFiles (rt : Runtime) (session : SessionIn) : (servedFiles rt session).isOk ↔
    ∀ f ∈ session.hpData.files, (servedFile rt session f).isOk :=
  isOk_bind_pure.trans (isOk_mapM _)

/-- The rows of the served files, one for each file that gives one. -/
theorem mem_servedFiles {rt : Runtime} {session : SessionIn} {rows : List C2Observation}
    (h : servedFiles rt session = .ok rows) {o : C2Observation} :
    o ∈ rows ↔ ∃ f ∈ session.hpData.files, servedFile rt session f = .ok (some o) := by
  simp only [servedFiles, bind_eq_ok, pure, Except.pure, Except.ok.injEq] at h
  obtain ⟨os, hos, rfl⟩ := h
  rw [List.reduceOption_mem_iff, mem_of_mapM hos]

/-- The hosts of a text are those in its pieces. -/
theorem mem_findHosts {rt : Runtime} {text : PyStr} {hosts : List (PyStr × HostKind)}
    (h : findHosts rt text = .ok hosts) (host : PyStr) :
    host ∈ hosts.map Prod.fst ↔ HostIn rt (expandCommand rt.unicode text) [] host := by
  obtain ⟨b, hb, hret⟩ := bind_eq_ok.mp h
  simp only [pure, Except.pure, Except.ok.injEq] at hret
  subst hret
  rw [List.map_map, ← List.append_nil (expandCommand rt.unicode text)]
  change host ∈ b.c2Hosts.map id ↔ HostIn rt (expandedLines rt.unicode [text]) [] host
  rw [List.map_id, mem_c2Hosts_expandedText hb]

theorem mem_fileCallbacks {session : SessionIn} {served : List C2Observation} {o : C2Observation} :
    o ∈ fileCallbacks session served ↔ ∃ f ∈ served, ∃ host ∈ f.callbacks,
      { baseObs session host (classifyHost host) .fileCallback with c2ViaSha256 := f.sha256 } =
        o := by
  simp only [fileCallbacks, callbackEdges, List.mem_map, mem_unseen, List.mem_flatMap]
  constructor
  · rintro ⟨edge, ⟨⟨f, hf, host, hhost, rfl⟩, -⟩, rfl⟩
    exact ⟨f, hf, host, hhost, rfl⟩
  · rintro ⟨f, hf, host, hhost, rfl⟩
    exact ⟨(host, f.sha256), ⟨⟨f, hf, host, hhost, rfl⟩, List.not_mem_nil⟩, rfl⟩

/-- The rows of a session, by their producers. -/
inductive RowFrom (rt : Runtime) (session : SessionIn) (ctx : SessionContext) :
    C2Observation → Prop
  | reference {host : PyStr} (hhost : host ∈ ctx.iocs.c2Hosts) :
      RowFrom rt session ctx (baseObs session host (classifyHost host) .shellReference)
  | served {f : FileRef} {o : C2Observation} (hf : f ∈ session.hpData.files)
      (hfile : servedFile rt session f = .ok (some o)) : RowFrom rt session ctx o
  | callback {f : FileRef} {g : C2Observation} {host : PyStr} (hf : f ∈ session.hpData.files)
      (hfile : servedFile rt session f = .ok (some g)) (hhost : host ∈ g.callbacks) :
      RowFrom rt session ctx { baseObs session host (classifyHost host) .fileCallback with
        c2ViaSha256 := g.sha256 }

/-- **The rows of a session are those of its producers.** -/
theorem mem_rows_iff {rt : Runtime} {session : SessionIn} {ctx : SessionContext}
    {served : List C2Observation} (hserved : servedFiles rt session = .ok served)
    {o : C2Observation} :
    o ∈ shellReferences session ctx ++ served ++ fileCallbacks session served ↔
      RowFrom rt session ctx o := by
  rw [List.mem_append, List.mem_append, mem_shellReferences, mem_servedFiles hserved,
    mem_fileCallbacks]
  constructor
  · rintro ((⟨host, hhost, rfl⟩ | ⟨f, hf, hfile⟩) | ⟨g, hg, host, hhost, rfl⟩)
    · exact .reference hhost
    · exact .served hf hfile
    · obtain ⟨f, hf, hfile⟩ := (mem_servedFiles hserved).mp hg
      exact .callback hf hfile hhost
  · intro h
    cases h with
    | reference hhost => exact .inl (.inl ⟨_, hhost, rfl⟩)
    | served hf hfile => exact .inl (.inr ⟨_, hf, hfile⟩)
    | callback hf hfile hhost =>
      exact .inr ⟨_, (mem_servedFiles hserved).mpr ⟨_, hf, hfile⟩, _, hhost, rfl⟩

theorem mem_allObservations {rt : Runtime} {session : SessionIn} {ctx : SessionContext}
    {rows : List C2Observation} (h : allObservations rt session ctx = .ok rows)
    {o : C2Observation} : o ∈ rows ↔ RowFrom rt session ctx o := by
  obtain ⟨served, hserved, h⟩ := bind_eq_ok.mp h
  obtain rfl := Except.ok.inj h
  exact mem_rows_iff hserved

theorem isOk_servedFile_of_allObservations {rt : Runtime} {session : SessionIn}
    {ctx : SessionContext} (h : (allObservations rt session ctx).isOk) :
    ∀ f ∈ session.hpData.files, (servedFile rt session f).isOk := by
  obtain ⟨rows, h⟩ := isOk_iff.mp h
  obtain ⟨served, hserved, -⟩ := bind_eq_ok.mp h
  exact (isOk_servedFiles rt session).mp (isOk_iff.mpr ⟨served, hserved⟩)

example : (sniffMagic [0x7f, 0x45, 0x4c, 0x46, 1]).isOk = false := by decide

end C2Engine
