import C2Engine.Runtime

/-!
# One row of the evidence ledger

`C2Observation` of `model/observation.py`: a fact observed in one session, with the rank of its
evidence on the ladder, and the document it is dumped to.

## Main definitions

* `Evidence`, `HostKind`, `FileKind`, `evidenceRank`: the vocabulary of a row.
* `C2Observation`, `C2Observation.modelDump`: a row, and its JSON document without null fields.
* `contentCap`: the longest script content a row inlines.
-/

namespace C2Engine

open Python

/-- How a host was observed. -/
inductive Evidence where
  | shellReference
  | servedFile
  | fileCallback
  deriving DecidableEq

/-- The kinds of hosts. -/
inductive HostKind where
  | ip
  | domain
  deriving DecidableEq

/-- The kinds of served files. -/
inductive FileKind where
  | script
  | binary
  deriving DecidableEq

/-- `EVIDENCE_RANK`: the evidence ladder. -/
def evidenceRank : Evidence → ℕ
  | .shellReference => 0
  | .servedFile => 1
  | .fileCallback => 2

/-- The name of an evidence kind on the wire. -/
def Evidence.name : Evidence → PyStr
  | .shellReference => str "shell_reference"
  | .servedFile => str "served_file"
  | .fileCallback => str "file_callback"

/-- The name of a host kind on the wire. -/
def HostKind.name : HostKind → PyStr
  | .ip => str "ip"
  | .domain => str "domain"

/-- The name of a file kind on the wire. -/
def FileKind.name : FileKind → PyStr
  | .script => str "script"
  | .binary => str "binary"

/-- `SCHEMA_VERSION`. -/
def schemaVersion : PyStr := str "1"

/-- A ledger row; `evidence_rank` is stamped from the evidence. -/
structure C2Observation where
  ts : Option Datetime := none
  sensorUuid : PyStr := []
  sensorHostname : PyStr := []
  srcIp : PyStr := []
  sessionId : PyStr := []
  c2Host : PyStr := []
  c2HostKind : HostKind := .ip
  c2ResolvedIp : Option PyStr := none
  c2Url : Option PyStr := none
  c2Port : Option ℕ := none
  c2Path : Option PyStr := none
  hassh : Option PyStr := none
  c2Geo : Option (PyFloat × PyFloat) := none
  c2Country : Option PyStr := none
  c2Asn : Option ℤ := none
  c2AsnOrg : Option PyStr := none
  evidence : Evidence
  evidenceRank : ℕ := C2Engine.evidenceRank evidence
  selfHosted : Bool := false
  fileKind : Option FileKind := none
  sha256 : Option PyStr := none
  sha1 : Option PyStr := none
  md5 : Option PyStr := none
  size : Option ℕ := none
  magic : Option PyStr := none
  family : Option PyStr := none
  interpreter : Option PyStr := none
  content : Option PyStr := none
  contentTruncated : Bool := false
  callbacks : List PyStr := []
  c2ViaSha256 : Option PyStr := none
  deriving DecidableEq

/-- `CONTENT_CAP`: script content is inlined up to 256 KiB. -/
def contentCap : ℕ := 256 * 1024

/-- A field of a dumped model; `exclude_none` leaves out the absent ones. -/
def dumpField {α : Type} (name : String) (f : α → Obj) : Option α → Dict
  | none => []
  | some x => [(key name, f x)]

theorem forall_dumpField {α : Type} {name : String} {f : α → Obj} {x : Option α}
    {P : Key × Obj → Prop} :
    (∀ kv ∈ dumpField name f x, P kv) ↔ ∀ a, x = some a → P (key name, f a) := by
  cases x <;> simp [dumpField]

theorem get_dumpField {α : Type} (name name' : String) (f : α → Obj) (x : Option α) :
    (dumpField name f x).get (key name') = if name = name' then x.map f else none := by
  cases x with
  | none => exact (ite_self none).symm
  | some a => simp only [dumpField, Dict.get_cons, Dict.get_nil, Option.map_some, key_inj]

theorem isJson_dumpField {α : Type} {name : String} {f : α → Obj} (h : ∀ a, (f a).isJson)
    (x : Option α) : (Obj.map (dumpField name f x)).isJson := by
  rw [Obj.isJson_map, forall_dumpField]
  exact fun a _ => ⟨⟨_, rfl⟩, h a⟩

/-- `o.model_dump(mode="json", exclude_none=True)`. -/
def C2Observation.modelDump (rt : Runtime) (o : C2Observation) : Dict :=
  dumpField "schema_version" .str (some schemaVersion) ++
  dumpField "ts" (fun t => .str (rt.pydantic.dumpDatetime t)) o.ts ++
  dumpField "sensor_uuid" .str (some o.sensorUuid) ++
  dumpField "sensor_hostname" .str (some o.sensorHostname) ++
  dumpField "src_ip" .str (some o.srcIp) ++
  dumpField "session_id" .str (some o.sessionId) ++
  dumpField "c2_host" .str (some o.c2Host) ++
  dumpField "c2_host_kind" (fun k => .str (HostKind.name k)) (some o.c2HostKind) ++
  dumpField "c2_resolved_ip" .str o.c2ResolvedIp ++
  dumpField "c2_url" .str o.c2Url ++
  dumpField "c2_port" (fun n : ℕ => .int n) o.c2Port ++
  dumpField "c2_path" .str o.c2Path ++
  dumpField "hassh" .str o.hassh ++
  dumpField "c2_geo" (fun g => .map [(key "lat", .float g.1), (key "lon", .float g.2)]) o.c2Geo ++
  dumpField "c2_country" .str o.c2Country ++
  dumpField "c2_asn" .int o.c2Asn ++
  dumpField "c2_asn_org" .str o.c2AsnOrg ++
  dumpField "evidence" (fun e => .str (Evidence.name e)) (some o.evidence) ++
  dumpField "evidence_rank" (fun n : ℕ => .int n) (some o.evidenceRank) ++
  dumpField "self_hosted" .bool (some o.selfHosted) ++
  dumpField "file_kind" (fun k => .str (FileKind.name k)) o.fileKind ++
  dumpField "sha256" .str o.sha256 ++
  dumpField "sha1" .str o.sha1 ++
  dumpField "md5" .str o.md5 ++
  dumpField "size" (fun n : ℕ => .int n) o.size ++
  dumpField "magic" .str o.magic ++
  dumpField "family" .str o.family ++
  dumpField "interpreter" .str o.interpreter ++
  dumpField "content" .str o.content ++
  dumpField "content_truncated" .bool (some o.contentTruncated) ++
  dumpField "callbacks" .strs (some o.callbacks) ++
  dumpField "c2_via_sha256" .str o.c2ViaSha256

/-- A dumped row is a JSON document. -/
theorem isJson_modelDump (rt : Runtime) (o : C2Observation) :
    (Obj.map (o.modelDump rt)).isJson := by
  have hgeo (g : PyFloat × PyFloat) :
      (Obj.map [(key "lat", .float g.1), (key "lon", .float g.2)]).isJson := by
    simp [Obj.isJson_cons]
  unfold C2Observation.modelDump
  simp only [Obj.isJson_append, isJson_dumpField, hgeo, Obj.isJson_str, Obj.isJson_int,
    Obj.isJson_bool, Obj.isJson_strs, implies_true, and_self]

end C2Engine
