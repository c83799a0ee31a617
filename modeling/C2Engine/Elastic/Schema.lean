import C2Engine.Model.Observation
import C2Engine.Python.IpAddress
import Mathlib.Tactic.MkIffOfInductiveProp

/-!
# The template of the ledger

`INDEX_TEMPLATE` of `elastic/schema.py`: the types of the fields of `stingarc2-*`, and what
Elasticsearch asks of a value in a field of type `ip`, `integer` or `keyword`. A document with a
value it does not accept is rejected.

## Main definitions

* `FieldType`, `ledgerProperties`: the types, and the properties of the template.
* `FieldType.Accepts`, `Indexable`: values a field accepts, and documents the template accepts.
-/

namespace C2Engine

open Python

/-- The types of fields. -/
inductive FieldType where
  | keyword
  | ip
  | integer
  | long
  | byte
  | date
  | boolean
  | geoPoint
  | text
  deriving DecidableEq

/-- The longest term of a `keyword` field, in bytes. -/
def maxTermBytes : ℕ := 32766

/-- A text short enough for a `keyword` field. -/
def Short (s : PyStr) : Prop := s.utf8Len ≤ maxTermBytes

instance (s : PyStr) : Decidable (Short s) := inferInstanceAs (Decidable (_ ≤ _))

/-- The texts of a value: of a list, those of its elements. -/
def texts : Obj → List PyStr
  | .str s => [s]
  | .list xs => xs.filterMap Obj.asStr?
  | _ => []

/-- What a field asks of its value; only the types `ip`, `integer` and `keyword` ask for
anything here. -/
def FieldType.Accepts (ty : FieldType) (v : Obj) : Prop :=
  match ty with
  | .keyword => ∀ s ∈ texts v, Short s
  | .ip => ∀ s ∈ texts v, IsIpLiteral s
  | .integer => match v with
    | .int n => -2 ^ 31 ≤ n ∧ n < 2 ^ 31
    | _ => True
  | _ => True

/-- The properties of `INDEX_TEMPLATE`. -/
def ledgerProperties : List (Key × FieldType) :=
  [(key "schema_version", .keyword),
   (key "ts", .date),
   (key "sensor_uuid", .keyword),
   (key "sensor_hostname", .keyword),
   (key "src_ip", .ip),
   (key "session_id", .keyword),
   (key "c2_host", .keyword),
   (key "c2_host_kind", .keyword),
   (key "c2_resolved_ip", .ip),
   (key "c2_url", .keyword),
   (key "c2_port", .integer),
   (key "c2_path", .keyword),
   (key "c2_geo", .geoPoint),
   (key "c2_country", .keyword),
   (key "c2_asn", .long),
   (key "c2_asn_org", .keyword),
   (key "evidence", .keyword),
   (key "evidence_rank", .byte),
   (key "self_hosted", .boolean),
   (key "file_kind", .keyword),
   (key "sha256", .keyword),
   (key "sha1", .keyword),
   (key "md5", .keyword),
   (key "size", .long),
   (key "magic", .keyword),
   (key "family", .keyword),
   (key "interpreter", .keyword),
   (key "content", .text),
   (key "content_truncated", .boolean),
   (key "callbacks", .keyword),
   (key "c2_via_sha256", .keyword),
   (key "hassh", .keyword),
   (key "fluentd_tag", .keyword)]

/-- The type of a field of the ledger; the template is not dynamic, and other fields have none. -/
def ledgerType (k : Key) : Option FieldType :=
  (ledgerProperties.find? fun p => p.1 = k).map Prod.snd

/-- A document the template accepts. -/
def Indexable (d : Dict) : Prop :=
  ∀ kv ∈ d, ∀ ty, ledgerType kv.1 = some ty → ty.Accepts kv.2

theorem indexable_append {d e : Dict} : Indexable (d ++ e) ↔ Indexable d ∧ Indexable e :=
  List.forall_mem_append

/-- A dumped field is accepted when its type accepts what is there. -/
theorem indexable_dumpField {α : Type} {name : String} {f : α → Obj} {x : Option α}
    {ty : FieldType} (h : ledgerType (key name) = some ty) :
    Indexable (dumpField name f x) ↔ ∀ a, x = some a → ty.Accepts (f a) := by
  rw [Indexable, forall_dumpField]
  simp [h]

theorem accepts_keyword_str {s : PyStr} : FieldType.keyword.Accepts (.str s) ↔ Short s := by
  simp [FieldType.Accepts, texts]

theorem accepts_ip_str {s : PyStr} : FieldType.ip.Accepts (.str s) ↔ IsIpLiteral s := by
  simp [FieldType.Accepts, texts]

theorem accepts_keyword_strs {ss : List PyStr} :
    FieldType.keyword.Accepts (.strs ss) ↔ ∀ s ∈ ss, Short s := by
  simp [FieldType.Accepts, texts, Obj.strs, Obj.asStr?]

section OtherTypes

variable (v : Obj)

theorem accepts_date : FieldType.date.Accepts v ↔ True := Iff.rfl

theorem accepts_long : FieldType.long.Accepts v ↔ True := Iff.rfl

theorem accepts_byte : FieldType.byte.Accepts v ↔ True := Iff.rfl

theorem accepts_boolean : FieldType.boolean.Accepts v ↔ True := Iff.rfl

theorem accepts_geoPoint : FieldType.geoPoint.Accepts v ↔ True := Iff.rfl

theorem accepts_text : FieldType.text.Accepts v ↔ True := Iff.rfl

end OtherTypes

/-- The columns of a row the template asks something of. -/
@[mk_iff]
structure C2Observation.Fits (o : C2Observation) : Prop where
  sensorUuid : Short o.sensorUuid
  sensorHostname : Short o.sensorHostname
  srcIp : IsIpLiteral o.srcIp
  sessionId : Short o.sessionId
  c2Host : Short o.c2Host
  c2ResolvedIp : ∀ ip, o.c2ResolvedIp = some ip → IsIpLiteral ip
  c2Url : ∀ u, o.c2Url = some u → Short u
  c2Port : ∀ n, o.c2Port = some n → n < 2 ^ 31
  c2Path : ∀ p, o.c2Path = some p → Short p
  hassh : ∀ h, o.hassh = some h → Short h
  c2Country : ∀ c, o.c2Country = some c → Short c
  c2AsnOrg : ∀ a, o.c2AsnOrg = some a → Short a
  sha256 : ∀ h, o.sha256 = some h → Short h
  sha1 : ∀ h, o.sha1 = some h → Short h
  md5 : ∀ h, o.md5 = some h → Short h
  magic : ∀ m, o.magic = some m → Short m
  family : ∀ f, o.family = some f → Short f
  interpreter : ∀ i, o.interpreter = some i → Short i
  callbacks : ∀ h ∈ o.callbacks, Short h
  c2ViaSha256 : ∀ h, o.c2ViaSha256 = some h → Short h

/-- Every property has the type the template gives it. -/
theorem ledgerType_get : ∀ i : Fin 33,
    ledgerType (ledgerProperties.get i).1 = some (ledgerProperties.get i).2 := by
  decide +kernel

/-- A dumped row is accepted when its columns fit. -/
theorem indexable_modelDump (rt : Runtime) (o : C2Observation) :
    Indexable (o.modelDump rt) ↔ o.Fits := by
  have hkind (k : HostKind) : Short k.name := by cases k <;> decide +kernel
  have hevidence (e : Evidence) : Short e.name := by cases e <;> decide +kernel
  have hfile (k : FileKind) : Short k.name := by cases k <;> decide +kernel
  have hport (n : ℕ) : FieldType.integer.Accepts (.int n) ↔ n < 2 ^ 31 := by
    simp only [FieldType.Accepts]
    omega
  have hschema : Short schemaVersion := by decide +kernel
  have htype := ledgerType_get
  have hSchemaVersion : ledgerType (key "schema_version") = some .keyword := htype 0
  have hTs : ledgerType (key "ts") = some .date := htype 1
  have hSensorUuid : ledgerType (key "sensor_uuid") = some .keyword := htype 2
  have hSensorHostname : ledgerType (key "sensor_hostname") = some .keyword := htype 3
  have hSrcIp : ledgerType (key "src_ip") = some .ip := htype 4
  have hSessionId : ledgerType (key "session_id") = some .keyword := htype 5
  have hC2Host : ledgerType (key "c2_host") = some .keyword := htype 6
  have hC2HostKind : ledgerType (key "c2_host_kind") = some .keyword := htype 7
  have hC2ResolvedIp : ledgerType (key "c2_resolved_ip") = some .ip := htype 8
  have hC2Url : ledgerType (key "c2_url") = some .keyword := htype 9
  have hC2Port : ledgerType (key "c2_port") = some .integer := htype 10
  have hC2Path : ledgerType (key "c2_path") = some .keyword := htype 11
  have hC2Geo : ledgerType (key "c2_geo") = some .geoPoint := htype 12
  have hC2Country : ledgerType (key "c2_country") = some .keyword := htype 13
  have hC2Asn : ledgerType (key "c2_asn") = some .long := htype 14
  have hC2AsnOrg : ledgerType (key "c2_asn_org") = some .keyword := htype 15
  have hEvidence : ledgerType (key "evidence") = some .keyword := htype 16
  have hEvidenceRank : ledgerType (key "evidence_rank") = some .byte := htype 17
  have hSelfHosted : ledgerType (key "self_hosted") = some .boolean := htype 18
  have hFileKind : ledgerType (key "file_kind") = some .keyword := htype 19
  have hSha256 : ledgerType (key "sha256") = some .keyword := htype 20
  have hSha1 : ledgerType (key "sha1") = some .keyword := htype 21
  have hMd5 : ledgerType (key "md5") = some .keyword := htype 22
  have hSize : ledgerType (key "size") = some .long := htype 23
  have hMagic : ledgerType (key "magic") = some .keyword := htype 24
  have hFamily : ledgerType (key "family") = some .keyword := htype 25
  have hInterpreter : ledgerType (key "interpreter") = some .keyword := htype 26
  have hContent : ledgerType (key "content") = some .text := htype 27
  have hContentTruncated : ledgerType (key "content_truncated") = some .boolean := htype 28
  have hCallbacks : ledgerType (key "callbacks") = some .keyword := htype 29
  have hC2ViaSha256 : ledgerType (key "c2_via_sha256") = some .keyword := htype 30
  have hHassh : ledgerType (key "hassh") = some .keyword := htype 31
  unfold C2Observation.modelDump
  simp only [indexable_append, indexable_dumpField hSchemaVersion, indexable_dumpField hTs,
    indexable_dumpField hSensorUuid,
    indexable_dumpField hSensorHostname, indexable_dumpField hSrcIp, indexable_dumpField
    hSessionId, indexable_dumpField hC2Host, indexable_dumpField hC2HostKind,
    indexable_dumpField hC2ResolvedIp, indexable_dumpField hC2Url, indexable_dumpField
    hC2Port, indexable_dumpField hC2Path, indexable_dumpField hC2Geo, indexable_dumpField
    hC2Country, indexable_dumpField hC2Asn, indexable_dumpField hC2AsnOrg, indexable_dumpField
    hEvidence, indexable_dumpField hEvidenceRank, indexable_dumpField hSelfHosted,
    indexable_dumpField hFileKind, indexable_dumpField hSha256, indexable_dumpField hSha1,
    indexable_dumpField hMd5, indexable_dumpField hSize, indexable_dumpField hMagic,
    indexable_dumpField hFamily, indexable_dumpField hInterpreter, indexable_dumpField
    hContent, indexable_dumpField hContentTruncated, indexable_dumpField hCallbacks,
    indexable_dumpField hC2ViaSha256, indexable_dumpField hHassh,
    accepts_keyword_str, accepts_ip_str, accepts_keyword_strs, hport, Option.some.injEq,
    forall_eq', hkind, hevidence, hfile, hschema, accepts_date, accepts_long, accepts_byte,
    accepts_boolean, accepts_geoPoint, accepts_text, implies_true, true_and, and_true, and_assoc,
    C2Observation.fits_iff]

end C2Engine
