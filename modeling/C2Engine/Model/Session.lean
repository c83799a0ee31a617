import C2Engine.Runtime
import C2Engine.Python.Codec

/-!
# The inbound session document

The models of `model/session.py`: a session as the sensor plugin emits it, with the fields the
engine reads, and the validation that makes one from a raw document. Fields that are not modelled
are allowed everywhere and dropped here; the engine passes them on from the raw document.

## Main definitions

* `FileRef`, `Credential`, `Kex`, `Sensor`, `HpData`, `SessionIn`: the models.
* `SessionIn.modelValidate`: `SessionIn.model_validate(raw)`.

## Main results

* `files_of_modelValidate`: in an accepted document `hp_data.files` is a list, if it is there.
-/

namespace C2Engine

open Python

/-! ### Fields -/

/-- A field of type `str`; bytes are decoded. -/
def validateStr : Obj → Option PyStr
  | .str s => some s
  | .bytes b => utf8Decode b
  | _ => none

/-- A field that may be `None`. -/
def validateOptional {α : Type} (f : Obj → Option α) : Obj → Option (Option α)
  | .none => some none
  | v => (f v).map some

/-- A field of type `list`. -/
def validateList {α : Type} (f : Obj → Option α) : Obj → Option (List α)
  | .list xs => xs.mapM f
  | _ => none

/-- The key is a string with `p`. -/
def isTextKey (p : PyStr → Bool) : Key → Bool
  | .str s => p s
  | .bytes _ => false

/-- A mapping whose keys are strings with `p`. -/
def validateKeys (p : PyStr → Bool) : Obj → Option Dict
  | .map d => if d.all fun kv => isTextKey p kv.1 then some d else none
  | _ => none

/-- A field of type `dict[str, Any]`. -/
def validateDict : Obj → Option Dict := validateKeys fun _ => true

/-- The fields of a model that allows further ones. A key with a lone surrogate cannot be the name
of a field. -/
def validateModel : Obj → Option Dict := validateKeys fun s => s.Encodable

/-- The field `name` of a model: its default where the document has none. -/
def field {α : Type} (d : Dict) (name : String) (default : α) (f : Obj → Option α) : Option α :=
  match d.get (key name) with
  | none => some default
  | some v => f v

/-! ### Models -/

/-- `Sensor`: the honeypot's identity. -/
structure Sensor where
  uuid : PyStr := []
  hostname : PyStr := []
  tags : Dict := []
  asn : PyStr := []

/-- One entry of `hp_data.credentials`. -/
structure Credential where
  username : PyStr := []
  password : PyStr := []
  success : Bool := false

/-- `hp_data.kex`; the algorithm lists accept anything and are not read. -/
structure Kex where
  hassh : Option PyStr := none

/-- One entry of `hp_data.files`. -/
structure FileRef where
  url : PyStr := []
  outfile : PyStr := []
  shasum : PyStr := []
  action : PyStr := []
  status : PyStr := []
  resolvedIp : Option PyStr := none
  contentB64 : Option PyStr := none

/-- The `hp_data` envelope. -/
structure HpData where
  conType : PyStr := str "accept"
  transport : PyStr := str "tcp"
  session : PyStr := []
  credentials : List Credential := []
  commands : List PyStr := []
  unknownCommands : List PyStr := []
  urls : List PyStr := []
  files : List FileRef := []
  uploads : List Obj := []
  version : Option PyStr := none
  ttylog : Option PyStr := none
  arch : Option PyStr := none
  clientHeight : Option ℤ := none
  clientWidth : Option ℤ := none
  keyFingerprint : Option PyStr := none
  kex : Option Kex := none

/-- A session document. -/
structure SessionIn where
  app : PyStr := str "cowrie"
  sensor : Sensor := {}
  protocol : PyStr := []
  startTime : Option Datetime := none
  endTime : Option Datetime := none
  srcIp : PyStr := []
  srcPort : Option ℤ := none
  dstIp : PyStr := []
  dstPort : Option ℤ := none
  hpData : HpData := {}

namespace SessionIn

/-- `session_id`. -/
def sessionId (s : SessionIn) : PyStr := s.hpData.session

/-- `sensor_uuid`. -/
def sensorUuid (s : SessionIn) : PyStr := s.sensor.uuid

/-- `sensor_hostname`. -/
def sensorHostname (s : SessionIn) : PyStr := s.sensor.hostname

end SessionIn

/-! ### Validation -/

/-- `Sensor.model_validate`. -/
def Sensor.validate (v : Obj) : Option Sensor := do
  let d ← validateModel v
  return {
    uuid := ← field d "uuid" [] validateStr
    hostname := ← field d "hostname" [] validateStr
    tags := ← field d "tags" [] validateDict
    asn := ← field d "asn" [] validateStr }

/-- `Credential.model_validate`. -/
def Credential.validate (rt : Runtime) (v : Obj) : Option Credential := do
  let d ← validateModel v
  return {
    username := ← field d "username" [] validateStr
    password := ← field d "password" [] validateStr
    success := ← field d "success" false rt.pydantic.parseBool }

/-- `Kex.model_validate`. -/
def Kex.validate (v : Obj) : Option Kex := do
  let d ← validateModel v
  return { hassh := ← field d "hassh" none (validateOptional validateStr) }

/-- `FileRef.model_validate`. -/
def FileRef.validate (v : Obj) : Option FileRef := do
  let d ← validateModel v
  return {
    url := ← field d "url" [] validateStr
    outfile := ← field d "outfile" [] validateStr
    shasum := ← field d "shasum" [] validateStr
    action := ← field d "action" [] validateStr
    status := ← field d "status" [] validateStr
    resolvedIp := ← field d "resolved_ip" none (validateOptional validateStr)
    contentB64 := ← field d "content_b64" none (validateOptional validateStr) }

/-- `HpData.model_validate`. -/
def HpData.validate (rt : Runtime) (v : Obj) : Option HpData := do
  let d ← validateModel v
  let files ← field d "files" [] (validateList FileRef.validate)
  return {
    conType := ← field d "con_type" (str "accept") validateStr
    transport := ← field d "transport" (str "tcp") validateStr
    session := ← field d "session" [] validateStr
    credentials := ← field d "credentials" [] (validateList (Credential.validate rt))
    commands := ← field d "commands" [] (validateList validateStr)
    unknownCommands := ← field d "unknown_commands" [] (validateList validateStr)
    urls := ← field d "urls" [] (validateList validateStr)
    files := files
    uploads := ← field d "uploads" [] (validateList some)
    version := ← field d "version" none (validateOptional validateStr)
    ttylog := ← field d "ttylog" none (validateOptional validateStr)
    arch := ← field d "arch" none (validateOptional validateStr)
    clientHeight := ← field d "client_height" none (validateOptional rt.pydantic.parseInt)
    clientWidth := ← field d "client_width" none (validateOptional rt.pydantic.parseInt)
    keyFingerprint := ← field d "key_fingerprint" none (validateOptional validateStr)
    kex := ← field d "kex" none (validateOptional Kex.validate) }

/-- `start_time` and `end_time`: the validator `_empty_str_is_none` runs before the type. -/
def validateTime (rt : Runtime) (v : Obj) : Option (Option Datetime) :=
  match v with
  | .str [] => some none
  | v => validateOptional rt.pydantic.parseDatetime v

/-- The validation of a session, with its `hp_data` first. -/
def SessionIn.validate (rt : Runtime) (v : Obj) : Option SessionIn := do
  let d ← validateModel v
  let hpData ← field d "hp_data" {} (HpData.validate rt)
  return {
    app := ← field d "app" (str "cowrie") validateStr
    sensor := ← field d "sensor" {} Sensor.validate
    protocol := ← field d "protocol" [] validateStr
    startTime := ← field d "start_time" none (validateTime rt)
    endTime := ← field d "end_time" none (validateTime rt)
    srcIp := ← field d "src_ip" [] validateStr
    srcPort := ← field d "src_port" none (validateOptional rt.pydantic.parseInt)
    dstIp := ← field d "dst_ip" [] validateStr
    dstPort := ← field d "dst_port" none (validateOptional rt.pydantic.parseInt)
    hpData := hpData }

/-- `SessionIn.model_validate(raw)`; a `ValidationError` is a `ValueError`. -/
def SessionIn.modelValidate (rt : Runtime) (raw : Dict) : Except PyExc SessionIn :=
  match SessionIn.validate rt (.map raw) with
  | some s => .ok s
  | none => .error .valueError

theorem validateKeys_eq_some {p : PyStr → Bool} {v : Obj} {d : Dict}
    (h : validateKeys p v = some d) : v = .map d := by
  cases v with
  | map d' =>
    simp only [validateKeys] at h
    split_ifs at h
    rw [Option.some.inj h]
  | _ => simp [validateKeys] at h

/-- A field that is there was accepted by its type. -/
theorem field_eq_some {α : Type} {d : Dict} {name : String} {default x : α}
    {f : Obj → Option α} (h : field d name default f = some x) {v : Obj}
    (hv : d.get (key name) = some v) : f v = some x := by
  simpa [field, hv] using h

theorem HpData.exists_of_validate {rt : Runtime} {v : Obj} {hp : HpData}
    (h : HpData.validate rt v = some hp) :
    ∃ d : Dict, v = .map d ∧
      ∃ files, field d "files" [] (validateList FileRef.validate) = some files := by
  obtain ⟨d, hd, h⟩ := Option.bind_eq_some_iff.mp h
  obtain ⟨files, hfiles, -⟩ := Option.bind_eq_some_iff.mp h
  exact ⟨d, validateKeys_eq_some hd, files, hfiles⟩

theorem SessionIn.exists_of_modelValidate {rt : Runtime} {raw : Dict} {s : SessionIn}
    (h : SessionIn.modelValidate rt raw = .ok s) :
    ∃ hp, field raw "hp_data" {} (HpData.validate rt) = some hp := by
  cases hv : SessionIn.validate rt (.map raw) with
  | none => simp [SessionIn.modelValidate, hv] at h
  | some s' =>
    obtain ⟨d, hd, hv⟩ := Option.bind_eq_some_iff.mp hv
    obtain ⟨hp, hhp, -⟩ := Option.bind_eq_some_iff.mp hv
    obtain rfl : raw = d := Obj.map.inj (validateKeys_eq_some hd)
    exact ⟨hp, hhp⟩

/-- In an accepted document `hp_data` is a mapping whose `files` is a list, where they are
there. -/
theorem files_of_modelValidate {rt : Runtime} {raw : Dict} {s : SessionIn}
    (h : SessionIn.modelValidate rt raw = .ok s) {v : Obj}
    (hv : raw.get (key "hp_data") = some v) :
    ∃ d : Dict, v = .map d ∧ ∀ w, d.get (key "files") = some w → ∃ xs, w = .list xs := by
  obtain ⟨hp, hhp⟩ := SessionIn.exists_of_modelValidate h
  obtain ⟨d, rfl, files, hfiles⟩ := HpData.exists_of_validate (field_eq_some hhp hv)
  refine ⟨d, rfl, fun w hw => ?_⟩
  have hlist := field_eq_some hfiles hw
  cases w with
  | list xs => exact ⟨xs, rfl⟩
  | _ => simp [validateList] at hlist

end C2Engine
