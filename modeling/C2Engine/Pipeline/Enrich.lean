import C2Engine.Pipeline.Extract

/-!
# Enriching a session

`pipeline/enrich` and `pipeline/__init__.py`: the location of a row's host, the fields written
into the session document, and `process`, which makes both outputs of one raw session.

The location databases are optional and not part of the engine: `GeoEnricher` holds what their
readers answer.

## Main definitions

* `GeoEnricher`, `GeoEnricher.locate`, `GeoEnricher.enrich`: locations.
* `stripFiles`: the loop that drops the inlined bytes of files.
* `enrichCopy`, `enrichSession`: the session document to write.
* `Enriched`, `process`: the pipeline.

## Main results

* `isOk_stripFiles`: when the loop over the files raises.
* `isOk_enrichSession`: when the document can be enriched.
* `isOk_process`, `observations_of_process`: when `process` returns, and its rows.
-/

namespace C2Engine

open Python

/-! ### Locations -/

/-- An answer of the city database. -/
structure CityAnswer where
  location : Option (PyFloat × PyFloat)
  isoCode : Option PyStr

/-- An answer of the network database. -/
structure AsnAnswer where
  number : Option ℤ
  organization : Option PyStr

/-- `GeoEnricher`: the readers that could be opened; a lookup without an answer raised. -/
structure GeoEnricher where
  city : Option (PyStr → Option CityAnswer)
  asn : Option (PyStr → Option AsnAnswer)

/-- What `locate` returns; a field it does not set is absent. -/
structure Located where
  c2Geo : Option (PyFloat × PyFloat) := none
  c2Country : Option PyStr := none
  asn : Option AsnAnswer := none

namespace GeoEnricher

/-- `enabled`. -/
def enabled (g : GeoEnricher) : Bool := g.city.isSome || g.asn.isSome

/-- `locate`. -/
def locate (g : GeoEnricher) (ip : PyStr) : Located :=
  if !isIp ip then {}
  else
    let city := g.city.bind fun lookup => lookup ip
    { c2Geo := city.bind fun r => r.location
      c2Country := (city.bind fun r => r.isoCode).bind PyStr.orNone
      asn := g.asn.bind fun lookup => lookup ip }

/-- `_ip_to_geolocate`. -/
def ipToGeolocate (obs : C2Observation) : Option PyStr :=
  match obs.c2HostKind with
  | .ip => PyStr.orNone obs.c2Host
  | .domain => obs.c2ResolvedIp.bind PyStr.orNone

/-- `enrich`: the fields `locate` found are set. -/
def enrich (g : GeoEnricher) (obs : C2Observation) : C2Observation :=
  match ipToGeolocate obs with
  | none => obs
  | some ip =>
    let found := g.locate ip
    { obs with
      c2Geo := found.c2Geo <|> obs.c2Geo
      c2Country := found.c2Country <|> obs.c2Country
      c2Asn := match found.asn with
        | some a => a.number
        | none => obs.c2Asn
      c2AsnOrg := match found.asn with
        | some a => a.organization
        | none => obs.c2AsnOrg }

end GeoEnricher

/-! ### The session document -/

/-- One file of the session document without its inlined bytes. -/
def stripFile : Obj → Obj
  | .map d => .map (Dict.erase d (key "content_b64"))
  | v => v

/-- `for f in hp.get("files") or (): if isinstance(f, dict): f.pop("content_b64", None)`, which
changes the files in place. Text, bytes, a mapping and an extension value can be iterated over,
and none of their items is a mapping. -/
def stripFiles (hp : Dict) : Except PyExc Dict :=
  match hp.get (key "files") with
  | none => .ok hp
  | some files =>
    if !files.truthy then .ok hp
    else match files with
      | .list xs => .ok (hp.set (key "files") (.list (xs.map stripFile)))
      | .map _ | .str _ | .bytes _ | .ext _ _ => .ok hp
      | _ => .error .typeError

/-- The values a `for` loop cannot run over, those that are truthy. -/
def NotIterable : Obj → Prop
  | .bool true | .timestamp _ _ => True
  | .int n => n ≠ 0
  | .float x => (Obj.float x).truthy
  | _ => False

instance (v : Obj) : Decidable (NotIterable v) := by
  unfold NotIterable
  split <;> infer_instance

/-- The loop over the files raises exactly when `files` is a truthy number, `True` or a
timestamp. -/
theorem isOk_stripFiles (hp : Dict) :
    (stripFiles hp).isOk ↔ ∀ v, hp.get (key "files") = some v → ¬ NotIterable v := by
  unfold stripFiles
  cases hp.get (key "files") with
  | none => exact iff_of_true rfl (by simp)
  | some v =>
    simp only [Option.some.injEq, forall_eq']
    cases v with
    | bool b => cases b <;> simp [Obj.truthy, NotIterable, Except.isOk, Except.toBool]
    | int n =>
      by_cases h : n = 0 <;> simp [Obj.truthy, NotIterable, Except.isOk, Except.toBool, h]
    | float x =>
      by_cases h : (Obj.float x).truthy <;>
        simp [NotIterable, Except.isOk, Except.toBool, h]
    | list xs => cases xs <;> simp [Obj.truthy, NotIterable, Except.isOk, Except.toBool]
    | map xs => cases xs <;> simp [Obj.truthy, NotIterable, Except.isOk, Except.toBool]
    | str xs => cases xs <;> simp [Obj.truthy, NotIterable, Except.isOk, Except.toBool]
    | bytes xs => cases xs <;> simp [Obj.truthy, NotIterable, Except.isOk, Except.toBool]
    | _ => simp [Obj.truthy, NotIterable, Except.isOk, Except.toBool]

/-- `_payload_refs`. -/
def payloadRefs (rt : Runtime) (session : SessionIn) : Obj :=
  .list ((session.hpData.files.filter fun f => !f.shasum.isEmpty).map fun f => .map [
    (key "kind", .str ((PyStr.orNone f.action).getD (str "download"))),
    (key "attempted_url", .ofOption .str (PyStr.orNone f.url)),
    (key "sha256", .str f.shasum),
    (key "status",
      .str (if rt.unicode.lower f.status = str "successful" then str "ok" else str "failed"))])

/-- `ENRICH_VERSION`. -/
def enrichVersion : PyStr := str "c2e-1"

/-- `ENRICH_SCHEMA_VERSION`. -/
def enrichSchemaVersion : PyStr := str "1"

/-- The fields of the banner, where there is one. -/
def bannerFields : Option Cpe → Dict
  | none => []
  | some b => [
    (key "banner_vendor", .ofOption .str b.vendor),
    (key "banner_product", .ofOption .str b.product),
    (key "banner_version", .ofOption .str b.version),
    (key "banner_cpe23", .ofOption .str b.cpe23)]

/-- `_hp_data_fields`; the duration is the exact number of seconds. -/
def hpDataFields (rt : Runtime) (session : SessionIn) (ctx : SessionContext) : Dict :=
  let b := ctx.iocs
  let nat (n : ℕ) : Obj := .int n
  [(key "iocs_ips", .strs b.ips),
   (key "iocs_urls", .strs b.urls),
   (key "iocs_domains", .strs b.domains),
   (key "iocs_c2_hosts", .strs b.c2Hosts),
   (key "iocs_ssh_key_sha1s", .strs b.sshKeySha1s),
   (key "iocs_file_hashes", .strs b.fileHashes),
   (key "iocs_cve_ids", .strs b.cveIds),
   (key "playbook_canonical", .str ctx.playbookCanonical),
   (key "playbook_hash", .str ctx.playbookHash),
   (key "cred_sequence_hash", .ofOption .str ctx.creds.sequenceHash),
   (key "cred_success_user", .ofOption .str ctx.creds.successUser),
   (key "cred_success_pass", .ofOption .str ctx.creds.successPass),
   (key "shape_duration_s",
      .ofOption (fun us : ℤ => .float (.finite (us / 1000000))) ctx.shape.durationUs),
   (key "shape_command_count", nat ctx.shape.commandCount),
   (key "shape_unknown_command_count", nat ctx.shape.unknownCommandCount),
   (key "shape_cred_attempts", nat ctx.shape.credAttempts),
   (key "shape_failed_attempts_before_success",
      .ofOption nat ctx.shape.failedAttemptsBeforeSuccess),
   (key "shape_ttylog_bytes", nat ctx.shape.ttylogBytes),
   (key "shape_has_pty", .bool ctx.shape.hasPty),
   (key "shape_distinct_urls", nat ctx.shape.distinctUrls),
   (key "shape_distinct_file_hashes", nat ctx.shape.distinctFileHashes),
   (key "hassh", .ofOption .str (session.hpData.kex.bind fun k => k.hassh)),
   (key "payload_refs", payloadRefs rt session),
   (key "enrich_schema_version", .str enrichSchemaVersion)] ++ bannerFields ctx.banner

/-- What `enrich_session` makes of its copy of the inbound document: the document without the
inlined bytes of its files, with the fields of `hp_data`, the pivot `c2_host` and the version
mark. -/
def enrichCopy (rt : Runtime) (doc : Dict) (session : SessionIn) (ctx : SessionContext) :
    Except PyExc Dict := do
  let hp := ((doc.get (key "hp_data")).bind Obj.asMap?).getD []
  let hp ← stripFiles hp
  let doc := doc.set (key "hp_data") (.map (hp.update (hpDataFields rt session ctx)))
  let doc := doc.set (key "c2_host") (.strs ctx.iocs.c2Hosts)
  return doc.set (key "enrich_version") (.str enrichVersion)

/-- `enrich_session`, which works on a deep copy. -/
def enrichSession (rt : Runtime) (raw : Dict) (session : SessionIn) (ctx : SessionContext) :
    Except PyExc Dict := do
  let doc ← raw.deepcopy rt.enrichCalls
  enrichCopy rt doc session ctx

/-! ### The pipeline -/

/-- `Enriched`: the session document and the ledger rows. -/
structure Enriched where
  sessionDoc : Dict
  observations : List C2Observation

/-- The rows with their locations, where there is a database. -/
def locateRows (geo : Option GeoEnricher) (rows : List C2Observation) : List C2Observation :=
  match geo with
  | some g => if g.enabled then rows.map g.enrich else rows
  | none => rows

/-- `process(raw, geo)`. -/
def process (rt : Runtime) (raw : Dict) (geo : Option GeoEnricher) : Except PyExc Enriched := do
  let session ← SessionIn.modelValidate rt raw
  let ctx ← buildContext rt session
  let observations ← allObservations rt session ctx
  let doc ← enrichSession rt raw session ctx
  return ⟨doc, locateRows geo observations⟩

/-- An accepted document has files the enrichment can run over. -/
theorem isOk_enrichCopy {rt : Runtime} {raw : Dict} {session : SessionIn}
    (h : SessionIn.modelValidate rt raw = .ok session) (ctx : SessionContext) :
    (enrichCopy rt raw session ctx).isOk := by
  refine isOk_bind_pure.mpr ((isOk_stripFiles _).mpr fun v hv => ?_)
  cases hget : raw.get (key "hp_data") with
  | none => simp [hget] at hv
  | some w =>
    obtain ⟨d, rfl, hfiles⟩ := files_of_modelValidate h hget
    simp only [hget, Option.bind_some, Obj.asMap?, Option.getD_some] at hv
    obtain ⟨xs, rfl⟩ := hfiles v hv
    exact id

/-- An accepted document is enriched exactly when it can be copied. -/
theorem isOk_enrichSession {rt : Runtime} {raw : Dict} {session : SessionIn}
    (h : SessionIn.modelValidate rt raw = .ok session) (ctx : SessionContext) :
    (enrichSession rt raw session ctx).isOk ↔ (Obj.map raw).copies rt.enrichCalls := by
  simp only [enrichSession, isOk_bind, Dict.deepcopy_eq_ok]
  exact ⟨fun ⟨_, hcopies, _⟩ => hcopies.1, fun hcopies => ⟨raw, ⟨hcopies, rfl⟩,
    isOk_enrichCopy h ctx⟩⟩

/-- `process` returns on an accepted document exactly when the context and the served files do, and
the document can be copied. -/
theorem isOk_process {rt : Runtime} {raw : Dict} {session : SessionIn}
    (h : SessionIn.modelValidate rt raw = .ok session) (geo : Option GeoEnricher) :
    (process rt raw geo).isOk ↔ ((buildContext rt session).isOk ∧ (servedFiles rt session).isOk) ∧
      (Obj.map raw).copies rt.enrichCalls := by
  have hobs (ctx : SessionContext) :
      (allObservations rt session ctx).isOk ↔ (servedFiles rt session).isOk := isOk_bind_pure
  simp only [process, h, isOk_bind, Except.ok.injEq, exists_eq_left', isOk_pure, and_true]
  constructor
  · rintro ⟨ctx, hctx, rows, hrows, hdoc⟩
    exact ⟨⟨isOk_iff.mpr ⟨ctx, hctx⟩, (hobs ctx).mp (isOk_iff.mpr ⟨rows, hrows⟩)⟩,
      (isOk_enrichSession h ctx).mp (isOk_iff.mpr hdoc)⟩
  · rintro ⟨⟨hctx, hfiles⟩, hcopies⟩
    obtain ⟨ctx, hctx⟩ := isOk_iff.mp hctx
    obtain ⟨rows, hrows⟩ := isOk_iff.mp ((hobs ctx).mpr hfiles)
    exact ⟨ctx, hctx, rows, hrows, isOk_iff.mp ((isOk_enrichSession h ctx).mpr hcopies)⟩

/-- The rows `process` returned. -/
theorem observations_of_process {rt : Runtime} {raw : Dict} {session : SessionIn}
    {geo : Option GeoEnricher} {e : Enriched} (h : SessionIn.modelValidate rt raw = .ok session)
    (he : process rt raw geo = .ok e) :
    ∃ ctx rows, buildContext rt session = .ok ctx ∧ allObservations rt session ctx = .ok rows ∧
      e.observations = locateRows geo rows := by
  simp only [process, h, bind_eq_ok, pure, Except.pure, Except.ok.injEq, exists_eq_left'] at he
  obtain ⟨ctx, hctx, rows, hrows, doc, -, rfl⟩ := he
  exact ⟨ctx, rows, hctx, hrows, rfl⟩

/-! ### What a location leaves in place -/

/-- A row with its location. -/
def locateRow (geo : Option GeoEnricher) (o : C2Observation) : C2Observation :=
  match geo with
  | some g => if g.enabled then g.enrich o else o
  | none => o

theorem locateRows_eq_map (geo : Option GeoEnricher) (rows : List C2Observation) :
    locateRows geo rows = rows.map (locateRow geo) := by
  unfold locateRows locateRow
  split
  · split_ifs
    · rfl
    · exact (List.map_id' rows).symm
  · exact (List.map_id' rows).symm

/-- A location sets the columns of the location. -/
theorem locateRow_eq (geo : Option GeoEnricher) (o : C2Observation) :
    ∃ point country asn org, locateRow geo o =
      { o with c2Geo := point, c2Country := country, c2Asn := asn, c2AsnOrg := org } := by
  unfold locateRow GeoEnricher.enrich
  split
  · split_ifs
    · split <;> exact ⟨_, _, _, _, rfl⟩
    · exact ⟨_, _, _, _, rfl⟩
  · exact ⟨_, _, _, _, rfl⟩

@[simp] theorem locateRow_c2Host (geo : Option GeoEnricher) (o : C2Observation) :
    (locateRow geo o).c2Host = o.c2Host := by
  obtain ⟨_, _, _, _, h⟩ := locateRow_eq geo o
  rw [h]

@[simp] theorem locateRow_evidence (geo : Option GeoEnricher) (o : C2Observation) :
    (locateRow geo o).evidence = o.evidence := by
  obtain ⟨_, _, _, _, h⟩ := locateRow_eq geo o
  rw [h]

@[simp] theorem locateRow_callbacks (geo : Option GeoEnricher) (o : C2Observation) :
    (locateRow geo o).callbacks = o.callbacks := by
  obtain ⟨_, _, _, _, h⟩ := locateRow_eq geo o
  rw [h]

@[simp] theorem locateRow_selfHosted (geo : Option GeoEnricher) (o : C2Observation) :
    (locateRow geo o).selfHosted = o.selfHosted := by
  obtain ⟨_, _, _, _, h⟩ := locateRow_eq geo o
  rw [h]

/-- A document with the given commands and URLs. -/
def hpDataDoc (commands urls : List PyStr) : Dict :=
  [(key "hp_data", .map [(key "commands", .strs commands), (key "urls", .strs urls)])]

end C2Engine
