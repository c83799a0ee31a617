import C2Engine.Pipeline.Enrich
import C2Engine.Reason.Vt

/-!
# The reason pass

`services/reason/engine.py`: one pass rolls the ledger rows of the retention window up by their
host, lays the signals of the intelligence sources over each host, and writes the host's entity
into the index `c2-entities` under the host as identifier. Then the entities last seen before the
window are deleted. Passes follow each other in a loop that goes on when one of them fails.

The roll-up is done by Elasticsearch, in pages of hosts in the order of the hosts. What the code
only copies from its answer, the approximate counts of distinct values and the mean location, is a
parameter (`Estimates`). Times of rows and entities are milliseconds.

## Main definitions

* `LedgerRow`, `EntityDoc`, `World`: the ledger, the entities, and the state of the job.
* `ReasonEnv`: the surroundings of one pass.
* `rankToStage`, `computeOverlay`, `applyVt`, `applyIntel`: the overlay.
* `windowHosts`, `Bucket.ofRows`, `compositePage`: what Elasticsearch answers.
* `upsert`, `hostPages`, `updateEntities`, `runOnce`, `runPasses`: the pass and the loop.
-/

namespace C2Engine

open Python Store

/-! ### The overlay -/

/-- The stages of an entity. -/
inductive Stage where
  | unconfirmed
  | stage1Serving
  | stage2C2
  deriving DecidableEq

/-- `_rank_to_stage`. -/
def rankToStage (rank : ℤ) : Stage :=
  if 2 ≤ rank then .stage2C2 else if rank = 1 then .stage1Serving else .unconfirmed

/-- `known_sha.json`. -/
def knownShaJson : List PyStr :=
  [str "6f52dccd62f25ee71277c6b39b1604ab379e4d2080c90fe6194e77cda54a854c"]

/-- `hassh_toolkits.json`. -/
def hasshToolkitsJson : List (PyStr × PyStr) :=
  [(str "92674389fa1e47a27ddd8d9b63ecd42b", str "mirai-loader")]

/-- `load_known_shas`, of the file's texts. -/
def loadKnownShas (rt : Runtime) (file : List PyStr) : List PyStr := file.map rt.unicode.lower

/-- `load_hassh_toolkits`, of the file's items. Of keys that agree in lower case the last counts, so
the items are listed from the last to the first. -/
def loadHasshToolkits (rt : Runtime) (file : List (PyStr × PyStr)) : List (PyStr × PyStr) :=
  (file.map fun kv => (rt.unicode.lower kv.1, kv.2)).reverse

/-- What is laid over the roll-up of a host; a field that is not set is absent. -/
structure Overlay where
  stage : Stage
  stageSignals : List PyStr
  families : List PyStr
  attributedToolkit : Option (List PyStr) := none
  maxVtRatio : Option PyFloat := none
  vtFamilies : Option (List PyStr) := none
  intelSources : Option (List PyStr) := none
  intelMalware : Option (List PyStr) := none

/-- A list that is not empty. -/
def listOrNone {α : Type} (xs : List α) : Option (List α) := if xs.isEmpty then none else some xs

/-- `compute_overlay`: the stage comes from the rank alone. -/
def computeOverlay (rt : Runtime) (maxRank : ℤ) (families shas hasshes : List PyStr)
    (known : List PyStr) (toolkitOf : List (PyStr × PyStr)) : Overlay :=
  let malware := shas.any fun s => known.elem (rt.unicode.lower s)
  let signals := (if 2 ≤ maxRank then [str "callback_in_malware"] else []) ++
    (if malware then [str "known_malware"] else [])
  let toolkits := sortedSet ((hasshes.filterMap fun h =>
    toolkitOf.lookup (rt.unicode.lower h)).filter fun tk => !tk.isEmpty)
  let hasshSignal := if toolkits.isEmpty then [] else [str "hassh_toolkit"]
  { stage := rankToStage maxRank
    stageSignals := sortedSet (signals ++ hasshSignal)
    families := sortedSet (families.filter fun f => !f.isEmpty)
    attributedToolkit := listOrNone toolkits }

/-- `apply_vt`. -/
def applyVt (o : Overlay) (summary : Option VtSummary) (minMalicious : ℤ) : Overlay :=
  match summary with
  | none => o
  | some s =>
    let flagged := minMalicious ≤ s.maxVtMalicious
    { o with
      maxVtRatio := some s.maxVtRatio
      vtFamilies := listOrNone s.vtFamilies
      stageSignals :=
        if flagged then sortedSet (o.stageSignals ++ [str "virustotal"]) else o.stageSignals }

/-- `apply_intel`. -/
def applyIntel (o : Overlay) (m : IntelMatcher.MatchResult) : Overlay :=
  if m.sources.isEmpty then o
  else { o with
    intelSources := some (sortedSet m.sources)
    intelMalware := listOrNone (sortedSet m.malware)
    stageSignals := sortedSet (o.stageSignals ++ m.sources) }

@[simp] theorem stage_applyVt (o : Overlay) (summary : Option VtSummary) (minMalicious : ℤ) :
    (applyVt o summary minMalicious).stage = o.stage := by
  cases summary <;> rfl

@[simp] theorem stage_applyIntel (o : Overlay) (m : IntelMatcher.MatchResult) :
    (applyIntel o m).stage = o.stage := by
  unfold applyIntel
  split_ifs <;> rfl

@[simp] theorem families_applyVt (o : Overlay) (summary : Option VtSummary) (minMalicious : ℤ) :
    (applyVt o summary minMalicious).families = o.families := by
  cases summary <;> rfl

@[simp] theorem families_applyIntel (o : Overlay) (m : IntelMatcher.MatchResult) :
    (applyIntel o m).families = o.families := by
  unfold applyIntel
  split_ifs <;> rfl

/-! ### The ledger and the entities -/

/-- A location, latitude and longitude. -/
abbrev GeoPoint := PyFloat × PyFloat

/-- A row of the ledger, with the fields the pass aggregates. -/
structure LedgerRow where
  c2Host : PyStr
  ts : ℤ
  evidenceRank : ℤ
  sensorHostname : Option PyStr := none
  srcIp : Option PyStr := none
  sha256 : Option PyStr := none
  family : Option PyStr := none
  hassh : Option PyStr := none
  c2Url : Option PyStr := none
  c2ResolvedIp : Option PyStr := none
  c2Asn : Option ℤ := none
  c2Geo : Option GeoPoint := none
  c2HostKind : Option PyStr := none
  c2Country : Option PyStr := none
  c2AsnOrg : Option PyStr := none
  deriving DecidableEq

/-- The fields of the latest row of a host. -/
structure Latest where
  c2HostKind : Option PyStr
  c2Country : Option PyStr
  c2AsnOrg : Option PyStr

/-- A document of `c2-entities`. -/
structure EntityDoc where
  c2Host : PyStr
  firstSeen : ℤ
  lastSeen : ℤ
  sightingCount : ℕ
  sensorCount : ℕ
  srcIpCount : ℕ
  distinctFiles : ℕ
  maxEvidenceRank : ℤ
  latest : Latest
  reasonVersion : PyStr
  updatedAt : ℤ
  overlay : Overlay
  c2Asn : Option ℤ
  c2Geo : Option GeoPoint

/-- The index `c2-entities`. -/
abbrev EntityIndex := Index EntityDoc.c2Host

/-- The state of the reason job: the indices it works with, and its matcher and resolver. -/
structure World where
  ledger : List LedgerRow
  entities : EntityIndex
  intel : IntelState
  vt : VtState

/-! ### The surroundings of a pass -/

/-- The answers of Elasticsearch the code only copies. -/
structure Estimates where
  /-- The `cardinality` of values. -/
  cardinality : List PyStr → ℕ
  /-- The `geo_centroid` of locations. -/
  centroid : List GeoPoint → Option GeoPoint

/-- The state in which a job without keys finds a ledger. -/
def World.ofLedger (ledger : List LedgerRow) : World where
  ledger := ledger
  entities := .empty
  intel := ⟨.empty, ⟨false, [], 0, 0, .empty, false, []⟩⟩
  vt := ⟨.empty, ⟨false, defaultMaxPerRun, 0, ∅⟩⟩

/-- The requests of a pass besides those of its matcher and its resolver. -/
inductive ReasonRequest where
  /-- The `n`-th page of hosts. -/
  | hosts (n : ℕ)
  /-- The entity of a host is written. -/
  | entity (host : PyStr)
  /-- The entities of old are deleted. -/
  | expire
  deriving DecidableEq

/-- The surroundings of one pass: its time, its settings, and what becomes of its requests. -/
structure ReasonEnv where
  now : ℤ
  /-- The content of `known_sha.json`. -/
  knownShas : List PyStr
  /-- The content of `hassh_toolkits.json`. -/
  hasshToolkits : List (PyStr × PyStr)
  minMalicious : ℤ
  maxPerRun : ℤ
  vtEnabled : Bool
  geo : GeoEnricher
  estimates : Estimates
  /-- Whether the page that ends the hosts comes without an `after_key`. -/
  omitsLastKey : Bool
  reply : ReasonRequest → Reply
  intelReply : IntelRequest → Reply
  download : ℕ → Download
  vtReply : VtRequest → Reply
  vtAnswer : PyStr → VtAnswer

namespace ReasonEnv

/-- Surroundings without keys and location databases, in which every request is carried out. -/
def basic (now : ℤ) : ReasonEnv where
  now := now
  knownShas := knownShaJson
  hasshToolkits := hasshToolkitsJson
  minMalicious := defaultMinMalicious
  maxPerRun := defaultMaxPerRun
  vtEnabled := false
  geo := ⟨none, none⟩
  estimates := ⟨fun values => values.dedup.length, List.head?⟩
  omitsLastKey := false
  reply _ := .done
  intelReply _ := .done
  download _ := .failed
  vtReply _ := .done
  vtAnswer _ := .failed

/-- The surroundings of the matcher. -/
def intel (env : ReasonEnv) : IntelEnv := ⟨env.now, env.intelReply, env.download⟩

/-- The surroundings of the resolver. -/
def vt (env : ReasonEnv) : VtEnv := ⟨env.now, env.vtReply, env.vtAnswer⟩

end ReasonEnv

/-- `ENTITY_RETENTION_DAYS`, as a time. -/
def entityRetention : ℤ := 30 * usPerDay

/-- The beginning of the window in milliseconds: thirty days ago, to the whole second below. -/
def windowStart (now : ℤ) : ℤ := stamp (now - entityRetention) * 1000

/-- The beginning of the window of a time in whole seconds. -/
theorem windowStart_second (s : ℤ) :
    windowStart (s * usPerSecond) = (s - 30 * 86400) * 1000 := by
  have h : s * usPerSecond - entityRetention = (s - 30 * 86400) * usPerSecond := by
    simp only [entityRetention, usPerDay, usPerSecond]
    omega
  rw [windowStart, stamp, h, Int.mul_ediv_cancel _ (by decide)]

/-! ### The roll-up -/

/-- The rows in the window. -/
def windowRows (since : ℤ) (ledger : List LedgerRow) : List LedgerRow :=
  ledger.filter fun r => since ≤ r.ts

/-- The rows of a host in the window. -/
def hostRows (since : ℤ) (ledger : List LedgerRow) (host : PyStr) : List LedgerRow :=
  (windowRows since ledger).filter fun r => r.c2Host = host

/-- The hosts with a row in the window, in their order. -/
def windowHosts (since : ℤ) (ledger : List LedgerRow) : List PyStr :=
  sortedSet ((windowRows since ledger).map LedgerRow.c2Host)

/-- The values of a `terms` aggregation: the most frequent ones, and among equally frequent ones
the first. -/
def topTerms (size : ℕ) (values : List PyStr) : List PyStr :=
  let key (v : PyStr) : Lex (ℤ × PyStr) := toLex (-(values.count v : ℤ), v)
  (values.dedup.insertionSort fun v w => key v ≤ key w).take size

/-- A `top_metrics` aggregation sorted by time, the latest first: of rows of one time it may take
any, here the first. -/
def latestRow : List LedgerRow → Option LedgerRow
  | [] => none
  | r :: rows => some (rows.foldl (fun m r => if m.ts < r.ts then r else m) r)

/-- A bucket of the roll-up. -/
structure Bucket where
  host : PyStr
  docCount : ℕ
  firstSeen : ℤ
  lastSeen : ℤ
  sensorCount : ℕ
  srcIpCount : ℕ
  distinctFiles : ℕ
  maxRank : Option ℤ
  asn : Option ℤ
  geo : Option GeoPoint
  families : List PyStr
  shas : List PyStr
  hasshes : List PyStr
  urls : List PyStr
  resolvedIps : List PyStr
  latest : Option LedgerRow

/-- The bucket of a host with the given rows. -/
def Bucket.ofRows (est : Estimates) (host : PyStr) (rows : List LedgerRow) : Bucket where
  host := host
  docCount := rows.length
  firstSeen := ((rows.map LedgerRow.ts).min?).getD 0
  lastSeen := ((rows.map LedgerRow.ts).max?).getD 0
  sensorCount := est.cardinality (rows.filterMap LedgerRow.sensorHostname)
  srcIpCount := est.cardinality (rows.filterMap LedgerRow.srcIp)
  distinctFiles := est.cardinality (rows.filterMap LedgerRow.sha256)
  maxRank := (rows.map LedgerRow.evidenceRank).max?
  asn := (rows.filterMap LedgerRow.c2Asn).max?
  geo := est.centroid (rows.filterMap LedgerRow.c2Geo)
  families := topTerms 25 (rows.filterMap LedgerRow.family)
  shas := topTerms 200 (rows.filterMap LedgerRow.sha256)
  hasshes := topTerms 50 (rows.filterMap LedgerRow.hassh)
  urls := topTerms 50 (rows.filterMap LedgerRow.c2Url)
  resolvedIps := topTerms 50 (rows.filterMap LedgerRow.c2ResolvedIp)
  latest := latestRow rows

/-- The size of a page of hosts. -/
def pageSize : ℕ := 500

/-- The `hosts` aggregation behind a key: the buckets, and the key to go on from. -/
def compositePage (env : ReasonEnv) (since : ℤ) (ledger : List LedgerRow)
    (after : Option PyStr) : List Bucket × Option PyStr :=
  let hosts := page id (windowHosts since ledger) after pageSize
  let left := (behind id (windowHosts since ledger) after).drop pageSize
  (hosts.map fun host => Bucket.ofRows env.estimates host (hostRows since ledger host),
    if left.isEmpty && env.omitsLastKey then none else hosts.getLast?)

/-! ### The pass -/

/-- `REASON_VERSION`. -/
def reasonVersion : PyStr := str "r1"

/-- The document of a bucket with its overlay. A host without a location in the rows is located
now, which also gives the country where the latest row has none. -/
def entityDoc (env : ReasonEnv) (b : Bucket) (maxRank : ℤ) (overlay : Overlay) : EntityDoc :=
  let latest : Latest :=
    ⟨b.latest.bind LedgerRow.c2HostKind, b.latest.bind LedgerRow.c2Country,
      b.latest.bind LedgerRow.c2AsnOrg⟩
  let found := if b.geo.isNone && env.geo.enabled then env.geo.locate b.host else {}
  { c2Host := b.host
    firstSeen := b.firstSeen
    lastSeen := b.lastSeen
    sightingCount := b.docCount
    sensorCount := b.sensorCount
    srcIpCount := b.srcIpCount
    distinctFiles := b.distinctFiles
    maxEvidenceRank := maxRank
    latest := if found.c2Geo.isSome then
      { latest with c2Country := latest.c2Country <|> found.c2Country } else latest
    reasonVersion := reasonVersion
    updatedAt := stamp env.now
    overlay := overlay
    c2Asn := b.asn
    c2Geo := b.geo <|> found.c2Geo }

/-- A program of the matcher. -/
def onIntel {α : Type} (m : Prog IntelState α) : Prog World α :=
  Prog.zoom World.intel (fun s w => { w with intel := s }) m

/-- A program of the resolver. -/
def onVt {α : Type} (m : Prog VtState α) : Prog World α :=
  Prog.zoom World.vt (fun s w => { w with vt := s }) m

/-- A program on the entities. -/
def onEntities {α : Type} (m : Prog EntityIndex α) : Prog World α :=
  Prog.zoom World.entities (fun s w => { w with entities := s }) m

variable (rt : Runtime)

/-- The body of the loop over the buckets. -/
def upsert (env : ReasonEnv) (b : Bucket) : Prog World Unit := do
  let maxRank := b.maxRank.getD 0
  let overlay := computeOverlay rt maxRank b.families b.shas b.hasshes
    (loadKnownShas rt env.knownShas) (loadHasshToolkits rt env.hasshToolkits)
  let verdicts ← onVt (VtResolver.verdictsFor rt env.vt b.shas)
  let overlay := applyVt overlay (summarizeVt verdicts) env.minMalicious
  let m ← Prog.ofExcept (IntelMatcher.matchEntity rt (← Prog.get).intel.matcher.indexes
    ⟨b.host, b.resolvedIps, b.urls, b.shas⟩)
  let overlay := applyIntel overlay m
  onEntities (EsWriter.indexDoc (env.reply (.entity b.host)) (entityDoc env b maxRank overlay))

/-- The loop over the pages, before its `n`-th page behind the key `after`; the number of entities
written. Every page but the last has a host, so `fuel` can be any number above that of the
hosts. -/
def hostPages (env : ReasonEnv) (since : ℤ) : (fuel n : ℕ) → (after : Option PyStr) → Prog World ℕ
  | 0, _, _ => pure 0
  | fuel + 1, n, after => do
    let (buckets, afterKey) ← EsWriter.search (env.reply (.hosts n)) fun w : World =>
      compositePage env since w.ledger after
    if buckets.isEmpty then return 0
    else do
      Prog.forM buckets (upsert rt env)
      match afterKey with
      | none => return buckets.length
      | some key => do
        let rest ← hostPages env since fuel (n + 1) (some key)
        return buckets.length + rest

/-- The entities that were last seen before the window. -/
def expired (since : ℤ) (e : EntityDoc) : Bool := e.lastSeen < since

/-- The pass behind the refresh of the intelligence: the entities are written, and those of old
deleted. -/
def updateEntities (env : ReasonEnv) : Prog World ℕ := do
  let since := windowStart env.now
  let hosts := (windowHosts since (← Prog.get).ledger).length
  let updated ← hostPages rt env since (hosts + 1) 0 none
  onEntities (EsWriter.deleteByQuery (env.reply .expire) (expired since))
  return updated

/-- A resolver for one pass. -/
def newResolver (env : ReasonEnv) : Resolver := ⟨env.vtEnabled, env.maxPerRun, 0, ∅⟩

/-- The time thirty days ago, if there is one. -/
def checkWindow (env : ReasonEnv) : Except PyExc Unit :=
  if minSecond * usPerSecond ≤ env.now - entityRetention then .ok () else .error .overflowError

/-- `run_once`. -/
def runOnce (env : ReasonEnv) : Prog World ℕ := do
  Prog.ofExcept (checkWindow env)
  Prog.modify fun w => { w with vt := { w.vt with resolver := newResolver env } }
  onIntel (IntelMatcher.refresh rt env.intel)
  updateEntities rt env

/-- The loop of `run`: a pass that fails is logged, and the next one runs. -/
def runPasses : List ReasonEnv → Prog World Unit
  | [] => pure ()
  | env :: envs => do
    Prog.tryExcept (runOnce rt env >>= fun _ => pure ()) fun _ => some (pure ())
    runPasses envs

end C2Engine
