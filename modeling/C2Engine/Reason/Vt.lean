import C2Engine.Reason.Matcher

/-!
# Verdicts of VirusTotal

`services/reason/vt.py`: verdicts on served files are read from the index `c2-vt`, and, within the
budget of a pass, looked up at VirusTotal and written to the index. A resolver belongs to one
pass. It remembers each file it was asked about, also the ones it has no verdict for.

## Main definitions

* `VtVerdict`, `VtCache`: the documents of `c2-vt`.
* `parseVtFile`, `VtClient.lookup`: a report of VirusTotal.
* `VtResolver.readCache`, `VtResolver.verdictsFor`: the resolver.
* `summarizeVt`: the verdicts on the files of an entity.
-/

namespace C2Engine

open Python Store

/-- A document of `c2-vt`: the verdict on one file. -/
structure VtVerdict where
  sha256 : PyStr
  vtFound : Bool
  vtMalicious : ℤ
  vtSuspicious : ℤ
  vtTotal : ℤ
  vtRatio : PyFloat
  vtFamilies : List PyStr
  checkedAt : ℤ
  deriving DecidableEq

/-- The index `c2-vt`. -/
abbrev VtCache := Index VtVerdict.sha256

/-- `DEFAULT_MAX_PER_RUN`. -/
def defaultMaxPerRun : ℤ := 4

/-- `DEFAULT_MIN_MALICIOUS`. -/
def defaultMinMalicious : ℤ := 1

/-- `VT_TTL_DAYS`, as a time. -/
def vtTtl : ℤ := 30 * usPerDay

/-! ### Reports -/

section Report

variable (rt : Runtime)

/-- `v or {}` where a method of mappings is called on the result. -/
def orEmptyMap (v : Option Obj) : Except PyExc Dict :=
  match v with
  | none => .ok []
  | some v =>
    if !v.truthy then .ok []
    else match v with
      | .map d => .ok d
      | _ => .error .attributeError

/-- `int(v or 0)`. -/
def intOrZero (v : Option Obj) : Except PyExc ℤ :=
  match v with
  | none => .ok 0
  | some v =>
    if !v.truthy then .ok 0
    else match v with
      | .int n => .ok n
      | .bool b => .ok (if b then 1 else 0)
      | .float (.finite q) => .ok (if q < 0 then -(-q).floor else q.floor)
      | .float (.inf _) => .error .overflowError
      | .float .nan => .error .valueError
      | .str s => match rt.parseIntText s with
        | some n => .ok n
        | none => .error .valueError
      | _ => .error .typeError

/-- `n["value"]` of an entry that has a name; an entry without one is left out. -/
def threatName : Obj → Except PyExc (Option Obj)
  | .map d => .ok ((Dict.get d (key "value")).filter Obj.truthy)
  | _ => .error .attributeError

/-- The names a report gives; what cannot be run over raises. -/
def threatNames (ptc : Dict) : Except PyExc (List Obj) := do
  let label := ((ptc.get (key "suggested_threat_label")).filter Obj.truthy).toList
  let names ← match ptc.get (key "popular_threat_name") with
    | none => .ok []
    | some (.list xs) => do
      let names ← xs.mapM threatName
      return names.reduceOption
    | some (.str s) => if s.isEmpty then .ok [] else .error .attributeError
    | some (.map d) => if d.isEmpty then .ok [] else .error .attributeError
    | some _ => .error .typeError
  return label ++ names

/-- `sorted(set(fams))` of texts; values of other types are taken to be none Python can sort. -/
def sortedNames (names : List Obj) : Except PyExc (List PyStr) := do
  let texts ← names.mapM fun n => match n with
    | .str s => .ok s
    | _ => .error .typeError
  return sortedSet texts

/-- `parse_vt_file`. -/
def parseVtFile (data : Obj) (sha256 : PyStr) (checkedAt : ℤ) : Except PyExc VtVerdict := do
  let data : Dict ← match data with
    | .map d => .ok d
    | _ => .error .attributeError
  let file ← orEmptyMap (data.get (key "data"))
  let attrs ← orEmptyMap (file.get (key "attributes"))
  let stats ← orEmptyMap (attrs.get (key "last_analysis_stats"))
  let mal ← intOrZero rt (stats.get (key "malicious"))
  let susp ← intOrZero rt (stats.get (key "suspicious"))
  let counts ← stats.mapM fun kv => intOrZero rt (some kv.2)
  let total := counts.sum
  let ptc ← orEmptyMap (attrs.get (key "popular_threat_classification"))
  let names ← threatNames ptc
  let ratio ← if total = 0 then .ok (.finite 0)
    else (truediv mal total).map fun q => roundDigits q 4
  let families ← sortedNames names
  return ⟨sha256, true, mal, susp, total, ratio, families, checkedAt⟩

end Report

/-- `_not_found`. -/
def notFound (sha256 : PyStr) (checkedAt : ℤ) : VtVerdict :=
  ⟨sha256, false, 0, 0, 0, .finite 0, [], checkedAt⟩

/-! ### The client and the resolver -/

/-- What VirusTotal answers. -/
inductive VtAnswer where
  /-- A body; `none` if it is no JSON text. -/
  | body (data : Option Obj)
  /-- An error status. -/
  | httpError (code : ℕ)
  /-- A `URLError`, a `TimeoutError` or a `ValueError`. -/
  | failed
  /-- Any other exception. -/
  | broken

/-- `VtResolver` with its `VtClient`. -/
structure Resolver where
  /-- `client.enabled`. -/
  enabled : Bool
  budget : ℤ
  lookedUp : ℕ
  /-- `_mem`: the files asked about in this pass. -/
  mem : TextDict (Option VtVerdict)

/-- The index and the resolver. -/
structure VtState where
  cache : VtCache
  resolver : Resolver

/-- The requests of a resolver to Elasticsearch. -/
inductive VtRequest where
  /-- The verdicts on some files. -/
  | read (shas : List PyStr)
  /-- A verdict is written. -/
  | write (sha : PyStr)
  deriving DecidableEq

/-- The surroundings of a resolver. -/
structure VtEnv where
  now : ℤ
  reply : VtRequest → Reply
  answer : PyStr → VtAnswer

/-- A change of the resolver. -/
def setResolver (f : Resolver → Resolver) : Prog VtState Unit :=
  Prog.modify fun s => { s with resolver := f s.resolver }

/-- `VtClient.lookup`: a rejected key disables the client. -/
def VtClient.lookup (rt : Runtime) (env : VtEnv) (sha : PyStr) : Prog VtState (Option VtVerdict) :=
  match env.answer sha with
  | .body none => pure none
  | .body (some data) => match parseVtFile rt data sha (stamp env.now) with
    | .ok v => pure (some v)
    | .error e => if e = .valueError then pure none else Prog.raise e
  | .httpError code =>
    if code = 404 then pure (some (notFound sha (stamp env.now)))
    else do
      if code = 401 then setResolver fun r => { r with enabled := false }
      return none
  | .failed => pure none
  | .broken => Prog.raise .other

namespace VtResolver

/-- `_is_fresh`. -/
def isFresh (now : ℤ) (v : VtVerdict) : Bool := now - v.checkedAt * usPerSecond < vtTtl

/-- `_read_cache`: a search that is refused counts as an empty index. -/
def readCache (env : VtEnv) (shas : List PyStr) : Prog VtState (List VtVerdict) :=
  EsWriter.searchOr (env.reply (.read shas)) [] fun s =>
    s.cache.docs.filter fun v => shas.elem v.sha256 && isFresh env.now v

/-- A program on the index. -/
def onCache {α : Type} (m : Prog VtCache α) : Prog VtState α :=
  Prog.zoom VtState.cache (fun c s => { s with cache := c }) m

/-- Remember a verdict, or that there is none. -/
def remember (sha : PyStr) (v : Option VtVerdict) : Prog VtState Unit :=
  setResolver fun r => { r with mem := r.mem.insert sha v }

variable (rt : Runtime)

/-- The body of the loop of `verdicts_for`. -/
def resolve (env : VtEnv) (sha : PyStr) : Prog VtState Unit := do
  let r := (← Prog.get).resolver
  if (r.mem.lookup sha).isSome then pure ()
  else if !r.enabled || r.budget ≤ 0 then remember sha none
  else do
    let v ← VtClient.lookup rt env sha
    setResolver fun r => { r with budget := r.budget - 1, lookedUp := r.lookedUp + 1 }
    match v with
    | some v => onCache (EsWriter.indexDoc (env.reply (.write sha)) v)
    | none => pure ()
    remember sha v

/-- `verdicts_for`. -/
def verdictsFor (env : VtEnv) (shas : List PyStr) : Prog VtState (List VtVerdict) := do
  let mem := (← Prog.get).resolver.mem
  let want := (unseen [] shas).filter fun s => !s.isEmpty && (mem.lookup s).isNone
  if want.isEmpty then pure ()
  else do
    let fresh ← readCache env want
    Prog.forM fresh fun v => remember v.sha256 (some v)
    Prog.forM want (resolve rt env)
  let mem := (← Prog.get).resolver.mem
  return shas.filterMap fun s => (mem.lookup s).join

end VtResolver

/-! ### The verdicts on the files of an entity -/

/-- `summarize_vt`. -/
structure VtSummary where
  maxVtRatio : PyFloat
  maxVtMalicious : ℤ
  vtFamilies : List PyStr

/-- `a < b` of floats. -/
def floatLt : PyFloat → PyFloat → Bool
  | .finite a, .finite b => a < b
  | .inf true, .finite _ | .inf true, .inf false | .finite _, .inf false => true
  | _, _ => false

/-- `max(a, b)` of floats. -/
def floatMax (a b : PyFloat) : PyFloat := if floatLt a b then b else a

/-- `summarize_vt`: nothing without a file VirusTotal knows. -/
def summarizeVt (verdicts : List VtVerdict) : Option VtSummary :=
  match verdicts.filter fun v => v.vtFound with
  | [] => none
  | v :: vs => some
    { maxVtRatio := vs.foldl (fun m v => floatMax m v.vtRatio) v.vtRatio
      maxVtMalicious := vs.foldl (fun m v => max m v.vtMalicious) v.vtMalicious
      vtFamilies := sortedSet ((v :: vs).flatMap fun v => v.vtFamilies) }

end C2Engine
