import C2Engine.Elastic.Requests
import C2Engine.Reason.Feeds
import C2Engine.Store.Paging
import Mathlib.Data.List.AList
import Mathlib.Data.Prod.Lex

/-!
# The cache of indicators and its matcher

The second part of `services/reason/intel.py`: `IntelMatcher` downloads a feed whose cached
documents have become stale, writes it to the index `c2-intel`, purges what the feed no longer
lists, and loads the index page by page into three dictionaries, in which the indicators of an
entity are looked up.

The world of these programs is an `IntelState`, the index and the matcher; what the servers do in
one refresh is an `IntelEnv`. Times are microseconds; a stamp is a whole second, as it is written
into a document.

## Main definitions

* `IntelDoc`, `IntelCache`: the documents of `c2-intel`.
* `Indexes`, `Indexes.ofDocs`: the dictionaries.
* `Matcher`, `IntelState`, `IntelEnv`: the state and the surroundings.
* `latestFetched`, `isStale`, `fetch`, `store`, `loadIndexes`, `turn`, `refresh`: the methods.
* `IntelMatcher.matchEntity`: `match`.

## Main results

* `Indexes.lookup_urls_ofDocs`, `Indexes.atHost_ofDocs`: what the dictionaries hold.
* `run_fetch_eq_some_iff`, `run_store`: the methods by their effects.
-/

namespace C2Engine

open Python Store

/-! ### The cache -/

/-- A document of `c2-intel`: an indicator with the time its feed was downloaded. -/
structure IntelDoc extends Ioc where
  fetchedAt : ℤ
  deriving DecidableEq

namespace IntelDoc

/-- The identifier of an indicator, `source:value`. -/
def idOf (source : Source) (value : PyStr) : PyStr := source.name ++ cp ':' :: value

/-- `_id`. -/
def id (d : IntelDoc) : PyStr := idOf d.source d.value

/-- The sort key of a search: the value, and among equal values the source. -/
def sortKey (d : IntelDoc) : Lex (PyStr × PyStr) := toLex (d.value, d.source.name)

theorem id_eq_of_sortKey_eq (d e : IntelDoc) (h : d.sortKey = e.sortKey) : d.id = e.id := by
  have h' : (d.value, d.source.name) = (e.value, e.source.name) := toLex.injective h
  rw [Prod.mk.injEq] at h'
  rw [id, id, idOf, idOf, h'.1, h'.2]

end IntelDoc

/-- The index `c2-intel`. -/
abbrev IntelCache := Index IntelDoc.id

/-- The documents in the order of a search. -/
def IntelCache.listed (cache : IntelCache) : List IntelDoc := cache.sorted IntelDoc.sortKey

theorem IntelCache.pairwise_listed (cache : IntelCache) :
    cache.listed.Pairwise fun d e => d.sortKey < e.sortKey :=
  Index.pairwise_sorted IntelDoc.id_eq_of_sortKey_eq

/-! ### The dictionaries -/

/-- A dictionary with texts as keys. -/
abbrev TextDict (α : Type) := AList fun _ : PyStr => α

/-- `_urls`, `_hosts` and `_hashes`. -/
structure Indexes where
  urls : TextDict IntelDoc
  hosts : TextDict (List IntelDoc)
  hashes : TextDict IntelDoc

namespace Indexes

/-- No indicator. -/
def empty : Indexes := ⟨∅, ∅, ∅⟩

/-- Under a host there are all indicators that name it. -/
def atHost (ix : Indexes) (host : PyStr) : List IntelDoc := (ix.hosts.lookup host).getD []

/-- Add a document that was read. -/
def add (ix : Indexes) (d : IntelDoc) : Indexes where
  urls := if d.iocType = .url then ix.urls.insert d.value d else ix.urls
  hashes := if d.iocType = .hash then ix.hashes.insert d.value d else ix.hashes
  hosts := match d.host with
    | some host => ix.hosts.insert host (ix.atHost host ++ [d])
    | none => ix.hosts

/-- Add documents, one after the other. -/
def addAll (ix : Indexes) (ds : List IntelDoc) : Indexes := ds.foldl add ix

/-- The dictionaries of a list of documents. -/
def ofDocs (ds : List IntelDoc) : Indexes := empty.addAll ds

theorem addAll_ofDocs (ds es : List IntelDoc) : (ofDocs ds).addAll es = ofDocs (ds ++ es) :=
  (List.foldl_append ..).symm

theorem ofDocs_concat (ds : List IntelDoc) (d : IntelDoc) :
    ofDocs (ds ++ [d]) = (ofDocs ds).add d :=
  List.foldl_append ..

/-- Under a URL there is the last indicator that is this URL. -/
theorem lookup_urls_ofDocs (ds : List IntelDoc) (v : PyStr) : (ofDocs ds).urls.lookup v =
    (ds.filter fun d => d.iocType = .url ∧ d.value = v).getLast? := by
  induction ds using List.reverseRecOn with
  | nil => rfl
  | append_singleton ds d ih =>
    rw [ofDocs_concat, add]
    dsimp only
    by_cases ht : d.iocType = .url
    · by_cases hv : d.value = v
      · subst hv
        rw [if_pos ht, AList.lookup_insert]
        simp [ht]
      · rw [if_pos ht, AList.lookup_insert_ne (Ne.symm hv), ih]
        simp [hv]
    · rw [if_neg ht, ih]
      simp [ht]

/-- Under a hash there is the last indicator that is this hash. -/
theorem lookup_hashes_ofDocs (ds : List IntelDoc) (v : PyStr) : (ofDocs ds).hashes.lookup v =
    (ds.filter fun d => d.iocType = .hash ∧ d.value = v).getLast? := by
  induction ds using List.reverseRecOn with
  | nil => rfl
  | append_singleton ds d ih =>
    rw [ofDocs_concat, add]
    dsimp only
    by_cases ht : d.iocType = .hash
    · by_cases hv : d.value = v
      · subst hv
        rw [if_pos ht, AList.lookup_insert]
        simp [ht]
      · rw [if_pos ht, AList.lookup_insert_ne (Ne.symm hv), ih]
        simp [hv]
    · rw [if_neg ht, ih]
      simp [ht]

/-- Under a host there are the indicators with this host. -/
theorem atHost_ofDocs (ds : List IntelDoc) (host : PyStr) :
    (ofDocs ds).atHost host = ds.filter fun d => d.host = some host := by
  induction ds using List.reverseRecOn with
  | nil => rfl
  | append_singleton ds d ih =>
    rw [ofDocs_concat, List.filter_append, ← ih, add, atHost]
    cases hd : d.host with
    | none => simp [hd, atHost]
    | some h =>
      by_cases hh : h = host
      · subst hh
        simp [hd, atHost]
      · simp [hd, hh, AList.lookup_insert_ne (Ne.symm hh), atHost]

end Indexes

/-! ### The state -/

/-- `IntelMatcher` with its `IntelClient`. -/
structure Matcher where
  /-- `client.enabled`. -/
  enabled : Bool
  /-- `client.feeds`. -/
  feeds : List Source
  /-- How long a feed stays fresh. -/
  ttl : ℤ
  now : ℤ
  indexes : Indexes
  loaded : Bool
  refreshed : List Source

/-- The index and the matcher. -/
structure IntelState where
  cache : IntelCache
  matcher : Matcher

/-- What a server answers to the download of a feed. -/
inductive Download where
  /-- A body, decoded. -/
  | body (text : PyStr)
  /-- An error status. -/
  | httpError (code : ℕ)
  /-- A `URLError`, a `TimeoutError` or a `ValueError`. -/
  | failed
  /-- Any other exception. -/
  | broken
  deriving DecidableEq

/-- The requests of a refresh to Elasticsearch. -/
inductive IntelRequest where
  /-- The freshness of the `i`-th feed. -/
  | latest (i : ℕ)
  /-- The bulk request with the documents of the `i`-th feed. -/
  | bulk (i : ℕ)
  /-- The purge of the `i`-th feed. -/
  | purge (i : ℕ)
  /-- The `n`-th page of the index. -/
  | load (n : ℕ)
  deriving DecidableEq

/-- The surroundings of one refresh: its time, what becomes of its requests, and the feeds. -/
structure IntelEnv where
  now : ℤ
  reply : IntelRequest → Reply
  download : ℕ → Download

/-- The whole second of a time, as it is written into a document. -/
def stamp (now : ℤ) : ℤ := now / usPerSecond

/-- `_LOAD_CAP`. -/
def loadCap : ℕ := 100000

/-- `_LOAD_PAGE`. -/
def loadPage : ℕ := 5000

namespace IntelMatcher

/-- A program on the index. -/
def onCache {α : Type} (m : Prog IntelCache α) : Prog IntelState α :=
  Prog.zoom IntelState.cache (fun c s => { s with cache := c }) m

/-- A change of the matcher. -/
def setMatcher (f : Matcher → Matcher) : Prog IntelState Unit :=
  Prog.modify fun s => { s with matcher := f s.matcher }

/-- The latest time a document of a feed was downloaded. -/
def latestStamp (source : Source) (cache : IntelCache) : Option ℤ :=
  ((cache.docs.filter fun d => d.source = source).map IntelDoc.fetchedAt).max?

/-- `_latest_fetched`: a search that is refused counts as a feed that was never downloaded. -/
def latestFetched (r : Reply) (source : Source) : Prog IntelState (Option ℤ) :=
  EsWriter.searchOr r none fun s => latestStamp source s.cache

/-- `_is_stale`. -/
def isStale (m : Matcher) : Option ℤ → Bool
  | none => true
  | some t => m.ttl ≤ m.now - t * usPerSecond

variable (rt : Runtime)

/-- `IntelClient.fetch`: a rejected key disables the client. -/
def fetch (source : Source) : Download → Prog IntelState (Option (List Ioc))
  | .body text => Prog.ofExcept ((parseFeed rt source text).map some)
  | .httpError code => do
    if code = 401 then setMatcher fun m => { m with enabled := false }
    return none
  | .failed => pure none
  | .broken => Prog.raise .other

/-- The documents of a download. -/
def stamped (now : ℤ) (recs : List Ioc) : List IntelDoc := recs.map fun r => ⟨r, stamp now⟩

/-- The documents of a feed that do not carry the present stamp. -/
def outdated (source : Source) (now : ℤ) (d : IntelDoc) : Bool :=
  d.source = source && d.fetchedAt ≠ stamp now

/-- `_store`: write a download, then purge what was not just stamped again. -/
def store (bulk purge : Reply) (source : Source) (recs : List Ioc) : Prog IntelState Unit := do
  let now := (← Prog.get).matcher.now
  onCache (EsWriter.bulkIndex bulk (stamped now recs))
  onCache (EsWriter.deleteByQuery purge (outdated source now))

/-- The loop of `_load_indexes`, before its `n`-th page, when `loaded` documents were read and the
last one had the key `after`. Every page reads a document, so `fuel` of them at most come before
the cap. -/
def loadPages (reply : IntelRequest → Reply) (cap size : ℕ) :
    (fuel n : ℕ) → (after : Option (Lex (PyStr × PyStr))) → (loaded : ℕ) → Prog IntelState Unit
  | 0, _, _, _ => setMatcher fun m => { m with loaded := true }
  | fuel + 1, n, after, loaded =>
    if cap ≤ loaded then setMatcher fun m => { m with loaded := true }
    else do
      let size' := min size (cap - loaded)
      let hits? ← EsWriter.searchOr (reply (.load n)) none fun s : IntelState =>
        some (page IntelDoc.sortKey s.cache.listed after size')
      match hits? with
      | none => setMatcher fun m => { m with loaded := true }
      | some hits =>
        match hits.getLast? with
        | none => setMatcher fun m => { m with loaded := true }
        | some last => do
          setMatcher fun m => { m with indexes := m.indexes.addAll hits }
          if hits.length < size' then setMatcher fun m => { m with loaded := true }
          else loadPages reply cap size fuel (n + 1) (some last.sortKey) (loaded + hits.length)

/-- `_load_indexes`. -/
def loadIndexes (reply : IntelRequest → Reply) : Prog IntelState Unit := do
  setMatcher fun m => { m with indexes := .empty }
  loadPages reply loadCap loadPage loadCap 0 none 0

/-- The body of the loop of `refresh` for the `i`-th feed, where the feed is due. -/
def turnDue (env : IntelEnv) (i : ℕ) (source : Source) : Prog IntelState Bool := do
  match ← fetch rt source (env.download i) with
  | none => return false
  | some recs =>
    store (env.reply (.bulk i)) (env.reply (.purge i)) source recs
    setMatcher fun m => { m with refreshed := m.refreshed ++ [source] }
    return true

/-- The body of the loop of `refresh`, for the `i`-th feed; whether it was stored. -/
def turn (env : IntelEnv) (i : ℕ) (source : Source) : Prog IntelState Bool := do
  let latest ← latestFetched (env.reply (.latest i)) source
  if isStale (← Prog.get).matcher latest then turnDue rt env i source else return false

/-- The loop of `refresh` from the `i`-th feed on; whether a feed was stored. -/
def turns (env : IntelEnv) : (i : ℕ) → List Source → (changed : Bool) → Prog IntelState Bool
  | _, [], changed => pure changed
  | i, source :: feeds, changed => do
    let stored ← turn rt env i source
    turns env (i + 1) feeds (changed || stored)

/-- `refresh`. -/
def refresh (env : IntelEnv) : Prog IntelState Unit := do
  setMatcher fun m => { m with now := env.now, refreshed := [] }
  let m := (← Prog.get).matcher
  if m.enabled then do
    let changed ← turns rt env 0 m.feeds false
    if changed || !(← Prog.get).matcher.loaded then loadIndexes env.reply
  else pure ()

/-- The run of a refresh, from the state in which its turns begin. -/
theorem run_refresh (env : IntelEnv) (s : IntelState) :
    (refresh rt env).run s =
      (if s.matcher.enabled then (do
        let changed ← turns rt env 0 s.matcher.feeds false
        if changed || !(← Prog.get).matcher.loaded then loadIndexes env.reply)
      else pure () : Prog IntelState Unit).run
        ⟨s.cache, { s.matcher with now := env.now, refreshed := [] }⟩ := rfl

/-! ### Matching -/

/-- An entity, as `match` is given it. -/
structure Entity where
  host : PyStr
  resolvedIps : List PyStr
  urls : List PyStr
  shas : List PyStr

/-- What `match` returns. -/
structure MatchResult where
  sources : List PyStr
  malware : List PyStr
  tags : List PyStr

/-- The texts that are not empty, in lower case. -/
def lowered (xs : List PyStr) : List PyStr := (xs.filter fun x => !x.isEmpty).map rt.unicode.lower

/-- The hosts of an entity: its own, the resolved addresses and those of its URLs. -/
def candidateHosts (e : Entity) : Except PyExc (List PyStr) := do
  let netlocs ← e.urls.mapM (urlHostKey rt)
  return lowered rt (e.host :: e.resolvedIps) ++ netlocs.filter fun h => !h.isEmpty

/-- The indicators that match an entity. -/
def hits (ix : Indexes) (e : Entity) : Except PyExc (List IntelDoc) := do
  let hosts ← candidateHosts rt e
  return (e.urls.filterMap fun u => ix.urls.lookup (rt.unicode.lower u)) ++
    hosts.flatMap ix.atHost ++
    e.shas.filterMap fun sha => ix.hashes.lookup (rt.unicode.lower sha)

/-- `match`. -/
def matchEntity (ix : Indexes) (e : Entity) : Except PyExc MatchResult := do
  let ds ← hits rt ix e
  return ⟨sortedSet (ds.map fun d => d.source.name), sortedSet (ds.flatMap fun d => d.malware),
    sortedSet (ds.flatMap fun d => d.tags)⟩

/-! ### The methods by their effects -/

variable {rt}

theorem run_setMatcher (f : Matcher → Matcher) (s : IntelState) :
    (setMatcher f).run s = (.ok (), { s with matcher := f s.matcher }) := rfl

/-- A download leaves the index and the dictionaries as they are. -/
theorem fetch_frame (source : Source) (d : Download) (s : IntelState) :
    ∃ enabled, ((fetch rt source d).run s).2 =
      { s with matcher := { s.matcher with enabled := enabled } } := by
  cases d with
  | body text => exact ⟨s.matcher.enabled, rfl⟩
  | httpError code =>
    by_cases h : code = 401
    · exact ⟨false, by simp [fetch, h, Prog.run_bind, run_setMatcher]⟩
    · exact ⟨s.matcher.enabled, by simp [fetch, h]⟩
  | failed => exact ⟨s.matcher.enabled, rfl⟩
  | broken => exact ⟨s.matcher.enabled, rfl⟩

/-- A download that is not a body that cannot be read, and not a broken connection, returns. -/
theorem isOk_fetch (source : Source) (d : Download) (s : IntelState) :
    ((fetch rt source d).run s).1.isOk ↔
      d ≠ .broken ∧ ∀ text, d = .body text → FeedReadable rt source text := by
  cases d with
  | body text =>
    simp only [fetch, Prog.run_ofExcept, isOk_map, isOk_parseFeed]
    simp
  | httpError code =>
    by_cases h : code = 401 <;>
      simp [fetch, h, Prog.run_bind, run_setMatcher, Except.isOk, Except.toBool]
  | failed => simp [fetch, Except.isOk, Except.toBool]
  | broken => simp [fetch, Except.isOk, Except.toBool]

/-- A download gives indicators exactly if it is a body the parser reads. -/
theorem run_fetch_eq_some_iff {source : Source} {d : Download} {s s' : IntelState}
    {recs : List Ioc} : (fetch rt source d).run s = (.ok (some recs), s') ↔
      s' = s ∧ ∃ text, d = .body text ∧ parseFeed rt source text = .ok recs := by
  cases d with
  | body text =>
    simp only [fetch, Prog.run_ofExcept, Prod.mk.injEq, map_eq_ok, Option.some.injEq,
      exists_eq_right, Download.body.injEq, exists_eq_left']
    exact ⟨fun h => ⟨h.2.symm, h.1⟩, fun h => ⟨h.2, h.1.symm⟩⟩
  | httpError code =>
    by_cases h : code = 401 <;> simp [fetch, h, Prog.run_bind, run_setMatcher]
  | failed => simp [fetch]
  | broken => simp [fetch]

/-- The index after a bulk request. -/
def bulkEffect (bulk : Reply) (now : ℤ) (recs : List Ioc) (cache : IntelCache) : IntelCache :=
  cache.putAll (bulk.stored IntelDoc.id (stamped now recs))

/-- The index after a purge. -/
def purgeEffect (purge : Reply) (source : Source) (now : ℤ) (cache : IntelCache) : IntelCache :=
  cache.deleteWhere fun d => outdated source now d && (purge.accepts || purge.applied 0 d.id)

/-- The index after `_store`: the purge is sent exactly if the bulk request was not refused. -/
def storeEffect (bulk purge : Reply) (source : Source) (now : ℤ) (recs : List Ioc)
    (cache : IntelCache) : IntelCache :=
  if recs.isEmpty || bulk.accepts then
    purgeEffect purge source now (bulkEffect bulk now recs cache)
  else bulkEffect bulk now recs cache

/-- The end of `_store`. -/
def storeResult (bulk purge : Reply) (recs : List Ioc) : Except PyExc Unit :=
  if recs.isEmpty || bulk.accepts then purge.result else bulk.result

theorem run_store (bulk purge : Reply) (source : Source) (recs : List Ioc) (s : IntelState) :
    (store bulk purge source recs).run s = (storeResult bulk purge recs,
      { s with cache := storeEffect bulk purge source s.matcher.now recs s.cache }) := by
  have hempty : (stamped s.matcher.now recs).isEmpty = recs.isEmpty := by
    cases recs <;> rfl
  have hbulk := @EsWriter.run_bulkIndex _ IntelDoc.id bulk (stamped s.matcher.now recs)
    s.cache
  rw [hempty] at hbulk
  rw [store, Prog.run_bind, Prog.run_get]
  dsimp only
  rw [Prog.run_bind, onCache, Prog.run_zoom, hbulk, storeResult, storeEffect]
  by_cases hok : recs.isEmpty || bulk.accepts
  · have hres : (if recs.isEmpty then .ok () else bulk.result) = (.ok () : Except PyExc Unit) := by
      rcases Bool.or_eq_true_iff.mp hok with h | h
      · rw [if_pos h]
      · rw [Reply.result_of_accepts h, ite_self]
    rw [if_pos hok, if_pos hok, hres]
    rfl
  · obtain ⟨hne, hrej⟩ : recs.isEmpty = false ∧ bulk.accepts = false := by simpa using hok
    rw [if_neg hok, if_neg hok, hne, if_neg Bool.false_ne_true]
    cases hres : bulk.result with
    | ok u => exact absurd (Reply.result_eq_ok_iff.mp hres) (by simp [hrej])
    | error e => rfl

end IntelMatcher

end C2Engine
