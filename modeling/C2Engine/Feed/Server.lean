import C2Engine.Python.IpAddress
import C2Engine.Python.Matching
import C2Engine.Reason.Document

/-!
# The blocklist feed

`services/feed/server.py`: `build_feed` asks Elasticsearch for the entities of a stage or above
that were seen in a window of time, the newest first, and lists their hosts, the IP literals apart.

What the search answers is read off the documents as they are stored: the stage is a text in the
document, and the window an expression of Elasticsearch's date math, which a `DateMath` reads.
Entities seen last at the same time come in any order.

## Main definitions

* `stagesAtOrAbove`, `windowRe`, `feedQuery`: the request.
* `TimeUnit`, `Window`, `DateMath`: lengths of time and how Elasticsearch reads them.
* `FeedEnv`, `FeedEnv.answer`: the answer.
* `feedHit`, `feedOf`, `buildFeed`: the feed.
* `feedParams`, `renderBlocklist`: the arguments of a request, and its answer in text.

## Main results

* `isSome_match_windowRe_iff`: what the pattern of a window matches.
* `feedWindow_text`: the text of a window is sent as it is.
* `mem_selected`, `pairwise_selected`: which entities the search finds, and in what order.
* `feedOf_sources`: the hosts of a feed are those of the entities found.
-/

namespace C2Engine

open Python Store

/-! ### The request -/

/-- `STAGE_ORDER`. -/
def stageOrder : List PyStr := [str "unconfirmed", str "stage1_serving", str "stage2_c2"]

/-- `_stages_at_or_above`. -/
def stagesAtOrAbove (minRank : ℤ) : List PyStr :=
  (stageOrder.zipIdx.filter fun s => minRank ≤ s.2).map Prod.fst

/-- `_WINDOW_RE`, the pattern `^\d+[smhd]$`. -/
def windowRe (uni : Unicode) : Re CodePoint :=
  .cat [.plus (.set uni.isDigit), .set (PyStr.oneOf (str "smhd")), .eos]

/-- `DEFAULT_WINDOW`. -/
def defaultWindow : PyStr := str "7d"

/-- `MAX_LIMIT`. -/
def maxLimit : ℤ := 10000

/-- The window that is used for a text. -/
def feedWindow (uni : Unicode) (window : PyStr) : PyStr :=
  if (Re.match? (Re.text uni) (windowRe uni) window).isSome then window else defaultWindow

/-- The stage that is used for a number. -/
def feedStage (minStage : ℤ) : ℤ := max 0 (min minStage 2)

/-- The limit that is used for a number. -/
def feedLimit (limit : ℤ) : ℤ := max 1 (min limit maxLimit)

/-- The body of the search, but for `_SOURCE` and the order. -/
structure FeedQuery where
  size : ℤ
  stages : List PyStr
  /-- The expression `last_seen` is compared with. -/
  gte : PyStr

/-- The body of the search for the arguments of `build_feed`. -/
def feedQuery (uni : Unicode) (minStage : ℤ) (window : PyStr) (limit : ℤ) : FeedQuery where
  size := feedLimit limit
  stages := stagesAtOrAbove (feedStage minStage)
  gte := str "now-" ++ feedWindow uni window

/-! ### Windows of time -/

/-- The units of a window. -/
inductive TimeUnit where
  | seconds
  | minutes
  | hours
  | days
  deriving DecidableEq

namespace TimeUnit

/-- The letter of a unit. -/
def symbol : TimeUnit → CodePoint
  | seconds => cp 's'
  | minutes => cp 'm'
  | hours => cp 'h'
  | days => cp 'd'

/-- A unit in milliseconds. -/
def ms : TimeUnit → ℤ
  | seconds => 1000
  | minutes => 60 * 1000
  | hours => 3600 * 1000
  | days => 86400 * 1000

/-- The unit of a letter. -/
def ofSymbol (c : CodePoint) : Option TimeUnit :=
  if c = cp 's' then some seconds
  else if c = cp 'm' then some minutes
  else if c = cp 'h' then some hours
  else if c = cp 'd' then some days
  else none

@[simp] theorem ofSymbol_symbol (u : TimeUnit) : ofSymbol u.symbol = some u := by
  cases u <;> decide

theorem symbol_mem (u : TimeUnit) : PyStr.oneOf (str "smhd") u.symbol := by
  cases u <;> decide

theorem ms_ge (u : TimeUnit) : 1000 ≤ u.ms := by
  cases u <;> decide

end TimeUnit

/-- A window of time: a number of units. -/
structure Window where
  digits : PyStr
  unit : TimeUnit
  digits_ne_nil : digits ≠ []
  isDigit_digits : digits.all CodePoint.isAsciiDigit

namespace Window

/-- The text of a window. -/
def text (w : Window) : PyStr := w.digits ++ [w.unit.symbol]

/-- The number of units. -/
def number (w : Window) : ℕ := digitsValue 10 decValue w.digits

/-- The length of a window in milliseconds. -/
def length (w : Window) : ℤ := w.number * w.unit.ms

end Window

/-- How Elasticsearch reads an expression of its date math at a time; an expression it refuses has
no value. -/
structure DateMath where
  eval : ℤ → PyStr → Option ℤ
  /-- A window before the present; the number has at most 31 bits. -/
  eval_ago : ∀ (now : ℤ) (w : Window), w.number < 2 ^ 31 →
    eval now (str "now-" ++ w.text) = some (now - w.length)

/-- Date math that knows windows before the present only. -/
def DateMath.basic : DateMath where
  eval now text :=
    let digits := (text.drop 4).dropLast
    (text.getLast?.bind TimeUnit.ofSymbol).bind fun unit =>
      if text.take 4 = str "now-" ∧ digits ≠ [] ∧ digits.all CodePoint.isAsciiDigit then
        some (now - digitsValue 10 decValue digits * unit.ms)
      else none
  eval_ago now w _ := by
    have htake : (str "now-" ++ w.text).take 4 = str "now-" := List.take_left' rfl
    have hdrop : (str "now-" ++ w.text).drop 4 = w.text := List.drop_left' rfl
    have hlast : (str "now-" ++ w.text).getLast? = some w.unit.symbol := by
      rw [Window.text, ← List.append_assoc, List.getLast?_concat]
    have hdigits : w.text.dropLast = w.digits := List.dropLast_concat
    simp only [htake, hdrop, hlast, hdigits, Option.bind_some, TimeUnit.ofSymbol_symbol]
    rw [if_pos ⟨trivial, w.digits_ne_nil, w.isDigit_digits⟩]
    rfl

/-! ### The answer -/

/-- The surroundings of a request to the feed. -/
structure FeedEnv where
  /-- The clock of Elasticsearch, in milliseconds. -/
  now : ℤ
  dateMath : DateMath
  dates : DateTexts
  /-- The order of entities that were seen last at the same time. -/
  tie : EntityDoc → ℕ
  reply : Reply

/-- The fields of `_SOURCE` outside of `latest`. -/
def sourceFields : List Key :=
  [key "c2_host", key "stage", key "stage_signals", key "families", key "first_seen",
    key "last_seen", key "sighting_count", key "sensor_count", key "src_ip_count",
    key "distinct_files", key "max_evidence_rank", key "max_vt_ratio"]

/-- The fields of `_SOURCE` in `latest`. -/
def latestFields : List Key := [key "c2_host_kind", key "c2_country", key "c2_asn_org"]

/-- The part of a document that `_SOURCE` asks for. -/
def sourceOf (doc : Dict) : Dict :=
  doc.filterMap fun kv =>
    if kv.1 ∈ sourceFields then some kv
    else if kv.1 = key "latest" then
      kv.2.asMap?.map fun latest => (kv.1, .map (latest.filter fun kv => kv.1 ∈ latestFields))
    else none

namespace FeedEnv

/-- An entity is one the query asks for: its stage is one of the texts, and it was seen since the
time given. -/
def selects (env : FeedEnv) (q : FeedQuery) (since : ℤ) (e : EntityDoc) : Bool :=
  ((e.dump env.dates).get (key "stage")).any (fun v => v.asStr?.any q.stages.elem) &&
    decide (since ≤ e.lastSeen)

/-- The order of the hits: by the time seen last, the latest first. -/
def sortKey (env : FeedEnv) (e : EntityDoc) : ℤ ×ₗ ℕ := toLex (-e.lastSeen, env.tie e)

/-- The entities a query finds. -/
def selected (env : FeedEnv) (q : FeedQuery) (since : ℤ) (s : EntityIndex) : List EntityDoc :=
  ((s.sorted env.sortKey).filter (env.selects q since)).take q.size.toNat

/-- The sources of the hits; a query whose window is refused has no answer. -/
def answer (env : FeedEnv) (q : FeedQuery) (s : EntityIndex) : Option (List Dict) :=
  (env.dateMath.eval env.now q.gte).map fun since =>
    (env.selected q since s).map fun e => sourceOf (e.dump env.dates)

end FeedEnv

/-! ### The feed -/

/-- `d.get(k)`, with `None` for a missing item. -/
def getOrNone (d : Dict) (k : String) : Obj := (d.get (key k)).getD .none

/-- `src.get("latest", {}) or {}`, which has to be a dictionary. -/
def latestOf (src : Dict) : Except PyExc Dict :=
  match src.get (key "latest") with
  | none => .ok []
  | some v =>
    if v.truthy then (match v.asMap? with
      | some d => .ok d
      | none => .error .attributeError)
    else .ok []

/-- The summary of an entity. -/
def summary (src latest : Dict) (host : PyStr) : Dict :=
  [(key "c2_host", .str host),
    (key "kind", getOrNone latest "c2_host_kind"),
    (key "stage", getOrNone src "stage"),
    (key "stage_signals", (src.get (key "stage_signals")).getD (.list [])),
    (key "families", (src.get (key "families")).getD (.list [])),
    (key "first_seen", getOrNone src "first_seen"),
    (key "last_seen", getOrNone src "last_seen"),
    (key "sighting_count", getOrNone src "sighting_count"),
    (key "sensor_count", getOrNone src "sensor_count"),
    (key "src_ip_count", getOrNone src "src_ip_count"),
    (key "distinct_files", getOrNone src "distinct_files"),
    (key "max_evidence_rank", getOrNone src "max_evidence_rank"),
    (key "max_vt_ratio", getOrNone src "max_vt_ratio"),
    (key "country", getOrNone latest "c2_country"),
    (key "asn_org", getOrNone latest "c2_asn_org")]

/-- The body of the loop over the hits: the host with its summary; a hit without a host is left out.
Hosts are the texts the reason job writes. The loop takes any other value but an empty one for a
host as well; here a hit with such a value is left out. -/
def feedHit (src : Dict) : Except PyExc (Option (PyStr × Dict)) :=
  match (src.get (key "c2_host")).bind Obj.asStr? with
  | none => .ok none
  | some host =>
    if host.isEmpty then .ok none
    else (latestOf src).map fun latest => some (host, summary src latest host)

/-- What `build_feed` returns. -/
structure Feed where
  minStage : PyStr
  window : PyStr
  limit : ℤ
  count : ℕ
  ips : List PyStr
  entities : List Dict

/-- `_is_ip`. -/
def Feed.isIp (host : PyStr) : Bool := (ipAddress host).isSome

/-- The feed of the hits. -/
def feedOf (uni : Unicode) (minStage : ℤ) (window : PyStr) (limit : ℤ) (hits : List Dict) :
    Except PyExc Feed :=
  (hits.mapM feedHit).map fun found =>
    let found := found.reduceOption
    { minStage := stageOrder.getD (feedStage minStage).toNat []
      window := feedWindow uni window
      limit := feedLimit limit
      count := found.length
      ips := unseen [] ((found.map Prod.fst).filter Feed.isIp)
      entities := found.map Prod.snd }

/-- `build_feed`; Elasticsearch answers a window it cannot read with an error status. -/
def buildFeed (uni : Unicode) (env : FeedEnv) (minStage : ℤ) (window : PyStr) (limit : ℤ) :
    Prog EntityIndex Feed := do
  let answer ← EsWriter.search env.reply (env.answer (feedQuery uni minStage window limit))
  match answer with
  | none => Prog.raise .runtimeError
  | some hits => Prog.ofExcept (feedOf uni minStage window limit hits)

/-! ### Requests and their answers in text -/

/-- The parameters of a request, as `parse_qs` gives them. -/
abbrev QueryString := List (PyStr × List PyStr)

namespace QueryString

/-- `qs.get(key, [default])[0]`. -/
def first (qs : QueryString) (k default_ : PyStr) : Except PyExc PyStr :=
  match qs.lookup k with
  | none => .ok default_
  | some [] => .error .indexError
  | some (v :: _) => .ok v

/-- `_int`: a value that is no number counts as the default. -/
def int (rt : Runtime) (qs : QueryString) (k : PyStr) (default_ : ℤ) : ℤ :=
  match qs.lookup k with
  | some (v :: _) => (rt.parseIntText v).getD default_
  | _ => default_

end QueryString

/-- `DEFAULT_MIN_STAGE`. -/
def defaultMinStage : ℤ := 1

/-- `DEFAULT_LIMIT`. -/
def defaultLimit : ℤ := 5000

/-- The arguments of `build_feed`. -/
structure FeedParams where
  minStage : ℤ
  window : PyStr
  limit : ℤ

/-- `_params`. -/
def feedParams (rt : Runtime) (qs : QueryString) : Except PyExc FeedParams :=
  (qs.first (str "window") defaultWindow).map fun window =>
    { minStage := qs.int rt (str "stage") defaultMinStage
      window := window
      limit := qs.int rt (str "limit") defaultLimit }

/-- The first lines of the blocklist. -/
def Feed.head (feed : Feed) : List PyStr :=
  [str "# c2-engine blocklist — active C2 IPs from honeypot-observed evidence",
    str "# stage>=" ++ feed.minStage ++ str "  window=last " ++ feed.window ++ str "  ips=" ++
      PyStr.ofNat feed.ips.length ++ str "  entities=" ++ PyStr.ofNat feed.count,
    str "# source: c2-engine /feed/blocklist.txt (decaying c2-entities view)"]

/-- `_render_blocklist`. -/
def renderBlocklist (feed : Feed) : PyStr :=
  PyStr.join [cp '\n'] (feed.head ++ feed.ips) ++ [cp '\n']

/-! ### What is asked for -/

theorem exists_symbol_eq {c : CodePoint} (h : PyStr.oneOf (str "smhd") c) :
    ∃ unit : TimeUnit, unit.symbol = c := by
  have hmem : c ∈ [cp 's', cp 'm', cp 'h', cp 'd'] := List.elem_iff.mp h
  simp only [List.mem_cons, List.not_mem_nil, or_false] at hmem
  rcases hmem with rfl | rfl | rfl | rfl
  · exact ⟨.seconds, rfl⟩
  · exact ⟨.minutes, rfl⟩
  · exact ⟨.hours, rfl⟩
  · exact ⟨.days, rfl⟩

/-- **What `_WINDOW_RE` matches**: digits of any script and a unit, and a line feed behind it or
nothing. -/
theorem isSome_match_windowRe_iff (uni : Unicode) (window : PyStr) :
    (Re.match? (Re.text uni) (windowRe uni) window).isSome ↔
      ∃ (digits : PyStr) (unit : TimeUnit) (stop : PyStr),
        window = digits ++ unit.symbol :: stop ∧ digits ≠ [] ∧ (∀ c ∈ digits, uni.isDigit c) ∧
          (stop = [] ∨ stop = [cp '\n']) := by
  have hunit : ∀ unit : TimeUnit, uni.isDigit unit.symbol = false := by
    intro unit
    rw [uni.isDigit_ascii _ (by cases unit <;> decide)]
    cases unit <;> decide
  rw [Re.match?, Re.matchAt, Option.isSome_map, List.isSome_head?]
  constructor
  · intro h
    obtain ⟨d, hd⟩ := List.exists_mem_of_ne_nil _ h
    obtain ⟨c₁, hc₁, hd⟩ := List.mem_flatMap.mp hd
    obtain ⟨c₂, hc₂, hd⟩ := List.mem_flatMap.mp hd
    obtain ⟨digits, hdigits, hwindow⟩ := Re.lang_of_mem_run _ hc₁
    obtain ⟨_, hset, hrest⟩ := Re.lang_of_mem_run _ hc₂
    obtain ⟨x, rfl, hx⟩ := Re.lang_set.mp hset
    obtain ⟨unit, rfl⟩ := exists_symbol_eq hx
    obtain ⟨hne, hall⟩ := Re.lang_plus_set hdigits
    refine ⟨digits, unit, c₂.rest, ?_, hne, hall, ?_⟩
    · rw [← List.singleton_append, ← hrest]
      exact hwindow
    · change d ∈ Re.run (Re.text uni) .eos c₂ at hd
      rw [Re.run] at hd
      rcases hstop : c₂.rest with _ | ⟨y, _ | ⟨z, stop⟩⟩
      · exact .inl rfl
      · rw [hstop] at hd
        dsimp only at hd
        split_ifs at hd with hy
        · exact .inr (congrArg (fun c => [c]) (beq_iff_eq.mp hy))
        · cases hd
      · rw [hstop] at hd
        cases hd
  · rintro ⟨digits, unit, stop, rfl, hne, hall, hstop⟩
    obtain ⟨x, xs, rfl⟩ := List.exists_cons_of_ne_nil hne
    obtain ⟨hx, hxs⟩ := List.forall_mem_cons.mp hall
    -- the digits are read as far as they go, which leaves the unit
    obtain ⟨d, hd, hrest, -⟩ := Re.Prefers.star_set (Re.text uni) uni.isDigit
      ⟨(Re.text uni).isWord x, xs ++ unit.symbol :: stop, []⟩
    have hleft : d.rest = unit.symbol :: stop := by
      rw [hrest, List.dropWhile_append_of_pos hxs, List.dropWhile_cons_of_neg (by simp [hunit])]
    obtain ⟨prevWord, rest, caps⟩ := d
    obtain rfl : rest = unit.symbol :: stop := hleft
    have heos : Re.Prefers (Re.text uni) .eos ⟨(Re.text uni).isWord unit.symbol, stop, caps⟩
        ⟨(Re.text uni).isWord unit.symbol, stop, caps⟩ := by
      rcases hstop with rfl | rfl <;> rfl
    have hmatch : Re.Prefers (Re.text uni) (windowRe uni)
        ⟨false, x :: (xs ++ unit.symbol :: stop), []⟩ _ :=
      .seq (.seq (.set hx) hd) (.seq (.set unit.symbol_mem) heos)
    exact List.ne_nil_of_mem (List.mem_of_head? hmatch)

/-- The text of a window is used as it is. -/
theorem feedWindow_text (uni : Unicode) (w : Window) : feedWindow uni w.text = w.text :=
  if_pos ((isSome_match_windowRe_iff uni w.text).mpr ⟨w.digits, w.unit, [], rfl, w.digits_ne_nil,
    fun c hc => isDigit_of_isAsciiDigit uni (List.all_eq_true.mp w.isDigit_digits c hc),
    .inl rfl⟩)

/-- The place of a stage in `STAGE_ORDER`. -/
def Stage.rank : Stage → ℤ
  | .unconfirmed => 0
  | .stage1Serving => 1
  | .stage2C2 => 2

theorem name_mem_stagesAtOrAbove {stage : Stage} {minRank : ℤ} :
    stage.name ∈ stagesAtOrAbove minRank ↔ minRank ≤ stage.rank := by
  cases stage <;>
    simp [stagesAtOrAbove, stageOrder, Stage.name, Stage.rank, List.zipIdx, and_comm]

/-- The stage of a rank is at or above a stage if the rank is; every stage is at or above the
first. -/
theorem le_rank_rankToStage {k n : ℤ} (hk : 0 ≤ k) (hk2 : k ≤ 2) :
    k ≤ (rankToStage n).rank ↔ k = 0 ∨ k ≤ n := by
  unfold rankToStage
  split_ifs with h2 h1 <;> simp only [Stage.rank] <;> omega

/-- The entities a feed asks for: of the stage or above, and seen since the time given. -/
theorem selects_feedQuery {env : FeedEnv} {uni : Unicode} {minStage limit since : ℤ}
    {window : PyStr} {e : EntityDoc} :
    env.selects (feedQuery uni minStage window limit) since e ↔
      feedStage minStage ≤ e.overlay.stage.rank ∧ since ≤ e.lastSeen := by
  rw [FeedEnv.selects, get_stage_dump, Bool.and_eq_true, decide_eq_true_eq,
    ← name_mem_stagesAtOrAbove]
  simp [Obj.asStr?, feedQuery]

/-! ### What is answered -/

/-- A field of `_SOURCE` is in the source as it is in the document. -/
theorem get_sourceOf {k : Key} (hk : k ∈ sourceFields) : (doc : Dict) →
    (sourceOf doc).get k = doc.get k
  | [] => rfl
  | kv :: doc => by
      have ih := get_sourceOf hk doc
      have hlatest : k ≠ key "latest" := by
        rintro rfl
        simp [sourceFields] at hk
      rw [sourceOf] at ih ⊢
      rw [List.filterMap_cons, Dict.get_cons]
      by_cases hkv : kv.1 = k
      · rw [if_pos (hkv ▸ hk), if_pos hkv]
        exact (Dict.get_cons ..).trans (if_pos hkv)
      · rw [if_neg hkv]
        split_ifs with hfield hlast
        · exact (Dict.get_cons ..).trans ((if_neg hkv).trans ih)
        · cases kv.2.asMap? with
          | none => exact ih
          | some latest =>
            exact (Dict.get_cons ..).trans ((if_neg hkv).trans ih)
        · exact ih

/-- In a source `latest` is a dictionary. -/
theorem exists_latestOf (doc : Dict) : ∃ latest, latestOf (sourceOf doc) = .ok latest := by
  unfold latestOf
  cases hget : (sourceOf doc).get (key "latest") with
  | none => exact ⟨[], rfl⟩
  | some v =>
    obtain ⟨kv, -, hkv⟩ := List.mem_filterMap.mp (Dict.mem_of_get hget)
    split_ifs at hkv with hfield
    · obtain rfl := Option.some.inj hkv
      simp [sourceFields] at hfield
    · obtain ⟨latest, -, hmap⟩ := Option.map_eq_some_iff.mp hkv
      obtain rfl := (Prod.mk.inj hmap).2
      by_cases htruthy : (Obj.map (latest.filter fun kv => kv.1 ∈ latestFields)).truthy
      · exact ⟨_, if_pos htruthy⟩
      · exact ⟨_, if_neg htruthy⟩

/-- The summary of an entity. -/
def EntityDoc.summary (dates : DateTexts) (e : EntityDoc) : Dict :=
  let src := sourceOf (e.dump dates)
  C2Engine.summary src ((latestOf src).toOption.getD []) e.c2Host

@[simp] theorem get_summary (dates : DateTexts) (e : EntityDoc) :
    (e.summary dates).get (key "c2_host") = some (.str e.c2Host) := rfl

/-- The entities with a host. -/
def named (es : List EntityDoc) : List EntityDoc := es.filter fun e => !e.c2Host.isEmpty

/-- The hit of an entity: its host with the summary, unless the host is empty. -/
theorem feedHit_sourceOf (dates : DateTexts) (e : EntityDoc) :
    feedHit (sourceOf (e.dump dates)) =
      .ok (if e.c2Host.isEmpty then none else some (e.c2Host, e.summary dates)) := by
  obtain ⟨latest, hlatest⟩ := exists_latestOf (e.dump dates)
  have hhost : (sourceOf (e.dump dates)).get (key "c2_host") = some (.str e.c2Host) := by
    rw [get_sourceOf (by simp [sourceFields]),
      EntityDoc.get_dump_of_rollup (by simp [EntityDoc.rollup])]
    simp [EntityDoc.rollup, Dict.get_cons]
  rw [feedHit, hhost, EntityDoc.summary]
  dsimp only [Option.bind_some, Obj.asStr?]
  rw [hlatest]
  split_ifs <;> rfl

theorem reduceOption_hits (dates : DateTexts) : (es : List EntityDoc) →
    (es.map fun e => if e.c2Host.isEmpty then none
      else some (e.c2Host, e.summary dates)).reduceOption =
      (named es).map fun e => (e.c2Host, e.summary dates)
  | [] => rfl
  | e :: es => by
      have ih := reduceOption_hits dates es
      rw [List.map_cons]
      by_cases h : e.c2Host.isEmpty
      · rw [if_pos h, List.reduceOption_cons_of_none, ih, named, named,
          List.filter_cons_of_neg (by simp [h])]
      · rw [if_neg h, List.reduceOption_cons_of_some, ih, named, named,
          List.filter_cons_of_pos (by simpa using h), List.map_cons]

/-- The feed of entities: a summary of each one with a host, and the hosts that are IP literals. -/
theorem feedOf_sources (uni : Unicode) (dates : DateTexts) (minStage limit : ℤ) (window : PyStr)
    (es : List EntityDoc) :
    feedOf uni minStage window limit (es.map fun e => sourceOf (e.dump dates)) = .ok
      { minStage := stageOrder.getD (feedStage minStage).toNat []
        window := feedWindow uni window
        limit := feedLimit limit
        count := (named es).length
        ips := unseen [] (((named es).map EntityDoc.c2Host).filter Feed.isIp)
        entities := (named es).map (EntityDoc.summary dates) } := by
  have hhits : (es.map fun e => sourceOf (e.dump dates)).mapM feedHit = .ok (es.map fun e =>
      if e.c2Host.isEmpty then none else some (e.c2Host, e.summary dates)) := by
    rw [List.mapM_map]
    exact mapM_eq_ok_map fun e _ => feedHit_sourceOf dates e
  rw [feedOf, hhits, Except.map, reduceOption_hits]
  simp only [List.length_map, List.map_map]
  rfl

section Selected

variable {env : FeedEnv} {q : FeedQuery} {since : ℤ} {s : EntityIndex}

/-- Where the size of the answer is no bound, the search finds the entities the query asks for. -/
theorem mem_selected (hsize : (s.docs.filter (env.selects q since)).length ≤ q.size)
    {e : EntityDoc} : e ∈ env.selected q since s ↔ e ∈ s ∧ env.selects q since e := by
  have hperm : ((s.sorted env.sortKey).filter (env.selects q since)).Perm
      (s.docs.filter (env.selects q since)) := (List.perm_insertionSort _ _).filter _
  have hlen := hperm.length_eq
  rw [FeedEnv.selected, List.take_of_length_le (by omega), List.mem_filter, Index.mem_sorted]

theorem selected_sublist : (env.selected q since s).Sublist (s.sorted env.sortKey) :=
  (List.take_sublist _ _).trans List.filter_sublist

/-- The search finds the entities in the order in which they were last seen, the latest first. -/
theorem pairwise_selected :
    (env.selected q since s).Pairwise fun d e => e.lastSeen ≤ d.lastSeen := by
  have hsorted : (s.sorted env.sortKey).Pairwise fun d e => env.sortKey d ≤ env.sortKey e :=
    List.pairwise_insertionSort _ _
  refine (hsorted.sublist selected_sublist).imp fun {d e} hle => ?_
  rcases Prod.Lex.le_iff.mp hle with hlt | ⟨heq, -⟩
  · exact (neg_lt_neg_iff.mp hlt).le
  · exact (neg_inj.mp heq).ge

end Selected

/-- A feed whose search is answered lists the entities the search finds. -/
theorem run_buildFeed {uni : Unicode} {env : FeedEnv} {minStage limit since : ℤ} {window : PyStr}
    (hreply : env.reply.accepts)
    (hwindow : env.dateMath.eval env.now (feedQuery uni minStage window limit).gte = some since)
    (s : EntityIndex) :
    (buildFeed uni env minStage window limit).run s =
      (feedOf uni minStage window limit ((env.selected (feedQuery uni minStage window limit) since
        s).map fun e => sourceOf (e.dump env.dates)), s) := by
  have hsearch := EsWriter.run_search env.reply (env.answer (feedQuery uni minStage window limit)) s
  rw [Reply.result_of_accepts hreply, FeedEnv.answer, hwindow] at hsearch
  rw [buildFeed, Prog.run_bind_of_ok hsearch]
  rfl

end C2Engine
