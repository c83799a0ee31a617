import C2Engine.Feed.Blocklist
import C2Engine.Feed.Rendering
import C2Engine.Python.JsonWrite
import C2Engine.Python.QueryString

/-!
# Requests to the feed

`_FeedHandler` of `services/feed/server.py`: a request is answered by its path, and where the feed
has to be built and that raises, with an error status. The target of a request is Latin-1 text. One
in origin form, `/path?query`, can always be split; `parse_request` of the standard library lets
others through, and one that `urlsplit` refuses is not answered.

## Main definitions

* `HttpResponse`, `FeedHandler.send`: answers.
* `FeedHandler.doGet`: `do_GET` and `do_HEAD`.
* `Feed.toObj`: the feed as a JSON value.
* `OriginForm`: the usual targets.

## Main results

* `run_doGet`: which requests are answered, and how.
* `run_doGet_c2Json`: the JSON that is sent is read as the feed of the entities found.
-/

namespace C2Engine

open Python Store

/-! ### Answers -/

/-- The methods that are handled. -/
inductive HttpMethod where
  | get
  | head
  deriving DecidableEq

/-- An answer; the headers are those the handler sets. -/
structure HttpResponse where
  status : ℕ
  headers : List (PyStr × PyStr)
  body : Bytes

/-- The feed as a JSON value. -/
def Feed.toObj (feed : Feed) : Obj :=
  .map [(key "params", .map [(key "min_stage", .str feed.minStage),
      (key "window", .str feed.window), (key "limit", .int feed.limit)]),
    (key "count", .int feed.count), (key "ips", .strs feed.ips),
    (key "entities", .list (feed.entities.map .map))]

namespace FeedHandler

/-- `text/plain; charset=utf-8`. -/
def plain : PyStr := str "text/plain; charset=utf-8"

/-- `_send`; a body that cannot be encoded raises. -/
def send (method : HttpMethod) (code : ℕ) (body ctype : PyStr) : Except PyExc HttpResponse := do
  let payload ← utf8Encode body
  return {
    status := code
    headers := [(str "Content-Type", ctype),
      (str "Content-Length", PyStr.ofNat payload.length)]
    body := if method = .head then [] else payload }

/-- The page at `/`. -/
def indexPage : PyStr :=
  str "c2-engine feed\n  GET /feed/blocklist.txt   active C2 IPs (one per line)\n" ++
    str "  GET /feed/c2.json         full entity summaries\n" ++
    str "  params: ?stage=1|2 ?window=7d ?limit=N\n"

/-- The path a request is answered by: without the query, and without slashes at its end. -/
def pathOf (parts : SplitResult) : PyStr :=
  let path := PyStr.rstrip (· = cp '/') parts.path
  if path.isEmpty then str "/" else path

/-- The surroundings of a request: those of the query, and the texts of numbers and exceptions. -/
structure Env extends FeedEnv where
  floats : Json.FloatText
  /-- The text of an exception. -/
  message : PyExc → PyStr

section

variable (rt : Runtime) (env : Env)

/-- `build_feed` for the parameters of a request. -/
def feedFor (qs : QueryString) : Prog EntityIndex Feed := do
  let p ← Prog.ofExcept (feedParams rt qs)
  buildFeed rt.unicode env.toFeedEnv p.minStage p.window p.limit

/-- `build_feed` in its `try`: the feed, or what was raised. -/
def tryFeed (qs : QueryString) : Prog EntityIndex (Except PyExc Feed) :=
  Prog.tryExcept (do
    let feed ← feedFor rt env qs
    return .ok feed) fun e => some (pure (.error e))

/-- The answer of the two feeds, once the feed is built or not. -/
def feedAnswer (method : HttpMethod) (path : PyStr) : Except PyExc Feed → Except PyExc HttpResponse
  | .error e =>
    send method 503 (str "feed unavailable: " ++ env.message e ++ [cp '\n']) plain
  | .ok feed =>
    if path = str "/feed/blocklist.txt" then send method 200 (renderBlocklist feed) plain
    else if feed.toObj.isJson then
      send method 200 (Json.write env.floats feed.toObj ++ [cp '\n']) (str "application/json")
    else .error .typeError

/-- `do_GET`, and `do_HEAD` that calls it. -/
def doGet (method : HttpMethod) (target : PyStr) : Prog EntityIndex HttpResponse := do
  let parts ← Prog.ofExcept (urlsplit rt.unicode target)
  let path := pathOf parts
  let qs := parseQs parts.query
  if path = str "/healthz" then Prog.ofExcept (send method 200 (str "ok\n") plain)
  else if path = str "/" ∨ path = str "/feed" then Prog.ofExcept (send method 200 indexPage plain)
  else if path ≠ str "/feed/blocklist.txt" ∧ path ≠ str "/feed/c2.json" then
    Prog.ofExcept (send method 404 (str "not found\n") plain)
  else do
    let built ← tryFeed rt env qs
    Prog.ofExcept (feedAnswer env method path built)

end

end FeedHandler

/-! ### Targets -/

/-- A target in origin form: it begins with one slash and has no blanks. -/
structure OriginForm (target : PyStr) : Prop where
  slash : target.head? = some (cp '/')
  single : (str "//").isPrefixOf target = false
  blank : target.all fun c => !c.isSpace

/-- Latin-1 text can be encoded. -/
theorem encodable_of_latin1 {s : PyStr} (h : s.all fun c => decide (c.val < 0x100)) :
    s.Encodable := by
  intro c hc
  have hval := of_decide_eq_true (List.all_eq_true.mp h c hc)
  rw [CodePoint.isSurrogate, Bool.and_eq_false_iff, decide_eq_false_iff_not]
  omega

/-- A target in origin form is split without an authority. -/
theorem OriginForm.isOk_urlsplit {target : PyStr} (h : OriginForm target) (uni : Unicode) :
    (urlsplit uni target).isOk := by
  obtain ⟨rest, rfl⟩ := List.head?_eq_some_iff.mp h.slash
  have hclean : cleanUrl (cp '/' :: rest) = cp '/' :: rest := by
    have hstrip : PyStr.lstrip (fun c => c.val ≤ 0x20) (cp '/' :: rest) = cp '/' :: rest :=
      List.dropWhile_cons_of_neg (by decide)
    rw [cleanUrl, hstrip, List.filter_eq_self]
    intro c hc
    have hblank := List.all_eq_true.mp h.blank c hc
    have hspace : ∀ d ∈ str "\t\r\n", d.isSpace := by
      have heq : str "\t\r\n" = [cp '\t', cp '\r', cp '\n'] := rfl
      rw [heq]
      simp only [List.forall_mem_cons]
      exact ⟨by decide, by decide, by decide, List.forall_mem_nil _⟩
    cases hmem : PyStr.oneOf (str "\t\r\n") c with
    | false => rfl
    | true =>
      rw [hspace c (List.elem_iff.mp hmem)] at hblank
      cases hblank
  have hscheme : splitScheme uni (cp '/' :: rest) = ([], cp '/' :: rest) := by
    rw [splitScheme, PyStr.partition, if_neg (by decide)]
    dsimp only
    have halpha : (cp '/').isAsciiAlpha = false := by decide
    rw [if_neg]
    simp [halpha]
  rw [urlsplit, hclean, hscheme]
  dsimp only
  rw [h.single]
  rfl

/-! ### What is sent -/

/-- The answer with a given status, type and payload. -/
def HttpResponse.framed (method : HttpMethod) (status : ℕ) (ctype : PyStr) (payload : Bytes) :
    HttpResponse where
  status := status
  headers := [(str "Content-Type", ctype), (str "Content-Length", PyStr.ofNat payload.length)]
  body := if method = .head then [] else payload

/-- A text that can be encoded is sent. -/
theorem send_of_encodable (body : PyStr) (h : body.Encodable) :
    ∃ payload, utf8Decode payload = some body ∧ ∀ (method : HttpMethod) (code : ℕ) (ctype : PyStr),
      FeedHandler.send method code body ctype = .ok (.framed method code ctype payload) := by
  obtain ⟨payload, hpayload⟩ := isOk_iff.mp ((isOk_utf8Encode body).mpr h)
  refine ⟨payload, utf8Decode_of_utf8Encode hpayload, fun method code ctype => ?_⟩
  rw [FeedHandler.send, hpayload]
  rfl

section Feeds

variable {rt : Runtime} {env : FeedHandler.Env} {s : EntityIndex}

theorem isJson_optItem {α : Type} {k : String} {f : α → Obj} (hf : ∀ x, (f x).isJson)
    (v : Option α) : (Obj.map (optItem k f v)).isJson := by
  cases v with
  | none => exact Obj.isJson_nil
  | some x => exact Obj.isJson_cons.mpr ⟨hf x, Obj.isJson_nil⟩

/-- An entity is written with values JSON can hold. -/
theorem EntityDoc.isJson_dump (dates : DateTexts) (e : EntityDoc) :
    (Obj.map (e.dump dates)).isJson := by
  have hlatest : (Obj.map (latestItems e.latest)).isJson :=
    Obj.isJson_append.mpr ⟨Obj.isJson_append.mpr
      ⟨isJson_optItem Obj.isJson_str _, isJson_optItem Obj.isJson_str _⟩,
      isJson_optItem Obj.isJson_str _⟩
  have hrollup : (Obj.map (e.rollup dates)).isJson := by
    simp only [rollup, Obj.isJson_cons, Obj.isJson_str, Obj.isJson_int, Obj.isJson_nil, hlatest,
      and_self]
  have hbase : (Obj.map e.overlay.base).isJson := by
    simp only [Overlay.base, Obj.isJson_cons, Obj.isJson_str, Obj.isJson_strs, Obj.isJson_nil,
      and_self]
  have hextra : (Obj.map e.overlay.extra).isJson := by
    simp only [Overlay.extra, Obj.isJson_append]
    simp only [isJson_optItem Obj.isJson_strs, isJson_optItem Obj.isJson_float, and_self]
  have hgeo : ∀ g : GeoPoint, (geoObj g).isJson := fun g => by
    simp only [geoObj, Obj.isJson_cons, Obj.isJson_float, Obj.isJson_nil, and_self]
  have hlocated : (Obj.map e.located).isJson :=
    Obj.isJson_append.mpr ⟨isJson_optItem Obj.isJson_int _, isJson_optItem hgeo _⟩
  exact Dict.isJson_update hlocated (Dict.isJson_update (Obj.isJson_append.mpr ⟨hbase, hextra⟩)
    hrollup)

theorem isJson_sourceOf {doc : Dict} (h : (Obj.map doc).isJson) :
    (Obj.map (sourceOf doc)).isJson := by
  rw [Obj.isJson_map] at h ⊢
  intro kv hkv
  obtain ⟨kv', hkv', hsome⟩ := List.mem_filterMap.mp hkv
  obtain ⟨hkey, hval⟩ := h kv' hkv'
  split_ifs at hsome
  · exact Option.some.inj hsome ▸ ⟨hkey, hval⟩
  · obtain ⟨latest, hlatest, rfl⟩ := Option.map_eq_some_iff.mp hsome
    refine ⟨hkey, (Obj.isJson_map _).mpr fun kv hkv => ?_⟩
    cases hv : kv'.2 with
    | map d =>
      rw [hv] at hval hlatest
      obtain rfl := Option.some.inj hlatest
      exact (Obj.isJson_map d).mp hval kv (List.mem_of_mem_filter hkv)
    | _ =>
      rw [hv] at hlatest
      cases hlatest

/-- `latest` of a source is made of values JSON can hold. -/
theorem isJson_latestOf {src latest : Dict} (h : (Obj.map src).isJson)
    (hlatest : latestOf src = .ok latest) : (Obj.map latest).isJson := by
  unfold latestOf at hlatest
  cases hget : src.get (key "latest") with
  | none =>
    rw [hget] at hlatest
    exact Except.ok.inj hlatest ▸ Obj.isJson_nil
  | some v =>
    rw [hget] at hlatest
    dsimp only at hlatest
    split_ifs at hlatest
    · cases v with
      | map d => exact Except.ok.inj hlatest ▸ Dict.isJson_get h hget
      | _ => cases hlatest
    · exact Except.ok.inj hlatest ▸ Obj.isJson_nil

theorem isJson_getD {d : Dict} (h : (Obj.map d).isJson) (k : Key) {v : Obj} (hv : v.isJson) :
    ((d.get k).getD v).isJson := by
  cases hget : d.get k with
  | none => exact hv
  | some w => exact Dict.isJson_get h hget

theorem EntityDoc.isJson_summary (dates : DateTexts) (e : EntityDoc) :
    (Obj.map (e.summary dates)).isJson := by
  have hsrc := isJson_sourceOf (e.isJson_dump dates)
  obtain ⟨latest, hlatest⟩ := exists_latestOf (e.dump dates)
  have hjson := isJson_latestOf hsrc hlatest
  have hnone : Obj.none.isJson := by rw [Obj.isJson]
  have hlist : (Obj.list []).isJson := Obj.isJson_strs []
  rw [EntityDoc.summary, hlatest]
  simp only [C2Engine.summary, getOrNone, Except.toOption, Option.getD_some, Obj.isJson_cons,
    Obj.isJson_str, Obj.isJson_nil, isJson_getD hsrc _ hnone, isJson_getD hsrc _ hlist,
    isJson_getD hjson _ hnone, and_self]

/-- The first value of a parameter, or the default. -/
theorem exists_first {qs : QueryString} (hqs : ∀ q ∈ qs, q.2 ≠ []) (k default_ : PyStr) :
    ∃ v, qs.first k default_ = .ok v ∧ (v = default_ ∨ ∃ q ∈ qs, v ∈ q.2) := by
  unfold QueryString.first
  cases hlookup : qs.lookup k with
  | none => exact ⟨default_, rfl, .inl rfl⟩
  | some vs =>
    obtain ⟨l₁, l₂, rfl, -⟩ := List.lookup_eq_some_iff.mp hlookup
    have hmem : (k, vs) ∈ l₁ ++ (k, vs) :: l₂ := List.mem_append_right _ List.mem_cons_self
    cases vs with
    | nil => exact absurd rfl (hqs _ hmem)
    | cons v vs => exact ⟨v, rfl, .inr ⟨_, hmem, List.mem_cons_self⟩⟩

variable (rt) in
/-- The arguments of `build_feed` for the parameters of a request. -/
theorem exists_feedParams {qs : QueryString} (hqs : ∀ q ∈ qs, q.2 ≠ [] ∧ ∀ v ∈ q.2, v.Encodable) :
    ∃ p, feedParams rt qs = .ok p ∧ p.window.Encodable := by
  obtain ⟨window, hfirst, hwindow⟩ := exists_first (fun q hq => (hqs q hq).1) (str "window")
    defaultWindow
  refine ⟨⟨qs.int rt (str "stage") defaultMinStage, window, qs.int rt (str "limit") defaultLimit⟩,
    by rw [feedParams, hfirst]; rfl, ?_⟩
  dsimp only
  rcases hwindow with rfl | ⟨q, hq, hv⟩
  · decide
  · exact (hqs q hq).2 window hv

/-- What a feed that was built is made of. -/
structure FeedLists (dates : DateTexts) (s : EntityIndex) (feed : Feed) (es : List EntityDoc) :
    Prop where
  window : feed.window.Encodable
  minStage : feed.minStage ∈ stageOrder
  limit : 1 ≤ feed.limit ∧ feed.limit ≤ maxLimit
  mem : ∀ e ∈ es, e ∈ s
  length_le : es.length ≤ feed.limit
  count : feed.count = es.length
  entities : feed.entities = es.map (EntityDoc.summary dates)
  ips : feed.ips = unseen [] ((es.map EntityDoc.c2Host).filter Feed.isIp)

theorem encodable_feedWindow {uni : Unicode} {window : PyStr} (h : window.Encodable) :
    (feedWindow uni window).Encodable := by
  rw [feedWindow]
  split_ifs
  · exact h
  · decide

theorem stage_mem (minStage : ℤ) : stageOrder.getD (feedStage minStage).toNat [] ∈ stageOrder := by
  have hlt : (feedStage minStage).toNat < stageOrder.length := by
    change _ < 3
    rw [feedStage]
    omega
  rw [List.getD_eq_getElem?_getD, List.getElem?_eq_getElem hlt]
  exact List.getElem_mem hlt

variable (rt env s) in
/-- The entities a search finds for the arguments of `build_feed`. -/
def found (p : FeedParams) (since : ℤ) : List EntityDoc :=
  named (env.selected (feedQuery rt.unicode p.minStage p.window p.limit) since s)

variable (rt env s) in
/-- The feed of the entities a search finds. -/
def feedOfFound (p : FeedParams) (since : ℤ) : Feed where
  minStage := stageOrder.getD (feedStage p.minStage).toNat []
  window := feedWindow rt.unicode p.window
  limit := feedLimit p.limit
  count := (found rt env s p since).length
  ips := unseen [] (((found rt env s p since).map EntityDoc.c2Host).filter Feed.isIp)
  entities := (found rt env s p since).map (EntityDoc.summary env.dates)

/-- A feed is built of the entities the search finds. -/
theorem run_feedFor {qs : QueryString} {p : FeedParams} {since : ℤ}
    (hparams : feedParams rt qs = .ok p) (hreply : env.reply.accepts)
    (hsince : env.dateMath.eval env.now (feedQuery rt.unicode p.minStage p.window p.limit).gte =
      some since) :
    (FeedHandler.feedFor rt env qs).run s = (.ok (feedOfFound rt env s p since), s) := by
  have hfeed : (buildFeed rt.unicode env.toFeedEnv p.minStage p.window p.limit).run s = _ :=
    run_buildFeed hreply hsince s
  rw [feedOf_sources] at hfeed
  rw [FeedHandler.feedFor, hparams]
  exact hfeed

theorem listed_feedOfFound {p : FeedParams} {since : ℤ} (hwindow : p.window.Encodable) :
    FeedLists env.dates s (feedOfFound rt env s p since) (found rt env s p since) where
  window := encodable_feedWindow hwindow
  minStage := stage_mem p.minStage
  limit := by
    dsimp only [feedOfFound, feedLimit, maxLimit]
    omega
  mem e he := by
    have hsel := selected_sublist.subset (List.mem_of_mem_filter he)
    exact Index.mem_sorted.mp hsel
  length_le := by
    have hle : (found rt env s p since).length ≤ (feedLimit p.limit).toNat :=
      (List.length_filter_le _ _).trans ((List.length_take_le _ _))
    have hpos : 1 ≤ feedLimit p.limit := le_max_left _ _
    dsimp only [feedOfFound]
    omega
  count := rfl
  entities := rfl
  ips := rfl

/-- **A feed is built of entities of the index**, or building it raises; the index is left as it
is. -/
theorem feedFor_cases {qs : QueryString} (hqs : ∀ q ∈ qs, q.2 ≠ [] ∧ ∀ v ∈ q.2, v.Encodable) :
    (∃ e, (FeedHandler.feedFor rt env qs).run s = (.error e, s)) ∨
      ∃ feed es, (FeedHandler.feedFor rt env qs).run s = (.ok feed, s) ∧
        FeedLists env.dates s feed es := by
  obtain ⟨p, hparams, hwindow⟩ := exists_feedParams rt hqs
  have hsearch := EsWriter.run_search env.reply
    (env.answer (feedQuery rt.unicode p.minStage p.window p.limit)) s
  have hrun : (FeedHandler.feedFor rt env qs).run s =
      (buildFeed rt.unicode env.toFeedEnv p.minStage p.window p.limit).run s := by
    rw [FeedHandler.feedFor, hparams]
    rfl
  cases hreply : env.reply.result with
  | error e =>
    rw [hreply] at hsearch
    exact .inl ⟨e, hrun.trans (Prog.run_bind_of_error hsearch)⟩
  | ok u =>
    cases hsince : env.dateMath.eval env.now
      (feedQuery rt.unicode p.minStage p.window p.limit).gte with
    | none =>
      rw [hreply, FeedEnv.answer, hsince] at hsearch
      refine .inl ⟨.runtimeError, hrun.trans ?_⟩
      rw [buildFeed, Prog.run_bind_of_ok hsearch]
      rfl
    | some since =>
      exact .inr ⟨_, _, run_feedFor hparams (Reply.result_eq_ok_iff.mp hreply) hsince,
        listed_feedOfFound hwindow⟩

variable {feed : Feed} {es : List EntityDoc}

/-- The text of a feed can be encoded. -/
theorem FeedLists.encodable_renderBlocklist (h : FeedLists env.dates s feed es)
    (hhosts : ∀ e ∈ s, e.c2Host.Encodable) : (renderBlocklist feed).Encodable := by
  have hstage : feed.minStage.Encodable := by
    have hall : ∀ name ∈ stageOrder, name.Encodable := by decide
    exact hall _ h.minStage
  have hnat : ∀ n, (PyStr.ofNat n).Encodable := fun n => (Json.printable_ofNat n).encodable
  have hips : ∀ ip ∈ feed.ips, ip.Encodable := by
    intro ip hip
    rw [h.ips, mem_unseen, List.mem_filter] at hip
    obtain ⟨e, he, rfl⟩ := List.mem_map.mp hip.1.1
    exact hhosts e (h.mem e he)
  have hline : (str "# stage>=" ++ feed.minStage ++ str "  window=last " ++ feed.window ++
      str "  ips=" ++ PyStr.ofNat feed.ips.length ++ str "  entities=" ++
      PyStr.ofNat feed.count).Encodable := by
    simp only [PyStr.encodable_append]
    exact ⟨⟨⟨⟨⟨⟨⟨by decide, hstage⟩, by decide⟩, h.window⟩, by decide⟩, hnat _⟩, by decide⟩, hnat _⟩
  rw [renderBlocklist, PyStr.encodable_append, PyStr.encodable_join (by decide)]
  refine ⟨List.forall_mem_append.mpr ⟨?_, hips⟩, by decide⟩
  exact List.forall_mem_cons.mpr ⟨by decide, List.forall_mem_cons.mpr ⟨hline,
    List.forall_mem_singleton.mpr (by decide)⟩⟩

/-- A feed is a value JSON can hold. -/
theorem FeedLists.isJson_toObj (h : FeedLists env.dates s feed es) : feed.toObj.isJson := by
  have hentities : (Obj.list (feed.entities.map .map)).isJson := by
    rw [Obj.isJson_list, h.entities]
    intro v hv
    obtain ⟨d, hd, rfl⟩ := List.mem_map.mp hv
    obtain ⟨e, -, rfl⟩ := List.mem_map.mp hd
    exact e.isJson_summary env.dates
  simp only [Feed.toObj, Obj.isJson_cons, Obj.isJson_str, Obj.isJson_int, Obj.isJson_strs,
    Obj.isJson_nil, hentities, and_self]

/-- The answer to a feed that was built. -/
theorem FeedLists.exists_feedAnswer (h : FeedLists env.dates s feed es)
    (hhosts : ∀ e ∈ s, e.c2Host.Encodable) (path : PyStr) :
    ∃ ctype payload, ∀ method, FeedHandler.feedAnswer env method path (.ok feed) =
      .ok (.framed method 200 ctype payload) := by
  by_cases hpath : path = str "/feed/blocklist.txt"
  · obtain ⟨payload, -, hsend⟩ := send_of_encodable _ (h.encodable_renderBlocklist hhosts)
    exact ⟨FeedHandler.plain, payload, fun method => by
      rw [FeedHandler.feedAnswer, if_pos hpath, hsend]⟩
  · have hbody : (Json.write env.floats feed.toObj ++ [cp '\n']).Encodable :=
      (PyStr.encodable_append _ _).mpr
        ⟨(Json.printable_write env.floats feed.toObj).encodable, by decide⟩
    obtain ⟨payload, -, hsend⟩ := send_of_encodable _ hbody
    exact ⟨str "application/json", payload, fun method => by
      rw [FeedHandler.feedAnswer, if_neg hpath, if_pos h.isJson_toObj, hsend]⟩

/-- The pages that need no feed. -/
def FeedHandler.pages : List PyStr := [str "/healthz", str "/", str "/feed"]

/-- The two feeds. -/
def FeedHandler.feeds : List PyStr := [str "/feed/blocklist.txt", str "/feed/c2.json"]

/-- The status of the answer to a request: the pages are there, other paths are not, and a feed is
there if it can be built. -/
def FeedHandler.statusOf (rt : Runtime) (env : FeedHandler.Env) (parts : SplitResult)
    (s : EntityIndex) : ℕ :=
  if FeedHandler.pathOf parts ∈ FeedHandler.pages then 200
  else if FeedHandler.pathOf parts ∉ FeedHandler.feeds then 404
  else if ((FeedHandler.feedFor rt env (parseQs parts.query)).run s).1.isOk then 200
  else 503

/-- What is left of a request once its path is known. -/
theorem run_doGet_of_urlsplit {target : PyStr} {parts : SplitResult}
    (h : urlsplit rt.unicode target = .ok parts) (method : HttpMethod) :
    (FeedHandler.doGet rt env method target).run s =
      (if FeedHandler.pathOf parts = str "/healthz" then
        Prog.ofExcept (FeedHandler.send method 200 (str "ok\n") FeedHandler.plain)
      else if FeedHandler.pathOf parts = str "/" ∨ FeedHandler.pathOf parts = str "/feed" then
        Prog.ofExcept (FeedHandler.send method 200 FeedHandler.indexPage FeedHandler.plain)
      else if FeedHandler.pathOf parts ≠ str "/feed/blocklist.txt" ∧
          FeedHandler.pathOf parts ≠ str "/feed/c2.json" then
        Prog.ofExcept (FeedHandler.send method 404 (str "not found\n") FeedHandler.plain)
      else do
        let built ← FeedHandler.tryFeed rt env (parseQs parts.query)
        Prog.ofExcept (FeedHandler.feedAnswer env method (FeedHandler.pathOf parts) built)).run
          s := by
  rw [FeedHandler.doGet, h]
  rfl

/-- What became of building the feed is looked at, not raised. -/
theorem run_tryFeed {qs : QueryString} {x : Except PyExc Feed}
    (h : (FeedHandler.feedFor rt env qs).run s = (x, s)) :
    (FeedHandler.tryFeed rt env qs).run s = (.ok x, s) := by
  cases x with
  | error e => exact Prog.run_tryExcept_of_catch (Prog.run_bind_of_error h) rfl
  | ok feed =>
    have hbind : (FeedHandler.feedFor rt env qs >>= fun feed =>
        (pure (.ok feed) : Prog EntityIndex (Except PyExc Feed))).run s = (.ok (.ok feed), s) :=
      Prog.run_bind_of_ok h
    exact Prog.run_tryExcept_of_ok hbind

/-- A target that can be split is answered, whatever the method. -/
theorem exists_framed_of_urlsplit {target : PyStr} {parts : SplitResult}
    (hlatin1 : target.all fun c => decide (c.val < 0x100))
    (hmessage : ∀ e, (env.message e).Encodable) (hhosts : ∀ e ∈ s, e.c2Host.Encodable)
    (hparts : urlsplit rt.unicode target = .ok parts) :
    ∃ ctype payload, ∀ method, (FeedHandler.doGet rt env method target).run s =
      (.ok (.framed method (FeedHandler.statusOf rt env parts s) ctype payload), s) := by
  have hquery : parts.query.Encodable := fun c hc =>
    encodable_of_latin1 hlatin1 c ((query_sublist_of_urlsplit hparts).subset hc)
  have hqs := encodable_parseQs hquery
  have hpage : ∀ text : PyStr, text.Encodable → ∃ payload, ∀ (method : HttpMethod) (code : ℕ),
      (Prog.ofExcept (FeedHandler.send method code text FeedHandler.plain) :
        Prog EntityIndex HttpResponse).run s =
          (.ok (.framed method code FeedHandler.plain payload), s) := by
    intro text htext
    obtain ⟨payload, -, hsend⟩ := send_of_encodable text htext
    exact ⟨payload, fun method code => by rw [hsend, Prog.run_ofExcept]⟩
  simp only [run_doGet_of_urlsplit hparts, FeedHandler.statusOf]
  generalize FeedHandler.pathOf parts = path
  by_cases hhealth : path = str "/healthz"
  · obtain ⟨payload, hrun⟩ := hpage (str "ok\n") (by decide)
    simp only [hhealth, FeedHandler.pages, List.mem_cons, true_or, if_true]
    exact ⟨FeedHandler.plain, payload, fun method => hrun method 200⟩
  by_cases hindex : path = str "/" ∨ path = str "/feed"
  · obtain ⟨payload, hrun⟩ := hpage FeedHandler.indexPage (by decide)
    have hmem : path ∈ FeedHandler.pages := by
      simpa [FeedHandler.pages, hhealth] using hindex
    simp only [if_neg hhealth, if_pos hindex, if_pos hmem]
    exact ⟨FeedHandler.plain, payload, fun method => hrun method 200⟩
  have hpages : path ∉ FeedHandler.pages := by
    simpa [FeedHandler.pages, hhealth] using hindex
  simp only [if_neg hhealth, if_neg hindex, if_neg hpages]
  by_cases hfeed : path ≠ str "/feed/blocklist.txt" ∧ path ≠ str "/feed/c2.json"
  · obtain ⟨payload, hrun⟩ := hpage (str "not found\n") (by decide)
    have hmem : path ∉ FeedHandler.feeds := by simpa [FeedHandler.feeds] using hfeed
    simp only [if_pos hfeed, if_pos hmem]
    exact ⟨FeedHandler.plain, payload, fun method => hrun method 404⟩
  have hmem : path ∈ FeedHandler.feeds := by
    by_contra hmem
    exact hfeed (by simpa [FeedHandler.feeds] using hmem)
  simp only [if_neg hfeed, if_neg (not_not.mpr hmem)]
  have hanswer : ∀ {x : Except PyExc Feed} {code : ℕ} {ctype : PyStr} {payload : Bytes},
      (FeedHandler.feedFor rt env (parseQs parts.query)).run s = (x, s) →
        (∀ method, FeedHandler.feedAnswer env method path x =
          .ok (.framed method code ctype payload)) → ∀ method, (FeedHandler.tryFeed rt env
            (parseQs parts.query) >>= fun built => Prog.ofExcept
              (FeedHandler.feedAnswer env method path built)).run s =
                (.ok (.framed method code ctype payload), s) := by
    intro x code ctype payload hrun hanswer method
    rw [Prog.run_bind_of_ok (run_tryFeed hrun), hanswer, Prog.run_ofExcept]
  rcases feedFor_cases hqs with ⟨e, hrun⟩ | ⟨feed, es, hrun, hlisted⟩
  · have hbody : (str "feed unavailable: " ++ env.message e ++ [cp '\n']).Encodable := by
      simp only [PyStr.encodable_append]
      exact ⟨⟨by decide, hmessage e⟩, by decide⟩
    obtain ⟨payload, -, hsend⟩ := send_of_encodable _ hbody
    refine ⟨FeedHandler.plain, payload, ?_⟩
    rw [hrun]
    exact hanswer hrun fun method => hsend method 503 FeedHandler.plain
  · obtain ⟨ctype, payload, hfeed⟩ := hlisted.exists_feedAnswer hhosts path
    refine ⟨ctype, payload, ?_⟩
    rw [hrun]
    exact hanswer hrun hfeed

/-- **A request is answered exactly if its target can be split**, as one in origin form always can:
with the status its path and the feed call for, and whatever the method, the header that gives the
length gives that of the payload. `HEAD` gets the answer of `GET` without the payload. -/
theorem run_doGet {target : PyStr} (hlatin1 : target.all fun c => decide (c.val < 0x100))
    (hmessage : ∀ e, (env.message e).Encodable) (hhosts : ∀ e ∈ s, e.c2Host.Encodable) :
    (OriginForm target → (urlsplit rt.unicode target).isOk) ∧
      (∀ e, urlsplit rt.unicode target = .error e → ∀ method,
        (FeedHandler.doGet rt env method target).run s = (.error e, s)) ∧
      ∀ parts, urlsplit rt.unicode target = .ok parts → ∃ ctype payload, ∀ method,
        (FeedHandler.doGet rt env method target).run s =
          (.ok (.framed method (FeedHandler.statusOf rt env parts s) ctype payload), s) := by
  refine ⟨fun h => h.isOk_urlsplit _, fun e he method => ?_, fun parts hparts =>
    exists_framed_of_urlsplit hlatin1 hmessage hhosts hparts⟩
  rw [FeedHandler.doGet, he]
  rfl

/-- Surroundings in which the search is answered. -/
def FeedHandler.Env.basic (now : ℤ) : FeedHandler.Env where
  toFeedEnv := .basic now
  floats := .units
  message _ := str "ES search c2-entities -> 404: "

/-- The entities of a ledger with evidence of an address and of a domain, after a pass. -/
def feedEntities : EntityIndex :=
  ((runOnce .basic (.basic 1780000005500000)).run (World.ofLedger [
    { c2Host := str "192.0.2.1", ts := 1780000000000, evidenceRank := 2 },
    { c2Host := str "evil.example", ts := 1780000001000, evidenceRank := 1 }])).2.entities

/-- A blocklist with an address in it, of a window that is written with an escape. -/
theorem run_doGet_blocklist :
    let target := str "/feed/blocklist.txt?stage=2&window=%37d"
    let parts : SplitResult := ⟨[], [], str "/feed/blocklist.txt", str "stage=2&window=%37d", []⟩
    (FeedHandler.statusOf .basic (.basic 1780000005500) parts feedEntities = 200 ∧
        (feedOfFound .basic (.basic 1780000005500) feedEntities ⟨2, str "7d", 5000⟩
          1779395205500).ips = [str "192.0.2.1"]) ∧
      ∃ ctype payload, ∀ method, (FeedHandler.doGet .basic (.basic 1780000005500) method target).run
        feedEntities = (.ok (.framed method (FeedHandler.statusOf .basic (.basic 1780000005500)
          parts feedEntities) ctype payload), feedEntities) := by
  intro target parts
  have hmessage : (str "ES search c2-entities -> 404: ").Encodable := by decide
  have hhosts : ∀ e ∈ feedEntities, e.c2Host.Encodable := by decide +kernel
  refine ⟨by decide +kernel, ?_⟩
  exact (@run_doGet .basic (.basic 1780000005500) feedEntities target (by decide)
    (fun _ => hmessage) hhosts).2.2 parts (by decide)

/-- A whole number of few digits. -/
theorem faithful_int {n : ℕ} {i : ℤ} (h₀ : 0 ≤ i) (h : i ≤ maxLimit) :
    Json.Faithful n (.int i) := by
  have hlt : i.natAbs < 10 ^ 5 := by
    simp only [maxLimit] at h
    omega
  exact .int ((PyStr.length_ofNat_le (by decide) hlt).trans (by decide))

/-- The text of a feed is read as the feed, where those of its entities are. -/
theorem FeedLists.faithful_toObj {n : ℕ} (h : FeedLists env.dates s feed es)
    (hhosts : ∀ e ∈ s, e.c2Host.Encodable)
    (hfaithful : ∀ e ∈ s, Json.Faithful (n + 1) (.map (e.summary env.dates))) :
    Json.Faithful (n + 3) feed.toObj := by
  have hkey : ∀ t : String, Json.Paired (str t) → ∃ s, key t = .str s ∧ Json.Paired s :=
    fun t ht => ⟨str t, rfl, ht⟩
  have hstage : Json.Paired feed.minStage := by
    have hall : ∀ name ∈ stageOrder, Json.Paired name := by decide
    exact hall _ h.minStage
  have hcount : (feed.count : ℤ) ≤ maxLimit := by
    have hle := h.length_le
    have hlimit := h.limit.2
    rw [h.count]
    omega
  have hparams : Json.Faithful (n + 2) (.map [(key "min_stage", .str feed.minStage),
      (key "window", .str feed.window), (key "limit", .int feed.limit)]) := by
    refine .map ?_ (by simp) ?_
    · exact List.forall_mem_cons.mpr ⟨hkey "min_stage" (by decide), List.forall_mem_cons.mpr
        ⟨hkey "window" (by decide), List.forall_mem_singleton.mpr (hkey "limit" (by decide))⟩⟩
    · exact List.forall_mem_cons.mpr ⟨.str hstage, List.forall_mem_cons.mpr
        ⟨.str (Json.paired_of_encodable h.window), List.forall_mem_singleton.mpr
          (faithful_int (by have := h.limit.1; omega) h.limit.2)⟩⟩
  have hips : Json.Faithful (n + 2) (.strs feed.ips) := by
    refine .list fun v hv => ?_
    obtain ⟨ip, hip, rfl⟩ := List.mem_map.mp hv
    rw [h.ips, mem_unseen, List.mem_filter] at hip
    obtain ⟨e, he, rfl⟩ := List.mem_map.mp hip.1.1
    exact .str (Json.paired_of_encodable (hhosts e (h.mem e he)))
  have hentities : Json.Faithful (n + 2) (.list (feed.entities.map .map)) := by
    refine .list fun v hv => ?_
    rw [h.entities, List.map_map] at hv
    obtain ⟨e, he, rfl⟩ := List.mem_map.mp hv
    exact hfaithful e (h.mem e he)
  refine .map ?_ (by simp) ?_
  · exact List.forall_mem_cons.mpr ⟨hkey "params" (by decide), List.forall_mem_cons.mpr
      ⟨hkey "count" (by decide), List.forall_mem_cons.mpr ⟨hkey "ips" (by decide),
        List.forall_mem_singleton.mpr (hkey "entities" (by decide))⟩⟩⟩
  · exact List.forall_mem_cons.mpr ⟨hparams, List.forall_mem_cons.mpr
      ⟨faithful_int (Int.natCast_nonneg _) hcount, List.forall_mem_cons.mpr ⟨hips,
        List.forall_mem_singleton.mpr hentities⟩⟩⟩

/-- **The JSON that is sent** is read as the feed of the entities the search finds, if the texts of
their summaries are read as the summaries. -/
theorem run_doGet_c2Json {target : PyStr} {parts : SplitResult} {p : FeedParams} {since : ℤ} {n : ℕ}
    (hlatin1 : target.all fun c => decide (c.val < 0x100))
    (hparts : urlsplit rt.unicode target = .ok parts)
    (hpath : FeedHandler.pathOf parts = str "/feed/c2.json")
    (hparams : feedParams rt (parseQs parts.query) = .ok p) (hreply : env.reply.accepts)
    (hsince : env.dateMath.eval env.now (feedQuery rt.unicode p.minStage p.window p.limit).gte =
      some since)
    (hhosts : ∀ e ∈ s, e.c2Host.Encodable)
    (hfaithful : ∀ e ∈ s, Json.Faithful (n + 1) (.map (e.summary env.dates))) :
    ∃ payload text, (FeedHandler.doGet rt env .get target).run s =
        (.ok (.framed .get 200 (str "application/json") payload), s) ∧
      utf8Decode payload = some text ∧
      jsonLoads (n + 3) text = .ok (feedOfFound rt env s p since).toObj := by
  have hquery : parts.query.Encodable := fun c hc =>
    encodable_of_latin1 hlatin1 c ((query_sublist_of_urlsplit hparts).subset hc)
  obtain ⟨p', hp', hwindow⟩ := exists_feedParams rt (encodable_parseQs hquery)
  obtain rfl : p' = p := Except.ok.inj (hp'.symm.trans hparams)
  have hlisted : FeedLists env.dates s (feedOfFound rt env s p' since) _ :=
    listed_feedOfFound hwindow
  have hrun := run_feedFor (s := s) hparams hreply hsince
  generalize feedOfFound rt env s p' since = feed at hlisted hrun ⊢
  have hbody : (Json.write env.floats feed.toObj ++ [cp '\n']).Encodable :=
    (PyStr.encodable_append _ _).mpr
      ⟨(Json.printable_write env.floats feed.toObj).encodable, by decide⟩
  obtain ⟨payload, hdecode, hsend⟩ := send_of_encodable _ hbody
  refine ⟨payload, _, ?_, hdecode, jsonLoads_write_append env.floats
    (hlisted.faithful_toObj hhosts hfaithful) (Json.endsValue_cons (by decide) []) rfl⟩
  rw [run_doGet_of_urlsplit hparts, hpath, if_neg (by decide), if_neg (by decide),
    if_neg (by decide), Prog.run_bind_of_ok (run_tryFeed hrun), FeedHandler.feedAnswer,
    if_neg (by decide), if_pos hlisted.isJson_toObj, hsend, Prog.run_ofExcept]

/-- The JSON of an address with evidence and a domain. -/
theorem run_doGet_c2Json_ledger :
    let s := feedEntities
    ∃ payload text, (FeedHandler.doGet .basic (.basic 1780000005500) .get
        (str "/feed/c2.json?window=7d")).run s =
        (.ok (.framed .get 200 (str "application/json") payload), s) ∧
      utf8Decode payload = some text ∧
      jsonLoads 900 text = .ok (feedOfFound .basic (.basic 1780000005500) s
        ⟨1, str "7d", 5000⟩ 1779395205500).toObj := by
  intro s
  have hfaithful : ∀ e ∈ s, Json.isFaithful 898 (.map (e.summary
      (FeedHandler.Env.basic 1780000005500).dates)) := by decide +kernel
  exact @run_doGet_c2Json .basic (.basic 1780000005500) s (str "/feed/c2.json?window=7d")
    ⟨[], [], str "/feed/c2.json", str "window=7d", []⟩ ⟨1, str "7d", 5000⟩ 1779395205500 897
    (by decide) rfl (by decide) rfl rfl rfl (by decide +kernel)
    fun e he => Json.faithful_of_isFaithful (hfaithful e he)

end Feeds

end C2Engine
