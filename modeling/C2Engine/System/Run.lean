import C2Engine.Feed.Blocklist
import C2Engine.Ingest.Service
import C2Engine.System.Acknowledged
import C2Engine.System.Ledger

/-!
# The engine as a whole

The ingest service, the reason job and the feed run at the same time and meet only in
Elasticsearch. A run of the engine is an interleaving of what the service does, of passes of the
reason job, however they end, and of requests to the feed. Whatever happens in it, a host that the
feed lists was shown by records received before, and a host shown by a record that was acknowledged
is listed behind the next pass that returns.

## Main definitions

* `Stores`: what Elasticsearch makes of an event of the ingest service.
* `EngineRun`: the runs of the ingest service and the reason job.
* `Shown`: a record that the service received shows a host.
* `Lists`: a feed lists a host.
* `AskedAfterPass`, `ListedBehindPass`: a feed that is asked for behind a pass, and what it lists.

## Main results

* `shown_of_mem`: every row of the ledger is shown.
* `shown_of_lists`: what the feed lists is shown, with the rank and the time asked for.
* `exists_row_of_ack`, `lists_of_ack`: what is acknowledged is in the ledger, and is listed.
-/

namespace C2Engine

open Python Python.Msgpack Machine Store

variable {ι : Type}

section Definitions

variable (rt : Runtime) (geo : Option GeoEnricher) (codecs : Codecs)
  (readDate : PyStr → Option ℤ)

/-- What Elasticsearch adds to the ledger at an event of the ingest service: the row of a document
that it accepts in an index of the ledger, if it can be read, and perhaps that of a document of
which the service does not get to know that it was accepted. -/
structure Stores (ev : ServiceEvent ι) (rows : List LedgerRow) : Prop where
  reads : ∀ r ∈ rows, ∃ i index doc outcome, ev = .connection i (.request index doc outcome) ∧
    indexTemplate.Covers index ∧ r.Reads readDate doc
  length_le : rows.length ≤ 1
  accepted : ∀ i index doc outcome, ev = .connection i (.request index doc outcome) →
    outcome.accepts → indexTemplate.Covers index → (∃ r : LedgerRow, r.Reads readDate doc) →
      rows ≠ []

/-- The runs of the ingest service and the reason job from empty indices, with what the service did
and the state the job finds. -/
inductive EngineRun : List (ServiceEvent ι) → World → Prop
  | start {w : World} (hledger : w.ledger = []) (hentities : w.entities = .empty) :
      EngineRun [] w
  | service {evs : List (ServiceEvent ι)} {w : World} (h : EngineRun evs w) (ev : ServiceEvent ι)
      (rows : List LedgerRow) (hstores : Stores readDate ev rows) :
      EngineRun (evs ++ [ev]) { w with ledger := w.ledger ++ rows }
  | other {evs : List (ServiceEvent ι)} {w : World} (h : EngineRun evs w) (intel : IntelState)
      (vt : VtState) : EngineRun evs { w with intel := intel, vt := vt }
  | pass {evs : List (ServiceEvent ι)} {w : World} (h : EngineRun evs w) (env : ReasonEnv) :
      EngineRun evs ((runOnce rt env).run w).2

/-- A record that the service received shows a host. -/
def Shown [DecidableEq ι] (evs : List (ServiceEvent ι)) (host : PyStr) (evidence : Evidence)
    (ts : ℤ) : Prop :=
  ∃ i, Observed rt codecs readDate (own i evs) host evidence ts

end Definitions

/-- A feed lists a host, among its addresses or its entities. -/
def Lists (f : Feed) (host : PyStr) : Prop :=
  host ∈ f.ips ∨ ∃ d ∈ f.entities, d.get (key "c2_host") = some (.str host)

variable {rt : Runtime} {geo : Option GeoEnricher} {codecs : Codecs}
  {readDate : PyStr → Option ℤ} {evs : List (ServiceEvent ι)} {w : World}

/-! ### The ledger of a run -/

/-- The job's part of a run is a history of the job. -/
theorem EngineRun.history (h : EngineRun rt readDate evs w) : History rt w := by
  induction h with
  | start _ hentities => exact .start hentities
  | service _ ev rows _ ih => exact ih.append rows
  | other _ intel vt ih => exact ih.other intel vt
  | pass _ env ih => exact ih.pass env

/-- A row of the ledger is that of a document the service sent. -/
theorem EngineRun.exists_request (h : EngineRun rt readDate evs w) :
    ∀ r ∈ w.ledger, ∃ i index doc outcome, .connection i (.request index doc outcome) ∈ evs ∧
      indexTemplate.Covers index ∧ r.Reads readDate doc := by
  induction h with
  | start hledger _ => simp [hledger]
  | @service evs w h ev rows hstores ih =>
    refine List.forall_mem_append.mpr ⟨fun r hr => ?_, fun r hr => ?_⟩
    · obtain ⟨i, index, doc, outcome, hmem, hrest⟩ := ih r hr
      exact ⟨i, index, doc, outcome, List.mem_append_left _ hmem, hrest⟩
    · obtain ⟨i, index, doc, outcome, rfl, hrest⟩ := hstores.reads r hr
      exact ⟨i, index, doc, outcome, List.mem_append_right _ (List.mem_singleton.mpr rfl), hrest⟩
  | other _ _ _ ih => exact ih
  | @pass evs w h env ih =>
    rw [(runOnce_frame rt env w).1]
    exact ih

/-- A document that was accepted in an index of the ledger has a row, if it can be read. -/
theorem EngineRun.exists_row (h : EngineRun rt readDate evs w) {i : ι} {index : PyStr} {doc : Dict}
    {outcome : Outcome} (hmem : .connection i (.request index doc outcome) ∈ evs)
    (haccepts : outcome.accepts) (hindex : indexTemplate.Covers index)
    (hreads : ∃ r : LedgerRow, r.Reads readDate doc) : ∃ r ∈ w.ledger, r.Reads readDate doc := by
  induction h with
  | start => cases hmem
  | @service evs w h ev rows hstores ih =>
    rcases List.mem_append.mp hmem with hmem | hmem
    · obtain ⟨r, hr, hread⟩ := ih hmem
      exact ⟨r, List.mem_append_left _ hr, hread⟩
    · obtain rfl := List.mem_singleton.mp hmem
      obtain ⟨r, hr⟩ := List.exists_mem_of_ne_nil rows
        (hstores.accepted i index doc outcome rfl haccepts hindex hreads)
      obtain ⟨_, _, _, _, heq, -, hread⟩ := hstores.reads r hr
      obtain ⟨-, hev⟩ := ServiceEvent.connection.inj heq
      obtain ⟨-, rfl, -⟩ := Event.request.inj hev
      exact ⟨r, List.mem_append_right _ hr, hread⟩
  | other _ _ _ ih => exact ih hmem
  | @pass evs w h env ih =>
    rw [(runOnce_frame rt env w).1]
    exact ih hmem

/-- An entity of a run has the highest rank of a row of its host. -/
theorem EngineRun.exists_rank (h : EngineRun rt readDate evs w) :
    ∀ e ∈ w.entities, e.overlay.stage = rankToStage e.maxEvidenceRank ∧
      ∃ r ∈ w.ledger, r.c2Host = e.c2Host ∧ r.evidenceRank = e.maxEvidenceRank := by
  refine h.history.forall_entities
    (P := fun ledger e => e.overlay.stage = rankToStage e.maxEvidenceRank ∧
      ∃ r ∈ ledger, r.c2Host = e.c2Host ∧ r.evidenceRank = e.maxEvidenceRank)
    (fun ⟨hstage, r, hr, heq⟩ => ⟨hstage, r, List.mem_append_left _ hr, heq⟩) ?_
  intro env since ledger host e hof hhost
  have hrollup := hof.isRollup hhost
  obtain ⟨r, hr, hmax⟩ := hrollup.maxEvidenceRank.1
  obtain ⟨hr, hrhost, -⟩ := mem_hostRows.mp hr
  exact ⟨hrollup.stage, r, hr, hrhost.trans hof.c2Host.symm, hmax⟩

/-- What Elasticsearch adds to the ledger if it stores what it says it accepted and nothing else. -/
def ledgerRows (readDate : PyStr → Option ℤ) : ServiceEvent ι → List LedgerRow
  | .connection _ (.request index doc outcome) =>
    if outcome.accepts && (c2Prefix ++ str "-").isPrefixOf index then (readRow readDate doc).toList
    else []
  | _ => []

theorem stores_ledgerRows (readDate : PyStr → Option ℤ) (ev : ServiceEvent ι) :
    Stores readDate ev (ledgerRows readDate ev) := by
  have hnothing : (∀ i index doc outcome, ev ≠ .connection i (.request index doc outcome)) →
      Stores readDate ev [] := fun hev =>
    ⟨List.forall_mem_nil _, Nat.zero_le _, fun i index doc outcome heq =>
      absurd heq (hev i index doc outcome)⟩
  cases ev with
  | startup _ => exact hnothing fun _ _ _ _ => nofun
  | connection i ev =>
    cases ev with
    | request index doc outcome =>
      rw [ledgerRows]
      by_cases hstored : (outcome.accepts && (c2Prefix ++ str "-").isPrefixOf index) = true
      · rw [if_pos hstored]
        obtain ⟨haccepts, hindex⟩ := Bool.and_eq_true_iff.mp hstored
        refine ⟨fun r hr => ⟨i, index, doc, outcome, rfl, covers_indexTemplate.mpr hindex,
          reads_of_readRow (Option.mem_toList.mp hr)⟩, ?_, ?_⟩
        · cases readRow readDate doc <;> simp
        · rintro _ _ _ _ heq - - ⟨r, hr⟩ hnil
          obtain ⟨-, hev⟩ := ServiceEvent.connection.inj heq
          obtain ⟨-, rfl, -⟩ := Event.request.inj hev
          obtain ⟨r', hr'⟩ := Option.isSome_iff_exists.mp (isSome_readRow hr)
          rw [hr'] at hnil
          cases hnil
      · rw [if_neg hstored]
        refine ⟨List.forall_mem_nil _, Nat.zero_le _, ?_⟩
        rintro _ _ _ _ heq haccepts hindex -
        obtain ⟨-, hev⟩ := ServiceEvent.connection.inj heq
        obtain ⟨rfl, -, rfl⟩ := Event.request.inj hev
        exact absurd (Bool.and_eq_true_iff.mpr ⟨haccepts, covers_indexTemplate.mp hindex⟩) hstored
    | _ => exact hnothing fun _ _ _ _ => nofun

/-- A run in which Elasticsearch does so, before the job starts. -/
theorem EngineRun.ofEvents (rt : Runtime) (readDate : PyStr → Option ℤ)
    (evs : List (ServiceEvent ι)) :
    EngineRun rt readDate evs (World.ofLedger (evs.flatMap (ledgerRows readDate))) := by
  induction evs using List.reverseRecOn with
  | nil => exact .start rfl rfl
  | append_singleton evs ev ih =>
    rw [List.flatMap_append, List.flatMap_singleton]
    exact ih.service ev _ (stores_ledgerRows readDate ev)

/-! ### What is listed is shown -/

variable [DecidableEq ι]

/-- **Every row of the ledger is shown** by a record the service received, at the time and by
evidence of the rank it has. -/
theorem shown_of_mem (hmoment : Moment rt geo codecs evs) (h : EngineRun rt readDate evs w) :
    ∀ r ∈ w.ledger, ∃ evidence : Evidence, r.evidenceRank = evidenceRank evidence ∧
      Shown rt codecs readDate evs r.c2Host evidence r.ts := by
  intro r hr
  obtain ⟨i, index, doc, outcome, hmem, hindex, hread⟩ := h.exists_request r hr
  obtain ⟨before, after, rfl⟩ := List.append_of_mem hmem
  obtain ⟨now, hsent⟩ := hmoment.routed rfl
  obtain ⟨evidence, hrank, hobserved⟩ := observed_of_sent hsent hindex hread
  refine ⟨evidence, hrank, i, hobserved.of_now.mono ?_⟩
  rw [own_append]
  exact List.subset_append_left _ _

section Feed

variable {s s' : EntityIndex} {feed : FeedEnv} {k limit : ℤ} {window : PyStr} {f : Feed}

/-- A feed is built only where Elasticsearch answers and can read the window. -/
theorem exists_since_of_run
    (hfeed : (buildFeed rt.unicode feed k window limit).run s = (.ok f, s')) :
    feed.reply.accepts ∧ ∃ since, feed.dateMath.eval feed.now
      (feedQuery rt.unicode k window limit).gte = some since := by
  have hsearch := EsWriter.run_search feed.reply
    (feed.answer (feedQuery rt.unicode k window limit)) s
  cases hresult : feed.reply.result with
  | error e =>
    rw [hresult] at hsearch
    rw [buildFeed, Prog.run_bind_of_error hsearch] at hfeed
    cases hfeed
  | ok _ =>
    refine ⟨Reply.result_eq_ok_iff.mp hresult, ?_⟩
    cases heval : feed.dateMath.eval feed.now (feedQuery rt.unicode k window limit).gte with
    | some since => exact ⟨since, rfl⟩
    | none =>
      rw [hresult, FeedEnv.answer, heval] at hsearch
      rw [buildFeed, Prog.run_bind_of_ok hsearch] at hfeed
      cases hfeed

/-- What a feed lists is an entity of the stage asked for, seen in the window asked for. -/
theorem exists_entity_of_lists
    (hfeed : (buildFeed rt.unicode feed k window limit).run s = (.ok f, s')) {host : PyStr}
    (hlists : Lists f host) : ∃ since, feed.dateMath.eval feed.now
        (feedQuery rt.unicode k window limit).gte = some since ∧
      ∃ e ∈ s, e.c2Host = host ∧ feedStage k ≤ e.overlay.stage.rank ∧ since ≤ e.lastSeen := by
  obtain ⟨hreply, since, heval⟩ := exists_since_of_run hfeed
  have hrun := run_buildFeed hreply heval s
  rw [hfeed, feedOf_sources] at hrun
  obtain rfl := Except.ok.inj (Prod.mk.inj hrun).1
  refine ⟨since, heval, ?_⟩
  obtain ⟨e, he, rfl⟩ : ∃ e ∈ named (feed.selected (feedQuery rt.unicode k window limit) since s),
      e.c2Host = host := by
    rcases hlists with hip | ⟨d, hd, hget⟩
    · rw [mem_unseen, List.mem_filter] at hip
      exact List.mem_map.mp hip.1.1
    · obtain ⟨e, he, rfl⟩ := List.mem_map.mp hd
      rw [get_summary, Option.some.injEq, Obj.str.injEq] at hget
      exact ⟨e, he, hget⟩
  have hmem := List.mem_of_mem_take (List.mem_filter.mp he).1
  obtain ⟨hsorted, hselects⟩ := List.mem_filter.mp hmem
  obtain ⟨hstage, hlast⟩ := selects_feedQuery.mp hselects
  exact ⟨e, Index.mem_sorted.mp hsorted, rfl, hstage, hlast⟩

end Feed

/-- **What the feed lists is shown.** At every moment of every run, however its passes and its
writes ended: a host that a feed lists was shown by evidence of the rank asked for, and at a time in
the window asked for, by records that the service had received. -/
theorem shown_of_lists (hmoment : Moment rt geo codecs evs) (h : EngineRun rt readDate evs w)
    {feed : FeedEnv} {k limit : ℤ} {window : PyStr} {f : Feed} {s' : EntityIndex}
    (hfeed : (buildFeed rt.unicode feed k window limit).run w.entities = (.ok f, s'))
    {host : PyStr} (hlists : Lists f host) :
    (∃ evidence ts, feedStage k ≤ evidenceRank evidence ∧
      Shown rt codecs readDate evs host evidence ts) ∧
    ∃ since evidence ts, feed.dateMath.eval feed.now
        (feedQuery rt.unicode k window limit).gte = some since ∧ since ≤ ts ∧
      Shown rt codecs readDate evs host evidence ts := by
  obtain ⟨since, heval, e, he, rfl, hstage, hsince⟩ := exists_entity_of_lists hfeed hlists
  constructor
  · obtain ⟨hrank, r, hr, hrhost, hmax⟩ := h.exists_rank e he
    obtain ⟨evidence, hevidence, hshown⟩ := shown_of_mem hmoment h r hr
    refine ⟨evidence, r.ts, ?_, hrhost ▸ hshown⟩
    have hk : 0 ≤ feedStage k ∧ feedStage k ≤ 2 := by
      rw [feedStage]
      omega
    rw [hrank, le_rank_rankToStage hk.1 hk.2] at hstage
    omega
  · obtain ⟨r, hr, hrhost, hts⟩ := h.history.lastSeen_mem e he
    obtain ⟨evidence, -, hshown⟩ := shown_of_mem hmoment h r hr
    exact ⟨since, evidence, r.ts, heval, hts ▸ hsince, hrhost ▸ hshown⟩

/-- The window of the examples. -/
def week : Window := ⟨str "7", .days, by decide, by decide⟩

/-- The time at which the session of the example ended. -/
def sessionEnd : Datetime := ⟨1780000000 * usPerSecond, some 0⟩

/-- Its text. -/
def sessionEndText : PyStr := str "2026-05-28T20:26:40Z"

/-- A runtime that can read this time and write it. -/
def wireRuntime : Runtime :=
  { Runtime.basic with
    pydantic := { Pydantic.basic with
      parseDatetime := fun v => if v.asStr? = some sessionEndText then some sessionEnd else none
      dumpDatetime := fun t => if t = sessionEnd then sessionEndText else [] }
    fromisoformat := fun s =>
      if s = str "2026-05-28T20:26:40+00:00" then some sessionEnd else none }

/-- How Elasticsearch reads it. -/
def wireDate (s : PyStr) : Option ℤ := if s = sessionEndText then some 1780000000000 else none

/-- A session in which a file was fetched. -/
def downloadRecord : Dict :=
  [(key "end_time", .str sessionEndText), (key "hp_data", .map [(key "files", .list [.map
    [(key "url", .str (str "http://192.0.2.9/x")), (key "action", .str (str "download")),
      (key "status", .str (str "successful"))]])])]

/-- The frame that carries it, with a chunk to be acknowledged. -/
def downloadFrame : Obj :=
  messageFrame (str "stingar.enrichable.cowrie") (withChunk "c1") (.int 1, downloadRecord)

/-- What the service does from its start on, with one connection. -/
def wireLife (evs : List Event) : List (ServiceEvent Unit) :=
  (EsWriter.ensureBootstrap.run ⟨fun _ => .status 200, []⟩).2.trace.map .startup ++
    (evs.map (Prod.mk ())).map fun ev => .connection ev.1 ev.2

theorem own_wireLife (evs : List Event) : own () (wireLife evs) = evs := by
  rw [wireLife, own_append, own_map_startup, own_map_connection, if_pos rfl, List.nil_append]

/-- A short frame arrives on the connection. -/
theorem moment_wireLife {frame : Obj} (hshort : isShort frame)
    (hlength : (packShort frame).length ≤ recvSize) :
    Moment wireRuntime none .basic (wireLife (frameTrace wireRuntime frame)) := by
  rw [wireLife]
  refine .serving rfl fun i => ?_
  rw [own_map_connection, if_pos rfl]
  exact connected_frameTrace hshort hlength

/-- An acknowledgement that ends the connection is one of the service. -/
theorem ack_mem_wireLife {evs : List Event} {chunk : PyStr}
    (h : evs.getLast?.map Event.acked? = some (some chunk)) :
    .connection () (.ack (.str chunk)) ∈ wireLife evs := by
  rw [← mem_own, own_wireLife]
  exact ack_mem_of_getLast h

/-- The frame is the only one that arrived. -/
theorem eq_of_frame_mem_wireLife {frame msg : Obj}
    (h : .connection () (.frame msg) ∈ wireLife (frameTrace wireRuntime frame)) : msg = frame := by
  rw [← mem_own, own_wireLife, frameTrace] at h
  exact List.mem_singleton.mp (@mem_of_frame_mem_handle _ _ _ [frame] _ _ h)

/-- What the service did, from its start to the acknowledgement. -/
def lifeEvents : List (ServiceEvent Unit) := wireLife (frameTrace wireRuntime downloadFrame)

theorem moment_lifeEvents : Moment wireRuntime none .basic lifeEvents :=
  moment_wireLife (by decide +kernel) (by decide +kernel)

/-- The row of the download. -/
def downloadRow : LedgerRow :=
  { c2Host := str "192.0.2.9", ts := 1780000000000, evidenceRank := 1 }

/-- The connection ends with the acknowledgement, and has left this row. -/
theorem lifeEvents_leave :
    (frameTrace wireRuntime downloadFrame).getLast?.map Event.acked? = some (some (str "c1")) ∧
      lifeEvents.flatMap (ledgerRows wireDate) = [downloadRow] := by
  decide +kernel

/-- What the reason job finds then. -/
def lifeWorld : World := .ofLedger (lifeEvents.flatMap (ledgerRows wireDate))

theorem lifeWorld_eq : lifeWorld = .ofLedger [downloadRow] := by
  rw [lifeWorld, lifeEvents_leave.2]

/-- What is there behind its pass. -/
def lifeAfter : World := ((runOnce wireRuntime (.basic 1780000005500000)).run lifeWorld).2

theorem shown_of_lists_download : ∃ f s,
    (buildFeed wireRuntime.unicode (.basic 1780000005500) 1 week.text 5000).run
        lifeAfter.entities = (.ok f, s) ∧ f.ips = [str "192.0.2.9"] ∧
      ∃ evidence ts, 1 ≤ evidenceRank evidence ∧
        Shown wireRuntime .basic wireDate lifeEvents (str "192.0.2.9") evidence ts := by
  have hrun : EngineRun wireRuntime wireDate lifeEvents lifeAfter :=
    (EngineRun.ofEvents wireRuntime wireDate lifeEvents).pass (.basic 1780000005500000)
  have hips : ((buildFeed wireRuntime.unicode (.basic 1780000005500) 1 week.text 5000).run
      lifeAfter.entities).1.toOption.map Feed.ips = some [str "192.0.2.9"] := by
    rw [lifeAfter, lifeWorld_eq]
    decide +kernel
  rcases hfeed : (buildFeed wireRuntime.unicode (.basic 1780000005500) 1 week.text 5000).run
    lifeAfter.entities with ⟨e | f, s⟩
  · rw [hfeed] at hips
    cases hips
  · rw [hfeed] at hips
    have hf : f.ips = [str "192.0.2.9"] := Option.some.inj hips
    have hlists : Lists f (str "192.0.2.9") := .inl (hf ▸ List.mem_singleton.mpr rfl)
    obtain ⟨⟨evidence, ts, hrank, hshown⟩, -⟩ :=
      shown_of_lists moment_lifeEvents hrun hfeed hlists
    have hk : feedStage 1 = 1 := rfl
    rw [hk] at hrank
    exact ⟨f, s, rfl, hf, evidence, ts, by exact_mod_cast hrank, hshown⟩

/-! ### What is acknowledged is listed -/

/-- What an acknowledgement of the service stands behind. -/
theorem ackStored_of_moment (hmoment : Moment rt geo codecs evs) {i : ι} {chunk : Obj}
    (hack : .connection i (.ack chunk) ∈ evs) :
    ∃ msg records option, .connection i (.frame msg) ∈ evs ∧
      parseFrame codecs msg = .ok (records, option) ∧ frameChunk option = some chunk ∧
      ∃ now, ∀ record ∈ records, RowsStored { rt with now := now } geo (own i evs) record := by
  obtain ⟨before, after, rfl⟩ := List.append_of_mem hack
  obtain ⟨now, answers, pieces, hprefix⟩ := (hmoment.before_connection rfl).2
  have hdeserved := @ackStored_handleStream { rt with now := now } geo codecs answers pieces
  have hjustified := hdeserved.of_prefix hprefix
  obtain ⟨msg, records, option, hframe, hparse, hchunk, hrows⟩ :=
    hjustified (own i before) _ (own i after) rfl chunk rfl
  have hsub : own i before ⊆ own i (before ++ .connection i (.ack chunk) :: after) := by
    rw [own_append]
    exact List.subset_append_left _ _
  exact ⟨msg, records, option, mem_own.mp (hsub hframe), hparse, hchunk, now,
    fun record hrecord => (hrows record hrecord).mono hsub⟩

/-- **What is acknowledged is in the ledger**: the frame of an acknowledged chunk was received, and
every observation of its records that has a time has a row. -/
theorem exists_row_of_ack (hmoment : Moment rt geo codecs evs) (h : EngineRun rt readDate evs w)
    {i : ι} {chunk : Obj} (hack : .connection i (.ack chunk) ∈ evs) :
    ∃ msg records option, .connection i (.frame msg) ∈ evs ∧
      parseFrame codecs msg = .ok (records, option) ∧ frameChunk option = some chunk ∧
      ∀ tag record, (tag, record) ∈ records → isEnrichable tag = true → ∀ e,
        process rt record geo = .ok e → ∀ o ∈ e.observations, ∀ t ts, o.ts = some t →
          readDate (rt.pydantic.dumpDatetime t) = some ts → ∃ r ∈ w.ledger,
            r.c2Host = o.c2Host ∧ r.ts = ts ∧ r.evidenceRank = o.evidenceRank := by
  obtain ⟨msg, records, option, hframe, hparse, hchunk, now, hrows⟩ :=
    ackStored_of_moment hmoment hack
  refine ⟨msg, records, option, hframe, hparse, hchunk, ?_⟩
  intro tag record hmem htag e he o ho t ts ht hts
  obtain ⟨sessionDoc, rows, henrich, hstored⟩ := hrows _ hmem htag
  have hprocess : process { rt with now := now } record geo = .ok e := he
  rw [enrichRecord, hprocess] at henrich
  obtain ⟨-, rfl⟩ := Prod.mk.inj (Except.ok.inj henrich)
  obtain ⟨index, hindex, outcome, hrequest, haccepts⟩ := hstored _ (List.mem_map_of_mem ho)
  have hledger : indexTemplate.Covers index :=
    (covers_row hindex List.mem_cons_self).mpr rfl
  have hreads : ∃ r : LedgerRow,
      r.Reads readDate (EsWriter.withTag tag (o.modelDump { rt with now := now })) :=
    ⟨{ c2Host := o.c2Host, ts := ts, evidenceRank := o.evidenceRank },
      reads_row_iff.mpr ⟨rfl, ⟨t, ht, hts⟩, rfl⟩⟩
  obtain ⟨r, hr, hread⟩ := h.exists_row (mem_own.mp hrequest) haccepts hledger hreads
  obtain ⟨hhost, ⟨t', ht', hread'⟩, hrank⟩ := reads_row_iff.mp hread
  obtain rfl := Option.some.inj (ht.symm.trans ht')
  exact ⟨r, hr, hhost, Option.some.inj (hread'.symm.trans hts), hrank⟩

/-- A feed is asked for behind a pass that returned, before anything else is written to the
entities, for a window of at most thirty days, and its limit leaves room for what the ledger speaks
for. -/
structure AskedAfterPass (rt : Runtime) (w : World) (env : ReasonEnv) (feed : FeedEnv) (k : ℤ)
    (window : Window) (limit : ℤ) : Prop where
  returns : ((runOnce rt env).run w).1.isOk
  later : env.now / 1000 ≤ feed.now
  reply : feed.reply.accepts
  stage : 0 ≤ k ∧ k ≤ 2
  within : window.length ≤ 30 * 86400 * 1000
  room : (qualifyingHosts w.ledger (windowStart env.now) (feed.now - window.length)
    k).length ≤ feedLimit limit

/-- The window of the feed lies in that of the pass. -/
theorem AskedAfterPass.windowStart_le {env : ReasonEnv} {feed : FeedEnv} {k limit : ℤ}
    {window : Window} (h : AskedAfterPass rt w env feed k window limit) :
    windowStart env.now ≤ feed.now - window.length := by
  have hle : windowStart env.now ≤ env.now / 1000 - window.length :=
    C2Engine.windowStart_le h.within
  have hlater := h.later
  omega

/-- A host the ledger speaks for is listed. -/
theorem lists_of_qualifies (hw : History rt w) {env : ReasonEnv} {feed : FeedEnv} {k limit : ℤ}
    {window : Window} (hasked : AskedAfterPass rt w env feed k window limit) {host : PyStr}
    (hne : host ≠ []) (hq : Qualifies w.ledger (windowStart env.now) (feed.now - window.length) k
      host) :
    ∃ f, (buildFeed rt.unicode feed k window.text limit).run ((runOnce rt env).run w).2.entities =
        (.ok f, ((runOnce rt env).run w).2.entities) ∧ Lists f host ∧
      (IsIpLiteral host → host ∈ f.ips) := by
  obtain ⟨hview, hrollup⟩ := rollups_of_runOnce hw hasked.returns
  set s := ((runOnce rt env).run w).2.entities
  set recentSince := feed.now - window.length
  have hsince : windowStart env.now ≤ recentSince := hasked.windowStart_le
  have heval : feed.dateMath.eval feed.now (feedQuery rt.unicode k window.text limit).gte =
      some recentSince := by
    change feed.dateMath.eval feed.now (str "now-" ++ feedWindow rt.unicode window.text) = _
    rw [feedWindow_text]
    exact feed.dateMath.eval_ago _ _ (window.number_lt hasked.within)
  have hselects : ∀ e ∈ s, (feed.selects (feedQuery rt.unicode k window.text limit) recentSince e ↔
      Qualifies w.ledger (windowStart env.now) recentSince k e.c2Host) := fun e he =>
    selects_iff_qualifies (hrollup e he).2 hasked.stage.1 hasked.stage.2 hsince
  -- the answer is not cut off, since its hosts are among those the ledger speaks for
  have hsize : (s.docs.filter (feed.selects (feedQuery rt.unicode k window.text limit)
      recentSince)).length ≤ (feedQuery rt.unicode k window.text limit).size := by
    refine le_trans (Int.ofNat_le.mpr (length_filter_le fun e he => ?_)) hasked.room
    obtain ⟨he, hsel⟩ := List.mem_filter.mp he
    exact mem_qualifyingHosts.mpr ((hselects e he).mp hsel)
  obtain ⟨r, hr, hhost, hts⟩ := hq.2
  obtain ⟨e, ⟨he, rfl⟩, -⟩ := (hview host).mpr ⟨r, hr, hhost, hsince.trans hts⟩
  have hnamed : e ∈ named (feed.selected (feedQuery rt.unicode k window.text limit) recentSince
      s) := by
    refine List.mem_filter.mpr ⟨(mem_selected hsize).mpr ⟨he, (hselects e he).mpr hq⟩, ?_⟩
    simpa using hne
  refine ⟨_, (run_buildFeed hasked.reply heval s).trans (by rw [feedOf_sources]),
    .inr ⟨_, List.mem_map_of_mem hnamed, get_summary _ _⟩, fun hip => ?_⟩
  rw [mem_unseen, List.mem_filter]
  exact ⟨⟨List.mem_map_of_mem hnamed, hip⟩, List.not_mem_nil⟩

/-- A host with evidence of this rank at this time is listed by every feed, of the rank or a lower
one and for a window the time lies in, that is asked for behind the next pass. -/
def ListedBehindPass (rt : Runtime) (w : World) (host : PyStr) (rank ts : ℤ) : Prop :=
  ∀ env feed k window limit, AskedAfterPass rt w env feed k window limit → k ≤ rank →
    feed.now - window.length ≤ ts → ∃ f,
      (buildFeed rt.unicode feed k window.text limit).run ((runOnce rt env).run w).2.entities =
          (.ok f, ((runOnce rt env).run w).2.entities) ∧ Lists f host ∧
        (IsIpLiteral host → host ∈ f.ips)

omit [DecidableEq ι] in
/-- The host of a row of the ledger is listed. -/
theorem EngineRun.listed_of_row (h : EngineRun rt readDate evs w) {r : LedgerRow}
    (hr : r ∈ w.ledger) (hne : r.c2Host ≠ []) :
    ListedBehindPass rt w r.c2Host r.evidenceRank r.ts := by
  intro env feed k window limit hasked hk hrecent
  have hsince : windowStart env.now ≤ r.ts := hasked.windowStart_le.trans hrecent
  exact lists_of_qualifies h.history hasked hne
    ⟨⟨r, hr, rfl, hsince, .inr hk⟩, r, hr, rfl, hrecent⟩

/-- The host of an observation is not empty. -/
theorem Evidenced.ne_nil {session : SessionIn} {host : PyStr} {evidence : Evidence}
    (h : Evidenced rt session host evidence) : host ≠ [] := by
  cases h with
  | command h => exact h.1
  | served _ _ h => exact h.ne_nil
  | content _ _ _ _ _ h =>
    obtain ⟨_, _, _, _, h⟩ := h
    exact h.1

/-- **What is acknowledged is listed.** At every moment of every run: the frame of a chunk that the
service acknowledged was received, every observation of its records that has a time is in the
ledger, and its host is listed behind the next pass. -/
theorem lists_of_ack (hmoment : Moment rt geo codecs evs) (h : EngineRun rt readDate evs w)
    {i : ι} {chunk : Obj} (hack : .connection i (.ack chunk) ∈ evs) :
    ∃ msg records option, .connection i (.frame msg) ∈ evs ∧
      parseFrame codecs msg = .ok (records, option) ∧ frameChunk option = some chunk ∧
      ∀ tag record, (tag, record) ∈ records → isEnrichable tag = true → ∀ e,
        process rt record geo = .ok e → ∀ o ∈ e.observations, ∀ t ts, o.ts = some t →
          readDate (rt.pydantic.dumpDatetime t) = some ts →
            (∃ r ∈ w.ledger, r.c2Host = o.c2Host ∧ r.ts = ts ∧ r.evidenceRank = o.evidenceRank) ∧
              ListedBehindPass rt w o.c2Host o.evidenceRank ts := by
  obtain ⟨msg, records, option, hframe, hparse, hchunk, hrows⟩ := exists_row_of_ack hmoment h hack
  refine ⟨msg, records, option, hframe, hparse, hchunk, ?_⟩
  intro tag record hmem htag e he o ho t ts ht hts
  obtain ⟨r, hr, hhost, rfl, hrank⟩ := hrows tag record hmem htag e he o ho t ts ht hts
  refine ⟨⟨r, hr, hhost, rfl, hrank⟩, ?_⟩
  obtain ⟨session, hvalid, -⟩ := bind_eq_ok.mp he
  have hne := (evidenced_of_mem hvalid he ho).1.ne_nil
  rw [← hhost] at hne ⊢
  rw [← hrank]
  exact h.listed_of_row hr hne

theorem parseFrame_downloadFrame : parseFrame .basic downloadFrame =
    .ok ([(str "stingar.enrichable.cowrie", normalizeRecord downloadRecord)], withChunk "c1") :=
  parseFrame_message .basic _ _ trivial

/-- The observation of the record, its row in the ledger, and the feed that lists its host. -/
theorem lists_of_ack_download : ∃ e o f s,
    process wireRuntime (normalizeRecord downloadRecord) none = .ok e ∧ o ∈ e.observations ∧
      o.c2Host = str "192.0.2.9" ∧
      (∃ r ∈ lifeWorld.ledger,
        r.c2Host = o.c2Host ∧ r.ts = 1780000000000 ∧ r.evidenceRank = o.evidenceRank) ∧
      (buildFeed wireRuntime.unicode (.basic 1780000005500) 1 week.text 5000).run
        lifeAfter.entities = (.ok f, s) ∧ Lists f o.c2Host := by
  have hrun : EngineRun wireRuntime wireDate lifeEvents lifeWorld := .ofEvents _ _ _
  have hack : .connection () (.ack (.str (str "c1"))) ∈ lifeEvents :=
    ack_mem_wireLife lifeEvents_leave.1
  obtain ⟨msg, records, option, hframe, hparse, -, hlists⟩ :=
    lists_of_ack moment_lifeEvents hrun hack
  rw [eq_of_frame_mem_wireLife hframe, parseFrame_downloadFrame] at hparse
  obtain ⟨rfl, -⟩ := Prod.mk.inj (Except.ok.inj hparse)
  -- the record has one observation
  have hall : (process wireRuntime (normalizeRecord downloadRecord) none).toOption.map
      (fun e => e.observations.map fun o => (o.c2Host, o.ts, o.evidenceRank)) =
        some [(str "192.0.2.9", some sessionEnd, 1)] := by
    decide +kernel
  obtain ⟨e, he⟩ : ∃ e, process wireRuntime (normalizeRecord downloadRecord) none = .ok e := by
    refine isOk_iff.mp ?_
    cases hprocess : process wireRuntime (normalizeRecord downloadRecord) none with
    | error err =>
      rw [hprocess] at hall
      cases hall
    | ok e => rfl
  rw [he] at hall
  have hall : e.observations.map (fun o => (o.c2Host, o.ts, o.evidenceRank)) =
    [(str "192.0.2.9", some sessionEnd, 1)] := Option.some.inj hall
  have hmem : (str "192.0.2.9", some sessionEnd, 1) ∈
      e.observations.map fun o => (o.c2Host, o.ts, o.evidenceRank) := by
    rw [hall]
    exact List.mem_singleton_self _
  obtain ⟨o, ho, hcolumns⟩ := List.mem_map.mp hmem
  obtain ⟨hhost, hcolumns⟩ := Prod.mk.inj hcolumns
  obtain ⟨htime, hrank⟩ := Prod.mk.inj hcolumns
  have hasked : AskedAfterPass wireRuntime lifeWorld (.basic 1780000005500000)
      (.basic 1780000005500) 1 week 5000 := by
    rw [lifeWorld_eq]
    exact ⟨by decide +kernel, by decide, by decide, by decide, by decide, by decide +kernel⟩
  obtain ⟨hledger, hlisted⟩ := hlists _ _ List.mem_cons_self (by decide) e he o ho sessionEnd
    1780000000000 htime rfl
  obtain ⟨f, hf, hlists, -⟩ := hlisted _ _ 1 _ _ hasked (by exact_mod_cast hrank.ge) (by decide)
  rw [lifeAfter]
  exact ⟨e, o, f, _, he, ho, hhost, hledger, hf, hlists⟩

end C2Engine
