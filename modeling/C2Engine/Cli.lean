import C2Engine.Ingest.Poison
import C2Engine.Pipeline.Monotone
import C2Engine.Python.Json
import Mathlib.Data.List.Forall2

/-!
# Replaying sessions

`cli.py`: `replay` reads session documents from a file, one on a line, and writes what the engine
makes of each as envelopes, an index and a record. It runs the pipeline of the ingest service with
error handling of its own. The lines are decoded in a generator, outside the guard around a
session, so that a line that is no JSON ends the run; and a session that cannot be processed is
counted and left out, where the ingest service writes it without its inlined bytes.

## Main definitions

* `Enriched.envelopes`: the envelopes of a processed session.
* `readLine`: one round of `_iter_sessions`.
* `replayLine`, `cmdReplay`: one round of `_cmd_replay`, and the command.
* `LiveWrites`: the envelopes `_handle_record` writes for a document.
* `ReplayAgrees`: line by line, the run writes what `_handle_record` would write.

## Main results

* `liveWrites_of_enrichRecord`, `liveWrites_nil`: what `_handle_record` writes.
* `replayAgrees_iff`: the files on which the command and the ingest service agree.
-/

namespace C2Engine

open Python

/-! ### The command -/

/-- `INDEX_SESSION`. -/
def indexSession : PyStr := str "stingar"

/-- `INDEX_C2`. -/
def indexC2 : PyStr := str "stingarc2"

/-- `Enriched.envelopes`: pairs of an index and a record. -/
def Enriched.envelopes (rt : Runtime) (e : Enriched) : List (PyStr × Dict) :=
  (indexSession, e.sessionDoc) :: e.observations.map fun o => (indexC2, o.modelDump rt)

/-- The document of a hit of Elasticsearch, and any other value itself. -/
def unwrapHit : Obj → Obj
  | .map d => (Dict.get d (key "_source")).getD (.map d)
  | v => v

/-- One round of `_iter_sessions`: blank lines and comments yield nothing. -/
def readLine (rt : Runtime) (line : PyStr) : Except PyExc (Option Obj) :=
  let line := PyStr.strip line
  if line.isEmpty || (str "//").isPrefixOf line then .ok none
  else do
    let doc ← jsonLoads rt.jsonDepth line
    return some (unwrapHit doc)

/-- `process` of a value of any type; what is no mapping is a `ValidationError`. -/
def processDoc (rt : Runtime) (geo : Option GeoEnricher) : Obj → Except PyExc Enriched
  | .map raw => process rt raw geo
  | _ => .error .valueError

/-- The counters of `_cmd_replay`, and the envelopes written to the standard output. -/
structure Replay where
  sessions : ℕ := 0
  errors : ℕ := 0
  rows : ℕ := 0
  out : List (PyStr × Dict) := []

/-- `out.write(json.dumps({"tag": tag, "record": record}) + "\n")`. -/
def writeEnvelope (env : PyStr × Dict) : Prog Replay Unit := do
  Prog.ofExcept (jsonDumps env.2)
  Prog.modify fun r => { r with out := r.out ++ [env], rows := r.rows + 1 }

/-- The body of the loop of `_cmd_replay` for one session. -/
def replaySession (rt : Runtime) (geo : Option GeoEnricher) (raw : Obj) : Prog Replay Unit := do
  Prog.modify fun r => { r with sessions := r.sessions + 1 }
  match processDoc rt geo raw with
  | .ok enriched => Prog.forM (enriched.envelopes rt) writeEnvelope
  | .error _ => Prog.modify fun r => { r with errors := r.errors + 1 }

/-- One line of the file: decoded by the generator, outside the guard, and then replayed. -/
def replayLine (rt : Runtime) (geo : Option GeoEnricher) (line : PyStr) : Prog Replay Unit := do
  match ← Prog.ofExcept (readLine rt line) with
  | some raw => replaySession rt geo raw
  | none => pure ()

/-- The loop of `_cmd_replay` over the lines of the file. -/
def replayLines (rt : Runtime) (geo : Option GeoEnricher) (lines : List PyStr) :
    Prog Replay Unit := Prog.forM lines (replayLine rt geo)

/-- `_cmd_replay`: the exit status is 1 if there was an error. -/
def cmdReplay (rt : Runtime) (geo : Option GeoEnricher) (lines : List PyStr) : Prog Replay ℕ := do
  replayLines rt geo lines
  let r ← Prog.get
  return if r.errors = 0 then 0 else 1

/-! ### What is replayed -/

/-- The envelopes of a document. -/
def replayed (rt : Runtime) (geo : Option GeoEnricher) (raw : Obj) : List (PyStr × Dict) :=
  match processDoc rt geo raw with
  | .ok enriched => enriched.envelopes rt
  | .error _ => []

/-- Envelopes whose records are JSON are all written. -/
theorem run_writeEnvelopes : (envs : List (PyStr × Dict)) →
    (∀ env ∈ envs, (Obj.map env.2).isJson) → (r : Replay) →
    ∃ r', (Prog.forM envs writeEnvelope).run r = (.ok (), r') ∧ r'.out = r.out ++ envs
  | [], _, r => ⟨r, rfl, (List.append_nil _).symm⟩
  | env :: envs, h, r => by
      have hdumps : jsonDumps env.2 = .ok () := if_pos (h env List.mem_cons_self)
      have henv : (writeEnvelope env).run r =
          (.ok (), { r with out := r.out ++ [env], rows := r.rows + 1 }) := by
        unfold writeEnvelope
        rw [hdumps]
        rfl
      obtain ⟨r', hrun, hout⟩ := run_writeEnvelopes envs
        (fun env' h' => h env' (List.mem_cons_of_mem _ h')) { r with
          out := r.out ++ [env], rows := r.rows + 1 }
      exact ⟨r', (Prog.run_bind_of_ok henv).trans hrun, by rw [hout, List.append_assoc]; rfl⟩

theorem isJson_unwrapHit {v : Obj} (h : v.isJson) : (unwrapHit v).isJson := by
  cases v with
  | map d =>
    cases hget : Dict.get d (key "_source") with
    | none => simpa [unwrapHit, hget] using h
    | some source => simpa [unwrapHit, hget] using Dict.isJson_get h hget
  | _ => exact h

/-- The document of a line is JSON. -/
theorem isJson_of_readLine {rt : Runtime} {line : PyStr} {raw : Obj}
    (h : readLine rt line = .ok (some raw)) : raw.isJson := by
  unfold readLine at h
  dsimp only at h
  split_ifs at h
  · cases h
  · obtain ⟨doc, hdoc, h⟩ := bind_eq_ok.mp h
    obtain rfl := Option.some.inj (Except.ok.inj h)
    exact isJson_unwrapHit (isJson_of_jsonLoads hdoc)

/-- The envelopes of a JSON document are JSON. -/
theorem isJson_replayed (rt : Runtime) (geo : Option GeoEnricher) {raw : Obj} (hraw : raw.isJson) :
    ∀ env ∈ replayed rt geo raw, (Obj.map env.2).isJson := by
  unfold replayed
  split
  · next e he =>
    cases raw with
    | map d =>
      have henrich : enrichRecord rt geo d =
          .ok (e.sessionDoc, e.observations.map fun o => o.modelDump rt) := by
        rw [enrichRecord, show process rt d geo = .ok e from he]
      obtain ⟨hdoc, -⟩ := isJson_enrichRecord hraw henrich []
      refine List.forall_mem_cons.mpr ⟨hdoc, List.forall_mem_map.mpr fun o _ => ?_⟩
      exact isJson_modelDump rt o
    | _ => cases he
  · exact List.forall_mem_nil _

theorem run_replaySession {rt : Runtime} {geo : Option GeoEnricher} {raw : Obj}
    (hraw : raw.isJson) (r : Replay) :
    ∃ r', (replaySession rt geo raw).run r = (.ok (), r') ∧
      r'.out = r.out ++ replayed rt geo raw := by
  have hjson := isJson_replayed rt geo hraw
  unfold replaySession
  unfold replayed at hjson ⊢
  cases hprocess : processDoc rt geo raw with
  | ok e =>
    rw [hprocess] at hjson
    exact run_writeEnvelopes (e.envelopes rt) hjson { r with sessions := r.sessions + 1 }
  | error _ => exact ⟨_, rfl, (List.append_nil _).symm⟩

/-- A line that is no JSON ends the run where it stands. -/
theorem run_replayLine_error {rt : Runtime} {geo : Option GeoEnricher} {line : PyStr} {e : PyExc}
    (h : readLine rt line = .error e) (r : Replay) :
    (replayLine rt geo line).run r = (.error e, r) := by
  unfold replayLine
  rw [h]
  rfl

/-- A line that yields nothing changes nothing. -/
theorem run_replayLine_none {rt : Runtime} {geo : Option GeoEnricher} {line : PyStr}
    (h : readLine rt line = .ok none) (r : Replay) :
    (replayLine rt geo line).run r = (.ok (), r) := by
  unfold replayLine
  rw [h]
  rfl

/-- **A line with a document adds the envelopes of the document**, whatever was read before. -/
theorem run_replayLine_some {rt : Runtime} (geo : Option GeoEnricher) {line : PyStr} {raw : Obj}
    (h : readLine rt line = .ok (some raw)) (r : Replay) :
    ∃ r', (replayLine rt geo line).run r = (.ok (), r') ∧
      r'.out = r.out ++ replayed rt geo raw := by
  have hrun : (replayLine rt geo line).run r = (replaySession rt geo raw).run r := by
    unfold replayLine
    rw [h]
    rfl
  rw [hrun]
  exact run_replaySession (isJson_of_readLine h) r

/-! ### What the ingest service writes -/

/-- The index and the document of an accepted request. -/
def Event.acceptedRequest : Event → Option (PyStr × Dict)
  | .request index doc outcome => if outcome.accepts then some (index, doc) else none
  | _ => none

/-- The requests accepted in a trace. -/
def acceptedRequests (evs : List Event) : List (PyStr × Dict) :=
  evs.filterMap Event.acceptedRequest

/-- An envelope as it is written under a tag: into the daily index of its own one, with the tag in
the field `fluentd_tag`. -/
def AsWritten (rt : Runtime) (tag : PyStr) (env req : PyStr × Dict) : Prop :=
  req.2 = EsWriter.withTag tag env.2 ∧ dailyIndex rt env.1 req.2 = .ok req.1

/-- The envelopes `_handle_record` writes for a document, whether it then returns or raises. -/
def LiveWrites (rt : Runtime) (geo : Option GeoEnricher) (w : Wire) (tag : PyStr) (record : Dict)
    (envs : List (PyStr × Dict)) : Prop :=
  ∃ reqs, acceptedRequests ((handleRecord rt geo tag record).run w).2.trace =
      acceptedRequests w.trace ++ reqs ∧ List.Forall₂ (AsWritten rt tag) envs reqs

theorem LiveWrites.length_eq {rt : Runtime} {geo : Option GeoEnricher} {w : Wire} {tag : PyStr}
    {record : Dict} {envs envs' : List (PyStr × Dict)} (h : LiveWrites rt geo w tag record envs)
    (h' : LiveWrites rt geo w tag record envs') : envs.length = envs'.length := by
  obtain ⟨reqs, hreqs, hall⟩ := h
  obtain ⟨reqs', hreqs', hall'⟩ := h'
  obtain rfl := List.append_cancel_left (hreqs.symm.trans hreqs')
  rw [hall.length_eq, hall'.length_eq]

/-- While every request is accepted, an envelope is written. -/
theorem run_write_envelope (rt : Runtime) {w : Wire} (hup : w.Up) {tag : PyStr}
    (env : PyStr × Dict) (hjson : (Obj.map env.2).isJson)
    (htime : TimeInRange (EsWriter.withTag tag env.2)) :
    ∃ w' req, (EsWriter.write rt env.1 (EsWriter.withTag tag env.2)).run w = (.ok (), w') ∧
      w'.Up ∧ acceptedRequests w'.trace = acceptedRequests w.trace ++ [req] ∧
      AsWritten rt tag env req := by
  obtain ⟨index, hindex⟩ :=
    isOk_iff.mp ((isOk_dailyIndex rt env.1 _).mpr ((isOk_recordTime rt _).mpr htime))
  refine ⟨_, (index, EsWriter.withTag tag env.2),
    run_write_of_up hup (isJson_withTag hjson tag) hindex, fun n => hup (n + 1), ?_, rfl, hindex⟩
  rw [acceptedRequests, List.filterMap_append]
  simp only [List.filterMap_cons, List.filterMap_nil, Event.acceptedRequest, hup 0, if_true]
  rfl

/-- While every request is accepted, the rows are all written. -/
theorem run_writeObservations_of_up {rt : Runtime} {tag : PyStr} : {w : Wire} → w.Up →
    (rows : List Dict) → (∀ row ∈ rows, Writable tag row) →
    ∃ w' reqs, (EsWriter.writeObservations rt rows tag).run w = (.ok (), w') ∧
      acceptedRequests w'.trace = acceptedRequests w.trace ++ reqs ∧
      List.Forall₂ (AsWritten rt tag) (rows.map fun row => (indexC2, row)) reqs
  | w, _, [], _ => ⟨w, [], rfl, (List.append_nil _).symm, .nil⟩
  | w, hup, row :: rows, h => by
      obtain ⟨hjson, htime⟩ := h row List.mem_cons_self
      obtain ⟨w₁, req, hrun, hup₁, htrace, hwritten⟩ :=
        run_write_envelope rt hup (indexC2, row) hjson htime
      obtain ⟨w', reqs, hrun', htrace', hall⟩ := run_writeObservations_of_up hup₁ rows
        fun row' h' => h row' (List.mem_cons_of_mem _ h')
      refine ⟨w', req :: reqs, (Prog.run_bind_of_ok hrun).trans hrun', ?_, .cons hwritten hall⟩
      rw [htrace', htrace, List.append_assoc, List.singleton_append]

/-- **What `_handle_record` writes**: the session document and the rows of a record whose time is in
range. -/
theorem liveWrites_of_enrichRecord {rt : Runtime} {geo : Option GeoEnricher} {w : Wire}
    (hup : w.Up) {tag : PyStr} (htag : isEnrichable tag = true) {record doc : Dict}
    {rows : List Dict} (hrecord : (Obj.map record).isJson)
    (henrich : enrichRecord rt geo record = .ok (doc, rows)) (htime : TimeInRange record) :
    LiveWrites rt geo w tag record
      ((indexSession, doc) :: rows.map fun row => (indexC2, row)) := by
  obtain ⟨hdoc, hrows⟩ := isJson_enrichRecord hrecord henrich tag
  have hsame := sameTimes_withTag (sameTimes_enrichRecord henrich) tag
  have htime' : TimeInRange (EsWriter.withTag tag doc) := by rwa [TimeInRange, hsame]
  obtain ⟨w₁, req, hrun, hup₁, htrace, hwritten⟩ :=
    run_write_envelope rt hup (indexSession, doc) hdoc htime'
  obtain ⟨w', reqs, hrun', htrace', hall⟩ := run_writeObservations_of_up hup₁ rows hrows
  have hhandle : (handleRecord rt geo tag record).run w = (.ok (), w') := by
    unfold handleRecord
    rw [htag, henrich]
    refine (Prog.run_bind_of_ok hrun).trans ?_
    cases rows with
    | nil => exact hrun'
    | cons row rows => exact hrun'
  refine ⟨req :: reqs, ?_, .cons hwritten hall⟩
  rw [hhandle, htrace', htrace, List.append_assoc, List.singleton_append]

/-- A record no session can be written for is not written at all. -/
theorem liveWrites_nil {rt : Runtime} {geo : Option GeoEnricher} (w : Wire) {tag : PyStr}
    (htag : isEnrichable tag = true) {record : Dict}
    (h : ¬ SessionWritable rt record) :
    LiveWrites rt geo w tag record [] := by
  refine ⟨[], ?_, .nil⟩
  rw [List.append_nil]
  cases henrich : enrichRecord rt geo record with
  | error e =>
    unfold handleRecord
    rw [htag, henrich]
    rfl
  | ok out =>
    obtain ⟨doc, rows⟩ := out
    obtain ⟨hcopies, hfiles⟩ :=
      (isOk_enrichRecord rt geo record).mp (isOk_iff.mpr ⟨_, henrich⟩)
    have hsame := sameTimes_withTag (sameTimes_enrichRecord henrich) tag
    -- the index of the session document is computed before anything is sent
    have hindex : ¬ (dailyIndex rt sessionPrefix (EsWriter.withTag tag doc)).isOk := by
      rw [isOk_dailyIndex, isOk_recordTime, TimeInRange, hsame]
      exact fun htime => h ⟨hcopies, hfiles, htime⟩
    cases hname : dailyIndex rt sessionPrefix (EsWriter.withTag tag doc) with
    | ok index => exact absurd (isOk_iff.mpr ⟨index, hname⟩) hindex
    | error e =>
      have hwrite : (EsWriter.writeSession rt doc tag).run w = (.error e, w) := by
        unfold EsWriter.writeSession EsWriter.write
        rw [hname]
        rfl
      have hhandle : (handleRecord rt geo tag record).run w = (.error e, w) := by
        unfold handleRecord
        rw [htag, henrich]
        exact (Prog.run_bind_of_ok rfl).trans (Prog.run_bind_of_error hwrite)
      rw [hhandle]

/-! ### Agreement -/

/-- The envelopes `_handle_record` would write for the document of a line: none where the line has
no document, or one that is no mapping. -/
def WrittenLive (rt : Runtime) (geo : Option GeoEnricher) (w : Wire) (tag line : PyStr)
    (envs : List (PyStr × Dict)) : Prop :=
  match readLine rt line with
  | .ok (some (.map record)) => LiveWrites rt geo w tag record envs
  | _ => envs = []

/-- The run gets past a line behind the lines `done`, and what it writes for the line is what
`_handle_record` would write for its document. A line that is no JSON is counted as an error. -/
def LineAgrees (rt : Runtime) (geo : Option GeoEnricher) (w : Wire) (tag : PyStr)
    (done : List PyStr) (line : PyStr) : Prop :=
  ∃ r r' envs, (replayLines rt geo done).run {} = (.ok (), r) ∧
    (replayLines rt geo (done ++ [line])).run {} = (.ok (), r') ∧
    r'.out = r.out ++ envs ∧ WrittenLive rt geo w tag line envs ∧
    ((readLine rt line).isOk = false → r'.errors = r.errors + 1)

/-- The command returns, and agrees with the ingest service on every line of the file. -/
def ReplayAgrees (rt : Runtime) (geo : Option GeoEnricher) (w : Wire) (tag : PyStr)
    (lines : List PyStr) : Prop :=
  (∃ status r, (cmdReplay rt geo lines).run {} = (.ok status, r)) ∧
  ∀ done line todo, lines = done ++ line :: todo → LineAgrees rt geo w tag done line

/-- A document that `process` takes: it is accepted by the models, neither its credentials and
times nor its entries make the pipeline raise, and it can be copied. -/
def Processable (rt : Runtime) (record : Dict) : Prop :=
  ∃ s, SessionIn.modelValidate rt record = .ok s ∧
    (BaseOk rt s ∧ s.hpData.entries.Harmless rt) ∧ (Obj.map record).copies rt.enrichCalls

theorem isOk_process_iff_processable (rt : Runtime) (geo : Option GeoEnricher) (record : Dict) :
    (process rt record geo).isOk ↔ Processable rt record := by
  constructor
  · intro h
    obtain ⟨e, he⟩ := isOk_iff.mp h
    obtain ⟨s, hvalid, -⟩ := bind_eq_ok.mp he
    exact ⟨s, hvalid, (isOk_process_iff hvalid geo).mp h⟩
  · rintro ⟨s, hvalid, hok⟩
    exact (isOk_process_iff hvalid geo).mpr hok

/-- A line on which the command and the ingest service agree: it can be read, and if its document is
a mapping, then `process` takes the document exactly when the ingest service writes a session for
it. -/
def LineOk (rt : Runtime) (line : PyStr) : Prop :=
  ∃ raw, readLine rt line = .ok raw ∧ ∀ record, raw = some (.map record) →
    (Processable rt record ↔ SessionWritable rt record)

/-- **The envelopes of a document are what `_handle_record` writes** exactly when `process` takes
the documents that are written and no others. -/
theorem liveWrites_replayed_iff (rt : Runtime) (geo : Option GeoEnricher) {w : Wire} (hup : w.Up)
    {tag : PyStr} (htag : isEnrichable tag = true) {record : Dict}
    (hrecord : (Obj.map record).isJson) :
    LiveWrites rt geo w tag record (replayed rt geo (.map record)) ↔
      (Processable rt record ↔ SessionWritable rt record) := by
  rw [← isOk_process_iff_processable rt geo, replayed, processDoc]
  cases hprocess : process rt record geo with
  | ok e =>
    have henrich : enrichRecord rt geo record =
        .ok (e.sessionDoc, e.observations.map fun o => o.modelDump rt) := by
      rw [enrichRecord, hprocess]
    constructor
    · intro hlive
      refine iff_of_true rfl (not_not.mp fun hnot => ?_)
      exact absurd (hlive.length_eq (liveWrites_nil w htag hnot)) (Nat.succ_ne_zero _)
    · intro hiff
      have h := liveWrites_of_enrichRecord hup htag hrecord henrich (hiff.mp rfl).time
      rwa [List.map_map] at h
  | error e =>
    constructor
    · intro hlive
      refine iff_of_false Bool.false_ne_true fun ⟨hcopies, hfiles, htime⟩ => ?_
      obtain ⟨⟨doc, rows⟩, henrich⟩ :=
        isOk_iff.mp ((isOk_enrichRecord rt geo record).mpr ⟨hcopies, hfiles⟩)
      have h := liveWrites_of_enrichRecord hup htag hrecord henrich htime
      exact absurd (h.length_eq hlive) (Nat.succ_ne_zero _)
    · intro hiff
      exact liveWrites_nil w htag fun h => Bool.false_ne_true (hiff.mpr h)

/-- What one line adds to the run, and when it is what the ingest service writes. -/
theorem writtenLive_iff {rt : Runtime} {geo : Option GeoEnricher} {w : Wire} (hup : w.Up)
    {tag : PyStr} (htag : isEnrichable tag = true) {line : PyStr} {r r' : Replay}
    (hrun : (replayLine rt geo line).run r = (.ok (), r')) :
    (∃ envs, r'.out = r.out ++ envs ∧ WrittenLive rt geo w tag line envs) ↔ LineOk rt line := by
  unfold WrittenLive LineOk
  cases hread : readLine rt line with
  | error e =>
    rw [run_replayLine_error hread] at hrun
    cases hrun
  | ok raw =>
    simp only [Except.ok.injEq, exists_eq_left']
    cases raw with
    | none =>
      obtain rfl := congrArg Prod.snd ((run_replayLine_none hread r).symm.trans hrun)
      exact iff_of_true ⟨[], (List.append_nil _).symm, rfl⟩ nofun
    | some raw =>
      obtain ⟨r₁, hrun₁, hout⟩ := run_replayLine_some geo hread r
      obtain rfl := congrArg Prod.snd (hrun₁.symm.trans hrun)
      have hexists (P : List (PyStr × Dict) → Prop) :
          (∃ envs, r₁.out = r.out ++ envs ∧ P envs) ↔ P (replayed rt geo raw) := by
        rw [hout]
        simp
      rw [hexists]
      cases raw with
      | map record =>
        simp only [Option.some.injEq, Obj.map.injEq, forall_eq']
        exact liveWrites_replayed_iff rt geo hup htag (isJson_of_readLine hread)
      | _ => exact iff_of_true rfl nofun

/-- A line that can be read does not end the run. -/
theorem returns_replayLine {rt : Runtime} (geo : Option GeoEnricher) {line : PyStr}
    (h : LineOk rt line) (r : Replay) : ∃ r', (replayLine rt geo line).run r = (.ok (), r') := by
  obtain ⟨raw, hread, -⟩ := h
  cases raw with
  | none => exact ⟨r, run_replayLine_none hread r⟩
  | some raw =>
    obtain ⟨r', hrun, -⟩ := run_replayLine_some geo hread r
    exact ⟨r', hrun⟩

theorem returns_replayLines {rt : Runtime} (geo : Option GeoEnricher) : {lines : List PyStr} →
    (∀ line ∈ lines, LineOk rt line) → (r : Replay) →
    ∃ r', (replayLines rt geo lines).run r = (.ok (), r')
  | [], _, r => ⟨r, rfl⟩
  | line :: lines, h, r => by
      obtain ⟨r₁, hline⟩ := returns_replayLine geo (h line List.mem_cons_self) r
      obtain ⟨r', hlines⟩ := returns_replayLines geo
        (fun line' h' => h line' (List.mem_cons_of_mem _ h')) r₁
      exact ⟨r', (Prog.run_bind_of_ok hline).trans hlines⟩

theorem run_replayLines_snoc {rt : Runtime} {geo : Option GeoEnricher} {done : List PyStr}
    {r : Replay} (h : (replayLines rt geo done).run {} = (.ok (), r)) (line : PyStr) :
    (replayLines rt geo (done ++ [line])).run {} = (replayLine rt geo line).run r :=
  (Prog.run_forM_append h).trans (Prog.run_forM_singleton line r)

theorem lineOk_of_replayAgrees {rt : Runtime} {geo : Option GeoEnricher} {w : Wire} (hup : w.Up)
    {tag : PyStr} (htag : isEnrichable tag = true) {lines : List PyStr}
    (h : ReplayAgrees rt geo w tag lines) {line : PyStr} (hline : line ∈ lines) :
    LineOk rt line := by
  obtain ⟨done, todo, hsplit⟩ := List.append_of_mem hline
  obtain ⟨r, r', envs, hdone, hrun, hout, hlive, -⟩ := h.2 done line todo hsplit
  rw [run_replayLines_snoc hdone] at hrun
  exact (writtenLive_iff hup htag hrun).mp ⟨envs, hout, hlive⟩

/-- **The files on which the command and the ingest service agree**: while every request is
accepted, the envelopes of each line are what `_handle_record` would write for its document exactly
when every line can be read, and `process` takes those documents that the ingest service writes. -/
theorem replayAgrees_iff (rt : Runtime) (geo : Option GeoEnricher) {w : Wire} (hup : w.Up)
    {tag : PyStr} (htag : isEnrichable tag = true) (lines : List PyStr) :
    ReplayAgrees rt geo w tag lines ↔ ∀ line ∈ lines, LineOk rt line := by
  constructor
  · exact fun h line hline => lineOk_of_replayAgrees hup htag h hline
  · intro h
    refine ⟨?_, fun done line todo hsplit => ?_⟩
    · obtain ⟨r, hrun⟩ := returns_replayLines geo h {}
      exact ⟨_, r, Prog.run_bind_of_ok hrun⟩
    · subst hsplit
      have hline := h line (List.mem_append_right _ List.mem_cons_self)
      obtain ⟨r, hdone⟩ := returns_replayLines geo
        (fun line' h' => h line' (List.mem_append_left _ h')) {}
      obtain ⟨r', hrun⟩ := returns_replayLine geo hline r
      obtain ⟨envs, hout, hlive⟩ := (writtenLive_iff hup htag hrun).mpr hline
      refine ⟨r, r', envs, hdone, (run_replayLines_snoc hdone line).trans hrun, hout, hlive, ?_⟩
      obtain ⟨raw, hread, -⟩ := hline
      intro hbad
      rw [hread] at hbad
      cases hbad

/-- A file with a comment and a session. -/
def sessionLines : List PyStr := [str "// one session\n", str "\x7b\x7d\n"]

/-- The command and the ingest service agree on the file. -/
theorem replayAgrees_iff_session :
    ReplayAgrees .basic none upWire tagInbound sessionLines ↔
      ∀ line ∈ sessionLines, LineOk .basic line :=
  replayAgrees_iff .basic none up_upWire (by decide) sessionLines

/-- A session whose commands are a number. -/
def commandsNumber : PyStr := str "\x7b\"hp_data\": \x7b\"commands\": 5\x7d\x7d\n"

/-- A line that breaks off, and a session. -/
def truncatedLines : List PyStr := [str "\x7b\n", str "\x7b\x7d\n"]

/-- The session is written by the ingest service and left out by the command, and the line that
breaks off ends the run. -/
theorem not_replayAgrees :
    ¬ ReplayAgrees .basic none upWire tagInbound [commandsNumber] ∧
    ¬ ReplayAgrees .basic none upWire tagInbound truncatedLines := by
  constructor
  · intro h
    obtain ⟨raw, hread, hiff⟩ := lineOk_of_replayAgrees up_upWire (by decide) h List.mem_cons_self
    have hdoc : ((readLine .basic commandsNumber).toOption.join.bind Obj.asMap?).any (fun d =>
        !(process .basic d none).isOk && (enrichRecord .basic none d).isOk &&
          (recordTime .basic d).isOk) := by decide +kernel
    rw [hread] at hdoc
    obtain ⟨d, hd, hcheck⟩ := (Option.any_eq_true _ _).mp hdoc
    simp only [Bool.and_eq_true, Bool.not_eq_true'] at hcheck
    obtain ⟨⟨hfails, henrich⟩, htime⟩ := hcheck
    obtain ⟨v, rfl, hv⟩ := Option.bind_eq_some_iff.mp hd
    obtain rfl : v = .map d := by
      cases v with
      | map d' => exact congrArg Obj.map (Option.some.inj hv)
      | _ => cases hv
    obtain ⟨hcopies, hfiles⟩ := (isOk_enrichRecord .basic none d).mp henrich
    refine absurd ((hiff d rfl).mpr ⟨hcopies, hfiles, (isOk_recordTime .basic d).mp htime⟩)
      fun hok => ?_
    rw [(isOk_process_iff_processable .basic none d).mpr hok] at hfails
    cases hfails
  · intro h
    obtain ⟨raw, hread, -⟩ := lineOk_of_replayAgrees up_upWire (by decide) h List.mem_cons_self
    have hbad : (readLine .basic (str "\x7b\n")).isOk = false := by decide +kernel
    rw [hread] at hbad
    cases hbad

end C2Engine
