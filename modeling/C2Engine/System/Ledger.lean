import C2Engine.Ingest.DailyIndex
import C2Engine.Ingest.Routing
import C2Engine.Pipeline.Pivot
import C2Engine.Reason.Engine

/-!
# The ledger between the services

The ingest service writes an observation as a document, and the reason job aggregates what
Elasticsearch reads in it: the host as it stands there, the time as a date, and the rank. Every
document in an index of the ledger is the row of an observation, and what a row says of a session
can be seen in the session.

## Main definitions

* `LedgerRow.Reads`, `readRow`: what Elasticsearch reads in a document.
* `Evidenced`: a session shows a host, by one kind of evidence.
* `Observed`: a record of a frame shows a host, at a time.

## Main results

* `reads_row_iff`: the document of an observation.
* `evidenced_of_mem`: an observation tells what its session shows.
* `observed_of_sent`: so does what is read in a document that was sent to the ledger.
-/

namespace C2Engine

open Python

/-! ### Documents of rows -/

/-- What Elasticsearch reads in the document of a row, in the columns that decide about the
blocklist. -/
structure LedgerRow.Reads (readDate : PyStr → Option ℤ) (doc : Dict) (r : LedgerRow) : Prop where
  c2Host : doc.get (key "c2_host") = some (.str r.c2Host)
  ts : ∃ s, doc.get (key "ts") = some (.str s) ∧ readDate s = some r.ts
  evidenceRank : doc.get (key "evidence_rank") = some (.int r.evidenceRank)

/-- The row that is read in a document, if there is one. -/
def readRow (readDate : PyStr → Option ℤ) (doc : Dict) : Option LedgerRow := do
  let host ← (doc.get (key "c2_host")).bind Obj.asStr?
  let ts ← ((doc.get (key "ts")).bind Obj.asStr?).bind readDate
  match doc.get (key "evidence_rank") with
  | some (.int rank) => some { c2Host := host, ts := ts, evidenceRank := rank }
  | _ => none

theorem bind_asStr?_eq_some {v : Option Obj} {s : PyStr} :
    v.bind Obj.asStr? = some s ↔ v = some (.str s) := by
  cases v with
  | none => exact iff_of_false nofun nofun
  | some v => exact Obj.asStr?_eq_some.trans (Option.some_inj (a := v)).symm

theorem reads_of_readRow {readDate : PyStr → Option ℤ} {doc : Dict} {r : LedgerRow}
    (h : readRow readDate doc = some r) : r.Reads readDate doc := by
  obtain ⟨host, hhost, h⟩ := Option.bind_eq_some_iff.mp h
  obtain ⟨ts, hts, h⟩ := Option.bind_eq_some_iff.mp h
  obtain ⟨s, hs, hread⟩ := Option.bind_eq_some_iff.mp hts
  split at h
  · next rank hrank =>
    obtain rfl := Option.some.inj h
    exact ⟨bind_asStr?_eq_some.mp hhost, ⟨s, bind_asStr?_eq_some.mp hs, hread⟩, hrank⟩
  · cases h

/-- A row is read in a document that can be read as one. -/
theorem isSome_readRow {readDate : PyStr → Option ℤ} {doc : Dict} {r : LedgerRow}
    (h : r.Reads readDate doc) : (readRow readDate doc).isSome := by
  obtain ⟨s, hs, hread⟩ := h.ts
  simp only [readRow, h.c2Host, hs, h.evidenceRank, Option.bind_some, Obj.asStr?, hread,
    Option.bind_eq_bind, Option.isSome_some]

theorem get_withTag {tag : PyStr} {doc : Dict} {k : Key} (hk : k ≠ key "fluentd_tag") :
    (EsWriter.withTag tag doc).get k = doc.get k := by
  rw [EsWriter.withTag]
  split_ifs
  · rfl
  · exact Dict.get_set_ne _ _ hk

/-- The document of an observation is read as its host, its time and its rank; one without a time
is not read. -/
theorem reads_row_iff {rt : Runtime} {readDate : PyStr → Option ℤ} {tag : PyStr}
    {o : C2Observation} {r : LedgerRow} :
    r.Reads readDate (EsWriter.withTag tag (o.modelDump rt)) ↔
      r.c2Host = o.c2Host ∧
        (∃ t, o.ts = some t ∧ readDate (rt.pydantic.dumpDatetime t) = some r.ts) ∧
        r.evidenceRank = o.evidenceRank := by
  have hhost : (EsWriter.withTag tag (o.modelDump rt)).get (key "c2_host") =
      some (.str o.c2Host) := by
    rw [get_withTag (by decide)]
    unfold C2Observation.modelDump
    simp only [Dict.get_append, get_dumpField, String.reduceEq, if_false, if_true, Option.none_or,
      Option.or_none, Option.map_some]
  have hts : (EsWriter.withTag tag (o.modelDump rt)).get (key "ts") =
      o.ts.map fun t => .str (rt.pydantic.dumpDatetime t) := by
    rw [get_withTag (by decide)]
    unfold C2Observation.modelDump
    simp only [Dict.get_append, get_dumpField, String.reduceEq, if_false, if_true, Option.none_or,
      Option.or_none]
  have hrank : (EsWriter.withTag tag (o.modelDump rt)).get (key "evidence_rank") =
      some (.int o.evidenceRank) := by
    rw [get_withTag (by decide)]
    unfold C2Observation.modelDump
    simp only [Dict.get_append, get_dumpField, String.reduceEq, if_false, if_true, Option.none_or,
      Option.or_none, Option.map_some]
  constructor
  · intro h
    obtain ⟨s, hs, hread⟩ := h.ts
    rw [hts] at hs
    obtain ⟨t, ht, hdump⟩ := Option.map_eq_some_iff.mp hs
    refine ⟨?_, ⟨t, ht, Obj.str.inj hdump ▸ hread⟩, ?_⟩
    · exact Obj.str.inj (Option.some.inj (h.c2Host.symm.trans hhost))
    · exact Obj.int.inj (Option.some.inj (h.evidenceRank.symm.trans hrank))
  · rintro ⟨heq, ⟨t, ht, hread⟩, hrankEq⟩
    exact ⟨by rw [hhost, heq], ⟨_, by rw [hts, ht]; rfl, hread⟩, by rw [hrank, hrankEq]⟩

/-! ### What a session shows -/

/-- A session shows a host: its commands and URLs name it, a file was fetched from it, or it was
found in the content of a file that was fetched from elsewhere. -/
inductive Evidenced (rt : Runtime) (session : SessionIn) (host : PyStr) : Evidence → Prop
  | command (h : SessionHost rt session host) : Evidenced rt session host .shellReference
  | served (f : FileRef) (hf : f ∈ session.hpData.files) (h : FileServes rt f host) :
      Evidenced rt session host .servedFile
  | content (f : FileRef) (server : PyStr) (hf : f ∈ session.hpData.files)
      (hserves : FileServes rt f server) (hne : host ≠ server) (h : ContentHost rt f host) :
      Evidenced rt session host .fileCallback

/-- **An observation tells what its session shows**, with the rank of the evidence and the time of
the session. -/
theorem evidenced_of_mem {rt : Runtime} {geo : Option GeoEnricher} {record : Dict}
    {session : SessionIn} {e : Enriched} (h : SessionIn.modelValidate rt record = .ok session)
    (he : process rt record geo = .ok e) {o : C2Observation} (ho : o ∈ e.observations) :
    Evidenced rt session o.c2Host o.evidence ∧ o.evidenceRank = evidenceRank o.evidence ∧
      o.ts = session.time := by
  obtain ⟨ctx, served, hctx, hserved, hobs, -⟩ := process_eq_ok h he
  rw [hobs] at ho
  obtain ⟨row, hrow, rfl⟩ := List.mem_map.mp ho
  have hrank : (locateRow geo row).evidenceRank = row.evidenceRank := by
    obtain ⟨_, _, _, _, heq⟩ := locateRow_eq geo row
    rw [heq]
  have hall : allObservations rt session ctx =
      .ok (shellReferences session ctx ++ served ++ fileCallbacks session served) := by
    rw [allObservations, hserved]
    rfl
  rw [locateRow_c2Host, locateRow_evidence, hrank, time_of_locateRow,
    ts_of_mem_allObservations hall hrow]
  cases (mem_rows_iff hserved).mp hrow with
  | reference hhost => exact ⟨.command ((mem_c2Hosts_buildContext hctx _).mp hhost), rfl, rfl⟩
  | @served f _ hf hfile =>
    obtain ⟨hserves, hevidence, -⟩ := servedFile_columns hfile
    rw [hevidence]
    refine ⟨.served f hf hserves, ?_, rfl⟩
    cases servedAs_of_eq hfile with
    | bare => rfl
    | payload _ _ _ hpayload =>
      obtain ⟨magic, hosts, -, -, content, truncated, rfl⟩ := servedPayload_eq_ok hpayload rfl
      rfl
  | @callback f g host hf hfile hhost =>
    obtain ⟨hserves, -, -, hcallbacks⟩ := servedFile_columns hfile
    obtain ⟨hne, hcontent⟩ := (hcallbacks host).mp hhost
    exact ⟨.content f g.c2Host hf hserves hne hcontent, rfl, rfl⟩

/-- **What a session shows is observed**, where its record is processed. -/
theorem exists_observation {rt : Runtime} {geo : Option GeoEnricher} {record : Dict}
    {session : SessionIn} {e : Enriched} (h : SessionIn.modelValidate rt record = .ok session)
    (he : process rt record geo = .ok e) {host : PyStr} {evidence : Evidence}
    (hshows : Evidenced rt session host evidence) :
    ∃ o ∈ e.observations, o.c2Host = host ∧ o.evidence = evidence := by
  obtain ⟨ctx, served, hctx, hserved, hobs, -⟩ := process_eq_ok h he
  suffices hrow : ∃ row, RowFrom rt session ctx row ∧ row.c2Host = host ∧
      row.evidence = evidence by
    obtain ⟨row, hrow, hhost, hevidence⟩ := hrow
    refine ⟨locateRow geo row, hobs ▸ List.mem_map_of_mem ((mem_rows_iff hserved).mpr hrow), ?_⟩
    rw [locateRow_c2Host, locateRow_evidence]
    exact ⟨hhost, hevidence⟩
  have hfile : ∀ f ∈ session.hpData.files, ∀ server, FileServes rt f server →
      ∃ g, servedFile rt session f = .ok (some g) := fun f hf server =>
    exists_servedFile_eq ((isOk_servedFiles rt session).mp (isOk_iff.mpr ⟨served, hserved⟩) f hf)
  cases hshows with
  | command hhost =>
    exact ⟨_, .reference ((mem_c2Hosts_buildContext hctx _).mpr hhost), rfl, rfl⟩
  | served f hf hserves =>
    obtain ⟨g, hg⟩ := hfile f hf host hserves
    obtain ⟨hserves', hevidence, -⟩ := servedFile_columns hg
    exact ⟨g, .served hf hg, hserves'.unique hserves, hevidence⟩
  | content f server hf hserves hne hcontent =>
    obtain ⟨g, hg⟩ := hfile f hf server hserves
    obtain ⟨hserves', -, -, hcallbacks⟩ := servedFile_columns hg
    refine ⟨_, .callback hf hg ((hcallbacks host).mpr ⟨?_, hcontent⟩), rfl, rfl⟩
    rwa [hserves'.unique hserves]

/-! ### What a record shows -/

/-- A record that was received under an enrichable tag shows a host, by some evidence and at some
time. -/
def Observed (rt : Runtime) (codecs : Codecs) (readDate : PyStr → Option ℤ) (before : List Event)
    (host : PyStr) (evidence : Evidence) (ts : ℤ) : Prop :=
  ∃ msg records option tag record session t, Event.frame msg ∈ before ∧
    parseFrame codecs msg = .ok (records, option) ∧ (tag, record) ∈ records ∧
    isEnrichable tag = true ∧ SessionIn.modelValidate rt record = .ok session ∧
    Evidenced rt session host evidence ∧ session.time = some t ∧
    readDate (rt.pydantic.dumpDatetime t) = some ts

section Observed

variable {rt : Runtime} {geo : Option GeoEnricher} {codecs : Codecs}
  {readDate : PyStr → Option ℤ}

theorem Observed.mono {before before' : List Event} {host : PyStr} {evidence : Evidence} {ts : ℤ}
    (h : Observed rt codecs readDate before host evidence ts) (hsub : before ⊆ before') :
    Observed rt codecs readDate before' host evidence ts := by
  obtain ⟨msg, records, option, tag, record, session, t, hmsg, h⟩ := h
  exact ⟨msg, records, option, tag, record, session, t, hsub hmsg, h⟩

/-- What is shown does not depend on the clock. -/
theorem Observed.of_now {now : Datetime} {before : List Event} {host : PyStr} {evidence : Evidence}
    {ts : ℤ} (h : Observed { rt with now := now } codecs readDate before host evidence ts) :
    Observed rt codecs readDate before host evidence ts := by
  obtain ⟨msg, records, option, tag, record, session, t, hmsg, hparse, hmem, htag, hvalid, hshows,
    ht, hread⟩ := h
  refine ⟨msg, records, option, tag, record, session, t, hmsg, hparse, hmem, htag, hvalid, ?_, ht,
    hread⟩
  cases hshows with
  | command h => exact .command h
  | served f hf h => exact .served f hf h
  | content f server hf hserves hne h => exact .content f server hf hserves hne h

/-- **What is in the ledger was observed**: a document that was sent to an index of the ledger, and
is read as a row, shows what a record received before it shows. -/
theorem observed_of_sent {index : PyStr} {doc : Dict} {before : List Event}
    (h : Sent rt geo codecs index doc before) (hindex : indexTemplate.Covers index) {r : LedgerRow}
    (hr : r.Reads readDate doc) : ∃ evidence : Evidence, r.evidenceRank = evidenceRank evidence ∧
      Observed rt codecs readDate before r.c2Host evidence r.ts := by
  obtain ⟨msg, records, option, tag, record, hmsg, hparse, hmem, htag, sessionDoc, rows, henrich,
    ⟨-, hsession⟩ | ⟨row, hrow, rfl, -⟩⟩ := h
  · exact absurd hindex (covers_session hsession List.mem_cons_self)
  · rcases enrichRecord_eq_ok henrich with ⟨e, he, -, rfl⟩ | ⟨-, rfl⟩
    · obtain ⟨o, ho, rfl⟩ := List.mem_map.mp hrow
      obtain ⟨session, hvalid, -⟩ := bind_eq_ok.mp he
      obtain ⟨hshows, hrank, htime⟩ := evidenced_of_mem hvalid he ho
      obtain ⟨hhost, ⟨t, ht, hread⟩, hrankEq⟩ := reads_row_iff.mp hr
      refine ⟨o.evidence, by rw [hrankEq, hrank], msg, records, option, tag, record, session, t,
        hmsg, hparse, hmem, htag, hvalid, hhost ▸ hshows, htime ▸ ht, hread⟩
    · cases hrow

end Observed

end C2Engine
