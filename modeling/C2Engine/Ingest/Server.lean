import C2Engine.Ingest.Forward
import C2Engine.Pipeline.Enrich

/-!
# Records into Elasticsearch

`services/ingest/server.py`: a record is processed, or stripped of its inlined bytes where that
fails, and then written with its ledger rows. Only the writing may raise by design; the copy, the
stripping and the choice of the daily index are partial besides.

## Main definitions

* `stripCopy`, `stripBytes`: `_strip_bytes`.
* `enrichRecord`: the session document and the rows of a record.
* `handleRecord`: `_handle_record`.

## Main results

* `delivers_handleRecord`: the handler returns only when all of a record's documents were
  accepted.
-/

namespace C2Engine

open Python

/-- What `_strip_bytes` makes of its copy of the record. -/
def stripCopy (doc : Dict) : Except PyExc Dict :=
  match doc.get (key "hp_data") with
  | some (.map hp) => do
    let hp ← stripFiles hp
    return doc.set (key "hp_data") (.map hp)
  | _ => .ok doc

/-- `_strip_bytes`, which works on a deep copy. -/
def stripBytes (rt : Runtime) (raw : Dict) : Except PyExc Dict := do
  let doc ← raw.deepcopy rt.stripCalls
  stripCopy doc

theorem stripBytes_eq_ok {rt : Runtime} {raw doc : Dict} :
    stripBytes rt raw = .ok doc ↔
      (Obj.map raw).copies rt.stripCalls ∧ stripCopy raw = .ok doc := by
  simp only [stripBytes, bind_eq_ok, Dict.deepcopy_eq_ok]
  constructor
  · rintro ⟨_, ⟨hcopies, rfl⟩, hstrip⟩
    exact ⟨hcopies, hstrip⟩
  · exact fun ⟨hcopies, hstrip⟩ => ⟨raw, ⟨hcopies, rfl⟩, hstrip⟩

/-- The session document and the rows of a record: those of `process`, or the stripped record
without rows where `process` raises. -/
def enrichRecord (rt : Runtime) (geo : Option GeoEnricher) (record : Dict) :
    Except PyExc (Dict × List Dict) :=
  match process rt record geo with
  | .ok enriched => .ok (enriched.sessionDoc, enriched.observations.map fun o => o.modelDump rt)
  | .error _ => (stripBytes rt record).map fun doc => (doc, [])

/-- **The two ways a record is written**: as `process` returns it, or stripped and without rows. -/
theorem enrichRecord_eq_ok {rt : Runtime} {geo : Option GeoEnricher} {record doc : Dict}
    {rows : List Dict} (h : enrichRecord rt geo record = .ok (doc, rows)) :
    (∃ e, process rt record geo = .ok e ∧ doc = e.sessionDoc ∧
      rows = e.observations.map fun o => o.modelDump rt) ∨
    stripBytes rt record = .ok doc ∧ rows = [] := by
  unfold enrichRecord at h
  cases hprocess : process rt record geo with
  | ok e =>
    rw [hprocess] at h
    obtain ⟨rfl, rfl⟩ := Prod.mk.inj (Except.ok.inj h)
    exact .inl ⟨e, rfl, rfl, rfl⟩
  | error err =>
    rw [hprocess] at h
    obtain ⟨doc', hstrip, hdoc⟩ := map_eq_ok.mp h
    obtain ⟨rfl, rfl⟩ := Prod.mk.inj hdoc
    exact .inr ⟨hstrip, rfl⟩

/-- The tags of new sensors start with this. -/
def enrichablePrefix : PyStr := str "stingar.enrichable."

/-- A tag of the enrichable family. -/
def isEnrichable (tag : PyStr) : Bool := enrichablePrefix.isPrefixOf tag

/-- `_handle_record`. -/
def handleRecord (rt : Runtime) (geo : Option GeoEnricher) (tag : PyStr) (record : Dict) :
    Prog Wire Unit :=
  if !isEnrichable tag then pure ()
  else do
    let (sessionDoc, rows) ← Prog.ofExcept (enrichRecord rt geo record)
    EsWriter.writeSession rt sessionDoc tag
    if rows.isEmpty then pure () else EsWriter.writeObservations rt rows tag

/-- The documents a record stands for: its session document and its ledger rows, as they are
written. A record under another tag stands for none of them, and one that cannot be stripped
either has no documents at all. -/
def recordDocs (rt : Runtime) (geo : Option GeoEnricher) (tag : PyStr) (record : Dict) :
    Option (List Dict) :=
  if !isEnrichable tag then some []
  else match enrichRecord rt geo record with
    | .ok (sessionDoc, rows) => some ((sessionDoc :: rows).map (EsWriter.withTag tag))
    | .error _ => none

/-- **The record handler returns only when every document of the record was accepted.** -/
theorem delivers_handleRecord (rt : Runtime) (geo : Option GeoEnricher) (tag : PyStr)
    (record : Dict) : Delivers (handleRecord rt geo tag record) (recordDocs rt geo tag record) := by
  unfold handleRecord recordDocs
  split
  · exact Delivers.pure ()
  · cases henrich : enrichRecord rt geo record with
    | error e => exact Delivers.raise e none
    | ok out =>
      obtain ⟨sessionDoc, rows⟩ := out
      change Delivers (EsWriter.writeSession rt sessionDoc tag >>= fun _ =>
          if rows.isEmpty then pure () else EsWriter.writeObservations rt rows tag)
        (appendDocs (some [EsWriter.withTag tag sessionDoc])
          (some (rows.map (EsWriter.withTag tag))))
      refine (delivers_writeSession rt sessionDoc tag).bind fun _ => ?_
      cases rows with
      | nil => exact Delivers.pure ()
      | cons row rows => exact delivers_writeObservations rt tag (row :: rows)

end C2Engine
