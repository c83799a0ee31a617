import C2Engine.Elastic.Bootstrap
import C2Engine.Ingest.Stream
import C2Engine.Machine.Trace

/-!
# Where the documents go

Everything that is sent on a connection is a document of a record that was received on it: its
session document, which goes to an index of sessions, or one of its rows, which goes to an index of
the ledger. The ledger's indices, and only these, have the template of the ledger.

## Main definitions

* `RecordWrite`: the documents of a record, with their indices.
* `Sent`, `Routed`: a request by a record received before it, and traces of such requests.

## Main results

* `routed_handleStream`: the trace of a connection.
* `Sent.covers`: the templates of the indices.
-/

namespace C2Engine

open Python Python.Msgpack

section Routing

variable (rt : Runtime) (geo : Option GeoEnricher) (codecs : Codecs)

/-- **The documents of a record, with their indices**: the session document or a row, with the tag
of the record and under the date it shows itself. -/
def RecordWrite (tag : PyStr) (record : Dict) (index : PyStr) (doc : Dict) : Prop :=
  isEnrichable tag = true ∧
    ∃ sessionDoc rows, enrichRecord rt geo record = .ok (sessionDoc, rows) ∧
      (doc = EsWriter.withTag tag sessionDoc ∧ dailyIndex rt sessionPrefix doc = .ok index ∨
        ∃ row ∈ rows, doc = EsWriter.withTag tag row ∧ dailyIndex rt c2Prefix doc = .ok index)

/-- A document is sent for a record of a frame that stands before it. -/
def Sent (index : PyStr) (doc : Dict) (before : List Event) : Prop :=
  ∃ msg records option tag record, Event.frame msg ∈ before ∧
    parseFrame codecs msg = .ok (records, option) ∧ (tag, record) ∈ records ∧
    RecordWrite rt geo tag record index doc

/-- A trace in which every request is for a record received before it. -/
def Routed (t : List Event) : Prop :=
  ∀ before index doc outcome after, t = before ++ .request index doc outcome :: after →
    Sent rt geo codecs index doc before

variable {rt geo codecs}

/-- Such a trace is one in which the requests are allowed by what stands before them. -/
theorem routed_iff {t : List Event} : Routed rt geo codecs t ↔
    Machine.Justified (fun before ev => ∀ index doc outcome, ev = .request index doc outcome →
      Sent rt geo codecs index doc before) t := by
  constructor
  · rintro h before _ after heq index doc outcome rfl
    exact h before index doc outcome after heq
  · exact fun h before index doc outcome after heq => h before _ after heq index doc outcome rfl

theorem Routed.nil : Routed rt geo codecs [] := routed_iff.mpr .nil

/-- One more event, which may be a request for a record received so far. -/
theorem Routed.append_singleton {t : List Event} {ev : Event} (ht : Routed rt geo codecs t)
    (hev : ∀ index doc outcome, ev = .request index doc outcome → Sent rt geo codecs index doc t) :
    Routed rt geo codecs (t ++ [ev]) :=
  routed_iff.mpr ((routed_iff.mp ht).concat hev)

/-- While a frame is handled. -/
structure During (rt : Runtime) (geo : Option GeoEnricher) (codecs : Codecs) (msg : Obj)
    (w : Wire) : Prop where
  routed : Routed rt geo codecs w.trace
  frame : Event.frame msg ∈ w.trace

variable {msg : Obj} {records : List (PyStr × Dict)} {option : Option Dict}

theorem During.keeps_emit {ev : Event}
    (hev : ∀ index doc outcome, ev ≠ .request index doc outcome) :
    Prog.Keeps (During rt geo codecs msg) (emit ev) := fun _ hw =>
  ⟨hw.routed.append_singleton fun index doc outcome h => absurd h (hev index doc outcome),
    List.mem_append_left _ hw.frame⟩

/-- A document of a record of the frame is sent. -/
theorem During.keeps_index {tag : PyStr} {record doc : Dict} {index : PyStr}
    (hparse : parseFrame codecs msg = .ok (records, option)) (hmem : (tag, record) ∈ records)
    (hwrite : RecordWrite rt geo tag record index doc) :
    Prog.Keeps (During rt geo codecs msg) (EsWriter.index index doc) := by
  have hemit : Prog.Keeps (During rt geo codecs msg) (emit (.gaveUp doc)) :=
    During.keeps_emit fun _ _ _ => nofun
  have hgiveUp : ∀ e, Prog.Keeps (During rt geo codecs msg) (EsWriter.giveUp doc e) := fun e =>
    hemit.bind fun _ => Prog.Keeps.raise e
  have hrequest : Prog.Keeps (During rt geo codecs msg) (request index doc) := fun w hw =>
    ⟨hw.routed.append_singleton fun index' doc' outcome h => by
        obtain ⟨rfl, rfl, -⟩ := Event.request.inj h
        exact ⟨msg, records, option, tag, record, hw.frame, hparse, hmem, hwrite⟩,
      List.mem_append_left _ hw.frame⟩
  unfold EsWriter.index
  cases jsonDumps doc with
  | error e => exact hgiveUp e
  | ok _ =>
    refine attempts_rule hgiveUp (fun f haccept hreject => hrequest.bind fun o => ?_) 4
    cases ho : o.accepts with
    | true =>
      rw [haccept o ho]
      exact Prog.Keeps.pure ()
    | false => exact hreject o ho

/-- A document goes to the index of its day. -/
theorem During.keeps_write {tag : PyStr} {record doc : Dict} {indexPrefix : PyStr}
    (hparse : parseFrame codecs msg = .ok (records, option)) (hmem : (tag, record) ∈ records)
    (hwrite : ∀ index, dailyIndex rt indexPrefix doc = .ok index →
      RecordWrite rt geo tag record index doc) :
    Prog.Keeps (During rt geo codecs msg) (EsWriter.write rt indexPrefix doc) := by
  intro w hw
  unfold EsWriter.write
  cases hindex : dailyIndex rt indexPrefix doc with
  | error e => exact hw
  | ok index => exact During.keeps_index hparse hmem (hwrite index hindex) w hw

theorem During.keeps_handleRecord {tag : PyStr} {record : Dict}
    (hparse : parseFrame codecs msg = .ok (records, option)) (hmem : (tag, record) ∈ records) :
    Prog.Keeps (During rt geo codecs msg) (handleRecord rt geo tag record) := by
  unfold handleRecord
  split_ifs with htag
  · exact Prog.Keeps.pure ()
  · have htag : isEnrichable tag = true := by simpa using htag
    intro w hw
    cases henrich : enrichRecord rt geo record with
    | error e => exact hw
    | ok out =>
      obtain ⟨sessionDoc, rows⟩ := out
      refine Prog.Keeps.bind (I := During rt geo codecs msg) (α := Unit) ?_ (fun _ => ?_) w hw
      · exact During.keeps_write hparse hmem fun index hindex =>
          ⟨htag, sessionDoc, rows, henrich, .inl ⟨rfl, hindex⟩⟩
      · split_ifs
        · exact Prog.Keeps.pure ()
        · exact Prog.Keeps.forM fun row hrow => During.keeps_write hparse hmem fun index hindex =>
            ⟨htag, sessionDoc, rows, henrich, .inr ⟨row, hrow, rfl, hindex⟩⟩

/-- A frame is handled. -/
theorem keeps_routed_dispatch (msg : Obj) : Prog.Keeps (fun w => Routed rt geo codecs w.trace)
    (dispatch codecs (handleRecord rt geo) msg) := by
  intro w hw
  have hemit : (emit (.frame msg)).run w = (.ok (), ⟨w.answers, w.trace ++ [.frame msg]⟩) := rfl
  have hframe : During rt geo codecs msg ⟨w.answers, w.trace ++ [.frame msg]⟩ :=
    ⟨hw.append_singleton fun _ _ _ => nofun, List.mem_append_right _ (List.mem_singleton.mpr rfl)⟩
  refine @During.routed rt geo codecs msg _ ?_
  unfold dispatch
  rw [Prog.run_bind_of_ok hemit]
  refine (?_ : Prog.Keeps (During rt geo codecs msg) _) _ hframe
  split_ifs
  · exact (Prog.Keeps.ofExcept _).bind fun _ => During.keeps_emit fun _ _ _ => nofun
  · intro w' hw'
    cases hparse : parseFrame codecs msg with
    | error e => exact hw'
    | ok out =>
      obtain ⟨records, option⟩ := out
      refine Prog.Keeps.bind (I := During rt geo codecs msg) (α := Unit)
        (Prog.Keeps.forM fun record hmem => During.keeps_handleRecord hparse hmem) (fun _ => ?_) w'
        hw'
      cases frameChunk option with
      | none => exact Prog.Keeps.pure ()
      | some chunk =>
        exact (Prog.Keeps.ofExcept _).bind fun _ => During.keeps_emit fun _ _ _ => nofun

/-- **Nothing is sent that was not received**, whatever bytes arrive: every request is for a
document of a record of a frame that stands before it. -/
theorem routed_handleStream (answers : ℕ → Outcome) (pieces : List Bytes) :
    Routed rt geo codecs
      ((handleStream codecs (handleRecord rt geo) pieces).run ⟨answers, []⟩).2.trace :=
  keeps_handleStream keeps_routed_dispatch pieces _ Routed.nil

end Routing

/-! ### The templates of the indices -/

/-- An index of sessions has no template. -/
theorem covers_session {rt : Runtime} {doc : Dict} {index : PyStr}
    (h : dailyIndex rt sessionPrefix doc = .ok index) {t : Template} (ht : t ∈ templates) :
    ¬ t.Covers index := by
  obtain ⟨tail, rfl⟩ := prefix_of_dailyIndex h
  simp only [templates, List.mem_cons, List.not_mem_nil, or_false] at ht
  rcases ht with rfl | rfl | rfl | rfl
  · rw [covers_indexTemplate]
    exact Bool.false_ne_true
  · rw [covers_entitiesTemplate]
    exact fun heq => absurd (List.cons.inj heq).1 (by decide)
  · rw [covers_vtTemplate]
    exact fun heq => absurd (List.cons.inj heq).1 (by decide)
  · rw [covers_intelTemplate]
    exact fun heq => absurd (List.cons.inj heq).1 (by decide)

/-- An index of the ledger has the template of the ledger and no other. -/
theorem covers_row {rt : Runtime} {doc : Dict} {index : PyStr}
    (h : dailyIndex rt c2Prefix doc = .ok index) {t : Template} (ht : t ∈ templates) :
    t.Covers index ↔ t = indexTemplate := by
  have hledger : indexTemplate.Covers index :=
    covers_indexTemplate.mpr (List.isPrefixOf_iff_prefix.mpr (prefix_of_dailyIndex h))
  constructor
  · exact fun hcovers => covers_eq ht List.mem_cons_self hcovers hledger
  · rintro rfl
    exact hledger

/-- What is sent is a session document, in an index without a template, or a row, in an index with
the template of the ledger alone. -/
theorem Sent.covers {rt : Runtime} {geo : Option GeoEnricher} {codecs : Codecs} {index : PyStr}
    {doc : Dict} {before : List Event} (h : Sent rt geo codecs index doc before) :
    ∃ tag record sessionDoc rows, enrichRecord rt geo record = .ok (sessionDoc, rows) ∧
      (doc = EsWriter.withTag tag sessionDoc ∧ (∀ t ∈ templates, ¬ t.Covers index) ∨
        ∃ row ∈ rows, doc = EsWriter.withTag tag row ∧
          ∀ t ∈ templates, t.Covers index ↔ t = indexTemplate) := by
  obtain ⟨-, -, -, tag, record, -, -, -, -, sessionDoc, rows, henrich, hdoc⟩ := h
  refine ⟨tag, record, sessionDoc, rows, henrich, ?_⟩
  rcases hdoc with ⟨hdoc, hindex⟩ | ⟨row, hrow, hdoc, hindex⟩
  · exact .inl ⟨hdoc, fun t ht => covers_session hindex ht⟩
  · exact .inr ⟨row, hrow, hdoc, fun t ht => covers_row hindex ht⟩

end C2Engine
