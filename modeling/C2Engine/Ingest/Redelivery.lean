import C2Engine.Ingest.Delivery
import C2Engine.Pipeline.Facts
import Mathlib.Data.List.Perm.Subperm

/-!
# Redelivery

A chunk is delivered again until one of its acknowledgements arrives, and a request may be applied
by Elasticsearch although its answer is an error or never comes. A document is sent without an id,
so a write that is applied again is one more row. This file says what the ledger holds in a run of
deliveries, and for which runs it holds one row for each fact.

The deliveries of a run may overlap: the ledger is in any state that the rows written so far can
be arranged to.

## Main definitions

* `sentRows`: the ledger rows sent in a trace, with their answers.
* `recordRows`, `chunkRows`: the ledger rows of a record and of a chunk.
* `Sends`: the specification of a program by the rows it sends.
* `Delivery`, `Run`: one delivery of a chunk, and all of them.
* `Run.Clean`, `Run.ExactlyOnce`: the runs in which no write is lost sight of, and those that
  leave one row for each fact.

## Main results

* `sends_handleRecord`, `delivered_trace`: what a delivery sends.
* `pairwise_chunkRows`: the rows of a chunk state each fact once.
-/

namespace C2Engine

open Python

/-! ### Rows on the wire -/

/-- An index of the ledger. -/
def isLedgerIndex (index : PyStr) : Bool := (c2Prefix ++ str "-").isPrefixOf index

/-- The rows a request is for. -/
def requestRows (index : PyStr) (doc : Dict) : List Dict :=
  if isLedgerIndex index then [doc] else []

/-- The ledger rows sent in a trace, with their answers. -/
def sentRows : List Event → List (Dict × Outcome)
  | [] => []
  | .request index doc outcome :: evs =>
    (requestRows index doc).map (fun row => (row, outcome)) ++ sentRows evs
  | _ :: evs => sentRows evs

@[simp] theorem sentRows_append : (evs evs' : List Event) →
    sentRows (evs ++ evs') = sentRows evs ++ sentRows evs'
  | [], _ => rfl
  | .request _ _ _ :: evs, evs' => by
      rw [List.cons_append, sentRows, sentRows, sentRows_append evs evs', List.append_assoc]
  | .frame _ :: evs, evs' | .gaveUp _ :: evs, evs' | .pong :: evs, evs' | .ack _ :: evs, evs' =>
      sentRows_append evs evs'

/-- The rows that were accepted. -/
def acceptedRows (sent : List (Dict × Outcome)) : List Dict :=
  (sent.filter fun s => s.2.accepts).map Prod.fst

@[simp] theorem acceptedRows_append (sent sent' : List (Dict × Outcome)) :
    acceptedRows (sent ++ sent') = acceptedRows sent ++ acceptedRows sent' := by
  rw [acceptedRows, List.filter_append, List.map_append, acceptedRows, acceptedRows]

/-! ### What a program sends -/

/-- Events in which only the given rows are sent and nothing is acknowledged. -/
structure Within (rows : List Dict) (evs : List Event) : Prop where
  sent : ∀ s ∈ sentRows evs, s.1 ∈ rows
  noAck : ∀ chunk, Event.ack chunk ∉ evs

theorem Within.append {rows rows' : List Dict} {evs evs' : List Event} (h : Within rows evs)
    (h' : Within rows' evs') : Within (rows ++ rows') (evs ++ evs') where
  sent s hs := by
    rw [sentRows_append] at hs
    exact List.mem_append.mpr ((List.mem_append.mp hs).imp (h.sent s) (h'.sent s))
  noAck chunk hmem := (List.mem_append.mp hmem).elim (h.noAck chunk) (h'.noAck chunk)

theorem Within.mono {rows rows' : List Dict} {evs : List Event} (h : Within rows evs)
    (hsub : rows ⊆ rows') : Within rows' evs := ⟨fun s hs => hsub (h.sent s hs), h.noAck⟩

theorem Within.nil (rows : List Dict) : Within rows [] where
  sent _ hs := by cases hs
  noAck _ hmem := by cases hmem

theorem Within.request (index : PyStr) (doc : Dict) (outcome : Outcome) :
    Within (requestRows index doc) [.request index doc outcome] where
  sent s hs := by
    rw [sentRows, sentRows, List.append_nil] at hs
    obtain ⟨row, hrow, rfl⟩ := List.mem_map.mp hs
    exact hrow
  noAck _ hmem := by cases List.mem_singleton.mp hmem

/-- **A program that sends rows**: it sends only these, and if it returns, exactly these were
accepted, in their order. -/
def Sends {α : Type} (m : Prog Wire α) (rows : List Dict) : Prop :=
  ∀ t, Prog.Triple (fun w => w.trace = t) m
    (fun _ w => ∃ evs, w.trace = t ++ evs ∧ Within rows evs ∧ acceptedRows (sentRows evs) = rows)
    (fun _ w => ∃ evs, w.trace = t ++ evs ∧ Within rows evs)

namespace Sends

variable {α β : Type}

theorem pure (a : α) : Sends (Pure.pure a) [] := fun t =>
  Prog.Triple.pure fun _ hw => ⟨[], by simpa using hw, Within.nil [], rfl⟩

theorem ofExcept (x : Except PyExc α) : Sends (Prog.ofExcept x) [] := fun t =>
  Prog.Triple.ofExcept (fun _ _ _ hw => ⟨[], by simpa using hw, Within.nil [], rfl⟩)
    fun _ _ _ hw => ⟨[], by simpa using hw, Within.nil []⟩

/-- What raises at once sends anything. -/
theorem raise (e : PyExc) (rows : List Dict) : Sends (Prog.raise e : Prog Wire α) rows := fun t =>
  Prog.Triple.raise fun _ hw => ⟨[], by simpa using hw, Within.nil rows⟩

theorem bind {m : Prog Wire α} {f : α → Prog Wire β} {rows rows' : List Dict} (hm : Sends m rows)
    (hf : ∀ a, Sends (f a) rows') : Sends (m >>= f) (rows ++ rows') := by
  intro t
  refine Prog.Triple.bind (Q := fun _ w => ∃ evs, w.trace = t ++ evs ∧ Within rows evs ∧
    acceptedRows (sentRows evs) = rows) ?_ fun a w hw => ?_
  · refine (hm t).weaken (fun _ h => h) (fun _ _ h => h) ?_
    rintro _ w ⟨evs, htrace, hwithin⟩
    exact ⟨evs, htrace, hwithin.mono (List.subset_append_left _ _)⟩
  · obtain ⟨evs, htrace, hwithin, haccepted⟩ := hw
    refine (hf a (t ++ evs) w htrace).imp ?_ ?_
    · rintro b w' ⟨evs', htrace', hwithin', haccepted'⟩
      exact ⟨evs ++ evs', by rw [htrace', List.append_assoc], hwithin.append hwithin',
        by rw [sentRows_append, acceptedRows_append, haccepted, haccepted']⟩
    · rintro e w' ⟨evs', htrace', hwithin'⟩
      exact ⟨evs ++ evs', by rw [htrace', List.append_assoc], hwithin.append hwithin'⟩

theorem forM {body : β → Prog Wire Unit} {rows : β → List Dict}
    (h : ∀ x, Sends (body x) (rows x)) : (xs : List β) → Sends (Prog.forM xs body) (xs.flatMap rows)
  | [] => pure ()
  | x :: xs => (h x).bind fun _ => forM h xs

end Sends

theorem sends_giveUp (doc : Dict) (e : PyExc) (rows : List Dict) :
    Sends (EsWriter.giveUp doc e) rows := by
  rintro t w rfl
  refine ⟨[.gaveUp doc], rfl, ⟨fun s hs => (by cases hs), fun _ hmem => ?_⟩⟩
  cases List.mem_singleton.mp hmem

/-- A request, after which an accepting answer ends the program and another one does not stop it
from sending the row. -/
theorem sends_request_bind {index : PyStr} {doc : Dict} {f : Outcome → Prog Wire Unit}
    (haccept : ∀ o : Outcome, o.accepts = true → f o = pure ())
    (hreject : ∀ o : Outcome, o.accepts = false → Sends (f o) (requestRows index doc)) :
    Sends (request index doc >>= f) (requestRows index doc) := by
  intro t
  have hsent (o : Outcome) : sentRows [.request index doc o] =
      (requestRows index doc).map fun row => (row, o) := List.append_nil _
  refine (triple_request index doc t).bind fun o w hw => ?_
  cases ho : o.accepts with
  | true =>
    rw [haccept o ho]
    refine ⟨_, hw, .request index doc o, ?_⟩
    rw [hsent, acceptedRows, List.filter_eq_self.mpr, List.map_map]
    · exact List.map_id _
    · intro s hs
      obtain ⟨row, -, rfl⟩ := List.mem_map.mp hs
      exact ho
  | false =>
    have hnone : acceptedRows (sentRows [.request index doc o]) = [] := by
      rw [hsent, acceptedRows, List.filter_eq_nil_iff.mpr]
      · rfl
      · intro s hs
        obtain ⟨row, -, rfl⟩ := List.mem_map.mp hs
        rw [ho]
        exact Bool.false_ne_true
    have hjoin {evs : List Event} (h : Within (requestRows index doc) evs) :
        Within (requestRows index doc) (.request index doc o :: evs) :=
      ((Within.request index doc o).append h).mono
        (List.append_subset.mpr ⟨fun _ => id, fun _ => id⟩)
    refine (hreject o ho _ w hw).imp ?_ ?_
    · rintro u w' ⟨evs, htrace, hwithin, haccepted⟩
      refine ⟨_, htrace.trans (List.append_assoc _ _ _), hjoin hwithin, ?_⟩
      rw [sentRows_append, acceptedRows_append, hnone, haccepted, List.nil_append]
    · rintro e w' ⟨evs, htrace, hwithin⟩
      exact ⟨_, htrace.trans (List.append_assoc _ _ _), hjoin hwithin⟩

theorem sends_index (index : PyStr) (doc : Dict) :
    Sends (EsWriter.index index doc) (requestRows index doc) := by
  unfold EsWriter.index
  split
  · exact attempts_rule (P := fun m => Sends m (requestRows index doc))
      (fun e => sends_giveUp doc e _) (fun _ => sends_request_bind) 4
  · exact sends_giveUp doc _ _

/-- Only a daily index of the ledger is an index of the ledger. -/
theorem isLedgerIndex_of_dailyIndex {rt : Runtime} {record : Dict} {index : PyStr} :
    (dailyIndex rt c2Prefix record = .ok index → isLedgerIndex index = true) ∧
      (dailyIndex rt sessionPrefix record = .ok index → isLedgerIndex index = false) := by
  constructor
  · intro h
    exact List.isPrefixOf_iff_prefix.mpr (prefix_of_dailyIndex h)
  · intro h
    obtain ⟨rest, rfl⟩ := prefix_of_dailyIndex h
    rfl

theorem sends_writeSession (rt : Runtime) (doc : Dict) (sourceTag : PyStr) :
    Sends (EsWriter.writeSession rt doc sourceTag) [] := by
  rw [EsWriter.writeSession, EsWriter.write]
  cases hindex : dailyIndex rt sessionPrefix (EsWriter.withTag sourceTag doc) with
  | error e => exact Sends.raise e []
  | ok index =>
    have h := sends_index index (EsWriter.withTag sourceTag doc)
    rw [requestRows, isLedgerIndex_of_dailyIndex.2 hindex] at h
    exact h

theorem sends_writeObservations (rt : Runtime) (rows : List Dict) (sourceTag : PyStr) :
    Sends (EsWriter.writeObservations rt rows sourceTag)
      (rows.map (EsWriter.withTag sourceTag)) := by
  have hrow : ∀ row, Sends (EsWriter.write rt c2Prefix (EsWriter.withTag sourceTag row))
      [EsWriter.withTag sourceTag row] := by
    intro row
    rw [EsWriter.write]
    cases hindex : dailyIndex rt c2Prefix (EsWriter.withTag sourceTag row) with
    | error e => exact Sends.raise e _
    | ok index =>
      have h := sends_index index (EsWriter.withTag sourceTag row)
      rw [requestRows, isLedgerIndex_of_dailyIndex.1 hindex] at h
      exact h
  have h := Sends.forM hrow rows
  rwa [← List.map_eq_flatMap] at h

/-! ### The rows of a chunk -/

/-- The ledger rows of a record, as they are written. -/
def recordRows (rt : Runtime) (geo : Option GeoEnricher) (tag : PyStr) (record : Dict) :
    List Dict :=
  if !isEnrichable tag then []
  else match process rt record geo with
    | .ok enriched => enriched.observations.map fun o => EsWriter.withTag tag (o.modelDump rt)
    | .error _ => []

/-- The ledger rows of the records of a chunk. -/
def chunkRows (rt : Runtime) (geo : Option GeoEnricher) (records : List (PyStr × Dict)) :
    List Dict := records.flatMap fun record => recordRows rt geo record.1 record.2

/-- **What the record handler sends** are the rows of the record. -/
theorem sends_handleRecord (rt : Runtime) (geo : Option GeoEnricher) (tag : PyStr) (record : Dict) :
    Sends (handleRecord rt geo tag record) (recordRows rt geo tag record) := by
  unfold handleRecord recordRows
  split
  · exact Sends.pure ()
  · rw [enrichRecord]
    cases process rt record geo with
    | ok enriched =>
      have hrows : Sends (if (enriched.observations.map fun o => o.modelDump rt).isEmpty then
          pure ()
        else
          EsWriter.writeObservations rt (enriched.observations.map fun o => o.modelDump rt) tag)
          ((enriched.observations.map fun o => o.modelDump rt).map (EsWriter.withTag tag)) := by
        cases enriched.observations with
        | nil => exact Sends.pure ()
        | cons o os => exact sends_writeObservations rt _ tag
      rw [List.map_map] at hrows
      exact (sends_writeSession rt enriched.sessionDoc tag).bind fun _ => hrows
    | error e =>
      cases stripBytes rt record with
      | error e => exact Sends.raise e []
      | ok doc => exact (sends_writeSession rt doc tag).bind fun _ => Sends.pure ()

/-! ### Facts -/

/-- A text of a document. -/
def rowText (doc : Dict) (name : String) : Option PyStr := (doc.get (key name)).bind Obj.asStr?

/-- The fact a document of the ledger states. -/
def factOf (doc : Dict) : Fact where
  sessionId := rowText doc "session_id"
  evidence := rowText doc "evidence"
  c2Host := rowText doc "c2_host"
  c2Url := rowText doc "c2_url"
  sha256 := rowText doc "sha256"
  c2ViaSha256 := rowText doc "c2_via_sha256"

/-- A written row states the fact of its row. -/
theorem factOf_row (rt : Runtime) (tag : PyStr) (o : C2Observation) :
    factOf (EsWriter.withTag tag (o.modelDump rt)) = o.fact := by
  have htag : ∀ name, name ≠ "fluentd_tag" →
      rowText (EsWriter.withTag tag (o.modelDump rt)) name = rowText (o.modelDump rt) name := by
    intro name hname
    rw [rowText, EsWriter.withTag]
    split_ifs
    · rfl
    · rw [Dict.get_set_ne _ _ (by rwa [ne_eq, key_inj])]
      rfl
  have hstr : ∀ s : Option PyStr, (s.map Obj.str).bind Obj.asStr? = s := by
    intro s
    cases s <;> rfl
  rw [factOf, htag _ (by decide), htag _ (by decide), htag _ (by decide), htag _ (by decide),
    htag _ (by decide), htag _ (by decide)]
  unfold rowText C2Observation.modelDump C2Observation.fact
  simp only [Dict.get_append, get_dumpField, String.reduceEq, if_false, if_true, Option.none_or,
    Option.or_none, Option.map_some, hstr, Option.bind_some, Obj.asStr?]

/-- The rows of a record are those `process` returned. -/
theorem mem_recordRows {rt : Runtime} {geo : Option GeoEnricher} {tag : PyStr} {record row : Dict}
    (h : row ∈ recordRows rt geo tag record) :
    ∃ session e, SessionIn.modelValidate rt record = .ok session ∧
      process rt record geo = .ok e ∧ ∃ o ∈ e.observations, factOf row = o.fact := by
  rw [recordRows] at h
  split_ifs at h
  · cases h
  · cases hprocess : process rt record geo with
    | error e =>
      rw [hprocess] at h
      cases h
    | ok e =>
      rw [hprocess] at h
      obtain ⟨o, ho, rfl⟩ := List.mem_map.mp h
      obtain ⟨session, hsession, -⟩ := bind_eq_ok.mp hprocess
      exact ⟨session, e, hsession, rfl, o, ho, factOf_row rt tag o⟩

/-- A file that one of the sessions of a chunk lists twice. -/
def ChunkListsTwice (rt : Runtime) (records : List (PyStr × Dict)) (fact : Fact) : Prop :=
  ∃ record ∈ records, ∃ session, SessionIn.modelValidate rt record.2 = .ok session ∧
    fact.sessionId = some session.sessionId ∧ ListsTwice rt session fact

/-- The records of a chunk are sessions of their own: no two have the same id. -/
def DistinctSessions (rt : Runtime) (records : List (PyStr × Dict)) : Prop :=
  records.Pairwise fun r r' => ∀ session session',
    SessionIn.modelValidate rt r.2 = .ok session → SessionIn.modelValidate rt r'.2 = .ok session' →
      session.sessionId ≠ session'.sessionId

/-- **Rows that state each fact once**, but for a file that its session lists twice. -/
def OneRowPerFact (rt : Runtime) (records : List (PyStr × Dict)) (rows : List Dict) : Prop :=
  rows.Pairwise fun row row' => factOf row = factOf row' →
    ChunkListsTwice rt records (factOf row)

/-- The number of rows of a host, its `sighting_count`. -/
def sightings (host : PyStr) (rows : List Dict) : ℕ :=
  rows.countP fun row => decide (rowText row "c2_host" = some host)

theorem OneRowPerFact.subperm {rt : Runtime} {records : List (PyStr × Dict)}
    {rows rows' : List Dict} (h : OneRowPerFact rt records rows) (hsub : rows'.Subperm rows) :
    OneRowPerFact rt records rows' := by
  obtain ⟨l, hperm, hl⟩ := hsub
  refine (hperm.pairwise_iff fun {row row'} hrow heq => ?_).mp (h.sublist hl)
  exact heq ▸ hrow heq.symm

theorem sightings_le_of_subperm {rows rows' : List Dict} (h : rows'.Subperm rows) (host : PyStr) :
    sightings host rows' ≤ sightings host rows := by
  obtain ⟨l, hperm, hl⟩ := h
  exact (hperm.countP_eq _).symm.le.trans hl.countP_le

/-- **The rows of a chunk state each fact once.** -/
theorem pairwise_chunkRows {rt : Runtime} {geo : Option GeoEnricher}
    {records : List (PyStr × Dict)} (h : DistinctSessions rt records) :
    OneRowPerFact rt records (chunkRows rt geo records) := by
  refine List.pairwise_flatMap.mpr ⟨fun record hrecord => ?_, ?_⟩
  · rw [recordRows]
    split_ifs
    · exact List.Pairwise.nil
    · cases hprocess : process rt record.2 geo with
      | error e => exact List.Pairwise.nil
      | ok e =>
        obtain ⟨session, hsession, -⟩ := bind_eq_ok.mp hprocess
        refine List.pairwise_map.mpr ((pairwise_facts hsession hprocess).imp_of_mem ?_)
        intro o o' ho _ hfact heq
        rw [factOf_row, factOf_row] at heq
        rw [factOf_row]
        exact ⟨record, hrecord, session, hsession, sessionId_of_mem hsession hprocess ho,
          hfact heq⟩
  · refine h.imp fun {r r'} hne row hrow row' hrow' heq => ?_
    obtain ⟨session, e, hsession, hprocess, o, ho, hfact⟩ := mem_recordRows hrow
    obtain ⟨session', e', hsession', hprocess', o', ho', hfact'⟩ := mem_recordRows hrow'
    have hid := sessionId_of_mem hsession hprocess ho
    rw [← hfact, heq, hfact', sessionId_of_mem hsession' hprocess' ho'] at hid
    exact absurd (Option.some.inj hid).symm (hne session session' hsession hsession')

/-- Every row of a chunk has a host. -/
theorem exists_host_of_mem {rt : Runtime} {geo : Option GeoEnricher}
    {records : List (PyStr × Dict)} {row : Dict} (h : row ∈ chunkRows rt geo records) :
    ∃ host, rowText row "c2_host" = some host := by
  obtain ⟨record, -, hrow⟩ := List.mem_flatMap.mp h
  obtain ⟨session, e, -, -, o, -, hfact⟩ := mem_recordRows hrow
  exact ⟨o.c2Host, congrArg Fact.c2Host hfact⟩

/-! ### Deliveries -/

/-- The rows of a delivery that come into the ledger: those that are accepted, and those of the
other requests that Elasticsearch applies. -/
def storedRows : (ℕ → Bool) → List (Dict × Outcome) → List Dict
  | _, [] => []
  | applied, s :: sent =>
    if s.2.accepts || applied 0 then s.1 :: storedRows (fun n => applied (n + 1)) sent
    else storedRows (fun n => applied (n + 1)) sent

/-- The rows that come into the ledger and are not accepted. -/
def unacceptedRows : (ℕ → Bool) → List (Dict × Outcome) → List Dict
  | _, [] => []
  | applied, s :: sent =>
    if !s.2.accepts && applied 0 then s.1 :: unacceptedRows (fun n => applied (n + 1)) sent
    else unacceptedRows (fun n => applied (n + 1)) sent

theorem storedRows_perm : (applied : ℕ → Bool) → (sent : List (Dict × Outcome)) →
    (storedRows applied sent).Perm (acceptedRows sent ++ unacceptedRows applied sent)
  | _, [] => List.Perm.nil
  | applied, s :: sent => by
      have ih := storedRows_perm (fun n => applied (n + 1)) sent
      rw [storedRows, unacceptedRows, acceptedRows, List.filter_cons]
      cases haccepts : s.2.accepts with
      | true => exact ih.cons s.1
      | false =>
        cases happlied : applied 0 with
        | true => exact (ih.cons s.1).trans List.perm_middle.symm
        | false => exact ih

theorem mem_of_mem_storedRows {row : Dict} : {applied : ℕ → Bool} → {sent : List (Dict × Outcome)} →
    row ∈ storedRows applied sent → ∃ s ∈ sent, s.1 = row
  | _, [], h => by cases h
  | applied, s :: sent, h => by
      rw [storedRows] at h
      have htail : row ∈ storedRows (fun n => applied (n + 1)) sent →
          ∃ s' ∈ s :: sent, s'.1 = row := by
        intro htail
        obtain ⟨s', hs', rfl⟩ := mem_of_mem_storedRows htail
        exact ⟨s', List.mem_cons_of_mem _ hs', rfl⟩
      split_ifs at h
      · rcases List.mem_cons.mp h with rfl | h
        · exact ⟨s, List.mem_cons_self, rfl⟩
        · exact htail h
      · exact htail h

/-- One delivery of a chunk. -/
structure Delivery where
  /-- The present. -/
  now : Datetime
  /-- The answers to the requests. -/
  answers : ℕ → Outcome
  /-- Whether Elasticsearch applies a write to the ledger that it does not accept. -/
  applied : ℕ → Bool
  /-- Whether the acknowledgement, where one is sent, arrives. -/
  arrives : Bool

section Deliveries

variable (rt : Runtime) (geo : Option GeoEnricher) (codecs : Codecs) (msg : Obj)

namespace Delivery

/-- The events of a delivery, on a connection of its own. -/
def trace (d : Delivery) : List Event :=
  ((handle codecs (handleRecord { rt with now := d.now } geo) [.ok msg]).run
    ⟨d.answers, []⟩).2.trace

/-- The rows that were accepted. -/
def accepted (d : Delivery) : List Dict := acceptedRows (sentRows (d.trace rt geo codecs msg))

/-- The rows that came into the ledger without being accepted. -/
def unaccepted (d : Delivery) : List Dict :=
  unacceptedRows d.applied (sentRows (d.trace rt geo codecs msg))

/-- The rows that came into the ledger. -/
def stored (d : Delivery) : List Dict :=
  storedRows d.applied (sentRows (d.trace rt geo codecs msg))

/-- The sender sees the acknowledgement of the chunk. -/
def Acked (chunk : Obj) (d : Delivery) : Prop :=
  d.arrives = true ∧ Event.ack chunk ∈ d.trace rt geo codecs msg

end Delivery

/-- The deliveries of a chunk up to now: behind an acknowledgement there is none. -/
structure Run (chunk : Obj) where
  deliveries : List Delivery
  acked_last : ∀ before d after, deliveries = before ++ d :: after →
    d.Acked rt geo codecs msg chunk → after = []

end Deliveries

variable {rt : Runtime} {geo : Option GeoEnricher} {codecs : Codecs} {msg chunk : Obj}

namespace Run

variable (r : Run rt geo codecs msg chunk)

/-- The rows of all deliveries that came into the ledger. -/
def written : List Dict := r.deliveries.flatMap fun d => d.stored rt geo codecs msg

/-- A state of the ledger: some of the rows that came in, in any order. -/
def Reached (rows : List Dict) : Prop := rows.Subperm r.written

/-- An acknowledgement has arrived. -/
def Completed : Prop := ∃ d ∈ r.deliveries, d.Acked rt geo codecs msg chunk

/-- **No write is lost sight of**: Elasticsearch applies a ledger write only when it accepts it,
and it accepts none in a delivery whose acknowledgement does not arrive. -/
def Clean : Prop := ∀ d ∈ r.deliveries, d.unaccepted rt geo codecs msg = [] ∧
  (¬ d.Acked rt geo codecs msg chunk → d.accepted rt geo codecs msg = [])

/-- **One row for each fact** in every state, and no host with more sightings than the records
have. -/
def ExactlyOnce (records : List (PyStr × Dict)) : Prop := ∀ rows, r.Reached rows →
  OneRowPerFact rt records rows ∧
    ∀ host, sightings host rows ≤ sightings host (chunkRows rt geo records)

end Run

/-! ### What a delivery sends -/

/-- Events in which only the given rows are sent, and an acknowledgement is sent only where they
were accepted. -/
structure Delivered (rows : List Dict) (evs : List Event) : Prop where
  sent : ∀ s ∈ sentRows evs, s.1 ∈ rows
  acked : ∀ chunk, Event.ack chunk ∈ evs → acceptedRows (sentRows evs) = rows

theorem Within.delivered {rows : List Dict} {evs : List Event} (h : Within rows evs) :
    Delivered rows evs := ⟨h.sent, fun chunk hack => absurd hack (h.noAck chunk)⟩

/-- The frame of a chunk. -/
theorem dispatch_delivered {records : List (PyStr × Dict)} {option : Option Dict}
    (hparse : parseFrame codecs msg = .ok (records, option)) :
    Prog.Triple (fun w => w.trace = []) (dispatch codecs (handleRecord rt geo) msg)
      (fun _ w => Delivered (chunkRows rt geo records) w.trace)
      (fun _ w => Delivered (chunkRows rt geo records) w.trace) := by
  set rows := chunkRows rt geo records
  have hframe : Within rows [.frame msg] :=
    ⟨fun s hs => (by cases hs), fun _ hmem => by cases List.mem_singleton.mp hmem⟩
  have hrows : Sends (Prog.forM records fun record => handleRecord rt geo record.1 record.2) rows :=
    Sends.forM (fun record => sends_handleRecord rt geo record.1 record.2) records
  refine triple_dispatch (t := []) (R := fun _ w => Within rows w.trace ∧
    acceptedRows (sentRows w.trace) = rows) ?_ ?_ ?_ ?_ ?_
  · exact fun _ w hw => hw ▸ hframe.delivered
  · intro w hw
    rw [hw]
    refine ⟨fun s hs => (by cases hs), fun _ hmem => ?_⟩
    rcases List.mem_cons.mp hmem with h | h
    · cases h
    · cases List.mem_singleton.mp h
  · intro records' option' hparse'
    obtain ⟨rfl, rfl⟩ := Prod.mk.inj (Except.ok.inj (hparse.symm.trans hparse'))
    refine (hrows [.frame msg]).weaken (fun _ h => h) ?_ ?_
    · rintro _ w ⟨evs, htrace, hwithin, haccepted⟩
      rw [htrace]
      exact ⟨(hframe.append hwithin).mono (List.append_subset.mpr ⟨fun _ => id, fun _ => id⟩),
        haccepted⟩
    · rintro _ w ⟨evs, htrace, hwithin⟩
      rw [htrace]
      exact ((hframe.append hwithin).mono
        (List.append_subset.mpr ⟨fun _ => id, fun _ => id⟩)).delivered
  · exact fun _ _ _ _ w hw => hw.1.delivered
  · intro _ _ chunk _ _ w hw
    have hack : sentRows (w.trace ++ [.ack chunk]) = sentRows w.trace := by
      rw [sentRows_append]
      exact List.append_nil _
    refine ⟨fun _ => hw.1.delivered, fun w' hw' => ?_⟩
    rw [hw']
    exact ⟨fun s hs => hw.1.sent s (hack ▸ hs), fun _ _ => hack ▸ hw.2⟩

/-- **What a delivery sends** are the rows of the chunk, and where it is acknowledged they were
accepted. -/
theorem delivered_trace {records : List (PyStr × Dict)} {option : Option Dict}
    (hparse : parseFrame codecs msg = .ok (records, option)) (d : Delivery) :
    Delivered (chunkRows rt geo records) (d.trace rt geo codecs msg) := by
  have hdispatch := @dispatch_delivered { rt with now := d.now } geo _ _ _ _ hparse
  have h : Prog.Triple (fun w => w.trace = [])
      (handle codecs (handleRecord { rt with now := d.now } geo) [.ok msg])
      (fun _ w => Delivered (chunkRows rt geo records) w.trace)
      (fun _ w => Delivered (chunkRows rt geo records) w.trace) := by
    refine Prog.Triple.bind (Q := fun _ w => Delivered (chunkRows rt geo records) w.trace) ?_
      fun goOn => ?_
    · refine Prog.Triple.tryExcept (E := fun _ w => Delivered (chunkRows rt geo records) w.trace)
        (Prog.Triple.bind hdispatch fun _ => Prog.Triple.pure fun _ h => h) ?_ fun _ _ _ h => h
      rintro e h heq
      cases heq
      exact Prog.Triple.pure fun _ h => h
    · split_ifs <;> exact Prog.Triple.pure fun _ h => h
  have hrun := h ⟨d.answers, []⟩ rfl
  rw [Delivery.trace]
  rcases hr : (handle codecs (handleRecord { rt with now := d.now } geo) [.ok msg]).run
    ⟨d.answers, []⟩ with ⟨e | u, w⟩ <;>
  · rw [hr] at hrun
    exact hrun

end C2Engine
