import C2Engine.Ingest.Poison

/-!
# Inlined bytes in what is written

The bytes of a file travel in its `content_b64`. Both paths of the record handler take this key
from the mappings in the list `hp_data.files`, and from nothing else: a key that lies deeper, or
beneath files that are no list, is written. The bytes of a binary are in no row of the ledger.

## Main definitions

* `Obj.hasKey`: a key anywhere beneath a value.
* `FilesClean`: a document without `content_b64` beneath `hp_data.files`.
* `BinaryBare`: a row that does not carry the bytes of a binary.
* `BytesStay`: what is wanted of the documents a record is written as.
* `OnlyInItems`: where `content_b64` may stand.
* `SendsOnly`: a program that sends documents with a property only.

## Main results

* `filesOf_enrichRecord`: the files of the session document, on both paths.
* `binaryBare_modelDump`: the rows of the ledger.
* `sendsOnly_handleRecord`: the handler sends nothing but the documents of the record.
* `bytesStay_iff`: when the inlined bytes are not written.
-/

namespace C2Engine

open Python

/-! ### Keys beneath a value -/

namespace Python.Obj

variable {k : Key}

mutual

/-- The key stands in a mapping somewhere beneath the value. -/
def hasKey (k : Key) : Obj → Bool
  | list xs => listHasKey k xs
  | map kvs => itemsHaveKey k kvs
  | none | bool _ | int _ | float _ | str _ | bytes _ | ext _ _ | timestamp _ _ => false

/-- `hasKey` of some element of a list. -/
def listHasKey (k : Key) : List Obj → Bool
  | [] => false
  | x :: xs => hasKey k x || listHasKey k xs

/-- The key is one of a dictionary, or stands beneath one of its values. -/
def itemsHaveKey (k : Key) : List (Key × Obj) → Bool
  | [] => false
  | kv :: kvs => kv.1 = k || hasKey k kv.2 || itemsHaveKey k kvs

end

theorem hasKey_list (xs : List Obj) : (list xs).hasKey k ↔ ∃ x ∈ xs, x.hasKey k := by
  induction xs with
  | nil => simp [hasKey, listHasKey]
  | cons x xs ih =>
    rw [hasKey] at ih ⊢
    simp [listHasKey, ih]

theorem hasKey_map (d : Dict) : (map d).hasKey k ↔ ∃ kv ∈ d, kv.1 = k ∨ kv.2.hasKey k := by
  induction d with
  | nil => simp [hasKey, itemsHaveKey]
  | cons kv d ih =>
    rw [hasKey] at ih ⊢
    simp [itemsHaveKey, ih]

end Python.Obj

/-! ### What is wanted -/

/-- The value of `hp_data.files`, where `hp_data` is a mapping. -/
def filesOf (doc : Dict) : Option Obj := (hpDataOf doc).get (key "files")

/-- There is no `content_b64` beneath `hp_data.files`. -/
def FilesClean (doc : Dict) : Prop :=
  ∀ files, filesOf doc = some files → ¬ files.hasKey (key "content_b64")

/-- The row of a file classified as binary has no content. -/
def BinaryBare (row : Dict) : Prop :=
  row.get (key "file_kind") = some (.str (FileKind.name .binary)) → row.get (key "content") = none

/-- **The inlined bytes stay out** of the documents a record is written as: its session document
has none beneath its files, and its rows not those of a binary. -/
def BytesStay (rt : Runtime) (geo : Option GeoEnricher) (tag : PyStr) (record : Dict) : Prop :=
  ∀ doc rows, recordDocs rt geo tag record = some (doc :: rows) →
    FilesClean doc ∧ ∀ row ∈ rows, BinaryBare row

/-- An item of the files with `content_b64` as a key of its own at most. -/
def DirectOnly : Obj → Prop
  | .map d => ∀ kv ∈ d, kv.1 ≠ key "content_b64" → ¬ kv.2.hasKey (key "content_b64")
  | v => ¬ v.hasKey (key "content_b64")

/-- Files that are a list with `content_b64` as a key of its items at most, or else a value without
it. -/
def OnlyInItems : Obj → Prop
  | .list xs => ∀ x ∈ xs, DirectOnly x
  | v => ¬ v.hasKey (key "content_b64")

/-! ### The session document -/

theorem hasKey_stripFile (v : Obj) : ¬ (stripFile v).hasKey (key "content_b64") ↔ DirectOnly v := by
  cases v with
  | map d =>
    rw [stripFile, Obj.hasKey_map]
    simp only [Dict.erase, List.mem_filter, decide_eq_true_eq, DirectOnly]
    grind
  | _ => exact Iff.rfl

theorem hasKey_stripItems (v : Obj) :
    ¬ (stripItems v).hasKey (key "content_b64") ↔ OnlyInItems v := by
  cases v with
  | list xs =>
    rw [stripItems, Obj.hasKey_list, OnlyInItems]
    simp only [← hasKey_stripFile, List.mem_map]
    grind
  | _ => exact Iff.rfl

/-- What cannot be run over has nothing beneath it. -/
theorem onlyInItems_of_notIterable {v : Obj} (h : NotIterable v) : OnlyInItems v := by
  cases v <;> simp_all [NotIterable, OnlyInItems, Obj.hasKey]

theorem filesOf_dropContent (raw : Dict) :
    filesOf (dropContent raw) = (filesOf raw).map stripItems := by
  rw [filesOf, filesOf, hpDataOf, hpDataOf, dropContent, Dict.get_modify_self]
  cases raw.get (key "hp_data") with
  | none => rfl
  | some v =>
    cases v with
    | map hp => exact Dict.get_modify_self hp (key "files") stripItems
    | _ => rfl

/-- **The files of the session document**: on both paths those of the record, but for the key in
its items. -/
theorem filesOf_enrichRecord {rt : Runtime} {geo : Option GeoEnricher} {record doc : Dict}
    {rows : List Dict} (h : enrichRecord rt geo record = .ok (doc, rows)) :
    filesOf doc = (filesOf record).map stripItems := by
  rcases enrichRecord_eq_ok h with ⟨e, hprocess, rfl, -⟩ | ⟨hstrip, -⟩
  · obtain ⟨session, ctx, hp, -, -, hstrip, hdoc⟩ := enrichedDoc_of_process hprocess
    have hget := get_update_hpDataFields rt session ctx hp
      (show "files" ∉ enrichmentNames by decide)
    rw [filesOf, hdoc, hpDataOf_enrichedDoc, hget, stripFiles_eq_ok hstrip, Dict.get_modify_self,
      filesOf]
  · rw [stripCopy_eq_ok (stripBytes_eq_ok.mp hstrip).2, filesOf_dropContent]

theorem filesOf_withTag (tag : PyStr) (doc : Dict) :
    filesOf (EsWriter.withTag tag doc) = filesOf doc := by
  rw [EsWriter.withTag]
  split_ifs
  · rfl
  · rw [filesOf, hpDataOf, Dict.get_set_ne doc _ (by simp)]
    rfl

/-! ### The rows -/

/-- The columns of a binary have no content. -/
theorem content_of_servedPayload {rt : Runtime} {obs o : C2Observation} {data : Bytes}
    (h : servedPayload rt obs data = .ok o) (hobs : obs.content = none)
    (hkind : o.fileKind = some .binary) : o.content = none := by
  simp only [servedPayload, classifyPayload, bind_eq_ok, pure, Except.pure, Except.ok.injEq] at h
  obtain ⟨magic, -, hosts, -, rfl⟩ := h
  rcases hpayload : payloadText magic data with ⟨kind, text⟩
  simp only [hpayload] at hkind ⊢
  cases kind with
  | binary => exact hobs
  | script =>
    dsimp only at hkind
    split_ifs at hkind <;> cases hkind

theorem content_of_mem_rows {rt : Runtime} {session : SessionIn} {ctx : SessionContext}
    {rows : List C2Observation} (h : allObservations rt session ctx = .ok rows)
    {o : C2Observation} (ho : o ∈ rows) (hkind : o.fileKind = some .binary) :
    o.content = none := by
  cases (mem_allObservations h).mp ho with
  | reference => rfl
  | served _ hfile =>
    cases servedAs_of_eq hfile with
    | bare => rfl
    | payload _ _ _ hrow => exact content_of_servedPayload hrow rfl hkind
  | callback => rfl

theorem binaryBare_modelDump (rt : Runtime) {o : C2Observation}
    (h : o.fileKind = some .binary → o.content = none) (tag : PyStr) :
    BinaryBare (EsWriter.withTag tag (o.modelDump rt)) := by
  have hkind : (o.modelDump rt).get (key "file_kind") =
      o.fileKind.map fun kind => .str (FileKind.name kind) := by
    unfold C2Observation.modelDump
    simp only [Dict.get_append, get_dumpField, String.reduceEq, if_false,
      if_true, Option.none_or, Option.or_none]
  have hcontent : (o.modelDump rt).get (key "content") = o.content.map .str := by
    unfold C2Observation.modelDump
    simp only [Dict.get_append, get_dumpField, String.reduceEq, if_false,
      if_true, Option.none_or, Option.or_none]
  have htag (name : String) (hname : ¬ name = "fluentd_tag") :
      (EsWriter.withTag tag (o.modelDump rt)).get (key name) = (o.modelDump rt).get (key name) := by
    rw [EsWriter.withTag]
    split_ifs
    · rfl
    · rw [Dict.get_set_ne _ _ (by rwa [ne_eq, key_inj])]
  unfold BinaryBare
  rw [htag "file_kind" (by decide), htag "content" (by decide), hkind, hcontent]
  intro hbinary
  obtain ⟨kind, hkind, hname⟩ := Option.map_eq_some_iff.mp hbinary
  cases kind with
  | binary => rw [h hkind, Option.map_none]
  | script => exact absurd (Obj.str.inj hname) (by decide)

/-- The rows of a record do not carry the bytes of a binary. -/
theorem binaryBare_of_enrichRecord {rt : Runtime} {geo : Option GeoEnricher} {record doc : Dict}
    {rows : List Dict} (h : enrichRecord rt geo record = .ok (doc, rows)) (tag : PyStr) :
    ∀ row ∈ rows, BinaryBare (EsWriter.withTag tag row) := by
  rcases enrichRecord_eq_ok h with ⟨e, hprocess, -, rfl⟩ | ⟨-, rfl⟩
  · obtain ⟨session, hvalid, -⟩ := bind_eq_ok.mp hprocess
    obtain ⟨ctx, obs, -, hobs, hrows⟩ := observations_of_process hvalid hprocess
    rw [hrows, locateRows_eq_map]
    intro row hrow
    obtain ⟨located, hlocated, rfl⟩ := List.mem_map.mp hrow
    obtain ⟨o, ho, rfl⟩ := List.mem_map.mp hlocated
    -- a location is in none of the columns of the file
    obtain ⟨point, country, asn, org, hlocate⟩ := locateRow_eq geo o
    have hcontent := content_of_mem_rows hobs ho
    refine binaryBare_modelDump rt ?_ tag
    rw [hlocate]
    exact hcontent
  · exact nofun

/-! ### What the handler sends -/

/-- Events appended to a trace in which only documents with a property are sent. -/
def Appended (P : Dict → Prop) (t : List Event) (w : Wire) : Prop :=
  ∃ evs, w.trace = t ++ evs ∧ ∀ index doc outcome, .request index doc outcome ∈ evs → P doc

/-- A program that sends documents with a property only, however it ends. -/
def SendsOnly {α : Type} (P : Dict → Prop) (m : Prog Wire α) : Prop :=
  ∀ t, Prog.Triple (fun w => w.trace = t) m (fun _ => Appended P t) fun _ => Appended P t

namespace SendsOnly

variable {α β : Type} {P : Dict → Prop}

theorem appended_self {t : List Event} {w : Wire} (h : w.trace = t) : Appended P t w :=
  ⟨[], by rw [h, List.append_nil], by simp⟩

theorem pure (a : α) : SendsOnly P (Pure.pure a) := fun _ => Prog.Triple.pure fun _ => appended_self

theorem ofExcept (x : Except PyExc α) : SendsOnly P (Prog.ofExcept x) := fun _ =>
  Prog.Triple.ofExcept (fun _ _ _ => appended_self) fun _ _ _ => appended_self

theorem bind {m : Prog Wire α} {f : α → Prog Wire β} (hm : SendsOnly P m)
    (hf : ∀ a, SendsOnly P (f a)) : SendsOnly P (m >>= f) := by
  intro t
  refine Prog.Triple.bind (hm t) fun a w hw => ?_
  obtain ⟨evs, htrace, hevs⟩ := hw
  have hjoin (w' : Wire) (h : Appended P (t ++ evs) w') : Appended P t w' := by
    obtain ⟨evs', htrace', hevs'⟩ := h
    refine ⟨evs ++ evs', by rw [htrace', List.append_assoc], fun index doc outcome hmem => ?_⟩
    exact (List.mem_append.mp hmem).elim (hevs index doc outcome) (hevs' index doc outcome)
  exact (hf a (t ++ evs)).weaken (fun _ h => h) (fun _ => hjoin) (fun _ => hjoin) w htrace

theorem forM {body : β → Prog Wire Unit} : (xs : List β) → (∀ x ∈ xs, SendsOnly P (body x)) →
    SendsOnly P (Prog.forM xs body)
  | [], _ => pure ()
  | x :: xs, h =>
      (h x List.mem_cons_self).bind fun _ => forM xs fun y hy => h y (List.mem_cons_of_mem x hy)

theorem giveUp (doc : Dict) (e : PyExc) : SendsOnly P (EsWriter.giveUp doc e) := by
  rintro t w rfl
  exact ⟨[.gaveUp doc], rfl, by simp⟩

theorem request {index : PyStr} {doc : Dict} (h : P doc) : SendsOnly P (request index doc) := by
  rintro t w rfl
  refine ⟨[.request index doc (w.answers 0)], rfl, fun _ doc' _ hmem => ?_⟩
  obtain ⟨-, rfl, -⟩ := Event.request.inj (List.mem_singleton.mp hmem)
  exact h

theorem write (rt : Runtime) (indexPrefix : PyStr) {doc : Dict} (h : P doc) :
    SendsOnly P (EsWriter.write rt indexPrefix doc) := by
  refine (ofExcept _).bind fun name => ?_
  unfold EsWriter.index
  split
  · refine attempts_rule (P := SendsOnly P) (giveUp doc) (fun f haccept hreject => ?_) 4
    refine (request h).bind fun o => ?_
    cases ho : o.accepts with
    | true =>
      rw [haccept o ho]
      exact pure ()
    | false => exact hreject o ho
  · exact giveUp doc _

end SendsOnly

/-- **The handler sends the documents of the record only.** -/
theorem sendsOnly_handleRecord (rt : Runtime) (geo : Option GeoEnricher) (tag : PyStr)
    (record : Dict) :
    SendsOnly (fun doc => ∃ docs, recordDocs rt geo tag record = some docs ∧ doc ∈ docs)
      (handleRecord rt geo tag record) := by
  unfold handleRecord recordDocs
  split_ifs
  · exact SendsOnly.pure ()
  · cases enrichRecord rt geo record with
    | error e => exact fun t w hw => SendsOnly.appended_self hw
    | ok out =>
      obtain ⟨doc, rows⟩ := out
      change SendsOnly _ (EsWriter.writeSession rt doc tag >>= fun _ =>
        if rows.isEmpty then pure () else EsWriter.writeObservations rt rows tag)
      refine SendsOnly.bind (SendsOnly.write rt _ ⟨_, rfl, List.mem_cons_self⟩) fun _ => ?_
      split_ifs
      · exact SendsOnly.pure ()
      · refine SendsOnly.forM rows fun row hrow => SendsOnly.write rt _ ⟨_, rfl, ?_⟩
        exact List.mem_cons_of_mem _ (List.mem_map_of_mem hrow)

/-! ### The documents of a record -/

theorem recordDocs_eq_some {rt : Runtime} {geo : Option GeoEnricher} {tag : PyStr}
    {record doc : Dict} {rows : List Dict} (h : recordDocs rt geo tag record = some (doc :: rows)) :
    ∃ doc' rows', enrichRecord rt geo record = .ok (doc', rows') ∧
      doc = EsWriter.withTag tag doc' ∧ rows = rows'.map (EsWriter.withTag tag) := by
  unfold recordDocs at h
  split_ifs at h
  · cases h
  cases henrich : enrichRecord rt geo record with
  | error err =>
    rw [henrich] at h
    cases h
  | ok out =>
    rw [henrich] at h
    obtain ⟨rfl, rfl⟩ := List.cons_eq_cons.mp (Option.some.inj h)
    exact ⟨out.1, out.2, rfl, rfl, rfl⟩

/-- **When the inlined bytes are not written.** The handler sends the documents of the record only,
and these are without the inlined bytes exactly when the record cannot be copied, so that there are
none, or its files have the bytes where the loop finds them. -/
theorem bytesStay_iff (rt : Runtime) (geo : Option GeoEnricher) (tag : PyStr) (record : Dict)
    (htag : isEnrichable tag) :
    SendsOnly (fun doc => ∃ docs, recordDocs rt geo tag record = some docs ∧ doc ∈ docs)
        (handleRecord rt geo tag record) ∧
      (BytesStay rt geo tag record ↔ ((Obj.map record).copies rt.stripCalls →
        ∀ files, filesOf record = some files → OnlyInItems files)) := by
  refine ⟨sendsOnly_handleRecord rt geo tag record, ?_⟩
  constructor
  · intro h hcopies files hfiles
    by_cases hok : (enrichRecord rt geo record).isOk
    · obtain ⟨⟨doc, rows⟩, henrich⟩ := isOk_iff.mp hok
      have hdocs : recordDocs rt geo tag record =
          some (EsWriter.withTag tag doc :: rows.map (EsWriter.withTag tag)) := by
        rw [recordDocs, henrich, htag]
        rfl
      have hclean := (h _ _ hdocs).1 (stripItems files)
      rw [filesOf_withTag, filesOf_enrichRecord henrich, hfiles] at hclean
      exact (hasKey_stripItems files).mp (hclean rfl)
    · have hiterable : ¬ FilesIterable record := fun hfiles =>
        hok ((isOk_enrichRecord rt geo record).mpr ⟨hcopies, hfiles⟩)
      simp only [FilesIterable, not_forall, not_not] at hiterable
      obtain ⟨hp, hhp, v, hv, hnot⟩ := hiterable
      rw [filesOf, hpDataOf, hhp, Option.bind_some, Obj.asMap?, Option.getD_some, hv] at hfiles
      obtain rfl := Option.some.inj hfiles
      exact onlyInItems_of_notIterable hnot
  · intro h doc rows hdocs
    obtain ⟨doc', rows', henrich, rfl, rfl⟩ := recordDocs_eq_some hdocs
    have hcopies := ((isOk_enrichRecord rt geo record).mp (isOk_iff.mpr ⟨_, henrich⟩)).1
    refine ⟨fun files hfiles => ?_, fun row hrow => ?_⟩
    · rw [filesOf_withTag, filesOf_enrichRecord henrich] at hfiles
      obtain ⟨v, hv, rfl⟩ := Option.map_eq_some_iff.mp hfiles
      exact (hasKey_stripItems v).mpr (h hcopies v hv)
    · obtain ⟨row', hrow', rfl⟩ := List.mem_map.mp hrow
      exact binaryBare_of_enrichRecord henrich tag row' hrow'

/-- A record with the given files. -/
def filesRecord (files : Obj) : Dict := [(key "hp_data", .map [(key "files", files)])]

/-- A record with a file and its inlined bytes. -/
def inlinedRecord : Dict :=
  filesRecord (.list [.map [(key "content_b64", .str (str "AAAA"))]])

theorem bytesStay_iff_list :
    SendsOnly (fun doc => ∃ docs, recordDocs .basic none (str "stingar.enrichable.cowrie")
          inlinedRecord = some docs ∧ doc ∈ docs)
        (handleRecord .basic none (str "stingar.enrichable.cowrie") inlinedRecord) ∧
      (BytesStay .basic none (str "stingar.enrichable.cowrie") inlinedRecord ↔
        ((Obj.map inlinedRecord).copies Runtime.basic.stripCalls →
          ∀ files, filesOf inlinedRecord = some files → OnlyInItems files)) :=
  bytesStay_iff _ _ _ _ (by decide)

/-- Files that are a mapping are written with the inlined bytes beneath it. -/
theorem not_bytesStay_mapping : isEnrichable (str "stingar.enrichable.cowrie") ∧
    ¬ BytesStay .basic none (str "stingar.enrichable.cowrie")
      (filesRecord (.map [(key "x", .map [(key "content_b64", .str (str "AAAA"))])])) := by
  refine ⟨by decide, fun h => ?_⟩
  have hdocs : recordDocs .basic none (str "stingar.enrichable.cowrie")
      (filesRecord (.map [(key "x", .map [(key "content_b64", .str (str "AAAA"))])])) =
      some [EsWriter.withTag (str "stingar.enrichable.cowrie")
        (filesRecord (.map [(key "x", .map [(key "content_b64", .str (str "AAAA"))])]))] := rfl
  exact (h _ _ hdocs).1 _ rfl (by decide)

end C2Engine
