import C2Engine.Elastic.Requests
import C2Engine.Python.Join
import C2Engine.Python.JsonWrite
import C2Engine.Python.Quote
import Mathlib.Data.List.ReduceOption

/-!
# Requests in text

The two requests of `elastic/client.py` that write under an identifier, as they are sent.
`index_doc` puts the identifier into the path, quoted, and `bulk_index` puts it into a line of JSON
in front of the line of the document. Elasticsearch reads the path and the lines again.

The reason job is modelled over an `Index`, whose documents are values of their own types. What is
said here connects the two: a server that reads the requests and keeps JSON objects holds, after
any sequence of writes, the objects of exactly the documents the index holds.

## Main definitions

* `HttpRequest`, `EsWriter.indexDocRequest`, `EsWriter.bulkRequest`: the requests.
* `Shards`, `HttpRequest.documents`, `Shards.carryOut`: the side of Elasticsearch.
* `Write`, `Holds`: the writes of the reason job, and the relation between the two stores.

## Main results

* `documents_indexDocRequest`, `documents_bulkRequest`: a request is read as what it was made of.
* `holds_writes`: the relation is kept by every sequence of writes.
-/

namespace C2Engine

open Python Store

/-! ### The requests -/

/-- A request; the path is the one behind the address of the server. -/
structure HttpRequest where
  method : PyStr
  path : PyStr
  body : Bytes

namespace EsWriter

variable (ft : Json.FloatText)

/-- `json.dumps(v)`. -/
def dumps (v : Obj) : Except PyExc PyStr :=
  if v.isJson then .ok (Json.write ft v) else .error .typeError

/-- The request of `index_doc`. -/
def indexDocRequest (index docId : PyStr) (doc : Dict) : Except PyExc HttpRequest := do
  let id ← quote docId
  let text ← dumps ft (.map doc)
  let body ← utf8Encode text
  return ⟨str "PUT", index ++ str "/_doc/" ++ id, body⟩

/-- The line in front of a document of a bulk request. -/
def bulkAction (index docId : PyStr) : Dict :=
  [(key "index", .map [(key "_index", .str index), (key "_id", .str docId)])]

/-- The lines of a bulk request. -/
def bulkLines (index : PyStr) : List (PyStr × Dict) → Except PyExc (List PyStr)
  | [] => .ok []
  | (docId, doc) :: docs => do
    let action ← dumps ft (.map (bulkAction index docId))
    let source ← dumps ft (.map doc)
    let lines ← bulkLines index docs
    return action :: source :: lines

/-- The request of `bulk_index`; without documents there is none. -/
def bulkRequest (index : PyStr) (docs : List (PyStr × Dict)) : Except PyExc (Option HttpRequest) :=
  if docs.isEmpty then .ok none
  else do
    let lines ← bulkLines ft index docs
    let body ← utf8Encode (PyStr.join [cp '\n'] lines ++ [cp '\n'])
    return some ⟨str "POST", str "_bulk?refresh=true", body⟩

end EsWriter

/-! ### The side of Elasticsearch -/

/-- A JSON object with its index and its identifier. -/
abbrev Stored := PyStr × PyStr × Dict

/-- The JSON object of a text, with a limit on the nesting. -/
def readObject (depth : ℕ) (text : PyStr) : Option Dict :=
  (jsonLoads depth text).toOption.bind Obj.asMap?

/-- The index and the identifier in a line of a bulk request. -/
def readAction (depth : ℕ) (line : PyStr) : Option (PyStr × PyStr) := do
  let d ← readObject depth line
  let action ← (d.get (key "index")).bind Obj.asMap?
  let index ← (Dict.get action (key "_index")).bind Obj.asStr?
  let id ← (Dict.get action (key "_id")).bind Obj.asStr?
  return (index, id)

/-- The documents in the lines of a bulk request. -/
def readPairs (depth : ℕ) : List PyStr → Option (List Stored)
  | [] => some []
  | [_] => none
  | action :: source :: lines => do
    let (index, id) ← readAction depth action
    let doc ← readObject depth source
    let docs ← readPairs depth lines
    return (index, id, doc) :: docs

/-- The documents of a bulk request, whose last line has to end with a line feed. -/
def readBulk (depth : ℕ) (body : Bytes) : Option (List Stored) := do
  let text ← utf8Decode body
  if text.getLast? = some (cp '\n') then readPairs depth (PyStr.split (cp '\n') text.dropLast)
  else none

/-- The documents a request asks Elasticsearch to store. -/
def HttpRequest.documents (depth : ℕ) (r : HttpRequest) : Option (List Stored) :=
  let path := r.path.takeWhile (· ≠ cp '?')
  if r.method = str "PUT" then
    match PyStr.split (cp '/') path with
    | [index, kind, id] =>
      if kind = str "_doc" then do
        let id ← unquotePart id
        let text ← utf8Decode r.body
        let doc ← readObject depth text
        return [(index, id, doc)]
      else none
    | _ => none
  else if r.method = str "POST" ∧ path = str "_bulk" then readBulk depth r.body
  else none

/-- The objects Elasticsearch keeps, by index and identifier. -/
abbrev Shards := PyStr → PyStr → Option Dict

namespace Shards

/-- Store an object. -/
def put (t : Shards) (d : Stored) : Shards := fun index id =>
  if index = d.1 ∧ id = d.2.1 then some d.2.2 else t index id

/-- Carry out a request; one that asks for something else is refused. -/
def carryOut (depth : ℕ) (t : Shards) (r : HttpRequest) : Option Shards :=
  (r.documents depth).map fun docs => docs.foldl put t

end Shards

/-! ### Requests are read as they were made -/

/-- A name of an index: it can stand in a path as it is. -/
def IsIndexName (index : PyStr) : Prop := index ≠ [] ∧ index.all isAlwaysSafe

/-- A document that can be sent: its identifier can be encoded, and its JSON text is read as it. -/
structure Sendable (depth : ℕ) (docId : PyStr) (doc : Dict) : Prop where
  encodable : docId.Encodable
  faithful : Json.Faithful depth (.map doc)

section Reading

variable (ft : Json.FloatText) {depth : ℕ} {index docId : PyStr} {doc : Dict}

theorem dumps_of_faithful {v : Obj} (h : Json.Faithful depth v) :
    EsWriter.dumps ft v = .ok (Json.write ft v) := if_pos h.isJson

theorem readObject_write (h : Json.Faithful depth (.map doc)) :
    readObject depth (Json.write ft (.map doc)) = some doc := by
  rw [readObject, jsonLoads_write ft h]
  rfl

/-- Printable ASCII in bytes. -/
theorem utf8Encode_of_printable {s : PyStr} (h : Json.Printable s) :
    ∃ data, utf8Encode s = .ok data ∧ utf8Decode data = some s := by
  obtain ⟨data, hdata⟩ := isOk_iff.mp ((isOk_utf8Encode s).mpr h.encodable)
  exact ⟨data, hdata, utf8Decode_of_utf8Encode hdata⟩

theorem IsIndexName.notMem (h : IsIndexName index) {c : CodePoint} (hc : isAlwaysSafe c = false) :
    c ∉ index := fun hmem => by
  rw [List.all_eq_true.mp h.2 c hmem] at hc
  cases hc

theorem IsIndexName.encodable (h : IsIndexName index) : index.Encodable := fun c hc => by
  have hval := val_of_isAlwaysSafe (List.all_eq_true.mp h.2 c hc)
  rw [CodePoint.isSurrogate, Bool.and_eq_false_iff, decide_eq_false_iff_not]
  omega

/-- **The request of `index_doc`** asks for its document under its identifier. -/
theorem documents_indexDocRequest (hindex : IsIndexName index) (h : Sendable depth docId doc) :
    ∃ r, EsWriter.indexDocRequest ft index docId doc = .ok r ∧
      r.documents depth = some [(index, docId, doc)] := by
  obtain ⟨id, hid⟩ := isOk_iff.mp ((isOk_quote docId).mpr h.encodable)
  obtain ⟨body, hbody, hdecode⟩ := utf8Encode_of_printable (Json.printable_write ft (.map doc))
  obtain ⟨hslash, hquery⟩ := notMem_of_quote hid
  refine ⟨⟨str "PUT", index ++ str "/_doc/" ++ id, body⟩, ?_, ?_⟩
  · rw [EsWriter.indexDocRequest, hid, dumps_of_faithful ft h.faithful]
    change (utf8Encode _ >>= _) = _
    rw [hbody]
    rfl
  · have hjoin : index ++ str "/_doc/" ++ id = PyStr.join [cp '/'] [index, str "_doc", id] := by
      simp [PyStr.join, str_eq]
    have hpath : (index ++ str "/_doc/" ++ id).takeWhile (· ≠ cp '?') =
        index ++ str "/_doc/" ++ id := by
      refine List.takeWhile_eq_self_iff.mpr fun c hc => decide_eq_true ?_
      rintro rfl
      have hindex' := hindex.notMem (show isAlwaysSafe (cp '?') = false by decide)
      simp only [List.mem_append, hquery, hindex', or_false, false_or] at hc
      exact absurd hc (by decide)
    have hsplit : PyStr.split (cp '/') (index ++ str "/_doc/" ++ id) = [index, str "_doc", id] := by
      rw [hjoin, PyStr.split_join (List.cons_ne_nil _ _)]
      refine List.forall_mem_cons.mpr ⟨hindex.notMem (by decide), List.forall_mem_cons.mpr
        ⟨by decide, List.forall_mem_singleton.mpr hslash⟩⟩
    simp only [HttpRequest.documents, hpath, hsplit, if_true]
    rw [unquotePart_of_quote hid, hdecode]
    change (readObject depth _).bind _ = _
    rw [readObject_write ft h.faithful]
    rfl

theorem faithful_bulkAction (hindex : IsIndexName index) (hid : docId.Encodable) :
    Json.Faithful (depth + 2) (.map (EsWriter.bulkAction index docId)) := by
  have hname := Json.paired_of_encodable hindex.encodable
  have hpaired := Json.paired_of_encodable hid
  have hkey : ∀ t : String, Json.Paired (str t) → ∃ s, key t = .str s ∧ Json.Paired s :=
    fun t h => ⟨str t, rfl, h⟩
  refine .map ?_ (List.nodup_singleton _) ?_
  · exact List.forall_mem_singleton.mpr (hkey "index" (by decide))
  · refine List.forall_mem_singleton.mpr (.map ?_ (by simp) ?_)
    · exact List.forall_mem_cons.mpr ⟨hkey "_index" (by decide),
        List.forall_mem_singleton.mpr (hkey "_id" (by decide))⟩
    · exact List.forall_mem_cons.mpr ⟨.str hname, List.forall_mem_singleton.mpr (.str hpaired)⟩

/-- The line in front of a document is read as its index and its identifier. -/
theorem readAction_bulkAction (hindex : IsIndexName index) (hid : docId.Encodable) :
    readAction (depth + 2) (Json.write ft (.map (EsWriter.bulkAction index docId))) =
      some (index, docId) := by
  rw [readAction, readObject_write ft (faithful_bulkAction hindex hid)]
  rfl

/-- The lines of a bulk request are read as its documents. -/
theorem readPairs_bulkLines (hindex : IsIndexName index) : (docs : List (PyStr × Dict)) →
    (∀ d ∈ docs, Sendable (depth + 2) d.1 d.2) → ∃ lines,
      EsWriter.bulkLines ft index docs = .ok lines ∧ (∀ l ∈ lines, Json.Printable l) ∧
        readPairs (depth + 2) lines = some (docs.map fun d => (index, d.1, d.2))
  | [], _ => ⟨[], rfl, List.forall_mem_nil _, rfl⟩
  | (docId, doc) :: docs, h => by
      obtain ⟨hd, hdocs⟩ := List.forall_mem_cons.mp h
      obtain ⟨lines, hlines, hprintable, hread⟩ := readPairs_bulkLines hindex docs hdocs
      have haction : Json.Faithful (depth + 2) (.map (EsWriter.bulkAction index docId)) :=
        faithful_bulkAction hindex hd.encodable
      refine ⟨Json.write ft (.map (EsWriter.bulkAction index docId)) :: Json.write ft (.map doc) ::
        lines, ?_, ?_, ?_⟩
      · rw [EsWriter.bulkLines, dumps_of_faithful ft haction, dumps_of_faithful ft hd.faithful,
          hlines]
        rfl
      · exact List.forall_mem_cons.mpr ⟨Json.printable_write ft _,
          List.forall_mem_cons.mpr ⟨Json.printable_write ft _, hprintable⟩⟩
      · rw [readPairs, readAction_bulkAction ft hindex hd.encodable]
        change (readObject (depth + 2) _).bind _ = _
        rw [readObject_write ft hd.faithful]
        change (readPairs (depth + 2) lines).bind _ = _
        rw [hread]
        rfl

/-- **The request of `bulk_index`** asks for its documents under their identifiers. -/
theorem documents_bulkRequest (hindex : IsIndexName index) {docs : List (PyStr × Dict)}
    (hne : docs ≠ []) (h : ∀ d ∈ docs, Sendable (depth + 2) d.1 d.2) :
    ∃ r, EsWriter.bulkRequest ft index docs = .ok (some r) ∧
      r.documents (depth + 2) = some (docs.map fun d => (index, d.1, d.2)) := by
  obtain ⟨lines, hlines, hprintable, hread⟩ := readPairs_bulkLines ft hindex docs h
  have hlines_ne : lines ≠ [] := by
    rintro rfl
    exact hne (List.map_eq_nil_iff.mp (Option.some.inj hread).symm)
  have hencodable : (PyStr.join [cp '\n'] lines ++ [cp '\n']).Encodable :=
    (PyStr.encodable_append _ _).mpr ⟨(PyStr.encodable_join (by decide) lines).mpr fun l hl =>
      (hprintable l hl).encodable, by decide⟩
  obtain ⟨body, hbody⟩ := isOk_iff.mp ((isOk_utf8Encode _).mpr hencodable)
  refine ⟨⟨str "POST", str "_bulk?refresh=true", body⟩, ?_, ?_⟩
  · rw [EsWriter.bulkRequest, if_neg (by simpa using hne), hlines]
    change (utf8Encode _ >>= _) = _
    rw [hbody]
    rfl
  · have hmethod : str "POST" ≠ str "PUT" := by decide
    have hpath : (str "_bulk?refresh=true").takeWhile (· ≠ cp '?') = str "_bulk" := by decide
    simp only [HttpRequest.documents, hpath, if_neg hmethod, if_true, and_self]
    rw [readBulk, utf8Decode_of_utf8Encode hbody]
    change (if _ = _ then _ else _) = _
    rw [if_pos List.getLast?_concat, List.dropLast_concat,
      PyStr.split_join hlines_ne fun l hl => (hprintable l hl).notMem, hread]

end Reading

/-! ### Two stores -/

/-- A write under identifiers. -/
inductive Write (δ : Type) where
  /-- `index_doc`. -/
  | doc (d : δ)
  /-- `bulk_index`. -/
  | bulk (ds : List δ)

namespace Write

variable {δ : Type}

/-- The documents of a write. -/
def docs : Write δ → List δ
  | doc d => [d]
  | bulk ds => ds

/-- The request of a write into an index, if there is one. -/
def request (ft : Json.FloatText) (index : PyStr) (idOf : δ → PyStr) (dump : δ → Dict) :
    Write δ → Except PyExc (Option HttpRequest)
  | doc d => (EsWriter.indexDocRequest ft index (idOf d) (dump d)).map some
  | bulk ds => EsWriter.bulkRequest ft index (ds.map fun d => (idOf d, dump d))

/-- The index after writes. -/
def after {idOf : δ → PyStr} (ws : List (Write δ)) (s : Index idOf) : Index idOf :=
  ws.foldl (fun s w => s.putAll w.docs) s

end Write

/-- Carry out requests, one after the other. -/
def Shards.carryOutAll (depth : ℕ) : List HttpRequest → Shards → Option Shards
  | [], t => some t
  | r :: rs, t => (t.carryOut depth r).bind (carryOutAll depth rs)

/-- A store holds the objects of exactly the documents of an index, under their identifiers. -/
def Holds {δ : Type} {idOf : δ → PyStr} (index : PyStr) (dump : δ → Dict) (s : Index idOf)
    (t : Shards) : Prop := ∀ id, t index id = (s.get id).map dump

section Refinement

variable {δ : Type} {idOf : δ → PyStr} {dump : δ → Dict} {index : PyStr} (ft : Json.FloatText)
  {depth : ℕ} {s : Index idOf} {t : Shards}

/-- What is found after a document was written. -/
theorem get_put (s : Index idOf) (d : δ) (id : PyStr) :
    (s.put d).get id = if id = idOf d then some d else s.get id := by
  split_ifs with h
  · exact Index.get_eq_some_iff.mpr ⟨Index.mem_put.mpr (.inl rfl), h.symm⟩
  · refine Option.ext fun e => ?_
    rw [Index.get_eq_some_iff, Index.get_eq_some_iff, Index.mem_put]
    constructor
    · rintro ⟨rfl | ⟨he, -⟩, hid⟩
      · exact absurd hid.symm h
      · exact ⟨he, hid⟩
    · rintro ⟨he, rfl⟩
      exact ⟨.inr ⟨he, h⟩, rfl⟩

/-- One object more. -/
theorem Holds.put (h : Holds index dump s t) (d : δ) :
    Holds index dump (s.put d) (t.put (index, idOf d, dump d)) := by
  intro id
  rw [get_put, Shards.put]
  simp only [true_and]
  split_ifs
  · rfl
  · exact h id

/-- Several objects more; the other indices are left as they are. -/
theorem Holds.putAll : {ds : List δ} → {s : Index idOf} → {t : Shards} → Holds index dump s t →
    Holds index dump (s.putAll ds)
      ((ds.map fun d => (index, idOf d, dump d)).foldl Shards.put t)
  | [], _, _, h => h
  | d :: _, _, _, h => (h.put d).putAll

theorem foldl_put_ne {index' : PyStr} (hne : index' ≠ index) : (ds : List δ) → (t : Shards) →
    (ds.map fun d => (index, idOf d, dump d)).foldl Shards.put t index' = t index'
  | [], _ => rfl
  | d :: ds, t => by
      rw [List.map_cons, List.foldl_cons, foldl_put_ne hne ds]
      funext id
      exact if_neg fun h => hne h.1

/-- The request of a write asks for its documents. -/
theorem documents_request (hindex : IsIndexName index) (w : Write δ)
    (h : ∀ d ∈ w.docs, Sendable (depth + 2) (idOf d) (dump d)) :
    ∃ r, w.request ft index idOf dump = .ok r ∧
      ((r = none ∧ w.docs = []) ∨ ∃ r', r = some r' ∧
        r'.documents (depth + 2) = some (w.docs.map fun d => (index, idOf d, dump d))) := by
  cases w with
  | doc d =>
    obtain ⟨r, hr, hdocs⟩ := documents_indexDocRequest ft hindex
      (h d (List.mem_singleton_self d))
    exact ⟨some r, by rw [Write.request, hr]; rfl, .inr ⟨r, rfl, hdocs⟩⟩
  | bulk ds =>
    cases ds with
    | nil => exact ⟨none, rfl, .inl ⟨rfl, rfl⟩⟩
    | cons d ds =>
      have hsend : ∀ p ∈ (d :: ds).map fun d => (idOf d, dump d), Sendable (depth + 2) p.1 p.2 := by
        intro p hp
        obtain ⟨e, he, rfl⟩ := List.mem_map.mp hp
        exact h e he
      obtain ⟨r, hr, hdocs⟩ := documents_bulkRequest ft hindex (List.cons_ne_nil _ _) hsend
      refine ⟨some r, hr, .inr ⟨r, rfl, hdocs.trans ?_⟩⟩
      rw [← List.map_cons (f := fun d => (idOf d, dump d)), List.map_map]
      rfl

/-- **The reason job's writes, as text**: every sequence of writes has requests, a server that reads
them as text carries them all out, and it then holds exactly the documents of the index after the
writes; what it keeps under other indices is left as it was. -/
theorem holds_writes (hindex : IsIndexName index) : (ws : List (Write δ)) → {s : Index idOf} →
    {t : Shards} → (∀ w ∈ ws, ∀ d ∈ w.docs, Sendable (depth + 2) (idOf d) (dump d)) →
      Holds index dump s t → ∃ rs t',
        ws.mapM (fun w => w.request ft index idOf dump) = .ok rs ∧
          Shards.carryOutAll (depth + 2) rs.reduceOption t = some t' ∧
            Holds index dump (Write.after ws s) t' ∧ ∀ index' ≠ index, t' index' = t index'
  | [], _, t, _, h => ⟨[], t, rfl, rfl, h, fun _ _ => rfl⟩
  | w :: ws, s, t, hws, h => by
      obtain ⟨hw, hws⟩ := List.forall_mem_cons.mp hws
      obtain ⟨r, hr, hdocs⟩ := documents_request ft hindex w hw
      have hstep : Holds index dump (s.putAll w.docs) _ := h.putAll
      obtain ⟨rs, t', hrs, hrun, hholds, hframe⟩ := holds_writes hindex ws hws hstep
      refine ⟨r :: rs, t', ?_, ?_, hholds, fun index' hne => ?_⟩
      · rw [List.mapM_cons, hr, hrs]
        rfl
      · rcases hdocs with ⟨rfl, hnil⟩ | ⟨r', rfl, hdocs⟩
        · rw [hnil] at hrun
          rw [List.reduceOption_cons_of_none]
          exact hrun
        · rw [List.reduceOption_cons_of_some, Shards.carryOutAll, Shards.carryOut, hdocs]
          exact hrun
      · rw [hframe index' hne, foldl_put_ne hne]

end Refinement

/-- An entity whose identifier means something in a path, and two documents with one identifier. -/
theorem holds_writes_hosts :
    let ws : List (Write (PyStr × Dict)) :=
      [.doc (str "2001:db8::1/64?", [(key "stage", .str (str "stage2_c2"))]),
        .bulk [(str "é", [(key "n", .list [.int (-7), .none])]), (str "é", [])]]
    ∃ rs t', ws.mapM (fun w => w.request .units (str "c2-entities") Prod.fst Prod.snd) = .ok rs ∧
      Shards.carryOutAll 3 rs.reduceOption (fun _ _ => none) = some t' ∧
      Holds (str "c2-entities") Prod.snd
        (Write.after ws (Index.empty : Index (Prod.fst : PyStr × Dict → PyStr))) t' ∧
      ∀ index' ≠ str "c2-entities", t' index' = fun _ => none := by
  intro ws
  have hkey : ∀ (n : ℕ) (s : String) (v : Obj), Json.Paired (str s) → Json.Faithful n v →
      Json.Faithful (n + 1) (.map [(key s, v)]) := fun n s v hs hv =>
    .map (List.forall_mem_singleton.mpr ⟨str s, rfl, hs⟩) (List.nodup_singleton _)
      (List.forall_mem_singleton.mpr hv)
  have hstage : Sendable 3 (str "2001:db8::1/64?") [(key "stage", .str (str "stage2_c2"))] :=
    ⟨by decide, hkey 2 "stage" _ (by decide) (.str (by decide))⟩
  have hlist : Sendable 3 (str "é") [(key "n", .list [.int (-7), .none])] :=
    ⟨by decide, hkey 2 "n" _ (by decide) (.list (List.forall_mem_cons.mpr
      ⟨.int (by decide), List.forall_mem_singleton.mpr .none⟩))⟩
  have hempty : Sendable 3 (str "é") [] :=
    ⟨by decide, .map (List.forall_mem_nil _) List.nodup_nil (List.forall_mem_nil _)⟩
  exact holds_writes .units ⟨by decide, by decide⟩ ws (List.forall_mem_cons.mpr
    ⟨List.forall_mem_singleton.mpr hstage, List.forall_mem_singleton.mpr
      (List.forall_mem_cons.mpr ⟨hlist, List.forall_mem_singleton.mpr hempty⟩)⟩) fun _ => rfl

end C2Engine
