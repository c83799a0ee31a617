import C2Engine.Elastic.Client
import C2Engine.Store.Index

/-!
# The requests of the reason job

The helpers of `EsWriter` the reason job uses: `search`, `index_doc`, `delete_by_query` and
`bulk_index`. Each sends its request once and judges it by its HTTP status alone.

What a request does is not decided by its status. A request that was refused or not answered may
have been carried out in part, and a bulk request that was answered with a status below 300 may
have stored some of its documents only. A `Reply` says both: the outcome, and the parts that took
effect. Documents can be searched as soon as they are stored.

## Main definitions

* `Reply`: what becomes of a request.
* `EsWriter.search`, `EsWriter.searchOr`, `EsWriter.indexDoc`, `EsWriter.deleteByQuery`,
  `EsWriter.bulkIndex`: the helpers.
* `Reply.stored`: the documents of a bulk request that are stored.

## Main results

* `EsWriter.run_indexDoc`, `EsWriter.run_deleteByQuery`, `EsWriter.run_bulkIndex`: what each
  helper leaves behind, however it ends.
* `mem_stored`: what a bulk request stores.
-/

namespace C2Engine

open Python Store

/-- What becomes of a request. -/
structure Reply where
  outcome : Outcome
  /-- Whether the part for the `n`-th document of the request took effect, by its identifier. -/
  applied : ℕ → PyStr → Bool

namespace Reply

/-- Answered with a status below 300. -/
def accepts (r : Reply) : Bool := r.outcome.accepts

/-- The end of the helper that sent the request. -/
def result (r : Reply) : Except PyExc Unit :=
  match r.outcome with
  | .status code => if code < 300 then .ok () else .error .runtimeError
  | .unreachable => .error .urlError
  | .broken => .error .other

theorem result_eq_ok_iff {r : Reply} : r.result = .ok () ↔ r.accepts := by
  unfold result accepts
  cases r.outcome with
  | status code => by_cases h : code < 300 <;> simp [Outcome.accepts, h]
  | unreachable => simp [Outcome.accepts]
  | broken => simp [Outcome.accepts]

theorem result_of_accepts {r : Reply} (h : r.accepts) : r.result = .ok () :=
  result_eq_ok_iff.mpr h

/-- The documents of a bulk request that are stored. -/
def stored {δ : Type} (r : Reply) (idOf : δ → PyStr) (docs : List δ) : List δ :=
  (docs.zipIdx.filter fun d => r.applied d.2 (idOf d.1)).map Prod.fst

theorem mem_stored {δ : Type} {r : Reply} {idOf : δ → PyStr} {docs : List δ} {d : δ} :
    d ∈ r.stored idOf docs ↔ ∃ n, docs[n]? = some d ∧ r.applied n (idOf d) := by
  simp only [stored, List.mem_map, List.mem_filter, Prod.exists, List.mem_zipIdx_iff_getElem?]
  constructor
  · rintro ⟨e, n, ⟨he, happ⟩, rfl⟩
    exact ⟨n, he, happ⟩
  · rintro ⟨n, he, happ⟩
    exact ⟨d, n, ⟨he, happ⟩, rfl⟩

theorem stored_subset {δ : Type} {r : Reply} {idOf : δ → PyStr} {docs : List δ} :
    r.stored idOf docs ⊆ docs := by
  intro d hd
  obtain ⟨n, hn, -⟩ := mem_stored.mp hd
  exact List.mem_of_getElem? hn

/-- A bulk request all of whose parts took effect stores its documents. -/
theorem stored_of_applied {δ : Type} {r : Reply} {idOf : δ → PyStr} {docs : List δ}
    (h : ∀ n id, r.applied n id) : r.stored idOf docs = docs := by
  rw [stored, List.filter_eq_self.mpr fun d _ => h d.2 _, List.zipIdx_map_fst]

/-- A reply to a request that was carried out. -/
def done : Reply := ⟨.status 200, fun _ _ => true⟩

/-- A reply to a request that was refused. -/
def refused (code : ℕ) : Reply := ⟨.status code, fun _ _ => false⟩

end Reply

namespace EsWriter

/-- `search`, with the answer of the server as a function of what it holds. -/
def search {σ α : Type} (r : Reply) (answer : σ → α) : Prog σ α := do
  Prog.ofExcept r.result
  return answer (← Prog.get)

@[simp] theorem run_search {σ α : Type} (r : Reply) (answer : σ → α) (s : σ) :
    (search r answer).run s = (r.result.map fun _ => answer s, s) := by
  rw [search, Prog.run_bind, Prog.run_ofExcept]
  cases r.result with
  | error e => rfl
  | ok u => rfl

/-- A `search` whose refusal, a `RuntimeError`, the caller takes for the answer `missing` of an
index that does not exist yet. -/
def searchOr {σ α : Type} (r : Reply) (missing : α) (answer : σ → α) : Prog σ α :=
  Prog.tryExcept (search r answer) fun e => if e = .runtimeError then some (pure missing) else none

@[simp] theorem run_searchOr {σ α : Type} (r : Reply) (missing : α) (answer : σ → α) (s : σ) :
    (searchOr r missing answer).run s = (match r.result with
      | .ok _ => .ok (answer s)
      | .error e => if e = .runtimeError then .ok missing else .error e, s) := by
  have hsearch := run_search r answer s
  cases hr : r.result with
  | ok u =>
    rw [hr] at hsearch
    exact Prog.run_tryExcept_of_ok hsearch
  | error e =>
    rw [hr] at hsearch
    by_cases he : e = .runtimeError
    · rw [searchOr, Prog.run_tryExcept_of_catch hsearch (if_pos he)]
      simp [he]
    · rw [searchOr, Prog.run_tryExcept_of_pass hsearch (if_neg he)]
      simp [he]

variable {δ : Type} {idOf : δ → PyStr}

/-- `index_doc`. -/
def indexDoc (r : Reply) (doc : δ) : Prog (Index idOf) Unit := do
  Prog.modify fun s => if r.accepts || r.applied 0 (idOf doc) then s.put doc else s
  Prog.ofExcept r.result

@[simp] theorem run_indexDoc (r : Reply) (doc : δ) (s : Index idOf) :
    (indexDoc r doc).run s =
      (r.result, if r.accepts || r.applied 0 (idOf doc) then s.put doc else s) := rfl

/-- `delete_by_query`. -/
def deleteByQuery (r : Reply) (query : δ → Bool) : Prog (Index idOf) Unit := do
  Prog.modify fun s => s.deleteWhere fun d => query d && (r.accepts || r.applied 0 (idOf d))
  Prog.ofExcept r.result

@[simp] theorem run_deleteByQuery (r : Reply) (query : δ → Bool) (s : Index idOf) :
    (deleteByQuery r query).run s =
      (r.result, s.deleteWhere fun d => query d && (r.accepts || r.applied 0 (idOf d))) := rfl

/-- `bulk_index`: without documents no request is sent, and the items of the answer are not
looked at. -/
def bulkIndex (r : Reply) (docs : List δ) : Prog (Index idOf) Unit :=
  if docs.isEmpty then pure ()
  else do
    Prog.modify fun s => s.putAll (r.stored idOf docs)
    Prog.ofExcept r.result

/-- What is left of a bulk request, sent or not. -/
theorem run_bulkIndex (r : Reply) (docs : List δ) (s : Index idOf) :
    (bulkIndex r docs).run s =
      (if docs.isEmpty then .ok () else r.result, s.putAll (r.stored idOf docs)) := by
  unfold bulkIndex
  split_ifs with h
  · rw [List.isEmpty_iff] at h
    subst h
    rfl
  · rfl

end EsWriter

end C2Engine
