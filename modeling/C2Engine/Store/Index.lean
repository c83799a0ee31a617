import Mathlib.Data.List.Sort
import Mathlib.Data.List.Nodup

/-!
# An index of documents

An index keeps documents, each under an identifier that is read off the document itself, and at
most one document under an identifier. Writing a document replaces the one with its identifier; a
deletion takes out the documents that satisfy a condition.

The documents have no order of their own. `Index.sorted` lists them by a key, and where the key
tells documents apart that the identifier tells apart, the keys of the list increase strictly.

## Main definitions

* `Index`: documents under identifiers.
* `Index.get`, `Index.put`, `Index.putAll`, `Index.deleteWhere`: the operations.
* `Index.sorted`: the documents by a key.

## Main results

* `Index.mem_put`, `Index.mem_deleteWhere`: what is in the index after an operation.
* `Index.get_eq_some_iff`: a document is found exactly under its identifier.
* `Index.mem_putAll`: of several documents with one identifier the last is kept.
* `Index.pairwise_sorted`: the list by a key increases strictly.
-/

namespace C2Engine.Store

/-- Documents of a type `δ`, at most one for each identifier. -/
structure Index {κ δ : Type} (idOf : δ → κ) where
  docs : List δ
  nodup : (docs.map idOf).Nodup

namespace Index

variable {κ δ : Type} {idOf : δ → κ}

instance : Membership δ (Index idOf) := ⟨fun s d => d ∈ s.docs⟩

instance (s : Index idOf) (p : δ → Prop) [DecidablePred p] : Decidable (∀ d ∈ s, p d) :=
  inferInstanceAs (Decidable (∀ d ∈ s.docs, p d))

instance (s : Index idOf) (p : δ → Prop) [DecidablePred p] : Decidable (∃ d ∈ s, p d) :=
  inferInstanceAs (Decidable (∃ d ∈ s.docs, p d))

theorem mem_docs {s : Index idOf} {d : δ} : d ∈ s.docs ↔ d ∈ s := Iff.rfl

/-- Two documents under one identifier are the same. -/
theorem eq_of_idOf_eq (s : Index idOf) {d e : δ} (hd : d ∈ s) (he : e ∈ s)
    (h : idOf d = idOf e) : d = e :=
  List.inj_on_of_nodup_map s.nodup hd he h

/-- The index without documents. -/
def empty : Index idOf := ⟨[], List.nodup_nil⟩

instance : Inhabited (Index idOf) := ⟨empty⟩

@[simp] theorem notMem_empty (d : δ) : d ∉ (empty : Index idOf) := List.not_mem_nil

/-- Take out the documents that satisfy a condition. -/
def deleteWhere (s : Index idOf) (p : δ → Bool) : Index idOf where
  docs := s.docs.filter fun d => !p d
  nodup := s.nodup.sublist (List.filter_sublist.map idOf)

@[simp] theorem mem_deleteWhere {s : Index idOf} {p : δ → Bool} {d : δ} :
    d ∈ s.deleteWhere p ↔ d ∈ s ∧ p d = false := by
  rw [← mem_docs, deleteWhere, List.mem_filter, Bool.not_eq_true', mem_docs]

section Put

variable [DecidableEq κ]

/-- The document under an identifier. -/
def get (s : Index idOf) (k : κ) : Option δ := s.docs.find? fun d => idOf d = k

theorem get_eq_some_iff {s : Index idOf} {k : κ} {d : δ} :
    s.get k = some d ↔ d ∈ s ∧ idOf d = k := by
  constructor
  · intro h
    exact ⟨List.mem_of_find?_eq_some h, by simpa using List.find?_some h⟩
  · rintro ⟨hd, rfl⟩
    cases hfind : s.docs.find? (fun e => idOf e = idOf d) with
    | none => exact absurd (decide_eq_true rfl) (List.find?_eq_none.mp hfind d hd)
    | some e =>
      have he : idOf e = idOf d := by simpa using List.find?_some hfind
      rw [get, hfind, s.eq_of_idOf_eq (List.mem_of_find?_eq_some hfind) hd he]

/-- Write a document. -/
def put (s : Index idOf) (d : δ) : Index idOf where
  docs := d :: (s.deleteWhere fun e => idOf e = idOf d).docs
  nodup := by
    rw [List.map_cons, List.nodup_cons]
    refine ⟨fun h => ?_, (s.deleteWhere _).nodup⟩
    obtain ⟨e, he, hid⟩ := List.mem_map.mp h
    exact absurd hid (by simpa using (mem_deleteWhere.mp he).2)

@[simp] theorem mem_put {s : Index idOf} {d e : δ} :
    e ∈ s.put d ↔ e = d ∨ e ∈ s ∧ idOf e ≠ idOf d := by
  rw [← mem_docs, put, List.mem_cons, mem_docs, mem_deleteWhere, decide_eq_false_iff_not]

/-- The identifiers after a document was written. -/
theorem exists_mem_put_iff {s : Index idOf} {d : δ} {k : κ} :
    (∃ e ∈ s.put d, idOf e = k) ↔ idOf d = k ∨ ∃ e ∈ s, idOf e = k := by
  constructor
  · rintro ⟨e, he, rfl⟩
    rcases mem_put.mp he with rfl | ⟨he, -⟩
    · exact .inl rfl
    · exact .inr ⟨e, he, rfl⟩
  · rintro (rfl | ⟨e, he, rfl⟩)
    · exact ⟨d, mem_put.mpr (.inl rfl), rfl⟩
    · by_cases h : idOf e = idOf d
      · exact ⟨d, mem_put.mpr (.inl rfl), h.symm⟩
      · exact ⟨e, mem_put.mpr (.inr ⟨he, h⟩), rfl⟩

/-- Write documents, one after the other. -/
def putAll (s : Index idOf) : List δ → Index idOf
  | [] => s
  | d :: ds => putAll (s.put d) ds

theorem putAll_append (s : Index idOf) : (ds es : List δ) →
    s.putAll (ds ++ es) = (s.putAll ds).putAll es
  | [], _ => rfl
  | d :: ds, es => putAll_append (s.put d) ds es

/-- A document that is in the index after the writes is the last one written under its identifier,
or it was there before and none was written. -/
theorem mem_putAll : {ds : List δ} → {s : Index idOf} → {e : δ} →
    (e ∈ s.putAll ds ↔
      (∃ pre post, ds = pre ++ e :: post ∧ ∀ d ∈ post, idOf d ≠ idOf e) ∨
        e ∈ s ∧ ∀ d ∈ ds, idOf d ≠ idOf e)
  | [], s, e => by simp [putAll]
  | d :: ds, s, e => by
      rw [putAll, mem_putAll, mem_put]
      constructor
      · rintro (⟨pre, post, rfl, hpost⟩ | ⟨rfl | ⟨he, hid⟩, hds⟩)
        · exact .inl ⟨d :: pre, post, rfl, hpost⟩
        · exact .inl ⟨[], ds, rfl, hds⟩
        · exact .inr ⟨he, List.forall_mem_cons.mpr ⟨hid.symm, hds⟩⟩
      · rintro (⟨pre, post, heq, hpost⟩ | ⟨he, hds⟩)
        · cases pre with
          | nil =>
            obtain ⟨rfl, rfl⟩ := List.cons.inj heq
            exact .inr ⟨.inl rfl, hpost⟩
          | cons d' pre =>
            obtain ⟨rfl, rfl⟩ := List.cons.inj heq
            exact .inl ⟨pre, post, rfl, hpost⟩
        · obtain ⟨hd, hds⟩ := List.forall_mem_cons.mp hds
          exact .inr ⟨.inr ⟨he, hd.symm⟩, hds⟩

/-- The identifiers after the writes. -/
theorem exists_mem_putAll_iff : {ds : List δ} → {s : Index idOf} → {k : κ} →
    ((∃ e ∈ s.putAll ds, idOf e = k) ↔ (∃ d ∈ ds, idOf d = k) ∨ ∃ e ∈ s, idOf e = k)
  | [], s, k => by simp [putAll]
  | d :: ds, s, k => by
      rw [putAll, exists_mem_putAll_iff, exists_mem_put_iff]
      simp only [List.exists_mem_cons_iff, or_assoc]
      exact or_left_comm

/-- What is in the index after the writes was written or was there before. -/
theorem mem_or_mem_of_mem_putAll {ds : List δ} {s : Index idOf} {e : δ} (h : e ∈ s.putAll ds) :
    e ∈ ds ∨ e ∈ s ∧ ∀ d ∈ ds, idOf d ≠ idOf e := by
  rcases mem_putAll.mp h with ⟨pre, post, rfl, -⟩ | h
  · exact .inl (by simp)
  · exact .inr h

end Put

/-! ### Listing by a key -/

section Sorted

variable {ρ : Type} [LinearOrder ρ]

/-- The documents, listed by a key. -/
def sorted (s : Index idOf) (key : δ → ρ) : List δ := s.docs.insertionSort fun d e => key d ≤ key e

variable {s : Index idOf} {key : δ → ρ}

@[simp] theorem mem_sorted {d : δ} : d ∈ s.sorted key ↔ d ∈ s := List.mem_insertionSort _

theorem length_sorted : (s.sorted key).length = s.docs.length := List.length_insertionSort _ _

/-- The keys increase strictly where documents with one key have one identifier. -/
theorem pairwise_sorted (hkey : ∀ d e, key d = key e → idOf d = idOf e) :
    (s.sorted key).Pairwise fun d e => key d < key e := by
  have hle : (s.sorted key).Pairwise fun d e => key d ≤ key e := List.pairwise_insertionSort _ _
  have hne : (s.sorted key).Pairwise fun d e => idOf d ≠ idOf e := by
    rw [← List.pairwise_map, ← List.nodup_iff_pairwise_ne]
    exact ((List.perm_insertionSort _ s.docs).map idOf).nodup_iff.mpr s.nodup
  exact hle.imp₂ (fun d e hle hne => lt_of_le_of_ne hle fun h => hne (hkey d e h)) hne

end Sorted

end Index

end C2Engine.Store
