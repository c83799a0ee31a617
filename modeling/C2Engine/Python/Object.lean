import C2Engine.Python.Str
import Mathlib.Data.Rat.Defs

/-!
# Python objects and exceptions

The values a decoded message or JSON document is made of (`Obj`), the dictionary operations on
them, and the exceptions the engine's code can raise.

A dictionary is the list of its items in insertion order; `Dict.set` keeps a key's place, as a
Python `dict` does. Its keys are text or bytes, the only ones the message decoder lets through.

## Main definitions

* `PyExc`: the exceptions.
* `unseen`: a loop that keeps the elements it has not seen.
* `PyFloat`, `Key`, `Obj`, `Dict`: values.
* `Obj.truthy`: the truth value of an object.
* `Obj.copies`, `Dict.deepcopy`: `copy.deepcopy` under the recursion limit.
* `Dict.get`, `Dict.set`, `Dict.erase`, `Dict.update`: `d.get(k)`, `d[k] = v`, `d.pop(k, None)`,
  `d.update(e)`.

## Main results

* `isOk_mapM`, `mem_of_mapM`: when a loop over a list returns, and what.
* `mem_unseen`, `nodup_unseen`: a loop that skips what it has seen keeps each element once.
* `Dict.get_set_self`, `Dict.get_set_ne`: an assignment changes one key.
-/

namespace C2Engine.Python

/-- The exceptions that reach a handler of the engine, by class. -/
inductive PyExc where
  /-- `ValueError`, with the encoding errors and the errors of third-party parsers under it. -/
  | valueError
  | typeError
  | keyError
  | indexError
  | attributeError
  | overflowError
  | assertionError
  /-- `RuntimeError`, what `EsWriter` raises for an error status of a request, with
  `RecursionError` under it. -/
  | runtimeError
  /-- `csv.Error`. -/
  | csvError
  /-- `urllib.error.HTTPError`, with its status. -/
  | httpError (code : ℕ)
  /-- `urllib.error.URLError` that is no `HTTPError`. -/
  | urlError
  /-- Any other exception of a library or of the socket. -/
  | other
  deriving DecidableEq, Repr

/-! ### Computations and loops that may raise -/

section Loops

variable {α β : Type} {f : α → Except PyExc β}

/-- A computation that returned. -/
theorem isOk_iff {x : Except PyExc α} : x.isOk ↔ ∃ a, x = .ok a := by
  cases x <;> simp [Except.isOk, Except.toBool]

/-- A computation in two steps returned what its second step returned. -/
theorem bind_eq_ok {x : Except PyExc α} {g : α → Except PyExc β} {b : β} :
    (x >>= g) = .ok b ↔ ∃ a, x = .ok a ∧ g a = .ok b := by
  cases x <;> simp [bind, Except.bind]

/-- A computation in two steps returns exactly when both do. -/
theorem bind_congr_ok {x : Except PyExc α} {g g' : α → Except PyExc β}
    (h : ∀ a, x = .ok a → g a = g' a) : x >>= g = x >>= g' := by
  cases x with
  | error e => rfl
  | ok a => exact h a rfl

theorem map_eq_ok {x : Except PyExc α} {g : α → β} {b : β} :
    x.map g = .ok b ↔ ∃ a, x = .ok a ∧ g a = b := by
  cases x <;> simp [Except.map]

theorem isOk_bind {x : Except PyExc α} {g : α → Except PyExc β} :
    (x >>= g).isOk ↔ ∃ a, x = .ok a ∧ (g a).isOk := by
  cases x <;> simp [bind, Except.bind, Except.isOk, Except.toBool]

theorem isOk_pure (a : α) : (pure a : Except PyExc α).isOk := rfl

theorem isOk_bind_pure {x : Except PyExc α} {g : α → β} :
    (x >>= fun a => pure (g a)).isOk ↔ x.isOk := by
  simp only [isOk_bind, isOk_pure, and_true]
  exact isOk_iff.symm

/-- A loop returns exactly when every element does. -/
theorem isOk_map {x : Except PyExc α} {g : α → β} : (x.map g).isOk ↔ x.isOk := by
  cases x <;> rfl

theorem isOk_mapM : (l : List α) → ((l.mapM f).isOk ↔ ∀ x ∈ l, (f x).isOk)
  | [] => by simp [Except.isOk, Except.toBool, pure, Except.pure]
  | x :: l => by
      have ih := isOk_mapM l
      rw [List.forall_mem_cons, ← ih, List.mapM_cons]
      cases f x with
      | error e => simp [bind, Except.bind, Except.isOk, Except.toBool]
      | ok b =>
        cases List.mapM f l <;>
          simp [bind, Except.bind, Except.isOk, Except.toBool, pure, Except.pure]

theorem mapM_eq_ok_map {g : α → β} : {l : List α} → (∀ x ∈ l, f x = .ok (g x)) →
    l.mapM f = .ok (l.map g)
  | [], _ => rfl
  | x :: l, h => by
      rw [List.mapM_cons, h x List.mem_cons_self,
        mapM_eq_ok_map fun y hy => h y (List.mem_cons_of_mem x hy)]
      rfl

/-- The results of a loop that returned. -/
theorem mem_of_mapM : {l : List α} → {ys : List β} → l.mapM f = .ok ys →
    ∀ y, y ∈ ys ↔ ∃ x ∈ l, f x = .ok y
  | [], ys, h, y => by
      cases h
      simp
  | x :: l, ys, h, y => by
      rw [List.mapM_cons] at h
      cases hx : f x with
      | error e => simp [hx, bind, Except.bind] at h
      | ok b =>
        cases hl : l.mapM f with
        | error e => simp [hx, hl, bind, Except.bind] at h
        | ok bs =>
          simp only [hx, hl, bind, Except.bind, pure, Except.pure, Except.ok.injEq] at h
          subst h
          simp [mem_of_mapM hl y, hx, eq_comm]

/-- `for x in xs: if x in seen: continue; seen.add(x); out.append(x)`: each element at its first
place, but for those seen before. -/
def unseen [DecidableEq α] (seen : List α) : List α → List α
  | [] => []
  | x :: xs => if seen.elem x then unseen seen xs else x :: unseen (x :: seen) xs

@[simp] theorem mem_unseen [DecidableEq α] {x : α} : {seen xs : List α} →
    x ∈ unseen seen xs ↔ x ∈ xs ∧ x ∉ seen
  | seen, [] => by simp [unseen]
  | seen, y :: xs => by
      simp only [unseen]
      split_ifs with h
      · have hy : y ∈ seen := by simpa using h
        rw [mem_unseen]
        grind
      · have hy : y ∉ seen := by simpa using h
        rw [List.mem_cons, mem_unseen]
        grind

theorem nodup_unseen [DecidableEq α] : (seen xs : List α) → (unseen seen xs).Nodup
  | _, [] => List.nodup_nil
  | seen, x :: xs => by
      simp only [unseen]
      split_ifs
      · exact nodup_unseen seen xs
      · refine List.nodup_cons.mpr ⟨fun h => ?_, nodup_unseen (x :: seen) xs⟩
        exact (mem_unseen.mp h).2 List.mem_cons_self

theorem unseen_sublist [DecidableEq α] : (seen xs : List α) → (unseen seen xs).Sublist xs
  | _, [] => List.Sublist.slnil
  | seen, x :: xs => by
      simp only [unseen]
      split_ifs
      · exact (unseen_sublist seen xs).cons x
      · exact (unseen_sublist (x :: seen) xs).cons_cons x

end Loops

/-! ### Values -/

/-- A floating-point number, by its value. -/
inductive PyFloat where
  | finite (q : ℚ)
  | inf (negative : Bool)
  | nan
  deriving DecidableEq

/-- A dictionary key. -/
inductive Key where
  | str (s : PyStr)
  | bytes (b : Bytes)
  deriving DecidableEq

/-- A Python value. -/
inductive Obj where
  | none
  | bool (b : Bool)
  | int (n : ℤ)
  | float (x : PyFloat)
  | str (s : PyStr)
  | bytes (b : Bytes)
  /-- A message-pack extension value. -/
  | ext (code : ℤ) (data : Bytes)
  /-- A message-pack timestamp. -/
  | timestamp (seconds : ℤ) (nanoseconds : ℕ)
  | list (xs : List Obj)
  | map (kvs : List (Key × Obj))

/-- A dictionary. -/
abbrev Dict := List (Key × Obj)

/-- The key of a literal. -/
def key (s : String) : Key := .str (str s)

@[simp] theorem key_inj {s t : String} : key s = key t ↔ s = t := by
  rw [key, key, Key.str.injEq, str_inj]

namespace Obj

/-- The truth value of an object. -/
def truthy : Obj → Bool
  | none => false
  | bool b => b
  | int n => n != 0
  | float (.finite q) => q != 0
  | float _ => true
  | str s => !s.isEmpty
  | bytes b => !b.isEmpty
  | ext _ _ => true
  | timestamp _ _ => true
  | list xs => !xs.isEmpty
  | map kvs => !kvs.isEmpty

/-- `isinstance(x, dict)`. -/
def asMap? : Obj → Option Dict
  | map d => some d
  | _ => Option.none

/-- `isinstance(x, list)`. -/
def asList? : Obj → Option (List Obj)
  | list xs => some xs
  | _ => Option.none

/-- `isinstance(x, str)`. -/
def asStr? : Obj → Option PyStr
  | str s => some s
  | _ => Option.none

theorem asStr?_eq_some {v : Obj} {s : PyStr} : v.asStr? = some s ↔ v = str s := by
  cases v <;> simp [asStr?]

/-- `a or b`, for values that may be missing. -/
def pyOr (a b : Option Obj) : Option Obj := if a.any truthy then a else b

mutual

/-- A value `json.dumps` takes: no bytes, no message-pack values, and keys that are text. -/
def isJson : Obj → Bool
  | none | bool _ | int _ | float _ | str _ => true
  | bytes _ | ext _ _ | timestamp _ _ => false
  | list xs => listIsJson xs
  | map kvs => itemsAreJson kvs

/-- `isJson` of every element of a list. -/
def listIsJson : List Obj → Bool
  | [] => true
  | x :: xs => x.isJson && listIsJson xs

/-- `isJson` of every value of a dictionary, with keys that are text. -/
def itemsAreJson : List (Key × Obj) → Bool
  | [] => true
  | kv :: kvs => kv.1 matches .str _ && kv.2.isJson && itemsAreJson kvs

end

theorem isJson_list : (xs : List Obj) → (list xs).isJson ↔ ∀ x ∈ xs, x.isJson
  | [] => by simp [isJson, listIsJson]
  | x :: xs => by
      have ih := isJson_list xs
      simp only [isJson] at ih ⊢
      simp [listIsJson, ih]

theorem isJson_map : (d : List (Key × Obj)) → (map d).isJson ↔
    ∀ kv ∈ d, (∃ s, kv.1 = .str s) ∧ kv.2.isJson
  | [] => by simp [isJson, itemsAreJson]
  | ⟨k, v⟩ :: d => by
      have ih := isJson_map d
      simp only [isJson] at ih ⊢
      cases k <;> simp [itemsAreJson, ih]

/-- A JSON string, `null` for an absent one. -/
def ofOption {α : Type} (f : α → Obj) : Option α → Obj
  | Option.none => none
  | some x => f x

/-- A JSON array of strings. -/
def strs (ss : List PyStr) : Obj := list (ss.map str)

@[simp] theorem isJson_str (s : PyStr) : (str s).isJson := by rw [isJson]

@[simp] theorem isJson_int (n : ℤ) : (int n).isJson := by rw [isJson]

@[simp] theorem isJson_bool (b : Bool) : (bool b).isJson := by rw [isJson]

@[simp] theorem isJson_float (x : PyFloat) : (float x).isJson := by rw [isJson]

@[simp] theorem isJson_strs (ss : List PyStr) : (strs ss).isJson := by
  rw [strs, isJson_list]
  simp

theorem isJson_ofOption {α : Type} {f : α → Obj} (h : ∀ x, (f x).isJson) (o : Option α) :
    (ofOption f o).isJson := by
  cases o with
  | none => rw [ofOption, isJson]
  | some x => exact h x

theorem isJson_append {d e : List (Key × Obj)} :
    (map (d ++ e)).isJson ↔ (map d).isJson ∧ (map e).isJson := by
  simp only [isJson_map, List.forall_mem_append]

theorem isJson_cons {s : String} {v : Obj} {d : List (Key × Obj)} :
    (map ((key s, v) :: d)).isJson ↔ v.isJson ∧ (map d).isJson := by
  simp [isJson_map, key]

@[simp] theorem isJson_nil : (map []).isJson := by rw [isJson, itemsAreJson]

/-- `copy.deepcopy(v)` returns when the recursion limit leaves room for `calls` calls of it inside
one another: it calls itself for every element of a list and every value of a dictionary. -/
def copies : ℕ → Obj → Bool
  | 0, _ => false
  | calls + 1, list xs => xs.all (copies calls)
  | calls + 1, map kvs => kvs.all fun kv => copies calls kv.2
  | _ + 1, _ => true

theorem copies_list {calls : ℕ} {xs : List Obj} :
    (list xs).copies (calls + 1) ↔ ∀ x ∈ xs, x.copies calls := List.all_eq_true

theorem copies_map {calls : ℕ} {d : List (Key × Obj)} :
    (map d).copies (calls + 1) ↔ ∀ kv ∈ d, kv.2.copies calls := List.all_eq_true

/-- A value that can be copied can be copied with more room, too. -/
theorem copies_mono {m n : ℕ} {v : Obj} (hle : m ≤ n) (h : v.copies m) : v.copies n := by
  induction m generalizing n v with
  | zero => cases h
  | succ m ih =>
    obtain ⟨n, rfl⟩ : ∃ k, n = k + 1 := ⟨n - 1, by omega⟩
    have hle' : m ≤ n := Nat.le_of_succ_le_succ hle
    cases v with
    | list xs => exact copies_list.mpr fun x hx => ih hle' (copies_list.mp h x hx)
    | map d => exact copies_map.mpr fun kv hkv => ih hle' (copies_map.mp h kv hkv)
    | _ => rfl

theorem copies_ofOption {α : Type} {f : α → Obj} {calls : ℕ} (h : ∀ x, (f x).copies (calls + 1))
    (o : Option α) : (ofOption f o).copies (calls + 1) := by
  cases o with
  | none => rfl
  | some x => exact h x

theorem copies_strs {calls : ℕ} (ss : List PyStr) : (strs ss).copies (calls + 2) :=
  copies_list.mpr (List.forall_mem_map.mpr fun _ _ => rfl)

theorem eq_some_of_pyOr {a b : Option Obj} {v : Obj} (h : pyOr a b = some v) :
    a = some v ∨ b = some v := by
  unfold pyOr at h
  split_ifs at h
  · exact .inl h
  · exact .inr h

end Obj

namespace Dict

/-- `d.get(k)`. -/
def get (d : Dict) (k : Key) : Option Obj := (d.find? fun kv => kv.1 = k).map Prod.snd

/-- `d[k] = v`. -/
def set (d : Dict) (k : Key) (v : Obj) : Dict :=
  match d with
  | [] => [(k, v)]
  | kv :: d => if kv.1 = k then (k, v) :: d else kv :: set d k v

/-- `d.pop(k, None)`. -/
def erase (d : Dict) (k : Key) : Dict := d.filter fun kv => kv.1 ≠ k

/-- `d.update(e)`. -/
def update (d e : Dict) : Dict := e.foldl (fun d kv => d.set kv.1 kv.2) d

@[simp] theorem get_nil (k : Key) : get [] k = none := rfl

theorem get_cons (k' : Key) (v : Obj) (d : Dict) (k : Key) :
    get ((k', v) :: d) k = if k' = k then some v else get d k := by
  by_cases h : k' = k <;> simp [get, h]

theorem get_append (d e : Dict) (k : Key) : Dict.get (d ++ e) k = (d.get k).or (e.get k) := by
  rw [get, List.find?_append, get, get]
  cases List.find? (fun kv => decide (kv.1 = k)) d <;> rfl

@[simp] theorem get_set_self (d : Dict) (k : Key) (v : Obj) : (d.set k v).get k = some v := by
  induction d with
  | nil => simp [set, get_cons]
  | cons kv d ih =>
    obtain ⟨k', v'⟩ := kv
    by_cases h : k' = k
    · simp [set, h, get_cons]
    · simp [set, h, get_cons, ih]

theorem get_set_ne (d : Dict) {k k' : Key} (v : Obj) (h : k' ≠ k) :
    (d.set k v).get k' = d.get k' := by
  induction d with
  | nil => simp [set, get_cons, h.symm]
  | cons kv d ih =>
    obtain ⟨k₀, v₀⟩ := kv
    by_cases hk : k₀ = k
    · subst hk
      simp [set, get_cons, h.symm]
    · simp [set, hk, get_cons, ih]

theorem mem_of_get {d : Dict} {k : Key} {v : Obj} (h : d.get k = some v) : (k, v) ∈ d := by
  obtain ⟨kv, hfind, rfl⟩ := Option.map_eq_some_iff.mp h
  have hk : kv.1 = k := by simpa using List.find?_some hfind
  exact hk ▸ List.mem_of_find?_eq_some hfind

/-- What an assignment leaves in a dictionary. -/
theorem mem_set {d : Dict} {k : Key} {v : Obj} {kv : Key × Obj} (h : kv ∈ d.set k v) :
    kv = (k, v) ∨ kv ∈ d := by
  induction d with
  | nil => exact .inl (by simpa [set] using h)
  | cons kv₀ d ih =>
    simp only [set] at h
    split_ifs at h
    · exact (List.mem_cons.mp h).imp_right (List.mem_cons_of_mem kv₀)
    · rcases List.mem_cons.mp h with rfl | h
      · exact .inr List.mem_cons_self
      · exact (ih h).imp_right (List.mem_cons_of_mem kv₀)

theorem copies_set {calls : ℕ} {d : Dict} (hd : (Obj.map d).copies (calls + 1)) (k : Key) {v : Obj}
    (hv : v.copies calls) : (Obj.map (d.set k v)).copies (calls + 1) := by
  refine Obj.copies_map.mpr fun kv hkv => ?_
  rcases mem_set hkv with rfl | hkv
  · exact hv
  · exact Obj.copies_map.mp hd kv hkv

theorem copies_erase {calls : ℕ} {d : Dict} (hd : (Obj.map d).copies (calls + 1)) (k : Key) :
    (Obj.map (erase d k)).copies (calls + 1) :=
  Obj.copies_map.mpr fun kv hkv => Obj.copies_map.mp hd kv (List.mem_of_mem_filter hkv)

theorem copies_get {calls : ℕ} {d : Dict} (hd : (Obj.map d).copies (calls + 1)) {k : Key} {v : Obj}
    (h : d.get k = some v) : v.copies calls := Obj.copies_map.mp hd _ (mem_of_get h)

theorem copies_update {calls : ℕ} {e : Dict} (he : (Obj.map e).copies (calls + 1)) {d : Dict}
    (hd : (Obj.map d).copies (calls + 1)) : (Obj.map (d.update e)).copies (calls + 1) := by
  induction e generalizing d with
  | nil => exact hd
  | cons kv e ih =>
    obtain ⟨hv, he'⟩ := List.forall_mem_cons.mp (Obj.copies_map.mp he)
    exact ih (Obj.copies_map.mpr he') (copies_set hd kv.1 hv)

/-- `copy.deepcopy(d)`, where the recursion limit leaves room for `calls` calls: the copy, or
`RecursionError`. -/
def deepcopy (d : Dict) (calls : ℕ) : Except PyExc Dict :=
  if (Obj.map d).copies calls then .ok d else .error .runtimeError

theorem deepcopy_eq_ok {d d' : Dict} {calls : ℕ} :
    d.deepcopy calls = .ok d' ↔ (Obj.map d).copies calls ∧ d = d' := by
  unfold deepcopy
  split_ifs with h <;> simp [h]

theorem isJson_set {d : Dict} (hd : (Obj.map d).isJson) (s : PyStr) {v : Obj} (hv : v.isJson) :
    (Obj.map (d.set (.str s) v)).isJson := by
  rw [Obj.isJson_map] at hd ⊢
  intro kv hkv
  rcases mem_set hkv with rfl | hkv
  · exact ⟨⟨s, rfl⟩, hv⟩
  · exact hd kv hkv

theorem isJson_erase {d : Dict} (hd : (Obj.map d).isJson) (k : Key) :
    (Obj.map (erase d k)).isJson := by
  rw [Obj.isJson_map] at hd ⊢
  exact fun kv hkv => hd kv (List.mem_of_mem_filter hkv)

theorem isJson_get {d : Dict} (hd : (Obj.map d).isJson) {k : Key} {v : Obj}
    (h : d.get k = some v) : v.isJson :=
  ((Obj.isJson_map d).mp hd _ (mem_of_get h)).2

theorem isJson_update {e : Dict} (he : (Obj.map e).isJson) {d : Dict} (hd : (Obj.map d).isJson) :
    (Obj.map (d.update e)).isJson := by
  induction e generalizing d with
  | nil => exact hd
  | cons kv e ih =>
    obtain ⟨k, v⟩ := kv
    obtain ⟨⟨⟨s, rfl⟩, hv⟩, he'⟩ := List.forall_mem_cons.mp ((Obj.isJson_map _).mp he)
    exact ih ((Obj.isJson_map e).mpr he') (isJson_set hd s hv)

theorem get_update_of_notMem {k : Key} :
    (e d : Dict) → (∀ kv ∈ e, kv.1 ≠ k) → (update d e).get k = d.get k
  | [], _, _ => rfl
  | kv :: e, d, h => by
      change (update (d.set kv.1 kv.2) e).get k = d.get k
      rw [get_update_of_notMem e _ fun kv' hkv' => h kv' (List.mem_cons_of_mem _ hkv')]
      exact get_set_ne d kv.2 (h kv List.mem_cons_self).symm

end Dict

end C2Engine.Python
