import C2Engine.Python.Heap
import Mathlib.Data.List.Perm.Subperm

/-!
# Programs that change objects

The operations of dictionaries and lists on a heap, and what a change of an object does to the
values that reach it. An object of a tree is reached along one path, so a change of it changes what
is read there and nothing else: `Holds.focus` is the rule of one value of a dictionary, `Holds.loop`
that of a loop that changes every element of a list.

## Main definitions

* `Items`: the items of a dictionary, of values of any type.
* `Heap.isDict`, `Heap.truthy`, `Heap.iterate`, `Heap.dictGet`: what only reads.
* `Heap.dictSet`, `Heap.dictPop`, `Heap.dictUpdate`: what changes a dictionary.
* `Heap.EditedAt`: a heap in which only some objects were changed.

## Main results

* `Heap.Holds.focus`, `Heap.Holds.loop`: the rules.
* `Heap.Repr.dictUpdate`: a dictionary with further values.
-/

namespace C2Engine.Python

/-! ### Items -/

/-- The items of a dictionary. -/
abbrev Items (α : Type) := List (Key × α)

namespace Items

variable {α β : Type}

/-- `d.get(k)`. -/
def get (d : Items α) (k : Key) : Option α := (d.find? fun kv => kv.1 = k).map Prod.snd

/-- `d[k] = v`. -/
def set (d : Items α) (k : Key) (v : α) : Items α :=
  match d with
  | [] => [(k, v)]
  | kv :: d => if kv.1 = k then (k, v) :: d else kv :: set d k v

/-- `d.pop(k, None)`. -/
def erase (d : Items α) (k : Key) : Items α := d.filter fun kv => kv.1 ≠ k

/-- `d.update(e)`. -/
def update (d e : Items α) : Items α := e.foldl (fun d kv => set d kv.1 kv.2) d

/-- The items with other values. -/
def mapVal (f : α → β) (d : Items α) : Items β := d.map fun kv => (kv.1, f kv.2)

theorem get_cons (k' : Key) (v : α) (d : Items α) (k : Key) :
    get ((k', v) :: d) k = if k' = k then some v else get d k := by
  by_cases h : k' = k <;> simp [get, h]

theorem get_mapVal (f : α → β) (d : Items α) (k : Key) : get (mapVal f d) k = (get d k).map f := by
  induction d with
  | nil => rfl
  | cons kv d ih =>
    rw [mapVal, List.map_cons, get_cons, get_cons]
    split_ifs
    · rfl
    · exact ih

theorem set_mapVal (f : α → β) (d : Items α) (k : Key) (v : α) :
    mapVal f (set d k v) = set (mapVal f d) k (f v) := by
  induction d with
  | nil => rfl
  | cons kv d ih =>
    by_cases hk : kv.1 = k
    · simp [set, mapVal, hk]
    · simp only [set, mapVal, List.map_cons, hk, if_false] at ih ⊢
      rw [ih]

theorem update_mapVal (f : α → β) (d e : Items α) :
    mapVal f (update d e) = update (mapVal f d) (mapVal f e) := by
  induction e generalizing d with
  | nil => rfl
  | cons kv e ih =>
    change mapVal f (update (set d kv.1 kv.2) e) =
      update (set (mapVal f d) kv.1 (f kv.2)) (mapVal f e)
    rw [ih, set_mapVal]

theorem erase_mapVal (f : α → β) (d : Items α) (k : Key) :
    mapVal f (erase d k) = erase (mapVal f d) k := by
  rw [mapVal, erase, erase, mapVal, List.filter_map]
  rfl

theorem get_set_self (d : Items α) (k : Key) (v : α) : get (set d k v) k = some v := by
  induction d with
  | nil => rw [set, get_cons, if_pos rfl]
  | cons kv d ih =>
    rw [set]
    split_ifs with hk
    · rw [get_cons, if_pos rfl]
    · rw [get_cons, if_neg hk, ih]

theorem set_eq_self {d : Items α} {k : Key} {v : α} (h : get d k = some v) : set d k v = d := by
  induction d with
  | nil => cases h
  | cons kv d ih =>
    obtain ⟨k₀, v₀⟩ := kv
    rw [get_cons] at h
    split_ifs at h with hk
    · obtain rfl := Option.some.inj h
      simp [set, hk]
    · simp [set, hk, ih h]

theorem dict_set (d : Dict) (k : Key) (v : Obj) : Dict.set d k v = set d k v := by
  induction d with
  | nil => rfl
  | cons kv d ih => rw [Dict.set, set, ih]

theorem dict_update (d e : Dict) : Dict.update d e = update d e := by
  induction e generalizing d with
  | nil => rfl
  | cons kv e ih =>
    change Dict.update (Dict.set d kv.1 kv.2) e = update (set d kv.1 kv.2) e
    rw [dict_set, ih]

end Items

namespace Heap

variable {h h' : Heap} {v : Val} {o : Obj} {ps : List (Val × Obj)} {S : List ℕ}

/-! ### What only reads -/

/-- `isinstance(v, dict)`. -/
def isDict : Val → Prog Heap Bool
  | .atom _ => pure false
  | .ref a => do
    match ← load a with
    | .dict _ => return true
    | .list _ => return false

/-- The truth value of a value. -/
def truthy : Val → Prog Heap Bool
  | .atom a => pure a.val.truthy
  | .ref a => do
    match ← load a with
    | .dict kvs => return !kvs.isEmpty
    | .list vs => return !vs.isEmpty

/-- A key as a value. -/
def keyVal : Key → Val
  | .str s => .atom ⟨.str s, trivial⟩
  | .bytes b => .atom ⟨.bytes b, trivial⟩

/-- The values a `for` loop runs over: the elements of a list, the keys of a dictionary, the
characters of a text, the numbers of bytes and the two parts of an extension value. -/
def iterate : Val → Prog Heap (List Val)
  | .ref a => do
    match ← load a with
    | .list vs => return vs
    | .dict kvs => return kvs.map fun kv => keyVal kv.1
  | .atom ⟨.str s, _⟩ => pure (s.map fun c => .atom ⟨.str [c], trivial⟩)
  | .atom ⟨.bytes b, _⟩ => pure (b.map fun n => .atom ⟨.int n.toNat, trivial⟩)
  | .atom ⟨.ext code data, _⟩ => pure [.atom ⟨.int code, trivial⟩, .atom ⟨.bytes data, trivial⟩]
  | .atom _ => Prog.raise .typeError

/-- The items of a dictionary; another value has no such method. -/
def dictItems : Val → Prog Heap (Items Val)
  | .atom _ => Prog.raise .attributeError
  | .ref a => do
    match ← load a with
    | .dict kvs => return kvs
    | .list _ => Prog.raise .attributeError

/-- `d.get(k)`. -/
def dictGet (v : Val) (k : Key) : Prog Heap (Option Val) := do
  let kvs ← dictItems v
  return Items.get kvs k

/-! ### What changes a dictionary -/

/-- A dictionary with other items. -/
def dictModify (v : Val) (f : Items Val → Items Val) : Prog Heap Unit :=
  match v with
  | .atom _ => Prog.raise .attributeError
  | .ref a => do
    match ← load a with
    | .dict kvs => store a (.dict (f kvs))
    | .list _ => Prog.raise .attributeError

/-- `d[k] = x`. -/
def dictSet (v : Val) (k : Key) (x : Val) : Prog Heap Unit := dictModify v fun d => Items.set d k x

/-- `d.pop(k, None)`. -/
def dictPop (v : Val) (k : Key) : Prog Heap Unit := dictModify v fun d => Items.erase d k

/-- `d.update(e)`. -/
def dictUpdate (v : Val) (e : Items Val) : Prog Heap Unit :=
  dictModify v fun d => Items.update d e

/-! ### What the reading operations return -/

theorem asMap?_atom (a : Atom) : a.val.asMap? = none := by
  obtain ⟨v, hv⟩ := a
  cases v with
  | map d => exact hv.elim
  | _ => rfl

theorem run_isDict (hrepr : Repr h v o S) :
    (isDict v).run h = (.ok o.asMap?.isSome, h) := by
  cases hrepr with
  | atom ha =>
    rw [← ha, asMap?_atom]
    rfl
  | list hcell => exact (Prog.run_bind_of_ok (run_load hcell)).trans rfl
  | dict hcell => exact (Prog.run_bind_of_ok (run_load hcell)).trans rfl

theorem run_truthy (hrepr : Repr h v o S) : (truthy v).run h = (.ok o.truthy, h) := by
  cases hrepr with
  | atom ha hrest =>
    subst ha
    rfl
  | list hcell hos =>
    refine (Prog.run_bind_of_ok (run_load hcell)).trans ?_
    rw [← hos]
    simp [Obj.truthy]
  | dict hcell hd =>
    refine (Prog.run_bind_of_ok (run_load hcell)).trans ?_
    rw [← hd]
    simp [Obj.truthy]

theorem run_dictGet {a : ℕ} {kvs : Items Val} (hcell : h[a]? = some (.dict kvs)) (k : Key) :
    (dictGet (.ref a) k).run h = (.ok (Items.get kvs k), h) := by
  have hitems : (dictItems (.ref a)).run h = (.ok kvs, h) :=
    (Prog.run_bind_of_ok (run_load hcell)).trans rfl
  exact (Prog.run_bind_of_ok hitems).trans rfl

theorem run_dictModify {a : ℕ} {kvs : Items Val} (hcell : h[a]? = some (.dict kvs))
    (f : Items Val → Items Val) :
    (dictModify (.ref a) f).run h = (.ok (), h.set a (.dict (f kvs))) :=
  (Prog.run_bind_of_ok (run_load hcell)).trans rfl

/-! ### Changes of objects -/

/-- Only objects at the addresses of the list were changed. -/
def EditedAt (S : List ℕ) (h h' : Heap) : Prop := ∀ a ∉ S, h'[a]? = h[a]?

theorem EditedAt.refl (S : List ℕ) (h : Heap) : EditedAt S h h := fun _ _ => rfl

theorem EditedAt.trans {h'' : Heap} (h₁ : EditedAt S h h') (h₂ : EditedAt S h' h'') :
    EditedAt S h h'' := fun a ha => (h₂ a ha).trans (h₁ a ha)

theorem EditedAt.mono {T : List ℕ} (hedit : EditedAt S h h') (hsub : S ⊆ T) : EditedAt T h h' :=
  fun a ha => hedit a fun hS => ha (hsub hS)

theorem editedAt_set (a : ℕ) (c : Cell) (ha : a ∈ S) : EditedAt S h (h.set a c) := by
  intro b hb
  have hne : a ≠ b := fun heq => hb (heq ▸ ha)
  exact List.getElem?_set_ne hne

/-- Changes of new objects leave what was there before. -/
theorem prefix_of_editedAt {h₀ : Heap} (hpre : h₀ <+: h) (hedit : EditedAt S h h')
    (hfresh : ∀ a ∈ S, h₀.length ≤ a) : h₀ <+: h' := by
  refine List.prefix_iff_getElem?.mpr fun i hi => ?_
  rw [hedit i fun hmem => absurd (hfresh i hmem) (by omega)]
  exact List.prefix_iff_getElem?.mp hpre i hi

/-- Values that share nothing with what was changed read as before. -/
theorem Holds.of_editedAt {T : List ℕ} (hold : Holds h ps S) (hedit : EditedAt T h h')
    (hdisj : ∀ a ∈ S, a ∉ T) : Holds h' ps S :=
  hold.frame fun a ha => hedit a (hdisj a ha)

/-- Some of the values, in their order. -/
theorem Holds.sublist {qs : List (Val × Obj)} (hsub : qs.Sublist ps) (hold : Holds h ps S) :
    ∃ T, T.Sublist S ∧ Holds h qs T := by
  induction hsub generalizing S with
  | slnil => exact ⟨S, List.Sublist.refl S, hold⟩
  | cons p _ ih =>
    obtain ⟨T, U, rfl, -, hU⟩ := holds_cons.mp hold
    obtain ⟨V, hV, hqs⟩ := ih hU
    exact ⟨V, hV.trans (List.sublist_append_right T U), hqs⟩
  | cons_cons p _ ih =>
    obtain ⟨T, U, rfl, hT, hU⟩ := holds_cons.mp hold
    obtain ⟨V, hV, hqs⟩ := ih hU
    exact ⟨T ++ V, hV.append_left T, holds_cons.mpr ⟨T, V, rfl, hT, hqs⟩⟩

/-- **The rule of a loop that changes every element**: the body changes what one value reaches, and
no other value reaches it. -/
theorem Holds.loop {body : Val → Prog Heap Unit} {f : Obj → Obj}
    (hbody : ∀ {h v o S}, Repr h v o S → S.Nodup → ∃ h' S', (body v).run h = (.ok (), h') ∧
      EditedAt S h h' ∧ Repr h' v (f o) S' ∧ S'.Sublist S)
    (hold : Holds h ps S) (hnodup : S.Nodup) :
    ∃ h' S', (Prog.forM (ps.map Prod.fst) body).run h = (.ok (), h') ∧ EditedAt S h h' ∧
      Holds h' (ps.map fun p => (p.1, f p.2)) S' ∧ S'.Sublist S := by
  induction ps generalizing h S with
  | nil =>
    exact ⟨h, S, rfl, EditedAt.refl S h, hold, List.Sublist.refl S⟩
  | cons p ps ih =>
    obtain ⟨T, U, rfl, hT, hU⟩ := holds_cons.mp hold
    obtain ⟨hnodupT, hnodupU, hdisj⟩ := List.nodup_append.mp hnodup
    obtain ⟨h₁, T', hrun, hedit, hT', hsubT⟩ := hbody hT hnodupT
    have hU₁ := hU.of_editedAt hedit fun a ha haT => hdisj a haT a ha rfl
    obtain ⟨h₂, U', hrun', hedit', hU', hsubU⟩ := ih hU₁ hnodupU
    have hT₂ := hT'.of_editedAt hedit' fun a ha haU => hdisj a (hsubT.subset ha) a haU rfl
    refine ⟨h₂, T' ++ U', (Prog.run_bind_of_ok hrun).trans hrun', ?_,
      holds_cons.mpr ⟨T', U', rfl, hT₂, hU'⟩, hsubT.append hsubU⟩
    exact (hedit.mono (List.subset_append_left T U)).trans
      (hedit'.mono (List.subset_append_right T U))

/-- **The rule of one value of a dictionary**: whatever it becomes, the dictionary has it in its
place, and the other values stay as they are. -/
theorem Holds.focus {es : Items (Val × Obj)} {k : Key} (hold : Holds h (es.map Prod.snd) S)
    (hget : Items.get es k = some (v, o)) :
    ∃ A T B, S = A ++ (T ++ B) ∧ Repr h v o T ∧ ∀ {h' o' T'},
      (∀ a ∈ A ++ B, h'[a]? = h[a]?) → Repr h' v o' T' →
        Holds h' ((Items.set es k (v, o')).map Prod.snd) (A ++ (T' ++ B)) := by
  induction es generalizing S with
  | nil => cases hget
  | cons e es ih =>
    obtain ⟨k₀, v₀, o₀⟩ := e
    rw [List.map_cons] at hold
    obtain ⟨T₀, U, rfl, hT₀, hU⟩ := holds_cons.mp hold
    rw [Items.get_cons] at hget
    split_ifs at hget with hk
    · obtain ⟨rfl, rfl⟩ := Prod.mk.inj (Option.some.inj hget)
      refine ⟨[], T₀, U, rfl, hT₀, fun hsame hv => ?_⟩
      rw [Items.set, if_pos hk]
      exact holds_cons.mpr ⟨_, U, rfl, hv, hU.frame hsame⟩
    · obtain ⟨A, T, B, rfl, hT, hset⟩ := ih hU hget
      refine ⟨T₀ ++ A, T, B, by rw [List.append_assoc], hT, fun hsame hv => ?_⟩
      rw [List.append_assoc] at hsame ⊢
      obtain ⟨hsame₀, hsame⟩ := List.forall_mem_append.mp hsame
      rw [Items.set, if_neg hk]
      exact holds_cons.mpr ⟨T₀, _, rfl, hT₀.frame hsame₀, hset hsame hv⟩

/-- A further value of a dictionary. -/
theorem Holds.set {es : Items (Val × Obj)} {T : List ℕ} (hold : Holds h (es.map Prod.snd) S)
    (hv : Repr h v o T) (k : Key) :
    ∃ U, Holds h ((Items.set es k (v, o)).map Prod.snd) U ∧ U.Subperm (S ++ T) := by
  induction es generalizing S with
  | nil => exact ⟨T, hv, (List.sublist_append_right S T).subperm⟩
  | cons e es ih =>
    rw [List.map_cons] at hold
    obtain ⟨A, B, rfl, hA, hB⟩ := holds_cons.mp hold
    rw [Items.set]
    split_ifs with hk
    · refine ⟨T ++ B, holds_cons.mpr ⟨T, B, rfl, hv, hB⟩, ?_⟩
      refine List.perm_append_comm.subperm.trans ?_
      exact ((List.sublist_append_right A B).append_right T).subperm
    · obtain ⟨U, hU, hsub⟩ := ih hB
      refine ⟨A ++ U, holds_cons.mpr ⟨A, U, rfl, hA, hU⟩, ?_⟩
      rw [List.append_assoc]
      exact (List.subperm_append_left A).mpr hsub

/-- The values of a dictionary after an update. -/
theorem Holds.update {es fs : Items (Val × Obj)} {T : List ℕ} (hold : Holds h (es.map Prod.snd) S)
    (hfs : Holds h (fs.map Prod.snd) T) :
    ∃ U, Holds h ((Items.update es fs).map Prod.snd) U ∧ U.Subperm (S ++ T) := by
  induction fs generalizing es S T with
  | nil => exact ⟨S, hold, (List.sublist_append_left S T).subperm⟩
  | cons f fs ih =>
    rw [List.map_cons] at hfs
    obtain ⟨A, B, rfl, hA, hB⟩ := holds_cons.mp hfs
    obtain ⟨U, hU, hsub⟩ := hold.set hA f.1
    obtain ⟨V, hV, hsub'⟩ := ih hU hB
    refine ⟨V, hV, hsub'.trans ?_⟩
    rw [← List.append_assoc]
    exact (List.subperm_append_right B).mpr hsub

/-! ### Dictionaries -/

section Dict

variable {d : Dict} {p : ℕ} {T : List ℕ}

/-- The items of a dictionary object. -/
theorem repr_ref_map (h' : Repr h (.ref p) (.map d) (p :: T)) : ∃ es : Items (Val × Obj),
    h[p]? = some (.dict (Items.mapVal Prod.fst es)) ∧ Items.mapVal Prod.snd es = d ∧
      Holds h (es.map Prod.snd) T := by
  obtain ⟨a, es, T₀, ha, hT, hcell, hd, hes⟩ := repr_map.mp h'
  obtain rfl := Val.ref.inj ha
  obtain ⟨-, rfl⟩ := List.cons_eq_cons.mp hT
  exact ⟨es, hcell, hd, hes⟩

/-- A dictionary with other items reads as these, if nothing that they hold reaches it. -/
theorem Repr.dictModify {es es' : Items (Val × Obj)} {U : List ℕ}
    (hcell : h[p]? = some (.dict (Items.mapVal Prod.fst es))) (f : Items Val → Items Val)
    (hes' : f (Items.mapVal Prod.fst es) = Items.mapVal Prod.fst es')
    (hU : Holds h (es'.map Prod.snd) U) (hpU : p ∉ U) :
    ∃ h', (dictModify (.ref p) f).run h = (.ok (), h') ∧ EditedAt [p] h h' ∧
      Repr h' (.ref p) (.map (Items.mapVal Prod.snd es')) (p :: U) := by
  have hlt : p < h.length := (List.getElem?_eq_some_iff.mp hcell).1
  have hedit : EditedAt [p] h (h.set p (.dict (f (Items.mapVal Prod.fst es)))) :=
    editedAt_set p _ List.mem_cons_self
  refine ⟨_, run_dictModify hcell f, hedit, repr_map.mpr ⟨p, es', U, rfl, rfl, ?_, rfl,
    hU.of_editedAt hedit fun a ha hmem => hpU (List.mem_singleton.mp hmem ▸ ha)⟩⟩
  rw [List.getElem?_set_self hlt, hes']
  rfl

/-- A dictionary with further values, none of which reaches it. -/
theorem Repr.dictUpdate {fs : Items (Val × Obj)} {F : List ℕ}
    (hrepr : Repr h (.ref p) (.map d) (p :: T)) (hp : p ∉ T) (hfs : Holds h (fs.map Prod.snd) F)
    (hpF : p ∉ F) :
    ∃ h' T', (dictUpdate (.ref p) (Items.mapVal Prod.fst fs)).run h = (.ok (), h') ∧
      EditedAt [p] h h' ∧ Repr h' (.ref p) (.map (d.update (Items.mapVal Prod.snd fs))) (p :: T') ∧
      T'.Subperm (T ++ F) := by
  obtain ⟨es, hcell, rfl, hes⟩ := repr_ref_map hrepr
  obtain ⟨U, hU, hsub⟩ := hes.update hfs
  have hpU : p ∉ U := fun hmem => (List.mem_append.mp (hsub.subset hmem)).elim hp hpF
  obtain ⟨h', hrun, hedit, hrepr'⟩ := Repr.dictModify hcell (fun d => Items.update d _)
    (Items.update_mapVal Prod.fst es fs).symm hU hpU
  rw [Items.update_mapVal, ← Items.dict_update] at hrepr'
  exact ⟨h', U, hrun, hedit, hrepr', hsub⟩

/-- A dictionary with a value, which does not reach it. -/
theorem Repr.dictSet {F : List ℕ} (hrepr : Repr h (.ref p) (.map d) (p :: T)) (hp : p ∉ T)
    (hv : Repr h v o F) (hpF : p ∉ F) (k : Key) :
    ∃ h' T', (dictSet (.ref p) k v).run h = (.ok (), h') ∧ EditedAt [p] h h' ∧
      Repr h' (.ref p) (.map (d.set k o)) (p :: T') ∧ T'.Subperm (T ++ F) := by
  have hfs : Holds h ([(k, v, o)].map Prod.snd) F := hv
  exact Repr.dictUpdate hrepr hp hfs hpF

/-- The value that was set is there. -/
theorem run_dictGet_of_dictSet {kvs : Items Val} {k : Key} (hcell : h[p]? = some (.dict kvs))
    (hrun : (dictSet (.ref p) k v).run h = (.ok (), h')) :
    (dictGet (.ref p) k).run h' = (.ok (some v), h') := by
  have hlt : p < h.length := (List.getElem?_eq_some_iff.mp hcell).1
  have hset := run_dictModify hcell fun d => Items.set d k v
  obtain rfl : h.set p (.dict (Items.set kvs k v)) = h' :=
    (Prod.mk.inj (hset.symm.trans hrun)).2
  rw [run_dictGet (List.getElem?_set_self hlt), Items.get_set_self]

/-- A dictionary without a key. -/
theorem Repr.dictPop (hrepr : Repr h (.ref p) (.map d) (p :: T)) (hp : p ∉ T) (k : Key) :
    ∃ h' T', (dictPop (.ref p) k).run h = (.ok (), h') ∧ EditedAt [p] h h' ∧
      Repr h' (.ref p) (.map (d.erase k)) (p :: T') ∧ T'.Sublist T := by
  obtain ⟨es, hcell, rfl, hes⟩ := repr_ref_map hrepr
  obtain ⟨U, hsub, hU⟩ := hes.sublist (List.filter_sublist.map Prod.snd :
    ((Items.erase es k).map Prod.snd).Sublist (es.map Prod.snd))
  have hpU : p ∉ U := fun hmem => hp (hsub.subset hmem)
  obtain ⟨h', hrun, hedit, hrepr'⟩ := Repr.dictModify hcell (fun d => Items.erase d k)
    (Items.erase_mapVal Prod.fst es k).symm hU hpU
  rw [Items.erase_mapVal] at hrepr'
  exact ⟨h', U, hrun, hedit, hrepr', hsub⟩

/-- A dictionary that does not have a key. -/
theorem Repr.dictGet_none (hrepr : Repr h (.ref p) (.map d) (p :: T)) {k : Key}
    (hget : d.get k = none) : (dictGet (.ref p) k).run h = (.ok none, h) := by
  obtain ⟨es, hcell, rfl, hes⟩ := repr_ref_map hrepr
  have hes' : Items.get es k = none :=
    Option.map_eq_none_iff.mp ((Items.get_mapVal Prod.snd es k).symm.trans hget)
  rw [run_dictGet hcell, Items.get_mapVal, hes', Option.map_none]

/-- **A value of a dictionary**, and what the dictionary reads as when this value becomes another
one. -/
theorem Repr.dictGet_some (hrepr : Repr h (.ref p) (.map d) (p :: T)) {k : Key}
    (hget : d.get k = some o) :
    ∃ x A U B, (dictGet (.ref p) k).run h = (.ok (some x), h) ∧ T = A ++ (U ++ B) ∧
      Repr h x o U ∧ ∀ {h' o' U'}, (∀ a ∈ p :: (A ++ B), h'[a]? = h[a]?) → Repr h' x o' U' →
        Repr h' (.ref p) (.map (d.set k o')) (p :: (A ++ (U' ++ B))) := by
  obtain ⟨es, hcell, rfl, hes⟩ := repr_ref_map hrepr
  obtain ⟨⟨x, o₁⟩, hes', ho⟩ :=
    Option.map_eq_some_iff.mp ((Items.get_mapVal Prod.snd es k).symm.trans hget)
  obtain rfl : o₁ = o := ho
  obtain ⟨A, U, B, rfl, hU, hset⟩ := hes.focus hes'
  refine ⟨x, A, U, B, ?_, rfl, hU, fun {h' o' U'} hsame hx => ?_⟩
  · rw [run_dictGet hcell, Items.get_mapVal, hes', Option.map_some]
  · obtain ⟨hself, hsame⟩ := List.forall_mem_cons.mp hsame
    refine repr_map.mpr ⟨p, Items.set es k (x, o'), _, rfl, rfl, ?_, ?_, hset hsame hx⟩
    · have hfst : Items.get (Items.mapVal Prod.fst es) k = some x := by
        rw [Items.get_mapVal, hes', Option.map_some]
      rw [hself, hcell]
      refine congrArg (fun kvs => some (Cell.dict kvs)) ?_
      exact (Items.set_eq_self hfst).symm.trans (Items.set_mapVal Prod.fst es k (x, o')).symm
    · rw [Items.dict_set]
      exact Items.set_mapVal Prod.snd es k (x, o')

end Dict

end Heap

end C2Engine.Python
