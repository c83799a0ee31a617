import C2Engine.Python.Dict
import C2Engine.Python.Prog

/-!
# Objects in a heap

Lists and dictionaries are mutable objects with an identity: two names may stand for one object,
and an assignment through one of them is seen through the other. Here they are cells of a heap,
which a value refers to by address. `Holds h ps S` says that in the heap `h` the values of `ps`
read as the objects paired with them, and that `S` lists the addresses they reach, as often as they
reach them; without a repetition the objects are trees, and a change of one of them is seen
nowhere else.

`copy.deepcopy` keeps a memo of the objects it has copied. Its recursion is bounded, as the
interpreter's is.

## Main definitions

* `Atom`, `Val`, `Cell`, `Heap`: values and the heap.
* `Heap.Holds`, `Heap.Repr`: what values read as.
* `Heap.alloc`, `Heap.load`, `Heap.store`: the operations.
* `Heap.deepcopy`: `copy.deepcopy`.

## Main results

* `Heap.Holds.frame`: a change elsewhere leaves what a value reads as.
* `Heap.exists_placed`: every object has a place.
* `Heap.deepcopy_spec`: a copy of a tree reads as the tree does, and all of it is new.
-/

namespace C2Engine.Python

/-- A value that is no list and no dictionary. -/
def Obj.IsAtom : Obj → Prop
  | .list _ | .map _ => False
  | _ => True

/-- An immutable value. -/
abbrev Atom := {v : Obj // v.IsAtom}

/-- A value: an immutable one, or the address of an object. -/
inductive Val where
  | atom (a : Atom)
  | ref (addr : ℕ)

/-- A mutable object. -/
inductive Cell where
  | list (xs : List Val)
  | dict (kvs : List (Key × Val))

namespace Cell

/-- The values in an object. -/
def parts : Cell → List Val
  | .list vs => vs
  | .dict kvs => kvs.map Prod.snd

/-- An object of the kind of another one, with nothing in it. -/
def empty : Cell → Cell
  | .list _ => .list []
  | .dict _ => .dict []

/-- An object with other values in the places of its own. -/
def refill : Cell → List Val → Cell
  | .list _, ws => .list ws
  | .dict kvs, ws => .dict ((kvs.map Prod.fst).zip ws)

end Cell

/-- The objects by their address. -/
abbrev Heap := List Cell

namespace Heap

/-! ### What values read as -/

/-- The values read as the objects paired with them, and reach the addresses of the list, as often
as they reach them. -/
inductive Holds (h : Heap) : List (Val × Obj) → List ℕ → Prop
  | nil : Holds h [] []
  | atom {a : Atom} {o : Obj} {rest : List (Val × Obj)} {S : List ℕ} (ha : a.val = o)
      (hrest : Holds h rest S) : Holds h ((.atom a, o) :: rest) S
  | list {a : ℕ} {ps rest : List (Val × Obj)} {os : List Obj} {S T : List ℕ}
      (hcell : h[a]? = some (.list (ps.map Prod.fst))) (hos : ps.map Prod.snd = os)
      (hps : Holds h ps S) (hrest : Holds h rest T) :
      Holds h ((.ref a, .list os) :: rest) (a :: (S ++ T))
  | dict {a : ℕ} {es : List (Key × Val × Obj)} {rest : List (Val × Obj)} {d : Dict} {S T : List ℕ}
      (hcell : h[a]? = some (.dict (es.map fun e => (e.1, e.2.1))))
      (hd : es.map (fun e => (e.1, e.2.2)) = d) (hes : Holds h (es.map Prod.snd) S)
      (hrest : Holds h rest T) : Holds h ((.ref a, .map d) :: rest) (a :: (S ++ T))

/-- The value reads as the object, and reaches the addresses of the list. -/
def Repr (h : Heap) (v : Val) (o : Obj) (S : List ℕ) : Prop := Holds h [(v, o)] S

variable {h h' : Heap} {v : Val} {o : Obj} {ps : List (Val × Obj)} {S : List ℕ}

/-- A change elsewhere leaves what values read as. -/
theorem Holds.frame (hold : Holds h ps S) (hsame : ∀ a ∈ S, h'[a]? = h[a]?) : Holds h' ps S := by
  induction hold with
  | nil => exact .nil
  | atom ha _ ih => exact .atom ha (ih hsame)
  | list hcell hos _ _ ihps ihrest =>
    obtain ⟨hself, hsame⟩ := List.forall_mem_cons.mp hsame
    obtain ⟨hS, hT⟩ := List.forall_mem_append.mp hsame
    exact .list (hself.trans hcell) hos (ihps hS) (ihrest hT)
  | dict hcell hd _ _ ihes ihrest =>
    obtain ⟨hself, hsame⟩ := List.forall_mem_cons.mp hsame
    obtain ⟨hS, hT⟩ := List.forall_mem_append.mp hsame
    exact .dict (hself.trans hcell) hd (ihes hS) (ihrest hT)

/-- The addresses are those of objects. -/
theorem Holds.lt_length (hold : Holds h ps S) : ∀ a ∈ S, a < h.length := by
  have hlt {a : ℕ} {c : Cell} (hcell : h[a]? = some c) : a < h.length :=
    (List.getElem?_eq_some_iff.mp hcell).1
  induction hold with
  | nil => exact nofun
  | atom _ _ ih => exact ih
  | list hcell _ _ _ ihps ihrest =>
    exact List.forall_mem_cons.mpr ⟨hlt hcell, List.forall_mem_append.mpr ⟨ihps, ihrest⟩⟩
  | dict hcell _ _ _ ihes ihrest =>
    exact List.forall_mem_cons.mpr ⟨hlt hcell, List.forall_mem_append.mpr ⟨ihes, ihrest⟩⟩

/-- An address of a larger heap that was there before. -/
theorem getElem?_of_prefix (hpre : h <+: h') {a : ℕ} (ha : a < h.length) : h'[a]? = h[a]? := by
  obtain ⟨cells, rfl⟩ := hpre
  exact List.getElem?_append_left ha

theorem Holds.mono (hold : Holds h ps S) (hpre : h <+: h') : Holds h' ps S :=
  hold.frame fun a ha => getElem?_of_prefix hpre (hold.lt_length a ha)

/-- The values of a list one after the other. -/
theorem holds_cons : Holds h ((v, o) :: ps) S ↔
    ∃ T U, S = T ++ U ∧ Repr h v o T ∧ Holds h ps U := by
  constructor
  · intro hold
    cases hold with
    | atom ha hrest => exact ⟨[], S, rfl, .atom ha .nil, hrest⟩
    | list hcell hos hps hrest =>
      exact ⟨_, _, (List.cons_append).symm,
        by simpa [Repr] using Holds.list hcell hos hps .nil, hrest⟩
    | dict hcell hd hes hrest =>
      exact ⟨_, _, (List.cons_append).symm,
        by simpa [Repr] using Holds.dict hcell hd hes .nil, hrest⟩
  · rintro ⟨T, U, rfl, hT, hU⟩
    cases hT with
    | atom ha hrest =>
      cases hrest
      exact .atom ha hU
    | list hcell hos hps hrest =>
      cases hrest
      simpa using Holds.list hcell hos hps hU
    | dict hcell hd hes hrest =>
      cases hrest
      simpa using Holds.dict hcell hd hes hU

theorem holds_append {qs : List (Val × Obj)} : Holds h (ps ++ qs) S ↔
    ∃ T U, S = T ++ U ∧ Holds h ps T ∧ Holds h qs U := by
  induction ps generalizing S with
  | nil =>
    refine ⟨fun hold => ⟨[], S, rfl, .nil, hold⟩, ?_⟩
    rintro ⟨T, U, rfl, hT, hU⟩
    cases hT
    exact hU
  | cons p ps ih =>
    rw [List.cons_append, holds_cons]
    constructor
    · rintro ⟨T, U, rfl, hT, hU⟩
      obtain ⟨U₁, U₂, rfl, h₁, h₂⟩ := ih.mp hU
      exact ⟨T ++ U₁, U₂, by rw [List.append_assoc], holds_cons.mpr ⟨T, U₁, rfl, hT, h₁⟩, h₂⟩
    · rintro ⟨T, U, rfl, hT, hU⟩
      obtain ⟨T₁, T₂, rfl, h₁, h₂⟩ := holds_cons.mp hT
      exact ⟨T₁, T₂ ++ U, by rw [List.append_assoc], h₁, ih.mpr ⟨T₂, U, rfl, h₂, hU⟩⟩

theorem repr_atom {a : Atom} : Repr h (.atom a) o S ↔ a.val = o ∧ S = [] := by
  constructor
  · intro hold
    cases hold with
    | atom ha hrest =>
      cases hrest
      exact ⟨ha, rfl⟩
  · rintro ⟨ha, rfl⟩
    exact .atom ha .nil

/-- What reads as an immutable value is this value. -/
theorem atom_of_repr (hrepr : Repr h v o S) (ho : o.IsAtom) : v = .atom ⟨o, ho⟩ := by
  cases hrepr with
  | atom ha _ =>
    subst ha
    rfl
  | list => exact ho.elim
  | dict => exact ho.elim

/-- A list or a dictionary is no immutable value. -/
theorem not_isAtom {a : Atom} {o : Obj} (ha : a.val = o) (ho : ¬ o.IsAtom) : False :=
  ho (ha ▸ a.property)

theorem repr_list {os : List Obj} : Repr h v (.list os) S ↔ ∃ a ps T, v = .ref a ∧ S = a :: T ∧
    h[a]? = some (.list (ps.map Prod.fst)) ∧ ps.map Prod.snd = os ∧ Holds h ps T := by
  constructor
  · intro hold
    cases hold with
    | atom ha _ => exact (not_isAtom ha id).elim
    | list hcell hos hps hrest =>
      cases hrest
      exact ⟨_, _, _, rfl, by rw [List.append_nil], hcell, hos, hps⟩
  · rintro ⟨a, ps, T, rfl, rfl, hcell, hos, hps⟩
    simpa [Repr] using Holds.list hcell hos hps .nil

theorem repr_map {d : Dict} : Repr h v (.map d) S ↔
    ∃ (a : ℕ) (es : List (Key × Val × Obj)) (T : List ℕ), v = .ref a ∧ S = a :: T ∧
      h[a]? = some (.dict (es.map fun e => (e.1, e.2.1))) ∧ es.map (fun e => (e.1, e.2.2)) = d ∧
      Holds h (es.map Prod.snd) T := by
  constructor
  · intro hold
    cases hold with
    | atom ha _ => exact (not_isAtom ha id).elim
    | dict hcell hd hes hrest =>
      cases hrest
      exact ⟨_, _, _, rfl, by rw [List.append_nil], hcell, hd, hes⟩
  · rintro ⟨a, es, T, rfl, rfl, hcell, hd, hes⟩
    simpa [Repr] using Holds.dict hcell hd hes .nil

/-! ### Every object has a place -/

/-- A heap that grew by objects the values reach. -/
def Placed (h h' : Heap) (ps : List (Val × Obj)) (S : List ℕ) : Prop :=
  h <+: h' ∧ Holds h' ps S ∧ S.Nodup ∧ ∀ a ∈ S, h.length ≤ a

theorem placed_atom (h : Heap) (a : Atom) : Placed h h [(.atom a, a.val)] [] :=
  ⟨List.prefix_rfl, .atom rfl .nil, List.nodup_nil, nofun⟩

/-- An object whose parts have a place has one. -/
theorem exists_placed_ref (hplaced : Placed h h' ps S) {c : Cell}
    (hrepr : ∀ {h₂ : Heap} {b : ℕ}, h₂[b]? = some c → Holds h₂ ps S → Repr h₂ (.ref b) o (b :: S)) :
    ∃ h₂ v T, Placed h h₂ [(v, o)] T := by
  obtain ⟨hpre, hold, hnodup, hfresh⟩ := hplaced
  refine ⟨h' ++ [c], .ref h'.length, h'.length :: S, hpre.trans (List.prefix_append h' _),
    hrepr ?_ (hold.mono (List.prefix_append h' _)), ?_, ?_⟩
  · rw [List.getElem?_append_right le_rfl, Nat.sub_self]
    rfl
  · exact List.nodup_cons.mpr ⟨fun hmem => lt_irrefl _ (hold.lt_length _ hmem), hnodup⟩
  · exact List.forall_mem_cons.mpr ⟨hpre.length_le, hfresh⟩

theorem Placed.cons {h₂ : Heap} {T : List ℕ} (hv : Placed h h' [(v, o)] S)
    (hps : Placed h' h₂ ps T) : Placed h h₂ ((v, o) :: ps) (S ++ T) := by
  obtain ⟨hpre, hold, hnodup, hfresh⟩ := hv
  obtain ⟨hpre', hold', hnodup', hfresh'⟩ := hps
  refine ⟨hpre.trans hpre', holds_cons.mpr ⟨S, T, rfl, Holds.mono hold hpre', hold'⟩, ?_, ?_⟩
  · refine List.nodup_append.mpr ⟨hnodup, hnodup', fun a ha b hb heq => ?_⟩
    have hlt := hold.lt_length a ha
    have hle := hfresh' b hb
    omega
  · refine List.forall_mem_append.mpr ⟨hfresh, fun a ha => ?_⟩
    exact hpre.length_le.trans (hfresh' a ha)

mutual

/-- **Every object has a place** in a heap that grows. -/
theorem exists_placed (h : Heap) : (o : Obj) → ∃ h' v S, Placed h h' [(v, o)] S
  | .list os => by
    obtain ⟨h', ps, S, rfl, hplaced⟩ := exists_placed_list h os
    exact exists_placed_ref hplaced fun hcell hold =>
      repr_list.mpr ⟨_, ps, S, rfl, rfl, hcell, rfl, hold⟩
  | .map d => by
    obtain ⟨h', es, S, rfl, hplaced⟩ := exists_placed_items h d
    exact exists_placed_ref hplaced fun hcell hold =>
      repr_map.mpr ⟨_, es, S, rfl, rfl, hcell, rfl, hold⟩
  | .none => ⟨h, _, [], placed_atom h ⟨.none, trivial⟩⟩
  | .bool b => ⟨h, _, [], placed_atom h ⟨.bool b, trivial⟩⟩
  | .int n => ⟨h, _, [], placed_atom h ⟨.int n, trivial⟩⟩
  | .float x => ⟨h, _, [], placed_atom h ⟨.float x, trivial⟩⟩
  | .str s => ⟨h, _, [], placed_atom h ⟨.str s, trivial⟩⟩
  | .bytes b => ⟨h, _, [], placed_atom h ⟨.bytes b, trivial⟩⟩
  | .ext code data => ⟨h, _, [], placed_atom h ⟨.ext code data, trivial⟩⟩
  | .timestamp s n => ⟨h, _, [], placed_atom h ⟨.timestamp s n, trivial⟩⟩

theorem exists_placed_list (h : Heap) : (os : List Obj) →
    ∃ h' ps S, ps.map Prod.snd = os ∧ Placed h h' ps S
  | [] => ⟨h, [], [], rfl, List.prefix_rfl, .nil, List.nodup_nil, nofun⟩
  | o :: os => by
    obtain ⟨h₁, v, S, hv⟩ := exists_placed h o
    obtain ⟨h₂, ps, T, rfl, hps⟩ := exists_placed_list h₁ os
    exact ⟨h₂, (v, o) :: ps, S ++ T, rfl, hv.cons hps⟩

theorem exists_placed_items (h : Heap) : (d : List (Key × Obj)) →
    ∃ (h' : Heap) (es : List (Key × Val × Obj)) (S : List ℕ),
      es.map (fun e => (e.1, e.2.2)) = d ∧ Placed h h' (es.map Prod.snd) S
  | [] => ⟨h, [], [], rfl, List.prefix_rfl, .nil, List.nodup_nil, nofun⟩
  | (k, o) :: d => by
    obtain ⟨h₁, v, S, hv⟩ := exists_placed h o
    obtain ⟨h₂, es, T, rfl, hes⟩ := exists_placed_items h₁ d
    exact ⟨h₂, (k, v, o) :: es, S ++ T, rfl, hv.cons hes⟩

end

/-! ### The operations -/

/-- Make a new object. -/
def alloc (c : Cell) : Prog Heap ℕ := fun h => (.ok h.length, h ++ [c])

/-- The object at an address. -/
def load (a : ℕ) : Prog Heap Cell := fun h =>
  match h[a]? with
  | some c => (.ok c, h)
  | none => (.error .other, h)

/-- Change the object at an address. -/
def store (a : ℕ) (c : Cell) : Prog Heap Unit := Prog.modify fun h => h.set a c

/-- The objects copied so far, with their copies. -/
abbrev Memo := List (ℕ × ℕ)

/-- The copies of values one after the other. -/
def copyAll (copy : Memo → Val → Prog Heap (Val × Memo)) :
    Memo → List Val → Prog Heap (List Val × Memo)
  | memo, [] => pure ([], memo)
  | memo, v :: vs => do
    let (w, memo) ← copy memo v
    let (ws, memo) ← copyAll copy memo vs
    return (w :: ws, memo)

/-- `copy.deepcopy(v, memo)`, with the number of calls the recursion limit leaves. An object is
in the memo before its parts are copied. -/
def deepcopy : ℕ → Memo → Val → Prog Heap (Val × Memo)
  | 0, _, _ => Prog.raise .runtimeError
  | _ + 1, memo, .atom a => pure (.atom a, memo)
  | limit + 1, memo, .ref a =>
    match memo.lookup a with
    | some b => pure (.ref b, memo)
    | none => do
      let c ← load a
      let b ← alloc c.empty
      let (ws, memo) ← copyAll (deepcopy limit) ((a, b) :: memo) c.parts
      store b (c.refill ws)
      return (.ref b, memo)

/-! ### Copies -/

theorem lookup_cons_ne {memo : Memo} {a b x : ℕ} (hne : x ≠ a) :
    List.lookup x ((a, b) :: memo) = memo.lookup x := by
  rw [List.lookup_cons, beq_eq_false_iff_ne.mpr hne]

theorem run_load {a : ℕ} {c : Cell} (hcell : h[a]? = some c) : (load a).run h = (.ok c, h) := by
  change (match h[a]? with
    | some c => (.ok c, h)
    | none => (.error .other, h) : Except PyExc Cell × Heap) = _
  rw [hcell]

section Deepcopy

variable {limit a : ℕ} {memo memo' : Memo} {c : Cell} {h₂ : Heap}

theorem run_deepcopy_ref_of_ok {ws : List Val} (hlookup : memo.lookup a = none)
    (hcell : h[a]? = some c)
    (hrun : (copyAll (deepcopy limit) ((a, h.length) :: memo) c.parts).run (h ++ [c.empty]) =
      (.ok (ws, memo'), h₂)) :
    (deepcopy (limit + 1) memo (.ref a)).run h =
      (.ok (.ref h.length, memo'), h₂.set h.length (c.refill ws)) := by
  rw [deepcopy, hlookup]
  refine (Prog.run_bind_of_ok (run_load hcell)).trans ?_
  refine (Prog.run_bind_of_ok (m := alloc c.empty) rfl).trans ?_
  exact (Prog.run_bind_of_ok hrun).trans rfl

theorem run_deepcopy_ref_of_error {e : PyExc} (hlookup : memo.lookup a = none)
    (hcell : h[a]? = some c)
    (hrun : (copyAll (deepcopy limit) ((a, h.length) :: memo) c.parts).run (h ++ [c.empty]) =
      (.error e, h₂)) :
    (deepcopy (limit + 1) memo (.ref a)).run h = (.error e, h₂) := by
  rw [deepcopy, hlookup]
  refine (Prog.run_bind_of_ok (run_load hcell)).trans ?_
  refine (Prog.run_bind_of_ok (m := alloc c.empty) rfl).trans ?_
  exact Prog.run_bind_of_error hrun

/-- What a copy of values that read as objects leaves: new objects that read alike, which share
nothing. -/
structure Copied (h h₂ : Heap) (memo memo' : Memo) (S : List ℕ) (ps qs : List (Val × Obj))
    (S' : List ℕ) : Prop where
  extends_heap : h <+: h₂
  reads : qs.map Prod.snd = ps.map Prod.snd
  holds : Holds h₂ qs S'
  nodup : S'.Nodup
  fresh : ∀ a ∈ S', h.length ≤ a
  memo_of_notMem : ∀ a ∉ S, memo.lookup a = none → memo'.lookup a = none

/-- Copies of some values, and then of others that share nothing with them. -/
theorem Copied.append {memo'' : Memo} {h₃ : Heap} {qs ps' qs' : List (Val × Obj)}
    {T S' T' : List ℕ} (h₁ : Copied h h₂ memo memo' S ps qs S')
    (h₂' : Copied h₂ h₃ memo' memo'' T ps' qs' T') :
    Copied h h₃ memo memo'' (S ++ T) (ps ++ ps') (qs ++ qs') (S' ++ T') where
  extends_heap := h₁.extends_heap.trans h₂'.extends_heap
  reads := by rw [List.map_append, List.map_append, h₁.reads, h₂'.reads]
  holds := holds_append.mpr ⟨S', T', rfl, h₁.holds.mono h₂'.extends_heap, h₂'.holds⟩
  nodup := by
    refine List.nodup_append.mpr ⟨h₁.nodup, h₂'.nodup, fun a ha b hb heq => ?_⟩
    have hlt := h₁.holds.lt_length a ha
    have hle := h₂'.fresh b hb
    omega
  fresh := by
    refine List.forall_mem_append.mpr ⟨h₁.fresh, fun a ha => ?_⟩
    exact h₁.extends_heap.length_le.trans (h₂'.fresh a ha)
  memo_of_notMem a ha hnone := by
    obtain ⟨hS, hT⟩ := not_or.mp (mt List.mem_append.mpr ha)
    exact h₂'.memo_of_notMem a hT (h₁.memo_of_notMem a hS hnone)

end Deepcopy

/-- A value that reads as an object, at the addresses of the list, is copied where there are calls
enough left for the object, and raises where there are not. -/
def ValueCopies (h : Heap) (v : Val) (o : Obj) (S : List ℕ) : Prop :=
  ∀ (limit : ℕ) (memo : Memo) (h₁ : Heap), (∀ a ∈ S, h₁[a]? = h[a]?) →
    (∀ a ∈ S, memo.lookup a = none) →
    (o.copies limit ∧ ∃ w memo' h₂ S', (deepcopy limit memo v).run h₁ = (.ok (w, memo'), h₂) ∧
      Copied h₁ h₂ memo memo' S [(v, o)] [(w, o)] S') ∨
    (¬ o.copies limit ∧ ∃ e h₂, (deepcopy limit memo v).run h₁ = (.error e, h₂) ∧ h₁ <+: h₂)

/-- The same for values one after the other. -/
def ValuesCopy (h : Heap) (ps : List (Val × Obj)) (S : List ℕ) : Prop :=
  ∀ (limit : ℕ) (memo : Memo) (h₁ : Heap), (∀ a ∈ S, h₁[a]? = h[a]?) →
    (∀ a ∈ S, memo.lookup a = none) →
    ((∀ p ∈ ps, p.2.copies limit) ∧ ∃ qs memo' h₂ S',
      (copyAll (deepcopy limit) memo (ps.map Prod.fst)).run h₁ =
        (.ok (qs.map Prod.fst, memo'), h₂) ∧ Copied h₁ h₂ memo memo' S ps qs S') ∨
    ((¬ ∀ p ∈ ps, p.2.copies limit) ∧ ∃ e h₂,
      (copyAll (deepcopy limit) memo (ps.map Prod.fst)).run h₁ = (.error e, h₂) ∧ h₁ <+: h₂)

/-- One call is enough for a value that has no parts. -/
theorem copies_atom (a : Atom) (calls : ℕ) : a.val.copies (calls + 1) := by
  obtain ⟨o, ho⟩ := a
  cases o with
  | list xs => exact ho.elim
  | map d => exact ho.elim
  | _ => rfl

theorem valueCopies_atom (h : Heap) (a : Atom) : ValueCopies h (.atom a) a.val [] := by
  intro limit memo h₁ _ _
  cases limit with
  | zero => exact .inr ⟨Bool.false_ne_true, _, h₁, rfl, List.prefix_rfl⟩
  | succ limit =>
    refine .inl ⟨copies_atom a limit, .atom a, memo, h₁, [], rfl, ?_⟩
    exact {
      extends_heap := List.prefix_rfl
      reads := rfl
      holds := .atom rfl .nil
      nodup := List.nodup_nil
      fresh := nofun
      memo_of_notMem := fun _ _ => id }

theorem valuesCopy_nil (h : Heap) : ValuesCopy h [] [] := by
  intro limit memo h₁ _ _
  refine .inl ⟨nofun, [], memo, h₁, [], rfl, ?_⟩
  exact {
    extends_heap := List.prefix_rfl
    reads := rfl
    holds := .nil
    nodup := List.nodup_nil
    fresh := nofun
    memo_of_notMem := fun _ _ => id }

/-- A heap that has the objects at addresses of another one still has them when it grows. -/
theorem same_of_append {h₁ h₂ : Heap} {T : List ℕ} (hsame : ∀ a ∈ T, h₁[a]? = h[a]?)
    (hlt : ∀ a ∈ T, a < h.length) (hpre : h₁ <+: h₂) : ∀ a ∈ T, h₂[a]? = h[a]? := by
  intro a ha
  rw [← hsame a ha]
  refine getElem?_of_prefix hpre ?_
  have hsome := hsame a ha
  rw [List.getElem?_eq_getElem (hlt a ha)] at hsome
  exact (List.getElem?_eq_some_iff.mp hsome).1

/-- A change of an address that was not there before. -/
theorem prefix_set {h₂ : Heap} (hpre : h <+: h₂) {b : ℕ} (hb : h.length ≤ b) (c : Cell) :
    h <+: h₂.set b c := by
  obtain ⟨cells, rfl⟩ := hpre
  rw [List.set_append_right _ _ hb]
  exact List.prefix_append h _

theorem ValuesCopy.cons {T : List ℕ} (hv : ValueCopies h v o S)
    (hps : ValuesCopy h ps T) (hold : Holds h ps T) (hnodup : (S ++ T).Nodup) :
    ValuesCopy h ((v, o) :: ps) (S ++ T) := by
  intro limit memo h₁ hsame hnone
  obtain ⟨hsameS, hsameT⟩ := List.forall_mem_append.mp hsame
  obtain ⟨hnoneS, hnoneT⟩ := List.forall_mem_append.mp hnone
  rcases hv limit memo h₁ hsameS hnoneS with ⟨hcopies, w, memo', h₂, S', hrun, hcopied⟩ |
    ⟨hcopies, e, h₂, hrun, hpre⟩
  · have hfresh : ∀ a ∈ T, memo'.lookup a = none := fun a ha =>
      hcopied.memo_of_notMem a (fun hS => (List.nodup_append.mp hnodup).2.2 a hS a ha rfl)
        (hnoneT a ha)
    rcases hps limit memo' h₂
      (same_of_append hsameT hold.lt_length hcopied.extends_heap) hfresh with
      ⟨hall, qs, memo'', h₃, T', hrun', hcopied'⟩ | ⟨hall, e, h₃, hrun', hpre⟩
    · refine .inl ⟨List.forall_mem_cons.mpr ⟨hcopies, hall⟩, (w, o) :: qs, memo'', h₃, S' ++ T',
        ?_, hcopied.append hcopied'⟩
      exact (Prog.run_bind_of_ok hrun).trans ((Prog.run_bind_of_ok hrun').trans rfl)
    · refine .inr ⟨fun h => hall (List.forall_mem_cons.mp h).2, e, h₃, ?_,
        hcopied.extends_heap.trans hpre⟩
      exact (Prog.run_bind_of_ok hrun).trans (Prog.run_bind_of_error hrun')
  · exact .inr ⟨fun h => hcopies (List.forall_mem_cons.mp h).1, e, h₂,
      Prog.run_bind_of_error hrun, hpre⟩

/-- **An object is copied** when its parts are: the copy is a new object with the copies of the
parts. -/
theorem valueCopies_ref {a : ℕ} {c : Cell} (hps : ValuesCopy h ps S) (hold : Holds h ps S)
    (hcell : h[a]? = some c) (hparts : c.parts = ps.map Prod.fst)
    (hnodup : (a :: S).Nodup) {o : Obj}
    (hcopies : ∀ calls, o.copies (calls + 1) ↔ ∀ p ∈ ps, p.2.copies calls)
    (hrepr : ∀ (h₂ : Heap) (b : ℕ) (qs : List (Val × Obj)) (S' : List ℕ),
      qs.map Prod.snd = ps.map Prod.snd → h₂[b]? = some (c.refill (qs.map Prod.fst)) →
      Holds h₂ qs S' → Repr h₂ (.ref b) o (b :: S')) :
    ValueCopies h (.ref a) o (a :: S) := by
  intro limit memo h₁ hsame hnone
  obtain ⟨hself, hsame⟩ := List.forall_mem_cons.mp hsame
  obtain ⟨hnoneSelf, hnone⟩ := List.forall_mem_cons.mp hnone
  obtain ⟨hnotMem, -⟩ := List.nodup_cons.mp hnodup
  cases limit with
  | zero => exact .inr ⟨Bool.false_ne_true, _, h₁, rfl, List.prefix_rfl⟩
  | succ limit =>
    rw [hcopies]
    have hcell₁ : h₁[a]? = some c := hself.trans hcell
    have hsame' := same_of_append hsame hold.lt_length (List.prefix_append h₁ [c.empty])
    have hnone' : ∀ x ∈ S, ((a, h₁.length) :: memo).lookup x = none := by
      intro x hx
      have hne : x ≠ a := fun heq => hnotMem (heq ▸ hx)
      rw [lookup_cons_ne hne, hnone x hx]
    rcases hps limit _ _ hsame' hnone' with ⟨hall, qs, memo', h₂, S', hrun, hcopied⟩ |
      ⟨hall, e, h₂, hrun, hpre⟩
    · rw [← hparts] at hrun
      have hpre : h₁ <+: h₂ := (List.prefix_append h₁ _).trans hcopied.extends_heap
      have hlen : h₁.length < h₂.length := by
        have hle := hcopied.extends_heap.length_le
        rwa [List.length_append, List.length_singleton] at hle
      have hfresh : ∀ x ∈ S', h₁.length < x := by
        intro x hx
        have hle := hcopied.fresh x hx
        rwa [List.length_append, List.length_singleton] at hle
      have hframe : ∀ x ∈ S', (h₂.set h₁.length (c.refill (qs.map Prod.fst)))[x]? = h₂[x]? :=
        fun x hx => List.getElem?_set_ne (hfresh x hx).ne
      refine .inl ⟨hall, .ref h₁.length, memo', _, h₁.length :: S',
        run_deepcopy_ref_of_ok hnoneSelf hcell₁ hrun, ?_⟩
      exact {
        extends_heap := prefix_set hpre le_rfl _
        reads := rfl
        holds := hrepr _ _ qs S' hcopied.reads (List.getElem?_set_self hlen)
          (hcopied.holds.frame hframe)
        nodup := List.nodup_cons.mpr
          ⟨fun hmem => (hfresh _ hmem).ne rfl, hcopied.nodup⟩
        fresh := List.forall_mem_cons.mpr ⟨le_rfl, fun x hx => (hfresh x hx).le⟩
        memo_of_notMem := by
          intro x hx hx'
          obtain ⟨hne, hS⟩ := not_or.mp (mt List.mem_cons.mpr hx)
          exact hcopied.memo_of_notMem x hS (by rwa [lookup_cons_ne hne]) }
    · rw [← hparts] at hrun
      exact .inr ⟨hall, e, h₂, run_deepcopy_ref_of_error hnoneSelf hcell₁ hrun,
        (List.prefix_append h₁ _).trans hpre⟩

/-- Values that share nothing are copied. -/
theorem valuesCopy_of_holds (hold : Holds h ps S) (hnodup : S.Nodup) : ValuesCopy h ps S := by
  induction hold with
  | nil => exact valuesCopy_nil h
  | @atom a o rest T ha hrest ih =>
    exact ValuesCopy.cons (S := []) (ha ▸ valueCopies_atom h a) (ih hnodup) hrest hnodup
  | @list a ps rest os S T hcell hos hps hrest ihps ihrest =>
    rw [← List.cons_append] at hnodup ⊢
    obtain ⟨hself, hT, -⟩ := List.nodup_append.mp hnodup
    refine ValuesCopy.cons (valueCopies_ref (ihps (List.nodup_cons.mp hself).2) hps hcell rfl hself
      (fun calls => ?_) ?_) (ihrest hT) hrest hnodup
    · rw [Obj.copies_list, ← hos, List.forall_mem_map]
    intro h₂ b qs S' hreads hcell' hold'
    exact repr_list.mpr ⟨b, qs, S', rfl, rfl, hcell', hreads.trans hos, hold'⟩
  | @dict a es rest d S T hcell hd hes hrest ihes ihrest =>
    rw [← List.cons_append] at hnodup ⊢
    obtain ⟨hself, hT, -⟩ := List.nodup_append.mp hnodup
    refine ValuesCopy.cons (valueCopies_ref (ihes (List.nodup_cons.mp hself).2) hes hcell ?_ hself
      (fun calls => ?_) ?_) (ihrest hT) hrest hnodup
    · simp [Cell.parts, Function.comp_def]
    · rw [Obj.copies_map, ← hd, List.forall_mem_map, List.forall_mem_map]
    intro h₂ b qs S' hreads hcell' hold'
    -- the copies under the keys of the object
    refine repr_map.mpr ⟨b, (es.map Prod.fst).zip qs, S', rfl, rfl, ?_, ?_, ?_⟩
    · rw [hcell', Cell.refill, List.map_map, List.zip_map_right]
      rfl
    · calc ((es.map Prod.fst).zip qs).map (fun e => (e.1, e.2.2))
        _ = (es.map Prod.fst).zip (qs.map Prod.snd) := (List.zip_map_right ..).symm
        _ = (es.map Prod.fst).zip (es.map fun e => e.2.2) := by
          rw [hreads, List.map_map]
          rfl
        _ = es.map (fun e => (e.1, e.2.2)) := List.zip_map' ..
        _ = d := hd
    · rwa [List.map_snd_zip]
      rw [List.length_map, ← List.length_map Prod.snd, hreads, List.length_map, List.length_map]

/-- **A copy of a tree** reads as the tree does, and shares nothing with it or within itself. With
too few calls left for the depth of the tree it raises. -/
theorem deepcopy_spec (hrepr : Repr h v o S) (hnodup : S.Nodup) (limit : ℕ) :
    (o.copies limit ∧ ∃ w memo h₂ S', (deepcopy limit [] v).run h = (.ok (w, memo), h₂) ∧
      h <+: h₂ ∧ Repr h₂ w o S' ∧ S'.Nodup ∧ ∀ a ∈ S', h.length ≤ a) ∨
    (¬ o.copies limit ∧ ∃ e h₂, (deepcopy limit [] v).run h = (.error e, h₂) ∧ h <+: h₂) := by
  have hspec := valuesCopy_of_holds hrepr hnodup limit [] h (fun _ _ => rfl) (fun _ _ => rfl)
  rw [List.forall_mem_singleton] at hspec
  rcases hrun : (deepcopy limit [] v).run h with ⟨e | ⟨w, memo⟩, h₂⟩
  · have hall : (copyAll (deepcopy limit) [] [v]).run h = (.error e, h₂) :=
      Prog.run_bind_of_error hrun
    rcases hspec with ⟨-, qs, memo', h₃, S', hrun', -⟩ | ⟨hcopies, e', h₃, hrun', hpre⟩
    · cases hall.symm.trans hrun'
    · cases hall.symm.trans hrun'
      exact .inr ⟨hcopies, e, h₂, rfl, hpre⟩
  · have hall : (copyAll (deepcopy limit) [] [v]).run h = (.ok ([w], memo), h₂) :=
      Prog.run_bind_of_ok hrun
    rcases hspec with ⟨hcopies, qs, memo', h₃, S', hrun', hcopied⟩ | ⟨-, e', h₃, hrun', -⟩
    · obtain ⟨hout, rfl⟩ := Prod.mk.inj (hall.symm.trans hrun')
      obtain ⟨hfst, rfl⟩ := Prod.mk.inj (Except.ok.inj hout)
      -- the copy is the one value, paired with the one object
      obtain rfl : qs = [(w, o)] := by
        have hsnd := hcopied.reads
        obtain ⟨q, rfl⟩ := List.length_eq_one_iff.mp
          (show qs.length = 1 by rw [← List.length_map Prod.snd, hsnd]; rfl)
        rw [List.map_singleton] at hfst hsnd
        exact congrArg (fun q => [q]) (Prod.ext (List.singleton_inj.mp hfst).symm
          (List.singleton_inj.mp hsnd))
      exact .inl ⟨hcopies, w, memo, h₂, S', rfl, hcopied.extends_heap, hcopied.holds, hcopied.nodup,
        hcopied.fresh⟩
    · cases hall.symm.trans hrun'

end Heap

end C2Engine.Python
