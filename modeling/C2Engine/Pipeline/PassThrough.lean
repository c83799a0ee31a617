import C2Engine.Ingest.Server
import C2Engine.Pipeline.Pivot
import C2Engine.Python.Dict
import Mathlib.Data.List.Nodup

/-!
# Processing leaves a document in place

What the enrichment writes is apart from everything the engine reads: the names of its fields are
none of the names of the models, and of a file it only takes the inlined bytes away, which have a
part in nothing but the row of the served file. A document that went through `process` is therefore
a fixpoint of it, and without the fields it was given it is the document the fallback writes.

## Main definitions

* `enrichmentNames`, `pivotNames`: the fields of the enrichment, in `hp_data` and at the top.
* `SessionIn.stripped`: a session whose files have no inlined bytes.
* `withoutEnrichment`: a document without these fields.
* `dropContent`: a document without `content_b64` in the files of `hp_data`.

## Main results

* `validate_enriched`: what the models read in an enriched document.
* `process_enriched`: an enriched document is a fixpoint of `process`.
* `stripCopy_eq_ok`: what the fallback takes away.
* `withoutEnrichment_of_process`: an enriched document without the fields of the enrichment.
-/

namespace C2Engine

open Python

/-! ### The fields of the enrichment -/

/-- The names `_hp_data_fields` sets, in its order. -/
def enrichmentNames : List String :=
  ["iocs_ips", "iocs_urls", "iocs_domains", "iocs_c2_hosts", "iocs_ssh_key_sha1s",
   "iocs_file_hashes", "iocs_cve_ids", "playbook_canonical", "playbook_hash",
   "cred_sequence_hash", "cred_success_user", "cred_success_pass", "shape_duration_s",
   "shape_command_count", "shape_unknown_command_count", "shape_cred_attempts",
   "shape_failed_attempts_before_success", "shape_ttylog_bytes", "shape_has_pty",
   "shape_distinct_urls", "shape_distinct_file_hashes", "hassh", "payload_refs",
   "enrich_schema_version", "banner_vendor", "banner_product", "banner_version", "banner_cpe23"]

/-- The names of the fields `enrich_session` sets at the top of the document. -/
def pivotNames : List String := ["c2_host", "enrich_version"]

/-- The keys of a list of names. -/
def keysOf (names : List String) : List Key := names.map key

theorem key_mem_keysOf {name : String} {names : List String} :
    key name ∈ keysOf names ↔ name ∈ names := by
  simp [keysOf]

/-- The fields have their names in this order; those of the banner are there where there is one. -/
theorem fst_hpDataFields_sublist (rt : Runtime) (session : SessionIn) (ctx : SessionContext) :
    ((hpDataFields rt session ctx).map Prod.fst).Sublist (keysOf enrichmentNames) := by
  rw [hpDataFields, List.map_append]
  cases ctx.banner with
  | none => exact (List.sublist_append_left _ (keysOf (enrichmentNames.drop 24)))
  | some b => exact List.Sublist.refl _

theorem nodup_hpDataFields (rt : Runtime) (session : SessionIn) (ctx : SessionContext) :
    ((hpDataFields rt session ctx).map Prod.fst).Nodup := by
  refine (fst_hpDataFields_sublist rt session ctx).nodup ?_
  exact List.Nodup.map (fun s t h => key_inj.mp h) (by decide)

theorem fst_mem_of_hpDataFields {rt : Runtime} {session : SessionIn} {ctx : SessionContext}
    {kv : Key × Obj} (h : kv ∈ hpDataFields rt session ctx) :
    kv.1 ∈ keysOf enrichmentNames :=
  (fst_hpDataFields_sublist rt session ctx).subset (List.mem_map_of_mem h)

theorem textKeys_hpDataFields (rt : Runtime) (session : SessionIn) (ctx : SessionContext) :
    Dict.TextKeys PyStr.Encodable (hpDataFields rt session ctx) := by
  intro kv hkv
  obtain ⟨name, -, hname⟩ := List.mem_map.mp (fst_mem_of_hpDataFields hkv)
  exact ⟨str name, hname.symm, PyStr.encodable_str name⟩

/-- The other fields of `hp_data` stay as they were. -/
theorem get_update_hpDataFields (rt : Runtime) (session : SessionIn) (ctx : SessionContext)
    (hp : Dict) {name : String} (hname : name ∉ enrichmentNames) :
    (hp.update (hpDataFields rt session ctx)).get (key name) = hp.get (key name) := by
  refine Dict.get_update_of_notMem _ hp fun kv hkv heq => hname ?_
  exact key_mem_keysOf.mp (heq ▸ fst_mem_of_hpDataFields hkv)

/-- The fields of the enrichment have its values, and setting them again changes nothing. -/
theorem update_update_hpDataFields (rt : Runtime) (session : SessionIn) (ctx : SessionContext)
    (hp : Dict) :
    (hp.update (hpDataFields rt session ctx)).update (hpDataFields rt session ctx) =
      hp.update (hpDataFields rt session ctx) :=
  Dict.update_eq_self fun _ hkv =>
    Dict.get_update_of_mem (nodup_hpDataFields rt session ctx) hkv

/-! ### Documents without inlined bytes -/

/-- The files of a document without their inlined bytes; a value that is no list is left as it
is. -/
def stripItems : Obj → Obj
  | .list xs => .list (xs.map stripFile)
  | v => v

/-- The envelope with the files of `stripItems`. -/
def dropFiles : Obj → Obj
  | .map hp => .map (Dict.modify hp (key "files") stripItems)
  | v => v

/-- A document with `content_b64` taken from the files of `hp_data`, and every other field at
every depth in its place. -/
def dropContent (raw : Dict) : Dict := raw.modify (key "hp_data") dropFiles

/-- The loop over the files changes the files only, in their place. -/
theorem stripFiles_eq_ok {hp hp' : Dict} (h : stripFiles hp = .ok hp') :
    hp' = hp.modify (key "files") stripItems := by
  unfold stripFiles at h
  cases hget : hp.get (key "files") with
  | none =>
    rw [Dict.modify_eq_self (by simp [hget])]
    simpa [hget] using h.symm
  | some v =>
    -- a list that counts as false is empty
    have hsame (hv : stripItems v = v) : hp.modify (key "files") stripItems = hp :=
      Dict.modify_eq_self fun w hw => by
        rw [hget, Option.some.injEq] at hw
        rwa [← hw]
    simp only [hget] at h
    split_ifs at h with htruthy
    · rw [hsame ?_, Except.ok.inj h]
      cases v with
      | list xs =>
        obtain rfl : xs = [] := by simpa [Obj.truthy] using htruthy
        rfl
      | _ => rfl
    · cases v with
      | list xs => rw [← Except.ok.inj h, ← Dict.set_eq_modify stripItems hget, stripItems]
      | map d => rw [hsame rfl, Except.ok.inj h]
      | str d => rw [hsame rfl, Except.ok.inj h]
      | bytes d => rw [hsame rfl, Except.ok.inj h]
      | ext d => rw [hsame rfl, Except.ok.inj h]
      | _ => cases h

/-- **The fallback takes `content_b64` from the files of a document and changes nothing else.** -/
theorem stripCopy_eq_ok {raw doc : Dict} (h : stripCopy raw = .ok doc) :
    doc = dropContent raw := by
  unfold stripCopy at h
  split at h
  · next hp hget =>
    obtain ⟨hp', hstrip, h⟩ := bind_eq_ok.mp h
    obtain rfl := Except.ok.inj h
    rw [stripFiles_eq_ok hstrip, dropContent, ← Dict.set_eq_modify dropFiles hget, dropFiles]
  · next hget =>
    obtain rfl := Except.ok.inj h
    refine (Dict.modify_eq_self fun v hv => ?_).symm
    cases v with
    | map hp => exact absurd hv (hget hp)
    | _ => rfl

@[simp] theorem stripFile_stripFile (v : Obj) : stripFile (stripFile v) = stripFile v := by
  cases v <;> simp [stripFile]

/-! ### Sessions without inlined bytes -/

/-- A file without its inlined bytes. -/
def FileRef.stripped (f : FileRef) : FileRef := { f with contentB64 := none }

/-- The envelope with files that have no inlined bytes. -/
def HpData.stripped (hp : HpData) : HpData := { hp with files := hp.files.map FileRef.stripped }

/-- A session whose files have no inlined bytes. -/
def SessionIn.stripped (s : SessionIn) : SessionIn := { s with hpData := s.hpData.stripped }

theorem computeShape_stripped (s : SessionIn) : computeShape s.stripped = computeShape s := by
  simp only [computeShape, SessionIn.stripped, HpData.stripped, List.map_map]
  rfl

/-- The inlined bytes have no part in the context of a session. -/
theorem buildContext_stripped (rt : Runtime) (s : SessionIn) :
    buildContext rt s.stripped = buildContext rt s := by
  rw [buildContext, buildContext, computeShape_stripped]
  rfl

theorem payloadRefs_stripped (rt : Runtime) (s : SessionIn) :
    payloadRefs rt s.stripped = payloadRefs rt s := by
  simp only [payloadRefs, SessionIn.stripped, HpData.stripped, List.filter_map, List.map_map]
  rfl

theorem hpDataFields_stripped (rt : Runtime) (s : SessionIn) (ctx : SessionContext) :
    hpDataFields rt s.stripped ctx = hpDataFields rt s ctx := by
  rw [hpDataFields, hpDataFields, payloadRefs_stripped]
  rfl

theorem shellReferences_stripped (s : SessionIn) (ctx : SessionContext) :
    shellReferences s.stripped ctx = shellReferences s ctx := rfl

/-- A file that was served is served without its bytes too. -/
theorem isOk_servedFile_stripped {rt : Runtime} {s : SessionIn} {f : FileRef}
    (h : (servedFile rt s f).isOk) : (servedFile rt s.stripped f.stripped).isOk := by
  unfold servedFile at h ⊢
  have hfetched : f.stripped.fetched = f.fetched := rfl
  rw [hfetched]
  split_ifs at h ⊢ with hf
  · exact h
  · obtain ⟨parts, hparts, -⟩ := isOk_bind.mp h
    refine isOk_bind.mpr ⟨parts, hparts, ?_⟩
    dsimp only
    split_ifs <;> rfl

theorem isOk_servedFiles_stripped {rt : Runtime} {s : SessionIn} (h : (servedFiles rt s).isOk) :
    (servedFiles rt s.stripped).isOk := by
  have h := (isOk_mapM _).mp (isOk_bind_pure.mp h)
  refine isOk_bind_pure.mpr ((isOk_mapM _).mpr fun f' hf' => ?_)
  obtain ⟨f, hf, rfl⟩ := List.mem_map.mp hf'
  exact isOk_servedFile_stripped (h f hf)

/-! ### What the models read in an enriched document -/

theorem validateModel_map {d : Dict} :
    validateModel (.map d) = some d ↔ d.TextKeys PyStr.Encodable := by
  simp only [validateModel, validateKeys, Option.ite_none_right_eq_some, and_true,
    List.all_eq_true, Dict.TextKeys]
  refine forall₂_congr fun kv _ => ?_
  obtain ⟨k, v⟩ := kv
  cases k <;> simp [isTextKey]

theorem field_congr {α : Type} {d d' : Dict} {name : String}
    (h : d'.get (key name) = d.get (key name)) (default : α) (f : Obj → Option α) :
    field d' name default f = field d name default f := by
  rw [field, field, h]

/-- A function applied at the end of a computation. -/
theorem bind_eq_map_bind {α β γ : Type} {x x' : Option α} {f : α → Option β} {f' : α → Option γ}
    {g : β → γ} (hx : x' = x) (h : ∀ a, f' a = (f a).map g) :
    x' >>= f' = (x >>= f).map g := by
  subst hx
  cases x' with
  | none => rfl
  | some a => exact h a

/-- A file that was accepted is accepted without its inlined bytes. -/
theorem validate_stripFile {v : Obj} {f : FileRef} (h : FileRef.validate v = some f) :
    FileRef.validate (stripFile v) = some f.stripped := by
  obtain ⟨d, hd, hfields⟩ := Option.bind_eq_some_iff.mp h
  obtain rfl := validateKeys_eq_some hd
  have hkeys := (validateModel_map.mp hd).erase (key "content_b64")
  have hfield {α : Type} (name : String) (default : α) (g : Obj → Option α)
      (hname : ¬ name = "content_b64") :
      field (d.erase (key "content_b64")) name default g = field d name default g :=
    field_congr (Dict.get_erase_ne (by simpa using hname)) default g
  have hcontent : field (d.erase (key "content_b64")) "content_b64" none
      (validateOptional validateStr) = some none := by
    rw [field, Dict.get_erase_self]
  simp only [Option.bind_eq_bind, Option.bind_eq_some_iff, pure,
    Option.some.injEq] at hfields
  obtain ⟨url, hurl, outfile, houtfile, shasum, hshasum, action, haction, status, hstatus,
    resolvedIp, hresolvedIp, _, -, rfl⟩ := hfields
  rw [FileRef.validate, stripFile]

  simp only [validateModel_map.mpr hkeys, Option.bind_eq_bind,
    Option.bind_some, hcontent]

  simp (disch := decide) only [hfield]
  simp only [hurl, houtfile, hshasum, haction, hstatus, hresolvedIp, Option.bind_some, pure,
    FileRef.stripped]

theorem validate_stripFiles {xs : List Obj} {files : List FileRef}
    (h : xs.mapM FileRef.validate = some files) :
    (xs.map stripFile).mapM FileRef.validate = some (files.map FileRef.stripped) := by
  induction xs generalizing files with
  | nil =>
    obtain rfl : files = [] := by simpa using h.symm
    rfl
  | cons v xs ih =>
    rw [List.mapM_cons] at h
    obtain ⟨f, hf, h⟩ := Option.bind_eq_some_iff.mp h
    obtain ⟨fs, hfs, h⟩ := Option.bind_eq_some_iff.mp h
    obtain rfl := Option.some.inj h
    rw [List.map_cons, List.mapM_cons, validate_stripFile hf, ih hfs]
    rfl

/-- An envelope that was accepted is accepted after the enrichment, and the models read the same
in it but for the inlined bytes. -/
theorem validate_enrichedHpData {rt : Runtime} {hp hp' : Dict} {data : HpData}
    (h : HpData.validate rt (.map hp) = some data) (hstrip : stripFiles hp = .ok hp')
    (session : SessionIn) (ctx : SessionContext) :
    HpData.validate rt (.map (hp'.update (hpDataFields rt session ctx))) = some data.stripped := by
  obtain ⟨d, hd, hfields⟩ := Option.bind_eq_some_iff.mp h
  obtain rfl : hp = d := Obj.map.inj (validateKeys_eq_some hd)
  obtain rfl := stripFiles_eq_ok hstrip
  have hkeys := ((validateModel_map.mp hd).modify (key "files") stripItems).update
    (textKeys_hpDataFields rt session ctx)
  generalize hhp' : (hp.modify (key "files") stripItems).update (hpDataFields rt session ctx) = hp'
    at hkeys ⊢
  have hfield {α : Type} (name : String) (default : α) (g : Obj → Option α)
      (hname : name ∉ "files" :: enrichmentNames) :
      field hp' name default g = field hp name default g := by
    obtain ⟨hfiles, hname⟩ := not_or.mp (mt List.mem_cons.mpr hname)
    refine field_congr ?_ default g
    rw [← hhp', get_update_hpDataFields rt session ctx _ hname,
      Dict.get_modify_ne hp stripItems (by simpa using hfiles)]
  obtain ⟨files, hfiles, hfields⟩ := Option.bind_eq_some_iff.mp hfields
  have hfiles' : field hp' "files" [] (validateList FileRef.validate) =
      some (files.map FileRef.stripped) := by
    have hget : hp'.get (key "files") = (hp.get (key "files")).map stripItems := by
      rw [← hhp', get_update_hpDataFields rt session ctx _ (by decide), Dict.get_modify_self]
    unfold field at hfiles ⊢
    rw [hget]
    cases hv : hp.get (key "files") with
    | none =>
      obtain rfl : files = [] := by simpa [hv] using hfiles.symm
      rfl
    | some v =>
      simp only [hv] at hfiles
      cases v with
      | list xs => exact validate_stripFiles hfiles
      | _ => simp [validateList] at hfiles
  have hrest := congrArg (Option.map HpData.stripped) hfields
  refine Option.bind_eq_some_iff.mpr ⟨hp', validateModel_map.mpr hkeys, ?_⟩
  refine Option.bind_eq_some_iff.mpr ⟨_, hfiles', Eq.trans ?_ hrest⟩
  repeat refine bind_eq_map_bind (hfield _ _ _ (by decide)) fun _ => ?_
  rfl

/-- The envelope the enrichment starts from: an empty one where there is none. -/
def hpDataOf (raw : Dict) : Dict := ((raw.get (key "hp_data")).bind Obj.asMap?).getD []

/-- The models read an envelope that is missing as an empty one. -/
theorem validate_hpDataOf {rt : Runtime} {raw : Dict} {data : HpData}
    (h : field raw "hp_data" {} (HpData.validate rt) = some data) :
    HpData.validate rt (.map (hpDataOf raw)) = some data := by
  unfold field at h
  cases hget : raw.get (key "hp_data") with
  | none =>
    obtain rfl : {} = data := by simpa [hget] using h
    rw [hpDataOf, hget]
    rfl
  | some v =>
    simp only [hget] at h
    obtain ⟨d, hd, -⟩ := Option.bind_eq_some_iff.mp h
    obtain rfl := validateKeys_eq_some hd
    simpa [hpDataOf, hget, Obj.asMap?] using h

/-- The document of `enrich_session`, for the envelope without the inlined bytes. -/
def enrichedDoc (rt : Runtime) (raw hp : Dict) (session : SessionIn) (ctx : SessionContext) :
    Dict :=
  ((raw.set (key "hp_data") (.map (hp.update (hpDataFields rt session ctx)))).set
    (key "c2_host") (.strs ctx.iocs.c2Hosts)).set (key "enrich_version") (.str enrichVersion)

theorem enrichCopy_eq_ok {rt : Runtime} {raw doc : Dict} {session : SessionIn}
    {ctx : SessionContext} : enrichCopy rt raw session ctx = .ok doc ↔
    ∃ hp, stripFiles (hpDataOf raw) = .ok hp ∧ enrichedDoc rt raw hp session ctx = doc := by
  rw [enrichCopy, bind_eq_ok]
  refine exists_congr fun hp => and_congr_right fun _ => ?_
  exact ⟨Except.ok.inj, congrArg Except.ok⟩

theorem enrichSession_eq_ok {rt : Runtime} {raw doc : Dict} {session : SessionIn}
    {ctx : SessionContext} : enrichSession rt raw session ctx = .ok doc ↔
    (Obj.map raw).copies rt.enrichCalls ∧
    ∃ hp, stripFiles (hpDataOf raw) = .ok hp ∧ enrichedDoc rt raw hp session ctx = doc := by
  simp only [enrichSession, bind_eq_ok, Dict.deepcopy_eq_ok, ← enrichCopy_eq_ok]
  constructor
  · rintro ⟨_, ⟨hcopies, rfl⟩, hdoc⟩
    exact ⟨hcopies, hdoc⟩
  · rintro ⟨hcopies, hdoc⟩
    exact ⟨raw, ⟨hcopies, rfl⟩, hdoc⟩

section EnrichedDoc

variable {rt : Runtime} {raw hp : Dict} {session : SessionIn} {ctx : SessionContext}

/-- The other fields of a document stay as they were. -/
theorem get_enrichedDoc {name : String} (hname : name ∉ "hp_data" :: pivotNames) :
    (enrichedDoc rt raw hp session ctx).get (key name) = raw.get (key name) := by
  simp only [pivotNames, List.mem_cons, List.not_mem_nil, or_false, not_or] at hname
  obtain ⟨h₁, h₂, h₃⟩ := hname
  rw [enrichedDoc, Dict.get_set_ne _ _ (by simpa using h₃), Dict.get_set_ne _ _ (by simpa using h₂),
    Dict.get_set_ne _ _ (by simpa using h₁)]

theorem get_hpData_enrichedDoc : (enrichedDoc rt raw hp session ctx).get (key "hp_data") =
    some (.map (hp.update (hpDataFields rt session ctx))) := by
  rw [enrichedDoc, Dict.get_set_ne _ _ (by simp), Dict.get_set_ne _ _ (by simp),
    Dict.get_set_self]

theorem get_c2Host_enrichedDoc : (enrichedDoc rt raw hp session ctx).get (key "c2_host") =
    some (.strs ctx.iocs.c2Hosts) := by
  rw [enrichedDoc, Dict.get_set_ne _ _ (by simp), Dict.get_set_self]

theorem get_enrichVersion_enrichedDoc :
    (enrichedDoc rt raw hp session ctx).get (key "enrich_version") = some (.str enrichVersion) := by
  rw [enrichedDoc, Dict.get_set_self]

theorem textKeys_enrichedDoc (h : raw.TextKeys PyStr.Encodable) :
    (enrichedDoc rt raw hp session ctx).TextKeys PyStr.Encodable :=
  ((h.set (PyStr.encodable_str "hp_data") _).set (PyStr.encodable_str "c2_host") _).set
    (PyStr.encodable_str "enrich_version") _

theorem copies_stripFile {calls : ℕ} {f : Obj} (h : f.copies calls) :
    (stripFile f).copies calls := by
  cases f with
  | map d =>
    cases calls with
    | zero => cases h
    | succ calls => exact Dict.copies_erase h _
  | _ => exact h

theorem copies_stripItems {calls : ℕ} {v : Obj} (h : v.copies calls) :
    (stripItems v).copies calls := by
  cases v with
  | list xs =>
    cases calls with
    | zero => cases h
    | succ calls =>
      exact Obj.copies_list.mpr (List.forall_mem_map.mpr fun f hf =>
        copies_stripFile (Obj.copies_list.mp h f hf))
  | _ => exact h

theorem copies_stripFiles {calls : ℕ} {hp hp' : Dict} (hhp : (Obj.map hp).copies (calls + 1))
    (h : stripFiles hp = .ok hp') : (Obj.map hp').copies (calls + 1) := by
  rw [stripFiles_eq_ok h]
  cases hget : hp.get (key "files") with
  | none => rwa [Dict.modify_eq_self (by simp [hget])]
  | some v =>
    rw [← Dict.set_eq_modify stripItems hget]
    exact Dict.copies_set hhp _ (copies_stripItems (Dict.copies_get hhp hget))

theorem copies_hpDataFields (rt : Runtime) (session : SessionIn) (ctx : SessionContext)
    (calls : ℕ) : (Obj.map (hpDataFields rt session ctx)).copies (calls + 4) := by
  have hstr (n : ℕ) (o : Option PyStr) : (Obj.ofOption Obj.str o).copies (n + 1) :=
    Obj.copies_ofOption (fun _ => rfl) o
  have hrefs : (payloadRefs rt session).copies (calls + 3) :=
    Obj.copies_list.mpr (List.forall_mem_map.mpr fun f _ => Obj.copies_map.mpr (by
      simp [Obj.copies, hstr]))
  have hstrs (ss : List PyStr) : (Obj.strs ss).copies (calls + 3) := Obj.copies_strs ss
  have hnat (o : Option ℕ) : (Obj.ofOption (fun n : ℕ => Obj.int n) o).copies (calls + 3) :=
    Obj.copies_ofOption (fun _ => rfl) o
  have hseconds (o : Option ℤ) :
      (Obj.ofOption (fun us : ℤ => Obj.float (.finite (us / 1000000))) o).copies (calls + 3) :=
    Obj.copies_ofOption (fun _ => rfl) o
  refine Obj.copies_map.mpr (List.forall_mem_append.mpr ⟨?_, ?_⟩)
  · simp [Obj.copies, hrefs, hstrs, hstr, hnat, hseconds]
  · cases ctx.banner <;> simp [bannerFields, hstr]

/-- An enriched document can be copied where the raw one can: what is written into it is shallow. -/
theorem copies_enrichedDoc (hraw : (Obj.map raw).copies rt.enrichCalls)
    (hstrip : stripFiles (hpDataOf raw) = .ok hp) :
    (Obj.map (enrichedDoc rt raw hp session ctx)).copies rt.enrichCalls := by
  obtain ⟨calls, hcalls⟩ : ∃ calls, rt.enrichCalls = calls + 5 :=
    ⟨rt.enrichCalls - 5, (Nat.sub_add_cancel rt.five_le_enrichCalls).symm⟩
  rw [hcalls] at hraw ⊢
  have hhp : (Obj.map (hpDataOf raw)).copies (calls + 4) := by
    rw [hpDataOf]
    cases hget : raw.get (key "hp_data") with
    | none => rfl
    | some v =>
      cases v with
      | map d => exact Dict.copies_get hraw hget
      | _ => rfl
  have hfields := Dict.copies_update (copies_hpDataFields rt session ctx calls)
    (copies_stripFiles hhp hstrip)
  exact Dict.copies_set (Dict.copies_set (Dict.copies_set hraw _ hfields) _
    (Obj.copies_strs ctx.iocs.c2Hosts)) _ rfl

/-- **What the models read in an enriched document**: the session of the raw one, without the
inlined bytes. -/
theorem validate_enriched (h : SessionIn.modelValidate rt raw = .ok session)
    (hstrip : stripFiles (hpDataOf raw) = .ok hp) :
    SessionIn.modelValidate rt (enrichedDoc rt raw hp session ctx) = .ok session.stripped := by
  have hvalid : SessionIn.validate rt (.map raw) = some session := by
    unfold SessionIn.modelValidate at h
    split at h
    · next s hs => rw [hs, Except.ok.inj h]
    · cases h
  obtain ⟨d, hd, hfields⟩ := Option.bind_eq_some_iff.mp hvalid
  obtain rfl : raw = d := Obj.map.inj (validateKeys_eq_some hd)
  obtain ⟨data, hdata, hfields⟩ := Option.bind_eq_some_iff.mp hfields
  have hdata' : field (enrichedDoc rt raw hp session ctx) "hp_data" {} (HpData.validate rt) =
      some data.stripped := by
    rw [field, get_hpData_enrichedDoc]
    exact validate_enrichedHpData (validate_hpDataOf hdata) hstrip session ctx
  have hfield {α : Type} (name : String) (default : α) (g : Obj → Option α)
      (hname : name ∉ "hp_data" :: pivotNames) :
      field (enrichedDoc rt raw hp session ctx) name default g = field raw name default g :=
    field_congr (get_enrichedDoc hname) default g
  have hvalid' : SessionIn.validate rt (.map (enrichedDoc rt raw hp session ctx)) =
      some session.stripped := by
    have hrest := congrArg (Option.map SessionIn.stripped) hfields
    refine Option.bind_eq_some_iff.mpr ⟨_, validateModel_map.mpr ?_, ?_⟩
    · exact textKeys_enrichedDoc (validateModel_map.mp hd)
    refine Option.bind_eq_some_iff.mpr ⟨_, hdata', Eq.trans ?_ hrest⟩
    repeat refine bind_eq_map_bind (hfield _ _ _ (by decide)) fun _ => ?_
    rfl
  rw [SessionIn.modelValidate, hvalid']

theorem hpDataOf_enrichedDoc : hpDataOf (enrichedDoc rt raw hp session ctx) =
    hp.update (hpDataFields rt session ctx) := by
  rw [hpDataOf, get_hpData_enrichedDoc, Option.bind_some, Obj.asMap?, Option.getD_some]

/-- The files of an enriched document have no inlined bytes any more. -/
theorem stripFiles_enrichedDoc {hp' : Dict} (hstrip : stripFiles (hpDataOf raw) = .ok hp)
    (hstrip' : stripFiles (hpDataOf (enrichedDoc rt raw hp session ctx)) = .ok hp') :
    hp' = hp.update (hpDataFields rt session ctx) := by
  rw [hpDataOf_enrichedDoc] at hstrip'
  rw [stripFiles_eq_ok hstrip']
  have hfiles : hp.get (key "files") = ((hpDataOf raw).get (key "files")).map stripItems := by
    rw [stripFiles_eq_ok hstrip, Dict.get_modify_self]
  refine Dict.modify_eq_self fun v hv => ?_
  have hget := get_update_hpDataFields rt session ctx hp (show "files" ∉ enrichmentNames by decide)
  rw [hget, hfiles] at hv
  obtain ⟨w, -, rfl⟩ := Option.map_eq_some_iff.mp hv
  cases w <;> simp [stripItems]

/-- The enrichment of an enriched document gives this document. -/
theorem enrichedDoc_enrichedDoc {hp' : Dict} (hstrip : stripFiles (hpDataOf raw) = .ok hp)
    (hstrip' : stripFiles (hpDataOf (enrichedDoc rt raw hp session ctx)) = .ok hp') :
    enrichedDoc rt (enrichedDoc rt raw hp session ctx) hp' session.stripped ctx =
      enrichedDoc rt raw hp session ctx := by
  rw [enrichedDoc, hpDataFields_stripped, stripFiles_enrichedDoc hstrip hstrip',
    update_update_hpDataFields, Dict.set_eq_self get_hpData_enrichedDoc,
    Dict.set_eq_self get_c2Host_enrichedDoc, Dict.set_eq_self get_enrichVersion_enrichedDoc]

end EnrichedDoc

/-- What `process` returns is the enriched document. -/
theorem enrichedDoc_of_process {rt : Runtime} {raw : Dict} {geo : Option GeoEnricher}
    {e : Enriched} (h : process rt raw geo = .ok e) :
    ∃ session ctx hp, SessionIn.modelValidate rt raw = .ok session ∧
      buildContext rt session = .ok ctx ∧ stripFiles (hpDataOf raw) = .ok hp ∧
      e.sessionDoc = enrichedDoc rt raw hp session ctx := by
  obtain ⟨session, hvalid, -⟩ := bind_eq_ok.mp h
  obtain ⟨ctx, served, hctx, -, -, hdoc⟩ := process_eq_ok hvalid h
  obtain ⟨-, hp, hstrip, hdoc⟩ := enrichSession_eq_ok.mp hdoc
  exact ⟨session, ctx, hp, hvalid, hctx, hstrip, hdoc.symm⟩

/-- A document `process` returns on can be copied. -/
theorem copies_of_process {rt : Runtime} {raw : Dict} {geo : Option GeoEnricher} {e : Enriched}
    (h : process rt raw geo = .ok e) : (Obj.map raw).copies rt.enrichCalls := by
  obtain ⟨session, hvalid, -⟩ := bind_eq_ok.mp h
  exact ((isOk_process hvalid geo).mp (isOk_iff.mpr ⟨e, h⟩)).2

/-- The `shell_reference` rows of the ledger. -/
def Enriched.shellRows (e : Enriched) : List C2Observation :=
  e.observations.filter fun o => o.evidence = .shellReference

theorem shellRows_of_process {rt : Runtime} {raw : Dict} {geo : Option GeoEnricher} {e : Enriched}
    {session : SessionIn} {ctx : SessionContext} (h : process rt raw geo = .ok e)
    (hvalid : SessionIn.modelValidate rt raw = .ok session)
    (hctx : buildContext rt session = .ok ctx) :
    e.shellRows = (shellReferences session ctx).map (locateRow geo) := by
  obtain ⟨ctx', served, hctx', hserved, hobs, -⟩ := process_eq_ok hvalid h
  obtain rfl := Except.ok.inj (hctx.symm.trans hctx')
  rw [Enriched.shellRows, hobs, filter_evidence_locateRow, filter_evidence_rows hserved]
  simp

/-- **An enriched document is a fixpoint of `process`**: it is accepted again, its session document
is the document itself, and its `shell_reference` rows are the ones it had. -/
theorem process_enriched {rt : Runtime} {raw : Dict} {geo : Option GeoEnricher} {e : Enriched}
    (h : process rt raw geo = .ok e) :
    ∃ e', process rt e.sessionDoc geo = .ok e' ∧ e'.sessionDoc = e.sessionDoc ∧
      e'.shellRows = e.shellRows := by
  obtain ⟨session, ctx, hp, hvalid, hctx, hstrip, hdoc⟩ := enrichedDoc_of_process h
  have hvalid' : SessionIn.modelValidate rt e.sessionDoc = .ok session.stripped := by
    rw [hdoc]
    exact validate_enriched hvalid hstrip
  have hctx' : buildContext rt session.stripped = .ok ctx := by
    rw [buildContext_stripped, hctx]
  obtain ⟨⟨-, hserved⟩, hraw⟩ := (isOk_process hvalid geo).mp (isOk_iff.mpr ⟨e, h⟩)
  have hcopies : (Obj.map e.sessionDoc).copies rt.enrichCalls := by
    rw [hdoc]
    exact copies_enrichedDoc hraw hstrip
  obtain ⟨e', he'⟩ := isOk_iff.mp ((isOk_process hvalid' geo).mpr
    ⟨⟨isOk_iff.mpr ⟨ctx, hctx'⟩, isOk_servedFiles_stripped hserved⟩, hcopies⟩)
  refine ⟨e', he', ?_, ?_⟩
  · obtain ⟨ctx₂, -, hctx₂, -, -, hdoc'⟩ := process_eq_ok hvalid' he'
    obtain rfl := Except.ok.inj (hctx'.symm.trans hctx₂)
    obtain ⟨-, hp', hstrip', hdoc'⟩ := enrichSession_eq_ok.mp hdoc'
    rw [← hdoc']
    rw [hdoc] at hstrip' ⊢
    exact enrichedDoc_enrichedDoc hstrip hstrip'
  · rw [shellRows_of_process he' hvalid' hctx', shellRows_of_process h hvalid hctx,
      shellReferences_stripped]

/-- A session with a host in a command, a file with inlined bytes and a field the engine does not
know. -/
def inlinedDoc : Dict :=
  [(key "hp_data", .map [
    (key "commands", .strs [str "curl http://192.0.2.1/x"]), (key "note", .list [.none]),
    (key "files", .list [.map [(key "shasum", .str (str "aa")),
      (key "content_b64", .str (str "AAAA"))]])])]

/-- The session is processed again to the same document. -/
theorem process_enriched_inlined : ∃ e e', process .basic inlinedDoc none = .ok e ∧
    process .basic e.sessionDoc none = .ok e' ∧ e'.sessionDoc = e.sessionDoc ∧
    e'.shellRows = e.shellRows := by
  obtain ⟨e, he⟩ := isOk_iff.mp (show (process .basic inlinedDoc none).isOk by decide +kernel)
  obtain ⟨e', he', hdoc, hrows⟩ := process_enriched he
  exact ⟨e, e', he, he', hdoc, hrows⟩

/-! ### Without the fields of the enrichment -/

/-- The envelope without the fields of the enrichment. -/
def dropFields : Obj → Obj
  | .map hp => .map (Dict.without hp (keysOf enrichmentNames))
  | v => v

/-- A document without the fields of the enrichment: the two at its top, and those of `hp_data`. -/
def withoutEnrichment (doc : Dict) : Dict :=
  (doc.without (keysOf pivotNames)).modify (key "hp_data") dropFields

/-- A document with an envelope that has none of the engine's own keys. -/
structure Stock (raw hp : Dict) : Prop where
  get_hpData : raw.get (key "hp_data") = some (.map hp)
  pivot_absent : ∀ k ∈ keysOf pivotNames, raw.get k = none
  fields_absent : ∀ k ∈ keysOf enrichmentNames, hp.get k = none

theorem hpDataOf_stock {raw hp : Dict} (h : Stock raw hp) : hpDataOf raw = hp := by
  rw [hpDataOf, h.get_hpData, Option.bind_some, Obj.asMap?, Option.getD_some]

/-- An enriched document without the fields of the enrichment is the document without the inlined
bytes. -/
theorem withoutEnrichment_enrichedDoc {rt : Runtime} {raw hp hp' : Dict} {session : SessionIn}
    {ctx : SessionContext} (h : Stock raw hp) (hstrip : stripFiles hp = .ok hp') :
    withoutEnrichment (enrichedDoc rt raw hp' session ctx) = dropContent raw := by
  have htop : (enrichedDoc rt raw hp' session ctx).without (keysOf pivotNames) =
      raw.set (key "hp_data") (.map (hp'.update (hpDataFields rt session ctx))) := by
    rw [enrichedDoc, Dict.without_set (key_mem_keysOf.mpr (by decide)),
      Dict.without_set (key_mem_keysOf.mpr (by decide)),
      Dict.without_set_ne (mt key_mem_keysOf.mp (by decide)),
      Dict.without_of_absent h.pivot_absent]
  have hfields : (hp'.update (hpDataFields rt session ctx)).without (keysOf enrichmentNames) =
      hp' := by
    rw [Dict.without_update fun kv => fst_mem_of_hpDataFields]
    refine Dict.without_of_absent fun k hk => ?_
    have hne : k ≠ key "files" := fun heq => absurd (key_mem_keysOf.mp (heq ▸ hk)) (by decide)
    rw [stripFiles_eq_ok hstrip, Dict.get_modify_ne hp stripItems hne, h.fields_absent k hk]
  rw [withoutEnrichment, htop, Dict.modify_set, dropFields, hfields, stripFiles_eq_ok hstrip,
    dropContent, ← Dict.set_eq_modify dropFiles h.get_hpData, dropFiles]

/-- **Without its own fields, the enrichment writes the document the fallback writes.** -/
theorem withoutEnrichment_of_process {rt : Runtime} {raw hp : Dict} {geo : Option GeoEnricher}
    {e : Enriched} (hraw : Stock raw hp) (h : process rt raw geo = .ok e) :
    withoutEnrichment e.sessionDoc = dropContent raw ∧
      stripCopy raw = .ok (dropContent raw) := by
  obtain ⟨session, ctx, hp', -, -, hstrip, hdoc⟩ := enrichedDoc_of_process h
  rw [hpDataOf_stock hraw] at hstrip
  refine ⟨by rw [hdoc, withoutEnrichment_enrichedDoc hraw hstrip], ?_⟩
  have hfallback : stripCopy raw = .ok (raw.set (key "hp_data") (.map hp')) := by
    rw [stripCopy, hraw.get_hpData]
    simp only [hstrip]
    rfl
  rw [hfallback, stripCopy_eq_ok hfallback]

end C2Engine
