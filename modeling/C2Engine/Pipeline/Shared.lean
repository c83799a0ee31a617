import C2Engine.Pipeline.Pivot

/-!
# The session and its ledger speak of one list of hosts

The array `c2_host` of a session document, its field `iocs_c2_hosts` and the `shell_reference` rows
are one list. The host of a served file is derived apart from it, from the URL of the file alone,
so it is on the list if that URL is one the extraction reads the same host from.

## Main definitions

* `Listed`: the URLs of the files are among the URLs of the session.
* `SharedPivot`: what is wanted of the session document and the rows.
* `PlainUrl`: a URL whose host is derived alike in both places.

## Main results

* `sharedPivot_iff`: when the session and the ledger share their hosts.
-/

namespace C2Engine

open Python

/-- Each URL of a file is also a URL of the session. -/
def Listed (session : SessionIn) : Prop :=
  ∀ f ∈ session.hpData.files, f.url ≠ [] → f.url ∈ session.hpData.urls

/-- The hosts of the `shell_reference` rows. -/
def Enriched.referencedHosts (e : Enriched) : List PyStr :=
  (e.observations.filter fun o => o.evidence = .shellReference).map C2Observation.c2Host

/-- The session document and the `shell_reference` rows hold one list of hosts, each host once, and
the hosts of the served files are on it. -/
def SharedPivot (e : Enriched) : Prop :=
  ∃ hosts : List PyStr, hosts.Nodup ∧
    e.sessionDoc.get (key "c2_host") = some (.strs hosts) ∧
    (∃ hp : Dict, e.sessionDoc.get (key "hp_data") = some (.map hp) ∧
      hp.get (key "iocs_c2_hosts") = some (.strs hosts)) ∧
    e.referencedHosts = hosts ∧
    ∀ o ∈ e.observations, o.evidence = .servedFile → o.c2Host ∈ hosts

/-- A URL with `://` and a host, which has no zone in upper case. -/
def PlainUrl (rt : Runtime) (url : PyStr) : Prop :=
  ∃ h, PyStr.hasSub url (str "://") ∧ urlHost rt url = .ok h ∧ h ≠ [] ∧ rt.unicode.lower h = h

/-- A served file whose URL is not plain has a host that the commands or the URLs of the session
name besides. -/
def ServedNamed (rt : Runtime) (session : SessionIn) : Prop :=
  ∀ f ∈ session.hpData.files, ∀ host, FileServes rt f host →
    PlainUrl rt f.url ∨ SessionHost rt session host

variable {rt : Runtime} {geo : Option GeoEnricher} {raw : Dict} {session : SessionIn} {e : Enriched}

/-- The session document holds the endpoints of the session in `hp_data` too. -/
theorem get_iocs_c2_hosts {ctx : SessionContext} {doc : Dict}
    (h : enrichSession rt raw session ctx = .ok doc) :
    ∃ hp : Dict, doc.get (key "hp_data") = some (.map hp) ∧
      hp.get (key "iocs_c2_hosts") = some (.strs ctx.iocs.c2Hosts) := by
  simp only [enrichSession, enrichCopy, Dict.deepcopy_eq_ok, bind_eq_ok, pure, Except.pure,
    Except.ok.injEq] at h
  obtain ⟨_, ⟨-, rfl⟩, hp, -, rfl⟩ := h
  refine ⟨hp.update (hpDataFields rt session ctx), ?_, ?_⟩
  · rw [Dict.get_set_ne _ _ (by rw [ne_eq, key_inj]; decide),
      Dict.get_set_ne _ _ (by rw [ne_eq, key_inj]; decide), Dict.get_set_self]
  · obtain ⟨before, after, hfields, hafter⟩ : ∃ before after : Dict,
        hpDataFields rt session ctx =
          before ++ (key "iocs_c2_hosts", .strs ctx.iocs.c2Hosts) :: after ∧
        ∀ kv ∈ after, kv.1 ≠ key "iocs_c2_hosts" := by
      have hkeys : ((hpDataFields rt session ctx).drop 4).all
          (fun kv => kv.1 ≠ key "iocs_c2_hosts") = true := by
        rw [hpDataFields]
        cases ctx.banner <;> rfl
      exact ⟨(hpDataFields rt session ctx).take 3, (hpDataFields rt session ctx).drop 4, rfl,
        fun kv hkv => of_decide_eq_true (List.all_eq_true.mp hkeys kv hkv)⟩
    rw [hfields, Dict.update, List.foldl_append, List.foldl_cons]
    change (Dict.update _ after).get _ = _
    rw [Dict.get_update_of_notMem after _ hafter, Dict.get_set_self]

/-- The `shell_reference` rows have the endpoints of the session, in their order. -/
theorem referencedHosts_eq {ctx : SessionContext} {served : List C2Observation}
    (hserved : servedFiles rt session = .ok served)
    (hobs : e.observations = (shellReferences session ctx ++ served ++
      fileCallbacks session served).map (locateRow geo)) :
    e.referencedHosts = ctx.iocs.c2Hosts := by
  have hhost : C2Observation.c2Host ∘ locateRow geo = C2Observation.c2Host :=
    funext fun o => locateRow_c2Host geo o
  rw [Enriched.referencedHosts, hobs, filter_evidence_locateRow, filter_evidence_rows hserved,
    List.map_map, hhost]
  simp [shellReferences, baseObs, Function.comp_def]

/-- The host of a file with a plain URL is a host of the session. -/
theorem sessionHost_of_plainUrl {f : FileRef} {host : PyStr} (hlisted : Listed session)
    (hf : f ∈ session.hpData.files) (hserves : FileServes rt f host)
    (hplain : PlainUrl rt f.url) : SessionHost rt session host := by
  obtain ⟨h, hsub, hhost, hne, hlower⟩ := hplain
  obtain ⟨-, url, port, path, hurl, hserved, -⟩ := hserves
  obtain ⟨r, hr, rfl⟩ := urlHost_cases hhost hne
  simp only [splitUrl, hr, bind_eq_ok, pure, Except.pure, Except.ok.injEq, Prod.mk.injEq,
    exists_eq_left'] at hurl
  obtain ⟨port', -, rfl, -⟩ := hurl
  rw [hlower] at hserved
  have heq : r.hostname rt.unicode = host := by
    rw [← hserved, servedHost, if_neg (by rw [List.isEmpty_iff]; exact hne)]
  rw [← heq]
  have hurlNe : f.url ≠ [] := by
    intro hnil
    rw [hnil] at hsub
    exact absurd hsub (by decide)
  exact ⟨hne, .inr ⟨f.url, .inl (hlisted f hf hurlNe), hhost⟩⟩

/-- **When the session and the ledger share their hosts.** -/
theorem sharedPivot_iff (h : SessionIn.modelValidate rt raw = .ok session)
    (hlisted : Listed session) (he : process rt raw geo = .ok e) :
    SharedPivot e ↔ ServedNamed rt session := by
  obtain ⟨ctx, served, hctx, hserved, hobs, hdoc⟩ := process_eq_ok h he
  constructor
  · rintro ⟨hosts, -, harray, -, -, hmem⟩ f hf host hserves
    -- the row of the file is on the list
    have hok := (isOk_servedFiles rt session).mp (isOk_iff.mpr ⟨_, hserved⟩)
    obtain ⟨row, hfile⟩ := exists_servedFile_eq (hok f hf) hserves
    obtain ⟨hrowServes, hev, -, -⟩ := servedFile_columns hfile
    have hrow : row ∈ served := (mem_servedFiles hserved).mpr ⟨f, hf, hfile⟩
    have hin : locateRow geo row ∈ e.observations := by
      rw [hobs]
      exact List.mem_map_of_mem (List.mem_append_left _ (List.mem_append_right _ hrow))
    have hhost := hmem _ hin (by rw [locateRow_evidence, hev])
    have hhosts : hosts = ctx.iocs.c2Hosts := by
      have harrays := Option.some.inj (harray.symm.trans (get_c2_host hdoc))
      rw [← texts_strs hosts, harrays, texts_strs]
    rw [locateRow_c2Host, hhosts, hrowServes.unique hserves] at hhost
    exact .inr ((mem_c2Hosts_buildContext hctx host).mp hhost)
  · intro hnamed
    refine ⟨ctx.iocs.c2Hosts, nodup_dedupe _, get_c2_host hdoc, get_iocs_c2_hosts hdoc,
      referencedHosts_eq hserved hobs, fun o ho hev => ?_⟩
    rw [hobs] at ho
    obtain ⟨row, hrow, rfl⟩ := List.mem_map.mp ho
    rw [locateRow_evidence] at hev
    rw [locateRow_c2Host, mem_c2Hosts_buildContext hctx]
    cases (mem_rows_iff hserved).mp hrow with
    | reference => cases hev
    | @served f _ hf hfile =>
      have hserves := (servedFile_columns hfile).1
      rcases hnamed f hf row.c2Host hserves with hplain | hsession
      · exact sessionHost_of_plainUrl hlisted hf hserves hplain
      · exact hsession
    | callback => cases hev

/-- A document with one fetched file and its URL. -/
def fetchedDoc (url resolvedIp : PyStr) : Dict :=
  [(key "hp_data", .map [(key "urls", .strs [url]), (key "files", .list [.map [
    (key "url", .str url), (key "action", .str (str "download")),
    (key "status", .str (str "successful")), (key "resolved_ip", .str resolvedIp)]])])]

/-- The session of such a document. -/
def fetchedSession (url resolvedIp : PyStr) : SessionIn :=
  { hpData := { urls := [url], files := [{ url := url, action := str "download",
                                           status := str "successful",
                                             resolvedIp := resolvedIp }] } }

/-- A file from the host of its URL. -/
theorem sharedPivot_iff_url : ∃ e,
    process .basic (fetchedDoc (str "http://192.0.2.1/x") []) none = .ok e ∧
      (SharedPivot e ↔ ServedNamed .basic (fetchedSession (str "http://192.0.2.1/x") [])) := by
  obtain ⟨e, he⟩ := isOk_iff.mp (show (process .basic
    (fetchedDoc (str "http://192.0.2.1/x") []) none).isOk by decide +kernel)
  have hvalid : SessionIn.modelValidate .basic (fetchedDoc (str "http://192.0.2.1/x") []) =
      .ok (fetchedSession (str "http://192.0.2.1/x") []) := rfl
  refine ⟨e, he, sharedPivot_iff hvalid ?_ he⟩
  intro f hf _
  obtain rfl := List.mem_singleton.mp hf
  exact List.mem_singleton_self _

/-- A file without a URL is a row of the host it was resolved to, which the session does not
name. -/
theorem not_sharedPivot_resolved : Listed (fetchedSession [] (str "192.0.2.7")) ∧ ∃ e,
    process .basic (fetchedDoc [] (str "192.0.2.7")) none = .ok e ∧ ¬ SharedPivot e := by
  have hlisted : Listed (fetchedSession [] (str "192.0.2.7")) := by
    intro f hf hne
    obtain rfl := List.mem_singleton.mp hf
    exact absurd rfl hne
  obtain ⟨e, he⟩ := isOk_iff.mp (show (process .basic
    (fetchedDoc [] (str "192.0.2.7")) none).isOk by decide +kernel)
  refine ⟨hlisted, e, he, fun hshared => ?_⟩
  have hvalid : SessionIn.modelValidate .basic (fetchedDoc [] (str "192.0.2.7")) =
      .ok (fetchedSession [] (str "192.0.2.7")) := rfl
  have hnamed := (sharedPivot_iff hvalid hlisted he).mp hshared
  rcases hnamed _ (List.mem_singleton_self _) (str "192.0.2.7")
    ⟨rfl, [], none, [], rfl, rfl, by decide⟩ with ⟨h, hsub, -⟩ | ⟨-, ⟨l, hl, -⟩ | ⟨u, hu, hhost⟩⟩
  · exact absurd hsub (by decide)
  · cases hl
  · rcases hu with hu | ⟨l, hl, -⟩
    · obtain rfl := List.mem_singleton.mp hu
      exact absurd (Except.ok.inj hhost) (by decide)
    · cases hl

end C2Engine
