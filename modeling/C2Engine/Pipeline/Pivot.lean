import C2Engine.Pipeline.Monotone
import C2Engine.Pipeline.Soundness

/-!
# One pivot value for a host

A host is named by the values of `c2_host`, in the array of the session document and in the rows.
They come from the commands and URLs of the session, from the URLs of the files it fetched (or the
address a file was resolved to), and from the contents of these files. IPv4 addresses and the names
in URLs come in one spelling; IPv6 addresses come as they are written, in lower case where they
stand in a URL, and the resolved addresses and the attacker's address as they were recorded.

## Main definitions

* `Enriched.pivots`: the values of `c2_host`.
* `Named`: the strings a session names as hosts.
* `SameHost`: two strings for one host.
* `OnePivot`, `OneSpelling`: what is wanted, and when it holds.

## Main results

* `mem_pivots_iff`: the values of `c2_host` are the strings the session names.
* `onePivot_iff`: each host has one value exactly if it has one spelling.
-/

namespace C2Engine

open Python

/-! ### The values of `c2_host` -/

/-- The texts of a JSON array. -/
def Python.Obj.texts : Obj → List PyStr
  | .list xs => xs.filterMap Obj.asStr?
  | _ => []

theorem texts_strs (ss : List PyStr) : (Obj.strs ss).texts = ss := by
  rw [Obj.strs, Obj.texts, List.filterMap_map]
  exact List.filterMap_some

/-- The array `c2_host` of the session document. -/
def Enriched.sessionHosts (e : Enriched) : List PyStr :=
  ((e.sessionDoc.get (key "c2_host")).map Obj.texts).getD []

/-- The values of `c2_host`: those of the rows and those of the session document. -/
def Enriched.pivots (e : Enriched) : List PyStr :=
  e.observations.map C2Observation.c2Host ++ e.sessionHosts

/-- A host in the content of a file that was fetched. -/
def ContentHost (rt : Runtime) (f : FileRef) (h : PyStr) : Prop :=
  ∃ data magic, decodeBytes f = some data ∧ sniffMagic data = .ok magic ∧
    HostIn rt (expandCommand rt.unicode (payloadText magic data).2) [] h

/-- A string the session names as a host. -/
inductive Named (rt : Runtime) (session : SessionIn) (h : PyStr) : Prop
  | session (hh : SessionHost rt session h)
  | served (f : FileRef) (hf : f ∈ session.hpData.files) (hh : FileServes rt f h)
  | content (f : FileRef) (host : PyStr) (hf : f ∈ session.hpData.files)
      (hserves : FileServes rt f host) (hh : ContentHost rt f h)

variable {rt : Runtime} {geo : Option GeoEnricher} {raw : Dict} {session : SessionIn} {e : Enriched}

/-- What `process` returned. -/
theorem process_eq_ok (h : SessionIn.modelValidate rt raw = .ok session)
    (he : process rt raw geo = .ok e) :
    ∃ ctx served, buildContext rt session = .ok ctx ∧ servedFiles rt session = .ok served ∧
      e.observations = (shellReferences session ctx ++ served ++ fileCallbacks session served).map
        (locateRow geo) ∧
      enrichSession rt raw session ctx = .ok e.sessionDoc := by
  simp only [process, allObservations, h, bind_eq_ok, pure, Except.pure, Except.ok.injEq,
    exists_eq_left'] at he
  obtain ⟨ctx, hctx, rows, ⟨served, hserved, rfl⟩, doc, hdoc, rfl⟩ := he
  exact ⟨ctx, served, hctx, hserved, locateRows_eq_map geo _, hdoc⟩

/-- The session document holds the endpoints of the session. -/
theorem get_c2_host {ctx : SessionContext} {doc : Dict}
    (h : enrichSession rt raw session ctx = .ok doc) :
    doc.get (key "c2_host") = some (.strs ctx.iocs.c2Hosts) := by
  simp only [enrichSession, enrichCopy, Dict.deepcopy_eq_ok, bind_eq_ok, pure, Except.pure,
    Except.ok.injEq] at h
  obtain ⟨_, ⟨-, rfl⟩, hp, -, rfl⟩ := h
  rw [Dict.get_set_ne _ _ (by rw [ne_eq, key_inj]; decide), Dict.get_set_self]

theorem sessionHosts_eq {ctx : SessionContext}
    (h : enrichSession rt raw session ctx = .ok e.sessionDoc) :
    e.sessionHosts = ctx.iocs.c2Hosts := by
  rw [Enriched.sessionHosts, get_c2_host h]
  exact texts_strs _

/-- The host and the callbacks of a served file. -/
theorem servedFile_columns {f : FileRef} {o : C2Observation}
    (h : servedFile rt session f = .ok (some o)) :
    FileServes rt f o.c2Host ∧ o.evidence = .servedFile ∧
      o.selfHosted = decide (o.c2Host = session.srcIp) ∧
      ∀ host, host ∈ o.callbacks ↔ host ≠ o.c2Host ∧ ContentHost rt f host := by
  cases servedAs_of_eq h with
  | bare hserves _ hdata =>
    refine ⟨hserves, rfl, rfl, fun h => iff_of_false List.not_mem_nil ?_⟩
    rintro ⟨-, data, magic, hd, -⟩
    rw [hdata] at hd
    cases hd
  | @payload _ _ _ data _ hserves _ hdata hrow =>
    obtain ⟨magic, hosts, hmagic, hhosts, content, truncated, rfl⟩ := servedPayload_eq_ok hrow rfl
    refine ⟨hserves, rfl, rfl, fun h => ?_⟩
    have hmem := mem_findHosts hhosts h
    rw [List.mem_filter, hmem, decide_eq_true_eq, and_comm]
    refine and_congr_right fun _ => ⟨fun hh => ⟨data, magic, hdata, hmagic, hh⟩, ?_⟩
    rintro ⟨data', magic', hdata', hmagic', hh⟩
    obtain rfl := Option.some.inj (hdata.symm.trans hdata')
    obtain rfl := Except.ok.inj (hmagic.symm.trans hmagic')
    exact hh

theorem evidence_of_mem_shellReferences {ctx : SessionContext} {o : C2Observation}
    (h : o ∈ shellReferences session ctx) : o.evidence = .shellReference := by
  obtain ⟨host, -, rfl⟩ := mem_shellReferences.mp h
  rfl

theorem evidence_of_mem_servedFiles {served : List C2Observation} {o : C2Observation}
    (hserved : servedFiles rt session = .ok served) (h : o ∈ served) :
    o.evidence = .servedFile := by
  obtain ⟨f, -, hfile⟩ := (mem_servedFiles hserved).mp h
  exact (servedFile_columns hfile).2.1

theorem evidence_of_mem_fileCallbacks {served : List C2Observation} {o : C2Observation}
    (h : o ∈ fileCallbacks session served) : o.evidence = .fileCallback := by
  obtain ⟨f, -, host, -, rfl⟩ := mem_fileCallbacks.mp h
  rfl

/-- Rows of one evidence are all kept, or none of them. -/
theorem filter_evidence_eq {rows : List C2Observation} {kind : Evidence}
    (h : ∀ o ∈ rows, o.evidence = kind) (wanted : Evidence) :
    rows.filter (fun o => o.evidence = wanted) = if kind = wanted then rows else [] := by
  split_ifs with hkind
  · exact List.filter_eq_self.mpr fun o ho => by simp [h o ho, hkind]
  · exact List.filter_eq_nil_iff.mpr fun o ho => by simp [h o ho, hkind]

/-- Each producer's rows are those of its evidence. -/
theorem filter_evidence_rows {ctx : SessionContext} {served : List C2Observation}
    (hserved : servedFiles rt session = .ok served) (wanted : Evidence) :
    (shellReferences session ctx ++ served ++ fileCallbacks session served).filter
        (fun o => o.evidence = wanted) =
      (if .shellReference = wanted then shellReferences session ctx else []) ++
        (if .servedFile = wanted then served else []) ++
        if .fileCallback = wanted then fileCallbacks session served else [] := by
  rw [List.filter_append, List.filter_append,
    filter_evidence_eq (fun _ => evidence_of_mem_shellReferences) wanted,
    filter_evidence_eq (fun _ => evidence_of_mem_servedFiles hserved) wanted,
    filter_evidence_eq (fun _ => evidence_of_mem_fileCallbacks) wanted]

/-- A location leaves the evidence of a row, and so the choice of rows by it. -/
theorem filter_evidence_locateRow (geo : Option GeoEnricher) (rows : List C2Observation)
    (wanted : Evidence) : (rows.map (locateRow geo)).filter (fun o => o.evidence = wanted) =
      (rows.filter fun o => o.evidence = wanted).map (locateRow geo) := by
  rw [List.filter_map]
  simp only [Function.comp_def, locateRow_evidence]

/-- The rows of a session: their hosts are named, and a row says so itself where its host is the
attacker's address. -/
theorem named_of_mem (h : SessionIn.modelValidate rt raw = .ok session)
    (he : process rt raw geo = .ok e) {o : C2Observation} (ho : o ∈ e.observations) :
    Named rt session o.c2Host ∧ o.selfHosted = decide (o.c2Host = session.srcIp) ∧
      (o.evidence = .servedFile → ∀ host ∈ o.callbacks,
        host ≠ o.c2Host ∧ Named rt session host) := by
  obtain ⟨ctx, served, hctx, hserved, hobs, -⟩ := process_eq_ok h he
  rw [hobs] at ho
  obtain ⟨row, hrow, rfl⟩ := List.mem_map.mp ho
  simp only [locateRow_c2Host, locateRow_selfHosted, locateRow_evidence, locateRow_callbacks]
  cases (mem_rows_iff hserved).mp hrow with
  | reference hhost =>
    exact ⟨.session ((mem_c2Hosts_buildContext hctx _).mp hhost), rfl, nofun⟩
  | @served f _ hf hfile =>
    obtain ⟨hserves, -, hself, hcallbacks⟩ := servedFile_columns hfile
    refine ⟨.served f hf hserves, hself, fun _ host hhost => ?_⟩
    obtain ⟨hne, hcontent⟩ := (hcallbacks host).mp hhost
    exact ⟨hne, .content f row.c2Host hf hserves hcontent⟩
  | @callback f g host hf hfile hhost =>
    obtain ⟨hserves, -, -, hcallbacks⟩ := servedFile_columns hfile
    exact ⟨.content f g.c2Host hf hserves ((hcallbacks host).mp hhost).2, rfl, nofun⟩

/-- A named host has a row. -/
theorem exists_row_of_named (h : SessionIn.modelValidate rt raw = .ok session)
    (he : process rt raw geo = .ok e) {host : PyStr} (hnamed : Named rt session host) :
    ∃ o ∈ e.observations, o.c2Host = host := by
  obtain ⟨ctx, served, hctx, hserved, hobs, -⟩ := process_eq_ok h he
  have hrow : ∀ row, RowFrom rt session ctx row → row.c2Host = host →
      ∃ o ∈ e.observations, o.c2Host = host := by
    intro row hrow heq
    rw [hobs]
    exact ⟨_, List.mem_map_of_mem ((mem_rows_iff hserved).mpr hrow),
      (locateRow_c2Host geo row).trans heq⟩
  have hok := (isOk_servedFiles rt session).mp (isOk_iff.mpr ⟨_, hserved⟩)
  cases hnamed with
  | session hh => exact hrow _ (.reference ((mem_c2Hosts_buildContext hctx host).mpr hh)) rfl
  | served f hf hserves =>
    obtain ⟨row, hfile⟩ := exists_servedFile_eq (hok f hf) hserves
    exact hrow row (.served hf hfile) ((servedFile_columns hfile).1.unique hserves)
  | content f serving hf hserves hcontent =>
    obtain ⟨row, hfile⟩ := exists_servedFile_eq (hok f hf) hserves
    by_cases hself : host = row.c2Host
    · exact hrow row (.served hf hfile) hself.symm
    · have hcallback := ((servedFile_columns hfile).2.2.2 host).mpr ⟨hself, hcontent⟩
      exact hrow _ (.callback hf hfile hcallback) rfl

/-- **The values of `c2_host` are the strings the session names.** -/
theorem mem_pivots_iff (h : SessionIn.modelValidate rt raw = .ok session)
    (he : process rt raw geo = .ok e) {host : PyStr} :
    host ∈ e.pivots ↔ Named rt session host := by
  obtain ⟨ctx, served, hctx, -, -, hdoc⟩ := process_eq_ok h he
  rw [Enriched.pivots, List.mem_append, List.mem_map, sessionHosts_eq hdoc]
  constructor
  · rintro (⟨o, ho, rfl⟩ | hmem)
    · exact (named_of_mem h he ho).1
    · exact .session ((mem_c2Hosts_buildContext hctx host).mp hmem)
  · intro hnamed
    obtain ⟨o, ho, heq⟩ := exists_row_of_named h he hnamed
    exact .inl ⟨o, ho, heq⟩

/-! ### Spellings of a host -/

/-- A host name: the characters of host names, and no IP literal. -/
def IsHostName (s : PyStr) : Prop := ¬ IsIpLiteral s ∧ ∀ c ∈ s, isHostChar c

/-- Two strings denote one host: they are literals of one IP address, or one host name ignoring
case. -/
def SameHost (rt : Runtime) (a b : PyStr) : Prop :=
  a = b ∨ (∃ ip, ipAddress a = some ip ∧ ipAddress b = some ip) ∨
    (IsHostName a ∧ IsHostName b ∧ rt.unicode.lower a = rt.unicode.lower b)

/-- The address a file was resolved to stands for the host its URL has not. -/
def Fallback (rt : Runtime) (session : SessionIn) (h : PyStr) : Prop :=
  ∃ f ∈ session.hpData.files, f.fetched ∧
    (∃ port path, splitUrl rt f.url = .ok ([], port, path)) ∧ f.resolvedIp = some h ∧ h ≠ []

/-- Each host has one value of `c2_host`: no two values denote one host, no callback of a served
file is its own host, and a row says that a host is the attacker's own exactly if it is. -/
structure OnePivot (rt : Runtime) (session : SessionIn) (e : Enriched) : Prop where
  unique : ∀ a ∈ e.pivots, ∀ b ∈ e.pivots, SameHost rt a b → a = b
  callbacks : ∀ o ∈ e.observations, o.evidence = .servedFile →
    ∀ host ∈ o.callbacks, ¬ SameHost rt host o.c2Host
  selfHosted : ∀ o ∈ e.observations, o.selfHosted ↔ SameHost rt o.c2Host session.srcIp

/-- The strings the session names spell an IPv6 address one way, and a resolved address or the
attacker's address that is a host name is spelled as the session names it. -/
structure OneSpelling (rt : Runtime) (session : SessionIn) : Prop where
  ipv6 : ∀ a b, Named rt session a → Named rt session b ∨ b = session.srcIp →
    ∀ n zone, ipAddress a = some (.v6 n zone) → ipAddress b = some (.v6 n zone) → a = b
  names : ∀ a b, Named rt session a → Fallback rt session b ∨ b = session.srcIp →
    IsHostName a → IsHostName b → rt.unicode.lower a = rt.unicode.lower b → a = b

/-- A literal of digits and dots, or a run of digits that is none, is in lower case. -/
theorem lower_of_isQuad {uni : Unicode} {s : PyStr} (h : IsQuad uni s)
    (hname : ∀ c ∈ s, isHostChar c) : uni.lower s = s := by
  have hascii : ∀ c ∈ s, c.isAscii := fun c hc => isAscii_of_isHostChar (hname c hc)
  rw [uni.lower_ascii s (List.all_eq_true.mpr hascii)]
  refine (List.map_congr_left fun c hc => ?_).trans (List.map_id s)
  have hlow : c.between 'A' 'Z' = false := by
    rcases h.char hc with hdigit | rfl
    · rw [uni.isDigit_ascii c (hascii c hc)] at hdigit
      have hrange := val_of_isAsciiDigit hdigit
      simp only [CodePoint.between, Bool.and_eq_false_iff, decide_eq_false_iff_not]
      exact .inl (show ¬ 65 ≤ c.val by omega)
    · decide
  rw [CodePoint.asciiLower, dif_neg (by rw [hlow]; exact Bool.false_ne_true), id]

/-- The host of a URL is in lower case, if it is a host name. -/
theorem lower_of_urlHost {u h : PyStr} (hu : urlHost rt u = .ok h) (hne : h ≠ [])
    (hname : ∀ c ∈ h, isHostChar c) : rt.unicode.lower h = h := by
  obtain ⟨r, -, rfl⟩ := urlHost_cases hu hne
  have hpercent : cp '%' ∉ rawHost r.netloc := fun hmem =>
    absurd (hname _ (percent_mem_hostname hmem)) (by decide)
  rw [hostname_of_notMem _ hpercent, rt.unicode.lower_lower]

theorem lower_of_hostIn {lines urls : List PyStr} {h : PyStr} (hh : HostIn rt lines urls h)
    (hname : ∀ c ∈ h, isHostChar c) : rt.unicode.lower h = h := by
  obtain ⟨hne, ⟨l, -, ht⟩ | ⟨u, -, hu⟩⟩ := hh
  · rcases mem_ipTokens.mp ht with ⟨m, hm, rfl⟩ | hm
    · exact lower_of_isQuad (isQuad_of_mem hm).1 hname
    · -- a run of hexadecimal digits between colons is no host name
      have hcolon : cp ':' ∉ h := fun hmem => absurd (hname _ hmem) (by decide)
      have hfive := (isHexRun_of_mem hm).1.five
      rw [PyStr.split_of_notMem hcolon, List.length_singleton] at hfive
      omega
  · exact lower_of_urlHost hu hne hname

/-- **A host name comes in lower case**, unless it is a resolved address. -/
theorem Named.lower_eq {h : PyStr} (hnamed : Named rt session h) (hname : IsHostName h) :
    rt.unicode.lower h = h ∨ Fallback rt session h := by
  cases hnamed with
  | session hh => exact .inl (lower_of_hostIn hh hname.2)
  | content f host hf hserves hh =>
    obtain ⟨data, magic, -, -, hh⟩ := hh
    exact .inl (lower_of_hostIn hh hname.2)
  | served f hf hserves =>
    obtain ⟨hfetched, url, port, path, hurl, hserved, hne⟩ := hserves
    cases url with
    | nil =>
      have hresolved : f.resolvedIp.getD [] = h := hserved
      refine .inr ⟨f, hf, hfetched, ⟨port, path, hurl⟩, ?_, hne⟩
      cases hr : f.resolvedIp with
      | none =>
        rw [hr] at hresolved
        exact absurd hresolved.symm hne
      | some ip =>
        rw [hr] at hresolved
        rw [← hresolved]
        rfl
    | cons c s =>
      obtain rfl : c :: s = h := hserved
      simp only [splitUrl, bind_eq_ok, pure, Except.pure, Except.ok.injEq, Prod.mk.injEq] at hurl
      obtain ⟨r, -, port', -, hlower, -⟩ := hurl
      rw [← hlower]
      exact .inl (rt.unicode.lower_lower _)

theorem Fallback.named {h : PyStr} (hfall : Fallback rt session h) : Named rt session h := by
  obtain ⟨f, hf, hfetched, ⟨port, path, hurl⟩, hresolved, hne⟩ := hfall
  refine .served f hf ⟨hfetched, [], port, path, hurl, ?_, hne⟩
  rw [servedHost, hresolved]
  rfl

theorem SameHost.symm {a b : PyStr} (h : SameHost rt a b) : SameHost rt b a := by
  rcases h with rfl | ⟨ip, ha, hb⟩ | ⟨ha, hb, hlower⟩
  · exact .inl rfl
  · exact .inr (.inl ⟨ip, hb, ha⟩)
  · exact .inr (.inr ⟨hb, ha, hlower.symm⟩)

/-- Under one spelling, a named string that denotes the host of another string is that string. -/
theorem OneSpelling.eq_of_sameHost (h : OneSpelling rt session) {a b : PyStr}
    (ha : Named rt session a) (hb : Named rt session b ∨ b = session.srcIp)
    (hsame : SameHost rt a b) : a = b := by
  rcases hsame with rfl | ⟨ip, hipa, hipb⟩ | ⟨hna, hnb, hlower⟩
  · rfl
  · rcases ipAddress_cases hipa with ⟨n, h4, rfl⟩ | ⟨n, zone, -, -, rfl⟩
    · exact parseIpv4_inj h4 (parseIpv4_of_ipAddress hipb)
    · exact h.ipv6 a b ha hb n zone hipa hipb
  · rcases hb with hb | rfl
    · rcases hb.lower_eq hnb with hlb | hfall
      · rcases ha.lower_eq hna with hla | hfall
        · rw [← hla, hlower, hlb]
        · exact (h.names b a hb (.inl hfall) hnb hna hlower.symm).symm
      · exact h.names a b ha (.inl hfall) hna hnb hlower
    · exact h.names a session.srcIp ha (.inr rfl) hna hnb hlower

/-- **Each host has one value of `c2_host` exactly if it has one spelling.** -/
theorem onePivot_iff (h : SessionIn.modelValidate rt raw = .ok session)
    (he : process rt raw geo = .ok e) : OnePivot rt session e ↔ OneSpelling rt session := by
  constructor
  · intro hone
    have hunique : ∀ {a b : PyStr}, Named rt session a → Named rt session b ∨ b = session.srcIp →
        SameHost rt a b → a = b := by
      intro a b ha hb hsame
      rcases hb with hb | rfl
      · exact hone.unique a ((mem_pivots_iff h he).mpr ha) b ((mem_pivots_iff h he).mpr hb) hsame
      · obtain ⟨o, ho, rfl⟩ := exists_row_of_named h he ha
        have hself := (hone.selfHosted o ho).mpr hsame
        rw [(named_of_mem h he ho).2.1, decide_eq_true_eq] at hself
        exact hself
    constructor
    · intro a b ha hb n zone hipa hipb
      exact hunique ha hb (.inr (.inl ⟨_, hipa, hipb⟩))
    · intro a b ha hb hna hnb hlower
      exact hunique ha (hb.imp_left Fallback.named) (.inr (.inr ⟨hna, hnb, hlower⟩))
  · intro hspell
    constructor
    · intro a ha b hb hsame
      exact hspell.eq_of_sameHost ((mem_pivots_iff h he).mp ha)
        (.inl ((mem_pivots_iff h he).mp hb)) hsame
    · intro o ho hserved host hhost hsame
      obtain ⟨hnamed, -, hcallbacks⟩ := named_of_mem h he ho
      obtain ⟨hne, hnamedHost⟩ := hcallbacks hserved host hhost
      exact hne (hspell.eq_of_sameHost hnamedHost (.inl hnamed) hsame)
    · intro o ho
      obtain ⟨hnamed, hself, -⟩ := named_of_mem h he ho
      rw [hself, decide_eq_true_eq]
      exact ⟨.inl, hspell.eq_of_sameHost hnamed (.inr rfl)⟩

/-- A session that names two hosts, each in a command and in its URLs. -/
def routes : SessionIn := { hpData := {
  commands := [str "curl 192.0.2.1", str "wget http://Evil.example/y"],
  urls := [str "http://192.0.2.1:8080/x", str "http://EVIL.example/z"] } }

/-- Each of them has one value. -/
theorem onePivot_iff_routes : ∃ e,
    process .basic (hpDataDoc routes.hpData.commands routes.hpData.urls) none = .ok e ∧
      (str "192.0.2.1" ∈ e.pivots ∧ str "evil.example" ∈ e.pivots) ∧
      (OnePivot .basic routes e ↔ OneSpelling .basic routes) := by
  obtain ⟨e, he⟩ := isOk_iff.mp (show (process .basic
    (hpDataDoc routes.hpData.commands routes.hpData.urls) none).isOk by decide +kernel)
  have haddress : Named .basic routes (str "192.0.2.1") :=
    .session ⟨by decide, .inl ⟨str "curl 192.0.2.1", by decide +kernel, by decide +kernel⟩⟩
  have hname : Named .basic routes (str "evil.example") :=
    .session ⟨by decide, .inr ⟨str "http://EVIL.example/z", .inl (by decide), rfl⟩⟩
  exact ⟨e, he, ⟨(mem_pivots_iff rfl he).mpr haddress, (mem_pivots_iff rfl he).mpr hname⟩,
    onePivot_iff rfl he⟩

/-- An IPv6 address in a command keeps its upper case, the same address in a URL loses it. -/
theorem not_onePivot_ipv6 : ∃ e,
    process .basic (hpDataDoc [str "ping 1:2:3:4:5:6:7:A"] [str "ftp://[1:2:3:4:5:6:7:A]/"]) none =
        .ok e ∧
      ¬ OnePivot .basic { hpData := {
        commands := [str "ping 1:2:3:4:5:6:7:A"],
          urls := [str "ftp://[1:2:3:4:5:6:7:A]/"] } } e := by
  obtain ⟨e, he⟩ := isOk_iff.mp (show (process .basic
    (hpDataDoc [str "ping 1:2:3:4:5:6:7:A"] [str "ftp://[1:2:3:4:5:6:7:A]/"]) none).isOk by
      decide +kernel)
  refine ⟨e, he, fun hone => ?_⟩
  have hspell := (onePivot_iff rfl he).mp hone
  have hbare : Named .basic { hpData := {
      commands := [str "ping 1:2:3:4:5:6:7:A"], urls := [str "ftp://[1:2:3:4:5:6:7:A]/"] } }
      (str "1:2:3:4:5:6:7:A") :=
    .session ⟨by decide, .inl ⟨str "ping 1:2:3:4:5:6:7:A", by decide +kernel, by decide +kernel⟩⟩
  have hurl : Named .basic { hpData := {
      commands := [str "ping 1:2:3:4:5:6:7:A"], urls := [str "ftp://[1:2:3:4:5:6:7:A]/"] } }
      (str "1:2:3:4:5:6:7:a") :=
    .session ⟨by decide, .inr ⟨str "ftp://[1:2:3:4:5:6:7:A]/", .inl List.mem_cons_self, rfl⟩⟩
  have heq := hspell.ipv6 _ _ hbare (.inl hurl) 0x1000200030004000500060007000a none (by decide)
    (by decide)
  exact absurd heq (by decide)

end C2Engine
