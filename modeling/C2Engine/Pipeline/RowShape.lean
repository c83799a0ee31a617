import Mathlib.Data.List.Forall2
import C2Engine.Pipeline.Facts

/-!
# The shape of a ledger row

Rows are built by `baseObs` and then decorated in place by their producer, past the checks of the
model. What a row may have in its columns depends on its evidence: the columns of a file stand on
the rows of served files only, text and interpreter on those of scripts only, and the digest of the
file that revealed a host exactly on the rows of callbacks.

## Main definitions

* `CommonColumns`, `NoFileColumns`, `RowShape`: the shape of a row.
* `FileRef.serves`: the files that get a row.
* `IsServedRow`: the row of a file.

## Main results

* `rowShape_shellReference`, `rowShape_servedFile`, `rowShape_fileCallback`: the rows of each
  producer.
* `rowShape_allObservations`: the statement about sessions.
-/

namespace C2Engine

open Python

/-- The columns every row of a session shares. -/
structure CommonColumns (session : SessionIn) (o : C2Observation) : Prop where
  ts : o.ts = (session.endTime <|> session.startTime)
  sensorUuid : o.sensorUuid = session.sensorUuid
  sensorHostname : o.sensorHostname = session.sensorHostname
  srcIp : o.srcIp = session.srcIp
  sessionId : o.sessionId = session.sessionId
  hassh : o.hassh = session.hpData.kex.bind fun k => k.hassh
  selfHosted : o.selfHosted = decide (o.c2Host = session.srcIp)

/-- The columns of a file are not set. -/
structure NoFileColumns (o : C2Observation) : Prop where
  c2Url : o.c2Url = none
  sha256 : o.sha256 = none
  sha1 : o.sha1 = none
  md5 : o.md5 = none
  size : o.size = none
  magic : o.magic = none
  family : o.family = none
  fileKind : o.fileKind = none
  interpreter : o.interpreter = none
  content : o.content = none
  callbacks : o.callbacks = []

/-- The shape of a row of a session. -/
structure RowShape (session : SessionIn) (o : C2Observation) : Prop where
  host_ne_nil : o.c2Host ≠ []
  kind : o.c2HostKind = classifyHost o.c2Host
  rank : o.evidenceRank = evidenceRank o.evidence
  common : CommonColumns session o
  file : o.evidence ≠ .servedFile → NoFileColumns o
  script : o.content.isSome ∨ o.interpreter.isSome → o.fileKind = some .script
  via : o.c2ViaSha256.isSome ↔ o.evidence = .fileCallback

/-- The host of a file's URL; a URL that cannot be split has none. -/
def FileRef.hostOfUrl (rt : Runtime) (f : FileRef) : PyStr :=
  match splitUrl rt f.url with
  | .ok (host, _, _) => host
  | .error _ => []

/-- A successful download with a URL host or a resolved address. -/
def FileRef.serves (rt : Runtime) (f : FileRef) : Bool :=
  f.fetched && (!(f.hostOfUrl rt).isEmpty || f.resolvedIp.any fun ip => !ip.isEmpty)

/-- The row of a file. -/
structure IsServedRow (rt : Runtime) (f : FileRef) (o : C2Observation) : Prop where
  evidence : o.evidence = .servedFile
  host : FileServes rt f o.c2Host
  url : o.c2Url = PyStr.orNone f.url
  resolvedIp : o.c2ResolvedIp = f.resolvedIp.bind PyStr.orNone

section Producers

variable {rt : Runtime} {session : SessionIn}

theorem commonColumns_baseObs (host : PyStr) (kind : HostKind) (evidence : Evidence) :
    CommonColumns session (baseObs session host kind evidence) :=
  ⟨rfl, rfl, rfl, rfl, rfl, rfl, rfl⟩

theorem noFileColumns_baseObs (host : PyStr) (kind : HostKind) (evidence : Evidence) :
    NoFileColumns (baseObs session host kind evidence) :=
  ⟨rfl, rfl, rfl, rfl, rfl, rfl, rfl, rfl, rfl, rfl, rfl⟩

/-- A host named in commands. -/
theorem rowShape_shellReference {ctx : SessionContext} {o : C2Observation}
    (h : o ∈ shellReferences session ctx) : RowShape session o := by
  obtain ⟨host, hhost, rfl⟩ := mem_shellReferences.mp h
  exact ⟨(mem_dedupe.mp hhost).2, rfl, rfl, commonColumns_baseObs .., fun _ =>
    noFileColumns_baseObs .., by simp [baseObs], by simp [baseObs]⟩

/-- Of the bytes of a file only a script gives text and an interpreter. -/
theorem script_of_servedPayload {obs o : C2Observation} {data : Bytes}
    (h : servedPayload rt obs data = .ok o) (hcontent : obs.content = none)
    (hinterpreter : obs.interpreter = none) :
    o.content.isSome ∨ o.interpreter.isSome → o.fileKind = some .script := by
  simp only [servedPayload, classifyPayload, bind_eq_ok, pure, Except.pure, Except.ok.injEq] at h
  obtain ⟨magic, -, hosts, -, rfl⟩ := h
  rcases payloadText magic data with ⟨_ | _, text⟩
  · intro _
    dsimp only
    split_ifs <;> rfl
  · simp [hcontent, hinterpreter]

/-- A served file. -/
theorem rowShape_servedFile {f : FileRef} {o : C2Observation}
    (h : servedFile rt session f = .ok (some o)) : RowShape session o ∧ IsServedRow rt f o := by
  cases servedAs_of_eq h with
  | bare hserves =>
    exact ⟨⟨hserves.ne_nil, rfl, rfl, ⟨rfl, rfl, rfl, rfl, rfl, rfl, rfl⟩, fun h => absurd rfl h,
      by simp [servedObs, baseObs], by simp [servedObs, baseObs]⟩, rfl, hserves, rfl, rfl⟩
  | payload hserves _ _ hrow =>
    have hscript := script_of_servedPayload hrow rfl rfl
    obtain ⟨magic, hosts, -, -, content, truncated, rfl⟩ := servedPayload_eq_ok hrow rfl
    exact ⟨⟨hserves.ne_nil, rfl, rfl, ⟨rfl, rfl, rfl, rfl, rfl, rfl, rfl⟩, fun h => absurd rfl h,
      hscript, by simp [servedObs, baseObs]⟩, rfl, hserves, rfl, rfl⟩

/-- A file whose row has callbacks has bytes, and so a digest. -/
theorem isSome_sha256_of_callbacks {f : FileRef} {o : C2Observation}
    (h : servedFile rt session f = .ok (some o)) (hne : o.callbacks ≠ []) : o.sha256.isSome := by
  cases servedAs_of_eq h with
  | bare => exact absurd rfl hne
  | @payload _ _ _ data _ _ _ _ hrow =>
    obtain ⟨magic, hosts, -, -, content, truncated, rfl⟩ := servedPayload_eq_ok hrow rfl
    change (PyStr.orNone f.shasum <|> some (rt.hashlib.sha256 data)).isSome
    cases PyStr.orNone f.shasum <;> rfl

/-- The callbacks of a file are hosts. -/
theorem ne_nil_of_mem_callbacks {f : FileRef} {o : C2Observation}
    (h : servedFile rt session f = .ok (some o)) : ∀ host ∈ o.callbacks, host ≠ [] := by
  cases servedAs_of_eq h with
  | bare => simp [servedObs, baseObs]
  | payload _ _ _ hrow =>
    obtain ⟨magic, hosts, -, hhosts, content, truncated, rfl⟩ := servedPayload_eq_ok hrow rfl
    intro host hhost
    exact ((mem_findHosts hhosts host).mp (List.mem_filter.mp hhost).1).1

/-- A host in a served file. -/
theorem rowShape_fileCallback {served : List C2Observation}
    (hserved : servedFiles rt session = .ok served) {o : C2Observation}
    (h : o ∈ fileCallbacks session served) : RowShape session o := by
  obtain ⟨row, hrow, host, hhost, rfl⟩ := mem_fileCallbacks.mp h
  obtain ⟨f, -, hfile⟩ := (mem_servedFiles hserved).mp hrow
  have hsha := isSome_sha256_of_callbacks hfile (List.ne_nil_of_mem hhost)
  exact ⟨ne_nil_of_mem_callbacks hfile host hhost, rfl, rfl, ⟨rfl, rfl, rfl, rfl, rfl, rfl, rfl⟩,
    fun _ => ⟨rfl, rfl, rfl, rfl, rfl, rfl, rfl, rfl, rfl, rfl, rfl⟩, by simp [baseObs],
    iff_of_true hsha rfl⟩

/-! ### The files with a row -/

/-- A file serves if it serves some host, where its URL can be split. -/
theorem serves_iff {f : FileRef} (hok : f.fetched → (splitUrl rt f.url).isOk) :
    f.serves rt ↔ ∃ host, FileServes rt f host := by
  rw [FileRef.serves, Bool.and_eq_true]
  constructor
  · rintro ⟨hf, hhost⟩
    obtain ⟨⟨urlHost, port, path⟩, hurl⟩ := isOk_iff.mp (hok hf)
    refine ⟨servedHost f urlHost, hf, urlHost, port, path, hurl, rfl, ?_⟩
    rw [FileRef.hostOfUrl, hurl, Bool.or_eq_true] at hhost
    rw [servedHost]
    by_cases hempty : urlHost.isEmpty
    · rw [if_pos hempty]
      rcases hhost with hhost | hhost
      · simp [hempty] at hhost
      · cases hip : f.resolvedIp with
        | none => simp [hip] at hhost
        | some ip => simpa [hip] using hhost
    · rw [if_neg hempty]
      simpa using hempty
  · rintro ⟨host, hf, urlHost, port, path, hurl, rfl, hne⟩
    refine ⟨hf, ?_⟩
    rw [FileRef.hostOfUrl, hurl, Bool.or_eq_true]
    rw [servedHost] at hne
    by_cases hempty : urlHost.isEmpty
    · rw [if_pos hempty] at hne
      cases hip : f.resolvedIp with
      | none => simp [hip] at hne
      | some ip =>
        rw [hip] at hne
        exact .inr (by simpa using hne)
    · exact .inl (by simpa using hempty)

/-- A file that does not raise gives a row exactly if it serves. -/
theorem isSome_servedFile_iff {f : FileRef} {row : Option C2Observation}
    (h : servedFile rt session f = .ok row) : row.isSome ↔ f.serves rt := by
  have hok : f.fetched → (splitUrl rt f.url).isOk := by
    intro hf
    simp only [servedFile, hf, Bool.not_true, Bool.false_eq_true, if_false, bind_eq_ok] at h
    obtain ⟨parts, hparts, -⟩ := h
    exact isOk_iff.mpr ⟨parts, hparts⟩
  rw [serves_iff hok]
  constructor
  · intro hsome
    obtain ⟨o, rfl⟩ := Option.isSome_iff_exists.mp hsome
    exact exists_fileServes_of_eq h
  · rintro ⟨host, hserves⟩
    obtain ⟨o, ho⟩ := exists_servedFile_eq (isOk_iff.mpr ⟨row, h⟩) hserves
    obtain rfl := Except.ok.inj (h.symm.trans ho)
    rfl

/-- The results of a loop that are there, beside the elements that give them. -/
theorem forall₂_reduceOption_mapM {α β : Type} {g : α → Except PyExc (Option β)} {p : α → Bool} :
    {xs : List α} → {ys : List (Option β)} →
      (∀ x ∈ xs, ∀ y, g x = .ok y → (y.isSome ↔ p x)) → xs.mapM g = .ok ys →
      List.Forall₂ (fun x y => g x = .ok (some y)) (xs.filter p) ys.reduceOption
  | [], _, _, h => by
      cases h
      exact .nil
  | x :: xs, _, hp, h => by
      rw [List.mapM_cons] at h
      obtain ⟨y, hy, h⟩ := bind_eq_ok.mp h
      obtain ⟨ys, hys, hret⟩ := bind_eq_ok.mp h
      obtain rfl := Except.ok.inj hret
      obtain ⟨hx, hp⟩ := List.forall_mem_cons.mp hp
      have ih := forall₂_reduceOption_mapM hp hys
      have hiff := hx y hy
      cases y with
      | none =>
        rw [List.reduceOption_cons_of_none, List.filter_cons_of_neg (by simpa using hiff)]
        exact ih
      | some y =>
        rw [List.reduceOption_cons_of_some, List.filter_cons_of_pos (hiff.mp rfl)]
        exact .cons hy ih

/-- **The shape of the rows of a session**, and the rows of its files: one for each successful
download with a URL host or a resolved address, in the order of the files. -/
theorem rowShape_allObservations {ctx : SessionContext} {rows : List C2Observation}
    (h : allObservations rt session ctx = .ok rows) :
    (∀ o ∈ rows, RowShape session o) ∧
    List.Forall₂ (IsServedRow rt) (session.hpData.files.filter (FileRef.serves rt))
      (rows.filter fun o => o.evidence = .servedFile) := by
  obtain ⟨served, hserved, hret⟩ := bind_eq_ok.mp h
  obtain rfl := Except.ok.inj hret
  constructor
  · refine List.forall_mem_append.mpr ⟨List.forall_mem_append.mpr ⟨?_, ?_⟩, ?_⟩
    · exact fun o ho => rowShape_shellReference ho
    · intro o ho
      obtain ⟨f, -, hfile⟩ := (mem_servedFiles hserved).mp ho
      exact (rowShape_servedFile hfile).1
    · exact fun o ho => rowShape_fileCallback hserved ho
  · rw [List.filter_append, List.filter_append,
      filter_evidence_eq (fun o ho => evidence_of_mem_shellReferences ho),
      filter_evidence_eq (fun o ho => evidence_of_mem_servedFiles hserved ho),
      filter_evidence_eq (fun o ho => evidence_of_mem_fileCallbacks ho),
      if_neg (by decide), if_pos rfl, if_neg (by decide), List.nil_append, List.append_nil]
    obtain ⟨os, hos, hret⟩ := bind_eq_ok.mp hserved
    obtain rfl := Except.ok.inj hret
    exact (forall₂_reduceOption_mapM (fun f _ row hrow => isSome_servedFile_iff hrow) hos).imp
      fun f o hfile => (rowShape_servedFile hfile).2

end Producers

/-- A session that names a host, fetches a script that names another one, fails to fetch a second
file, and fetches a third one of which only the address is known. -/
def threeFetches : SessionIn where
  srcIp := str "192.0.2.1"
  hpData := {
    urls := [str "http://192.0.2.1/a"]
    files := [
      { url := str "http://192.0.2.1/a", action := str "download", status := str "successful"
        contentB64 := some (str "Y3VybCAxOTIuMC4yLjk=") },
      { url := str "http://192.0.2.2/b", action := str "download", status := str "failed" },
      { action := str "download", status := str "successful",
        resolvedIp := some (str "192.0.2.3") }] }

/-- Two of the three files have a row, and the script a callback. -/
theorem rowShape_threeFetches : ∃ ctx rows, buildContext .basic threeFetches = .ok ctx ∧
    allObservations .basic threeFetches ctx = .ok rows ∧
    ((∀ o ∈ rows, RowShape threeFetches o) ∧
      List.Forall₂ (IsServedRow .basic) (threeFetches.hpData.files.filter (FileRef.serves .basic))
        (rows.filter fun o => o.evidence = .servedFile)) ∧
    rows.map (fun o => (o.c2Host, o.evidence)) =
      [(str "192.0.2.1", .shellReference), (str "192.0.2.1", .servedFile),
        (str "192.0.2.3", .servedFile), (str "192.0.2.9", .fileCallback)] := by
  have hhosts : (buildContext .basic threeFetches >>=
    allObservations .basic threeFetches).toOption.map
      (List.map fun o => (o.c2Host, o.evidence)) =
      some [(str "192.0.2.1", .shellReference), (str "192.0.2.1", .servedFile),
        (str "192.0.2.3", .servedFile), (str "192.0.2.9", .fileCallback)] := by
    decide +kernel
  obtain ⟨rows, hrows, hhosts⟩ := Option.map_eq_some_iff.mp hhosts
  cases hrun : buildContext .basic threeFetches >>= allObservations .basic threeFetches with
  | error e =>
    rw [hrun] at hrows
    cases hrows
  | ok rows' =>
    rw [hrun] at hrows
    obtain rfl : rows' = rows := Option.some.inj hrows
    obtain ⟨ctx, hctx, hobs⟩ := bind_eq_ok.mp hrun
    exact ⟨ctx, rows', hctx, hobs, rowShape_allObservations hobs, hhosts⟩

end C2Engine
