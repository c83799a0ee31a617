import C2Engine.Pipeline.Facts

/-!
# Chain edges

A row of a callback is an edge from a file to a host that was found in it. The rows of one session
have one edge for each host and file digest such that a served file of this digest lists the host
among its callbacks, and the file differs from the host it was served by.

## Main definitions

* `chainEdges`, `servedRows`: the edges, and the rows of the served files.
* `Reveals`: a host was found in the bytes of a file.
* `ChainEdgesExact`: the edges are those the served files reveal.

## Main results

* `callback_of_servedFile`: where the callbacks of a served file come from.
* `chainEdges_exact`: the edges of a session.
-/

namespace C2Engine

open Python

/-- The edges among rows: the callback host, and the digest of the file that revealed it. -/
def chainEdges (rows : List C2Observation) : List (PyStr × Option PyStr) :=
  (rows.filter fun o => o.evidence = .fileCallback).map fun o => (o.c2Host, o.c2ViaSha256)

/-- The rows of served files. -/
def servedRows (rows : List C2Observation) : List C2Observation :=
  rows.filter fun o => o.evidence = .servedFile

/-- A text in which the hosts of a payload are looked for: its text, or its printable strings. -/
def IsPayloadText (data : Bytes) (text : PyStr) : Prop :=
  utf8Decode data = some text ∨ strings data = text

/-- A host was found in the decoded bytes of a file. -/
def Reveals (rt : Runtime) (file : FileRef) (host : PyStr) : Prop :=
  ∃ data text hosts, decodeBytes file = some data ∧ IsPayloadText data text ∧
    findHosts rt text = .ok hosts ∧ host ∈ hosts.map Prod.fst

/-- **The edges are exact.** -/
structure ChainEdgesExact (rt : Runtime) (session : SessionIn) (rows : List C2Observation) :
    Prop where
  /-- There is one row for an edge. -/
  nodup : (chainEdges rows).Nodup
  mem_iff : ∀ host sha256, (host, sha256) ∈ chainEdges rows ↔
    ∃ f ∈ servedRows rows, f.sha256 = sha256 ∧ host ∈ f.callbacks
  isSome : ∀ edge ∈ chainEdges rows, edge.2.isSome
  revealed : ∀ f ∈ servedRows rows, ∀ host ∈ f.callbacks, host ≠ f.c2Host ∧
    ∃ file ∈ session.hpData.files, servedFile rt session file = .ok (some f) ∧
      Reveals rt file host

theorem isPayloadText_payloadText (magic : Option PyStr) (data : Bytes) :
    IsPayloadText data (payloadText magic data).2 := by
  unfold payloadText
  split_ifs
  · exact .inr rfl
  · cases htext : utf8Decode data with
    | some text => exact .inl htext
    | none => exact .inr rfl

/-- The callbacks of a served file were found in its bytes, differ from the host that served it,
and the row has the digest of the file. -/
theorem callback_of_servedFile {rt : Runtime} {session : SessionIn} {file : FileRef}
    {o : C2Observation} (h : servedFile rt session file = .ok (some o)) {host : PyStr}
    (hhost : host ∈ o.callbacks) : host ≠ o.c2Host ∧ o.sha256.isSome ∧ Reveals rt file host := by
  cases servedAs_of_eq h with
  | bare => cases hhost
  | @payload c2Host path port data _ _ _ hdata hrow =>
    obtain ⟨magic, hosts, -, hhosts, content, truncated, rfl⟩ := servedPayload_eq_ok hrow rfl
    obtain ⟨hmem, hne⟩ := List.mem_filter.mp hhost
    refine ⟨by simpa using hne, ?_, data, _, hosts, hdata, isPayloadText_payloadText magic data,
      hhosts, hmem⟩
    change ((servedObs session file c2Host port path).sha256 <|> some _).isSome
    cases (servedObs session file c2Host port path).sha256 <;> rfl

section Producers

variable {rt : Runtime} {session : SessionIn} {ctx : SessionContext} {rows : List C2Observation}

/-- The rows by their evidence. -/
theorem producers_of_allObservations (h : allObservations rt session ctx = .ok rows) :
    ∃ served, servedFiles rt session = .ok served ∧ servedRows rows = served ∧
      (rows.filter fun o => o.evidence = .fileCallback) = fileCallbacks session served := by
  simp only [allObservations, bind_eq_ok, pure, Except.pure, Except.ok.injEq] at h
  obtain ⟨served, hserved, rfl⟩ := h
  refine ⟨served, hserved, ?_, ?_⟩
  · rw [servedRows, filter_evidence_rows hserved]
    simp
  · rw [filter_evidence_rows hserved]
    simp

/-- The edges of the rows the producer made are the edges of the served files, each once. -/
theorem chainEdges_fileCallbacks (session : SessionIn) (served : List C2Observation) :
    (fileCallbacks session served).map (fun o => (o.c2Host, o.c2ViaSha256)) =
      unseen [] (callbackEdges served) := by
  rw [fileCallbacks, List.map_map]
  exact List.map_id _

/-- **The edges of a session** are those its served files reveal. -/
theorem chainEdges_exact (h : allObservations rt session ctx = .ok rows) :
    ChainEdgesExact rt session rows := by
  obtain ⟨served, hserved, hrows, hcallbacks⟩ := producers_of_allObservations h
  have hedges : chainEdges rows = unseen [] (callbackEdges served) := by
    rw [chainEdges, hcallbacks, chainEdges_fileCallbacks]
  have hmem : ∀ host sha256, (host, sha256) ∈ chainEdges rows ↔
      ∃ f ∈ servedRows rows, f.sha256 = sha256 ∧ host ∈ f.callbacks := by
    intro host sha256
    rw [hedges, hrows, mem_unseen, callbackEdges]
    simp only [List.mem_flatMap, List.mem_map, Prod.mk.injEq, List.not_mem_nil, not_false_eq_true,
      and_true]
    constructor
    · rintro ⟨f, hf, _, hhost, rfl, rfl⟩
      exact ⟨f, hf, rfl, hhost⟩
    · rintro ⟨f, hf, rfl, hhost⟩
      exact ⟨f, hf, host, hhost, rfl, rfl⟩
  have hserves : ∀ f ∈ servedRows rows, ∃ file ∈ session.hpData.files,
      servedFile rt session file = .ok (some f) := by
    rw [hrows]
    exact fun f hf => (mem_servedFiles hserved).mp hf
  refine ⟨hedges ▸ nodup_unseen _ _, hmem, ?_, ?_⟩
  · rintro ⟨host, sha256⟩ hedge
    obtain ⟨f, hf, rfl, hhost⟩ := (hmem host sha256).mp hedge
    obtain ⟨file, -, hfile⟩ := hserves f hf
    exact (callback_of_servedFile hfile hhost).2.1
  · intro f hf host hhost
    obtain ⟨file, hmemfile, hfile⟩ := hserves f hf
    obtain ⟨hne, -, hreveals⟩ := callback_of_servedFile hfile hhost
    exact ⟨hne, file, hmemfile, hfile, hreveals⟩

end Producers

/-- A file that was downloaded, with a text that names `192.0.2.9` twice. -/
def droppedScript (url shasum : String) : FileRef where
  url := str url
  shasum := str shasum
  action := str "download"
  status := str "successful"
  contentB64 := some (str "Y3VybCAxOTIuMC4yLjk7IGN1cmwgMTkyLjAuMi45")

/-- A session that fetches one script from two hosts, the second of which the script names, and a
second script from a third one. -/
def twoScripts : SessionIn where
  hpData := { files :=
    [droppedScript "http://192.0.2.1/a" "aa", droppedScript "http://192.0.2.9/a" "aa",
    droppedScript "http://192.0.2.2/b" "bb"] }

/-- The host is named twice by a script, which is fetched three times, and has two edges. -/
theorem chainEdges_exact_twoScripts :
    ∃ ctx rows, buildContext .basic twoScripts = .ok ctx ∧
      allObservations .basic twoScripts ctx = .ok rows ∧
      ChainEdgesExact .basic twoScripts rows ∧
      chainEdges rows =
        [(str "192.0.2.9", some (str "aa")), (str "192.0.2.9", some (str "bb"))] := by
  have hedges : (buildContext .basic twoScripts >>= allObservations .basic twoScripts).toOption.map
      chainEdges = some [(str "192.0.2.9", some (str "aa")),
        (str "192.0.2.9", some (str "bb"))] := by
    decide +kernel
  obtain ⟨rows, hrows, hedges⟩ := Option.map_eq_some_iff.mp hedges
  cases hrun : buildContext .basic twoScripts >>= allObservations .basic twoScripts with
  | error e =>
    rw [hrun] at hrows
    cases hrows
  | ok rows' =>
    rw [hrun] at hrows
    obtain rfl : rows' = rows := Option.some.inj hrows
    obtain ⟨ctx, hctx, hobs⟩ := bind_eq_ok.mp hrun
    exact ⟨ctx, rows', hctx, hobs, chainEdges_exact hobs, hedges⟩

end C2Engine
