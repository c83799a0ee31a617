import C2Engine.Pipeline.Enrich

/-!
# Evidence under attacker noise

What an attacker adds to a session, commands, URLs and files, may not take rows away from it: the
rows of a session are also rows of the session with further entries, as long as the further
entries are *harmless*. An entry is harmless when the partial operations it reaches return:
reading the authority of a URL, reading the port of a file's URL, sniffing a file's header, and
taking the hash of a canonical command. One entry that is not harmless makes `process` raise and
leaves the session without any row.

## Main definitions

* `Entries`, `SessionIn.append`: the attacker's entries, and a session with more of them.
* `TextReadable`, `CommandOk`, `FileOk`, `Entries.Harmless`: harmless entries.

## Main results

* `isOk_process_iff`: `process` returns exactly when all entries are harmless and the attacker's
  part aside nothing raises.
* `observations_subset_append`: the rows of a session are among those of the longer session.
* `observations_subset_iff_harmless`: the further entries keep the rows exactly when they are
  harmless.
-/

namespace C2Engine

open Python

/-! ### Entries -/

/-- The entries of `hp_data` an attacker fills: commands, URLs and files. -/
structure Entries where
  commands : List PyStr := []
  unknownCommands : List PyStr := []
  urls : List PyStr := []
  files : List FileRef := []

/-- The entries of a session. -/
def HpData.entries (hp : HpData) : Entries :=
  ⟨hp.commands, hp.unknownCommands, hp.urls, hp.files⟩

/-- The session with further entries at the end of its lists. -/
def SessionIn.append (s : SessionIn) (n : Entries) : SessionIn :=
  { s with hpData := { s.hpData with
      commands := s.hpData.commands ++ n.commands
      unknownCommands := s.hpData.unknownCommands ++ n.unknownCommands
      urls := s.hpData.urls ++ n.urls
      files := s.hpData.files ++ n.files } }

/-- A URL whose authority `urlparse` reads; one without `://` is not parsed. -/
def UrlReadable (rt : Runtime) (u : PyStr) : Prop := (urlHost rt u).isOk

/-- Every URL in a text and in the payloads unwrapped from it is readable. -/
def TextReadable (rt : Runtime) (text : PyStr) : Prop :=
  ∀ l ∈ expandCommand rt.unicode text, ∀ u ∈ findUrls rt l, UrlReadable rt u

/-- A harmless command: its URLs are readable and its canonical form can be hashed. -/
structure CommandOk (rt : Runtime) (c : PyStr) : Prop where
  readable : TextReadable rt c
  encodable : (canonicalizeCommand rt c).Encodable

/-- Harmless bytes of a file: a header that can be sniffed and readable URLs. -/
def PayloadOk (rt : Runtime) (data : Bytes) : Prop :=
  ∃ magic, sniffMagic data = .ok magic ∧ TextReadable rt (payloadText magic data).2

/-- A harmless file: if it was fetched, its URL has a readable authority and port, and if it has a
host, its inlined bytes are harmless. -/
def FileOk (rt : Runtime) (f : FileRef) : Prop :=
  f.fetched → ∃ host port path, splitUrl rt f.url = .ok (host, port, path) ∧
    (servedHost f host ≠ [] → ∀ data, decodeBytes f = some data → PayloadOk rt data)

/-- Harmless entries. -/
structure Entries.Harmless (rt : Runtime) (n : Entries) : Prop where
  commands : ∀ c ∈ n.commands, CommandOk rt c
  unknownCommands : ∀ c ∈ n.unknownCommands, CommandOk rt c
  urls : ∀ u ∈ n.urls, UrlReadable rt u
  files : ∀ f ∈ n.files, FileOk rt f

/-- The entries of the longer session are harmless when the old and the further ones are. -/
theorem harmless_append {rt : Runtime} {s : SessionIn} {n : Entries} :
    (s.append n).hpData.entries.Harmless rt ↔ s.hpData.entries.Harmless rt ∧ n.Harmless rt := by
  constructor
  · rintro ⟨hc, hu, hl, hf⟩
    obtain ⟨hc, hc'⟩ := List.forall_mem_append.mp hc
    obtain ⟨hu, hu'⟩ := List.forall_mem_append.mp hu
    obtain ⟨hl, hl'⟩ := List.forall_mem_append.mp hl
    obtain ⟨hf, hf'⟩ := List.forall_mem_append.mp hf
    exact ⟨⟨hc, hu, hl, hf⟩, hc', hu', hl', hf'⟩
  · rintro ⟨⟨hc, hu, hl, hf⟩, hc', hu', hl', hf'⟩
    exact ⟨List.forall_mem_append.mpr ⟨hc, hc'⟩, List.forall_mem_append.mpr ⟨hu, hu'⟩,
      List.forall_mem_append.mpr ⟨hl, hl'⟩, List.forall_mem_append.mpr ⟨hf, hf'⟩⟩

/-! ### When `process` returns -/

/-- The extraction over expanded commands raises exactly at an unreadable URL. -/
theorem isOk_extract_expandedText (rt : Runtime) (commands urls : List PyStr) :
    (extract rt (expandedText rt.unicode commands) urls).isOk ↔
      (∀ u ∈ urls, UrlReadable rt u) ∧ ∀ c ∈ commands, TextReadable rt c := by
  rw [isOk_extract, allUrls, expandedText, findUrls_lines, List.forall_mem_append]
  simp only [expandedLines, List.mem_flatMap, TextReadable, UrlReadable]
  refine and_congr_right fun _ => ⟨fun h c hc l hl u hu => h u ⟨l, ⟨c, hc, hl⟩, hu⟩, ?_⟩
  rintro h u ⟨l, ⟨c, hc, hl⟩, hu⟩
  exact h c hc l hl u hu

theorem isOk_findHosts_iff (rt : Runtime) (text : PyStr) :
    (findHosts rt text).isOk ↔ TextReadable rt text := by
  rw [isOk_findHosts, isOk_extract_expandedText]
  simp

theorem isOk_servedPayload (rt : Runtime) (obs : C2Observation) (data : Bytes) :
    (servedPayload rt obs data).isOk ↔ PayloadOk rt data := by
  simp only [servedPayload, isOk_bind, isOk_classifyPayload, isOk_findHosts_iff, PayloadOk]

/-- A file makes the producer raise exactly when it is not harmless, whatever the session. -/
theorem isOk_servedFile (rt : Runtime) (session : SessionIn) (f : FileRef) :
    (servedFile rt session f).isOk ↔ FileOk rt f := by
  by_cases hf : f.fetched = true
  · simp only [servedFile, hf, Bool.not_true, Bool.false_eq_true, if_false, isOk_bind, FileOk,
      true_imp_iff, Prod.exists]
    refine exists_congr fun host => exists_congr fun port => exists_congr fun path =>
      and_congr_right fun _ => ?_
    by_cases hhost : servedHost f host = []
    · simp [hhost, isOk_pure]
    · cases hdata : decodeBytes f with
      | none => simp [hhost, isOk_pure]
      | some data =>
        have hmap : (some <$> servedPayload rt (servedObs session f (servedHost f host) port path)
            data).isOk ↔ PayloadOk rt data := by
          rw [← isOk_servedPayload rt (servedObs session f (servedHost f host) port path)]
          cases servedPayload rt (servedObs session f (servedHost f host) port path) data <;> rfl
        simpa [hhost] using hmap
  · have hf' : f.fetched = false := by simpa using hf
    simp [servedFile, FileOk, hf', Except.isOk, Except.toBool]

/-- **`process` returns on an accepted document** exactly when its entries are harmless, the
credentials and the duration do not raise, and the document can be copied. -/
theorem isOk_process_iff {rt : Runtime} {raw : Dict} {s : SessionIn}
    (h : SessionIn.modelValidate rt raw = .ok s) (geo : Option GeoEnricher) :
    (process rt raw geo).isOk ↔ (BaseOk rt s ∧ s.hpData.entries.Harmless rt) ∧
      (Obj.map raw).copies rt.enrichCalls := by
  rw [isOk_process h, and_congr_left_iff]
  intro _
  rw [isOk_buildContext, isOk_extract_expandedText, isOk_canonicalizeAndHash,
    isOk_servedFiles]
  simp only [HpData.allCommands, List.forall_mem_append, isOk_servedFile]
  constructor
  · rintro ⟨⟨⟨hurls, hc, hu⟩, ⟨hc', hu'⟩, hbase⟩, hfiles⟩
    exact ⟨hbase, fun c h => ⟨hc c h, hc' c h⟩, fun c h => ⟨hu c h, hu' c h⟩, hurls, hfiles⟩
  · rintro ⟨hbase, hc, hu, hurls, hfiles⟩
    exact ⟨⟨⟨hurls, fun c h => (hc c h).readable, fun c h => (hu c h).readable⟩,
      ⟨fun c h => (hc c h).encodable, fun c h => (hu c h).encodable⟩, hbase⟩, hfiles⟩

/-! ### The rows of the longer session -/

theorem expandedLines_subset_append (uni : Unicode) (s : SessionIn) (n : Entries) :
    expandedLines uni s.hpData.allCommands ⊆
      expandedLines uni (s.append n).hpData.allCommands := by
  intro l hl
  obtain ⟨c, hc, hl⟩ := List.mem_flatMap.mp hl
  refine List.mem_flatMap.mpr ⟨c, ?_, hl⟩
  rcases List.mem_append.mp hc with hc | hc
  · exact List.mem_append_left _ (List.mem_append_left _ hc)
  · exact List.mem_append_right _ (List.mem_append_left _ hc)

/-- Further entries leave the hosts of the context in place. -/
theorem c2Hosts_subset_append {rt : Runtime} {s : SessionIn} {n : Entries}
    {ctx ctx' : SessionContext} (h : buildContext rt s = .ok ctx)
    (h' : buildContext rt (s.append n) = .ok ctx') : ctx.iocs.c2Hosts ⊆ ctx'.iocs.c2Hosts := by
  intro host hhost
  rw [mem_c2Hosts_buildContext h] at hhost
  rw [mem_c2Hosts_buildContext h']
  exact hhost.mono (expandedLines_subset_append rt.unicode s n) (List.subset_append_left _ _)

/-- The row of a file does not depend on the other entries of the session. -/
theorem servedFile_append (rt : Runtime) (s : SessionIn) (n : Entries) (f : FileRef) :
    servedFile rt (s.append n) f = servedFile rt s f := rfl

/-- Further entries leave the rows of the producers in place. -/
theorem allObservations_subset_append {rt : Runtime} {s : SessionIn} {n : Entries}
    {ctx ctx' : SessionContext} {rows rows' : List C2Observation}
    (hctx : ctx.iocs.c2Hosts ⊆ ctx'.iocs.c2Hosts)
    (h : allObservations rt s ctx = .ok rows)
    (h' : allObservations rt (s.append n) ctx' = .ok rows') : rows ⊆ rows' := by
  intro o ho
  rw [mem_allObservations h']
  cases (mem_allObservations h).mp ho with
  | reference hhost => exact .reference (hctx hhost)
  | served hf hfile =>
    exact .served (List.mem_append_left _ hf) ((servedFile_append rt s n _).trans hfile)
  | callback hf hfile hhost =>
    exact .callback (List.mem_append_left _ hf) ((servedFile_append rt s n _).trans hfile) hhost

theorem locateRows_subset (geo : Option GeoEnricher) {rows rows' : List C2Observation}
    (h : rows ⊆ rows') : locateRows geo rows ⊆ locateRows geo rows' := by
  unfold locateRows
  split
  · split_ifs
    · exact List.map_subset _ h
    · exact h
  · exact h

/-- **Further entries take no row away**, if `process` returns on the longer session at all. -/
theorem observations_subset_append {rt : Runtime} {geo : Option GeoEnricher} {raw raw' : Dict}
    {s : SessionIn} {n : Entries} {e e' : Enriched} (h : SessionIn.modelValidate rt raw = .ok s)
    (h' : SessionIn.modelValidate rt raw' = .ok (s.append n)) (he : process rt raw geo = .ok e)
    (he' : process rt raw' geo = .ok e') : e.observations ⊆ e'.observations := by
  obtain ⟨ctx, rows, hctx, hrows, hobs⟩ := observations_of_process h he
  obtain ⟨ctx', rows', hctx', hrows', hobs'⟩ := observations_of_process h' he'
  rw [hobs, hobs']
  exact locateRows_subset geo
    (allObservations_subset_append (c2Hosts_subset_append hctx hctx') hrows hrows')

/-- **Evidence is monotone exactly under harmless entries.** A session that is processed keeps its
rows when entries are added to it if and only if the added entries are harmless and the longer
document can be copied. -/
theorem observations_subset_iff_harmless {rt : Runtime} {geo : Option GeoEnricher}
    {raw raw' : Dict} {s : SessionIn} {n : Entries} {e : Enriched}
    (h : SessionIn.modelValidate rt raw = .ok s)
    (h' : SessionIn.modelValidate rt raw' = .ok (s.append n)) (he : process rt raw geo = .ok e) :
    (∃ e', process rt raw' geo = .ok e' ∧ e.observations ⊆ e'.observations) ↔
      n.Harmless rt ∧ (Obj.map raw').copies rt.enrichCalls := by
  obtain ⟨⟨hbase, hold⟩, -⟩ := (isOk_process_iff h geo).mp (isOk_iff.mpr ⟨e, he⟩)
  have hiff := isOk_process_iff h' geo
  rw [harmless_append] at hiff
  constructor
  · rintro ⟨e', he', -⟩
    obtain ⟨⟨-, -, hn⟩, hcopies⟩ := hiff.mp (isOk_iff.mpr ⟨e', he'⟩)
    exact ⟨hn, hcopies⟩
  · rintro ⟨hn, hcopies⟩
    obtain ⟨e', he'⟩ := isOk_iff.mp (hiff.mpr ⟨⟨hbase, hold, hn⟩, hcopies⟩)
    exact ⟨e', he', observations_subset_append h h' he he'⟩

/-- A session with one host, and a readable URL added to it. -/
theorem observations_subset_iff_harmless_url :
    ∃ e, process .basic (hpDataDoc [] [str "http://1.2.3.4/x"]) none = .ok e ∧
      ((∃ e', process .basic (hpDataDoc [] [str "http://1.2.3.4/x", str "ftp://5.6.7.8"]) none =
          .ok e' ∧ e.observations ⊆ e'.observations) ↔
        Entries.Harmless .basic { urls := [str "ftp://5.6.7.8"] } ∧
          (Obj.map (hpDataDoc [] [str "http://1.2.3.4/x", str "ftp://5.6.7.8"])).copies
            Runtime.basic.enrichCalls) := by
  obtain ⟨e, he⟩ := isOk_iff.mp
    (show (process .basic (hpDataDoc [] [str "http://1.2.3.4/x"]) none).isOk by decide +kernel)
  exact ⟨e, he, observations_subset_iff_harmless
    (s := { hpData := { urls := [str "http://1.2.3.4/x"] } })
    (n := { urls := [str "ftp://5.6.7.8"] }) rfl rfl he⟩

/-- One command with a malformed authority costs a session all of its rows. -/
theorem not_observations_subset : ¬ ∀ (rt : Runtime) (geo : Option GeoEnricher) (raw raw' : Dict)
    (s : SessionIn) (n : Entries) (e : Enriched), SessionIn.modelValidate rt raw = .ok s →
    SessionIn.modelValidate rt raw' = .ok (s.append n) → process rt raw geo = .ok e →
    ∃ e', process rt raw' geo = .ok e' ∧ e.observations ⊆ e'.observations := by
  intro h
  obtain ⟨e, he⟩ := isOk_iff.mp
    (show (process .basic (hpDataDoc [] [str "http://1.2.3.4/x"]) none).isOk by decide +kernel)
  obtain ⟨e', he', -⟩ := h .basic none (hpDataDoc [] [str "http://1.2.3.4/x"])
    (hpDataDoc [str "http://[x"] [str "http://1.2.3.4/x"])
    { hpData := { urls := [str "http://1.2.3.4/x"] } } { commands := [str "http://[x"] } e
    rfl rfl he
  have hraise : (process .basic
      (hpDataDoc [str "http://[x"] [str "http://1.2.3.4/x"]) none).isOk = false := by
    decide +kernel
  rw [isOk_iff.mpr ⟨e', he'⟩] at hraise
  exact Bool.noConfusion hraise

end C2Engine
