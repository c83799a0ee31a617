import C2Engine.Reason.View
import C2Engine.Store.Ranked

/-!
# Signals and the sizes of aggregations

The overlay of a host is computed from what the aggregations of its bucket list: the 200 most
frequent files, the 50 most frequent fingerprints of clients and the 25 most frequent families. A
signal of a host with more of them than that depends on which ones are listed.

## Main definitions

* `SignalsExact`: the signals and families are those of all rows of a host.
* `AmongTop`: a value is among the most frequent ones.
* `WithinSizes`: the values that matter are listed.

## Main results

* `mem_topTerms_iff`: what a `terms` aggregation lists.
* `runOnce_keeps`: an invariant of the body of the loop is one of the pass.
* `signalsExact_iff_withinSizes`: when the signals of a host are those of its rows.
-/

namespace C2Engine

open Python Store

variable {rt : Runtime} {env : ReasonEnv}

/-! ### What an aggregation lists -/

/-- How a `terms` aggregation orders its values: by their number of documents, and among values
with equally many by the value. -/
def termsKey (values : List PyStr) (v : PyStr) : Lex (ℤ × PyStr) :=
  toLex (-(values.count v : ℤ), v)

/-- A value is listed by an aggregation of a size: fewer values than that are more frequent, or as
frequent and smaller. -/
def AmongTop (size : ℕ) (values : List PyStr) (v : PyStr) : Prop :=
  v ∈ values ∧ values.dedup.countP (fun u => termsKey values u < termsKey values v) < size

theorem termsKey_injective (values : List PyStr) : Function.Injective (termsKey values) :=
  fun _ _ h => (Prod.mk.inj (toLex.injective h)).2

theorem mem_topTerms_iff {size : ℕ} {values : List PyStr} {v : PyStr} :
    v ∈ topTerms size values ↔ AmongTop size values v := by
  have h := mem_take_insertionSort_iff (termsKey_injective values) (List.nodup_dedup values) size v
  rw [List.mem_dedup] at h
  exact h

/-- Of few values all are listed. -/
theorem amongTop_of_length_le {size : ℕ} {values : List PyStr} (h : values.dedup.length ≤ size)
    {v : PyStr} (hv : v ∈ values) : AmongTop size values v := by
  refine ⟨hv, lt_of_lt_of_le ?_ h⟩
  refine List.countP_lt_length_iff.mpr ⟨v, List.mem_dedup.mpr hv, ?_⟩
  simp

/-! ### The signals of all rows -/

/-- A file known to be malware. -/
def KnownSha (rt : Runtime) (env : ReasonEnv) (sha : PyStr) : Prop :=
  rt.unicode.lower sha ∈ loadKnownShas rt env.knownShas

/-- The tool a fingerprint belongs to. -/
def toolkitOf (rt : Runtime) (env : ReasonEnv) (hassh : PyStr) : Option PyStr :=
  (loadHasshToolkits rt env.hasshToolkits).lookup (rt.unicode.lower hassh)

/-- The signals and the families of an entity are those of the rows. -/
structure SignalsExact (rt : Runtime) (env : ReasonEnv) (rows : List LedgerRow) (e : EntityDoc) :
    Prop where
  malware : str "known_malware" ∈ e.overlay.stageSignals ↔
    ∃ r ∈ rows, ∃ sha, r.sha256 = some sha ∧ KnownSha rt env sha
  toolkit : str "hassh_toolkit" ∈ e.overlay.stageSignals ↔
    ∃ r ∈ rows, ∃ hassh, r.hassh = some hassh ∧ (toolkitOf rt env hassh).isSome
  families : ∀ f, f ∈ e.overlay.families ↔ ∃ r ∈ rows, r.family = some f

/-- The values of the rows that matter are listed by the aggregations, and count. -/
structure WithinSizes (rt : Runtime) (env : ReasonEnv) (rows : List LedgerRow) : Prop where
  malware : (∃ r ∈ rows, ∃ sha, r.sha256 = some sha ∧ KnownSha rt env sha) →
    ∃ sha, AmongTop 200 (rows.filterMap LedgerRow.sha256) sha ∧ KnownSha rt env sha
  toolkit : (∃ r ∈ rows, ∃ hassh, r.hassh = some hassh ∧ (toolkitOf rt env hassh).isSome) →
    ∃ hassh, AmongTop 50 (rows.filterMap LedgerRow.hassh) hassh ∧
      ∃ name, toolkitOf rt env hassh = some name ∧ name ≠ []
  families : ∀ r ∈ rows, ∀ f, r.family = some f →
    AmongTop 25 (rows.filterMap LedgerRow.family) f ∧ f ≠ []

/-! ### The signals of an overlay -/

section Overlay

variable {maxRank : ℤ} {families shas hasshes known : List PyStr}
  {toolkits : List (PyStr × PyStr)}

/-- The names of the tools the fingerprints belong to. -/
theorem exists_toolkit_iff : sortedSet ((hasshes.filterMap fun h =>
      toolkits.lookup (rt.unicode.lower h)).filter fun name => !name.isEmpty) ≠ [] ↔
    ∃ h ∈ hasshes, ∃ name, toolkits.lookup (rt.unicode.lower h) = some name ∧ name ≠ [] := by
  constructor
  · intro hne
    obtain ⟨name, hname⟩ := List.exists_mem_of_ne_nil _ hne
    obtain ⟨hname, hempty⟩ := List.mem_filter.mp (mem_sortedSet.mp hname)
    obtain ⟨h, hh, hlookup⟩ := List.mem_filterMap.mp hname
    exact ⟨h, hh, name, hlookup, by simpa using hempty⟩
  · rintro ⟨h, hh, name, hlookup, hempty⟩
    refine List.ne_nil_of_mem (a := name) (mem_sortedSet.mpr (List.mem_filter.mpr ⟨?_, ?_⟩))
    · exact List.mem_filterMap.mpr ⟨h, hh, hlookup⟩
    · simpa using hempty

/-- The signals of the evidence and of the static lists. -/
theorem mem_stageSignals_computeOverlay {s : PyStr} : s ∈
    (computeOverlay rt maxRank families shas hasshes known toolkits).stageSignals ↔
      s = str "callback_in_malware" ∧ 2 ≤ maxRank ∨
      s = str "known_malware" ∧ (∃ sha ∈ shas, rt.unicode.lower sha ∈ known) ∨
      s = str "hassh_toolkit" ∧
        ∃ h ∈ hasshes, ∃ name, toolkits.lookup (rt.unicode.lower h) = some name ∧ name ≠ [] := by
  rw [← exists_toolkit_iff]
  simp only [computeOverlay, mem_sortedSet, List.mem_append, or_assoc]
  refine or_congr ?_ (or_congr ?_ ?_)
  · split_ifs with h <;> simp [h]
  · have hany : (shas.any fun sha => known.elem (rt.unicode.lower sha)) = true ↔
        ∃ sha ∈ shas, rt.unicode.lower sha ∈ known := by
      simp [List.any_eq_true]
    rw [← hany]
    by_cases h : (shas.any fun sha => known.elem (rt.unicode.lower sha)) = true
    · rw [if_pos h]
      exact ⟨fun hs => ⟨List.mem_singleton.mp hs, h⟩, fun hs => List.mem_singleton.mpr hs.1⟩
    · rw [if_neg h]
      exact ⟨fun hs => absurd hs List.not_mem_nil, fun hs => absurd hs.2 h⟩
  · split_ifs with h
    · simp [List.isEmpty_iff.mp h]
    · simp [List.isEmpty_iff.not.mp h]

theorem malware_mem_computeOverlay : str "known_malware" ∈
    (computeOverlay rt maxRank families shas hasshes known toolkits).stageSignals ↔
      ∃ sha ∈ shas, rt.unicode.lower sha ∈ known := by
  have hrank : str "known_malware" ≠ str "callback_in_malware" := by decide
  have htoolkit : str "known_malware" ≠ str "hassh_toolkit" := by decide
  rw [mem_stageSignals_computeOverlay]
  simp [hrank, htoolkit]

theorem toolkit_mem_computeOverlay : str "hassh_toolkit" ∈
    (computeOverlay rt maxRank families shas hasshes known toolkits).stageSignals ↔
      ∃ h ∈ hasshes, ∃ name, toolkits.lookup (rt.unicode.lower h) = some name ∧ name ≠ [] := by
  have hrank : str "hassh_toolkit" ≠ str "callback_in_malware" := by decide
  have hmalware : str "hassh_toolkit" ≠ str "known_malware" := by decide
  rw [mem_stageSignals_computeOverlay]
  simp [hrank, hmalware]

theorem mem_families_computeOverlay {f : PyStr} : f ∈
    (computeOverlay rt maxRank families shas hasshes known toolkits).families ↔
      f ∈ families ∧ f ≠ [] := by
  simp [computeOverlay, mem_sortedSet]

/-- VirusTotal adds a signal of its own. -/
theorem mem_stageSignals_applyVt {o : Overlay} {summary : Option VtSummary} {minMalicious : ℤ}
    {s : PyStr} (hs : s ≠ str "virustotal") :
    s ∈ (applyVt o summary minMalicious).stageSignals ↔ s ∈ o.stageSignals := by
  cases summary with
  | none => rfl
  | some summary =>
    simp only [applyVt]
    split_ifs
    · simp [mem_sortedSet, hs]
    · rfl

/-- A feed adds its name. -/
theorem mem_stageSignals_applyIntel {o : Overlay} {m : IntelMatcher.MatchResult} {s : PyStr} :
    s ∈ (applyIntel o m).stageSignals ↔ s ∈ o.stageSignals ∨ s ∈ m.sources := by
  simp only [applyIntel]
  split_ifs with h
  · simp [List.isEmpty_iff.mp h]
  · simp [mem_sortedSet]

end Overlay

/-! ### The feeds an entity names -/

/-- The feeds an entity names are feeds. -/
def NamesFeeds (e : EntityDoc) : Prop :=
  ∀ sources, e.overlay.intelSources = some sources →
    ∀ s ∈ sources, ∃ source : Source, s = source.name

/-- The names of feeds are other words than the signals of the static lists. -/
theorem Source.name_ne_signal (source : Source) :
    source.name ≠ str "known_malware" ∧ source.name ≠ str "hassh_toolkit" := by
  cases source <;> decide

theorem sources_matchEntity {ix : Indexes} {q : IntelMatcher.Entity} {m : IntelMatcher.MatchResult}
    (h : IntelMatcher.matchEntity rt ix q = .ok m) :
    ∀ s ∈ m.sources, ∃ source : Source, s = source.name := by
  obtain ⟨ds, -, hret⟩ := bind_eq_ok.mp h
  obtain rfl := Except.ok.inj hret
  intro s hs
  obtain ⟨d, -, rfl⟩ := List.mem_map.mp (mem_sortedSet.mp hs)
  exact ⟨d.source, rfl⟩

theorem intelSources_applyVt (o : Overlay) (summary : Option VtSummary) (minMalicious : ℤ) :
    (applyVt o summary minMalicious).intelSources = o.intelSources := by
  cases summary <;> rfl

/-- A written entity names feeds if and only if its matches do. -/
theorem namesFeeds_writtenDoc {b : Bucket} {summary : Option VtSummary}
    {m : IntelMatcher.MatchResult} :
    NamesFeeds (writtenDoc rt env b summary m) ↔
      ∀ s ∈ m.sources, ∃ source : Source, s = source.name := by
  have hintel : (writtenDoc rt env b summary m).overlay.intelSources =
      if m.sources.isEmpty then none else some (sortedSet m.sources) := by
    simp only [writtenDoc, entityDoc, applyIntel]
    split_ifs
    · rw [intelSources_applyVt]
      rfl
    · rfl
  rw [NamesFeeds, hintel]
  split_ifs with h
  · simp [List.isEmpty_iff.mp h]
  · simp [mem_sortedSet]

/-- **An invariant of the body of the loop is one of the pass**, if the refresh, a new resolver and
the deletion keep it. -/
theorem runOnce_keeps {I : World → Prop} (hupsert : ∀ b, Prog.Keeps I (upsert rt env b))
    (hdelete : ∀ w p, I w → I { w with entities := w.entities.deleteWhere p })
    (hintel : ∀ w intel, I w → I { w with intel := intel })
    (hresolver : ∀ w, I w → I { w with vt := { w.vt with resolver := newResolver env } }) :
    Prog.Keeps I (runOnce rt env) := by
  have hpages : ∀ (since : ℤ) (fuel n : ℕ) (after : Option PyStr),
      Prog.Keeps I (hostPages rt env since fuel n after) := by
    intro since fuel
    induction fuel with
    | zero => exact fun n after => Prog.Keeps.pure _
    | succ fuel ih =>
      intro n after
      refine Prog.Keeps.bind (fun w hw => by rwa [EsWriter.run_search]) fun p => ?_
      rcases p with ⟨buckets, afterKey⟩
      dsimp only
      split_ifs
      · exact Prog.Keeps.pure _
      · refine Prog.Keeps.bind (Prog.Keeps.forM fun b _ => hupsert b) fun _ => ?_
        cases afterKey with
        | none => exact Prog.Keeps.pure _
        | some key => exact Prog.Keeps.bind (ih (n + 1) (some key)) fun _ => Prog.Keeps.pure _
  refine Prog.Keeps.bind (Prog.Keeps.ofExcept _) fun _ => ?_
  refine Prog.Keeps.bind (Prog.Keeps.modify hresolver) fun _ => ?_
  refine Prog.Keeps.bind (Prog.Keeps.zoom fun w hw => hintel w _ hw) fun _ => ?_
  refine Prog.Keeps.bind Prog.Keeps.get fun w => ?_
  refine Prog.Keeps.bind (hpages _ _ 0 none) fun _ => ?_
  refine Prog.Keeps.bind (Prog.Keeps.zoom fun w hw => ?_) fun _ => Prog.Keeps.pure _
  rw [EsWriter.run_deleteByQuery]
  exact hdelete w _ hw

/-- The entities of a history name feeds. -/
theorem History.namesFeeds {w : World} (h : History rt w) : ∀ e ∈ w.entities, NamesFeeds e := by
  induction h with
  | start h => simp [h]
  | append h rows ih => exact ih
  | other h intel vt ih => exact ih
  | @pass w h env ih =>
    refine runOnce_keeps (I := fun w => ∀ e ∈ w.entities, NamesFeeds e) (fun b w hw => ?_)
      (fun w p hw e he => hw e (Index.mem_deleteWhere.mp he).1) (fun w intel hw => hw)
      (fun w hw => hw) w ih
    rcases upsert_cases rt env b w with ⟨verdicts, vt, m, -, hm, hrun⟩ | ⟨e, vt, hrun, -⟩
    · rw [hrun]
      dsimp only
      split_ifs
      · intro e he
        rcases Index.mem_put.mp he with rfl | ⟨he, -⟩
        · exact namesFeeds_writtenDoc.mpr (sources_matchEntity hm)
        · exact hw e he
      · exact hw
    · rw [hrun]
      exact hw

/-! ### When the signals are exact -/

/-- A written entity that names feeds has exact signals if and only if what matters is listed. -/
theorem IsEntityOf.signalsExact_iff {since : ℤ} {ledger : List LedgerRow} {host : PyStr}
    {e : EntityDoc} (h : IsEntityOf rt env since ledger host e) (hnames : NamesFeeds e) :
    SignalsExact rt env (hostRows since ledger host) e ↔
      WithinSizes rt env (hostRows since ledger host) := by
  obtain ⟨summary, m, rfl⟩ := h
  have hfeeds := namesFeeds_writtenDoc.mp hnames
  have hsignal : ∀ s, s ≠ str "virustotal" → (∀ source : Source, source.name ≠ s) →
      (s ∈ (writtenDoc rt env (bucketOf env since ledger host) summary m).overlay.stageSignals ↔
        s ∈ (computeOverlay rt ((bucketOf env since ledger host).maxRank.getD 0)
          (bucketOf env since ledger host).families (bucketOf env since ledger host).shas
          (bucketOf env since ledger host).hasshes (loadKnownShas rt env.knownShas)
          (loadHasshToolkits rt env.hasshToolkits)).stageSignals) := by
    intro s hs hname
    refine (mem_stageSignals_applyIntel).trans ?_
    rw [mem_stageSignals_applyVt hs, or_iff_left]
    intro hmem
    obtain ⟨source, rfl⟩ := hfeeds s hmem
    exact hname source rfl
  have hmalware : str "known_malware" ∈
      (writtenDoc rt env (bucketOf env since ledger host) summary m).overlay.stageSignals ↔
        ∃ sha, AmongTop 200 ((hostRows since ledger host).filterMap LedgerRow.sha256) sha ∧
          KnownSha rt env sha := by
    rw [hsignal _ (by decide) fun source => source.name_ne_signal.1, malware_mem_computeOverlay]
    exact exists_congr fun sha => and_congr_left fun _ => mem_topTerms_iff
  have htoolkit : str "hassh_toolkit" ∈
      (writtenDoc rt env (bucketOf env since ledger host) summary m).overlay.stageSignals ↔
        ∃ hassh, AmongTop 50 ((hostRows since ledger host).filterMap LedgerRow.hassh) hassh ∧
          ∃ name, toolkitOf rt env hassh = some name ∧ name ≠ [] := by
    rw [hsignal _ (by decide) fun source => source.name_ne_signal.2, toolkit_mem_computeOverlay]
    exact exists_congr fun hassh => and_congr_left fun _ => mem_topTerms_iff
  have hfamilies : ∀ f, f ∈
      (writtenDoc rt env (bucketOf env since ledger host) summary m).overlay.families ↔
        AmongTop 25 ((hostRows since ledger host).filterMap LedgerRow.family) f ∧ f ≠ [] := by
    intro f
    rw [← mem_topTerms_iff]
    change f ∈ (applyIntel _ m).families ↔ _
    rw [families_applyIntel, families_applyVt, mem_families_computeOverlay]
    rfl
  constructor
  · intro hexact
    refine ⟨fun h => hmalware.mp (hexact.malware.mpr h), fun h =>
      htoolkit.mp (hexact.toolkit.mpr h),
      fun r hr f hf => (hfamilies f).mp ((hexact.families f).mpr ⟨r, hr, hf⟩)⟩
  · intro hwithin
    refine ⟨⟨fun h => ?_, fun h => hmalware.mpr (hwithin.malware h)⟩,
      ⟨fun h => ?_, fun h => htoolkit.mpr (hwithin.toolkit h)⟩,
      fun f => ⟨fun h => ?_, fun ⟨r, hr, hf⟩ => (hfamilies f).mpr (hwithin.families r hr f hf)⟩⟩
    · obtain ⟨sha, htop, hknown⟩ := hmalware.mp h
      obtain ⟨r, hr, hsha⟩ := List.mem_filterMap.mp htop.1
      exact ⟨r, hr, sha, hsha, hknown⟩
    · obtain ⟨hassh, htop, name, hname, -⟩ := htoolkit.mp h
      obtain ⟨r, hr, hhassh⟩ := List.mem_filterMap.mp htop.1
      exact ⟨r, hr, hassh, hhassh, Option.isSome_iff_exists.mpr ⟨name, hname⟩⟩
    · obtain ⟨r, hr, hf⟩ := List.mem_filterMap.mp ((hfamilies f).mp h).1.1
      exact ⟨r, hr, hf⟩

/-- **The signals of a host are those of its rows** if and only if the values that matter are
listed by the aggregations. After a pass that returns, each host with a row in the window has one
entity. -/
theorem signalsExact_iff_withinSizes {w : World} (hw : History rt w)
    (hrun : ((runOnce rt env).run w).1.isOk) (host : PyStr)
    (hne : hostRows (windowStart env.now) w.ledger host ≠ []) :
    let rows := hostRows (windowStart env.now) w.ledger host
    let w' := ((runOnce rt env).run w).2
    (∃! e, e ∈ w'.entities ∧ e.c2Host = host) ∧
    ∀ e ∈ w'.entities, e.c2Host = host →
      (SignalsExact rt env rows e ↔ WithinSizes rt env rows) := by
  dsimp only
  obtain ⟨r, hr⟩ := List.exists_mem_of_ne_nil _ hne
  obtain ⟨hledger, hhost, hts⟩ := mem_hostRows.mp hr
  refine ⟨((rollups_of_runOnce hw hrun).1 host).mpr ⟨r, hledger, hhost, hts⟩, ?_⟩
  rintro e he rfl
  have hnames := (hw.pass env).namesFeeds e he
  obtain ⟨-, -, docs, hdocs, hentities⟩ := runOnce_ok hrun
  rw [hentities, Index.mem_deleteWhere] at he
  rcases mem_putAll_entities hdocs he.1 with ⟨-, hof⟩ | ⟨-, hout⟩
  · exact hof.signalsExact_iff hnames
  · exact absurd (mem_windowHosts.mpr ⟨r, hledger, hhost, hts⟩) hout

/-- A row of a client with a fingerprint. -/
def clientRow (hassh : PyStr) : LedgerRow :=
  { c2Host := str "192.0.2.1", ts := 1780000000000, evidenceRank := 0, hassh := some hassh }

/-- The fingerprint of a tool, `mirai-loader`. -/
def toolFingerprint : PyStr := str "92674389fa1e47a27ddd8d9b63ecd42b"

/-- The ledger of a host that clients with the fingerprint and with `n` others referred to. -/
def clients (n : ℕ) : List LedgerRow :=
  clientRow toolFingerprint :: (List.range n).map fun i =>
    clientRow (twoDigits i ++ List.replicate 30 (cp '0'))

/-- Beside forty-nine others it is listed, and is a signal. -/
theorem signalsExact_iff_withinSizes_fifty :
    let env := ReasonEnv.basic (1780000005 * usPerSecond)
    let rows := hostRows (windowStart env.now) (clients 49) (str "192.0.2.1")
    let w' := ((runOnce .basic env).run (.ofLedger (clients 49))).2
    ((∃! e, e ∈ w'.entities ∧ e.c2Host = str "192.0.2.1") ∧
      ∀ e ∈ w'.entities, e.c2Host = str "192.0.2.1" →
        (SignalsExact .basic env rows e ↔ WithinSizes .basic env rows)) ∧
    w'.entities.docs.map (fun e => e.overlay.stageSignals) = [[str "hassh_toolkit"]] :=
  ⟨signalsExact_iff_withinSizes (.start rfl) (by decide +kernel) _ (by decide +kernel),
    by decide +kernel⟩

/-- The fiftieth other fingerprint hides it. -/
theorem not_signalsExact_clients :
    let env := ReasonEnv.basic (1780000005 * usPerSecond)
    let run := (runOnce .basic env).run (.ofLedger (clients 50))
    run.1.isOk ∧ ∃ e ∈ run.2.entities, e.c2Host = str "192.0.2.1" ∧
      str "hassh_toolkit" ∉ e.overlay.stageSignals ∧
      ¬ SignalsExact .basic env
        (hostRows (windowStart env.now) (clients 50) (str "192.0.2.1")) e := by
  intro env run
  have hrun : run.1.isOk = true ∧ run.2.entities.docs.map (fun e =>
      (e.c2Host, e.overlay.stageSignals)) = [(str "192.0.2.1", [])] := by
    decide +kernel
  obtain ⟨e, he, heq⟩ := List.map_eq_singleton_iff.mp hrun.2
  obtain ⟨hhost, hsignals⟩ := Prod.mk.inj heq
  have hmem : e ∈ run.2.entities := Index.mem_docs.mp (he ▸ List.mem_singleton_self e)
  have hlost : str "hassh_toolkit" ∉ e.overlay.stageSignals := by
    rw [hsignals]
    exact List.not_mem_nil
  refine ⟨hrun.1, e, hmem, hhost, hlost, fun hexact => hlost (hexact.toolkit.mpr ?_)⟩
  exact ⟨clientRow toolFingerprint, mem_hostRows.mpr ⟨List.mem_cons_self, rfl, by decide⟩,
    toolFingerprint, rfl, by decide⟩

end C2Engine
