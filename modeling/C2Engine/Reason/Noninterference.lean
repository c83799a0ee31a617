import C2Engine.Reason.Document
import C2Engine.Reason.View

/-!
# Intelligence never classifies

Two passes over one ledger at one time, whatever the known files, the toolkits, the verdicts of
VirusTotal, its threshold and the indicators are in each of them, write documents that differ in
the signals only. What a pass writes for a host is the roll-up of its rows, the stage of their
highest rank and their families, and the overlay functions leave the stage and the families as they
are.

## Main results

* `IsEntityOf.congr`: the entities two passes write for a host differ in the overlay only, and in it
  neither in the stage nor in the families.
* `IsEntityOf.stageSignals_pairwise`: signals are sorted and without duplicates.
* `applyIntel_applyVt`: the overlay functions can be applied in either order.
* `intel_never_classifies`: the statement about two passes.
-/

namespace C2Engine

open Python Store

variable {rt : Runtime}

/-! ### The overlay functions -/

/-- A sorted set that is extended and sorted again, twice, in either order. -/
theorem sortedSet_append_append (xs ys zs : List PyStr) :
    sortedSet (sortedSet (xs ++ ys) ++ zs) = sortedSet (sortedSet (xs ++ zs) ++ ys) :=
  sortedSet_congr fun x => by
    simp only [List.mem_append, mem_sortedSet]
    tauto

/-- **The overlay functions commute.** -/
theorem applyIntel_applyVt (o : Overlay) (summary : Option VtSummary) (minMalicious : ℤ)
    (m : IntelMatcher.MatchResult) : applyIntel (applyVt o summary minMalicious) m =
      applyVt (applyIntel o m) summary minMalicious := by
  cases summary with
  | none => rfl
  | some s =>
    by_cases hm : m.sources.isEmpty
    · simp only [applyIntel, hm, if_true]
    · by_cases hflag : minMalicious ≤ s.maxVtMalicious
      · simp only [applyIntel, applyVt, hm, hflag, if_true, Bool.false_eq_true, if_false,
          sortedSet_append_append o.stageSignals m.sources]
      · simp only [applyIntel, applyVt, hm, hflag, Bool.false_eq_true, if_false]

theorem pairwise_stageSignals_applyVt {o : Overlay} (h : o.stageSignals.Pairwise (· < ·))
    (summary : Option VtSummary) (minMalicious : ℤ) :
    (applyVt o summary minMalicious).stageSignals.Pairwise (· < ·) := by
  cases summary with
  | none => exact h
  | some s =>
    simp only [applyVt]
    split_ifs
    · exact pairwise_sortedSet _
    · exact h

theorem pairwise_stageSignals_applyIntel {o : Overlay} (h : o.stageSignals.Pairwise (· < ·))
    (m : IntelMatcher.MatchResult) : (applyIntel o m).stageSignals.Pairwise (· < ·) := by
  unfold applyIntel
  split_ifs
  · exact h
  · exact pairwise_sortedSet _

/-! ### The entities -/

variable {env env' : ReasonEnv} {since : ℤ} {ledger : List LedgerRow} {host : PyStr}
  {e e' : EntityDoc}

/-- Signals are sorted and without duplicates. -/
theorem IsEntityOf.stageSignals_pairwise (h : IsEntityOf rt env since ledger host e) :
    e.overlay.stageSignals.Pairwise (· < ·) := by
  obtain ⟨summary, m, rfl⟩ := h
  exact pairwise_stageSignals_applyIntel
    (pairwise_stageSignals_applyVt (pairwise_sortedSet _) _ _) m

/-- What two passes with the same locations and estimates write for a host at one time differs in
the overlay only, and in it neither in the stage nor in the families. -/
theorem IsEntityOf.congr (h : IsEntityOf rt env since ledger host e)
    (h' : IsEntityOf rt env' since ledger host e') (hnow : env.now = env'.now)
    (hgeo : env.geo = env'.geo) (hest : env.estimates = env'.estimates) :
    e = { e' with overlay := e.overlay } ∧ e.overlay.stage = e'.overlay.stage ∧
      e.overlay.families = e'.overlay.families := by
  obtain ⟨summary, m, rfl⟩ := h
  obtain ⟨summary', m', rfl⟩ := h'
  have hbucket : bucketOf env since ledger host = bucketOf env' since ledger host := by
    rw [bucketOf, hest]
    rfl
  rw [hbucket]
  refine ⟨?_, ?_, ?_⟩
  · simp only [writtenDoc, entityDoc, hnow, hgeo]
  · simp only [writtenDoc, entityDoc, stage_applyIntel, stage_applyVt]
    rfl
  · simp only [writtenDoc, entityDoc, families_applyIntel, families_applyVt]
    rfl

/-- The entity of a host in the window, after a pass that returned. -/
theorem exists_get_entities {w : World} (hrun : ((runOnce rt env).run w).1.isOk)
    (hhost : host ∈ windowHosts (windowStart env.now) w.ledger) :
    ∃ e, ((runOnce rt env).run w).2.entities.get host = some e ∧
      IsEntityOf rt env (windowStart env.now) w.ledger host e := by
  obtain ⟨-, -, docs, hdocs, hentities⟩ := runOnce_ok hrun
  obtain ⟨d, hd, hdhost⟩ := exists_mem_docs hdocs host hhost
  obtain ⟨e, he, hid⟩ := Index.exists_mem_putAll_iff (s := w.entities).mpr (.inl ⟨d, hd, rfl⟩)
  have hehost : e.c2Host = host := hid.trans hdhost
  rcases mem_putAll_entities hdocs he with ⟨hin, hof⟩ | ⟨-, hout⟩
  · refine ⟨e, Index.get_eq_some_iff.mpr ⟨?_, hehost⟩, hehost ▸ hof⟩
    rw [hentities, Index.mem_deleteWhere]
    exact ⟨he, (hof.isRollup hin).not_expired⟩
  · exact absurd (hehost ▸ hhost) hout

/-- **Intelligence never classifies.** For each host in the window two passes over one ledger at one
time write documents that agree in every field but the signals, and in each of them the signals
are sorted and without duplicates and the stage is the computed one. The overlay functions commute.
-/
theorem intel_never_classifies {env₁ env₂ : ReasonEnv} {w₁ w₂ : World}
    (hledger : w₁.ledger = w₂.ledger) (hnow : env₁.now = env₂.now) (hgeo : env₁.geo = env₂.geo)
    (hest : env₁.estimates = env₂.estimates)
    (hranks : ∀ r ∈ w₁.ledger, 0 ≤ r.evidenceRank ∧ r.evidenceRank ≤ 2)
    (hrun₁ : ((runOnce rt env₁).run w₁).1.isOk) (hrun₂ : ((runOnce rt env₂).run w₂).1.isOk)
    (dates : DateTexts) :
    (∀ host ∈ windowHosts (windowStart env₁.now) w₁.ledger, ∃ e₁ e₂,
      ((runOnce rt env₁).run w₁).2.entities.get host = some e₁ ∧
      ((runOnce rt env₂).run w₂).2.entities.get host = some e₂ ∧
      (∀ k, k ∉ signalKeys → (e₁.dump dates).get k = (e₂.dump dates).get k) ∧
      ∀ e ∈ [e₁, e₂], e.overlay.stageSignals.Pairwise (· < ·) ∧
        (e.dump dates).get (key "stage") = (evidenceStage (e.dump dates)).map .str) ∧
    ∀ o summary minMalicious m, applyIntel (applyVt o summary minMalicious) m =
      applyVt (applyIntel o m) summary minMalicious := by
  refine ⟨fun host hhost => ?_, applyIntel_applyVt⟩
  obtain ⟨e₁, he₁, hof₁⟩ := exists_get_entities hrun₁ hhost
  have hhost₂ := hhost
  rw [hledger, hnow] at hhost₂
  obtain ⟨e₂, he₂, hof₂⟩ := exists_get_entities hrun₂ hhost₂
  have hof₂' := hof₂
  rw [← hledger, ← hnow] at hof₂'
  obtain ⟨hdoc, hstage, hfamilies⟩ := hof₁.congr hof₂' hnow hgeo hest
  refine ⟨e₁, e₂, he₁, he₂, fun k hk => ?_, ?_⟩
  · rw [hdoc]
    exact EntityDoc.get_dump_congr hstage hfamilies hk
  · have hdump : ∀ {e : EntityDoc}, IsRollup (hostRows (windowStart env₁.now) w₁.ledger host) e →
        (e.dump dates).get (key "stage") = (evidenceStage (e.dump dates)).map .str := by
      intro e he
      obtain ⟨r, hr, hrank⟩ := he.maxEvidenceRank.1
      have hpos := (hranks r (mem_hostRows.mp hr).1).1
      rw [evidenceStage_dump dates (hrank ▸ hpos), get_stage_dump, he.stage]
      rfl
    simp only [List.forall_mem_cons, List.not_mem_nil, false_implies, implies_true, and_true]
    exact ⟨⟨hof₁.stageSignals_pairwise, hdump (hof₁.isRollup hhost)⟩,
      hof₂.stageSignals_pairwise, hdump (hof₂'.isRollup hhost)⟩

/-- A pass that knows the served file, and one that knows no files, with a matcher that lists the
host. -/
theorem intel_never_classifies_known_file :
    let w₁ := World.ofLedger [{
      c2Host := str "192.0.2.1", ts := 1780000000000, evidenceRank := 1
      sha256 := some (str "6f52dccd62f25ee71277c6b39b1604ab379e4d2080c90fe6194e77cda54a854c") }]
    let ioc : IntelDoc := ⟨⟨.feodo, .ip, str "192.0.2.1", [str "Dridex"], [],
      some (str "192.0.2.1")⟩, 1780000000⟩
    let w₂ : World := { w₁ with
      intel := ⟨.empty, { w₁.intel.matcher with indexes := .ofDocs [ioc] }⟩ }
    let env₁ := ReasonEnv.basic (1780000005 * usPerSecond)
    let env₂ := { env₁ with knownShas := [], minMalicious := 5 }
    ∀ dates : DateTexts, ∃ e₁ e₂,
      ((runOnce .basic env₁).run w₁).2.entities.get (str "192.0.2.1") = some e₁ ∧
      ((runOnce .basic env₂).run w₂).2.entities.get (str "192.0.2.1") = some e₂ ∧
      (e₁.dump dates).get (key "stage") = (e₂.dump dates).get (key "stage") := by
  intro w₁ ioc w₂ env₁ env₂ dates
  obtain ⟨e₁, e₂, he₁, he₂, hagree, -⟩ := (@intel_never_classifies .basic env₁ env₂ w₁ w₂
    rfl rfl rfl rfl (by decide) (by decide +kernel) (by decide +kernel) dates).1 (str "192.0.2.1")
      (by decide +kernel)
  exact ⟨e₁, e₂, he₁, he₂, hagree _ (by decide)⟩

end C2Engine
