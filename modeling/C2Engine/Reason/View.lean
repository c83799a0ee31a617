import C2Engine.Reason.Pass
import Mathlib.Order.Bounds.Basic

/-!
# The entities as a view of the ledger

Over a history of passes the entities are a view of the ledger: each entity was last seen at the
time of a row of its host, so that the deletion of a pass takes out exactly those whose host has
left the window, and what is left after a pass are the hosts in the window.

## Main definitions

* `IsRollup`: an entity rolls up the rows of its host.
* `History`: the states that passes over a growing ledger reach.

## Main results

* `IsEntityOf.isRollup`: what a pass writes rolls up rows.
* `History.forall_entities`: the rule for the entities of a history.
* `History.lastSeen_mem`: the invariant of the entities.
* `rollups_of_runOnce`, `entities_eq_view`: after a pass that returns, the entities are the view.
-/

namespace C2Engine

open Python Store

variable {rt : Runtime} {env : ReasonEnv}

/-! ### Roll-ups -/

/-- An entity rolls up rows. -/
structure IsRollup (rows : List LedgerRow) (e : EntityDoc) : Prop where
  maxEvidenceRank : IsGreatest {n | ∃ r ∈ rows, r.evidenceRank = n} e.maxEvidenceRank
  stage : e.overlay.stage = rankToStage e.maxEvidenceRank
  sightingCount : e.sightingCount = rows.length
  firstSeen : IsLeast {t | ∃ r ∈ rows, r.ts = t} e.firstSeen
  lastSeen : IsGreatest {t | ∃ r ∈ rows, r.ts = t} e.lastSeen

theorem isGreatest_max? {rows : List LedgerRow} (hne : rows ≠ []) (f : LedgerRow → ℤ) :
    IsGreatest {n | ∃ r ∈ rows, f r = n} (((rows.map f).max?).getD 0) := by
  cases hmax : (rows.map f).max? with
  | none => exact absurd (List.map_eq_nil_iff.mp (List.max?_eq_none_iff.mp hmax)) hne
  | some m =>
    obtain ⟨hmem, hle⟩ := List.max?_eq_some_iff.mp hmax
    refine ⟨List.mem_map.mp hmem, ?_⟩
    rintro _ ⟨r, hr, rfl⟩
    exact hle _ (List.mem_map_of_mem hr)

theorem isLeast_min? {rows : List LedgerRow} (hne : rows ≠ []) (f : LedgerRow → ℤ) :
    IsLeast {n | ∃ r ∈ rows, f r = n} (((rows.map f).min?).getD 0) := by
  cases hmin : (rows.map f).min? with
  | none => exact absurd (List.map_eq_nil_iff.mp (List.min?_eq_none_iff.mp hmin)) hne
  | some m =>
    obtain ⟨hmem, hle⟩ := List.min?_eq_some_iff.mp hmin
    refine ⟨List.mem_map.mp hmem, ?_⟩
    rintro _ ⟨r, hr, rfl⟩
    exact hle _ (List.mem_map_of_mem hr)

theorem mem_hostRows {since : ℤ} {ledger : List LedgerRow} {host : PyStr} {r : LedgerRow} :
    r ∈ hostRows since ledger host ↔ r ∈ ledger ∧ r.c2Host = host ∧ since ≤ r.ts := by
  simp only [hostRows, windowRows, List.mem_filter, decide_eq_true_eq]
  tauto

/-- An entity of rows in the window is none of old. -/
theorem IsRollup.not_expired {since : ℤ} {ledger : List LedgerRow} {host : PyStr} {e : EntityDoc}
    (h : IsRollup (hostRows since ledger host) e) : expired since e = false := by
  obtain ⟨r, hr, hts⟩ := h.lastSeen.1
  have hle := (mem_hostRows.mp hr).2.2
  rw [hts] at hle
  simpa [expired] using hle

/-- A written entity rolls up the rows of its host in the window. -/
theorem IsEntityOf.isRollup {since : ℤ} {ledger : List LedgerRow} {host : PyStr} {e : EntityDoc}
    (h : IsEntityOf rt env since ledger host e) (hhost : host ∈ windowHosts since ledger) :
    IsRollup (hostRows since ledger host) e := by
  obtain ⟨r, hr, hrhost, hts⟩ := mem_windowHosts.mp hhost
  have hne : hostRows since ledger host ≠ [] :=
    List.ne_nil_of_mem (mem_hostRows.mpr ⟨hr, hrhost, hts⟩)
  obtain ⟨summary, m, rfl⟩ := h
  refine ⟨isGreatest_max? hne LedgerRow.evidenceRank, ?_, rfl, isLeast_min? hne LedgerRow.ts,
    isGreatest_max? hne LedgerRow.ts⟩
  change (applyIntel _ m).stage = _
  rw [stage_applyIntel, stage_applyVt]
  rfl

/-! ### Histories -/

/-- The states reached from an empty index by passes, however they end, while rows are added to
the ledger. -/
inductive History (rt : Runtime) : World → Prop where
  | start {w : World} (h : w.entities = .empty) : History rt w
  | append {w : World} (h : History rt w) (rows : List LedgerRow) :
      History rt { w with ledger := w.ledger ++ rows }
  | other {w : World} (h : History rt w) (intel : IntelState) (vt : VtState) :
      History rt { w with intel := intel, vt := vt }
  | pass {w : World} (h : History rt w) (env : ReasonEnv) : History rt ((runOnce rt env).run w).2

/-- **The rule for the entities of a history**: what holds of each entity a pass writes, and stays
true when rows are added, holds of every entity. -/
theorem History.forall_entities {P : List LedgerRow → EntityDoc → Prop}
    (happend : ∀ {ledger rows e}, P ledger e → P (ledger ++ rows) e)
    (hwritten : ∀ {env since ledger host e}, IsEntityOf rt env since ledger host e →
      host ∈ windowHosts since ledger → P ledger e)
    {w : World} (h : History rt w) : ∀ e ∈ w.entities, P w.ledger e := by
  induction h with
  | start h => simp [h]
  | append h rows ih => exact fun e he => happend (ih e he)
  | other h intel vt ih => exact ih
  | @pass w h env ih =>
    intro e he
    obtain ⟨hledger, hframe⟩ := runOnce_frame rt env w
    rw [hledger]
    rcases hframe e he with he | ⟨host, hhost, hof⟩
    · exact ih e he
    · exact hwritten hof hhost

/-- Each entity was last seen at the time of a row of its host. -/
theorem History.lastSeen_mem {w : World} (h : History rt w) :
    ∀ e ∈ w.entities, ∃ r ∈ w.ledger, r.c2Host = e.c2Host ∧ r.ts = e.lastSeen := by
  refine h.forall_entities
    (P := fun ledger e => ∃ r ∈ ledger, r.c2Host = e.c2Host ∧ r.ts = e.lastSeen)
    (fun ⟨r, hr, heq⟩ => ⟨r, List.mem_append_left _ hr, heq⟩) ?_
  intro env since ledger host e hof hhost
  obtain ⟨r, hr, hts⟩ := (hof.isRollup hhost).lastSeen.1
  obtain ⟨hr, hrhost, -⟩ := mem_hostRows.mp hr
  exact ⟨r, hr, hrhost.trans hof.c2Host.symm, hts⟩

/-- After a pass that returns there is one entity for each host with a row since the beginning of
the window and no other, and it rolls up these rows. -/
theorem rollups_of_runOnce {w : World} (hw : History rt w)
    (hrun : ((runOnce rt env).run w).1.isOk) :
    (∀ host, (∃! e, e ∈ ((runOnce rt env).run w).2.entities ∧ e.c2Host = host) ↔
      ∃ r ∈ w.ledger, r.c2Host = host ∧ windowStart env.now ≤ r.ts) ∧
    ∀ e ∈ ((runOnce rt env).run w).2.entities,
      (∃ r ∈ w.ledger, r.c2Host = e.c2Host ∧ windowStart env.now ≤ r.ts) ∧
      IsRollup (hostRows (windowStart env.now) w.ledger e.c2Host) e := by
  obtain ⟨-, -, docs, hdocs, hentities⟩ := runOnce_ok hrun
  set since := windowStart env.now
  have hmem : ∀ e, e ∈ ((runOnce rt env).run w).2.entities →
      (∃ r ∈ w.ledger, r.c2Host = e.c2Host ∧ since ≤ r.ts) ∧
        IsRollup (hostRows since w.ledger e.c2Host) e := by
    intro e he
    rw [hentities, Index.mem_deleteWhere] at he
    obtain ⟨he, hfresh⟩ := he
    rcases mem_putAll_entities hdocs he with ⟨hhost, hof⟩ | ⟨hold, hhost⟩
    · exact ⟨mem_windowHosts.mp hhost, hof.isRollup hhost⟩
    · -- an old entity that was not expired was last seen in the window, so its host is in it
      obtain ⟨r, hr, hrhost, hts⟩ := hw.lastSeen_mem e hold
      have hle : since ≤ r.ts := by
        rw [hts]
        simpa [expired] using hfresh
      exact absurd (mem_windowHosts.mpr ⟨r, hr, hrhost, hle⟩) hhost
  refine ⟨fun host => ⟨?_, fun hrow => ?_⟩, hmem⟩
  · rintro ⟨e, ⟨he, rfl⟩, -⟩
    exact (hmem e he).1
  · have hhost : host ∈ windowHosts since w.ledger := mem_windowHosts.mpr hrow
    obtain ⟨d, hd, hdhost⟩ := exists_mem_docs hdocs host hhost
    obtain ⟨e, he, hehost⟩ := Index.exists_mem_putAll_iff (s := w.entities).mpr (.inl ⟨d, hd, rfl⟩)
    have hehost : e.c2Host = host := hehost.trans hdhost
    have hstays : e ∈ ((runOnce rt env).run w).2.entities := by
      rw [hentities, Index.mem_deleteWhere]
      refine ⟨he, ?_⟩
      rcases mem_putAll_entities hdocs he with ⟨hin, hof⟩ | ⟨-, hout⟩
      · exact (hof.isRollup hin).not_expired
      · exact absurd (hehost ▸ hhost) hout
    refine ⟨e, ⟨hstays, hehost⟩, ?_⟩
    rintro e' ⟨he', hehost'⟩
    exact Index.eq_of_idOf_eq _ he' hstays (hehost'.trans hehost.symm)

/-- **The entities are the view of the window.** After a pass at a whole second that returns there
is one entity for each host with a row in the last thirty days and no other, and it rolls up these
rows. -/
theorem entities_eq_view {w : World} (hw : History rt w) {s : ℤ}
    (hnow : env.now = s * usPerSecond) (hrun : ((runOnce rt env).run w).1.isOk) :
    let since := (s - 30 * 86400) * 1000
    let w' := ((runOnce rt env).run w).2
    (∀ host, (∃! e, e ∈ w'.entities ∧ e.c2Host = host) ↔
      ∃ r ∈ w.ledger, r.c2Host = host ∧ since ≤ r.ts) ∧
    ∀ e ∈ w'.entities, (∃ r ∈ w.ledger, r.c2Host = e.c2Host ∧ since ≤ r.ts) ∧
      IsRollup (hostRows since w.ledger e.c2Host) e := by
  have hview := rollups_of_runOnce hw hrun
  rw [hnow, windowStart_second] at hview
  exact hview

/-- A host that was seen within the window, and one that was seen before it. -/
theorem entities_eq_view_two_hosts :
    let w := World.ofLedger [
      { c2Host := str "192.0.2.1", ts := 1780000000000, evidenceRank := 2 },
      { c2Host := str "192.0.2.2", ts := 1770000000000, evidenceRank := 1 }]
    let w' := ((runOnce .basic (.basic (1780000005 * usPerSecond))).run w).2
    (∃! e, e ∈ w'.entities ∧ e.c2Host = str "192.0.2.1") ∧
      ¬ ∃! e, e ∈ w'.entities ∧ e.c2Host = str "192.0.2.2" := by
  intro w w'
  have hview := (@entities_eq_view .basic (.basic (1780000005 * usPerSecond)) w (.start rfl) _ rfl
    (by decide +kernel)).1
  exact ⟨(hview _).mpr (by decide), fun h => absurd ((hview _).mp h) (by decide)⟩

end C2Engine
