import C2Engine.Feed.Server
import C2Engine.Reason.View

/-!
# The blocklist and the evidence

After a pass of the reason job the feed lists the hosts the ledger has evidence on: those with a
row of the rank asked for in the retention window of the pass, and with a row in the window asked
for. The two services meet only in the stored documents, the stage as a text and the time a host
was seen last.

## Main definitions

* `Qualifies`, `qualifyingHosts`: the hosts the evidence speaks for.
* `IsBlocklist`: a feed lists these hosts.

## Main results

* `selects_iff_qualifies`: the search asks for the entities of these hosts.
* `blocklist_eq_evidence`: the feed after a pass lists these hosts.
* `not_blocklist_eq_evidence`: the retention window begins at a whole second, so that a row of more
  than thirty days ago can count.
-/

namespace C2Engine

open Python Store

variable {rt : Runtime} {env : ReasonEnv}

/-- The evidence speaks for a host: it has a row of rank `k` or above since one time, any row if
`k` is 0, and a row since another. -/
def Qualifies (ledger : List LedgerRow) (evidenceSince recentSince k : ℤ) (host : PyStr) : Prop :=
  (∃ r ∈ ledger, r.c2Host = host ∧ evidenceSince ≤ r.ts ∧ (k = 0 ∨ k ≤ r.evidenceRank)) ∧
    ∃ r ∈ ledger, r.c2Host = host ∧ recentSince ≤ r.ts

instance (ledger : List LedgerRow) (evidenceSince recentSince k : ℤ) (host : PyStr) :
    Decidable (Qualifies ledger evidenceSince recentSince k host) :=
  inferInstanceAs (Decidable (_ ∧ _))

/-- The hosts the evidence speaks for. -/
def qualifyingHosts (ledger : List LedgerRow) (evidenceSince recentSince k : ℤ) : List PyStr :=
  (ledger.map LedgerRow.c2Host).dedup.filter fun host =>
    Qualifies ledger evidenceSince recentSince k host

theorem mem_qualifyingHosts {ledger : List LedgerRow} {evidenceSince recentSince k : ℤ}
    {host : PyStr} : host ∈ qualifyingHosts ledger evidenceSince recentSince k ↔
      Qualifies ledger evidenceSince recentSince k host := by
  rw [qualifyingHosts, List.mem_filter, List.mem_dedup, decide_eq_true_eq, and_iff_right_iff_imp]
  rintro ⟨⟨r, hr, hhost, -⟩, -⟩
  exact hhost ▸ List.mem_map_of_mem hr

/-- No row of the host `b` is later than all rows of the host `a`. -/
def SeenNoLater (ledger : List LedgerRow) (b a : PyStr) : Prop :=
  ∀ r ∈ ledger, r.c2Host = b → ∃ r' ∈ ledger, r'.c2Host = a ∧ r.ts ≤ r'.ts

/-- **A feed lists the evidence**: its addresses are the hosts the evidence speaks for that are IP
literals, each once and the one seen last first, and it has a summary of each of these hosts,
whether an address or a domain, and of no other. -/
structure IsBlocklist (ledger : List LedgerRow) (evidenceSince recentSince k : ℤ) (f : Feed) :
    Prop where
  mem_ips : ∀ host, host ∈ f.ips ↔
    IsIpLiteral host ∧ Qualifies ledger evidenceSince recentSince k host
  nodup : f.ips.Nodup
  newestFirst : f.ips.Pairwise fun a b => SeenNoLater ledger b a
  mem_entities : ∀ host, host ≠ [] →
    ((∃ d ∈ f.entities, d.get (key "c2_host") = some (.str host)) ↔
      Qualifies ledger evidenceSince recentSince k host)

/-! ### Entities and the evidence -/

section Entities

variable {ledger : List LedgerRow} {since recentSince k : ℤ} {e : EntityDoc}

/-- A row since the beginning of the window is no later than the time its host was seen last. -/
theorem IsRollup.ts_le (h : IsRollup (hostRows since ledger e.c2Host) e) {r : LedgerRow}
    (hr : r ∈ ledger) (hhost : r.c2Host = e.c2Host) (hts : since ≤ r.ts) : r.ts ≤ e.lastSeen :=
  h.lastSeen.2 ⟨r, mem_hostRows.mpr ⟨hr, hhost, hts⟩, rfl⟩

/-- The row at which the host of an entity was seen last. -/
theorem IsRollup.exists_last (h : IsRollup (hostRows since ledger e.c2Host) e) :
    ∃ r ∈ ledger, r.c2Host = e.c2Host ∧ since ≤ r.ts ∧ r.ts = e.lastSeen := by
  obtain ⟨r, hr, hts⟩ := h.lastSeen.1
  obtain ⟨hr, hhost, hsince⟩ := mem_hostRows.mp hr
  exact ⟨r, hr, hhost, hsince, hts⟩

/-- The stage of an entity is at or above a stage if some row of its host is of that rank. -/
theorem IsRollup.le_rank_iff (h : IsRollup (hostRows since ledger e.c2Host) e) (hk : 0 ≤ k)
    (hk2 : k ≤ 2) : k ≤ e.overlay.stage.rank ↔
      ∃ r ∈ ledger, r.c2Host = e.c2Host ∧ since ≤ r.ts ∧ (k = 0 ∨ k ≤ r.evidenceRank) := by
  rw [h.stage, le_rank_rankToStage hk hk2]
  obtain ⟨r, hr, hmax⟩ := h.maxEvidenceRank.1
  constructor
  · intro hle
    obtain ⟨hr, hhost, hts⟩ := mem_hostRows.mp hr
    exact ⟨r, hr, hhost, hts, hmax ▸ hle⟩
  · rintro ⟨r', hr', hhost, hts, hle⟩
    refine hle.imp_right fun hle => hle.trans ?_
    exact h.maxEvidenceRank.2 ⟨r', mem_hostRows.mpr ⟨hr', hhost, hts⟩, rfl⟩

/-- **The search asks for the entities the evidence speaks for.** -/
theorem selects_iff_qualifies (h : IsRollup (hostRows since ledger e.c2Host) e) (hk : 0 ≤ k)
    (hk2 : k ≤ 2) (hsince : since ≤ recentSince) {feed : FeedEnv} {uni : Unicode}
    {window : PyStr} {limit : ℤ} :
    feed.selects (feedQuery uni k window limit) recentSince e ↔
      Qualifies ledger since recentSince k e.c2Host := by
  have hstage : feedStage k = k := by
    rw [feedStage]
    omega
  rw [selects_feedQuery, hstage, h.le_rank_iff hk hk2, Qualifies]
  refine and_congr_right fun _ => ⟨fun hle => ?_, ?_⟩
  · obtain ⟨r, hr, hhost, -, hts⟩ := h.exists_last
    exact ⟨r, hr, hhost, hts ▸ hle⟩
  · rintro ⟨r, hr, hhost, hts⟩
    exact hts.trans (h.ts_le hr hhost (hsince.trans hts))

/-- Entities seen no later than others have rows no later than theirs. -/
theorem IsRollup.seenNoLater {d : EntityDoc} (h : IsRollup (hostRows since ledger e.c2Host) e)
    (hd : IsRollup (hostRows since ledger d.c2Host) d) (hle : e.lastSeen ≤ d.lastSeen) :
    SeenNoLater ledger e.c2Host d.c2Host := by
  obtain ⟨r', hr', hhost', hsince, hts'⟩ := hd.exists_last
  intro r hr hhost
  refine ⟨r', hr', hhost', ?_⟩
  by_cases hin : since ≤ r.ts
  · exact (h.ts_le hr hhost hin).trans (hle.trans hts'.ge)
  · omega

end Entities

/-- A window of at most thirty days before the present is in the window of the pass. -/
theorem windowStart_le {now length : ℤ} (h : length ≤ 30 * 86400 * 1000) :
    windowStart now ≤ now / 1000 - length := by
  simp only [windowStart, stamp, entityRetention, usPerDay, usPerSecond]
  omega

/-- The number of a window of at most thirty days has 31 bits. -/
theorem Window.number_lt {window : Window} (h : window.length ≤ 30 * 86400 * 1000) :
    window.number < 2 ^ 31 := by
  have hle : (window.number : ℤ) * 1000 ≤ window.length :=
    Int.mul_le_mul_of_nonneg_left window.unit.ms_ge (Int.natCast_nonneg _)
  omega

/-- There are no more entities of a kind than hosts, if they are entities of these. -/
theorem length_filter_le {s : EntityIndex} {p : EntityDoc → Bool} {hosts : List PyStr}
    (h : ∀ e ∈ s.docs.filter p, e.c2Host ∈ hosts) : (s.docs.filter p).length ≤ hosts.length := by
  have hnodup : ((s.docs.filter p).map EntityDoc.c2Host).Nodup :=
    s.nodup.sublist (List.filter_sublist.map _)
  rw [← List.length_map (f := EntityDoc.c2Host)]
  refine (List.subperm_of_subset hnodup fun host hhost => ?_).length_le
  obtain ⟨e, he, rfl⟩ := List.mem_map.mp hhost
  exact h e he

/-! ### The feed after a pass -/

/-- **The blocklist equals the evidence.** After a pass that returns, a feed at the same time for a
window of at most thirty days lists the hosts with a row of the rank asked for since the beginning
of the retention window and a row in the window asked for, unless there are more of them than the
limit. -/
theorem blocklist_eq_evidence {w : World} (hw : History rt w)
    (hrun : ((runOnce rt env).run w).1.isOk) {feed : FeedEnv} (hnow : feed.now = env.now / 1000)
    (hreply : feed.reply.accepts) {k : ℤ} (hk : 0 ≤ k) (hk2 : k ≤ 2) {window : Window}
    (hwindow : window.length ≤ 30 * 86400 * 1000) {limit : ℤ}
    (hlimit : (qualifyingHosts w.ledger (windowStart env.now)
      (env.now / 1000 - window.length) k).length ≤ feedLimit limit) :
    let s := ((runOnce rt env).run w).2.entities
    ∃ f, (buildFeed rt.unicode feed k window.text limit).run s = (.ok f, s) ∧
      IsBlocklist w.ledger (windowStart env.now) (env.now / 1000 - window.length) k f := by
  intro s
  obtain ⟨hview, hrollup⟩ := rollups_of_runOnce hw hrun
  set since := windowStart env.now
  set recentSince := env.now / 1000 - window.length
  have hsince : since ≤ recentSince := windowStart_le hwindow
  set q := feedQuery rt.unicode k window.text limit
  have heval : feed.dateMath.eval feed.now q.gte = some recentSince := by
    change feed.dateMath.eval feed.now (str "now-" ++ feedWindow rt.unicode window.text) = _
    rw [feedWindow_text, hnow]
    exact feed.dateMath.eval_ago _ _ (window.number_lt hwindow)
  have hselects : ∀ e ∈ s, (feed.selects q recentSince e ↔
      Qualifies w.ledger since recentSince k e.c2Host) := fun e he =>
    selects_iff_qualifies (hrollup e he).2 hk hk2 hsince
  -- the answer is not cut off, since its hosts are among those that qualify
  have hsize : (s.docs.filter (feed.selects q recentSince)).length ≤ q.size := by
    refine le_trans (Int.ofNat_le.mpr (length_filter_le fun e he => ?_)) hlimit
    obtain ⟨he, hsel⟩ := List.mem_filter.mp he
    exact mem_qualifyingHosts.mpr ((hselects e he).mp hsel)
  set es := feed.selected q recentSince s
  have hes : ∀ host, (∃ e ∈ es, e.c2Host = host) ↔ Qualifies w.ledger since recentSince k host := by
    intro host
    constructor
    · rintro ⟨e, he, rfl⟩
      obtain ⟨he, hsel⟩ := (mem_selected hsize).mp he
      exact (hselects e he).mp hsel
    · intro hq
      obtain ⟨r, hr, hhost, hts⟩ := hq.2
      obtain ⟨e, ⟨he, rfl⟩, -⟩ := (hview host).mpr ⟨r, hr, hhost, hsince.trans hts⟩
      exact ⟨e, (mem_selected hsize).mpr ⟨he, (hselects e he).mpr hq⟩, rfl⟩
  refine ⟨_, (run_buildFeed hreply heval s).trans (by rw [feedOf_sources]), ?_⟩
  refine ⟨fun host => ?_, nodup_unseen _ _, ?_, fun host hne => ?_⟩
  · rw [mem_unseen, List.mem_filter, ← hes]
    simp only [named, List.mem_map, List.mem_filter, List.not_mem_nil, not_false_eq_true, and_true]
    constructor
    · rintro ⟨⟨e, ⟨he, -⟩, rfl⟩, hip⟩
      exact ⟨hip, e, he, rfl⟩
    · rintro ⟨hip, e, he, rfl⟩
      refine ⟨⟨e, ⟨he, ?_⟩, rfl⟩, hip⟩
      rw [Bool.not_eq_true', List.isEmpty_eq_false_iff]
      exact hip.ne_nil
  · have hpair : es.Pairwise fun d e => SeenNoLater w.ledger e.c2Host d.c2Host := by
      refine pairwise_selected.imp_of_mem fun {d e} hd he hle => ?_
      have hd' := ((mem_selected hsize).mp hd).1
      have he' := ((mem_selected hsize).mp he).1
      exact (hrollup e he').2.seenNoLater (hrollup d hd').2 hle
    refine List.Pairwise.sublist ((unseen_sublist _ _).trans List.filter_sublist) ?_
    exact List.pairwise_map.mpr (hpair.sublist List.filter_sublist)
  · rw [← hes]
    simp only [named, List.mem_map, List.mem_filter]
    constructor
    · rintro ⟨_, ⟨e, ⟨he, -⟩, rfl⟩, hget⟩
      rw [get_summary, Option.some.injEq, Obj.str.injEq] at hget
      exact ⟨e, he, hget⟩
    · rintro ⟨e, he, rfl⟩
      exact ⟨_, ⟨e, ⟨he, by simpa using hne⟩, rfl⟩, get_summary _ _⟩

/-- Surroundings of the feed in which the search is answered. -/
def FeedEnv.basic (now : ℤ) : FeedEnv where
  now := now
  dateMath := .basic
  dates := ⟨fun _ => [], fun _ => []⟩
  tie _ := 0
  reply := .done

/-- An address and a domain with evidence, and an address without. -/
theorem blocklist_eq_evidence_domain :
    let w := World.ofLedger [
      { c2Host := str "192.0.2.1", ts := 1780000000000, evidenceRank := 2 },
      { c2Host := str "evil.example", ts := 1780000001000, evidenceRank := 1 },
      { c2Host := str "192.0.2.2", ts := 1780000002000, evidenceRank := 0 }]
    let s := ((runOnce .basic (.basic 1780000005500000)).run w).2.entities
    ∃ f, (buildFeed .basic (.basic 1780000005500) 1 (str "7d") 5000).run s = (.ok f, s) ∧
      str "192.0.2.1" ∈ f.ips ∧ str "192.0.2.2" ∉ f.ips ∧ str "evil.example" ∉ f.ips ∧
      ∃ d ∈ f.entities, d.get (key "c2_host") = some (.str (str "evil.example")) := by
  intro w s
  obtain ⟨f, hrun, hf⟩ := @blocklist_eq_evidence .basic (.basic 1780000005500000) w (.start rfl)
    (by decide +kernel) (.basic 1780000005500) rfl rfl 1 (by decide) (by decide)
    ⟨str "7", .days, by decide, by decide⟩ (by decide) 5000 (by decide)
  refine ⟨f, hrun, (hf.mem_ips _).mpr (by decide), ?_, ?_, (hf.mem_entities _ ?_).mpr (by decide)⟩
  · exact fun h => absurd ((hf.mem_ips _).mp h) (by decide)
  · exact fun h => absurd ((hf.mem_ips _).mp h) (by decide)
  · decide

/-- The only row of rank 2 is older than thirty days, by less than the second at which the
retention window begins, and the host is listed for rank 2. -/
theorem not_blocklist_eq_evidence :
    let w := World.ofLedger [
      { c2Host := str "192.0.2.1", ts := 1777408005200, evidenceRank := 2 },
      { c2Host := str "192.0.2.1", ts := 1780000000000, evidenceRank := 0 }]
    let pass := (runOnce .basic (.basic 1780000005500000)).run w
    pass.1.isOk ∧ ∃ f s,
      (buildFeed .basic (.basic 1780000005500) 2 (str "7d") 5000).run pass.2.entities = (.ok f, s) ∧
      f.ips = [str "192.0.2.1"] ∧
      ¬ IsBlocklist w.ledger (1780000005500 - 30 * 86400 * 1000)
        (1780000005500 - 7 * 86400 * 1000) 2 f := by
  intro w pass
  have hips : ((buildFeed .basic (.basic 1780000005500) 2 (str "7d") 5000).run
      pass.2.entities).1.toOption.map Feed.ips = some [str "192.0.2.1"] := by decide +kernel
  refine ⟨by decide +kernel, ?_⟩
  rcases hrun : (buildFeed .basic (.basic 1780000005500) 2 (str "7d") 5000).run pass.2.entities
    with ⟨e | f, s⟩
  · rw [hrun] at hips
    cases hips
  · rw [hrun] at hips
    have hf : f.ips = [str "192.0.2.1"] := Option.some.inj hips
    refine ⟨f, s, rfl, hf, fun h => ?_⟩
    have hmem : str "192.0.2.1" ∈ f.ips := hf ▸ List.mem_singleton_self _
    exact absurd ((h.mem_ips _).mp hmem).2 (by decide)

end C2Engine
