import C2Engine.Machine.Trace
import C2Engine.Reason.VtLog

/-!
# A rejected key

VirusTotal answers a look-up with the status 401 when it rejects the key. The client that hears it
sends no further look-up, but each pass of the reason job has a client of its own. So the key is
left alone exactly as long as the passes behind the rejection have nothing to look up.

The pass is written a second time with the log of its resolver.

## Main definitions

* `VtLog.runOnce`, `VtLog.runPasses`: the pass and the loop, with a log.
* `QuietAfter`: no look-up comes behind a rejection.
* `Idle`: a pass with nothing to look up.

## Main results

* `forgets_runPasses`: the log does not change what the loop does.
* `runOnce_keeps_log`: the rule for the log of a pass.
* `quietAfter_runPasses`: a rejected key stays disabled while the later passes are idle.
-/

namespace C2Engine

open Python Store Machine

/-! ### The pass with a log -/

/-- A program of the resolver, with a log. -/
def onVtLog {α : Type} (m : Prog (VtState × List VtEvent) α) : Prog (World × List VtEvent) α :=
  Prog.zoomLogged World.vt (fun s w => { w with vt := s }) m

section Definitions

variable (rt : Runtime)

/-- The body of the loop over the buckets behind the verdicts. -/
def upsertRest (env : ReasonEnv) (b : Bucket) (verdicts : List VtVerdict) : Prog World Unit := do
  let maxRank := b.maxRank.getD 0
  let overlay := computeOverlay rt maxRank b.families b.shas b.hasshes
    (loadKnownShas rt env.knownShas) (loadHasshToolkits rt env.hasshToolkits)
  let overlay := applyVt overlay (summarizeVt verdicts) env.minMalicious
  let m ← Prog.ofExcept (IntelMatcher.matchEntity rt (← Prog.get).intel.matcher.indexes
    ⟨b.host, b.resolvedIps, b.urls, b.shas⟩)
  let overlay := applyIntel overlay m
  onEntities (EsWriter.indexDoc (env.reply (.entity b.host)) (entityDoc env b maxRank overlay))

namespace VtLog

/-- The body of the loop over the buckets, with a log. -/
def upsert (env : ReasonEnv) (b : Bucket) : Prog (World × List VtEvent) Unit := do
  let verdicts ← onVtLog (verdictsFor rt env.vt b.shas)
  Prog.lift (upsertRest rt env b verdicts)

/-- The loop over the pages, with a log. -/
def hostPages (env : ReasonEnv) (since : ℤ) :
    (fuel n : ℕ) → (after : Option PyStr) → Prog (World × List VtEvent) ℕ
  | 0, _, _ => pure 0
  | fuel + 1, n, after => do
    let (buckets, afterKey) ← Prog.lift (EsWriter.search (env.reply (.hosts n)) fun w : World =>
      compositePage env since w.ledger after)
    if buckets.isEmpty then return 0
    else do
      Prog.forM buckets (upsert rt env)
      match afterKey with
      | none => return buckets.length
      | some key => do
        let rest ← hostPages env since fuel (n + 1) (some key)
        return buckets.length + rest

/-- The pass behind the refresh, with a log. -/
def updateEntities (env : ReasonEnv) : Prog (World × List VtEvent) ℕ := do
  let since := windowStart env.now
  let hosts := (windowHosts since (← Prog.get).1.ledger).length
  let updated ← hostPages rt env since (hosts + 1) 0 none
  Prog.lift (onEntities (EsWriter.deleteByQuery (env.reply .expire) (expired since)))
  return updated

/-- `run_once`, with a log. -/
def runOnce (env : ReasonEnv) : Prog (World × List VtEvent) ℕ := do
  Prog.lift (Prog.ofExcept (checkWindow env))
  Prog.lift (Prog.modify fun w => { w with vt := { w.vt with resolver := newResolver env } })
  Prog.lift (onIntel (IntelMatcher.refresh rt env.intel))
  updateEntities rt env

/-- The loop of `run`, with a log. -/
def runPasses : List ReasonEnv → Prog (World × List VtEvent) Unit
  | [] => pure ()
  | env :: envs => do
    Prog.tryExcept (runOnce rt env >>= fun _ => pure ()) fun _ => some (pure ())
    runPasses envs

end VtLog

end Definitions

variable {rt : Runtime}

/-! ### Without the log -/

theorem forgets_upsert (env : ReasonEnv) (b : Bucket) :
    (VtLog.upsert rt env b).Forgets (upsert rt env b) :=
  .bind (.zoomLogged (forgets_verdictsFor env.vt b.shas)) fun verdicts =>
    .lift (upsertRest rt env b verdicts)

theorem forgets_hostPages (env : ReasonEnv) (since : ℤ) : (fuel n : ℕ) → (after : Option PyStr) →
    (VtLog.hostPages rt env since fuel n after).Forgets (hostPages rt env since fuel n after)
  | 0, _, _ => .pure 0
  | fuel + 1, n, after => by
      refine .bind (.lift _) fun p => ?_
      rcases p with ⟨buckets, afterKey⟩
      dsimp only
      split_ifs
      · exact .pure 0
      · refine .bind (.forM (forgets_upsert env) buckets) fun _ => ?_
        cases afterKey with
        | none => exact .pure _
        | some key =>
          exact .bind (forgets_hostPages env since fuel (n + 1) (some key)) fun _ => .pure _

theorem forgets_runOnce (env : ReasonEnv) : (VtLog.runOnce rt env).Forgets (runOnce rt env) := by
  refine .bind (.lift _) fun _ => .bind (.lift _) fun _ => .bind (.lift _) fun _ => ?_
  exact .get_bind fun p => .bind (forgets_hostPages env _ _ 0 none) fun _ =>
    .bind (.lift _) fun _ =>
    .pure _

/-- **Without its log the loop with a log is the loop.** -/
theorem forgets_runPasses : (envs : List ReasonEnv) →
    (VtLog.runPasses rt envs).Forgets (runPasses rt envs)
  | [] => .pure ()
  | env :: envs => by
      refine .bind (.tryExcept (.bind (forgets_runOnce env) fun _ => .pure ()) (fun _ => ?_) ?_)
        fun _ => forgets_runPasses envs
      · exact iff_of_false nofun nofun
      · intro e q' q hq' hq
        obtain rfl := Option.some.inj hq'
        obtain rfl := Option.some.inj hq
        exact .pure ()

/-! ### The log of a resolver -/

/-- A look-up does not come behind a rejection. -/
def QuietAfter (ev later : VtEvent) : Prop := ev.Rejected → later.askedFor = none

/-- An event that is no look-up can come behind any log. -/
theorem quietAfter_concat {log : List VtEvent} (h : log.Pairwise QuietAfter) {ev : VtEvent}
    (hev : ev.askedFor = none ∨ ∀ e ∈ log, ¬ e.Rejected) : (log ++ [ev]).Pairwise QuietAfter := by
  refine List.pairwise_append.mpr ⟨h, List.pairwise_singleton _ _,
    fun e he later hlater hrejected => ?_⟩
  rw [List.mem_singleton.mp hlater]
  exact hev.elim id fun hnone => absurd hrejected (hnone e he)

/-- The client of a resolver is disabled where its log has a rejection. -/
def Guarded (p : VtState × List VtEvent) : Prop :=
  p.2.Pairwise QuietAfter ∧ (p.1.resolver.enabled = true → ∀ ev ∈ p.2, ¬ ev.Rejected)

/-- An event that is no look-up leaves the client as it is. -/
theorem Guarded.concat {p : VtState × List VtEvent} (h : Guarded p) {ev : VtEvent}
    (hev : ev.askedFor = none) : Guarded (p.1, p.2 ++ [ev]) := by
  refine ⟨quietAfter_concat h.1 (.inl hev), fun henabled => ?_⟩
  refine List.forall_mem_append.mpr ⟨h.2 henabled, ?_⟩
  rintro e he ⟨sha, rfl⟩
  rw [← List.mem_singleton.mp he] at hev
  cases hev

/-- What is kept by whatever leaves the client alone. -/
theorem keeps_lift_of_enabled {α : Type} {m : Prog VtState α}
    (hm : ∀ s, ((m.run s).2).resolver.enabled = s.resolver.enabled) :
    Prog.Keeps Guarded (Prog.lift m) := by
  rintro p ⟨hquiet, hguard⟩
  refine ⟨hquiet, fun henabled => hguard ?_⟩
  rw [← hm p.1]
  exact henabled

variable {env : VtEnv}

/-- A look-up that is sent while no key was rejected, whether it raises or not. -/
theorem guarded_lookup {sha : PyStr} {p : VtState × List VtEvent} (h : Guarded p)
    (henabled : p.1.resolver.enabled = true) : Guarded ((VtLog.lookup rt env sha).run p).2 := by
  obtain ⟨flag, hstate, hflag, -⟩ := @lookup_frame rt env sha p.1
  have hasked : Guarded (((VtClient.lookup rt env sha).run p.1).2,
      p.2 ++ [.asked sha (env.answer sha)]) := by
    refine ⟨quietAfter_concat h.1 (.inr (h.2 henabled)), fun hon => ?_⟩
    rw [hstate] at hon
    refine List.forall_mem_append.mpr ⟨h.2 henabled, ?_⟩
    rintro e he ⟨s, rfl⟩
    exact (hflag hon).2 (VtEvent.asked.inj (List.mem_singleton.mp he)).2.symm
  rcases hrun : (VtClient.lookup rt env sha).run p.1 with ⟨e | v, s⟩
  · rw [hrun] at hasked
    rw [run_lookup_error hrun]
    exact hasked
  · rw [hrun] at hasked
    rw [run_lookup_ok hrun, ← List.singleton_append, ← List.append_assoc]
    exact hasked.concat rfl

/-- The body of the loop over the files keeps the guard. -/
theorem guarded_resolve (sha : PyStr) : Prog.Keeps Guarded (VtLog.resolve rt env sha) := by
  have hremember (v : Option VtVerdict) :
      Prog.Keeps Guarded (Prog.lift (VtResolver.remember sha v)) :=
    keeps_lift_of_enabled fun _ => rfl
  intro p h
  rw [VtLog.resolve, Prog.run_bind, Prog.run_get]
  dsimp only
  split_ifs with hseen hoff
  · exact h
  · exact hremember none p h
  · obtain ⟨henabled, -⟩ : p.1.resolver.enabled = true ∧ 0 < p.1.resolver.budget := by
      simpa using hoff
    have hafter := @guarded_lookup rt env sha p h henabled
    rcases hrun : (VtLog.lookup rt env sha).run p with ⟨e | v, q⟩
    · rw [hrun] at hafter
      rwa [Prog.run_bind_of_error hrun]
    · rw [hrun] at hafter
      rw [Prog.run_bind_of_ok hrun]
      refine Prog.Keeps.bind
        (I := Guarded) (keeps_lift_of_enabled fun _ => rfl) (fun _ => ?_) q hafter
      cases v with
      | none => exact hremember none
      | some v =>
        refine Prog.Keeps.bind (fun q hq => hq.concat rfl) fun _ => ?_
        exact Prog.Keeps.bind (keeps_lift_of_enabled fun _ => rfl) fun _ => hremember (some v)

/-- Reading the index leaves the state as it is. -/
theorem readCache_frame (want : List PyStr) (s : VtState) :
    ((VtResolver.readCache env want).run s).2 = s := by
  rw [VtResolver.readCache, EsWriter.run_searchOr]

/-- The rule for the calls of a resolver. -/
theorem keeps_verdictsFor_of {I : VtState × List VtEvent → Prop}
    (hread : ∀ p fresh, I p → I (p.1, p.2 ++ [.read fresh]))
    (hremember : ∀ sha v, Prog.Keeps I (Prog.lift (VtResolver.remember sha v)))
    (hresolve : ∀ sha, Prog.Keeps I (VtLog.resolve rt env sha)) (shas : List PyStr) :
    Prog.Keeps I (VtLog.verdictsFor rt env shas) := by
  refine Prog.Keeps.bind Prog.Keeps.get fun p => ?_
  dsimp only
  split_ifs
  · exact Prog.Keeps.bind Prog.Keeps.get fun _ => Prog.Keeps.pure _
  · refine Prog.Keeps.bind (fun q hq => ?_) fun fresh => ?_
    · rw [Prog.run_lift, readCache_frame]
      exact hq
    · refine Prog.Keeps.bind (fun q hq => hread q fresh hq) fun _ => ?_
      refine Prog.Keeps.bind (Prog.Keeps.forM fun v _ => hremember _ _) fun _ => ?_
      refine Prog.Keeps.bind (Prog.Keeps.forM fun sha _ => hresolve sha) fun _ => ?_
      exact Prog.Keeps.bind Prog.Keeps.get fun _ => Prog.Keeps.pure _

theorem guarded_verdictsFor (shas : List PyStr) :
    Prog.Keeps Guarded (VtLog.verdictsFor rt env shas) :=
  keeps_verdictsFor_of (fun _ _ h => h.concat rfl)
    (fun _ _ => keeps_lift_of_enabled fun _ => rfl) guarded_resolve shas

/-- A resolver without a key or without a budget. -/
def Off (p : VtState × List VtEvent) : Prop :=
  p.2.Pairwise QuietAfter ∧ (p.1.resolver.enabled = false ∨ p.1.resolver.budget ≤ 0)

/-- It puts every file off. -/
theorem off_verdictsFor (shas : List PyStr) : Prog.Keeps Off (VtLog.verdictsFor rt env shas) := by
  have hremember (sha : PyStr) (v : Option VtVerdict) :
      Prog.Keeps Off (Prog.lift (VtResolver.remember sha v)) := fun _ h => h
  refine keeps_verdictsFor_of (fun p fresh h => ⟨quietAfter_concat h.1 (.inl rfl), h.2⟩) hremember
    (fun sha p h => ?_) shas
  rw [VtLog.resolve, Prog.run_bind, Prog.run_get]
  dsimp only
  split_ifs with hseen hoff
  · exact h
  · exact hremember sha none p h
  · exact absurd (by simpa using h.2) hoff

/-- The index has a young verdict on each of the files, and answers. -/
def CachedAll (env : VtEnv) (cache : VtCache) (shas : List PyStr) : Prop :=
  (∀ want, (env.reply (.read want)).accepts) ∧
    ∀ sha ∈ shas, sha ≠ [] → ∃ v ∈ cache, v.sha256 = sha ∧ VtResolver.isFresh env.now v

/-- Nothing is looked up where the index has the verdicts. -/
theorem cached_verdictsFor {cache : VtCache} {shas : List PyStr}
    (hcached : CachedAll env cache shas) :
    Prog.Keeps (fun p : VtState × List VtEvent => p.2.Pairwise QuietAfter ∧ p.1.cache = cache)
      (VtLog.verdictsFor rt env shas) := by
  rintro p ⟨hquiet, rfl⟩
  rw [VtLog.verdictsFor, Prog.run_bind, Prog.run_get]
  dsimp only
  split_ifs
  · exact ⟨hquiet, rfl⟩
  · set want := (unseen [] shas).filter fun s => !s.isEmpty && (p.1.resolver.mem.lookup s).isNone
      with hwant
    set fresh := p.1.cache.docs.filter fun v => want.elem v.sha256 && VtResolver.isFresh env.now v
      with hfreshdef
    have hlift : (Prog.lift (VtResolver.readCache env want)).run p = (.ok fresh, p) := by
      rw [Prog.run_lift, VtResolver.readCache, EsWriter.run_searchOr,
        Reply.result_of_accepts (hcached.1 want)]
    rw [Prog.run_bind_of_ok hlift, Prog.run_bind_of_ok (Prog.run_tell _ p),
      Prog.run_bind_of_ok (run_forM_remember _ _)]
    set mem := rememberAll p.1.resolver.mem fresh
    -- every wanted file is remembered now
    have hseen : ∀ sha ∈ want, (mem.lookup sha).isSome := by
      intro sha hsha
      obtain ⟨hmem, hnew⟩ := List.mem_filter.mp hsha
      simp only [Bool.and_eq_true, Bool.not_eq_true', List.isEmpty_eq_false_iff] at hnew
      obtain ⟨v, hv, hvsha, hfresh⟩ := hcached.2 sha (mem_unseen.mp hmem).1 hnew.1
      refine isSome_lookup_rememberAll.mpr (.inl ⟨v, List.mem_filter.mpr ⟨hv, ?_⟩, hvsha⟩)
      rw [hvsha, hfresh, Bool.and_true]
      exact List.elem_iff.mpr hsha
    have hloop : Prog.Keeps (fun q : VtState × List VtEvent => q.2.Pairwise QuietAfter ∧
        q.1.cache = p.1.cache ∧ ∀ sha ∈ want, (q.1.resolver.mem.lookup sha).isSome)
        (Prog.forM want (VtLog.resolve rt env)) := by
      refine Prog.Keeps.forM fun sha hsha q hq => ?_
      rw [VtLog.resolve, Prog.run_bind, Prog.run_get]
      dsimp only
      rw [if_pos (hq.2.2 sha hsha)]
      exact hq
    have hend := Prog.Keeps.bind hloop fun _ =>
      Prog.Keeps.bind Prog.Keeps.get fun q => Prog.Keeps.pure (shas.filterMap fun s =>
        (q.1.resolver.mem.lookup s).join)
    have hkept := hend ({ p.1 with resolver := { p.1.resolver with mem := mem } },
      p.2 ++ [.read fresh]) ⟨quietAfter_concat hquiet (.inl rfl), rfl, hseen⟩
    exact ⟨hkept.1, hkept.2.1⟩

/-! ### The log of a pass -/

section Pass

variable {env : ReasonEnv}

/-- Behind the verdicts only the entities change. -/
theorem upsertRest_frame (b : Bucket) (verdicts : List VtVerdict) (w : World) :
    ∃ entities, ((upsertRest rt env b verdicts).run w).2 = { w with entities := entities } := by
  have hget : (upsertRest rt env b verdicts).run w = ((Prog.ofExcept (IntelMatcher.matchEntity rt
      w.intel.matcher.indexes ⟨b.host, b.resolvedIps, b.urls, b.shas⟩) >>= fun m =>
        onEntities (EsWriter.indexDoc (env.reply (.entity b.host))
          (writtenDoc rt env b (summarizeVt verdicts) m)) : Prog World Unit)).run w := rfl
  rw [hget]
  cases hm : IntelMatcher.matchEntity rt w.intel.matcher.indexes
      ⟨b.host, b.resolvedIps, b.urls, b.shas⟩ with
  | error e => exact ⟨w.entities, rfl⟩
  | ok m => exact ⟨_, rfl⟩

variable {I : World × List VtEvent → Prop} {since : ℤ} {ledger : List LedgerRow}

/-- The rule for the loop over the pages, whose buckets are those of the hosts in the window. -/
theorem keeps_hostPages (hledger : ∀ q, I q → q.1.ledger = ledger)
    (hverdicts : ∀ host ∈ windowHosts since ledger,
      Prog.Keeps I (onVtLog (VtLog.verdictsFor rt env.vt (bucketOf env since ledger host).shas)))
    (hentities : ∀ q entities, I q → I ({ q.1 with entities := entities }, q.2)) :
    (fuel n : ℕ) → (after : Option PyStr) →
      Prog.Keeps I (VtLog.hostPages rt env since fuel n after)
  | 0, _, _ => Prog.Keeps.pure 0
  | fuel + 1, n, after => by
      have hupsert : ∀ host ∈ windowHosts since ledger,
          Prog.Keeps I (VtLog.upsert rt env (bucketOf env since ledger host)) := by
        intro host hhost
        refine Prog.Keeps.bind (hverdicts host hhost) fun verdicts q hq => ?_
        obtain ⟨entities, hframe⟩ := @upsertRest_frame rt env
          (bucketOf env since ledger host) verdicts q.1
        rw [Prog.run_lift, hframe]
        exact hentities q entities hq
      intro q hq
      rw [VtLog.hostPages]
      cases hr : (env.reply (.hosts n)).result with
      | error e =>
        have hsearch : (Prog.lift (EsWriter.search (env.reply (.hosts n)) fun w : World =>
            compositePage env since w.ledger after)).run q = (.error e, q) := by
          rw [Prog.run_lift, EsWriter.run_search, hr]
          rfl
        rwa [Prog.run_bind_of_error hsearch]
      | ok u =>
        have hsearch : (Prog.lift (EsWriter.search (env.reply (.hosts n)) fun w : World =>
            compositePage env since w.ledger after)).run q =
              (.ok (compositePage env since ledger after), q) := by
          rw [Prog.run_lift, EsWriter.run_search, hr, hledger q hq]
          rfl
        have hbuckets : ∀ b ∈ (compositePage env since ledger after).1,
            Prog.Keeps I (VtLog.upsert rt env b) := by
          intro b hb
          obtain ⟨host, hhost, rfl⟩ := List.mem_map.mp hb
          exact hupsert host (List.mem_of_mem_filter (List.mem_of_mem_take hhost))
        rw [Prog.run_bind_of_ok hsearch]
        rcases hpage : compositePage env since ledger after with ⟨buckets, afterKey⟩
        rw [hpage] at hbuckets
        dsimp only
        by_cases hempty : buckets.isEmpty
        · rw [if_pos hempty]
          exact hq
        · rw [if_neg hempty]
          refine Prog.Keeps.bind (Prog.Keeps.forM hbuckets) (fun _ => ?_) q hq
          cases afterKey with
          | none => exact Prog.Keeps.pure _
          | some key =>
            exact Prog.Keeps.bind (keeps_hostPages hledger hverdicts hentities fuel (n + 1)
              (some key)) fun _ => Prog.Keeps.pure _

/-- **The rule for the log of a pass**: an invariant of the calls of the resolver, which holds of a
new one and does not speak of the entities, holds in the end, however the pass ends. -/
theorem runOnce_keeps_log {Q : List VtEvent → Prop} {p : World × List VtEvent}
    (hstart : ∀ intel, I ({ p.1 with
      intel := intel, vt := { p.1.vt with resolver := newResolver env } }, p.2))
    (hledger : ∀ q, I q → q.1.ledger = p.1.ledger)
    (hverdicts : ∀ host ∈ windowHosts (windowStart env.now) p.1.ledger, Prog.Keeps I
      (onVtLog (VtLog.verdictsFor rt env.vt
        (bucketOf env (windowStart env.now) p.1.ledger host).shas)))
    (hentities : ∀ q entities, I q → I ({ q.1 with entities := entities }, q.2))
    (hQ : ∀ q, I q → Q q.2) (hp : Q p.2) : Q ((VtLog.runOnce rt env).run p).2.2 := by
  have hupdate : Prog.Keeps I (VtLog.updateEntities rt env) := by
    refine Prog.Keeps.bind Prog.Keeps.get fun q => ?_
    refine Prog.Keeps.bind (keeps_hostPages hledger hverdicts hentities _ 0 none) fun _ => ?_
    exact Prog.Keeps.bind (fun q hq => hentities q _ hq) fun _ => Prog.Keeps.pure _
  cases hwindow : checkWindow env with
  | error e =>
    rw [VtLog.runOnce, hwindow]
    exact hp
  | ok u =>
    let w : World := { p.1 with vt := { p.1.vt with resolver := newResolver env } }
    have hrun : (VtLog.runOnce rt env).run p = (Prog.lift (onIntel (IntelMatcher.refresh rt
        env.intel)) >>= fun _ => VtLog.updateEntities rt env).run (w, p.2) := by
      rw [VtLog.runOnce, hwindow]
      rfl
    rcases hrefresh : (IntelMatcher.refresh rt env.intel).run w.intel with ⟨e | u', intel⟩
    · have hlift : (Prog.lift (onIntel (IntelMatcher.refresh rt env.intel))).run (w, p.2) =
          (.error e, ({ w with intel := intel }, p.2)) := by
        rw [Prog.run_lift, onIntel, Prog.run_zoom, hrefresh]
      rw [hrun, Prog.run_bind_of_error hlift]
      exact hp
    · have hlift : (Prog.lift (onIntel (IntelMatcher.refresh rt env.intel))).run (w, p.2) =
          (.ok (), ({ w with intel := intel }, p.2)) := by
        rw [Prog.run_lift, onIntel, Prog.run_zoom, hrefresh]
      rw [hrun, Prog.run_bind_of_ok hlift]
      exact hQ _ (hupdate _ (hstart intel))

/-- A pass with nothing to look up: it has no key or no budget, or the index answers and has a young
verdict on each of the files it lists. -/
def Idle (env : ReasonEnv) (w : World) : Prop :=
  env.vtEnabled = false ∨ env.maxPerRun ≤ 0 ∨
    ∀ host ∈ windowHosts (windowStart env.now) w.ledger,
      CachedAll env.vt w.vt.cache (bucketOf env (windowStart env.now) w.ledger host).shas

/-- An invariant of the resolver is one of a call in the pass. -/
theorem keeps_onVtLog {α : Type} {J : VtState × List VtEvent → Prop} {ledger : List LedgerRow}
    {m : Prog (VtState × List VtEvent) α} (hm : Prog.Keeps J m) :
    Prog.Keeps (fun q : World × List VtEvent => q.1.ledger = ledger ∧ J (q.1.vt, q.2))
      (onVtLog m) := fun q hq => ⟨hq.1, hm (q.1.vt, q.2) hq.2⟩

/-- **A pass keeps a rejected key disabled**, if it is the first one to hear of the rejection or has
nothing to look up. -/
theorem quietAfter_runOnce {p : World × List VtEvent} (h : p.2.Pairwise QuietAfter)
    (hidle : (∃ ev ∈ p.2, ev.Rejected) → Idle env p.1) :
    ((VtLog.runOnce rt env).run p).2.2.Pairwise QuietAfter := by
  by_cases hrejected : ∃ ev ∈ p.2, ev.Rejected
  · rcases hidle hrejected with hoff | hoff | hcached
    · exact runOnce_keeps_log
        (I := fun q => q.1.ledger = p.1.ledger ∧ Off (q.1.vt, q.2)) (fun _ => ⟨rfl, h, .inl hoff⟩)
        (fun _ hq => hq.1) (fun host _ => keeps_onVtLog (off_verdictsFor _)) (fun _ _ hq => hq)
        (fun _ hq => hq.2.1) h
    · exact runOnce_keeps_log
        (I := fun q => q.1.ledger = p.1.ledger ∧ Off (q.1.vt, q.2)) (fun _ => ⟨rfl, h, .inr hoff⟩)
        (fun _ hq => hq.1) (fun host _ => keeps_onVtLog (off_verdictsFor _)) (fun _ _ hq => hq)
        (fun _ hq => hq.2.1) h
    · exact runOnce_keeps_log
        (I := fun q => q.1.ledger = p.1.ledger ∧ (q.2.Pairwise QuietAfter ∧
          q.1.vt.cache = p.1.vt.cache)) (fun _ => ⟨rfl, h, rfl⟩) (fun _ hq => hq.1)
        (fun host hhost => keeps_onVtLog (cached_verdictsFor (hcached host hhost)))
        (fun _ _ hq => hq) (fun _ hq => hq.2.1) h
  · -- no key was rejected before the pass, and its own client is disabled by a rejection
    have hnone : ∀ ev ∈ p.2, ¬ ev.Rejected := fun ev hev hr => hrejected ⟨ev, hev, hr⟩
    exact runOnce_keeps_log
      (I := fun q => q.1.ledger = p.1.ledger ∧ Guarded (q.1.vt, q.2))
      (fun _ => ⟨rfl, h, fun _ => hnone⟩) (fun _ hq => hq.1)
      (fun host _ => keeps_onVtLog (guarded_verdictsFor _)) (fun _ _ hq => hq)
      (fun _ hq => hq.2.1) h

end Pass

/-! ### The loop -/

/-- A pass, as the loop makes it. -/
def VtLog.pass (rt : Runtime) (env : ReasonEnv) (p : World × List VtEvent) : World × List VtEvent :=
  ((VtLog.runOnce rt env).run p).2

/-- The loop goes from pass to pass, also behind one that fails. -/
theorem run_runPasses_log : (envs : List ReasonEnv) → (p : World × List VtEvent) →
    ((VtLog.runPasses rt envs).run p).2 = after (VtLog.pass rt) p envs
  | [], _ => rfl
  | env :: envs, p => by
      rw [VtLog.runPasses, after, List.foldl_cons, ← after, ← run_runPasses_log envs]
      rcases hrun : (VtLog.runOnce rt env).run p with ⟨e | n, q⟩
      · have hpass : (VtLog.runOnce rt env >>= fun _ => pure () :
            Prog (World × List VtEvent) Unit).run p = (.error e, q) := Prog.run_bind_of_error hrun
        have hcaught := @Prog.run_tryExcept_of_catch _ _ _ _
          (fun _ => some (pure ())) _ _ _ hpass rfl
        rw [Prog.run_bind_of_ok hcaught, VtLog.pass, hrun]
      · have hpass : (VtLog.runOnce rt env >>= fun _ => pure () :
            Prog (World × List VtEvent) Unit).run p = (.ok (), q) := Prog.run_bind_of_ok hrun
        have hdone := @Prog.run_tryExcept_of_ok _ _ _
          (fun _ => some (pure ())) _ _ _ hpass
        rw [Prog.run_bind_of_ok hdone, VtLog.pass, hrun]

/-- **A rejected key stays disabled** in every run of the loop in which the passes behind a
rejection have nothing to look up. -/
theorem quietAfter_runPasses {envs : List ReasonEnv} {w : World}
    (hidle : ∀ x ∈ trace (VtLog.pass rt) (w, []) envs,
      (∃ ev ∈ x.1.2, ev.Rejected) → Idle x.2 x.1.1) :
    ((VtLog.runPasses rt envs).run (w, [])).2.1 = ((runPasses rt envs).run w).2 ∧
    ((VtLog.runPasses rt envs).run (w, [])).2.2.Pairwise QuietAfter := by
  refine ⟨(forgets_runPasses envs (w, [])).2, ?_⟩
  have hrun : ∀ (envs : List ReasonEnv) (p : World × List VtEvent), p.2.Pairwise QuietAfter →
      (∀ x ∈ trace (VtLog.pass rt) p envs, (∃ ev ∈ x.1.2, ev.Rejected) → Idle x.2 x.1.1) →
      (after (VtLog.pass rt) p envs).2.Pairwise QuietAfter := by
    intro envs
    induction envs with
    | nil => exact fun p hp _ => hp
    | cons env envs ih =>
      intro p hp hidle
      obtain ⟨hfirst, hrest⟩ := List.forall_mem_cons.mp hidle
      exact ih _ (quietAfter_runOnce hp hfirst) hrest
  rw [run_runPasses_log]
  exact hrun envs (w, []) .nil hidle

/-- The status of an error a look-up was answered with. -/
def VtEvent.errorStatus : VtEvent → Option (PyStr × ℕ)
  | .asked sha (.httpError code) => some (sha, code)
  | _ => none

theorem VtEvent.errorStatus_eq_some {ev : VtEvent} {x : PyStr × ℕ} (h : ev.errorStatus = some x) :
    ev = .asked x.1 (.httpError x.2) := by
  cases ev with
  | asked sha answer =>
    cases answer with
    | httpError code =>
      obtain rfl := Option.some.inj h
      rfl
    | _ => cases h
  | _ => cases h

/-- Surroundings in which VirusTotal rejects the key. -/
def rejectingEnv (maxPerRun : ℤ) : ReasonEnv :=
  { ReasonEnv.basic (1780000005 * usPerSecond) with
    vtEnabled := true, maxPerRun := maxPerRun, vtAnswer := fun _ => .httpError 401 }

/-- A ledger with one served file. -/
def oneFile : World := .ofLedger [
  { c2Host := str "192.0.2.1", ts := 1780000000000, evidenceRank := 1, sha256 := some (str "aa") }]

/-- The second pass has no budget. -/
theorem quietAfter_runPasses_idle :
    let envs := [rejectingEnv 4, rejectingEnv 0]
    ((VtLog.runPasses .basic envs).run (oneFile, [])).2.1 =
      ((runPasses .basic envs).run oneFile).2 ∧
    ((VtLog.runPasses .basic envs).run (oneFile, [])).2.2.Pairwise QuietAfter := by
  refine quietAfter_runPasses (List.forall_mem_cons.mpr ⟨?_, List.forall_mem_singleton.mpr ?_⟩)
  · rintro ⟨ev, hev, -⟩
    cases hev
  · exact fun _ => .inr (.inl (le_refl 0))

/-- The second pass asks again. -/
theorem not_quietAfter_two_passes :
    let envs := [rejectingEnv 4, rejectingEnv 4]
    let log := ((VtLog.runPasses .basic envs).run (oneFile, [])).2.2
    log.filterMap VtEvent.errorStatus = [(str "aa", 401), (str "aa", 401)] ∧
    ¬ log.Pairwise QuietAfter := by
  intro envs log
  have hlog : log.filterMap VtEvent.errorStatus = [(str "aa", 401), (str "aa", 401)] := by
    decide +kernel
  refine ⟨hlog, fun hquiet => ?_⟩
  have hstatus : (log.filterMap VtEvent.errorStatus).Pairwise fun x _ => x.2 ≠ 401 := by
    refine List.Pairwise.filterMap _ ?_ hquiet
    rintro ev later hafter ⟨sha, code⟩ hx y hy rfl
    obtain rfl := VtEvent.errorStatus_eq_some hx
    obtain rfl := VtEvent.errorStatus_eq_some hy
    exact absurd (hafter ⟨sha, rfl⟩) nofun
  rw [hlog] at hstatus
  exact (List.pairwise_cons.mp hstatus).1 _ (List.mem_singleton_self _) rfl

end C2Engine
