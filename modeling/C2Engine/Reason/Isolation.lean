import C2Engine.Reason.View

/-!
# Entities whose write is rejected

A pass is left by the exception of the first entity that cannot be written. Hosts are written in
their order, so a host whose entity the index rejects keeps every later host as it was, and the
deletion of old entities from being done; the hosts before it are written if nothing else fails.
The loop over the passes goes on with the next pass.

## Main definitions

* `VtAnswers`: the answers of VirusTotal the client can read.
* `PassRuns`: nothing fails in a pass but writes of entities.

## Main results

* `total_verdictsFor`, `isOk_matchEntity`: the steps of a pass that do not fail.
* `runOnce_upto_rejected`: what a pass does with rejected entities.
-/

namespace C2Engine

open Python Store

variable {rt : Runtime}

/-! ### The steps that do not fail -/

/-- The connection to VirusTotal does not break, and its reports can be read or are a
`ValueError`. -/
def VtAnswers (rt : Runtime) (env : VtEnv) : Prop :=
  ∀ sha, env.answer sha ≠ .broken ∧ ∀ data, env.answer sha = .body (some data) →
    (parseVtFile rt data sha (stamp env.now)).isOk ∨
      parseVtFile rt data sha (stamp env.now) = .error .valueError

theorem total_lookup {env : VtEnv} (h : VtAnswers rt env) (sha : PyStr) :
    (VtClient.lookup rt env sha).Total := by
  obtain ⟨hbroken, hbody⟩ := h sha
  unfold VtClient.lookup
  cases ha : env.answer sha with
  | body data =>
    cases data with
    | none => exact .pure none
    | some data =>
      dsimp only
      rcases hbody data ha with hok | herr
      · obtain ⟨v, hv⟩ := isOk_iff.mp hok
        rw [hv]
        exact .pure (some v)
      · rw [herr]
        dsimp only
        rw [if_pos rfl]
        exact .pure none
  | httpError code =>
    dsimp only
    split_ifs
    · exact .pure _
    · exact .bind (.modify _) fun _ => .pure none
    · exact .pure none
  | failed => exact .pure none
  | broken => exact absurd ha hbroken

/-- The resolution of verdicts returns. -/
theorem total_verdictsFor {env : VtEnv} (hanswers : VtAnswers rt env)
    (hreply : ∀ r, (env.reply r).accepts) (shas : List PyStr) :
    (VtResolver.verdictsFor rt env shas).Total := by
  have hread : ∀ want, (VtResolver.readCache env want).Total := by
    intro want s
    rw [VtResolver.readCache, EsWriter.run_searchOr, Reply.result_of_accepts (hreply _)]
    rfl
  have hremember : ∀ sha v, (VtResolver.remember sha v).Total := fun _ _ => .modify _
  have hresolve : ∀ sha, (VtResolver.resolve rt env sha).Total := by
    intro sha
    refine .bind .get fun s => ?_
    dsimp only
    split_ifs
    · exact .pure ()
    · exact hremember sha none
    · refine .bind (total_lookup hanswers sha) fun v => .bind (.modify _) fun _ => ?_
      cases v with
      | none => exact hremember sha none
      | some v =>
        refine .bind (.zoom fun c => ?_) fun _ => hremember sha (some v)
        rw [EsWriter.run_indexDoc, Reply.result_of_accepts (hreply _)]
        rfl
  refine .bind .get fun s => ?_
  dsimp only
  split_ifs
  · exact .bind .get fun s => .pure _
  · exact .bind (hread _) fun fresh => .bind (.forM (fun v => hremember _ _) fresh) fun _ =>
      .bind (.forM hresolve _) fun _ => .bind .get fun s => .pure _

/-- The look-up of indicators returns where the hosts of the URLs can be told. -/
theorem isOk_matchEntity {ix : Indexes} {e : IntelMatcher.Entity}
    (h : ∀ u ∈ e.urls, (urlHostKey rt u).isOk) : (IntelMatcher.matchEntity rt ix e).isOk := by
  rw [IntelMatcher.matchEntity, IntelMatcher.hits, IntelMatcher.candidateHosts]
  simp only [isOk_bind_pure]
  exact (isOk_mapM e.urls).mpr h

/-! ### The pass -/

/-- Nothing fails in a pass but writes of entities: there is a window, the refresh returns, the
other requests are accepted, the answers of VirusTotal can be read, and so can the hosts of the
URLs in the ledger. -/
structure PassRuns (rt : Runtime) (env : ReasonEnv) (w : World) : Prop where
  window : (checkWindow env).isOk
  refresh : ((IntelMatcher.refresh rt env.intel).run w.intel).1.isOk
  hosts : ∀ n, (env.reply (.hosts n)).accepts
  expire : (env.reply .expire).accepts
  vt : ∀ r, (env.vtReply r).accepts
  answers : VtAnswers rt env.vt
  urls : ∀ r ∈ w.ledger, ∀ u, r.c2Url = some u → (urlHostKey rt u).isOk

theorem topTerms_subset (size : ℕ) (values : List PyStr) : topTerms size values ⊆ values := by
  intro v hv
  exact List.mem_dedup.mp ((List.mem_insertionSort _).mp (List.mem_of_mem_take hv))

/-- Where nothing else fails, an entity cannot be written only if its write is not accepted. -/
theorem PassRuns.not_accepts_of_failsAt {env : ReasonEnv} {w w' : World} {since : ℤ} {host : PyStr}
    (h : PassRuns rt env w) (hledger : w'.ledger = w.ledger)
    (hfails : FailsAt rt env since w' host) :
    ¬ (env.reply (.entity host)).accepts := by
  rcases hfails with hwrite | ⟨vt, hverdicts⟩ | hmatch
  · exact hwrite
  · have hok := total_verdictsFor h.answers h.vt (bucketOf env since w'.ledger host).shas vt
    rw [hverdicts] at hok
    exact absurd hok nofun
  · have hok : (IntelMatcher.matchEntity rt w'.intel.matcher.indexes
        (bucketOf env since w'.ledger host).entity).isOk := by
      refine isOk_matchEntity fun u hu => ?_
      obtain ⟨r, hr, hurl⟩ := List.mem_filterMap.mp (topTerms_subset 50 _ hu)
      have hmem : r ∈ w.ledger := hledger ▸ (mem_hostRows.mp hr).1
      exact h.urls r hmem u hurl
    rw [hmatch] at hok
    exact absurd hok nofun

/-- The hosts that were written come before a host whose write did not take effect. -/
theorem Wrote.subset_of_not_taken {env : ReasonEnv} {since : ℤ} {w w' : World}
    {done todo before after : List PyStr} {host : PyStr} (h : Wrote rt env since w done w')
    (heq : done ++ todo = before ++ host :: after) (hhost : ¬ Taken env host) :
    ∃ mid, before = done ++ mid ∧ todo = mid ++ host :: after := by
  rcases List.append_eq_append_iff.mp heq with ⟨mid, hbefore, htodo⟩ | ⟨mid, hdone, hafter⟩
  · exact ⟨mid, hbefore, htodo⟩
  · cases mid with
    | nil => exact ⟨[], by simpa using hdone.symm, by simpa using hafter.symm⟩
    | cons x mid =>
      obtain ⟨rfl, -⟩ := List.cons.inj hafter
      exact absurd (h.taken host (hdone ▸ by simp)) hhost

/-- The entities of hosts that were not written are as before. -/
theorem Wrote.mem_entities_iff {env : ReasonEnv} {since : ℤ} {w w' : World} {done : List PyStr}
    (h : Wrote rt env since w done w') {e : EntityDoc} (he : e.c2Host ∉ done) :
    e ∈ w'.entities ↔ e ∈ w.entities := by
  obtain ⟨docs, hdocs, hput⟩ := h.entities
  rw [hput]
  constructor
  · intro hmem
    rcases mem_putAll_entities hdocs hmem with ⟨hhost, -⟩ | ⟨hold, -⟩
    · exact absurd hhost he
    · exact hold
  · intro hold
    refine Index.mem_putAll.mpr (.inr ⟨hold, fun d hd hid => he ?_⟩)
    exact hid ▸ (exists_isEntityOf hdocs d hd).1

/-- The entities of hosts that were written are there. -/
theorem Wrote.exists_entity {env : ReasonEnv} {since : ℤ} {w w' : World} {done : List PyStr}
    (h : Wrote rt env since w done w') {host : PyStr} (hhost : host ∈ done) :
    ∃ e ∈ w'.entities, e.c2Host = host ∧ IsEntityOf rt env since w.ledger host e := by
  obtain ⟨docs, hdocs, hput⟩ := h.entities
  obtain ⟨d, hd, hdhost⟩ := exists_mem_docs hdocs host hhost
  obtain ⟨e, he, hid⟩ := Index.exists_mem_putAll_iff (s := w.entities).mpr (.inl ⟨d, hd, rfl⟩)
  have hehost : e.c2Host = host := hid.trans hdhost
  rcases mem_putAll_entities hdocs he with ⟨-, hof⟩ | ⟨-, hout⟩
  · exact ⟨e, hput ▸ he, hehost, hehost ▸ hof⟩
  · exact absurd (hehost ▸ hhost) hout

/-- A loop that was left early, where nothing but writes of entities fails: the write of the last
host that was written or of the first that was not is not accepted. -/
theorem Halted.exists_not_accepts {env : ReasonEnv} {w w₀ w' : World} {since : ℤ}
    {hosts : List PyStr} (hruns : PassRuns rt env w) (hledger : w₀.ledger = w.ledger)
    (h : Halted rt env since w₀ hosts w') :
    ∃ done todo host, hosts = done ++ todo ∧ Wrote rt env since w₀ done w' ∧
      (done.getLast? = some host ∨ todo.head? = some host) ∧
      ¬ (env.reply (.entity host)).accepts := by
  obtain ⟨done, todo, heq, hwrote, ⟨n, hpage⟩ | ⟨host, hat, hfails⟩⟩ := h
  · exact absurd (hruns.hosts n) hpage
  · exact ⟨done, todo, host, heq, hwrote, hat, hruns.not_accepts_of_failsAt hledger hfails⟩

/-- What the pass does behind the refresh with a rejected entity. -/
theorem updateEntities_rejected {env : ReasonEnv} {w w₀ : World}
    (hledger : w₀.ledger = w.ledger) (hentities : w₀.entities = w.entities)
    {before after : List PyStr} {host : PyStr}
    (heq : windowHosts (windowStart env.now) w.ledger = before ++ host :: after)
    (hhost : ¬ Taken env host) :
    let out := (updateEntities rt env).run w₀
    out.1.isOk = false ∧ (∀ e, e.c2Host ∉ before → (e ∈ out.2.entities ↔ e ∈ w.entities)) ∧
      (PassRuns rt env w → (∀ h ∈ before, (env.reply (.entity h)).accepts) → ∀ h ∈ before,
        ∃ e ∈ out.2.entities, IsEntityOf rt env (windowStart env.now) w.ledger h e) := by
  have hmem : host ∈ windowHosts (windowStart env.now) w.ledger := by simp [heq]
  have hspec := updateEntities_spec rt env w₀
  rw [hledger] at hspec
  rcases hupdate : (updateEntities rt env).run w₀ with ⟨e | k, w'⟩
  · rw [hupdate] at hspec
    rcases hspec with hhalt | ⟨-, w₁, p, hwrote, -⟩
    · refine ⟨rfl, ?_, fun hruns hacc h hh => ?_⟩
      · obtain ⟨done, todo, hsplit, hwrote, -⟩ := hhalt
        obtain ⟨mid, rfl, -⟩ := hwrote.subset_of_not_taken (hsplit.symm.trans heq) hhost
        intro e he
        rw [← hentities]
        exact hwrote.mem_entities_iff fun hdone => he (List.mem_append_left _ hdone)
      · obtain ⟨done, todo, host', hsplit, hwrote, hat, hrejected⟩ :=
          hhalt.exists_not_accepts hruns hledger
        obtain ⟨mid, rfl, rfl⟩ := hwrote.subset_of_not_taken (hsplit.symm.trans heq) hhost
        -- the host that stopped the loop does not come before the rejected one
        have hmid : mid = [] := by
          rcases hat with hlast | hhead
          · exact absurd (hacc host' (List.mem_append_left _ (List.mem_of_getLast? hlast)))
              hrejected
          · cases mid with
            | nil => rfl
            | cons x mid =>
              obtain rfl : x = host' := by simpa using hhead
              exact absurd (hacc x (by simp)) hrejected
        rw [hmid, List.append_nil] at hh
        obtain ⟨e, he, -, hof⟩ := hwrote.exists_entity hh
        exact ⟨e, he, hledger ▸ hof⟩
    · exact absurd (hwrote.taken host hmem) hhost
  · rw [hupdate] at hspec
    obtain ⟨w₁, hwrote, -⟩ := hspec
    exact absurd (hwrote.taken host hmem) hhost

/-- What the pass does behind the refresh where nothing fails. -/
theorem updateEntities_accepted {env : ReasonEnv} {w w₀ : World} (hruns : PassRuns rt env w)
    (hledger : w₀.ledger = w.ledger)
    (hacc : ∀ h ∈ windowHosts (windowStart env.now) w.ledger, (env.reply (.entity h)).accepts) :
    let out := (updateEntities rt env).run w₀
    out.1.isOk ∧ (∀ h ∈ windowHosts (windowStart env.now) w.ledger,
      ∃ e ∈ out.2.entities, IsEntityOf rt env (windowStart env.now) w.ledger h e) ∧
        ∀ e ∈ out.2.entities, expired (windowStart env.now) e = false := by
  have hspec := updateEntities_spec rt env w₀
  rw [hledger] at hspec
  rcases hupdate : (updateEntities rt env).run w₀ with ⟨e | k, w'⟩
  · rw [hupdate] at hspec
    rcases hspec with hhalt | ⟨hexpire, -⟩
    · obtain ⟨done, todo, host, hsplit, -, hat, hrejected⟩ :=
        hhalt.exists_not_accepts hruns hledger
      refine absurd (hacc host ?_) hrejected
      rw [hsplit, List.mem_append]
      exact hat.imp List.mem_of_getLast? List.mem_of_head?
    · exact absurd hruns.expire hexpire
  · rw [hupdate] at hspec
    obtain ⟨w₁, hwrote, -, rfl⟩ := hspec
    refine ⟨rfl, fun h hh => ?_, fun e he => (Index.mem_deleteWhere.mp he).2⟩
    obtain ⟨e, he, hehost, hof⟩ := hwrote.exists_entity hh
    rw [hledger] at hof
    exact ⟨e, Index.mem_deleteWhere.mpr ⟨he, (hof.isRollup hh).not_expired⟩, hof⟩

/-- A pass that fails does not end the loop. -/
theorem run_runPasses_cons (rt : Runtime) (env : ReasonEnv) (envs : List ReasonEnv) (w : World) :
    (runPasses rt (env :: envs)).run w = (runPasses rt envs).run ((runOnce rt env).run w).2 := by
  rcases hrun : (runOnce rt env).run w with ⟨e | n, w'⟩
  · have hcaught : (Prog.tryExcept (runOnce rt env >>= fun _ => pure ())
        fun _ => some (pure ())).run w = (.ok (), w') :=
      Prog.run_tryExcept_of_catch (Prog.run_bind_of_error hrun) rfl
    exact Prog.run_bind_of_ok hcaught
  · have hdone : (Prog.tryExcept (runOnce rt env >>= fun _ => pure ())
        fun _ => some (pure ())).run w = (.ok (), w') :=
      Prog.run_tryExcept_of_ok (Prog.run_bind_of_ok hrun)
    exact Prog.run_bind_of_ok hdone

/-- **A pass up to a rejected entity.** With an entity in the window whose write is rejected the
pass raises; this entity, those of later hosts and those of hosts that left the window stay as they
are, and the entities of earlier hosts are written if nothing else fails. If nothing fails, all
entities are written, those of old are deleted, and the pass returns. In the loop the next pass
follows in either case. -/
theorem runOnce_upto_rejected (rt : Runtime) (env : ReasonEnv) (w : World) :
    let since := windowStart env.now
    let hosts := windowHosts since w.ledger
    let out := (runOnce rt env).run w
    (∀ before host after, hosts = before ++ host :: after → ¬ Taken env host →
      out.1.isOk = false ∧
      (∀ e, e.c2Host ∉ before → (e ∈ out.2.entities ↔ e ∈ w.entities)) ∧
      (PassRuns rt env w → (∀ h ∈ before, (env.reply (.entity h)).accepts) →
        ∀ h ∈ before, ∃ e ∈ out.2.entities, IsEntityOf rt env since w.ledger h e)) ∧
    (PassRuns rt env w → (∀ h ∈ hosts, (env.reply (.entity h)).accepts) →
      out.1.isOk ∧ (∀ h ∈ hosts, ∃ e ∈ out.2.entities, IsEntityOf rt env since w.ledger h e) ∧
        ∀ e ∈ out.2.entities, expired since e = false) ∧
    ∀ envs, (runPasses rt (env :: envs)).run w = (runPasses rt envs).run out.2 := by
  refine ⟨fun before host after heq hhost => ?_, fun hruns hacc => ?_,
    fun envs => run_runPasses_cons rt env envs w⟩
  · rcases runOnce_cases rt env w with ⟨e, intel, vt, hrun, hcause⟩ | ⟨intel, vt, -, hrun⟩
    · rw [hrun]
      refine ⟨rfl, fun e _ => Iff.rfl, fun hruns => ?_⟩
      rcases hcause with hwindow | hrefresh
      · exact absurd hruns.window (by simp [hwindow])
      · exact absurd hruns.refresh (by simp [hrefresh])
    · rw [hrun]
      exact @updateEntities_rejected rt env w { w with intel := intel, vt := vt } rfl rfl _ _ _
        heq hhost
  · rcases runOnce_cases rt env w with ⟨e, intel, vt, hrun, hcause⟩ | ⟨intel, vt, -, hrun⟩
    · rcases hcause with hwindow | hrefresh
      · exact absurd hruns.window (by simp [hwindow])
      · exact absurd hruns.refresh (by simp [hrefresh])
    · rw [hrun]
      exact updateEntities_accepted hruns rfl hacc

/-- A host of 513 bytes, which is no document identifier, keeps another host in the window from
being written, and an entity of old from being deleted. -/
theorem not_upserted_behind_long_host :
    let long := List.replicate 513 (cp 'a')
    let old := [{ c2Host := str "c.example", ts := 1770000000000, evidenceRank := 2 }]
    let rows := [
      { c2Host := long, ts := 1780000000000, evidenceRank := 2 },
      { c2Host := str "b.example", ts := 1780000000000, evidenceRank := 2 }]
    let earlier := ((runOnce .basic (.basic (1770000005 * usPerSecond))).run (.ofLedger old)).2
    let env := { ReasonEnv.basic (1780000005 * usPerSecond) with
      reply := fun r => if r = .entity long then .refused 400 else .done }
    let out := (runOnce .basic env).run { earlier with ledger := old ++ rows }
    (str "b.example" ∈ windowHosts (windowStart env.now) (old ++ rows) ∧
        ∀ e ∈ out.2.entities, e.c2Host ≠ str "b.example") ∧
      ∃ e ∈ out.2.entities, expired (windowStart env.now) e = true := by
  decide +kernel

end C2Engine
