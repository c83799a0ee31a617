import C2Engine.Reason.Engine

/-!
# What a pass of the reason job leaves

A pass writes the entities of an initial run of the hosts in its window, in their order; if it
returns, of all of them, and then it has deleted the entities of old. It is left early where a page
of hosts is not answered, or where the entity of a host cannot be written.

## Main definitions

* `IsEntityOf`: the entity a pass writes for a host.
* `Wrote`, `Halted`: how far the loop over the hosts came.

## Main results

* `upsert_cases`: what the body of the loop does.
* `hostPages_spec`, `updateEntities_spec`: the loop over the pages, and the pass behind the refresh.
* `runOnce_cases`, `runOnce_ok`, `runOnce_frame`: the pass.
-/

namespace C2Engine

open Python Store

variable {rt : Runtime} {env : ReasonEnv}

/-! ### The body of the loop -/

/-- The entity of a bucket, with the verdicts and the matches that were found. -/
def writtenDoc (rt : Runtime) (env : ReasonEnv) (b : Bucket) (summary : Option VtSummary)
    (m : IntelMatcher.MatchResult) : EntityDoc :=
  let overlay := computeOverlay rt (b.maxRank.getD 0) b.families b.shas b.hasshes
    (loadKnownShas rt env.knownShas) (loadHasshToolkits rt env.hasshToolkits)
  entityDoc env b (b.maxRank.getD 0) (applyIntel (applyVt overlay summary env.minMalicious) m)

/-- What the matcher is asked about a bucket. -/
def Bucket.entity (b : Bucket) : IntelMatcher.Entity := ⟨b.host, b.resolvedIps, b.urls, b.shas⟩

/-- The write of an entity took effect. -/
def Taken (env : ReasonEnv) (host : PyStr) : Prop :=
  (env.reply (.entity host)).accepts || (env.reply (.entity host)).applied 0 host

instance (host : PyStr) : Decidable (Taken env host) :=
  inferInstanceAs (Decidable ((_ || _) = true))

/-- What the body of the loop does: the verdicts on the files are resolved and the indicators
looked up, and if that returns, the entity is written. -/
theorem upsert_cases (rt : Runtime) (env : ReasonEnv) (b : Bucket) (w : World) :
    (∃ verdicts vt m,
      (VtResolver.verdictsFor rt env.vt b.shas).run w.vt = (.ok verdicts, vt) ∧
      IntelMatcher.matchEntity rt w.intel.matcher.indexes b.entity = .ok m ∧
      (upsert rt env b).run w = ((env.reply (.entity b.host)).result, { w with
        vt := vt
        entities := if Taken env b.host then
          w.entities.put (writtenDoc rt env b (summarizeVt verdicts) m) else w.entities })) ∨
    ∃ e vt, (upsert rt env b).run w = (.error e, { w with vt := vt }) ∧
      (((VtResolver.verdictsFor rt env.vt b.shas).run w.vt).1.isOk = false ∨
        (IntelMatcher.matchEntity rt w.intel.matcher.indexes b.entity).isOk = false) := by
  rcases hvt : (VtResolver.verdictsFor rt env.vt b.shas).run w.vt with ⟨e | verdicts, vt⟩
  · have hrun : (onVt (VtResolver.verdictsFor rt env.vt b.shas)).run w =
        (.error e, { w with vt := vt }) := by
      rw [onVt, Prog.run_zoom, hvt]
    exact .inr ⟨e, vt, Prog.run_bind_of_error hrun, .inl rfl⟩
  · have hrun : (onVt (VtResolver.verdictsFor rt env.vt b.shas)).run w =
        (.ok verdicts, { w with vt := vt }) := by
      rw [onVt, Prog.run_zoom, hvt]
    cases hm : IntelMatcher.matchEntity rt w.intel.matcher.indexes b.entity with
    | error e =>
      refine .inr ⟨e, vt, ?_, .inr rfl⟩
      rw [upsert, Prog.run_bind_of_ok hrun, Prog.run_bind, Prog.run_get]
      refine Prog.run_bind_of_error ?_
      rw [Prog.run_ofExcept]
      exact congrArg (fun x => (x, _)) hm
    | ok m =>
      refine .inl ⟨verdicts, vt, m, rfl, rfl, ?_⟩
      rw [upsert, Prog.run_bind_of_ok hrun, Prog.run_bind, Prog.run_get]
      have hmatch : (Prog.ofExcept (IntelMatcher.matchEntity rt w.intel.matcher.indexes b.entity) :
          Prog World _).run { w with vt := vt } = (.ok m, { w with vt := vt }) := by
        rw [Prog.run_ofExcept, hm]
      refine (Prog.run_bind_of_ok hmatch).trans ?_
      rw [onEntities, Prog.run_zoom, EsWriter.run_indexDoc]
      rfl

/-! ### The loop over the hosts -/

/-- The bucket of a host. -/
def bucketOf (env : ReasonEnv) (since : ℤ) (ledger : List LedgerRow) (host : PyStr) : Bucket :=
  Bucket.ofRows env.estimates host (hostRows since ledger host)

/-- An entity a pass writes for a host. -/
def IsEntityOf (rt : Runtime) (env : ReasonEnv) (since : ℤ) (ledger : List LedgerRow)
    (host : PyStr) (e : EntityDoc) : Prop :=
  ∃ summary m, e = writtenDoc rt env (bucketOf env since ledger host) summary m

theorem IsEntityOf.c2Host {since : ℤ} {ledger : List LedgerRow} {host : PyStr} {e : EntityDoc}
    (h : IsEntityOf rt env since ledger host e) : e.c2Host = host := by
  obtain ⟨summary, m, rfl⟩ := h
  rfl

/-- From `w` to `w'` the entities of the hosts were written, in their order, and besides them only
the resolver changed. -/
structure Wrote (rt : Runtime) (env : ReasonEnv) (since : ℤ) (w : World) (hosts : List PyStr)
    (w' : World) : Prop where
  ledger : w'.ledger = w.ledger
  intel : w'.intel = w.intel
  taken : ∀ host ∈ hosts, Taken env host
  entities : ∃ docs, List.Forall₂ (IsEntityOf rt env since w.ledger) hosts docs ∧
    w'.entities = w.entities.putAll docs

/-- Each entity that was written was written for one of the hosts. -/
theorem exists_isEntityOf {since : ℤ} {ledger : List LedgerRow} : {hosts : List PyStr} →
    {docs : List EntityDoc} → List.Forall₂ (IsEntityOf rt env since ledger) hosts docs →
      ∀ e ∈ docs, e.c2Host ∈ hosts ∧ IsEntityOf rt env since ledger e.c2Host e
  | _, _, .nil, e, he => absurd he List.not_mem_nil
  | _, _, .cons hof hrest, e, he => by
      rcases List.mem_cons.mp he with rfl | he
      · rw [hof.c2Host]
        exact ⟨List.mem_cons_self, hof⟩
      · obtain ⟨hmem, hof'⟩ := exists_isEntityOf hrest e he
        exact ⟨List.mem_cons_of_mem _ hmem, hof'⟩

/-- An entity was written for each of the hosts. -/
theorem exists_mem_docs {since : ℤ} {ledger : List LedgerRow} : {hosts : List PyStr} →
    {docs : List EntityDoc} → List.Forall₂ (IsEntityOf rt env since ledger) hosts docs →
      ∀ host ∈ hosts, ∃ e ∈ docs, e.c2Host = host
  | _, _, .nil, host, hhost => absurd hhost List.not_mem_nil
  | _, _, .cons hof hrest, host, hhost => by
      rcases List.mem_cons.mp hhost with rfl | hhost
      · exact ⟨_, List.mem_cons_self, hof.c2Host⟩
      · obtain ⟨e, he, heq⟩ := exists_mem_docs hrest host hhost
        exact ⟨e, List.mem_cons_of_mem _ he, heq⟩

/-- After the writes, the entities of the hosts are the written ones, and the others are as
before. -/
theorem mem_putAll_entities {since : ℤ} {ledger : List LedgerRow} {hosts : List PyStr}
    {docs : List EntityDoc} (h : List.Forall₂ (IsEntityOf rt env since ledger) hosts docs)
    {s : EntityIndex} {e : EntityDoc} (he : e ∈ s.putAll docs) :
    e.c2Host ∈ hosts ∧ IsEntityOf rt env since ledger e.c2Host e ∨ e ∈ s ∧ e.c2Host ∉ hosts := by
  rcases Index.mem_or_mem_of_mem_putAll he with he | ⟨he, hne⟩
  · exact .inl (exists_isEntityOf h e he)
  · refine .inr ⟨he, fun hhost => ?_⟩
    obtain ⟨d, hd, hid⟩ := exists_mem_docs h e.c2Host hhost
    exact hne d hd hid

namespace Wrote

variable {since : ℤ} {w w' w'' : World} {hosts hosts' : List PyStr}

theorem nil (vt : VtState) : Wrote rt env since w [] { w with vt := vt } where
  ledger := rfl
  intel := rfl
  taken := by simp
  entities := ⟨[], .nil, rfl⟩

theorem append (h : Wrote rt env since w hosts w') (h' : Wrote rt env since w' hosts' w'') :
    Wrote rt env since w (hosts ++ hosts') w'' where
  ledger := h'.ledger.trans h.ledger
  intel := h'.intel.trans h.intel
  taken := List.forall_mem_append.mpr ⟨h.taken, h'.taken⟩
  entities := by
    obtain ⟨docs, hdocs, hput⟩ := h.entities
    obtain ⟨docs', hdocs', hput'⟩ := h'.entities
    rw [h.ledger] at hdocs'
    exact ⟨docs ++ docs', List.rel_append hdocs hdocs',
      by rw [hput', hput, Index.putAll_append]⟩

end Wrote

/-- The entity of a host cannot be written: its write is not accepted, the resolution of the
verdicts on its files raises, or the look-up of its indicators does. -/
def FailsAt (rt : Runtime) (env : ReasonEnv) (since : ℤ) (w : World) (host : PyStr) : Prop :=
  ¬ (env.reply (.entity host)).accepts ∨
  (∃ vt, ((VtResolver.verdictsFor rt env.vt (bucketOf env since w.ledger host).shas).run
    vt).1.isOk = false) ∨
  (IntelMatcher.matchEntity rt w.intel.matcher.indexes
    (bucketOf env since w.ledger host).entity).isOk = false

theorem failsAt_congr {since : ℤ} {w w' : World} {host : PyStr} (hledger : w'.ledger = w.ledger)
    (hintel : w'.intel = w.intel) : FailsAt rt env since w' host ↔ FailsAt rt env since w host := by
  rw [FailsAt, FailsAt, hledger, hintel]

/-- The loop over the hosts was left by an exception: after an initial run of them, because of a
page that was not answered, or of the last host that was written or the first that was not. -/
def Halted (rt : Runtime) (env : ReasonEnv) (since : ℤ) (w : World) (hosts : List PyStr)
    (w' : World) : Prop :=
  ∃ done todo, hosts = done ++ todo ∧ Wrote rt env since w done w' ∧
    ((∃ n, ¬ (env.reply (.hosts n)).accepts) ∨
      ∃ host, (done.getLast? = some host ∨ todo.head? = some host) ∧ FailsAt rt env since w host)

namespace Halted

variable {since : ℤ} {w w' w'' : World} {hosts hosts' : List PyStr}

/-- Hosts that come later were not written either. -/
theorem append_right (h : Halted rt env since w hosts w') (hosts' : List PyStr) :
    Halted rt env since w (hosts ++ hosts') w' := by
  obtain ⟨done, todo, rfl, hwrote, hcause⟩ := h
  refine ⟨done, todo ++ hosts', List.append_assoc .., hwrote, hcause.imp_right ?_⟩
  rintro ⟨host, hlast | hhead, hfails⟩
  · exact ⟨host, .inl hlast, hfails⟩
  · exact ⟨host, .inr (by rw [List.head?_append, hhead]; rfl), hfails⟩

/-- Hosts that come before were written. -/
theorem append_left (hw : Wrote rt env since w hosts w') (h : Halted rt env since w' hosts' w'') :
    Halted rt env since w (hosts ++ hosts') w'' := by
  obtain ⟨done, todo, rfl, hwrote, hcause⟩ := h
  refine ⟨hosts ++ done, todo, (List.append_assoc ..).symm, hw.append hwrote, hcause.imp_right ?_⟩
  rintro ⟨host, hat, hfails⟩
  rw [failsAt_congr hw.ledger hw.intel] at hfails
  refine ⟨host, hat.imp_left fun hlast => ?_, hfails⟩
  rw [List.getLast?_append, hlast]
  rfl

end Halted

/-- The body of the loop on the bucket of a host. -/
theorem upsert_spec (rt : Runtime) (env : ReasonEnv) (since : ℤ) (w : World) (host : PyStr) :
    Prog.Post
      (fun _ w' => Wrote rt env since w [host] w' ∧ (env.reply (.entity host)).accepts)
      (fun _ w' => Halted rt env since w [host] w')
      ((upsert rt env (bucketOf env since w.ledger host)).run w) := by
  rcases upsert_cases rt env (bucketOf env since w.ledger host) w with
    ⟨verdicts, vt, m, -, -, hrun⟩ | ⟨e, vt, hrun, hcause⟩
  · rw [hrun]
    change Prog.Post _ _ ((env.reply (.entity host)).result, _)
    have hwrote : Taken env host → Wrote rt env since w [host] { w with
        vt := vt
        entities := w.entities.put (writtenDoc rt env (bucketOf env since w.ledger host)
          (summarizeVt verdicts) m) } := fun htaken =>
      { ledger := rfl
        intel := rfl
        taken := List.forall_mem_singleton.mpr htaken
        entities := ⟨_, .cons ⟨_, _, rfl⟩ .nil, rfl⟩ }
    cases hr : (env.reply (.entity host)).result with
    | ok u =>
      have hacc : (env.reply (.entity host)).accepts := Reply.result_eq_ok_iff.mp hr
      have htaken : Taken env host := by simp [Taken, hacc]
      exact ⟨by simpa [htaken, bucketOf, Bucket.ofRows] using hwrote htaken, hacc⟩
    | error e =>
      have hfails : FailsAt rt env since w host := by
        refine .inl fun hacc => ?_
        rw [Reply.result_of_accepts hacc] at hr
        exact absurd hr nofun
      by_cases htaken : Taken env host
      · refine ⟨[host], [], rfl, ?_, .inr ⟨host, .inl rfl, hfails⟩⟩
        simpa [htaken, bucketOf, Bucket.ofRows] using hwrote htaken
      · refine ⟨[], [host], rfl, ?_, .inr ⟨host, .inr rfl, hfails⟩⟩
        simpa [htaken, bucketOf, Bucket.ofRows] using Wrote.nil (w := w) vt
  · rw [hrun]
    refine ⟨[], [host], rfl, Wrote.nil vt, .inr ⟨host, .inr rfl, .inr ?_⟩⟩
    exact hcause.imp_left fun h => ⟨w.vt, h⟩

/-- The loop over the buckets of a page. -/
theorem forM_upsert_spec (rt : Runtime) (env : ReasonEnv) (since : ℤ) :
    (hosts : List PyStr) → (w : World) → Prog.Post
      (fun _ w' => Wrote rt env since w hosts w' ∧ ∀ host ∈ hosts,
        (env.reply (.entity host)).accepts)
      (fun _ w' => Halted rt env since w hosts w')
      ((Prog.forM (hosts.map (bucketOf env since w.ledger)) (upsert rt env)).run w)
  | [], w => ⟨Wrote.nil w.vt, by simp⟩
  | host :: hosts, w => by
      rw [List.map_cons, Prog.forM_cons]
      refine (upsert_spec rt env since w host).bind ?_ fun _ _ hhalt => hhalt.append_right hosts
      rintro - w₁ ⟨hwrote, hacc⟩
      have hrest := forM_upsert_spec rt env since hosts w₁
      rw [hwrote.ledger] at hrest
      refine hrest.imp ?_ fun _ _ hhalt => hhalt.append_left hwrote
      rintro - w₂ ⟨hwrote', hacc'⟩
      exact ⟨hwrote.append hwrote', List.forall_mem_cons.mpr ⟨hacc, hacc'⟩⟩

/-- The hosts in a window increase strictly. -/
theorem pairwise_windowHosts (since : ℤ) (ledger : List LedgerRow) :
    (windowHosts since ledger).Pairwise fun h h' => id h < id h' := pairwise_sortedSet _

theorem mem_windowHosts {since : ℤ} {ledger : List LedgerRow} {host : PyStr} :
    host ∈ windowHosts since ledger ↔ ∃ r ∈ ledger, r.c2Host = host ∧ since ≤ r.ts := by
  simp only [windowHosts, mem_sortedSet, windowRows, List.mem_map, List.mem_filter,
    decide_eq_true_eq]
  constructor
  · rintro ⟨r, ⟨hr, hts⟩, hhost⟩
    exact ⟨r, hr, hhost, hts⟩
  · rintro ⟨r, hr, hhost, hts⟩
    exact ⟨r, ⟨hr, hts⟩, hhost⟩

/-- **The loop over the pages**: from a page whose hosts before it are written, the hosts `rest`
are written. -/
theorem hostPages_spec (rt : Runtime) (env : ReasonEnv) (since : ℤ) :
    (fuel n : ℕ) → (after : Option PyStr) → (w : World) → (rest : List PyStr) →
      Rest id (windowHosts since w.ledger) after rest → rest.length < fuel →
      Prog.Post
        (fun k w' => k = rest.length ∧ Wrote rt env since w rest w' ∧
          ∀ host ∈ rest, (env.reply (.entity host)).accepts)
        (fun _ w' => Halted rt env since w rest w')
        ((hostPages rt env since fuel n after).run w)
  | fuel + 1, n, after, w, rest, hrest, hfuel => by
      rw [hostPages]
      have hsearch := EsWriter.run_search (env.reply (.hosts n))
        (fun w : World => compositePage env since w.ledger after) w
      cases hr : (env.reply (.hosts n)).result with
      | error e =>
        rw [hr] at hsearch
        rw [Prog.run_bind_of_error hsearch]
        refine ⟨[], rest, rfl, Wrote.nil w.vt, .inl ⟨n, fun hacc => ?_⟩⟩
        rw [Reply.result_of_accepts hacc] at hr
        exact absurd hr nofun
      | ok u =>
        have hsorted := pairwise_windowHosts since w.ledger
        rw [hr, Except.map, compositePage, hrest.page_eq hsorted,
          hrest.behind_eq hsorted] at hsearch
        rw [Prog.run_bind_of_ok hsearch]
        dsimp only
        by_cases hnil : rest = []
        · subst hnil
          exact ⟨rfl, Wrote.nil w.vt, by simp⟩
        · have hpage : rest.take pageSize ≠ [] := by
            rw [Ne, List.take_eq_nil_iff]
            exact not_or.mpr ⟨by decide, hnil⟩
          rw [if_neg (by simpa using hpage)]
          refine (forM_upsert_spec rt env since (rest.take pageSize) w).bind ?_ fun _ _ hhalt => ?_
          · rintro - w₁ ⟨hwrote, hacc⟩
            cases hlast : (rest.take pageSize).getLast? with
            | none => exact absurd (List.getLast?_eq_none_iff.mp hlast) hpage
            | some key =>
              by_cases hdrop : rest.drop pageSize = [] ∧ env.omitsLastKey
              · -- the last page, told by a missing key
                rw [if_pos (by simpa using hdrop)]
                have htake : rest.take pageSize = rest := by
                  have h := List.take_append_drop pageSize rest
                  rwa [hdrop.1, List.append_nil] at h
                rw [htake] at hwrote hacc
                refine ⟨?_, hwrote, hacc⟩
                rw [List.length_map, htake]
              · rw [if_neg (by simpa using hdrop)]
                dsimp only
                have hnext : Rest id (windowHosts since w₁.ledger) (some key)
                    (rest.drop pageSize) := by
                  rw [hwrote.ledger]
                  exact hrest.next hlast
                have hlen : (rest.drop pageSize).length < fuel := by
                  have hpos := List.length_pos_of_ne_nil hnil
                  have hsize : 0 < pageSize := by decide
                  rw [List.length_drop]
                  omega
                refine (hostPages_spec rt env since fuel (n + 1) (some key) w₁ _ hnext hlen).bind
                  ?_ fun _ _ hhalt => ?_
                · rintro k w₂ ⟨hk, hwrote', hacc'⟩
                  have hall := hwrote.append hwrote'
                  rw [List.take_append_drop] at hall
                  refine ⟨?_, hall, fun host hhost => ?_⟩
                  · rw [hk, List.length_map, List.length_take, List.length_drop]
                    omega
                  · rw [← List.take_append_drop pageSize rest] at hhost
                    exact (List.mem_append.mp hhost).elim (hacc host) (hacc' host)
                · have hhalt' := hhalt.append_left hwrote
                  rwa [List.take_append_drop] at hhalt'
          · have hhalt' := hhalt.append_right (rest.drop pageSize)
            rwa [List.take_append_drop] at hhalt'

/-! ### The pass -/

/-- **What the pass does behind the refresh**: it writes the entities of the hosts in the window and
deletes those of old, or it is left before the deletion is done. -/
theorem updateEntities_spec (rt : Runtime) (env : ReasonEnv) (w : World) :
    let since := windowStart env.now
    let hosts := windowHosts since w.ledger
    Prog.Post
      (fun _ w' => ∃ w₁, Wrote rt env since w hosts w₁ ∧
        (∀ host ∈ hosts, (env.reply (.entity host)).accepts) ∧
        w' = { w₁ with entities := w₁.entities.deleteWhere (expired since) })
      (fun _ w' => Halted rt env since w hosts w' ∨
        ¬ (env.reply .expire).accepts ∧ ∃ w₁, ∃ p : EntityDoc → Bool,
          Wrote rt env since w hosts w₁ ∧
          w' = { w₁ with entities := w₁.entities.deleteWhere fun e => expired since e && p e })
      ((updateEntities rt env).run w) := by
  dsimp only
  set since := windowStart env.now with hsince
  have hloop := hostPages_spec rt env since ((windowHosts since w.ledger).length + 1) 0 none w _
    Rest.start (Nat.lt_succ_self _)
  have hrun : (updateEntities rt env).run w = (do
      let updated ← hostPages rt env since ((windowHosts since w.ledger).length + 1) 0 none
      onEntities (EsWriter.deleteByQuery (env.reply .expire) (expired since))
      return updated : Prog World ℕ).run w := rfl
  rw [hrun]
  refine hloop.bind ?_ fun _ _ hhalt => .inl hhalt
  rintro - w₁ ⟨-, hwrote, hacc⟩
  rw [Prog.run_bind, onEntities, Prog.run_zoom, EsWriter.run_deleteByQuery]
  cases hr : (env.reply .expire).result with
  | error e =>
    refine .inr ⟨fun h => ?_, w₁, _, hwrote, rfl⟩
    rw [Reply.result_of_accepts h] at hr
    exact absurd hr nofun
  | ok u =>
    refine ⟨w₁, hwrote, hacc, ?_⟩
    have h : (env.reply .expire).accepts = true := Reply.result_eq_ok_iff.mp hr
    simp only [h, Bool.true_or, Bool.and_true]

/-- A pass goes on behind the refresh if there is a window and the refresh returns. -/
theorem runOnce_cases (rt : Runtime) (env : ReasonEnv) (w : World) :
    (∃ e intel vt, (runOnce rt env).run w = (.error e, { w with intel := intel, vt := vt }) ∧
      ((checkWindow env).isOk = false ∨
        ((IntelMatcher.refresh rt env.intel).run w.intel).1.isOk = false)) ∨
    ∃ intel vt, (IntelMatcher.refresh rt env.intel).run w.intel = (.ok (), intel) ∧
      (runOnce rt env).run w = (updateEntities rt env).run { w with intel := intel, vt := vt } := by
  cases hwindow : checkWindow env with
  | error e =>
    refine .inl ⟨e, w.intel, w.vt, ?_, .inl rfl⟩
    rw [runOnce, hwindow]
    rfl
  | ok u =>
    let vt : VtState := { w.vt with resolver := newResolver env }
    have hstart : (runOnce rt env).run w =
        (onIntel (IntelMatcher.refresh rt env.intel) >>= fun _ => updateEntities rt env).run
          { w with vt := vt } := by
      rw [runOnce, hwindow]
      rfl
    rcases hrefresh : (IntelMatcher.refresh rt env.intel).run w.intel with ⟨e | u, intel⟩
    · refine .inl ⟨e, intel, vt, ?_, .inr rfl⟩
      rw [hstart]
      refine Prog.run_bind_of_error ?_
      rw [onIntel, Prog.run_zoom, hrefresh]
    · refine .inr ⟨intel, vt, rfl, ?_⟩
      rw [hstart]
      refine Prog.run_bind_of_ok (a := ()) ?_
      rw [onIntel, Prog.run_zoom, hrefresh]

/-- **What a pass leaves that returned**: the entities of the hosts in its window are written, and
those of old deleted. -/
theorem runOnce_ok {w : World} (h : ((runOnce rt env).run w).1.isOk) :
    let since := windowStart env.now
    let hosts := windowHosts since w.ledger
    ((runOnce rt env).run w).2.ledger = w.ledger ∧
    (∀ host ∈ hosts, (env.reply (.entity host)).accepts) ∧
    ∃ docs, List.Forall₂ (IsEntityOf rt env since w.ledger) hosts docs ∧
      ((runOnce rt env).run w).2.entities =
        (w.entities.putAll docs).deleteWhere (expired since) := by
  rcases runOnce_cases rt env w with ⟨e, intel, vt, hrun, -⟩ | ⟨intel, vt, -, hrun⟩
  · rw [hrun] at h
    exact absurd h nofun
  · have hspec := updateEntities_spec rt env { w with intel := intel, vt := vt }
    rw [hrun] at h ⊢
    rcases hupdate : (updateEntities rt env).run { w with intel := intel, vt := vt }
      with ⟨e | k, w'⟩
    · rw [hupdate] at h
      exact absurd h nofun
    · rw [hupdate] at hspec
      obtain ⟨w₁, hwrote, hacc, rfl⟩ := hspec
      obtain ⟨docs, hdocs, hput⟩ := hwrote.entities
      exact ⟨hwrote.ledger, hacc, docs, hdocs, by rw [← hput]⟩

/-- **What a pass leaves**, however it ends: each entity was there before, or it was written for a
host in the window. -/
theorem runOnce_frame (rt : Runtime) (env : ReasonEnv) (w : World) :
    ((runOnce rt env).run w).2.ledger = w.ledger ∧
    ∀ e ∈ ((runOnce rt env).run w).2.entities, e ∈ w.entities ∨
      ∃ host ∈ windowHosts (windowStart env.now) w.ledger,
        IsEntityOf rt env (windowStart env.now) w.ledger host e := by
  rcases runOnce_cases rt env w with ⟨e, intel, vt, hrun, -⟩ | ⟨intel, vt, -, hrun⟩
  · rw [hrun]
    exact ⟨rfl, fun e he => .inl he⟩
  · rw [hrun]
    set w₀ : World := { w with intel := intel, vt := vt }
    set since := windowStart env.now
    have hwritten : ∀ done w₁, done ⊆ windowHosts since w.ledger → Wrote rt env since w₀ done w₁ →
        w₁.ledger = w.ledger ∧ ∀ e ∈ w₁.entities, e ∈ w.entities ∨
          ∃ host ∈ windowHosts since w.ledger, IsEntityOf rt env since w.ledger host e := by
      intro done w₁ hdone hwrote
      refine ⟨hwrote.ledger, fun e he => ?_⟩
      obtain ⟨docs, hdocs, hput⟩ := hwrote.entities
      rw [hput] at he
      rcases mem_putAll_entities hdocs he with ⟨hhost, hof⟩ | ⟨he, -⟩
      · exact .inr ⟨e.c2Host, hdone hhost, hof⟩
      · exact .inl he
    have hspec := updateEntities_spec rt env w₀
    rcases hupdate : (updateEntities rt env).run w₀ with ⟨e | k, w'⟩
    · rw [hupdate] at hspec
      rcases hspec with ⟨done, todo, heq, hwrote, -⟩ | ⟨-, w₁, p, hwrote, rfl⟩
      · refine hwritten done w' (fun h hh => ?_) hwrote
        exact heq ▸ List.mem_append_left _ hh
      · obtain ⟨hledger, hmem⟩ := hwritten _ w₁ (List.Subset.refl _) hwrote
        exact ⟨hledger, fun e he => hmem e (Index.mem_deleteWhere.mp he).1⟩
    · rw [hupdate] at hspec
      obtain ⟨w₁, hwrote, -, rfl⟩ := hspec
      obtain ⟨hledger, hmem⟩ := hwritten _ w₁ (List.Subset.refl _) hwrote
      exact ⟨hledger, fun e he => hmem e (Index.mem_deleteWhere.mp he).1⟩

end C2Engine
