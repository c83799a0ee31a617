import C2Engine.Reason.Freshness

/-!
# The dictionaries of a matcher and its cache

A matcher that has loaded the index once loads it again only in a refresh that stored a feed, and a
page that is refused ends a load like a missing index. So the dictionaries can fall behind the
cache: a refresh that stored something and was then left by an exception is not made up for by the
next one, and a refused page leaves what it would have shown out.

The invariant is that a matcher which counts as loaded holds the dictionaries of the cache. A
*steady* refresh keeps it: it loads to the end where it has to.

## Main definitions

* `Current`: the invariant.
* `Untouched`: the requests of a turn leave the cache as it is.
* `LoadsToEnd`, `Steady`: what must not fail in a refresh.
* `Reached`: the states a matcher reaches by refreshes.

## Main results

* `current_loadIndexes`: a load that comes to the end makes the dictionaries current.
* `current_refresh`: a steady refresh keeps the invariant, and if it returns the dictionaries are
  current.
* `current_of_reached`: the statement about runs.
-/

namespace C2Engine.IntelMatcher

open Python Store Machine

variable {rt : Runtime} {env : IntelEnv}

/-- What a search lists is told by what is in the index. -/
theorem listed_congr {c c' : IntelCache} (h : ∀ d, d ∈ c ↔ d ∈ c') : c.listed = c'.listed := by
  have hnodup : ∀ c : IntelCache, c.listed.Nodup := fun c => c.pairwise_listed.imp fun hlt => by
    rintro rfl
    exact lt_irrefl _ hlt
  have hperm : c.listed.Perm c'.listed := (List.perm_ext_iff_of_nodup (hnodup c) (hnodup c')).mpr
    fun d => by rw [IntelCache.listed, IntelCache.listed, Index.mem_sorted, Index.mem_sorted, h]
  refine hperm.eq_of_pairwise (fun d e _ _ hlt hgt => ?_) c.pairwise_listed c'.pairwise_listed
  exact absurd (lt_trans hlt hgt) (lt_irrefl _)

/-- The dictionaries of a matcher that counts as loaded are those of the cache. -/
def Current (s : IntelState) : Prop := s.matcher.loaded → s.matcher.indexes = currentIndexes s.cache

/-! ### The turns -/

/-- The requests of a turn leave the cache as it is. -/
def Untouched (rt : Runtime) (env : IntelEnv) (i : ℕ) (source : Source) (s : IntelState) : Prop :=
  ∀ recs, Downloads rt env i source s recs → ∀ d,
    d ∈ storeEffect (env.reply (.bulk i)) (env.reply (.purge i)) source s.matcher.now recs s.cache ↔
      d ∈ s.cache

/-- A turn leaves the dictionaries as they are, and an untouched one the cache. One that stored
nothing is untouched. -/
theorem turn_frame (i : ℕ) (source : Source) (s : IntelState) :
    let out := (turn rt env i source).run s
    out.2.matcher.indexes = s.matcher.indexes ∧ out.2.matcher.loaded = s.matcher.loaded ∧
      (Untouched rt env i source s → ∀ d, d ∈ out.2.cache ↔ d ∈ s.cache) ∧
      (out.1 = .ok false → Untouched rt env i source s) := by
  dsimp only
  rcases turn_cases rt env i source s with ⟨recs, hdown, hrun⟩ | ⟨hnone, enabled, r, hrun, -⟩
  · rw [hrun]
    refine ⟨?_, ?_, fun h d => ?_, ?_⟩
    · rw [afterStore]
      cases storeResult (env.reply (.bulk i)) (env.reply (.purge i)) recs <;> rfl
    · rw [afterStore]
      cases storeResult (env.reply (.bulk i)) (env.reply (.purge i)) recs <;> rfl
    · rw [cache_afterStore]
      exact h recs hdown d
    · rw [afterStore]
      cases storeResult (env.reply (.bulk i)) (env.reply (.purge i)) recs <;> simp
  · rw [hrun]
    exact ⟨rfl, rfl, fun _ _ => Iff.rfl, fun _ recs hdown => absurd hdown (hnone recs)⟩

/-! ### The load -/

/-- No page is refused while there are documents to be read, and in the hands of a matcher that
counts as loaded each of these pages is answered. -/
def LoadsToEnd (env : IntelEnv) (s : IntelState) : Prop :=
  ∀ n, n * loadPage < (s.cache.listed.take loadCap).length →
    (env.reply (.load n)).result ≠ .error .runtimeError ∧
      (s.matcher.loaded → (env.reply (.load n)).accepts)

/-- **A load that comes to the end makes the dictionaries current.** -/
theorem current_loadIndexes {s : IntelState} (h : LoadsToEnd env s) :
    let out := (loadIndexes env.reply).run s
    Current out.2 ∧ (out.1.isOk → out.2.matcher.indexes = currentIndexes out.2.cache) := by
  dsimp only
  obtain ⟨docs, hload⟩ := loadIndexes_spec env.reply s
  rw [Current, hload.state]
  have hok : ((loadIndexes env.reply).run s).1.isOk →
    Indexes.ofDocs docs = currentIndexes s.cache :=
    fun hok => by rw [hload.returned hok fun n _ hn => (h n hn).1, currentIndexes]
  refine ⟨fun hloaded => ?_, hok⟩
  rcases Bool.or_eq_true_iff.mp hloaded with hreturned | hbefore
  · exact hok hreturned
  · exact congrArg Indexes.ofDocs (hload.served fun n _ hn => (h n hn).2 hbefore)

/-! ### The refresh -/

/-- What must not fail from the `i`-th feed on, when the turns before have touched the cache or not
(`dirty`) and have stored a feed or not (`changed`): the loop is not left by an exception once a
matcher that counts as loaded has touched the cache, and a load comes to its end. -/
def SteadyFrom (rt : Runtime) (env : IntelEnv) : (i : ℕ) → List Source → (dirty : Prop) →
    (changed : Bool) → IntelState → Prop
  | _, [], _, changed, s => changed || !s.matcher.loaded → LoadsToEnd env s
  | i, source :: feeds, dirty, changed, s =>
    let dirty' := dirty ∨ ¬ Untouched rt env i source s
    match (turn rt env i source).run s with
    | (.ok stored, s') => SteadyFrom rt env (i + 1) feeds dirty' (changed || stored) s'
    | (.error _, s') => s'.matcher.loaded → ¬ dirty'

/-- What must not fail in a refresh. -/
def Steady (rt : Runtime) (env : IntelEnv) (s : IntelState) : Prop :=
  s.matcher.enabled → SteadyFrom rt env 0 s.matcher.feeds False false
    ⟨s.cache, { s.matcher with now := env.now, refreshed := [] }⟩

/-- The loop of a refresh with the load behind it. -/
def turnsThenLoad (rt : Runtime) (env : IntelEnv) (i : ℕ) (feeds : List Source) (changed : Bool) :
    Prog IntelState Unit := do
  let changed ← turns rt env i feeds changed
  if changed || !(← Prog.get).matcher.loaded then loadIndexes env.reply

/-- The loop and the load keep the invariant if nothing fails that must not, and leave the
dictionaries current if they return. Until the cache is touched the dictionaries are those of the
cache, and it is touched only by a turn that stored its feed. -/
theorem current_turnsThenLoad : (feeds : List Source) → (i : ℕ) → (dirty : Prop) →
    (changed : Bool) → (s : IntelState) → SteadyFrom rt env i feeds dirty changed s →
      (dirty → changed) → (¬ dirty → Current s) →
      let out := (turnsThenLoad rt env i feeds changed).run s
      Current out.2 ∧ (out.1.isOk → out.2.matcher.indexes = currentIndexes out.2.cache)
  | [], i, dirty, changed, s, hsteady, hchanged, hcurrent => by
      have hrun : (turnsThenLoad rt env i [] changed).run s =
          (if changed || !s.matcher.loaded then loadIndexes env.reply else pure ()).run s := rfl
      dsimp only
      rw [hrun]
      split_ifs with hload
      · exact current_loadIndexes (hsteady hload)
      · obtain ⟨hunchanged, hloaded⟩ : changed = false ∧ s.matcher.loaded = true := by
          simpa using hload
        have hclean : ¬ dirty := fun h => by
          have := hchanged h
          rw [hunchanged] at this
          exact Bool.false_ne_true this
        exact ⟨hcurrent hclean, fun _ => hcurrent hclean hloaded⟩
  | source :: feeds, i, dirty, changed, s, hsteady, hchanged, hcurrent => by
      obtain ⟨hindexes, hloaded, huntouched, hfalse⟩ := @turn_frame rt env i source s
      have hnext : ¬ (dirty ∨ ¬ Untouched rt env i source s) →
          Current ((turn rt env i source).run s).2 := by
        intro hclean
        obtain ⟨hclean, hkeeps⟩ := not_or.mp hclean
        rw [Current, hindexes, hloaded, currentIndexes,
          listed_congr (huntouched (not_not.mp hkeeps))]
        exact hcurrent hclean
      rw [SteadyFrom] at hsteady
      dsimp only at hsteady ⊢
      rcases hrun : (turn rt env i source).run s with ⟨e | stored, s'⟩
      · rw [hrun] at hsteady hnext
        have hout : (turnsThenLoad rt env i (source :: feeds) changed).run s = (.error e, s') := by
          rw [turnsThenLoad, turns]
          exact Prog.run_bind_of_error (Prog.run_bind_of_error hrun)
        rw [hout]
        exact ⟨fun h => hnext (hsteady h) h, fun hok => by cases hok⟩
      · rw [hrun] at hsteady hnext hfalse
        have hout : (turnsThenLoad rt env i (source :: feeds) changed).run s =
            (turnsThenLoad rt env (i + 1) feeds (changed || stored)).run s' := by
          have hturns : (turns rt env i (source :: feeds) changed).run s =
              (turns rt env (i + 1) feeds (changed || stored)).run s' := by
            rw [turns, Prog.run_bind_of_ok hrun]
          rw [turnsThenLoad, turnsThenLoad, Prog.run_bind, hturns, Prog.run_bind]
        rw [hout]
        refine current_turnsThenLoad feeds (i + 1) _ _ s' hsteady ?_ hnext
        rintro (hdirty | htouched)
        · rw [hchanged hdirty, Bool.true_or]
        · cases stored with
          | true => rw [Bool.or_true]
          | false => exact absurd (hfalse rfl) htouched

/-- **A steady refresh keeps the invariant**, and if it returns on an enabled matcher the
dictionaries are current. -/
theorem current_refresh {s : IntelState} (hcurrent : Current s) (hsteady : Steady rt env s) :
    let out := (refresh rt env).run s
    Current out.2 ∧ (s.matcher.enabled → out.1.isOk →
      out.2.matcher.indexes = currentIndexes out.2.cache) := by
  let s₀ : IntelState := ⟨s.cache, { s.matcher with now := env.now, refreshed := [] }⟩
  have hstart : (refresh rt env).run s = (if s.matcher.enabled then
      turnsThenLoad rt env 0 s.matcher.feeds false else pure ()).run s₀ := run_refresh rt env s
  dsimp only
  rw [hstart]
  split_ifs with henabled
  · obtain ⟨hkeeps, hok⟩ := current_turnsThenLoad s.matcher.feeds 0 False false s₀
      (hsteady henabled) nofun fun _ => hcurrent
    exact ⟨hkeeps, fun _ => hok⟩
  · exact ⟨hcurrent, fun h => absurd h henabled⟩

/-- If every page request is answered and the loop returns, nothing failed that must not. -/
theorem steadyFrom_of_isOk (hload : ∀ n, env.reply (.load n) = .done) : (feeds : List Source) →
    (i : ℕ) → (dirty : Prop) → (changed : Bool) → (s : IntelState) →
      ((turns rt env i feeds changed).run s).1.isOk → SteadyFrom rt env i feeds dirty changed s
  | [], _, _, _, s, _ => by
      intro _ n _
      rw [hload]
      exact ⟨nofun, fun _ => rfl⟩
  | source :: feeds, i, dirty, changed, s, hok => by
      rw [turns] at hok
      rw [SteadyFrom]
      rcases hrun : (turn rt env i source).run s with ⟨e | stored, s'⟩
      · rw [Prog.run_bind_of_error hrun] at hok
        cases hok
      · rw [Prog.run_bind_of_ok hrun] at hok
        exact steadyFrom_of_isOk hload feeds (i + 1) _ _ s' hok

/-- A refresh that returns and whose page requests are all answered is steady. -/
theorem steady_of_isOk {s : IntelState} (hload : ∀ n, env.reply (.load n) = .done)
    (hok : ((refresh rt env).run s).1.isOk) : Steady rt env s := by
  intro henabled
  rw [run_refresh, if_pos henabled] at hok
  refine steadyFrom_of_isOk hload _ _ _ _ _ ?_
  rcases hrun : (turns rt env 0 s.matcher.feeds false).run
      ⟨s.cache, { s.matcher with now := env.now, refreshed := [] }⟩ with ⟨e | changed, s'⟩
  · rw [Prog.run_bind_of_error hrun] at hok
    cases hok
  · rfl

/-! ### Runs -/

/-- The states a matcher reaches by refreshes that satisfy a condition. -/
inductive Reached (rt : Runtime) (P : IntelEnv → IntelState → Prop) (s₀ : IntelState) :
    IntelState → Prop where
  | start : Reached rt P s₀ s₀
  | refresh {s : IntelState} (h : Reached rt P s₀ s) {env : IntelEnv} (hP : P env s) :
      Reached rt P s₀ ((refresh rt env).run s).2

/-- The state a run ends in is reached if every step of it satisfies the condition. -/
theorem Reached.after {P : IntelEnv → IntelState → Prop} {s₀ : IntelState} :
    {envs : List IntelEnv} → {s : IntelState} → Reached rt P s₀ s →
      (∀ x ∈ trace (refreshed rt) s envs, P x.2 x.1) →
        Reached rt P s₀ (Machine.after (refreshed rt) s envs)
  | [], _, h, _ => h
  | env :: _, s, h, hall => by
      obtain ⟨hfirst, hrest⟩ := List.forall_mem_cons.mp hall
      have hnext : Reached rt P s₀ (refreshed rt env s) := h.refresh hfirst
      exact hnext.after hrest

/-- The invariant of a new matcher in runs of steady refreshes. -/
theorem Reached.current {s₀ s : IntelState} (h : Reached rt (Steady rt) s₀ s)
    (hnew : s₀.matcher.loaded = false) : Current s := by
  induction h with
  | start => exact fun h => absurd h (by simp [hnew])
  | refresh _ hsteady ih => exact (current_refresh ih hsteady).1

/-- **The dictionaries do not fall behind the cache** in runs of steady refreshes of a new matcher:
where a refresh of an enabled matcher returns they hold the cached indicators, up to the cap. -/
theorem current_of_reached {s₀ s : IntelState} (hnew : s₀.matcher.loaded = false)
    (hreached : Reached rt (Steady rt) s₀ s) (hsteady : Steady rt env s)
    (henabled : s.matcher.enabled) (hok : ((refresh rt env).run s).1.isOk) :
    ((refresh rt env).run s).2.matcher.indexes =
      currentIndexes ((refresh rt env).run s).2.cache :=
  (current_refresh (hreached.current hnew) hsteady).2 henabled hok

/-- Three refreshes of a new matcher, seven hours apart. URLhaus lists a URL each time; Feodo
Tracker lists one address, then two, then only the second of them. Each refresh stores what it
downloads, purges the rest and loads the cache. -/
theorem current_of_reached_stores :
    let urlhaus : PyStr := str ("# \"id\",\"url\",\"threat\"\n" ++
      "\"1\",\"http://192.0.2.9/x\",\"malware_download\"\n")
    let env (hour : ℤ) (feodo : String) : IntelEnv := ⟨(1780000000 + 3600 * hour) * usPerSecond,
      fun _ => .done, fun i => .body (if i = 0 then urlhaus else str feodo)⟩
    let one := "\x7b\"ip_address\": \"192.0.2.1\"\x7d"
    let other := "\x7b\"ip_address\": \"192.0.2.2\"\x7d"
    let before := [env 0 ("[" ++ one ++ "]"), env 7 ("[" ++ one ++ ", " ++ other ++ "]")]
    let third := env 14 ("[" ++ other ++ "]")
    let s : IntelState :=
      ⟨.empty, ⟨true, [.urlhaus, .feodo], 6 * 3600 * usPerSecond, 0, .empty, false, []⟩⟩
    let known (envs : List IntelEnv) (ip : String) : ℕ :=
      ((after (refreshed .basic) s envs).matcher.indexes.atHost (str ip)).length
    (known before "192.0.2.9" = 1 ∧ known before "192.0.2.1" = 1 ∧
        known (before ++ [third]) "192.0.2.1" = 0 ∧ known (before ++ [third]) "192.0.2.2" = 1) ∧
      ((refresh .basic third).run (after (refreshed .basic) s before)).2.matcher.indexes =
        currentIndexes
          ((refresh .basic third).run (after (refreshed .basic) s before)).2.cache := by
  intro urlhaus env one other before third s known
  have hload (hour : ℤ) (feodo : String) (n : ℕ) : (env hour feodo).reply (.load n) = .done := rfl
  have hbefore : ∀ x ∈ trace (refreshed .basic) s before, Steady .basic x.2 x.1 := by
    have hok : ∀ x ∈ trace (refreshed .basic) s before,
        ((refresh .basic x.2).run x.1).1.isOk := by
      decide +kernel
    intro x hx
    refine steady_of_isOk ?_ (hok x hx)
    obtain ⟨pre, post, hsplit, -⟩ := mem_trace_iff.mp hx
    have hmem : x.2 ∈ before := hsplit ▸ List.mem_append_right pre List.mem_cons_self
    rcases List.mem_pair.mp hmem with h | h
    · rw [h]
      exact hload 0 _
    · rw [h]
      exact hload 7 _
  have hthird : ((refresh .basic third).run (after (refreshed .basic) s before)).1.isOk := by
    decide +kernel
  have hreached := Reached.after .start hbefore
  refine ⟨by decide +kernel, ?_⟩
  have hsteady : Steady .basic third (after (refreshed .basic) s before) :=
    @steady_of_isOk .basic third _ (hload 14 _) hthird
  have henabled : (after (refreshed .basic) s before).matcher.enabled := by decide +kernel
  -- from here on the state is not to be evaluated
  generalize after (refreshed .basic) s before = s' at *
  exact current_of_reached (by decide +kernel) hreached hsteady henabled hthird

/-- Three refreshes of a matcher: the first loads an empty index; the second stores a feed, and its
load finds no server; the third finds the feed fresh and returns, without the indicator of the
cache. -/
theorem not_current_after_failed_load :
    let env (hour : ℤ) : IntelEnv := ⟨(1780000000 + 3600 * hour) * usPerSecond, fun _ => .done,
      fun _ => .failed⟩
    let s₀ : IntelState := ⟨.empty, ⟨true, [.feodo], 6 * 3600 * usPerSecond, 0, .empty, false, []⟩⟩
    let second : IntelEnv := { env 1 with
      reply := fun r => if r = .load 0 then ⟨.unreachable, fun _ _ => false⟩ else .done
      download := fun _ => .body (str "[\x7b\x22ip_address\x22: \x22192.0.2.1\x22\x7d]") }
    let s₁ := ((refresh .basic (env 0)).run s₀).2
    let s₂ := ((refresh .basic second).run s₁).2
    let out := (refresh .basic (env 2)).run s₂
    (s₂.matcher.enabled ∧ out.1.isOk) ∧
      out.2.matcher.indexes ≠ currentIndexes out.2.cache := by
  intro env s₀ second s₁ s₂ out
  refine ⟨by decide +kernel, fun h => ?_⟩
  have hhost : (out.2.matcher.indexes.atHost (str "192.0.2.1")).length =
      ((currentIndexes out.2.cache).atHost (str "192.0.2.1")).length := by
    rw [h]
  revert hhost
  decide +kernel

end C2Engine.IntelMatcher
