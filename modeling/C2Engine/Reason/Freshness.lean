import C2Engine.Machine.Trace
import C2Engine.Reason.Generations

/-!
# How often a feed is downloaded

`refresh` keeps no record of its downloads. How long ago a feed was downloaded is read off the
stamps of its cached documents, so what a download leaves in the cache decides when the next one is
due. A download from which no document is cached is forgotten at once; a search for the stamps that
is refused counts as a feed that was never downloaded; and a stamp is a whole second, which makes a
download up to a second older than it is.

Where none of this happens two downloads of a feed are at least the TTL apart. The invariant is that
each download of the run is either that old, or remembered: a document of the feed carries its stamp
or a later one.

## Main definitions

* `downloads`: the downloads of a run that were stored.
* `Apart`: the TTL lies between two downloads, if they are of one feed.
* `Leaves`, `Remembers`: a turn leaves a document with its stamp, and finds what was left.
* `Timely`: the whole second of a time does not make it older than the TTL.

## Main results

* `due_iff_of_stored`: when a feed is due again.
* `tracked_turn`, `tracked_refresh`: a turn and a refresh keep the invariant.
* `apart_downloads`: the statement about runs.
-/

namespace C2Engine.IntelMatcher

open Python Store Machine

variable {rt : Runtime} {env : IntelEnv} {i : ℕ} {source : Source} {s : IntelState}
  {recs : List Ioc}

/-! ### The latest stamp -/

theorem latestStamp_eq_none_iff {cache : IntelCache} :
    latestStamp source cache = none ↔ ∀ d ∈ cache, d.source ≠ source := by
  rw [latestStamp, List.max?_eq_none_iff, List.map_eq_nil_iff, List.filter_eq_nil_iff]
  simp only [decide_eq_true_eq]
  rfl

/-- The latest stamp is the stamp of a document of the feed, and none of them has a later one. -/
theorem latestStamp_eq_some_iff {cache : IntelCache} {t : ℤ} :
    latestStamp source cache = some t ↔ (∃ d ∈ cache, d.source = source ∧ d.fetchedAt = t) ∧
      ∀ d ∈ cache, d.source = source → d.fetchedAt ≤ t := by
  rw [latestStamp, List.max?_eq_some_iff, List.mem_map, List.forall_mem_map]
  simp only [List.mem_filter, decide_eq_true_eq, and_assoc, and_imp]
  rfl

/-! ### What a stored download leaves -/

/-- The write of a download leaves a document of the feed with the present stamp: one that is
stored, or one that was cached in the same second. -/
def Leaves (env : IntelEnv) (i : ℕ) (source : Source) (s : IntelState) (recs : List Ioc) : Prop :=
  (env.reply (.bulk i)).stored IntelDoc.id (stamped s.matcher.now recs) ≠ [] ∨
    ∃ d ∈ s.cache, d.source = source ∧ d.fetchedAt = stamp s.matcher.now

/-- The result of `_store` in a turn. -/
def storedBy (env : IntelEnv) (i : ℕ) (recs : List Ioc) : Except PyExc Unit :=
  storeResult (env.reply (.bulk i)) (env.reply (.purge i)) recs

/-- A download that was stored was written and purged. -/
theorem accepts_of_storedBy (h : storedBy env i recs = .ok ()) :
    (recs.isEmpty || (env.reply (.bulk i)).accepts) ∧ (env.reply (.purge i)).accepts := by
  rw [storedBy, storeResult] at h
  split_ifs at h with hsent
  · exact ⟨hsent, Reply.result_eq_ok_iff.mp h⟩
  · exact absurd (Bool.or_eq_true_iff.mpr (.inr (Reply.result_eq_ok_iff.mp h))) hsent

/-- A stored download leaves the documents of its feed that carry its stamp. -/
theorem mem_cache_of_storedBy {d : IntelDoc} (h : storedBy env i recs = .ok ())
    (hd : d.source = source) :
    d ∈ (afterStore env i source recs s).2.cache ↔ d.fetchedAt = stamp s.matcher.now ∧
      d ∈ s.cache.putAll ((env.reply (.bulk i)).stored IntelDoc.id
        (stamped s.matcher.now recs)) := by
  obtain ⟨hsent, hpurge⟩ := accepts_of_storedBy h
  rw [cache_afterStore, storeEffect, if_pos hsent, purgeEffect, bulkEffect, Index.mem_deleteWhere,
    hpurge, outdated, hd, and_comm]
  simp

/-- A stored download leaves a document of its feed exactly if it leaves one with its stamp. -/
theorem exists_mem_cache_iff_leaves (hdown : Downloads rt env i source s recs)
    (h : storedBy env i recs = .ok ()) :
    (∃ d ∈ (afterStore env i source recs s).2.cache, d.source = source) ↔
      Leaves env i source s recs := by
  set stored := (env.reply (.bulk i)).stored IntelDoc.id (stamped s.matcher.now recs) with hstored
  constructor
  · rintro ⟨d, hd, hsource⟩
    obtain ⟨hstamp, hput⟩ := (mem_cache_of_storedBy h hsource).mp hd
    rcases Index.mem_or_mem_of_mem_putAll hput with hmem | ⟨hmem, -⟩
    · exact .inl (List.ne_nil_of_mem hmem)
    · exact .inr ⟨d, hmem, hsource, hstamp⟩
  · -- whatever is cached under the identifier afterwards carries the stamp
    have hleaves : ∀ d, d ∈ stored ∨ d ∈ s.cache ∧ d.source = source ∧
        d.fetchedAt = stamp s.matcher.now →
          ∃ d ∈ (afterStore env i source recs s).2.cache, d.source = source := by
      intro d hd
      have hput : ∃ e ∈ s.cache.putAll stored, e.id = d.id := Index.exists_mem_putAll_iff.mpr
        (hd.imp (fun hd => ⟨d, hd, rfl⟩) fun hd => ⟨d, hd.1, rfl⟩)
      obtain ⟨e, he, hid⟩ := hput
      have hof : e.source = source ∧ e.fetchedAt = stamp s.matcher.now := by
        rcases Index.mem_or_mem_of_mem_putAll he with hmem | ⟨hmem, hnone⟩
        · exact of_mem_stored hdown hmem
        · rcases hd with hd | ⟨hd, hof⟩
          · exact absurd hid.symm (hnone d hd)
          · exact s.cache.eq_of_idOf_eq hmem hd hid ▸ hof
      exact ⟨e, (mem_cache_of_storedBy h hof.1).mpr ⟨hof.2, he⟩, hof.1⟩
    rintro (hne | ⟨d, hd⟩)
    · obtain ⟨d, hd⟩ := List.exists_mem_of_ne_nil _ hne
      exact hleaves d (.inl hd)
    · exact hleaves d (.inr hd)

/-- **When a feed is due again** after a download that was stored: where the search is refused,
where no document carries the stamp, or where the whole second is as old as the TTL. -/
theorem due_iff_of_stored {env' : IntelEnv} {j : ℕ} {m : Matcher}
    (hdown : Downloads rt env i source s recs) (h : storedBy env i recs = .ok ()) :
    Due env' j source ⟨(afterStore env i source recs s).2.cache, m⟩ ↔
      (env'.reply (.latest j)).result = .error .runtimeError ∨
      (env'.reply (.latest j)).accepts ∧ (¬ Leaves env i source s recs ∨
        m.ttl ≤ m.now - stamp s.matcher.now * usPerSecond) := by
  set cache := (afterStore env i source recs s).2.cache with hcache
  have hlatest : isStale m (latestStamp source cache) ↔ ¬ Leaves env i source s recs ∨
      m.ttl ≤ m.now - stamp s.matcher.now * usPerSecond := by
    have hleaves := @exists_mem_cache_iff_leaves rt env i source s recs hdown h
    rw [← hcache] at hleaves
    have hall : ∀ d ∈ cache, d.source = source → d.fetchedAt = stamp s.matcher.now :=
      fun d hd hsource => ((mem_cache_of_storedBy h hsource).mp hd).1
    by_cases hl : Leaves env i source s recs
    · obtain ⟨d, hd, hsource⟩ := hleaves.mpr hl
      rw [latestStamp_eq_some_iff.mpr ⟨⟨d, hd, hsource, hall d hd hsource⟩,
        fun d hd hsource => (hall d hd hsource).le⟩, isStale, decide_eq_true_eq]
      exact (or_iff_right (not_not.mpr hl)).symm
    · rw [latestStamp_eq_none_iff.mpr fun d hd hsource => hl (hleaves.mp ⟨d, hd, hsource⟩)]
      exact iff_of_true rfl (.inl hl)
  rw [← hlatest, Due, latestOf]
  cases hr : (env'.reply (.latest j)).result with
  | ok u =>
    rw [← Reply.result_eq_ok_iff, hr]
    simp
  | error e =>
    rw [← Reply.result_eq_ok_iff, hr]
    by_cases he : e = .runtimeError <;> simp [he, isStale]

/-! ### Downloads that are remembered -/

/-- The downloads of the present refresh so far that were stored, each with its time. -/
def present (s : IntelState) : List (Source × ℤ) :=
  s.matcher.refreshed.map fun source => (source, s.matcher.now)

/-- The TTL lies between two downloads, if they are of one feed. -/
def Apart (ttl : ℤ) (x y : Source × ℤ) : Prop := x.1 = y.1 → ttl ≤ y.2 - x.2

/-- A time that is not as old as the TTL is not made so by leaving out what exceeds a second. -/
def Timely (ttl t now : ℤ) : Prop := now - t < ttl → now - stamp t * usPerSecond < ttl

/-- A time that is a whole second. -/
theorem timely_of_whole {ttl t now : ℤ} (h : t = stamp t * usPerSecond) : Timely ttl t now := by
  intro hyoung
  rwa [← h]

/-- The turn remembers. If it downloads the feed, its search was not refused while documents of the
feed were cached; and if it stores the download, it leaves a document with its stamp. -/
def Remembers (rt : Runtime) (env : IntelEnv) (i : ℕ) (source : Source) (s : IntelState) : Prop :=
  ∀ recs, Downloads rt env i source s recs →
    ((env.reply (.latest i)).result = .error .runtimeError → ∀ d ∈ s.cache, d.source ≠ source) ∧
    (storedBy env i recs = .ok () → Leaves env i source s recs)

/-- A download is as old as the TTL, or remembered in the cache. -/
def AgedOrCached (s : IntelState) (x : Source × ℤ) : Prop :=
  s.matcher.ttl ≤ s.matcher.now - x.2 ∨ ∃ d ∈ s.cache, d.source = x.1 ∧ stamp x.2 ≤ d.fetchedAt

/-- The downloads of a run, those before the present refresh and its own, are apart from each other,
and each is as old as the TTL or remembered. -/
structure Tracked (past : List (Source × ℤ)) (s : IntelState) : Prop where
  apart : (past ++ present s).Pairwise (Apart s.matcher.ttl)
  agedOrCached : ∀ x ∈ past ++ present s, AgedOrCached s x

/-- **A feed that is downloaded again was downloaded a TTL before**, if its turn remembers: the
latest stamp is at least that of the download before. -/
theorem aged_of_downloads {x : Source × ℤ} (hdown : Downloads rt env i x.1 s recs)
    (hrem : Remembers rt env i x.1 s) (htimely : Timely s.matcher.ttl x.2 s.matcher.now)
    (h : AgedOrCached s x) : s.matcher.ttl ≤ s.matcher.now - x.2 := by
  rcases h with haged | ⟨d, hd, hsource, hle⟩
  · exact haged
  obtain ⟨t, hlatest, hstale⟩ := hdown.1
  rw [latestOf] at hlatest
  cases hr : (env.reply (.latest i)).result with
  | error e =>
    rw [hr] at hlatest
    by_cases he : e = .runtimeError
    · exact absurd hsource ((hrem recs hdown).1 (he ▸ hr) d hd)
    · simp [he] at hlatest
  | ok u =>
    rw [hr, Except.ok.injEq] at hlatest
    cases t with
    | none => exact absurd hsource (latestStamp_eq_none_iff.mp hlatest d hd)
    | some t =>
      have hlatest' : d.fetchedAt ≤ t := (latestStamp_eq_some_iff.mp hlatest).2 d hd hsource
      have hstale' : s.matcher.ttl ≤ s.matcher.now - t * usPerSecond := by
        simpa [isStale] using hstale
      by_contra hyoung
      have := htimely (not_le.mp hyoung)
      rw [usPerSecond] at *
      omega

/-! ### The turns -/

/-- A turn leaves the clock, the TTL and the list of feeds as they are. -/
theorem matcher_turn (i : ℕ) (source : Source) (s : IntelState) :
    ((turn rt env i source).run s).2.matcher.now = s.matcher.now ∧
      ((turn rt env i source).run s).2.matcher.ttl = s.matcher.ttl ∧
      ((turn rt env i source).run s).2.matcher.feeds = s.matcher.feeds := by
  rcases turn_cases rt env i source s with ⟨recs, -, hrun⟩ | ⟨-, enabled, r, hrun, -⟩
  · rw [hrun, afterStore]
    cases storeResult (env.reply (.bulk i)) (env.reply (.purge i)) recs <;> exact ⟨rfl, rfl, rfl⟩
  · rw [hrun]
    exact ⟨rfl, rfl, rfl⟩

/-- **A turn that remembers keeps the invariant.** -/
theorem tracked_turn {past : List (Source × ℤ)} (hrem : Remembers rt env i source s)
    (htimely : ∀ x ∈ past ++ present s, Timely s.matcher.ttl x.2 s.matcher.now)
    (h : Tracked past s) : Tracked past ((turn rt env i source).run s).2 := by
  rcases turn_cases rt env i source s with ⟨recs, hdown, hrun⟩ | ⟨-, enabled, r, hrun, -⟩
  · have haged : ∀ x ∈ past ++ present s, x.1 = source →
        s.matcher.ttl ≤ s.matcher.now - x.2 := by
      rintro x hx rfl
      exact aged_of_downloads hdown hrem (htimely x hx) (h.agedOrCached x hx)
    have hcached : ∀ x ∈ past ++ present s, s.matcher.ttl ≤ s.matcher.now - x.2 ∨
        ∃ d ∈ (afterStore env i source recs s).2.cache,
          d.source = x.1 ∧ stamp x.2 ≤ d.fetchedAt := by
      intro x hx
      by_cases hsource : x.1 = source
      · exact .inl (haged x hx hsource)
      · refine (h.agedOrCached x hx).imp_right fun ⟨d, hd, hd', hle⟩ => ⟨d, ?_, hd', hle⟩
        rw [← hrun]
        exact (mem_cache_turn_of_ne (hd' ▸ hsource)).mpr hd
    rw [hrun]
    cases hres : storedBy env i recs with
    | error e =>
      rw [storedBy] at hres
      simp only [afterStore, hres] at hcached ⊢
      exact ⟨h.apart, hcached⟩
    | ok u =>
      have hleaves := (exists_mem_cache_iff_leaves hdown hres).mpr ((hrem recs hdown).2 hres)
      have hstamp := fun d hd => @mem_cache_of_storedBy env i source s recs d hres hd
      rw [storedBy] at hres
      simp only [afterStore, hres] at hcached hleaves hstamp ⊢
      have hpresent : past ++ present ⟨storeEffect (env.reply (.bulk i)) (env.reply (.purge i))
          source s.matcher.now recs s.cache, { s.matcher with
            refreshed := s.matcher.refreshed ++ [source] }⟩ =
          past ++ present s ++ [(source, s.matcher.now)] := by
        simp [present]
      constructor
      · rw [hpresent, List.pairwise_append]
        refine ⟨h.apart, List.pairwise_singleton _ _, fun x hx y hy hsource => ?_⟩
        obtain rfl := List.mem_singleton.mp hy
        exact haged x hx hsource
      · rw [hpresent]
        intro x hx
        rcases List.mem_append.mp hx with hx | hx
        · exact hcached x hx
        · obtain rfl := List.mem_singleton.mp hx
          obtain ⟨d, hd, hsource⟩ := hleaves
          exact .inr ⟨d, hd, hsource, ((hstamp d hsource).mp hd).1.ge⟩
  · rw [hrun]
    exact ⟨h.apart, h.agedOrCached⟩

/-- A loop of turns that remember keeps the invariant. -/
theorem tracked_turns {past : List (Source × ℤ)} : (feeds : List Source) → (i : ℕ) →
    (changed : Bool) → (s : IntelState) → EachTurn rt env (Remembers rt env) i feeds s →
      (∀ x ∈ past, Timely s.matcher.ttl x.2 s.matcher.now) →
      Timely s.matcher.ttl s.matcher.now s.matcher.now → Tracked past s →
        Tracked past ((turns rt env i feeds changed).run s).2
  | [], _, _, _, _, _, _, h => h
  | source :: feeds, i, changed, s, ⟨hrem, hrest⟩, hpast, hself, h => by
      have htimely : ∀ x ∈ past ++ present s, Timely s.matcher.ttl x.2 s.matcher.now := by
        intro x hx
        rcases List.mem_append.mp hx with hx | hx
        · exact hpast x hx
        · obtain ⟨source', -, rfl⟩ := List.mem_map.mp hx
          exact hself
      have hnext := tracked_turn hrem htimely h
      rcases run_turns_cons i source feeds changed s with ⟨-, hrun⟩ | ⟨hok, changed', hrun⟩
      · rw [hrun]
        exact hnext
      · obtain ⟨hnow, httl, -⟩ := @matcher_turn rt env i source s
        rw [hrun]
        refine tracked_turns feeds (i + 1) changed' _ (hrest hok) ?_ ?_ hnext
        · rwa [hnow, httl]
        · rwa [hnow, httl]

theorem matcher_turns : (feeds : List Source) → (i : ℕ) → (changed : Bool) → (s : IntelState) →
    ((turns rt env i feeds changed).run s).2.matcher.now = s.matcher.now ∧
      ((turns rt env i feeds changed).run s).2.matcher.ttl = s.matcher.ttl ∧
      ((turns rt env i feeds changed).run s).2.matcher.feeds = s.matcher.feeds
  | [], _, _, _ => ⟨rfl, rfl, rfl⟩
  | source :: feeds, i, changed, s => by
      obtain ⟨hnow, httl, hfeeds⟩ := @matcher_turn rt env i source s
      rcases run_turns_cons i source feeds changed s with ⟨-, hrun⟩ | ⟨hok, changed', hrun⟩
      · rw [hrun]
        exact ⟨hnow, httl, hfeeds⟩
      · rw [hrun]
        obtain ⟨hnow', httl', hfeeds'⟩ := matcher_turns feeds (i + 1) changed' _
        exact ⟨hnow'.trans hnow, httl'.trans httl, hfeeds'.trans hfeeds⟩

/-! ### The refresh -/

/-- The state in which the turns of a refresh begin: at its time, without a download of its own. -/
def begun (s : IntelState) (now : ℤ) : IntelState :=
  ⟨s.cache, { s.matcher with now := now, refreshed := [] }⟩

/-- What a refresh makes of the state, however it ends. -/
def refreshed (rt : Runtime) (env : IntelEnv) (s : IntelState) : IntelState :=
  ((refresh rt env).run s).2

/-- A refresh leaves the clock at its time, and the TTL and the list of feeds as they are. -/
theorem matcher_refreshed (s : IntelState) : (refreshed rt env s).matcher.now = env.now ∧
    (refreshed rt env s).matcher.ttl = s.matcher.ttl ∧
    (refreshed rt env s).matcher.feeds = s.matcher.feeds := by
  obtain ⟨indexes, loaded, hrun⟩ := @refresh_cases rt env s
  rw [refreshed, hrun]
  dsimp only
  split_ifs
  · exact matcher_turns s.matcher.feeds 0 false (begun s env.now)
  · exact ⟨rfl, rfl, rfl⟩

/-- **A refresh whose turns remember keeps the invariant.** -/
theorem tracked_refresh {past : List (Source × ℤ)}
    (hrem : EachTurnOfRefresh rt env (Remembers rt env) s)
    (hpast : ∀ x ∈ past, Timely s.matcher.ttl x.2 env.now)
    (hself : Timely s.matcher.ttl env.now env.now) (h : Tracked past (begun s env.now)) :
    Tracked past (refreshed rt env s) := by
  obtain ⟨indexes, loaded, hrun⟩ := @refresh_cases rt env s
  rw [refreshed, hrun]
  dsimp only
  split_ifs with henabled
  · have hturns := tracked_turns s.matcher.feeds 0 false (begun s env.now) (hrem henabled) hpast
      hself h
    exact ⟨hturns.apart, hturns.agedOrCached⟩
  · exact ⟨h.apart, h.agedOrCached⟩

/-- The downloads of a refresh belong to the past of the next one. -/
theorem Tracked.begun {past : List (Source × ℤ)} {now : ℤ} (h : Tracked past s)
    (hnow : s.matcher.now ≤ now) : Tracked (past ++ present s) (begun s now) := by
  have hpresent : past ++ present s ++ present (IntelMatcher.begun s now) = past ++ present s :=
    List.append_nil _
  constructor
  · rw [hpresent]
    exact h.apart
  · rw [hpresent]
    intro x hx
    refine (h.agedOrCached x hx).imp_left fun haged => ?_
    rw [IntelMatcher.begun]
    dsimp only
    omega

/-! ### Runs -/

/-- The downloads of a run of refreshes that were stored, each with its time. -/
def downloads (rt : Runtime) (s : IntelState) (envs : List IntelEnv) : List (Source × ℤ) :=
  (trace (refreshed rt) s envs).flatMap fun x => present (refreshed rt x.2 x.1)

theorem apart_downloads_of_tracked : {envs : List IntelEnv} → {s : IntelState} →
    {past : List (Source × ℤ)} → envs.Pairwise (fun env env' => env.now ≤ env'.now) →
      (∀ env ∈ envs, ∀ env' ∈ envs, env.now ≤ env'.now →
        Timely s.matcher.ttl env.now env'.now) →
      (∀ x ∈ trace (refreshed rt) s envs, EachTurnOfRefresh rt x.2 (Remembers rt x.2) x.1) →
      past.Pairwise (Apart s.matcher.ttl) →
      (∀ env ∈ envs, Tracked past (begun s env.now) ∧
        ∀ x ∈ past, Timely s.matcher.ttl x.2 env.now) →
        (past ++ downloads rt s envs).Pairwise (Apart s.matcher.ttl)
  | [], _, past, _, _, _, hpast, _ => by
      rw [downloads, trace, List.flatMap_nil, List.append_nil]
      exact hpast
  | env :: envs, s, past, htimes, htimely, hrem, hpast, hbegun => by
      obtain ⟨hlater, htimes⟩ := List.pairwise_cons.mp htimes
      obtain ⟨hrem, hrest⟩ := List.forall_mem_cons.mp hrem
      obtain ⟨⟨htracked, hold⟩, hbegun⟩ := List.forall_mem_cons.mp hbegun
      have hself := htimely env List.mem_cons_self env List.mem_cons_self le_rfl
      obtain ⟨hnow, httl, -⟩ := @matcher_refreshed rt env s
      have hnext := tracked_refresh hrem hold hself htracked
      have hsplit : past ++ downloads rt s (env :: envs) =
          past ++ present (refreshed rt env s) ++ downloads rt (refreshed rt env s) envs :=
        (List.append_assoc ..).symm
      rw [hsplit, ← httl]
      refine apart_downloads_of_tracked htimes ?_ hrest hnext.apart fun env' henv' => ⟨?_, ?_⟩
      · rw [httl]
        exact fun e he e' he' =>
          htimely e (List.mem_cons_of_mem _ he) e' (List.mem_cons_of_mem _ he')
      · exact hnext.begun (hnow ▸ hlater env' henv')
      · rw [httl]
        intro x hx
        rcases List.mem_append.mp hx with hx | hx
        · exact (hbegun env' henv').2 x hx
        · obtain ⟨source, -, rfl⟩ := List.mem_map.mp hx
          dsimp only
          rw [hnow]
          exact htimely env List.mem_cons_self env' (List.mem_cons_of_mem _ henv')
            (hlater env' henv')

/-- **Two downloads of a feed are at least the TTL apart** in a run of refreshes, whose times do not
decrease, if each turn remembers and no time is made older than the TTL by its whole second. -/
theorem apart_downloads {s : IntelState} {envs : List IntelEnv}
    (htimes : envs.Pairwise fun env env' => env.now ≤ env'.now)
    (htimely : ∀ env ∈ envs, ∀ env' ∈ envs, env.now ≤ env'.now →
      Timely s.matcher.ttl env.now env'.now)
    (hrem : ∀ x ∈ trace (refreshed rt) s envs, EachTurnOfRefresh rt x.2 (Remembers rt x.2) x.1) :
    (downloads rt s envs).Pairwise (Apart s.matcher.ttl) := by
  have hbegun : ∀ env ∈ envs, Tracked [] (begun s env.now) ∧
      ∀ x ∈ ([] : List (Source × ℤ)), Timely s.matcher.ttl x.2 env.now :=
    fun env _ => ⟨⟨List.Pairwise.nil, fun x hx => absurd hx List.not_mem_nil⟩,
      fun x hx => absurd hx List.not_mem_nil⟩
  exact apart_downloads_of_tracked htimes htimely hrem List.Pairwise.nil hbegun

/-- Three refreshes of a matcher with a TTL of twelve hours: the second, an hour after the first,
finds the feed fresh, and the third, at its thirteenth hour, downloads it again. -/
theorem apart_downloads_three :
    let s : IntelState := ⟨.empty, ⟨true, [.feodo], 12 * 3600 * usPerSecond, 0, .empty, false, []⟩⟩
    let env (hour : ℤ) : IntelEnv := ⟨(1780000000 + 3600 * hour) * usPerSecond, fun _ => .done,
      fun _ => .body (str "[\x7b\x22ip_address\x22: \x22192.0.2.1\x22\x7d]")⟩
    (downloads .basic s [env 0, env 1, env 13]).Pairwise (Apart s.matcher.ttl) ∧
      downloads .basic s [env 0, env 1, env 13] =
        [(.feodo, (env 0).now), (.feodo, (env 13).now)] := by
  intro s env
  have hparse : (parseFeed .basic .feodo
      (str "[\x7b\x22ip_address\x22: \x22192.0.2.1\x22\x7d]")).toOption.map List.length =
        some 1 := by
    decide +kernel
  have hturn : ∀ hour i s, Remembers .basic (env hour) i .feodo s := by
    rintro hour i s recs ⟨-, text, hbody, hrecs⟩
    cases hbody
    rw [hrecs] at hparse
    refine ⟨nofun, fun _ => .inl ?_⟩
    have hlen : recs.length = 1 := by simpa [Except.toOption] using hparse
    rw [Reply.stored_of_applied fun _ _ => rfl, stamped, ne_eq, List.map_eq_nil_iff]
    rintro rfl
    cases hlen
  have hrefresh : ∀ hour s', s'.matcher.feeds = [.feodo] →
      EachTurnOfRefresh .basic (env hour) (Remembers .basic (env hour)) s' := by
    intro hour s' hfeeds _
    rw [hfeeds]
    exact ⟨hturn hour 0 _, fun _ => trivial⟩
  have hwhole : ∀ hour, (env hour).now = stamp (env hour).now * usPerSecond := fun hour => by
    rw [stamp, Int.mul_ediv_cancel _ (by decide)]
  have hhours : ∀ e ∈ [env 0, env 1, env 13], ∃ hour, e = env hour :=
    List.forall_mem_map (f := env) (l := [0, 1, 13]).mpr fun hour _ => ⟨hour, rfl⟩
  refine ⟨apart_downloads (by decide) (fun e he _ _ _ => ?_) fun x hx => ?_, by decide +kernel⟩
  · obtain ⟨hour, rfl⟩ := hhours e he
    exact timely_of_whole (hwhole hour)
  · have hfeeds := forall_trace (I := fun s => s.matcher.feeds = [.feodo]) (P := fun _ _ => True)
      (fun s env h _ => (@matcher_refreshed .basic env s).2.2.trans h) rfl (fun _ _ => trivial) x hx
    obtain ⟨pre, post, hsplit, -⟩ := mem_trace_iff.mp hx
    obtain ⟨hour, henv⟩ := hhours x.2 (hsplit ▸ List.mem_append_right _ List.mem_cons_self)
    rw [henv]
    exact hrefresh hour x.1 hfeeds

/-- An empty feed leaves no document, so each refresh downloads it. -/
theorem not_apart_downloads_empty :
    let s : IntelState := ⟨.empty, ⟨true, [.feodo], 12 * 3600 * usPerSecond, 0, .empty, false, []⟩⟩
    let env (hour : ℤ) : IntelEnv := ⟨(1780000000 + 3600 * hour) * usPerSecond, fun _ => .done,
      fun _ => .body (str "[]")⟩
    [env 0, env 1].Pairwise (fun env env' => env.now ≤ env'.now) ∧
      ¬ (downloads .basic s [env 0, env 1]).Pairwise (Apart s.matcher.ttl) := by
  intro s env
  have hrun :
      downloads .basic s [env 0, env 1] = [(.feodo, (env 0).now), (.feodo, (env 1).now)] := by
    decide +kernel
  rw [hrun]
  unfold Apart
  decide

end C2Engine.IntelMatcher
