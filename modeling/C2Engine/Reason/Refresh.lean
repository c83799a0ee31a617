import C2Engine.Reason.Matcher

/-!
# One turn and one load

What the two parts of `IntelMatcher.refresh` do: the turn of one feed, and the loading of the
index. Everything known about a refresh is derived from these two descriptions.

A turn either stores what it downloaded, or it leaves the index alone (`turn_cases`). A load
leaves the index alone, and what it has read into the dictionaries when it ends is all there is up
to the cap, unless a page before the end was refused or not answered (`loadPages_spec`).

## Main definitions

* `latestOf`, `Due`, `Downloads`, `TurnFails`: what the turn of a feed comes to.
* `currentIndexes`: the dictionaries of an index.

## Main results

* `turn_cases`: what a turn does.
* `loadIndexes_spec`: what a load does.
-/

namespace C2Engine.IntelMatcher

open Python Store

variable {rt : Runtime} {env : IntelEnv}

/-! ### The turn of a feed -/

/-- The freshness of the `i`-th feed, as its turn learns it. -/
def latestOf (env : IntelEnv) (i : ℕ) (source : Source) (cache : IntelCache) :
    Except PyExc (Option ℤ) :=
  match (env.reply (.latest i)).result with
  | .ok _ => .ok (latestStamp source cache)
  | .error e => if e = .runtimeError then .ok none else .error e

/-- The `i`-th feed is due: its turn downloads it. -/
def Due (env : IntelEnv) (i : ℕ) (source : Source) (s : IntelState) : Prop :=
  ∃ t, latestOf env i source s.cache = .ok t ∧ isStale s.matcher t

/-- The turn of the `i`-th feed downloads the indicators `recs`. -/
def Downloads (rt : Runtime) (env : IntelEnv) (i : ℕ) (source : Source) (s : IntelState)
    (recs : List Ioc) : Prop :=
  Due env i source s ∧ ∃ text, env.download i = .body text ∧ parseFeed rt source text = .ok recs

/-- The turn of the `i`-th feed raises before anything is stored: its first search finds no
server, or its download breaks or is a text the parser does not read. -/
def TurnFails (rt : Runtime) (env : IntelEnv) (i : ℕ) (source : Source) (s : IntelState) : Prop :=
  (latestOf env i source s.cache).isOk = false ∨ Due env i source s ∧
    ¬ (env.download i ≠ .broken ∧ ∀ text, env.download i = .body text → FeedReadable rt source text)

/-- The end of a turn that stores what it downloaded. -/
def afterStore (env : IntelEnv) (i : ℕ) (source : Source) (recs : List Ioc) (s : IntelState) :
    Except PyExc Bool × IntelState :=
  let bulk := env.reply (.bulk i)
  let purge := env.reply (.purge i)
  let cache := storeEffect bulk purge source s.matcher.now recs s.cache
  match storeResult bulk purge recs with
  | .ok _ => (.ok true, ⟨cache, { s.matcher with refreshed := s.matcher.refreshed ++ [source] }⟩)
  | .error e => (.error e, ⟨cache, s.matcher⟩)

theorem not_turnFails_of_downloads {i : ℕ} {source : Source} {s : IntelState} {recs : List Ioc}
    (h : Downloads rt env i source s recs) : ¬ TurnFails rt env i source s := by
  obtain ⟨⟨t, hlatest, -⟩, text, hbody, hparse⟩ := h
  rintro (hfail | ⟨-, hfail⟩)
  · rw [hlatest] at hfail
    exact absurd hfail nofun
  · refine hfail ⟨by simp [hbody], fun text' htext' => ?_⟩
    rw [hbody, Download.body.injEq] at htext'
    exact (isOk_parseFeed source text').mp (isOk_iff.mpr ⟨recs, htext' ▸ hparse⟩)

/-- **What a turn does.** It stores what it downloaded, or it leaves the index and the dictionaries
as they are; then it raises exactly if it fails. -/
theorem turn_cases (rt : Runtime) (env : IntelEnv) (i : ℕ) (source : Source) (s : IntelState) :
    (∃ recs, Downloads rt env i source s recs ∧
      (turn rt env i source).run s = afterStore env i source recs s) ∨
    ((∀ recs, ¬ Downloads rt env i source s recs) ∧ ∃ enabled r,
      (turn rt env i source).run s =
        (r, { s with matcher := { s.matcher with enabled := enabled } }) ∧
      ((r = .ok false ∧ ¬ TurnFails rt env i source s) ∨
        (∃ e, r = .error e) ∧ TurnFails rt env i source s)) := by
  have hlatest : (latestFetched (env.reply (.latest i)) source).run s =
      (latestOf env i source s.cache, s) := EsWriter.run_searchOr _ _ _ _
  cases hl : latestOf env i source s.cache with
  | error e =>
    rw [hl] at hlatest
    refine .inr ⟨fun recs hd => ?_, s.matcher.enabled, .error e, ?_, .inr ⟨⟨e, rfl⟩, .inl ?_⟩⟩
    · obtain ⟨⟨t, ht, -⟩, -⟩ := hd
      rw [hl] at ht
      cases ht
    · exact Prog.run_bind_of_error hlatest
    · rw [hl]
      rfl
  | ok t =>
    rw [hl] at hlatest
    have hdue : Due env i source s ↔ isStale s.matcher t := by
      simp only [Due, hl, Except.ok.injEq, exists_eq_left']
    have hrun : (turn rt env i source).run s =
        (if isStale s.matcher t then turnDue rt env i source else pure false).run s :=
      Prog.run_bind_of_ok hlatest
    by_cases hstale : isStale s.matcher t
    · rw [if_pos hstale] at hrun
      rw [← hdue] at hstale
      obtain ⟨enabled, hframe⟩ := @fetch_frame rt source (env.download i) s
      have hok := @isOk_fetch rt source (env.download i) s
      rcases hf : (fetch rt source (env.download i)).run s with ⟨e | recs?, s'⟩
      · rw [hf] at hframe hok
        dsimp only at hframe hok
        subst hframe
        have hfail : ¬ (env.download i ≠ .broken ∧
            ∀ text, env.download i = .body text → FeedReadable rt source text) :=
          fun h => absurd (hok.mpr h) nofun
        refine .inr ⟨fun recs hd => ?_, enabled, .error e, ?_,
          .inr ⟨⟨e, rfl⟩, .inr ⟨hstale, hfail⟩⟩⟩
        · exact not_turnFails_of_downloads hd (.inr ⟨hstale, hfail⟩)
        · rw [hrun]
          exact Prog.run_bind_of_error hf
      · rw [hf] at hok
        have hreads := hok.mp rfl
        cases recs? with
        | none =>
          rw [hf] at hframe
          dsimp only at hframe
          subst hframe
          refine .inr ⟨fun recs hd => ?_, enabled, .ok false, ?_, .inl ⟨rfl, ?_⟩⟩
          · obtain ⟨-, hbody⟩ := hd
            rw [run_fetch_eq_some_iff.mpr ⟨rfl, hbody⟩] at hf
            cases hf
          · rw [hrun]
            exact Prog.run_bind_of_ok hf
          · rintro (hbad | ⟨-, hbad⟩)
            · rw [hl] at hbad
              exact absurd hbad nofun
            · exact hbad hreads
        | some recs =>
          obtain ⟨rfl, hbody⟩ := run_fetch_eq_some_iff.mp hf
          refine .inl ⟨recs, ⟨hstale, hbody⟩, ?_⟩
          rw [hrun, turnDue, Prog.run_bind_of_ok hf]
          dsimp only
          rw [Prog.run_bind, run_store, afterStore]
          dsimp only
          cases storeResult (env.reply (.bulk i)) (env.reply (.purge i)) recs <;> rfl
    · rw [if_neg hstale] at hrun
      rw [← hdue] at hstale
      refine .inr ⟨fun recs hd => hstale hd.1, s.matcher.enabled, .ok false, hrun, .inl ⟨rfl, ?_⟩⟩
      rintro (hbad | ⟨hbad, -⟩)
      · rw [hl] at hbad
        exact absurd hbad nofun
      · exact hstale hbad

/-! ### The loading of the index -/

/-- The dictionaries of the documents of an index, up to the cap. -/
def currentIndexes (cache : IntelCache) : Indexes := .ofDocs (cache.listed.take loadCap)

/-- What a loop over the pages from the `n`-th one on leaves: the dictionaries of documents that
are all there is up to the cap if no page before their end fails. -/
structure LoadEnds (reply : IntelRequest → Reply) (cap size n : ℕ) (s : IntelState)
    (out : Except PyExc Unit × IntelState) (docs : List IntelDoc) : Prop where
  state : out.2 = ⟨s.cache,
    { s.matcher with indexes := .ofDocs docs, loaded := out.1.isOk || s.matcher.loaded }⟩
  /-- Every page before the end was answered. -/
  served : (∀ m, n ≤ m → m * size < (s.cache.listed.take cap).length →
    (reply (.load m)).accepts) → docs = s.cache.listed.take cap
  /-- The loop returned, and no page before the end was refused. -/
  returned : out.1.isOk → (∀ m, n ≤ m → m * size < (s.cache.listed.take cap).length →
    (reply (.load m)).result ≠ .error .runtimeError) → docs = s.cache.listed.take cap
  isOk : (∀ m, (reply (.load m)).accepts) → out.1.isOk

namespace LoadEnds

variable {reply : IntelRequest → Reply} {cap size n : ℕ} {s : IntelState}
  {out : Except PyExc Unit × IntelState} {docs : List IntelDoc}

/-- What the dictionaries held before a page does not matter to what they hold in the end. -/
theorem of_indexes {ix : Indexes}
    (h : LoadEnds reply cap size (n + 1) ⟨s.cache, { s.matcher with indexes := ix }⟩ out docs) :
    LoadEnds reply cap size n s out docs where
  state := h.state
  served hpages := h.served fun m hm => hpages m (Nat.le_of_succ_le hm)
  returned hok hpages := h.returned hok fun m hm => hpages m (Nat.le_of_succ_le hm)
  isOk := h.isOk

/-- The loop ends by itself, at the end of the documents or where the `n`-th page is refused. -/
theorem setLoaded {k : ℕ} (hix : s.matcher.indexes = .ofDocs (s.cache.listed.take k))
    (hend : s.cache.listed.take k = s.cache.listed.take cap ∨
      n * size < (s.cache.listed.take cap).length ∧
        (reply (.load n)).result = .error .runtimeError) :
    LoadEnds reply cap size n s ((setMatcher fun m => { m with loaded := true }).run s)
      (s.cache.listed.take k) where
  state := by
    rw [run_setMatcher, ← hix]
    rfl
  served hpages := by
    rcases hend with hend | ⟨hlt, hrefused⟩
    · exact hend
    · rw [Reply.result_of_accepts (hpages n le_rfl hlt)] at hrefused
      exact absurd hrefused nofun
  returned _ hpages := by
    rcases hend with hend | ⟨hlt, hrefused⟩
    · exact hend
    · exact absurd hrefused (hpages n le_rfl hlt)
  isOk _ := rfl

/-- The loop is ended by an exception of the `n`-th page. -/
theorem raised {k : ℕ} {e : PyExc} (hix : s.matcher.indexes = .ofDocs (s.cache.listed.take k))
    (hreply : (reply (.load n)).result = .error e)
    (hend : (s.cache.listed.take cap).length ≤ n * size →
      s.cache.listed.take k = s.cache.listed.take cap) :
    LoadEnds reply cap size n s (.error e, s) (s.cache.listed.take k) where
  state := by
    rw [← hix]
    rfl
  served hpages := by
    refine hend (not_lt.mp fun hlt => ?_)
    rw [Reply.result_of_accepts (hpages n le_rfl hlt)] at hreply
    exact absurd hreply nofun
  returned hok := absurd hok nofun
  isOk hpages := by
    rw [Reply.result_of_accepts (hpages n)] at hreply
    exact absurd hreply nofun

end LoadEnds

/-- **What the loop over the pages does**, from a page whose documents before it are in the
dictionaries. -/
theorem loadPages_spec {reply : IntelRequest → Reply} {cap size : ℕ} (hsize : 0 < size) :
    (fuel n : ℕ) → (after : Option (Lex (PyStr × PyStr))) → (loaded : ℕ) → (s : IntelState) →
      Rest IntelDoc.sortKey s.cache.listed after (s.cache.listed.drop loaded) →
      loaded ≤ cap → cap ≤ loaded + fuel → (loaded < cap → loaded = n * size) →
      s.matcher.indexes = .ofDocs (s.cache.listed.take loaded) →
      ∃ docs, LoadEnds reply cap size n s
        ((loadPages reply cap size fuel n after loaded).run s) docs
  | 0, n, after, loaded, s, _, hle, hfuel, _, hix => by
      obtain rfl : loaded = cap := by omega
      exact ⟨_, LoadEnds.setLoaded hix (.inl rfl)⟩
  | fuel + 1, n, after, loaded, s, hrest, hle, hfuel, hn, hix => by
      rw [loadPages]
      by_cases hcap : cap ≤ loaded
      · obtain rfl : loaded = cap := by omega
        rw [if_pos hcap]
        exact ⟨_, LoadEnds.setLoaded hix (.inl rfl)⟩
      rw [if_neg hcap]
      have hnsize := hn (not_le.mp hcap)
      -- once the documents before the page are all there are, the dictionaries are complete
      have hall : (s.cache.listed.take cap).length ≤ loaded →
          s.cache.listed.take loaded = s.cache.listed.take cap := by
        intro h
        rw [List.length_take] at h
        rw [List.take_of_length_le (by omega), List.take_of_length_le (by omega)]
      have hpage := hrest.page_eq s.cache.pairwise_listed (min size (cap - loaded))
      have hsearch := EsWriter.run_searchOr (reply (.load n)) none (fun s : IntelState =>
        some (page IntelDoc.sortKey s.cache.listed after (min size (cap - loaded)))) s
      cases hr : (reply (.load n)).result with
      | error e =>
        rw [hr] at hsearch
        dsimp only at hsearch
        by_cases he : e = .runtimeError
        · rw [if_pos he] at hsearch
          rw [Prog.run_bind_of_ok hsearch]
          refine ⟨_, LoadEnds.setLoaded hix ?_⟩
          by_cases hlt : n * size < (s.cache.listed.take cap).length
          · exact .inr ⟨hlt, he ▸ hr⟩
          · exact .inl (hall (by omega))
        · rw [if_neg he] at hsearch
          rw [Prog.run_bind_of_error hsearch]
          exact ⟨_, LoadEnds.raised hix hr fun h => hall (by omega)⟩
      | ok u =>
        rw [hr] at hsearch
        dsimp only at hsearch
        rw [hpage] at hsearch
        rw [Prog.run_bind_of_ok hsearch]
        dsimp only
        set hits := (s.cache.listed.drop loaded).take (min size (cap - loaded)) with hhits
        have hlen : hits.length =
          min (min size (cap - loaded)) (s.cache.listed.length - loaded) := by
          rw [hhits, List.length_take, List.length_drop]
        cases hlast : hits.getLast? with
        | none =>
          rw [List.getLast?_eq_none_iff.mp hlast, List.length_nil] at hlen
          refine ⟨_, LoadEnds.setLoaded hix (.inl (hall ?_))⟩
          rw [List.length_take]
          omega
        | some last =>
          dsimp only
          have hnext : s.cache.listed.take loaded ++ hits =
              s.cache.listed.take (loaded + min size (cap - loaded)) := by
            rw [hhits, List.take_add]
          let s₁ : IntelState := ⟨s.cache, { s.matcher with
            indexes := .ofDocs (s.cache.listed.take (loaded + min size (cap - loaded))) }⟩
          have hstate : (setMatcher fun m => { m with indexes := m.indexes.addAll hits }).run s =
              (.ok (), s₁) := by
            rw [run_setMatcher, hix, Indexes.addAll_ofDocs, hnext]
          rw [Prog.run_bind_of_ok hstate]
          by_cases hshort : hits.length < min size (cap - loaded)
          · rw [if_pos hshort]
            have hdone : s.cache.listed.take (loaded + min size (cap - loaded)) =
                s.cache.listed.take cap := by
              rw [List.take_of_length_le (by omega), List.take_of_length_le (by omega)]
            have hend : LoadEnds reply cap size (n + 1) s₁
                ((setMatcher fun m => { m with loaded := true }).run s₁) _ :=
              LoadEnds.setLoaded rfl (.inl hdone)
            exact ⟨_, hend.of_indexes⟩
          · rw [if_neg hshort]
            have hfull : hits.length = min size (cap - loaded) := by omega
            have hrest' : Rest IntelDoc.sortKey s.cache.listed (some last.sortKey)
                (s.cache.listed.drop (loaded + min size (cap - loaded))) := by
              rw [← List.drop_drop]
              exact hrest.next hlast
            rw [hfull]
            have hrec : ∃ docs, LoadEnds reply cap size (n + 1) s₁ ((loadPages reply cap size fuel
                (n + 1) (some last.sortKey) (loaded + min size (cap - loaded))).run s₁) docs :=
              loadPages_spec hsize fuel (n + 1) (some last.sortKey) _ s₁ hrest' (by omega)
                (by omega) (fun h => by rw [Nat.succ_mul]; omega) rfl
            obtain ⟨docs, hdocs⟩ := hrec
            exact ⟨docs, hdocs.of_indexes⟩

/-- **What a load does.** -/
theorem loadIndexes_spec (reply : IntelRequest → Reply) (s : IntelState) :
    ∃ docs, LoadEnds reply loadCap loadPage 0 s ((loadIndexes reply).run s) docs := by
  let s₀ : IntelState := ⟨s.cache, { s.matcher with indexes := .empty }⟩
  have hspec : ∃ docs, LoadEnds reply loadCap loadPage 0 s₀
      ((loadPages reply loadCap loadPage loadCap 0 none 0).run s₀) docs :=
    loadPages_spec (by decide) loadCap 0 none 0 s₀ Rest.start (Nat.zero_le _) (by omega)
      (fun _ => (Nat.zero_mul _).symm) rfl
  obtain ⟨docs, h⟩ := hspec
  exact ⟨docs, h.state, h.served, h.returned, h.isOk⟩

end C2Engine.IntelMatcher
