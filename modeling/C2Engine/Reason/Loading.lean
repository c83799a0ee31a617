import C2Engine.Reason.Refresh

/-!
# Paged loading

`IntelMatcher._load_indexes` reads the cache page by page, each page behind the last document of the
one before, until it has read as many documents as the cap allows, or a page comes back short or
empty. Where its searches succeed it comes to an end for every cache, every size of a page and every
cap, and the documents it has put into the dictionaries are the first ones of the cache, each once.

The loop is `loadPages`; the pages it reads are those of the client `Store.Pages`.

## Main definitions

* `afterLoad`: the state with documents read into the dictionaries.

## Main results

* `run_loadPages_of_pages`: the loop puts the documents of its pages into the dictionaries.
* `loadPages_complete`: it reads each document up to the cap exactly once.
-/

namespace C2Engine.IntelMatcher

open Python Store

variable {reply : IntelRequest → Reply} {cap size : ℕ}

/-- The state with the documents read into the dictionaries, at the end of a load. -/
def afterLoad (s : IntelState) (docs : List IntelDoc) : IntelState :=
  ⟨s.cache, { s.matcher with indexes := s.matcher.indexes.addAll docs, loaded := true }⟩

/-- The loop ends by itself. -/
theorem run_setLoaded (s : IntelState) :
    (setMatcher fun m => { m with loaded := true }).run s = (.ok (), afterLoad s []) := rfl

/-- A page, and then what is left of the load. -/
theorem afterLoad_afterLoad (s : IntelState) (hits docs : List IntelDoc) :
    afterLoad ⟨s.cache, { s.matcher with indexes := s.matcher.indexes.addAll hits }⟩ docs =
      afterLoad s (hits ++ docs) := by
  rw [afterLoad, afterLoad, Indexes.addAll, Indexes.addAll, Indexes.addAll, List.foldl_append]

/-- A search that succeeds answers with its page. -/
theorem run_search_page (hreply : ∀ n, (reply (.load n)).accepts) (n : ℕ)
    (after : Option (Lex (PyStr × PyStr))) (size' : ℕ) (s : IntelState) :
    (EsWriter.searchOr (reply (.load n)) none fun s : IntelState =>
      some (page IntelDoc.sortKey s.cache.listed after size')).run s =
        (.ok (some (page IntelDoc.sortKey s.cache.listed after size')), s) := by
  rw [EsWriter.run_searchOr, Reply.result_of_accepts (hreply n)]

/-- **The loop reads the pages of its client**, and puts their documents into the dictionaries, one
after the other. -/
theorem run_loadPages_of_pages (hreply : ∀ n, (reply (.load n)).accepts) (hsize : 0 < size)
    {l : List IntelDoc} {after : Option (Lex (PyStr × PyStr))} {loaded : ℕ}
    {pages : List (List IntelDoc)} (h : Pages IntelDoc.sortKey l cap size after loaded pages)
    {s : IntelState} (hl : s.cache.listed = l) {fuel : ℕ} (hfuel : cap ≤ loaded + fuel) (n : ℕ) :
    (loadPages reply cap size fuel n after loaded).run s = (.ok (), afterLoad s pages.flatten) := by
  induction h generalizing s fuel n with
  | full hcap =>
    cases fuel with
    | zero => exact run_setLoaded s
    | succ fuel =>
      rw [loadPages, if_pos hcap]
      exact run_setLoaded s
  | @empty after loaded hlt hpage =>
    obtain ⟨fuel, rfl⟩ := Nat.exists_eq_succ_of_ne_zero (show fuel ≠ 0 by omega)
    rw [loadPages, if_neg (not_le.mpr hlt),
      Prog.run_bind_of_ok (run_search_page hreply n _ _ s), hl,
      hpage]
    exact run_setLoaded s
  | @short after loaded hlt hne hshort =>
    obtain ⟨fuel, rfl⟩ := Nat.exists_eq_succ_of_ne_zero (show fuel ≠ 0 by omega)
    rw [loadPages, if_neg (not_le.mpr hlt),
      Prog.run_bind_of_ok (run_search_page hreply n _ _ s), hl]
    dsimp only
    rw [List.getLast?_eq_some_getLast hne]
    dsimp only
    rw [Prog.run_bind_of_ok (run_setMatcher _ s), if_pos hshort, run_setLoaded,
      List.flatten_singleton,
      afterLoad_afterLoad, List.append_nil]
  | @next after loaded last pages hlt hlast hfull hpages ih =>
    obtain ⟨fuel, rfl⟩ := Nat.exists_eq_succ_of_ne_zero (show fuel ≠ 0 by omega)
    rw [loadPages, if_neg (not_le.mpr hlt),
      Prog.run_bind_of_ok (run_search_page hreply n _ _ s), hl]
    dsimp only
    rw [hlast]
    dsimp only
    set hits := page IntelDoc.sortKey l after (min size (cap - loaded)) with hhits
    let s₁ : IntelState := ⟨s.cache, { s.matcher with indexes := s.matcher.indexes.addAll hits }⟩
    have hrec : (loadPages reply cap size fuel (n + 1) (some last.sortKey)
        (loaded + min size (cap - loaded))).run s₁ = (.ok (), afterLoad s₁ pages.flatten) :=
      @ih s₁ hl fuel (by omega) (n + 1)
    rw [Prog.run_bind_of_ok (run_setMatcher _ s), if_neg hfull.not_lt, hfull, hrec,
      List.flatten_cons, afterLoad_afterLoad]

/-- A load comes to an end, whatever the size of a page and the cap are. -/
theorem exists_pages_cache (cap : ℕ) (hsize : 0 < size) (cache : IntelCache) :
    ∃ pages, Pages IntelDoc.sortKey cache.listed cap size none 0 pages ∧
      pages.flatten = cache.listed.take cap := by
  obtain ⟨pages, hpages⟩ :=
    @Pages.exists_pages IntelDoc _ _ IntelDoc.sortKey cache.listed cap size hsize none 0
  exact ⟨pages, hpages, hpages.flatten_eq cache.pairwise_listed hsize Rest.start⟩

theorem nodup_listed (cache : IntelCache) : cache.listed.Nodup :=
  cache.pairwise_listed.imp fun h heq => h.ne (congrArg IntelDoc.sortKey heq)

/-- **Paged loading is complete**: where its searches succeed, `_load_indexes` comes to an end,
after the pages of its client, and the documents on them, which it has put into the dictionaries one
after the other, are the first ones of the cache up to the cap, each once. -/
theorem loadPages_complete (hsize : 0 < size) (hreply : ∀ n, (reply (.load n)).accepts)
    (s : IntelState) :
    ∃ pages, Pages IntelDoc.sortKey s.cache.listed cap size none 0 pages ∧
      pages.flatten = s.cache.listed.take cap ∧ pages.flatten.Nodup ∧
      pages.flatten.length = min cap s.cache.docs.length ∧
      ∀ fuel, cap ≤ fuel → (loadPages reply cap size fuel 0 none 0).run s =
        (.ok (), afterLoad s pages.flatten) := by
  obtain ⟨pages, hpages, hflat⟩ := exists_pages_cache cap hsize s.cache
  have hlen : s.cache.listed.length = s.cache.docs.length := Index.length_sorted
  refine ⟨pages, hpages, hflat, ?_, ?_, fun fuel hfuel => ?_⟩
  · rw [hflat]
    exact (nodup_listed s.cache).sublist (List.take_sublist _ _)
  · rw [hflat, List.length_take, hlen]
  · exact run_loadPages_of_pages hreply hsize hpages rfl (by omega) 0

/-- Two documents with one value, as many as the cap, read in pages of one. -/
theorem loadPages_complete_two :
    let d : IntelDoc := ⟨⟨.feodo, .ip, str "192.0.2.1", [], [], some (str "192.0.2.1")⟩, 1780000000⟩
    let s : IntelState :=
      ⟨⟨[{ d with source := .threatfox }, d], by decide⟩, ⟨true, [], 0, 0, .empty, false, []⟩⟩
    ∃ pages, Pages IntelDoc.sortKey s.cache.listed 2 1 none 0 pages ∧
      pages.flatten = s.cache.listed.take 2 ∧ pages.flatten.Nodup ∧
      pages.flatten.length = min 2 s.cache.docs.length ∧
      ∀ fuel, 2 ≤ fuel → (loadPages (fun _ => .done) 2 1 fuel 0 none 0).run s =
        (.ok (), afterLoad s pages.flatten) :=
  loadPages_complete Nat.one_pos (fun _ => rfl) _

end C2Engine.IntelMatcher
