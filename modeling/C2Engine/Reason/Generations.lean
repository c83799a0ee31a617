import C2Engine.Reason.Refresh

/-!
# Generations of a feed in the cache

A turn of a feed writes the indicators it downloaded and then purges those of the feed that do not
carry its stamp. Whether the write took effect is judged by the status of the bulk request alone,
and a download from which nothing is parsed is written like any other, so that the purge can take
out indicators no new generation stands for.

A turn keeps the indicators of its feed exactly if the purge is not sent, or finds none that was not
just stamped again, or does not reach those it finds. Turns of other feeds and the loading of the
index leave them as they are.

## Main definitions

* `Kept`: every indicator of a feed is still cached.
* `Complete`: a turn stores a whole new generation.
* `Spares`: the purge of a turn takes out nothing that was not stored again.
* `EachTurn`: something holds of each turn of a refresh.

## Main results

* `kept_turn_iff`: a turn keeps the indicators of its feed exactly if it spares them.
* `mem_cache_turn_of_ne`: a turn leaves the indicators of other feeds as they are.
* `kept_refresh_iff`: the statement about a refresh.
-/

namespace C2Engine.IntelMatcher

open Python Store

variable {rt : Runtime} {env : IntelEnv}

/-- Indicators of different feeds have different identifiers. -/
theorem id_ne_of_source_ne {d e : IntelDoc} (h : d.source ≠ e.source) : d.id ≠ e.id := by
  intro hid
  have hhead : (d.source.name).head? = (e.source.name).head? := by
    have hcons : ∀ s : Source, ∀ v, (IntelDoc.idOf s v).head? = s.name.head? := by
      intro s v
      cases s <;> rfl
    rw [← hcons d.source d.value, ← hcons e.source e.value]
    exact congrArg List.head? hid
  revert h hhead
  cases d.source <;> cases e.source <;> decide

/-- Every indicator of a feed that was cached before is cached. -/
def Kept (source : Source) (cache cache' : IntelCache) : Prop :=
  ∀ d ∈ cache, d.source = source → ∃ e ∈ cache', e.id = d.id

theorem Kept.refl (source : Source) (cache : IntelCache) : Kept source cache cache :=
  fun d hd _ => ⟨d, hd, rfl⟩

theorem Kept.trans {source : Source} {c₁ c₂ c₃ : IntelCache} (h : Kept source c₁ c₂)
    (h' : Kept source c₂ c₃) : Kept source c₁ c₃ := by
  intro d hd hs
  obtain ⟨e, he, hid⟩ := h d hd hs
  have hes : e.source = source := by
    by_contra hne
    exact id_ne_of_source_ne (by rwa [hs]) hid
  obtain ⟨e', he', hid'⟩ := h' e he hes
  exact ⟨e', he', hid'.trans hid⟩

/-! ### What a turn does to the cache -/

/-- The turn stores a whole new generation: it downloads indicators, and the bulk request stores
each of them. -/
def Complete (rt : Runtime) (env : IntelEnv) (i : ℕ) (source : Source) (s : IntelState) : Prop :=
  ∃ recs, Downloads rt env i source s recs ∧ recs ≠ [] ∧ (env.reply (.bulk i)).accepts ∧
    (env.reply (.bulk i)).stored IntelDoc.id (stamped s.matcher.now recs) =
      stamped s.matcher.now recs

/-- Storing a download takes out nothing that is not stored again: the purge is not sent, because
the bulk request was not accepted, or each cached indicator of the feed carries the present stamp,
is stored again, or is not reached by the purge. -/
def StoreSpares (bulk purge : Reply) (source : Source) (now : ℤ) (recs : List Ioc)
    (cache : IntelCache) : Prop :=
  recs ≠ [] ∧ ¬ bulk.accepts ∨
  ∀ d ∈ cache, d.source = source → d.fetchedAt = stamp now ∨
    (∃ e ∈ bulk.stored IntelDoc.id (stamped now recs), e.id = d.id) ∨
    (purge.accepts || purge.applied 0 d.id) = false

/-- The turn takes out nothing it does not store. -/
def Spares (rt : Runtime) (env : IntelEnv) (i : ℕ) (source : Source) (s : IntelState) : Prop :=
  ∀ recs, Downloads rt env i source s recs →
    StoreSpares (env.reply (.bulk i)) (env.reply (.purge i)) source s.matcher.now recs s.cache

theorem source_of_mem_parseFeed {source : Source} {text : PyStr} {recs : List Ioc}
    (h : parseFeed rt source text = .ok recs) : ∀ r ∈ recs, r.source = source := by
  intro r hr
  obtain ⟨iocType, value, malware, tags, hioc, -⟩ := exists_ioc_of_mem_parseFeed h hr
  rw [ioc, bind_eq_ok] at hioc
  obtain ⟨host, -, hpure⟩ := hioc
  cases hpure
  rfl

/-- What a bulk request stores belongs to the feed and carries the present stamp. -/
theorem of_mem_stored {i : ℕ} {source : Source} {s : IntelState} {recs : List Ioc}
    (h : Downloads rt env i source s recs) {bulk : Reply} {e : IntelDoc}
    (he : e ∈ bulk.stored IntelDoc.id (stamped s.matcher.now recs)) :
    e.source = source ∧ e.fetchedAt = stamp s.matcher.now := by
  obtain ⟨r, hr, rfl⟩ := List.mem_map.mp (Reply.stored_subset he)
  obtain ⟨-, text, -, hparse⟩ := h
  exact ⟨source_of_mem_parseFeed hparse r hr, rfl⟩

/-- A download keeps the indicators of its feed exactly if its turn takes out nothing it does not
store. -/
theorem kept_storeEffect_iff {i : ℕ} {source : Source} {s : IntelState} {recs : List Ioc}
    (h : Downloads rt env i source s recs) :
    Kept source s.cache (storeEffect (env.reply (.bulk i)) (env.reply (.purge i)) source
        s.matcher.now recs s.cache) ↔
      StoreSpares (env.reply (.bulk i)) (env.reply (.purge i)) source s.matcher.now recs
        s.cache := by
  set stored := (env.reply (.bulk i)).stored IntelDoc.id (stamped s.matcher.now recs) with hstored
  have hput : ∀ d ∈ s.cache, ∃ e ∈ s.cache.putAll stored, e.id = d.id ∧ (e ∈ stored ∨ e = d) := by
    intro d hd
    obtain ⟨e, he, hid⟩ := Index.exists_mem_putAll_iff.mpr (.inr ⟨d, hd, rfl⟩)
    refine ⟨e, he, hid, (Index.mem_or_mem_of_mem_putAll he).imp_right fun hold => ?_⟩
    exact s.cache.eq_of_idOf_eq hold.1 hd hid
  by_cases hsent : recs.isEmpty || (env.reply (.bulk i)).accepts
  · rw [storeEffect, if_pos hsent, purgeEffect, bulkEffect]
    have hnot : ¬ (recs ≠ [] ∧ ¬ (env.reply (.bulk i)).accepts) := by
      rintro ⟨hne, hrej⟩
      simp [hne, hrej] at hsent
    rw [StoreSpares, or_iff_right hnot, ← hstored]
    constructor
    · intro hkept d hd hsource
      obtain ⟨e, he, hid⟩ := hkept d hd hsource
      obtain ⟨he, hstays⟩ := Index.mem_deleteWhere.mp he
      rcases Index.mem_or_mem_of_mem_putAll he with he | ⟨he, -⟩
      · exact .inr (.inl ⟨e, he, hid⟩)
      · obtain rfl := s.cache.eq_of_idOf_eq he hd hid
        rcases Bool.and_eq_false_iff.mp hstays with hfresh | hreach
        · exact .inl (by simpa [outdated, hsource] using hfresh)
        · exact .inr (.inr hreach)
    · intro hspares d hd hsource
      obtain ⟨e, he, hid, hcase⟩ := hput d hd
      refine ⟨e, Index.mem_deleteWhere.mpr ⟨he, ?_⟩, hid⟩
      have hagain : e ∈ stored → (outdated source s.matcher.now e &&
          ((env.reply (.purge i)).accepts || (env.reply (.purge i)).applied 0 e.id)) = false := by
        intro hmem
        simp [outdated, (of_mem_stored h hmem).2]
      rcases hcase with hmem | rfl
      · exact hagain hmem
      · rcases hspares e hd hsource with hstamp | ⟨e', he', hid'⟩ | hreach
        · simp [outdated, hstamp]
        · rcases Index.mem_or_mem_of_mem_putAll he with hmem | ⟨-, hnone⟩
          · exact hagain hmem
          · exact absurd hid' (hnone e' he')
        · rw [hreach, Bool.and_false]
  · rw [storeEffect, if_neg hsent, bulkEffect]
    refine iff_of_true (fun d hd _ => ?_) (.inl (by simpa using hsent))
    obtain ⟨e, he, hid, -⟩ := hput d hd
    exact ⟨e, he, hid⟩

theorem cache_afterStore (i : ℕ) (source : Source) (recs : List Ioc) (s : IntelState) :
    (afterStore env i source recs s).2.cache = storeEffect (env.reply (.bulk i))
      (env.reply (.purge i)) source s.matcher.now recs s.cache := by
  rw [afterStore]
  cases storeResult (env.reply (.bulk i)) (env.reply (.purge i)) recs <;> rfl

/-- **A turn keeps the indicators of its feed exactly if it spares them.** -/
theorem kept_turn_iff (i : ℕ) (source : Source) (s : IntelState) :
    Kept source s.cache ((turn rt env i source).run s).2.cache ↔ Spares rt env i source s := by
  rcases turn_cases rt env i source s with ⟨recs, hdown, hrun⟩ | ⟨hnone, enabled, r, hrun, -⟩
  · rw [hrun, cache_afterStore, kept_storeEffect_iff hdown]
    constructor
    · intro h recs' hdown'
      obtain ⟨-, text, hbody, hparse⟩ := hdown
      obtain ⟨-, text', hbody', hparse'⟩ := hdown'
      rw [hbody, Download.body.injEq] at hbody'
      subst hbody'
      rw [hparse, Except.ok.injEq] at hparse'
      exact hparse' ▸ h
    · exact fun h => h recs hdown
  · rw [hrun]
    exact iff_of_true (Kept.refl source s.cache) fun recs hdown => absurd hdown (hnone recs)

/-- **A turn leaves the indicators of other feeds as they are.** -/
theorem mem_cache_turn_of_ne {i : ℕ} {source : Source} {s : IntelState} {d : IntelDoc}
    (h : d.source ≠ source) :
    d ∈ ((turn rt env i source).run s).2.cache ↔ d ∈ s.cache := by
  rcases turn_cases rt env i source s with ⟨recs, hdown, hrun⟩ | ⟨-, enabled, r, hrun, -⟩
  · rw [hrun, cache_afterStore]
    set stored := (env.reply (.bulk i)).stored IntelDoc.id (stamped s.matcher.now recs)
    have hput : d ∈ s.cache.putAll stored ↔ d ∈ s.cache := by
      constructor
      · intro hd
        rcases Index.mem_or_mem_of_mem_putAll hd with hd | ⟨hd, -⟩
        · exact absurd (of_mem_stored hdown hd).1 h
        · exact hd
      · intro hd
        refine Index.mem_putAll.mpr (.inr ⟨hd, fun e he => id_ne_of_source_ne ?_⟩)
        rw [(of_mem_stored hdown he).1]
        exact h.symm
    rw [storeEffect]
    split_ifs
    · rw [purgeEffect, bulkEffect, Index.mem_deleteWhere, hput]
      simp [outdated, h]
    · exact hput
  · rw [hrun]

/-! ### The refresh -/

/-- Something holds of each turn a loop over the feeds comes to, in the state it starts from. -/
def EachTurn (rt : Runtime) (env : IntelEnv) (P : ℕ → Source → IntelState → Prop) :
    (i : ℕ) → List Source → IntelState → Prop
  | _, [], _ => True
  | i, source :: feeds, s => P i source s ∧ (((turn rt env i source).run s).1.isOk →
      EachTurn rt env P (i + 1) feeds ((turn rt env i source).run s).2)

/-- Something holds of each turn a refresh comes to. -/
def EachTurnOfRefresh (rt : Runtime) (env : IntelEnv) (P : ℕ → Source → IntelState → Prop)
    (s : IntelState) : Prop :=
  s.matcher.enabled → EachTurn rt env P 0 s.matcher.feeds
    ⟨s.cache, { s.matcher with now := env.now, refreshed := [] }⟩

/-- The loop over the feeds, by its first turn. -/
theorem run_turns_cons (i : ℕ) (source : Source) (feeds : List Source) (changed : Bool)
    (s : IntelState) :
    (((turn rt env i source).run s).1.isOk = false ∧
      ((turns rt env i (source :: feeds) changed).run s).2 = ((turn rt env i source).run s).2) ∨
    ((turn rt env i source).run s).1.isOk ∧ ∃ changed',
      (turns rt env i (source :: feeds) changed).run s =
        (turns rt env (i + 1) feeds changed').run ((turn rt env i source).run s).2 := by
  rcases hrun : (turn rt env i source).run s with ⟨e | stored, s'⟩
  · refine .inl ⟨rfl, ?_⟩
    rw [turns, Prog.run_bind_of_error hrun]
  · refine .inr ⟨rfl, changed || stored, ?_⟩
    rw [turns, Prog.run_bind_of_ok hrun]

/-- A refresh leaves what its turns leave, but for the dictionaries. -/
theorem refresh_cases (s : IntelState) : ∃ indexes loaded, ((refresh rt env).run s).2 =
    let s₀ : IntelState := ⟨s.cache, { s.matcher with now := env.now, refreshed := [] }⟩
    let s' := if s.matcher.enabled then ((turns rt env 0 s.matcher.feeds false).run s₀).2 else s₀
    ⟨s'.cache, { s'.matcher with indexes := indexes, loaded := loaded }⟩ := by
  let s₀ : IntelState := ⟨s.cache, { s.matcher with now := env.now, refreshed := [] }⟩
  rw [run_refresh]
  dsimp only
  split_ifs with henabled
  · rcases hturns : (turns rt env 0 s.matcher.feeds false).run s₀ with ⟨e | changed, s₁⟩
    · rw [Prog.run_bind_of_error hturns]
      exact ⟨_, _, rfl⟩
    · rw [Prog.run_bind_of_ok hturns, Prog.run_bind, Prog.run_get]
      dsimp only
      split_ifs
      · obtain ⟨docs, h⟩ := loadIndexes_spec env.reply s₁
        exact ⟨_, _, h.state⟩
      · exact ⟨_, _, rfl⟩
  · exact ⟨_, _, rfl⟩

/-- A refresh leaves the cache its turns leave. -/
theorem cache_refresh (s : IntelState) : ((refresh rt env).run s).2.cache =
    if s.matcher.enabled then ((turns rt env 0 s.matcher.feeds false).run
      ⟨s.cache, { s.matcher with now := env.now, refreshed := [] }⟩).2.cache else s.cache := by
  obtain ⟨indexes, loaded, hrun⟩ := @refresh_cases rt env s
  rw [hrun]
  dsimp only
  split_ifs <;> rfl

variable {source : Source}

theorem eachTurn_of_notMem {Q : ℕ → IntelState → Prop} : (feeds : List Source) → (i : ℕ) →
    (s : IntelState) → source ∉ feeds →
      EachTurn rt env (fun i source' s => source' = source → Q i s) i feeds s
  | [], _, _, _ => trivial
  | source' :: feeds, i, s, h => by
      obtain ⟨hne, hnotMem⟩ := not_or.mp (mt List.mem_cons.mpr h)
      exact ⟨fun heq => absurd heq.symm hne, fun _ => eachTurn_of_notMem feeds (i + 1) _ hnotMem⟩

/-- The loop leaves the indicators of a feed that is not in its list as they are. -/
theorem mem_cache_turns_of_notMem {d : IntelDoc} : (feeds : List Source) → (i : ℕ) →
    (changed : Bool) → (s : IntelState) → d.source ∉ feeds →
      (d ∈ ((turns rt env i feeds changed).run s).2.cache ↔ d ∈ s.cache)
  | [], _, _, _, _ => Iff.rfl
  | source' :: feeds, i, changed, s, h => by
      obtain ⟨hne, hnotMem⟩ := not_or.mp (mt List.mem_cons.mpr h)
      rcases run_turns_cons i source' feeds changed s with ⟨-, hrun⟩ | ⟨-, changed', hrun⟩
      · rw [hrun, mem_cache_turn_of_ne hne]
      · rw [hrun, mem_cache_turns_of_notMem feeds (i + 1) changed' _ hnotMem,
          mem_cache_turn_of_ne hne]

/-- A loop whose turns of a feed spare its indicators keeps them. -/
theorem kept_turns : (feeds : List Source) → (i : ℕ) → (changed : Bool) → (s : IntelState) →
    EachTurn rt env (fun i source' s => source' = source → Spares rt env i source s) i feeds s →
      Kept source s.cache ((turns rt env i feeds changed).run s).2.cache
  | [], _, _, s, _ => Kept.refl source s.cache
  | source' :: feeds, i, changed, s, ⟨hturn, hrest⟩ => by
      have hfirst : Kept source s.cache ((turn rt env i source').run s).2.cache := by
        by_cases heq : source' = source
        · rw [heq, kept_turn_iff]
          exact hturn heq
        · intro d hd hsource
          exact ⟨d, (mem_cache_turn_of_ne fun h => heq (h.symm.trans hsource)).mpr hd, rfl⟩
      rcases run_turns_cons i source' feeds changed s with ⟨-, hrun⟩ | ⟨hok, changed', hrun⟩
      · rw [hrun]
        exact hfirst
      · rw [hrun]
        exact hfirst.trans (kept_turns feeds (i + 1) changed' _ (hrest hok))

theorem EachTurn.imp₂ {P Q R : ℕ → Source → IntelState → Prop}
    (himp : ∀ i source s, P i source s → Q i source s → R i source s) : {feeds : List Source} →
    {i : ℕ} → {s : IntelState} → EachTurn rt env P i feeds s → EachTurn rt env Q i feeds s →
      EachTurn rt env R i feeds s
  | [], _, _, _, _ => trivial
  | _ :: _, _, _, ⟨hp, hps⟩, ⟨hq, hqs⟩ =>
    ⟨himp _ _ _ hp hq, fun hok => (hps hok).imp₂ himp (hqs hok)⟩

/-- A loop that comes to a feed once and keeps its indicators, unless it stores a whole new
generation: its turn stores one or spares the indicators. -/
theorem complete_or_spares_of_kept : (feeds : List Source) → (i : ℕ) → (changed : Bool) →
    (s : IntelState) → feeds.count source ≤ 1 →
      (EachTurn rt env (fun i source' s => source' = source →
        ¬ Complete rt env i source s) i feeds s →
        Kept source s.cache ((turns rt env i feeds changed).run s).2.cache) →
      EachTurn rt env (fun i source' s => source' = source →
        Complete rt env i source s ∨ Spares rt env i source s) i feeds s
  | [], _, _, _, _, _ => trivial
  | source' :: feeds, i, changed, s, hcount, hkept => by
      by_cases heq : source' = source
      · subst heq
        have hnotMem : source' ∉ feeds := by
          rw [List.count_cons_self] at hcount
          exact List.count_eq_zero.mp (by omega)
        refine ⟨fun _ => or_iff_not_imp_left.mpr fun hincomplete => ?_, fun _ =>
          eachTurn_of_notMem feeds (i + 1) _ hnotMem⟩
        rw [← kept_turn_iff]
        have hfinal := hkept ⟨fun _ => hincomplete, fun _ =>
          eachTurn_of_notMem feeds (i + 1) _ hnotMem⟩
        rcases run_turns_cons i source' feeds changed s with ⟨-, hrun⟩ | ⟨-, changed', hrun⟩
        · rwa [hrun] at hfinal
        · -- the turns that follow are of other feeds
          intro d hd hsource
          obtain ⟨e, he, hid⟩ := hfinal d hd hsource
          have hes : e.source = source' := by
            by_contra hne
            exact id_ne_of_source_ne (hsource ▸ hne) hid
          rw [hrun, mem_cache_turns_of_notMem feeds (i + 1) changed' _ (hes ▸ hnotMem)] at he
          exact ⟨e, he, hid⟩
      · refine ⟨fun h => absurd h heq, fun hok => ?_⟩
        rcases run_turns_cons i source' feeds changed s with ⟨herr, -⟩ | ⟨-, changed', hrun⟩
        · rw [hok] at herr
          exact absurd herr nofun
        · refine complete_or_spares_of_kept feeds (i + 1) changed' _ ?_ fun hincomplete => ?_
          · rwa [List.count_cons_of_ne heq] at hcount
          · have hfinal := hkept ⟨fun h => absurd h heq, fun _ => hincomplete⟩
            rw [hrun] at hfinal
            intro d hd hsource
            exact hfinal d ((mem_cache_turn_of_ne fun h =>
              heq (h.symm.trans hsource)).mp hd) hsource

/-- **A refresh keeps the indicators of a feed unless it stores a whole new generation**, if each of
its turns of the feed stores one or spares the indicators, and, where it comes to the feed once,
only if. -/
theorem kept_refresh_iff (rt : Runtime) (env : IntelEnv) (source : Source) (s : IntelState) :
    let keeps := EachTurnOfRefresh rt env (fun i source' s =>
        source' = source → ¬ Complete rt env i source s) s →
      Kept source s.cache ((refresh rt env).run s).2.cache
    let harmless := EachTurnOfRefresh rt env (fun i source' s =>
      source' = source → Complete rt env i source s ∨ Spares rt env i source s) s
    (harmless → keeps) ∧ (s.matcher.feeds.count source ≤ 1 → keeps → harmless) := by
  let s₀ : IntelState := ⟨s.cache, { s.matcher with now := env.now, refreshed := [] }⟩
  dsimp only [EachTurnOfRefresh]
  rw [cache_refresh]
  constructor
  · intro hharmless hincomplete
    split_ifs with henabled
    · refine @kept_turns rt env source s.matcher.feeds 0 false s₀ ?_
      exact (hharmless henabled).imp₂ (fun i source' s hor hnot heq =>
        (hor heq).resolve_left (hnot heq)) (hincomplete henabled)
    · exact Kept.refl source s.cache
  · intro hcount hkeeps henabled
    rw [if_pos henabled] at hkeeps
    exact complete_or_spares_of_kept s.matcher.feeds 0 false s₀ hcount fun hincomplete =>
      hkeeps fun _ => hincomplete

/-- An error page in the place of a feed empties the cache of the feed. -/
theorem not_kept_error_page :
    let ioc : IntelDoc := ⟨⟨.threatfox, .domain, str "c2.example", [], [], some (str "c2.example")⟩,
      1770000000⟩
    let s : IntelState :=
      ⟨⟨[ioc], by decide⟩, ⟨true, [.threatfox], 6 * 3600 * usPerSecond, 0, .empty,
      false, []⟩⟩
    let env : IntelEnv := ⟨1780000000 * usPerSecond, fun _ => .done,
      fun _ => .body (str "<html><body>502 Bad Gateway</body></html>")⟩
    (∀ recs, Downloads .basic env 0 .threatfox s recs → recs = []) ∧
      ¬ Kept .threatfox s.cache ((refresh .basic env).run s).2.cache := by
  intro ioc s env
  constructor
  · rintro recs ⟨-, text, hbody, hparse⟩
    cases hbody
    have hnothing : parseFeed .basic .threatfox
        (str "<html><body>502 Bad Gateway</body></html>") = .ok [] := by
      decide +kernel
    rw [hnothing, Except.ok.injEq] at hparse
    exact hparse.symm
  · intro hkept
    obtain ⟨e, he, -⟩ := hkept ioc List.mem_cons_self rfl
    have hempty : ((refresh .basic env).run s).2.cache.docs = [] := by
      decide +kernel
    rw [← Index.mem_docs, hempty] at he
    exact absurd he List.not_mem_nil

end C2Engine.IntelMatcher
