import C2Engine.Reason.Pass
import C2Engine.Reason.Refresh

/-!
# What a feed body can do to a pass

The download of a feed catches what goes wrong on the way, but the text is parsed outside of the
guard: a text the parser does not read raises out of the refresh and ends the pass. Where every
text can be read and Elasticsearch answers, the refresh returns, and the pass goes on to the
entities.

## Main results

* `total_turns`, `isOk_refresh`: the refresh returns.
* `feed_body_harmless_iff`: a text lets the download, the refresh and the pass go on exactly if the
  parser of its feed reads it.
-/

namespace C2Engine

open Python Store

namespace IntelMatcher

variable {rt : Runtime} {env : IntelEnv}

/-- The download of the `i`-th feed does not break, and its text can be read. -/
def DownloadReadable (rt : Runtime) (env : IntelEnv) (i : ℕ) (source : Source) : Prop :=
  env.download i ≠ .broken ∧ ∀ text, env.download i = .body text → FeedReadable rt source text

/-- A turn returns where its requests are accepted and its download can be read. -/
theorem total_turn (hreply : ∀ r, (env.reply r).accepts) {i : ℕ} {source : Source}
    (hdownload : DownloadReadable rt env i source) : (turn rt env i source).Total := by
  intro s
  rcases turn_cases rt env i source s with
    ⟨recs, -, hrun⟩ | ⟨-, enabled, r, hrun, ⟨rfl, -⟩ | ⟨-, hfails⟩⟩
  · have hstored : storeResult (env.reply (.bulk i)) (env.reply (.purge i)) recs = .ok () := by
      rw [storeResult, if_pos (by simp [hreply]), Reply.result_of_accepts (hreply _)]
    rw [hrun, afterStore, hstored]
    rfl
  · rw [hrun]
    rfl
  · rcases hfails with hlatest | ⟨-, hbad⟩
    · rw [latestOf, Reply.result_of_accepts (hreply _)] at hlatest
      cases hlatest
    · exact absurd hdownload hbad

/-- The loop over the feeds returns where every turn does. -/
theorem total_turns (hreply : ∀ r, (env.reply r).accepts) : (feeds : List Source) → (i : ℕ) →
    (changed : Bool) → (∀ j source, feeds[j]? = some source →
      DownloadReadable rt env (i + j) source) → (turns rt env i feeds changed).Total
  | [], _, changed, _ => .pure changed
  | source :: feeds, i, changed, h => by
      refine .bind (total_turn hreply (h 0 source rfl)) fun stored => ?_
      refine total_turns hreply feeds (i + 1) (changed || stored) fun j source' hj => ?_
      rw [Nat.add_right_comm, Nat.add_assoc]
      exact h (j + 1) source' hj

/-- A load returns where its requests are accepted. -/
theorem total_loadIndexes {reply : IntelRequest → Reply} (hreply : ∀ r, (reply r).accepts) :
    (loadIndexes reply).Total := by
  intro s
  obtain ⟨docs, h⟩ := loadIndexes_spec reply s
  exact h.isOk fun n => hreply (.load n)

/-- **The refresh returns** where its requests are accepted and every feed can be read. -/
theorem isOk_refresh (hreply : ∀ r, (env.reply r).accepts) {s : IntelState}
    (hfeeds : ∀ i source, s.matcher.feeds[i]? = some source → DownloadReadable rt env i source) :
    ((refresh rt env).run s).1.isOk := by
  rw [run_refresh]
  split_ifs
  · refine Prog.Total.bind (total_turns hreply _ 0 false fun j source hj => ?_) (fun changed =>
      .bind .get fun s => ?_) _
    · rw [Nat.zero_add]
      exact hfeeds j source hj
    · split_ifs
      · exact total_loadIndexes hreply
      · exact .pure ()
  · rfl

end IntelMatcher

variable {rt : Runtime}

/-- **A feed body goes through exactly if it can be read.** Then its download returns in every
state, and in every pass in which Elasticsearch answers and the other feeds can be read, the refresh
returns and the entities are updated. -/
theorem feed_body_harmless_iff (source : Source) (text : PyStr) :
    ((∀ s, ((IntelMatcher.fetch rt source (.body text)).run s).1.isOk) ∧
      ∀ (env : ReasonEnv) (w : World), (checkWindow env).isOk → (∀ r, (env.intelReply r).accepts) →
        (∀ i, env.download i ≠ .broken) →
        (∀ i source' text', w.intel.matcher.feeds[i]? = some source' →
          env.download i = .body text' →
            FeedReadable rt source' text' ∨ source' = source ∧ text' = text) →
        ∃ intel vt, (IntelMatcher.refresh rt env.intel).run w.intel = (.ok (), intel) ∧
          (runOnce rt env).run w =
            (updateEntities rt env).run { w with intel := intel, vt := vt }) ↔
      FeedReadable rt source text := by
  constructor
  · rintro ⟨hfetch, -⟩
    let s : IntelState := (World.ofLedger []).intel
    exact ((IntelMatcher.isOk_fetch source (.body text) s).mp (hfetch s)).2 text rfl
  · intro hread
    refine ⟨fun s => ?_, fun env w hwindow hreply hbroken hfeeds => ?_⟩
    · refine (IntelMatcher.isOk_fetch source (.body text) s).mpr ⟨nofun, fun text' htext' => ?_⟩
      rwa [← Download.body.inj htext']
    · have hrefresh : ((IntelMatcher.refresh rt env.intel).run w.intel).1.isOk := by
        refine IntelMatcher.isOk_refresh hreply fun i source' hi =>
          ⟨hbroken i, fun body hbody => ?_⟩
        rcases hfeeds i source' body hi hbody with h | ⟨rfl, rfl⟩
        · exact h
        · exact hread
      rcases runOnce_cases rt env w with ⟨e, intel, vt, -, hcause⟩ | ⟨intel, vt, hok, hrun⟩
      · rcases hcause with h | h
        · exact absurd hwindow (by simp [h])
        · exact absurd hrefresh (by simp [h])
      · exact ⟨intel, vt, hok, hrun⟩

/-- A blocklist with an item that is no object raises out of the download, and no entity is written
in that pass. -/
theorem not_feed_body_harmless :
    let w := World.ofLedger [{ c2Host := str "192.0.2.1", ts := 1780000000000, evidenceRank := 2 }]
    let matcher := { w.intel.matcher with enabled := true, feeds := [.feodo] }
    let env := { ReasonEnv.basic (1780000005 * usPerSecond) with
      download := fun _ => .body (str "[1]") }
    let out := (runOnce .basic env).run { w with intel := ⟨w.intel.cache, matcher⟩ }
    ((IntelMatcher.fetch .basic .feodo (.body (str "[1]"))).run w.intel).1.isOk = false ∧
      out.1 = .error .attributeError ∧ out.2.entities.docs.length = 0 := by
  decide +kernel

end C2Engine
