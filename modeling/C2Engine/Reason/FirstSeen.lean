import C2Engine.Reason.View
import C2Engine.Machine.Trace

/-!
# The first sighting of an entity

A pass takes the first sighting of an entity from the rows in its window. So the first sighting
moves forward in a pass that rewrites the entity from later rows, when the row of the first sighting
has left the window, and in no other.

## Main definitions

* `JobStep`: what happens in a run of the job.
* `KeepsFirstSeen`: no first sighting moved forward.
* `ReachesBack`: the window of a pass reaches back to the first sightings of its hosts.

## Main results

* `History.firstSeen_mem`: the invariant of the entities.
* `keepsFirstSeen_of_reachesBack`, `reachesBack_of_keepsFirstSeen`: one pass.
* `keepsFirstSeen_run`: the statement about runs.
-/

namespace C2Engine

open Python Store Machine

variable {rt : Runtime} {env : ReasonEnv}

/-- Each entity was first seen at the time of a row of its host. -/
theorem History.firstSeen_mem {w : World} (h : History rt w) :
    ∀ e ∈ w.entities, ∃ r ∈ w.ledger, r.c2Host = e.c2Host ∧ r.ts = e.firstSeen := by
  refine h.forall_entities
    (P := fun ledger e => ∃ r ∈ ledger, r.c2Host = e.c2Host ∧ r.ts = e.firstSeen)
    (fun ⟨r, hr, heq⟩ => ⟨r, List.mem_append_left _ hr, heq⟩) ?_
  intro env since ledger host e hof hhost
  obtain ⟨r, hr, hts⟩ := (hof.isRollup hhost).firstSeen.1
  obtain ⟨hr, hrhost, -⟩ := mem_hostRows.mp hr
  exact ⟨r, hr, hrhost.trans hof.c2Host.symm, hts⟩

/-! ### One pass -/

/-- No entity that is still there has its first sighting later. -/
def KeepsFirstSeen (w w' : World) : Prop :=
  ∀ e ∈ w.entities, ∀ e' ∈ w'.entities, e'.c2Host = e.c2Host → e'.firstSeen ≤ e.firstSeen

/-- The window of a pass reaches back to the first sighting of each entity whose host it shows. -/
def ReachesBack (env : ReasonEnv) (w : World) : Prop :=
  ∀ e ∈ w.entities, e.c2Host ∈ windowHosts (windowStart env.now) w.ledger →
    windowStart env.now ≤ e.firstSeen

/-- A pass whose window reaches back keeps the first sightings, however it ends. -/
theorem keepsFirstSeen_of_reachesBack {w : World} (hw : History rt w) (h : ReachesBack env w) :
    KeepsFirstSeen w ((runOnce rt env).run w).2 := by
  intro e he e' he' hhost
  rcases (runOnce_frame rt env w).2 e' he' with hold | ⟨host, hin, hof⟩
  · exact le_of_eq (congrArg EntityDoc.firstSeen (w.entities.eq_of_idOf_eq hold he hhost))
  · -- the entity was rewritten from the rows in the window, that of the first sighting among them
    have hroll := hof.isRollup hin
    have hsame : e.c2Host = host := hhost.symm.trans hof.c2Host
    obtain ⟨r, hr, hrhost, hts⟩ := hw.firstSeen_mem e he
    have hstart : windowStart env.now ≤ r.ts := hts ▸ h e he (hsame ▸ hin)
    exact hroll.firstSeen.2 ⟨r, mem_hostRows.mpr ⟨hr, hrhost.trans hsame, hstart⟩, hts⟩

/-- A pass that returns and keeps the first sightings has a window that reaches back. -/
theorem reachesBack_of_keepsFirstSeen {w : World} (hw : History rt w)
    (hrun : ((runOnce rt env).run w).1.isOk) (h : KeepsFirstSeen w ((runOnce rt env).run w).2) :
    ReachesBack env w := by
  intro e he hin
  obtain ⟨hone, hroll⟩ := rollups_of_runOnce hw hrun
  obtain ⟨e', ⟨he', hhost⟩, -⟩ := (hone e.c2Host).mpr (mem_windowHosts.mp hin)
  obtain ⟨r, hr, hts⟩ := (hroll e' he').2.firstSeen.1
  calc windowStart env.now ≤ r.ts := (mem_hostRows.mp hr).2.2
    _ = e'.firstSeen := hts
    _ ≤ e.firstSeen := h e he e' he' hhost

/-! ### Runs -/

/-- What happens in a run of the job: rows are added to the ledger, and passes are made, which may
fail. -/
inductive JobStep where
  | append (rows : List LedgerRow)
  | pass (env : ReasonEnv)

namespace JobStep

/-- What a step makes of the state. -/
def perform (rt : Runtime) : JobStep → World → World
  | append rows, w => { w with ledger := w.ledger ++ rows }
  | pass env, w => ((runOnce rt env).run w).2

/-- The window of the pass, if it is one, reaches back. -/
def ReachesBack (w : World) : JobStep → Prop
  | append _ => True
  | pass env => C2Engine.ReachesBack env w

/-- The pass, if it is one, returns. -/
def Returns (rt : Runtime) (w : World) : JobStep → Prop
  | append _ => True
  | pass env => ((runOnce rt env).run w).1.isOk

/-- The time of the pass, if it is one. -/
def time : JobStep → Option ℤ
  | append _ => none
  | pass env => some env.now

theorem history {w : World} (hw : History rt w) (step : JobStep) :
    History rt (step.perform rt w) := by
  cases step with
  | append rows => exact hw.append rows
  | pass env => exact hw.pass env

/-- A step whose window reaches back keeps the first sightings. -/
theorem keepsFirstSeen {w : World} (hw : History rt w) (step : JobStep) (h : step.ReachesBack w) :
    KeepsFirstSeen w (step.perform rt w) := by
  cases step with
  | append rows =>
    intro e he e' he' hhost
    exact le_of_eq (congrArg EntityDoc.firstSeen (w.entities.eq_of_idOf_eq he' he hhost))
  | pass env => exact keepsFirstSeen_of_reachesBack hw h

end JobStep

/-- The state in which a run of the job begins: there are no entities. -/
def World.withoutEntities (w : World) : World := { w with entities := .empty }

/-- The states of a run are reached by passes over a growing ledger. -/
theorem history_of_mem_trace {w : World} {steps : List JobStep} :
    ∀ x ∈ trace (JobStep.perform rt) w.withoutEntities steps, History rt x.1 :=
  forall_trace (I := History rt) (P := fun _ _ => True)
    (fun _ step hw _ => JobStep.history hw step) (.start rfl) fun _ _ => trivial

/-- **First sightings do not move forward** in a run of the job in which the window of each pass
reaches back to the first sighting of each entity whose host it shows, whatever passes fail. Where
all passes return, they do not in these runs only. -/
theorem keepsFirstSeen_run (rt : Runtime) (w : World) (steps : List JobStep) :
    let run := trace (JobStep.perform rt) w.withoutEntities steps
    ((∀ x ∈ run, x.2.ReachesBack x.1) → ∀ x ∈ run, KeepsFirstSeen x.1 (x.2.perform rt x.1)) ∧
    ((∀ x ∈ run, x.2.Returns rt x.1) → (∀ x ∈ run, KeepsFirstSeen x.1 (x.2.perform rt x.1)) →
      ∀ x ∈ run, x.2.ReachesBack x.1) := by
  refine ⟨fun h x hx => x.2.keepsFirstSeen (history_of_mem_trace x hx) (h x hx), ?_⟩
  rintro hret h ⟨w₁, step⟩ hx
  have hw := history_of_mem_trace _ hx
  cases step with
  | append rows => trivial
  | pass env => exact reachesBack_of_keepsFirstSeen hw (hret _ hx) (h _ hx)

/-- A host that was seen on two days, and a pass on the second of them. When the first day has left
the window, the next pass moves the first sighting forward to the second. -/
theorem firstSeen_moves_forward :
    let rows : List LedgerRow := [
      { c2Host := str "192.0.2.1", ts := 1780000000000, evidenceRank := 2 },
      { c2Host := str "192.0.2.1", ts := 1781000000000, evidenceRank := 2 }]
    let steps : List JobStep := [.append rows, .pass (.basic (1781000005 * usPerSecond)),
      .pass (.basic (1783000000 * usPerSecond))]
    (steps.filterMap JobStep.time).Pairwise (· < ·) ∧
    ¬ ∀ x ∈ trace (JobStep.perform .basic) (World.ofLedger []).withoutEntities steps,
      KeepsFirstSeen x.1 (x.2.perform .basic x.1) := by
  intro rows steps
  refine ⟨by decide, fun h => ?_⟩
  have hlast := h (((runOnce .basic (.basic (1781000005 * usPerSecond))).run
    (World.ofLedger rows)).2, .pass (.basic (1783000000 * usPerSecond)))
    (List.mem_cons_of_mem _ (List.mem_cons_of_mem _ List.mem_cons_self))
  revert hlast
  unfold KeepsFirstSeen
  decide +kernel

end C2Engine
