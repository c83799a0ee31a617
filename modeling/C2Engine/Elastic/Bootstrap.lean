import C2Engine.Elastic.Client
import C2Engine.Elastic.Schema

/-!
# Installing the templates

`ensure_bootstrap` of `elastic/client.py`: before the ingest service listens it puts the lifecycle
policy and the four index templates, each with up to ten requests, since Elasticsearch may still be
starting. Where this raises, the service ends without having listened.

Of `elastic/schema.py` this file has the names and the index patterns of the templates.

## Main definitions

* `Template`, `Template.Covers`, `templates`: the index templates and the indices they are for.
* `Resource`: what is put.
* `Startup`, `EsWriter.put`, `EsWriter.ensureBootstrap`.
* `Outcome.warmsUp`: the answers after which a put is tried again.

## Main results

* `covers_eq`: no index has two templates.
* `run_putAttempts`: the requests of one put.
* `run_ensureBootstrap`: when everything is installed, and how long that takes.
-/

namespace C2Engine

open Python

/-! ### Templates -/

/-- An index template: its name, the patterns of its indices and its priority. -/
structure Template where
  name : PyStr
  indexPatterns : List PyStr
  priority : ℕ
  deriving DecidableEq

/-- An index matches a pattern, in which an asterisk at the end stands for anything. -/
def matchesPattern (pattern index : PyStr) : Bool :=
  if pattern.getLast? = some (cp '*') then pattern.dropLast.isPrefixOf index else pattern = index

/-- The indices a template is for. -/
def Template.Covers (t : Template) (index : PyStr) : Prop :=
  ∃ pattern ∈ t.indexPatterns, matchesPattern pattern index

/-- `INDEX_TEMPLATE`. -/
def indexTemplate : Template := ⟨str "stingarc2", [str "stingarc2-*"], 200⟩

/-- `ENTITIES_TEMPLATE`. -/
def entitiesTemplate : Template := ⟨str "c2-entities", [str "c2-entities"], 200⟩

/-- `VT_TEMPLATE`. -/
def vtTemplate : Template := ⟨str "c2-vt", [str "c2-vt"], 200⟩

/-- `INTEL_TEMPLATE`. -/
def intelTemplate : Template := ⟨str "c2-intel", [str "c2-intel"], 200⟩

/-- The templates, in the order in which they are installed. -/
def templates : List Template := [indexTemplate, entitiesTemplate, vtTemplate, intelTemplate]

theorem covers_indexTemplate {index : PyStr} :
    indexTemplate.Covers index ↔ (c2Prefix ++ str "-").isPrefixOf index := by
  simp only [Template.Covers, indexTemplate, List.mem_singleton, exists_eq_left]
  exact Iff.rfl

theorem covers_entitiesTemplate {index : PyStr} :
    entitiesTemplate.Covers index ↔ index = str "c2-entities" := by
  simp only [Template.Covers, entitiesTemplate, List.mem_singleton, exists_eq_left]
  exact decide_eq_true_iff.trans eq_comm

theorem covers_vtTemplate {index : PyStr} : vtTemplate.Covers index ↔ index = str "c2-vt" := by
  simp only [Template.Covers, vtTemplate, List.mem_singleton, exists_eq_left]
  exact decide_eq_true_iff.trans eq_comm

theorem covers_intelTemplate {index : PyStr} :
    intelTemplate.Covers index ↔ index = str "c2-intel" := by
  simp only [Template.Covers, intelTemplate, List.mem_singleton, exists_eq_left]
  exact decide_eq_true_iff.trans eq_comm

/-- **No index has two templates**: their names are chosen outside of the ledger's pattern. -/
theorem covers_eq {t t' : Template} (ht : t ∈ templates) (ht' : t' ∈ templates) {index : PyStr}
    (h : t.Covers index) (h' : t'.Covers index) : t = t' := by
  have hledger : ∀ name : PyStr, (c2Prefix ++ str "-").isPrefixOf name = false →
      ∀ index, index = name → ¬ indexTemplate.Covers index := by
    rintro name hname index rfl hcovers
    exact Bool.false_ne_true (hname.symm.trans (covers_indexTemplate.mp hcovers))
  have hentities := hledger (str "c2-entities") (by decide)
  have hvt := hledger (str "c2-vt") (by decide)
  have hintel := hledger (str "c2-intel") (by decide)
  simp only [templates, List.mem_cons, List.not_mem_nil, or_false] at ht ht'
  rcases ht with rfl | rfl | rfl | rfl
  all_goals rcases ht' with rfl | rfl | rfl | rfl
  all_goals first | rfl | skip
  all_goals simp only [covers_entitiesTemplate, covers_vtTemplate, covers_intelTemplate] at h h'
  · exact absurd h (hentities index h')
  · exact absurd h (hvt index h')
  · exact absurd h (hintel index h')
  · exact absurd h' (hentities index h)
  · exact absurd (h.symm.trans h') (by decide)
  · exact absurd (h.symm.trans h') (by decide)
  · exact absurd h' (hvt index h)
  · exact absurd (h.symm.trans h') (by decide)
  · exact absurd (h.symm.trans h') (by decide)
  · exact absurd h' (hintel index h)
  · exact absurd (h.symm.trans h') (by decide)
  · exact absurd (h.symm.trans h') (by decide)

/-! ### Requests -/

/-- What is installed. -/
inductive Resource where
  /-- `ILM_POLICY`, by its name. -/
  | policy (name : PyStr)
  | template (t : Template)
  deriving DecidableEq

/-- The path of a resource. -/
def Resource.path : Resource → PyStr
  | .policy name => str "_ilm/policy/" ++ name
  | .template t => str "_index_template/" ++ t.name

/-- What happens while the service starts. -/
inductive StartupEvent where
  /-- A resource is put under its path. -/
  | put (r : Resource) (outcome : Outcome)
  /-- `time.sleep`. -/
  | sleep (seconds : ℕ)
  deriving DecidableEq

/-- The world while the service starts. -/
structure Startup where
  /-- The outcomes of the requests to come. -/
  answers : ℕ → Outcome
  trace : List StartupEvent

/-- The resources installed in a trace. -/
def installed : List StartupEvent → List Resource
  | [] => []
  | .put r outcome :: evs => if outcome.accepts then r :: installed evs else installed evs
  | .sleep _ :: evs => installed evs

/-- The requests of a trace. -/
def putCount : List StartupEvent → ℕ
  | [] => 0
  | .put _ _ :: evs => putCount evs + 1
  | .sleep _ :: evs => putCount evs

/-- The seconds slept in a trace. -/
def slept : List StartupEvent → ℕ
  | [] => 0
  | .put _ _ :: evs => slept evs
  | .sleep seconds :: evs => seconds + slept evs

@[simp] theorem installed_append : (evs evs' : List StartupEvent) →
    installed (evs ++ evs') = installed evs ++ installed evs'
  | [], _ => rfl
  | .put _ o :: evs, evs' => by
      by_cases h : o.accepts <;> simp [installed, h, installed_append evs evs']
  | .sleep _ :: evs, evs' => installed_append evs evs'

@[simp] theorem putCount_append : (evs evs' : List StartupEvent) →
    putCount (evs ++ evs') = putCount evs + putCount evs'
  | [], _ => (Nat.zero_add _).symm
  | .put _ _ :: evs, evs' => by
      rw [List.cons_append, putCount, putCount, putCount_append evs evs', Nat.add_right_comm]
  | .sleep _ :: evs, evs' => putCount_append evs evs'

@[simp] theorem slept_append : (evs evs' : List StartupEvent) →
    slept (evs ++ evs') = slept evs + slept evs'
  | [], _ => (Nat.zero_add _).symm
  | .put _ _ :: evs, evs' => slept_append evs evs'
  | .sleep _ :: evs, evs' => by
      rw [List.cons_append, slept, slept, slept_append evs evs', Nat.add_assoc]

/-- Send a request. -/
def sendPut (r : Resource) : Prog Startup Outcome := fun w =>
  (.ok (w.answers 0), ⟨fun n => w.answers (n + 1), w.trace ++ [.put r (w.answers 0)]⟩)

/-- `time.sleep`. -/
def sleep (seconds : ℕ) : Prog Startup Unit := Prog.modify fun w =>
  { w with trace := w.trace ++ [.sleep seconds] }

namespace EsWriter

/-- A status that says that Elasticsearch is starting. -/
def warmingUp (code : ℕ) : Bool := code = 502 || code = 503 || code = 504

/-- The attempts of `_put` that are left. -/
def putAttempts (r : Resource) : ℕ → Prog Startup Unit
  | 0 => pure ()
  | left + 1 => do
    let outcome ← sendPut r
    match outcome with
    | .status code =>
      if code < 300 then pure ()
      else if warmingUp code && 0 < left then do
        sleep (min (2 ^ (9 - left)) 15)
        putAttempts r left
      else Prog.raise (.httpError code)
    | .unreachable =>
      if 0 < left then do
        sleep (min (2 ^ (9 - left)) 15)
        putAttempts r left
      else Prog.raise .urlError
    | .broken => Prog.raise .other

/-- `_put`. -/
def put (r : Resource) : Prog Startup Unit := putAttempts r 10

/-- What `ensure_bootstrap` installs. -/
def bootstrapResources : List Resource := .policy (str "stingarc2") :: templates.map .template

/-- `ensure_bootstrap`. -/
def ensureBootstrap : Prog Startup Unit := Prog.forM bootstrapResources put

end EsWriter

/-! ### One put -/

/-- An answer after which `_put` tries again. -/
def Outcome.warmsUp : Outcome → Bool
  | .status code => EsWriter.warmingUp code
  | .unreachable => true
  | .broken => false

theorem Outcome.accepts_of_warmsUp {o : Outcome} (h : o.warmsUp) : o.accepts = false := by
  cases o with
  | status code =>
    simp only [Outcome.warmsUp, EsWriter.warmingUp, Bool.or_eq_true, decide_eq_true_eq] at h
    simp only [Outcome.accepts, decide_eq_false_iff_not]
    omega
  | unreachable => rfl
  | broken => rfl

/-- The seconds between the attempts, by how many of them are left. -/
def waits : ℕ → ℕ
  | 0 => 0
  | left + 1 => min (2 ^ (9 - (left + 1))) 15 + waits left

/-- A request was sent and answered. -/
def Startup.answered (r : Resource) (w : Startup) : Startup :=
  ⟨fun n => w.answers (n + 1), w.trace ++ [.put r (w.answers 0)]⟩

theorem run_putAttempts_of_accepts {r : Resource} {w : Startup} (h : (w.answers 0).accepts)
    (left : ℕ) : (EsWriter.putAttempts r (left + 1)).run w = (.ok (), w.answered r) := by
  have hsend : (sendPut r).run w = (.ok (w.answers 0), w.answered r) := rfl
  rw [EsWriter.putAttempts, Prog.run_bind_of_ok hsend]
  cases ho : w.answers 0 with
  | status code =>
    rw [ho] at h
    exact congrArg (Prog.run · _) (if_pos (of_decide_eq_true h))
  | unreachable => rw [ho] at h; cases h
  | broken => rw [ho] at h; cases h

/-- While Elasticsearch is starting, the next attempt follows after a while. -/
theorem run_putAttempts_of_warmsUp {r : Resource} {w : Startup} (h : (w.answers 0).warmsUp)
    (left : ℕ) : (EsWriter.putAttempts r (left + 2)).run w =
      (EsWriter.putAttempts r (left + 1)).run { w.answered r with
        trace := (w.answered r).trace ++ [.sleep (min (2 ^ (9 - (left + 1))) 15)] } := by
  have hsend : (sendPut r).run w = (.ok (w.answers 0), w.answered r) := rfl
  rw [EsWriter.putAttempts, Prog.run_bind_of_ok hsend]
  cases ho : w.answers 0 with
  | status code =>
    rw [ho] at h
    have hcode : ¬ code < 300 := by
      have := Outcome.accepts_of_warmsUp h
      simpa [Outcome.accepts] using this
    have hwarm : EsWriter.warmingUp code = true := h
    simp only [hcode, hwarm, if_false, Nat.succ_pos, decide_true, Bool.and_self, if_true]
    rfl
  | unreachable => simp only [Nat.succ_pos, if_true]; rfl
  | broken => rw [ho] at h; cases h

/-- Another answer, and the last one, are raised. -/
theorem run_putAttempts_of_rejects {r : Resource} {w : Startup} {left : ℕ}
    (h : (w.answers 0).accepts = false) (hlast : (w.answers 0).warmsUp → left = 0) :
    ∃ e, (EsWriter.putAttempts r (left + 1)).run w = (.error e, w.answered r) := by
  have hsend : (sendPut r).run w = (.ok (w.answers 0), w.answered r) := rfl
  rw [EsWriter.putAttempts, Prog.run_bind_of_ok hsend]
  cases ho : w.answers 0 with
  | status code =>
    rw [ho] at h hlast
    have hcode : ¬ code < 300 := by simpa [Outcome.accepts] using h
    have hagain : (EsWriter.warmingUp code && decide (0 < left)) = false := by
      cases hwarm : EsWriter.warmingUp code with
      | true => rw [hlast hwarm]; rfl
      | false => rfl
    simp only [hcode, hagain, if_false, Bool.false_eq_true]
    exact ⟨_, rfl⟩
  | unreachable =>
    rw [ho] at hlast
    obtain rfl := hlast rfl
    exact ⟨_, rfl⟩
  | broken => exact ⟨_, rfl⟩

/-- How a put goes: behind `n` answers of an Elasticsearch that is starting it is accepted, or it
raises. -/
structure PutRun (r : Resource) (left : ℕ) (answers : ℕ → Outcome) (ok : Bool) (n : ℕ)
    (evs : List StartupEvent) : Prop where
  le : n ≤ left
  warmsUp : ∀ i < n, (answers i).warmsUp
  accepts : (answers n).accepts = ok
  /-- A put is given up for an answer of another kind, or for want of attempts. -/
  last : ok = false → (answers n).warmsUp → n = left
  putCount : putCount evs = n + 1
  slept : slept evs ≤ waits left
  installed : installed evs = if ok then [r] else []

/-- **The requests of one put.** -/
theorem run_putAttempts (r : Resource) (left : ℕ) (w : Startup) :
    ∃ n evs, ((EsWriter.putAttempts r (left + 1)).run w).2 =
        ⟨fun i => w.answers (i + (n + 1)), w.trace ++ evs⟩ ∧
      PutRun r left w.answers ((EsWriter.putAttempts r (left + 1)).run w).1.isOk n evs := by
  induction left generalizing w with
  | zero =>
    refine ⟨0, [.put r (w.answers 0)], ?_⟩
    cases ho : (w.answers 0).accepts with
    | true =>
      rw [run_putAttempts_of_accepts ho]
      exact ⟨rfl, le_rfl, nofun, ho, nofun, rfl, le_rfl, by simp [installed, ho]; rfl⟩
    | false =>
      obtain ⟨e, hrun⟩ := run_putAttempts_of_rejects (r := r) ho fun _ => rfl
      rw [hrun]
      exact ⟨rfl, le_rfl, nofun, ho, fun _ _ => rfl, rfl, le_rfl, by simp [installed, ho]; rfl⟩
  | succ left ih =>
    cases ho : (w.answers 0).accepts with
    | true =>
      refine ⟨0, [.put r (w.answers 0)], ?_⟩
      rw [run_putAttempts_of_accepts ho]
      exact ⟨rfl, Nat.zero_le _, nofun, ho, nofun, rfl, Nat.zero_le _,
        by simp [installed, ho]; rfl⟩
    | false =>
      by_cases hwarm : (w.answers 0).warmsUp
      · rw [run_putAttempts_of_warmsUp hwarm]
        obtain ⟨n, evs, hstate, h⟩ := ih { w.answered r with
          trace := (w.answered r).trace ++ [.sleep (min (2 ^ (9 - (left + 1))) 15)] }
        refine ⟨n + 1, .put r (w.answers 0) :: .sleep (min (2 ^ (9 - (left + 1))) 15) :: evs,
          ?_, ?_⟩
        · rw [hstate]
          simp [Startup.answered, Nat.add_assoc]
        · refine ⟨Nat.succ_le_succ h.le, ?_, h.accepts, ?_, ?_, ?_, ?_⟩
          · intro i hi
            cases i with
            | zero => exact hwarm
            | succ i => exact h.warmsUp i (Nat.lt_of_succ_lt_succ hi)
          · exact fun hok hlast => congrArg _ (h.last hok hlast)
          · rw [putCount, putCount, h.putCount]
          · exact Nat.add_le_add_left h.slept _
          · rw [installed, ho, if_neg Bool.false_ne_true, installed, h.installed]
      · refine ⟨0, [.put r (w.answers 0)], ?_⟩
        obtain ⟨e, hrun⟩ := @run_putAttempts_of_rejects r w (left + 1) ho
          fun h => absurd h hwarm
        rw [hrun]
        exact ⟨rfl, Nat.zero_le _, nofun, ho, fun _ h => absurd h hwarm, rfl, Nat.zero_le _,
          by simp [installed, ho]; rfl⟩

/-! ### The whole start -/

/-- **Answers among which every put finds an accepting one in time**: behind at most nine answers
of an Elasticsearch that is starting. -/
inductive Installs : List Resource → (ℕ → Outcome) → Prop
  | nil (answers : ℕ → Outcome) : Installs [] answers
  | cons {r : Resource} {rs : List Resource} {answers : ℕ → Outcome} (n : ℕ) (hn : n ≤ 9)
      (hwarm : ∀ i < n, (answers i).warmsUp) (haccepts : (answers n).accepts)
      (hrest : Installs rs fun i => answers (i + (n + 1))) : Installs (r :: rs) answers

/-- What the puts of a list of resources amount to. -/
theorem run_forM_put : (rs : List Resource) → (w : Startup) →
    (((Prog.forM rs EsWriter.put).run w).1.isOk ↔ Installs rs w.answers) ∧
      ∃ evs, ((Prog.forM rs EsWriter.put).run w).2.trace = w.trace ++ evs ∧
        putCount evs ≤ 10 * rs.length ∧ slept evs ≤ 90 * rs.length ∧
        installed evs <+: rs ∧
        (((Prog.forM rs EsWriter.put).run w).1.isOk ↔ installed evs = rs)
  | [], w => ⟨iff_of_true rfl (.nil _), [], (List.append_nil _).symm, Nat.zero_le _, Nat.zero_le _,
      List.prefix_refl _, iff_of_true rfl rfl⟩
  | r :: rs, w => by
      obtain ⟨n, evs, hstate, h⟩ := run_putAttempts r 9 w
      have hput : EsWriter.putAttempts r 10 = EsWriter.put r := rfl
      rw [hput] at hstate h
      have hcount := h.putCount
      have hslept : slept evs ≤ 90 := h.slept
      have hle := h.le
      rw [Prog.forM_cons]
      rcases hr : (EsWriter.put r).run w with ⟨e | ⟨⟩, w'⟩
      · -- the put raised
        rw [hr] at hstate h
        obtain rfl := hstate
        rw [Prog.run_bind_of_error hr]
        have hnone : installed evs = [] := h.installed
        refine ⟨iff_of_false Bool.false_ne_true ?_, evs, rfl, ?_, ?_, ?_, ?_⟩
        · intro hinstalls
          obtain - | ⟨n', hn', hwarm, haccepts, -⟩ := hinstalls
          rcases lt_trichotomy n n' with hlt | rfl | hlt
          · have := h.last rfl (hwarm n hlt)
            omega
          · exact Bool.false_ne_true (h.accepts.symm.trans haccepts)
          · have := Outcome.accepts_of_warmsUp (h.warmsUp n' hlt)
            exact Bool.false_ne_true (this.symm.trans haccepts)
        · rw [List.length_cons]
          omega
        · rw [List.length_cons]
          omega
        · rw [hnone]
          exact List.nil_prefix
        · rw [hnone]
          exact iff_of_false Bool.false_ne_true nofun
      · rw [hr] at hstate h
        obtain rfl := hstate
        rw [Prog.run_bind_of_ok hr]
        have hone : installed evs = [r] := h.installed
        obtain ⟨hiff, evs', htrace, hcount', hslept', hprefix, hall⟩ :=
          run_forM_put rs ⟨fun i => w.answers (i + (n + 1)), w.trace ++ evs⟩
        refine ⟨hiff.trans ⟨fun hrest => .cons n hle h.warmsUp h.accepts hrest, ?_⟩, evs ++ evs',
          ?_, ?_, ?_, ?_, ?_⟩
        · intro hinstalls
          obtain - | ⟨n', hn', hwarm, haccepts, hrest⟩ := hinstalls
          rcases lt_trichotomy n n' with hlt | rfl | hlt
          · have := Outcome.accepts_of_warmsUp (hwarm n hlt)
            exact absurd (this.symm.trans h.accepts) Bool.false_ne_true
          · exact hrest
          · have := Outcome.accepts_of_warmsUp (h.warmsUp n' hlt)
            exact absurd (this.symm.trans haccepts) Bool.false_ne_true
        · rw [htrace, List.append_assoc]
        · rw [putCount_append, List.length_cons]
          omega
        · rw [slept_append, List.length_cons]
          omega
        · rw [installed_append, hone]
          exact List.cons_prefix_cons.mpr ⟨rfl, hprefix⟩
        · rw [installed_append, hone]
          exact hall.trans ⟨congrArg (r :: ·), fun heq => (List.cons.inj heq).2⟩

/-- Where `ensure_bootstrap` returns, everything was installed. -/
theorem installed_of_isOk {answers : ℕ → Outcome}
    (h : (EsWriter.ensureBootstrap.run ⟨answers, []⟩).1.isOk) :
    installed (EsWriter.ensureBootstrap.run ⟨answers, []⟩).2.trace =
      EsWriter.bootstrapResources := by
  obtain ⟨hiff, evs, htrace, -, -, -, hall⟩ :=
    run_forM_put EsWriter.bootstrapResources ⟨answers, []⟩
  have heq : (EsWriter.ensureBootstrap.run ⟨answers, []⟩).2.trace = evs := htrace
  rw [heq]
  exact hall.mp h

/-- **When the service starts**: `ensure_bootstrap` returns exactly if each of its five puts finds
an accepting answer behind at most nine of an Elasticsearch that is starting. Then the policy and
the templates were installed, each once and in their order, and otherwise only the first of them. It
sends at most fifty requests and sleeps for at most seven and a half minutes. -/
theorem run_ensureBootstrap (answers : ℕ → Outcome) :
    (((EsWriter.ensureBootstrap).run ⟨answers, []⟩).1.isOk ↔
        Installs EsWriter.bootstrapResources answers) ∧
      (((EsWriter.ensureBootstrap).run ⟨answers, []⟩).1.isOk ↔
        installed ((EsWriter.ensureBootstrap).run ⟨answers, []⟩).2.trace =
          EsWriter.bootstrapResources) ∧
      installed ((EsWriter.ensureBootstrap).run ⟨answers, []⟩).2.trace <+:
        EsWriter.bootstrapResources ∧
      putCount ((EsWriter.ensureBootstrap).run ⟨answers, []⟩).2.trace ≤ 50 ∧
      slept ((EsWriter.ensureBootstrap).run ⟨answers, []⟩).2.trace ≤ 450 := by
  obtain ⟨hiff, evs, htrace, hcount, hslept, hprefix, hall⟩ :=
    run_forM_put EsWriter.bootstrapResources ⟨answers, []⟩
  have heq : ((EsWriter.ensureBootstrap).run ⟨answers, []⟩).2.trace = evs := htrace
  rw [heq]
  exact ⟨hiff, hall, hprefix, hcount, hslept⟩

end C2Engine
