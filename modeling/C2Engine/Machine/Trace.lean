import Mathlib.Data.List.Basic

/-!
# The steps of a run

A machine performs a list of actions, one after the other. The steps of the run are its actions,
each with the state it is performed in, so that what is said of all steps is said of every moment
of the run.

## Main definitions

* `trace`: the steps of a run.
* `after`: the state a run ends in.
* `Justified`: a log in which every entry is allowed by those before it.

## Main results

* `forall_trace`: the rule for invariants, which may use what is known of the steps.
* `mem_trace_iff`: a step is an action behind a run of the actions before it.
* `Justified.concat`: the rule for logs, one entry after the other.
-/

namespace C2Engine.Machine

variable {S A : Type} (perform : A → S → S)

/-- The steps of a run. -/
def trace : S → List A → List (S × A)
  | _, [] => []
  | s, a :: as => (s, a) :: trace (perform a s) as

/-- The state a run ends in. -/
def after (s : S) (as : List A) : S := as.foldl (fun s a => perform a s) s

variable {perform}

/-- **What every step preserves** that is as expected holds in every state of a run whose steps are
all as expected. -/
theorem forall_trace {I : S → Prop} {P : S → A → Prop}
    (hstep : ∀ s a, I s → P s a → I (perform a s)) :
    {as : List A} → {s : S} → I s → (∀ x ∈ trace perform s as, P x.1 x.2) →
      ∀ x ∈ trace perform s as, I x.1
  | [], _, _, _, x, hx => absurd hx List.not_mem_nil
  | a :: as, s, hs, hall, x, hx => by
      obtain ⟨ha, hrest⟩ := List.forall_mem_cons.mp hall
      rcases List.mem_cons.mp hx with rfl | hx
      · exact hs
      · exact forall_trace hstep (hstep s a hs ha) hrest x hx

/-- A step of a run is an action behind the run of the actions before it. -/
theorem mem_trace_iff {x : S × A} : {as : List A} → {s : S} →
    (x ∈ trace perform s as ↔
      ∃ pre post, as = pre ++ x.2 :: post ∧ x.1 = after perform s pre)
  | [], s => by simp [trace]
  | a :: as, s => by
      rw [trace, List.mem_cons, mem_trace_iff]
      constructor
      · rintro (rfl | ⟨pre, post, rfl, hx⟩)
        · exact ⟨[], as, rfl, rfl⟩
        · exact ⟨a :: pre, post, rfl, hx⟩
      · rintro ⟨pre, post, heq, hx⟩
        cases pre with
        | nil =>
          obtain ⟨rfl, rfl⟩ := List.cons.inj heq
          exact .inl (Prod.ext hx rfl)
        | cons b pre =>
          obtain ⟨rfl, rfl⟩ := List.cons.inj heq
          exact .inr ⟨pre, post, rfl, hx⟩

/-! ### Logs -/

section Logs

variable {α : Type} {P : List α → α → Prop} {log : List α}

/-- Every entry of a log is allowed by those before it. -/
def Justified (P : List α → α → Prop) (log : List α) : Prop :=
  ∀ before x after, log = before ++ x :: after → P before x

namespace Justified

theorem nil : Justified P [] := fun before _ _ h => absurd h (by simp)

/-- **One more entry** that those before it allow. -/
theorem concat {x : α} (h : Justified P log) (hx : P log x) : Justified P (log ++ [x]) := by
  intro before y after heq
  rcases List.append_eq_append_iff.mp heq with ⟨mid, rfl, hmid⟩ | ⟨mid, rfl, hmid⟩
  · cases mid with
    | nil =>
      obtain ⟨rfl, -⟩ := List.cons.inj hmid
      rwa [List.append_nil]
    | cons z mid => exact absurd (List.cons.inj hmid).2 (by simp)
  · cases mid with
    | nil =>
      obtain ⟨rfl, -⟩ := List.cons.inj hmid
      rwa [List.append_nil] at hx
    | cons z mid =>
      obtain ⟨rfl, -⟩ := List.cons.inj hmid
      exact h before _ mid rfl

theorem of_prefix {log' : List α} (h : Justified P log) (hpre : log' <+: log) :
    Justified P log' := by
  rintro before x after rfl
  obtain ⟨rest, rfl⟩ := hpre
  exact h before x (after ++ rest) (by simp)

end Justified

end Logs

end C2Engine.Machine
