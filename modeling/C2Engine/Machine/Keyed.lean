import Mathlib.Logic.Function.Basic
import Mathlib.Data.List.Induction

/-!
# Machines with a cell for each key

A machine whose state is a cell for each key, where an event reads and changes the cell of its own
key only. Whatever events of other keys stand between them, the events of a key then make of its
cell, and let the machine put out, what they do alone: a run restricted to a key is the run of the
events of that key. After an event that sets its cell whatever was in it, what came before does not
matter either.

## Main definitions

* `Keyed`: a machine, by what an event does to its cell.
* `Keyed.run`, `Keyed.emits`: the cells after a run, and what an event puts out behind one.
* `Keyed.own`, `Keyed.since`: the events of a key, and those from the latest of a kind on.

## Main results

* `Keyed.run_own`: the cell of a key is a matter of the events of the key.
* `Keyed.run_since`: and of those from the latest resetting event on.
-/

namespace C2Engine.Machine

/-- A machine: the key of an event, and what the event makes of the cell of its key and puts
out. -/
structure Keyed (K E D O : Type) where
  key : E → K
  step : E → D → D × List O

namespace Keyed

variable {K E D O : Type} [DecidableEq K] (M : Keyed K E D O)

/-- The cells after an event. -/
def next (cells : K → D) (e : E) : K → D :=
  Function.update cells (M.key e) (M.step e (cells (M.key e))).1

/-- The cells after a run. -/
def run (cells : K → D) (es : List E) : K → D := es.foldl M.next cells

/-- What an event puts out behind a run. -/
def emits (cells : K → D) (es : List E) (e : E) : List O :=
  (M.step e (M.run cells es (M.key e))).2

/-- The events of a key. -/
def own (k : K) (es : List E) : List E := es.filter fun e => M.key e = k

/-- The events from the latest one of a kind on, all of them if there is none. -/
def since (kind : E → Bool) (es : List E) : List E :=
  es.foldl (fun acc e => if kind e then [e] else acc ++ [e]) []

/-- An event that sets its cell to the same whatever was in it. -/
def Resets (e : E) : Prop := ∀ d d', (M.step e d).1 = (M.step e d').1

@[simp] theorem run_concat (cells : K → D) (es : List E) (e : E) :
    M.run cells (es ++ [e]) = M.next (M.run cells es) e := List.foldl_append

@[simp] theorem own_concat (k : K) (es : List E) (e : E) :
    M.own k (es ++ [e]) = if M.key e = k then M.own k es ++ [e] else M.own k es := by
  rw [own, List.filter_append]
  by_cases h : M.key e = k <;> simp [own, h]

theorem key_of_mem_own {k : K} {es : List E} {e : E} (h : e ∈ M.own k es) : M.key e = k :=
  of_decide_eq_true (List.mem_filter.mp h).2

omit [DecidableEq K] in
@[simp] theorem since_concat (kind : E → Bool) (es : List E) (e : E) :
    since kind (es ++ [e]) = if kind e then [e] else since kind es ++ [e] :=
  List.foldl_append

omit [DecidableEq K] in
/-- The events from a last one of a kind on. -/
theorem since_of_last {kind : E → Bool} {e : E} (before : List E) {after : List E} (h : kind e)
    (hafter : ∀ x ∈ after, ¬ kind x) : since kind (before ++ e :: after) = e :: after := by
  induction after using List.reverseRecOn with
  | nil => rw [since_concat, if_pos h]
  | append_singleton after x ih =>
    obtain ⟨hafter, hx⟩ := List.forall_mem_append.mp hafter
    rw [← List.cons_append, ← List.append_assoc, since_concat, if_neg (hx x List.mem_cons_self),
      ih hafter]

/-- An event of another key leaves a cell as it is. -/
theorem next_ne {k : K} {e : E} (h : M.key e ≠ k) (cells : K → D) : M.next cells e k = cells k :=
  Function.update_of_ne h.symm _ _

/-- An event of a key makes of the cell what it makes of its content. -/
theorem next_self (cells : K → D) (e : E) :
    M.next cells e (M.key e) = (M.step e (cells (M.key e))).1 := Function.update_self _ _ _

/-- **A run restricted to a key** is the run of the events of the key. -/
theorem run_own (cells : K → D) (k : K) (es : List E) :
    M.run cells (M.own k es) k = M.run cells es k := by
  induction es using List.reverseRecOn with
  | nil => rfl
  | append_singleton es e ih =>
    rw [own_concat, run_concat]
    split_ifs with h
    · subst h
      rw [run_concat, next_self, next_self, ih]
    · rw [next_ne M h, ih]

/-- The cell of a key whose events are all from the latest resetting one on. -/
theorem run_since {kind : E → Bool} {k : K} {es : List E} (hkey : ∀ e ∈ es, M.key e = k)
    (hreset : ∀ e ∈ es, kind e → M.Resets e) (cells : K → D) :
    M.run cells (since kind es) k = M.run cells es k := by
  induction es using List.reverseRecOn with
  | nil => rfl
  | append_singleton es e ih =>
    obtain ⟨hkey, hlast⟩ := List.forall_mem_append.mp hkey
    obtain ⟨hreset, hlastReset⟩ := List.forall_mem_append.mp hreset
    obtain rfl := hlast e List.mem_cons_self
    have ih := ih hkey hreset
    rw [since_concat, run_concat, next_self]
    split_ifs with hkind
    · exact (next_self M cells e).trans (hlastReset e List.mem_cons_self hkind _ _)
    · rw [run_concat, next_self, ih]

/-- **What an event puts out** is a matter of the events of its key from the latest resetting one
on. -/
theorem emits_since {kind : E → Bool} {es : List E} {e : E}
    (hreset : ∀ x ∈ es, kind x → M.Resets x) (cells : K → D) :
    M.emits cells (since kind (M.own (M.key e) es)) e = M.emits cells es e := by
  rw [emits, emits, M.run_since (fun x hx => M.key_of_mem_own hx)
    (fun x hx => hreset x (List.mem_filter.mp hx).1), M.run_own]

end Keyed

end C2Engine.Machine
