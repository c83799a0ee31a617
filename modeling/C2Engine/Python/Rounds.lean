import C2Engine.Python.Object

/-!
# Searching in rounds

A search that expands all elements of a queue, keeps the results it has not seen for the next queue,
and does so for a number of rounds. What it finds are exactly the elements that at most that many
steps lead to: a result is skipped only where it was found before, with as many rounds left or more.

## Main definitions

* `Leads`: a number of steps lead from an element to another.
* `rounds`: the search.

## Main results

* `mem_cons_rounds_iff`, `mem_rounds_iff`: what is found from one element.
-/

namespace C2Engine.Python

variable {α : Type} [DecidableEq α] {f : α → List α}

/-- `n` steps lead from one element to another. -/
def Leads (f : α → List α) : ℕ → α → α → Prop
  | 0, x, y => y = x
  | n + 1, x, y => ∃ z ∈ f x, Leads f n z y

/-- The search, with the elements of `queue` to expand and those of `seen` expanded or to be
expanded. -/
def rounds (f : α → List α) : ℕ → (queue seen : List α) → List α
  | 0, _, _ => []
  | depth + 1, queue, seen =>
    let next := unseen seen (queue.flatMap f)
    if next.isEmpty then [] else next ++ rounds f depth next (next ++ seen)

/-- What is found was led to from the queue, in no more steps than there are rounds. -/
theorem leads_of_mem_rounds {y : α} {depth : ℕ} {queue seen : List α}
    (h : y ∈ rounds f depth queue seen) : ∃ n ≤ depth, ∃ x ∈ queue, Leads f n x y := by
  induction depth generalizing queue seen with
  | zero => exact absurd h List.not_mem_nil
  | succ depth ih =>
    rw [rounds] at h
    split_ifs at h with hempty
    · exact absurd h List.not_mem_nil
    have hstep : ∀ z ∈ unseen seen (queue.flatMap f), ∃ x ∈ queue, z ∈ f x := fun z hz =>
      List.mem_flatMap.mp (mem_unseen.mp hz).1
    rcases List.mem_append.mp h with h | h
    · obtain ⟨x, hx, hy⟩ := hstep y h
      exact ⟨1, by omega, x, hx, y, hy, rfl⟩
    · obtain ⟨n, hn, z, hz, hleads⟩ := ih h
      obtain ⟨x, hx, hzx⟩ := hstep z hz
      exact ⟨n + 1, by omega, x, hx, z, hzx, hleads⟩

/-- Nothing that was seen is found. -/
theorem notMem_seen_of_mem_rounds {y : α} {depth : ℕ} {queue seen : List α}
    (h : y ∈ rounds f depth queue seen) : y ∉ seen := by
  induction depth generalizing queue seen with
  | zero => exact absurd h List.not_mem_nil
  | succ depth ih =>
    rw [rounds] at h
    split_ifs at h
    · exact absurd h List.not_mem_nil
    rcases List.mem_append.mp h with h | h
    · exact (mem_unseen.mp h).2
    · exact fun hseen => ih h (List.mem_append_right _ hseen)

/-- **What is led to from an element that was seen, in no more steps than there are rounds, is found
or was seen.** Of an element that was seen and is not in the queue, the results were seen, too. -/
theorem mem_rounds_of_leads {x y : α} {n depth : ℕ} {queue seen : List α}
    (hclosed : ∀ t ∈ seen, t ∈ queue ∨ ∀ u ∈ f t, u ∈ seen) (hx : x ∈ seen) (hn : n ≤ depth)
    (h : Leads f n x y) : y ∈ seen ∨ y ∈ rounds f depth queue seen := by
  induction n generalizing depth queue seen x with
  | zero => exact .inl (h ▸ hx)
  | succ n ih =>
    obtain ⟨depth, rfl⟩ : ∃ d, depth = d + 1 := ⟨depth - 1, by omega⟩
    obtain ⟨z, hz, hleads⟩ := h
    by_cases hold : z ∈ seen
    · exact ih hclosed hold (by omega) hleads
    have hqueue : x ∈ queue := (hclosed x hx).resolve_right fun h => hold (h z hz)
    set next := unseen seen (queue.flatMap f) with hnext
    have hfound : ∀ t ∈ queue, ∀ u ∈ f t, u ∈ next ++ seen := by
      intro t ht u hu
      by_cases h : u ∈ seen
      · exact List.mem_append_right _ h
      · exact List.mem_append_left _ (mem_unseen.mpr ⟨List.mem_flatMap.mpr ⟨t, ht, hu⟩, h⟩)
    have hclosed' : ∀ t ∈ next ++ seen, t ∈ next ∨ ∀ u ∈ f t, u ∈ next ++ seen := by
      intro t ht
      refine (List.mem_append.mp ht).imp_right fun h => ?_
      rcases hclosed t h with h | h
      · exact hfound t h
      · exact fun u hu => List.mem_append_right _ (h u hu)
    have hmem : z ∈ next := mem_unseen.mpr ⟨List.mem_flatMap.mpr ⟨x, hqueue, hz⟩, hold⟩
    have hne : ¬ next.isEmpty := fun h => List.ne_nil_of_mem hmem (List.isEmpty_iff.mp h)
    have hrest := ih hclosed' (List.mem_append_left _ hmem) (Nat.le_of_succ_le_succ hn) hleads
    rw [rounds, ← hnext, if_neg hne, List.mem_append]
    rcases hrest with h | h
    · exact (List.mem_append.mp h).symm.imp_right .inl
    · exact .inr (.inr h)

/-- **An element and what is found from it** are what at most as many steps lead to as there are
rounds. -/
theorem mem_cons_rounds_iff {x y : α} {depth : ℕ} :
    y ∈ x :: rounds f depth [x] [x] ↔ ∃ n ≤ depth, Leads f n x y := by
  constructor
  · intro h
    rcases List.mem_cons.mp h with rfl | h
    · exact ⟨0, Nat.zero_le _, rfl⟩
    · obtain ⟨n, hn, z, hz, hleads⟩ := leads_of_mem_rounds h
      exact ⟨n, hn, List.mem_singleton.mp hz ▸ hleads⟩
  · rintro ⟨n, hn, hleads⟩
    have hclosed : ∀ t ∈ [x], t ∈ [x] ∨ ∀ u ∈ f t, u ∈ [x] := fun _ => .inl
    rcases mem_rounds_of_leads hclosed List.mem_cons_self hn hleads with h | h
    · exact List.mem_cons.mpr (.inl (List.mem_singleton.mp h))
    · exact List.mem_cons_of_mem _ h

/-- What is found from an element is not the element itself. -/
theorem mem_rounds_iff {x y : α} {depth : ℕ} :
    y ∈ rounds f depth [x] [x] ↔ y ≠ x ∧ ∃ n ≤ depth, Leads f n x y := by
  rw [← mem_cons_rounds_iff, List.mem_cons]
  constructor
  · exact fun h => ⟨fun heq => notMem_seen_of_mem_rounds h (List.mem_singleton.mpr heq), .inr h⟩
  · exact fun h => h.2.resolve_left h.1

end C2Engine.Python
