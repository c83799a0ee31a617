import Mathlib.Data.List.Sort
import Mathlib.Data.List.Count

/-!
# The first of a list sorted by a key

A server that answers with the first `n` items by some key leaves out the items that at least `n`
others come before.

## Main results

* `mem_take_iff_of_pairwise`: the first items of a sorted list, told by the number of items before
  them.
* `mem_take_insertionSort_iff`: the first items by a key.
-/

namespace C2Engine.Store

variable {α κ : Type} [LinearOrder κ]

/-- An item is among the first `n` of a sorted list if and only if fewer than `n` come before
it. -/
theorem mem_take_iff_of_pairwise {key : α → κ} : {l : List α} →
    l.Pairwise (fun x y => key x < key y) → ∀ (n : ℕ) (x : α),
      x ∈ l.take n ↔ x ∈ l ∧ l.countP (fun y => key y < key x) < n
  | [], _, n, x => by simp
  | y :: l, h, 0, x => by simp
  | y :: l, h, n + 1, x => by
      obtain ⟨hy, hl⟩ := List.pairwise_cons.mp h
      have ih := mem_take_iff_of_pairwise hl n x
      rw [List.take_succ_cons, List.mem_cons, List.mem_cons, List.countP_cons]
      constructor
      · rintro (rfl | hx)
        · -- nothing comes before the head
          have hzero : l.countP (fun z => key z < key x) = 0 :=
            List.countP_eq_zero.mpr fun z hz => by simpa using (hy z hz).le
          exact ⟨.inl rfl, by simp [hzero]⟩
        · obtain ⟨hmem, hlt⟩ := ih.mp hx
          refine ⟨.inr hmem, ?_⟩
          split_ifs <;> omega
      · rintro ⟨rfl | hmem, hlt⟩
        · exact .inl rfl
        · refine .inr (ih.mpr ⟨hmem, ?_⟩)
          rw [if_pos (decide_eq_true (hy x hmem))] at hlt
          omega

/-- An item is among the first `n` by a key if and only if fewer than `n` have a smaller key. -/
theorem mem_take_insertionSort_iff {key : α → κ} (hkey : Function.Injective key) {l : List α}
    (hl : l.Nodup) (n : ℕ) (x : α) :
    x ∈ (l.insertionSort fun y z => key y ≤ key z).take n ↔
      x ∈ l ∧ l.countP (fun y => key y < key x) < n := by
  have hperm := List.perm_insertionSort (fun y z => key y ≤ key z) l
  have hle : (l.insertionSort fun y z => key y ≤ key z).Pairwise fun y z => key y ≤ key z :=
    List.pairwise_insertionSort _ _
  have hlt := hle.imp₂ (fun y z hle hne => lt_of_le_of_ne hle fun h => hne (hkey h))
    (hperm.nodup_iff.mpr hl)
  rw [mem_take_iff_of_pairwise hlt, hperm.mem_iff, hperm.countP_eq]

end C2Engine.Store
