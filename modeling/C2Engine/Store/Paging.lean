import Mathlib.Order.Defs.LinearOrder
import Mathlib.Data.List.Basic
import Mathlib.Algebra.Order.Ring.Int

/-!
# Reading a list page by page

A server that holds a list ordered by a key answers with pages: the first items whose key comes
after a cursor, at most as many as were asked for. A client that takes the key of the last item of
a page as the next cursor reads the list from its start to its end, each item once.

`Rest` states where such a client is: it relates the cursor to the items that are still to come.
`Pages` lists the pages of a client that reads no more than a cap, up to where it stops.

## Main definitions

* `page`: the page behind a cursor.
* `Rest`: the items still to come.
* `Pages`: the pages a client reads.

## Main results

* `Rest.page_eq`: the next page is the beginning of what is still to come.
* `Rest.next`: the cursor after that page.
* `Pages.exists_pages`: a client comes to an end.
* `Pages.flatten_eq`: it has read the items up to the cap, each once.
-/

namespace C2Engine.Store

variable {α κ : Type}

/-- The items behind a cursor; without a cursor all of them. -/
def behind [LinearOrder κ] (key : α → κ) (l : List α) (after : Option κ) : List α :=
  l.filter fun x => after.all fun k => k < key x

/-- The page behind a cursor, of at most `size` items. -/
def page [LinearOrder κ] (key : α → κ) (l : List α) (after : Option κ) (size : ℕ) : List α :=
  (behind key l after).take size

/-- The items `rest` of `l` are still to come for a reader with the cursor `after`. -/
def Rest (key : α → κ) (l : List α) (after : Option κ) (rest : List α) : Prop :=
  ∃ done, l = done ++ rest ∧ after = done.getLast?.map key

namespace Rest

variable {key : α → κ} {l rest : List α} {after : Option κ}

/-- At first everything is to come. -/
theorem start : Rest key l none l := ⟨[], rfl, rfl⟩

/-- What is behind the cursor is what is still to come. -/
theorem behind_eq [LinearOrder κ] (hl : l.Pairwise fun x y => key x < key y)
    (h : Rest key l after rest) : behind key l after = rest := by
  obtain ⟨done, rfl, rfl⟩ := h
  rcases List.eq_nil_or_concat done with rfl | ⟨front, x, rfl⟩
  · simp [behind]
  · rw [List.concat_eq_append] at hl ⊢
    obtain ⟨hdone, -, hcross⟩ := List.pairwise_append.mp hl
    have hfront : ∀ y ∈ front ++ [x], ¬ key x < key y := by
      intro y hy
      rcases List.mem_append.mp hy with hy | hy
      · exact ((List.pairwise_append.mp hdone).2.2 y hy x (List.mem_singleton_self x)).asymm
      · rw [List.mem_singleton.mp hy]
        exact lt_irrefl _
    have hrest : ∀ y ∈ rest, key x < key y := fun y hy => hcross x (by simp) y hy
    rw [behind, List.filter_append, List.filter_eq_nil_iff.mpr, List.filter_eq_self.mpr,
      List.nil_append]
    · simpa using hrest
    · simpa using hfront

/-- A page is the beginning of what is still to come. -/
theorem page_eq [LinearOrder κ] (hl : l.Pairwise fun x y => key x < key y)
    (h : Rest key l after rest) (size : ℕ) : page key l after size = rest.take size := by
  rw [page, h.behind_eq hl]

/-- After a page the reader goes on behind its last item. -/
theorem next (h : Rest key l after rest) {size : ℕ} {x : α}
    (hx : (rest.take size).getLast? = some x) : Rest key l (some (key x)) (rest.drop size) := by
  obtain ⟨done, rfl, -⟩ := h
  refine ⟨done ++ rest.take size, ?_, ?_⟩
  · rw [List.append_assoc, List.take_append_drop]
  · rw [List.getLast?_append, hx]
    rfl

theorem subset (h : Rest key l after rest) : rest ⊆ l := by
  obtain ⟨done, rfl, -⟩ := h
  exact List.subset_append_right _ _

end Rest

/-! ### Reading up to a cap -/

/-- The pages a client reads that asks for `size` items at a time and for `cap` of them in all, when
it has read `loaded` items and its cursor is `after`. It stops at the cap, at an empty page and
behind a page that is short. -/
inductive Pages [LinearOrder κ] (key : α → κ) (l : List α) (cap size : ℕ) :
    Option κ → ℕ → List (List α) → Prop
  | full {after loaded} (h : cap ≤ loaded) : Pages key l cap size after loaded []
  | empty {after loaded} (h : loaded < cap)
      (hpage : page key l after (min size (cap - loaded)) = []) :
      Pages key l cap size after loaded []
  | short {after loaded} (h : loaded < cap)
      (hne : page key l after (min size (cap - loaded)) ≠ [])
      (hshort : (page key l after (min size (cap - loaded))).length < min size (cap - loaded)) :
      Pages key l cap size after loaded [page key l after (min size (cap - loaded))]
  | next {after loaded last pages} (h : loaded < cap)
      (hlast : (page key l after (min size (cap - loaded))).getLast? = some last)
      (hfull : (page key l after (min size (cap - loaded))).length = min size (cap - loaded))
      (hpages : Pages key l cap size (some (key last)) (loaded + min size (cap - loaded)) pages) :
      Pages key l cap size after loaded (page key l after (min size (cap - loaded)) :: pages)

namespace Pages

variable [LinearOrder κ] {key : α → κ} {l : List α} {cap size : ℕ}

/-- **A client comes to an end**, since every page but the last brings it nearer to the cap. -/
theorem exists_pages (hsize : 0 < size) (after : Option κ) (loaded : ℕ) :
    ∃ pages, Pages key l cap size after loaded pages := by
  induction hleft : cap - loaded using Nat.strong_induction_on generalizing after loaded with
  | _ left ih =>
    by_cases hcap : cap ≤ loaded
    · exact ⟨[], .full hcap⟩
    have hlt : loaded < cap := not_le.mp hcap
    have hpos : 0 < min size (cap - loaded) := by omega
    cases hlast : (page key l after (min size (cap - loaded))).getLast? with
    | none => exact ⟨[], .empty hlt (List.getLast?_eq_none_iff.mp hlast)⟩
    | some last =>
      have hne : page key l after (min size (cap - loaded)) ≠ [] := by
        intro hnil
        rw [hnil] at hlast
        cases hlast
      have hle : (page key l after (min size (cap - loaded))).length ≤ min size (cap - loaded) :=
        List.length_take_le _ _
      rcases hle.lt_or_eq with hshort | hfull
      · exact ⟨_, .short hlt hne hshort⟩
      · obtain ⟨pages, hpages⟩ := ih (cap - (loaded + min size (cap - loaded))) (by omega)
          (some (key last)) (loaded + min size (cap - loaded)) rfl
        exact ⟨_, .next hlt hlast hfull hpages⟩

/-- **A client has read the items up to the cap**, in their order and each once, when it stops. -/
theorem flatten_eq (hl : l.Pairwise fun x y => key x < key y) (hsize : 0 < size)
    {after : Option κ} {loaded : ℕ} {pages : List (List α)}
    (h : Pages key l cap size after loaded pages) (hrest : Rest key l after (l.drop loaded)) :
    pages.flatten = (l.take cap).drop loaded := by
  have hdrop (loaded : ℕ) : (l.take cap).drop loaded = (l.drop loaded).take (cap - loaded) :=
    List.drop_take
  induction h with
  | full hcap =>
    rw [hdrop, Nat.sub_eq_zero_of_le hcap, List.take_zero, List.flatten_nil]
  | @empty after loaded hlt hpage =>
    rw [hrest.page_eq hl, List.take_eq_nil_iff] at hpage
    rw [hdrop, hpage.resolve_left (by omega), List.take_nil, List.flatten_nil]
  | @short after loaded hlt hne hshort =>
    -- the page ends with the list
    rw [hrest.page_eq hl] at hshort ⊢
    rw [List.length_take] at hshort
    rw [List.flatten_singleton, hdrop, List.take_of_length_le (by omega),
      List.take_of_length_le (by omega)]
  | @next after loaded last pages hlt hlast hfull hpages ih =>
    rw [hrest.page_eq hl] at hlast ⊢
    have hnext := hrest.next hlast
    rw [List.drop_drop] at hnext
    rw [List.flatten_cons, ih hnext, hdrop, hdrop, ← List.drop_drop, ← List.take_add]
    congr 1
    omega

end Pages

end C2Engine.Store
