import C2Engine.Python.Substitution

/-!
# Reading a text piece by piece

A pattern that is a sequence of simple patterns reads a text piece by piece, each pattern its piece,
where a greedy one finds something behind its piece that it does not read. So the match of a pattern
in a text that was written for it is put together from the matches of the pieces.

## Main definitions

* `Re.Reads`: a pattern reads one piece of a text and captures certain groups.

## Main results

* `Re.Reads.seq`, `Re.Reads.group`, `Re.Reads.plus_set`: the rules.
* `Re.mem_finditer_of_reads`: what a pattern reads at the beginning of a text is found.
-/

namespace C2Engine.Python.Re

variable {α : Type} {A : Alphabet α}

/-- Of a text `u ++ v` the pattern reads the piece `u`, and captures the groups `gs`, whatever
stands before it. -/
def Reads (A : Alphabet α) (r : Re α) (u : List α) (gs : List (ℕ × List α)) (v : List α) : Prop :=
  ∀ prevWord caps, ∃ b, Prefers A r ⟨prevWord, u ++ v, caps⟩ ⟨b, v, caps ++ gs⟩

namespace Reads

variable {a b : Re α} {u v w : List α} {gs hs : List (ℕ × List α)}

theorem seq (ha : Reads A a u gs (w ++ v)) (hb : Reads A b w hs v) :
    Reads A (seq a b) (u ++ w) (gs ++ hs) v := by
  intro prevWord caps
  obtain ⟨mid, ha⟩ := ha prevWord caps
  obtain ⟨last, hb⟩ := hb mid (caps ++ gs)
  rw [List.append_assoc] at hb
  rw [List.append_assoc]
  exact ⟨last, ha.seq hb⟩

theorem left (ha : Reads A a u gs v) : Reads A (alt a b) u gs v := fun prevWord caps =>
  (ha prevWord caps).imp fun _ h => h.left

theorem right (ha : ∀ prevWord caps, run A a ⟨prevWord, u ++ v, caps⟩ = [])
    (hb : Reads A b u gs v) : Reads A (alt a b) u gs v := fun prevWord caps =>
  (hb prevWord caps).imp fun _ h => .right (ha prevWord caps) h

theorem eps : Reads A eps [] [] v := fun prevWord caps => by
  rw [List.append_nil]
  exact ⟨prevWord, .eps _⟩

/-- A group captures the piece. -/
theorem group {n : ℕ} (ha : Reads A a u gs v) : Reads A (group n a) u (gs ++ [(n, u)]) v := by
  intro prevWord caps
  obtain ⟨last, ha⟩ := ha prevWord caps
  have hgroup := ha.group (n := n)
  rw [consumed_of_append (u := u) rfl, List.append_assoc] at hgroup
  exact ⟨last, hgroup⟩

theorem set {p : α → Bool} {x : α} (h : p x) : Reads A (set p) [x] [] v := by
  intro prevWord caps
  rw [List.append_nil]
  exact ⟨_, .set h⟩

/-- A class read once or more goes as far as the class. -/
theorem plus_set {p : α → Bool} (hne : u ≠ []) (hu : ∀ x ∈ u, p x)
    (hv : ∀ x ∈ v.head?, p x = false) : Reads A (plus (.set p)) u [] v := by
  intro prevWord caps
  rw [List.append_nil]
  exact Prefers.atLeast_set (n := 1) (List.length_pos_of_ne_nil hne) hu hv prevWord caps

/-- A class read any number of times goes as far as the class. -/
theorem star_set {p : α → Bool} (hu : ∀ x ∈ u, p x) (hv : ∀ x ∈ v.head?, p x = false) :
    Reads A (star true (.set p)) u [] v := by
  intro prevWord caps
  rw [List.append_nil]
  have hrun : ∀ c, run A (atLeast (.set p) 0) c = run A (star true (.set p)) c := fun c =>
    List.flatMap_singleton ..
  obtain ⟨last, h⟩ := Prefers.atLeast_set (n := 0) (A := A) (Nat.zero_le _) hu hv prevWord caps
  rw [Prefers, hrun] at h
  exact ⟨last, h⟩

/-- A lazy repetition tries the positions from the first on. -/
theorem starGo_lazy {p q : α → Bool} {y : α} {u v : List α} (hp : ∀ x ∈ u, p x)
    (hq : ∀ x ∈ u, q x = false) (prevWord : Bool) (caps : List (ℕ × List α)) : ∃ front b back,
      starGo false (run A (.set p)) (u ++ y :: v).length ⟨prevWord, u ++ y :: v, caps⟩ =
        front ++ ⟨b, y :: v, caps⟩ :: back ∧
      ∀ c ∈ front, c.caps = caps ∧ ∃ x xs, c.rest = x :: xs ∧ q x = false := by
  induction u generalizing prevWord with
  | nil => exact ⟨[], prevWord, _, rfl, List.forall_mem_nil _⟩
  | cons x u ih =>
    obtain ⟨hpx, hp⟩ := List.forall_mem_cons.mp hp
    obtain ⟨hqx, hq⟩ := List.forall_mem_cons.mp hq
    obtain ⟨front, b, back, hgo, hfront⟩ := ih hp hq (A.isWord x)
    have hone : run A (.set p) ⟨prevWord, x :: (u ++ y :: v), caps⟩ =
        [⟨A.isWord x, u ++ y :: v, caps⟩] := by
      simp [run, hpx]
    refine ⟨⟨prevWord, x :: (u ++ y :: v), caps⟩ :: front, b, back, ?_, ?_⟩
    · rw [List.cons_append, List.length_cons, starGo, hone]
      simpa using hgo
    · exact List.forall_mem_cons.mpr ⟨⟨rfl, x, _, rfl, hqx⟩, hfront⟩

/-- **A lazy repetition goes as far as what follows it**: here a class that stops it. -/
theorem group_lazy_until {p q : α → Bool} {n : ℕ} {y : α} (hne : u ≠ []) (hp : ∀ x ∈ u, p x)
    (hq : ∀ x ∈ u, q x = false) (hy : q y) :
    Reads A (.seq (.group n (.plusLazy (.set p))) (.set q)) (u ++ [y]) [(n, u)] v := by
  intro prevWord caps
  obtain ⟨x, u, rfl⟩ := List.exists_cons_of_ne_nil hne
  obtain ⟨hpx, hp⟩ := List.forall_mem_cons.mp hp
  obtain ⟨front, b, back, hgo, hfront⟩ :=
    @starGo_lazy _ A p q y u v hp (List.forall_mem_cons.mp hq).2 (A.isWord x) caps
  have htext : x :: u ++ [y] ++ v = x :: (u ++ y :: v) := by simp
  have hrun : run A (.plusLazy (.set p)) ⟨prevWord, x :: (u ++ y :: v), caps⟩ =
      front ++ ⟨b, y :: v, caps⟩ :: back := by
    have hone : run A (.set p) ⟨prevWord, x :: (u ++ y :: v), caps⟩ =
        [⟨A.isWord x, u ++ y :: v, caps⟩] := by
      simp [run, hpx]
    rw [plusLazy, run, hone, List.flatMap_singleton]
    exact hgo
  have hconsumed : consumed (⟨prevWord, x :: (u ++ y :: v), caps⟩ : Cursor α) ⟨b, y :: v, caps⟩ =
      x :: u := consumed_of_append rfl
  -- what is tried first is not followed by the class
  have hskip : (front.map fun d => { d with caps := d.caps ++
      [(n, consumed (⟨prevWord, x :: (u ++ y :: v), caps⟩ : Cursor α) d)] }).flatMap
        (run A (.set q)) = [] := by
    rw [List.flatMap_map, List.flatMap_eq_nil_iff]
    intro c hc
    obtain ⟨-, z, zs, hrest, hz⟩ := hfront c hc
    simp [run, hrest, hz]
  refine ⟨A.isWord y, ?_⟩
  rw [htext, Prefers, run, run, hrun, List.map_append, List.map_cons, List.flatMap_append, hskip,
    List.nil_append, List.flatMap_cons, hconsumed]
  simp [run, hy]

/-- A given text. -/
theorem lit [DecidableEq α] : Reads A (lit u) u [] v := by
  intro prevWord caps
  refine ⟨u.foldl (fun _ x => A.isWord x) prevWord, ?_⟩
  have hstart : u.isPrefixOf (u ++ v) := List.isPrefixOf_iff_prefix.mpr ⟨v, rfl⟩
  rw [List.append_nil, Prefers, run_lit, if_pos hstart, List.drop_left]
  rfl

end Reads

/-- **What a pattern reads at the beginning of a text** is found. -/
theorem mem_finditer_of_reads {r : Re α} {u v : List α} {gs : List (ℕ × List α)} (hne : u ≠ [])
    (h : Reads A r u gs v) : ⟨u, gs⟩ ∈ finditer A r (u ++ v) := by
  obtain ⟨x, u, rfl⟩ := List.exists_cons_of_ne_nil hne
  obtain ⟨last, h⟩ := h false []
  have hmatch : matchAt A r false (x :: u ++ v) = some ⟨x :: u, gs⟩ := by
    rw [matchAt, h, Option.map_some, consumed_of_append (u := x :: u) rfl, List.nil_append]
  rw [List.cons_append] at hmatch ⊢
  rw [finditer, scan, hmatch]
  exact List.mem_cons_self

/-- A text is read whatever its case. -/
theorem Reads.litI {A : Alphabet CodePoint} {s u v : PyStr} (h : u.map CodePoint.asciiLower = s) :
    Reads A (litI s) u [] v := by
  intro prevWord caps
  refine ⟨u.foldl (fun _ x => A.isWord x) prevWord, ?_⟩
  rw [List.append_nil, Prefers, run_litI s u ⟨prevWord, u ++ v, caps⟩ h rfl]
  rfl

end C2Engine.Python.Re
