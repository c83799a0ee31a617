import C2Engine.Python.Matching

/-!
# Splitting a text

`re.split` for a pattern, and splitting by two classes of characters one after the other. A
pattern whose matches are runs of a class splits a text where the class stands, up to empty pieces.

## Main definitions

* `Re.split`: `re.split`.
* `Re.Separates`: a pattern for runs of a class.

## Main results

* `flatMap_splitOnP`: the pieces of the pieces are the pieces for both classes.
* `Re.mem_split`, `Re.mem_split_of_ne_nil`: the pieces of a pattern that separates.
* `Re.findall_splitOnP`: what is found in a text is found in its pieces.
-/

namespace C2Engine.Python

variable {α : Type}

/-- The pieces of the pieces of a text are its pieces for both classes. -/
theorem flatMap_splitOnP (p q : α → Bool) (s : List α) :
    (s.splitOnP p).flatMap (List.splitOnP q) = s.splitOnP fun x => p x || q x := by
  induction s with
  | nil => rfl
  | cons x s ih =>
    rw [List.splitOnP_cons_eq_if_modifyHead, List.splitOnP_cons_eq_if_modifyHead, ← ih]
    cases hp : p x with
    | true => rfl
    | false =>
      obtain ⟨h, t, ht⟩ := List.exists_cons_of_ne_nil (List.splitOnP_ne_nil p s)
      rw [ht]
      simp only [Bool.false_eq_true, if_false, Bool.false_or, List.modifyHead_cons,
        List.flatMap_cons, List.splitOnP_cons_eq_if_modifyHead]
      cases hq : q x with
      | true => rfl
      | false =>
        obtain ⟨h', t', ht'⟩ := List.exists_cons_of_ne_nil (List.splitOnP_ne_nil q h)
        rw [ht']
        rfl

/-- A piece has no character of the class. -/
theorem notMem_of_mem_splitOnP {p : α → Bool} {s w : List α} (h : w ∈ s.splitOnP p) :
    ∀ x ∈ w, p x = false := by
  induction s generalizing w with
  | nil =>
    obtain rfl := List.mem_singleton.mp h
    exact List.forall_mem_nil _
  | cons x s ih =>
    rw [List.splitOnP_cons_eq_if_modifyHead] at h
    cases hp : p x with
    | true =>
      rw [hp, if_pos rfl] at h
      rcases List.mem_cons.mp h with rfl | h
      · exact List.forall_mem_nil _
      · exact ih h
    | false =>
      obtain ⟨v, t, ht⟩ := List.exists_cons_of_ne_nil (List.splitOnP_ne_nil p s)
      rw [hp, if_neg Bool.false_ne_true, ht, List.modifyHead_cons] at h
      rw [ht] at ih
      rcases List.mem_cons.mp h with rfl | h
      · exact List.forall_mem_cons.mpr ⟨hp, ih List.mem_cons_self⟩
      · exact ih (List.mem_cons_of_mem _ h)

/-- A piece is a run of the text, and the first piece its beginning. -/
theorem isInfix_of_mem_splitOnP {p : α → Bool} {s w : List α} (h : w ∈ s.splitOnP p) :
    w <:+: s := by
  have hpieces : ∃ v t, s.splitOnP p = v :: t ∧ v <+: s ∧ ∀ w ∈ t, w <:+: s := by
    clear h
    induction s with
    | nil => exact ⟨[], [], rfl, List.nil_prefix, List.forall_mem_nil _⟩
    | cons x s ih =>
      obtain ⟨v, t, ht, hv, hrest⟩ := ih
      have hrest' : ∀ w ∈ t, w <:+: x :: s := fun w hw =>
        (hrest w hw).trans (List.suffix_cons x s).isInfix
      rw [List.splitOnP_cons_eq_if_modifyHead]
      split_ifs
      · refine ⟨[], _, rfl, List.nil_prefix, ?_⟩
        rw [ht]
        exact List.forall_mem_cons.mpr
          ⟨hv.isInfix.trans (List.suffix_cons x s).isInfix, hrest'⟩
      · exact ⟨x :: v, t, by rw [ht]; rfl, List.cons_prefix_cons.mpr ⟨rfl, hv⟩, hrest'⟩
  obtain ⟨v, t, ht, hv, hrest⟩ := hpieces
  rw [ht] at h
  rcases List.mem_cons.mp h with rfl | h
  · exact hv.isInfix
  · exact hrest w h

namespace Re

variable {A : Alphabet α} {r : Re α}

/-- The scan of `split`, as `scan` does it: the first piece is the one in progress. -/
def splitGo (A : Alphabet α) (r : Re α) : ℕ → Bool → List α → List (List α)
  | _, _, [] => [[]]
  | skip + 1, _, x :: xs => splitGo A r skip (A.isWord x) xs
  | 0, prevWord, x :: xs => match matchAt A r prevWord (x :: xs) with
    | some m => [] :: splitGo A r (m.text.length - 1) (A.isWord x) xs
    | none => (splitGo A r 0 (A.isWord x) xs).modifyHead (List.cons x)

/-- `re.split(r, text)`, for a pattern without groups that matches no empty text. -/
def split (A : Alphabet α) (r : Re α) (text : List α) : List (List α) := splitGo A r 0 false text

/-- A pattern for runs of a class: it reads nothing else, and matches wherever the class does. -/
structure Separates (A : Alphabet α) (r : Re α) (p : α → Bool) : Prop where
  reads : ∀ {w}, Lang r w → ∀ x ∈ w, p x
  finds : ∀ {x xs b}, p x → (matchAt A r b (x :: xs)).isSome
  minLen_pos : 0 < r.minLen

/-- What the scan makes of a text, besides what its pieces are for the class: the first piece is
the same outside a match, and every other one is empty or one of them. -/
def PiecesOf (skip : ℕ) (pieces pieces' : List (List α)) : Prop :=
  ∃ h t h' t', pieces = h :: t ∧ pieces' = h' :: t' ∧ (skip = 0 → h = h') ∧
    (h = [] ∨ h ∈ pieces') ∧ ∀ w ∈ t, w = [] ∨ w ∈ t'

/-- A match of a pattern that separates reads the class only. -/
theorem reads_of_matchAt {p : α → Bool} (hr : Separates A r p) {x : α} {s : List α} {b : Bool}
    {m : Match α} (hmatch : matchAt A r b (x :: s) = some m) :
    p x ∧ ∀ y ∈ s.take (m.text.length - 1), p y := by
  obtain ⟨hlang, hfront⟩ := lang_of_matchAt hmatch
  obtain ⟨v, hv⟩ : ∃ v, m.text = x :: v := by
    cases hm : m.text with
    | nil =>
      have hlen := hlang.minLen_le
      rw [hm] at hlen
      exact absurd hr.minLen_pos (not_lt.mpr hlen)
    | cons y v =>
      rw [hm] at hfront
      exact ⟨v, by rw [(List.cons_prefix_cons.mp hfront).1]⟩
  have hall := hr.reads hlang
  rw [hv] at hfront hall
  have hv' := (List.cons_prefix_cons.mp hfront).2
  refine ⟨hall x List.mem_cons_self, ?_⟩
  rw [hv, List.length_cons, Nat.add_sub_cancel, ← List.prefix_iff_eq_take.mp hv']
  exact fun y hy => hall y (List.mem_cons_of_mem _ hy)

theorem piecesOf_splitGo {p : α → Bool} (hr : Separates A r p) : (s : List α) → (skip : ℕ) →
    (b : Bool) → (∀ x ∈ s.take skip, p x) → PiecesOf skip (splitGo A r skip b s) (s.splitOnP p)
  | [], skip, b, _ => by
      cases skip <;> exact ⟨[], [], [], [], rfl, rfl, fun _ => rfl, .inl rfl, List.forall_mem_nil _⟩
  | x :: s, skip + 1, b, hskip => by
      obtain ⟨hx, hskip⟩ := List.forall_mem_cons.mp hskip
      obtain ⟨h, t, h', t', hgo, hsplit, -, hhead, htail⟩ :=
        piecesOf_splitGo hr s skip (A.isWord x) hskip
      refine ⟨h, t, [], h' :: t', hgo, ?_, nofun, ?_, fun w hw => ?_⟩
      · rw [List.splitOnP_cons_eq_if_modifyHead, if_pos hx, hsplit]
      · rw [List.splitOnP_cons_eq_if_modifyHead, if_pos hx]
        exact hhead.imp_right (List.mem_cons_of_mem _)
      · exact (htail w hw).imp_right (List.mem_cons_of_mem _)
  | x :: s, 0, b, _ => by
      rw [splitGo]
      cases hmatch : matchAt A r b (x :: s) with
      | some m =>
        obtain ⟨hx, hskip⟩ := reads_of_matchAt hr hmatch
        obtain ⟨h, t, h', t', hgo, hsplit, -, hhead, htail⟩ :=
          piecesOf_splitGo hr s _ (A.isWord x) hskip
        refine ⟨[], _, [], h' :: t', rfl, ?_, fun _ => rfl, .inl rfl, ?_⟩
        · rw [List.splitOnP_cons_eq_if_modifyHead, if_pos hx, hsplit]
        · rw [hgo]
          rw [hsplit] at hhead
          exact List.forall_mem_cons.mpr
            ⟨hhead, fun w hw => (htail w hw).imp_right (List.mem_cons_of_mem _)⟩
      | none =>
        have hx : ¬ p x = true := fun hx => by
          have hsome : (matchAt A r b (x :: s)).isSome := hr.finds hx
          rw [hmatch] at hsome
          cases hsome
        obtain ⟨h, t, h', t', hgo, hsplit, heq, -, htail⟩ :=
          piecesOf_splitGo hr s 0 (A.isWord x) (List.forall_mem_nil _)
        obtain rfl := heq rfl
        refine ⟨x :: h, t, x :: h, t', ?_, ?_, fun _ => rfl, .inr ?_, htail⟩
        · rw [hgo]
          rfl
        · rw [List.splitOnP_cons_eq_if_modifyHead, if_neg hx, hsplit]
          rfl
        · rw [List.splitOnP_cons_eq_if_modifyHead, if_neg hx, hsplit]
          exact List.mem_cons_self

/-- **The pieces of a pattern that separates** are empty or pieces for the class. -/
theorem mem_split {p : α → Bool} (hr : Separates A r p) {s w : List α} (h : w ∈ split A r s) :
    w = [] ∨ w ∈ s.splitOnP p := by
  obtain ⟨v, t, v', t', hgo, hsplit, -, hhead, htail⟩ :=
    piecesOf_splitGo hr s 0 false (List.forall_mem_nil _)
  rw [split, hgo] at h
  rcases List.mem_cons.mp h with rfl | h
  · exact hhead
  · exact (htail w h).imp_right fun hw => hsplit ▸ List.mem_cons_of_mem _ hw

/-- The scan cuts out the same pieces, but for empty ones. -/
theorem filter_splitGo {p : α → Bool} (hr : Separates A r p) (s : List α) (skip : ℕ) (b : Bool)
    (hskip : ∀ x ∈ s.take skip, p x) :
    (splitGo A r skip b s).filter (fun w => !w.isEmpty) =
      (s.splitOnP p).filter fun w => !w.isEmpty := by
  induction s generalizing skip b with
  | nil => cases skip <;> rfl
  | cons x s ih =>
    have hcut : p x → ((x :: s).splitOnP p).filter (fun w => !w.isEmpty) =
        (s.splitOnP p).filter fun w => !w.isEmpty := fun hx => by
      rw [List.splitOnP_cons_eq_if_modifyHead, if_pos hx]
      rfl
    cases skip with
    | succ skip =>
      obtain ⟨hx, hskip⟩ := List.forall_mem_cons.mp hskip
      rw [hcut hx]
      exact ih skip (A.isWord x) hskip
    | zero =>
      rw [splitGo]
      cases hmatch : matchAt A r b (x :: s) with
      | some m =>
        obtain ⟨hx, hskip⟩ := reads_of_matchAt hr hmatch
        rw [hcut hx]
        exact ih _ (A.isWord x) hskip
      | none =>
        have hx : ¬ p x = true := fun hx => by
          have hsome : (matchAt A r b (x :: s)).isSome := hr.finds hx
          rw [hmatch] at hsome
          cases hsome
        -- the first pieces are the same, and so are the others
        obtain ⟨h, t, h', t', hgo, hsplit, heq, -, -⟩ :=
          piecesOf_splitGo hr s 0 (A.isWord x) (List.forall_mem_nil _)
        obtain rfl := heq rfl
        have hrest := ih 0 (A.isWord x) (List.forall_mem_nil _)
        rw [hgo, hsplit] at hrest
        have htail : t.filter (fun w => !w.isEmpty) = t'.filter fun w => !w.isEmpty := by
          cases h with
          | nil => exact hrest
          | cons y h => exact (List.cons.inj hrest).2
        rw [List.splitOnP_cons_eq_if_modifyHead, if_neg hx, hgo, hsplit]
        exact congrArg (List.cons (x :: h)) htail

/-- A piece for the class that is not empty is a piece of the pattern. -/
theorem mem_split_of_ne_nil {p : α → Bool} (hr : Separates A r p) {s w : List α}
    (h : w ∈ s.splitOnP p) (hne : w ≠ []) : w ∈ split A r s := by
  have hmem : w ∈ (s.splitOnP p).filter fun w => !w.isEmpty :=
    List.mem_filter.mpr ⟨h, by simp [hne]⟩
  rw [← filter_splitGo hr s 0 false (List.forall_mem_nil _)] at hmem
  exact (List.mem_filter.mp hmem).1

/-- **What is found in a text is found in its pieces**, for a pattern that reads no character
between them. -/
theorem findall_splitOnP {p : α → Bool} (hword : ∀ x, p x → A.isWord x = false)
    (hlocal : ∀ x, p x → r.Local x) (hmin : 0 < r.minLen) (s : List α) :
    findall A r s = (s.splitOnP p).flatMap (findall A r) := by
  suffices h : ∀ w s : List α, (∀ x ∈ w, p x = false) →
      findall A r (w ++ s) = ((w ++ s).splitOnP p).flatMap (findall A r) from
    h [] s (List.forall_mem_nil _)
  intro w s hw
  induction s generalizing w with
  | nil => rw [List.append_nil, List.splitOnP_eq_singleton hw, List.flatMap_singleton]
  | cons x s ih =>
    cases hx : p x with
    | true =>
      rw [List.splitOnP_append_cons w s hx, List.flatMap_append, List.splitOnP_eq_singleton hw,
        List.flatMap_singleton, findall_append A (hword x hx) (hlocal x hx) hmin]
      exact congrArg _ (ih [] (List.forall_mem_nil _))
    | false =>
      have h := ih (w ++ [x]) (List.forall_mem_append.mpr ⟨hw, List.forall_mem_singleton.mpr hx⟩)
      rwa [List.append_assoc, List.singleton_append] at h

end Re

end C2Engine.Python
