import C2Engine.Python.Str

/-!
# Splitting and joining texts

The parts of a text between separators, joined, are the text. A text that was joined with a
separator is split at it again, and the parts come back where none of them contains the separator.
One text stands for two lists of parts, the list without parts and the list of one empty part.

## Main results

* `join_split`: the parts of a text, joined, are the text.
* `split_join`: the parts of a joined text come back.
* `join_inj`: a joined text determines its parts, up to the two lists of the empty text.
-/

namespace C2Engine.Python.PyStr

/-! ### Splitting -/

@[simp] theorem split_nil (sep : CodePoint) : split sep [] = [[]] := rfl

theorem split_ne_nil (sep : CodePoint) : (s : PyStr) → split sep s ≠ []
  | [] => nofun
  | c :: s => by
      rw [split]
      split_ifs
      · exact List.cons_ne_nil _ _
      · cases hs : split sep s with
        | nil => exact List.cons_ne_nil _ _
        | cons w ws => exact List.cons_ne_nil _ _

/-- A string is its parts joined. -/
theorem join_split (sep : CodePoint) : (s : PyStr) → join [sep] (split sep s) = s
  | [] => rfl
  | c :: s => by
      have ih := join_split sep s
      rw [split]
      cases hs : split sep s with
      | nil => exact absurd hs (split_ne_nil sep s)
      | cons w ws =>
        rw [hs] at ih
        by_cases hc : c = sep
        · rw [if_pos hc, join_cons_cons, ih, hc]
          rfl
        · rw [if_neg hc]
          cases ws with
          | nil =>
            rw [join_singleton] at ih
            rw [join_singleton, ih]
          | cons w' ws =>
            rw [join_cons_cons] at ih ⊢
            rw [← ih]
            rfl

/-- A character of a string is the separator or in a part. -/
theorem exists_mem_split {sep c : CodePoint} {s : PyStr} (h : c ∈ s) (hc : c ≠ sep) :
    ∃ p ∈ split sep s, c ∈ p := by
  induction s with
  | nil => cases h
  | cons d s ih =>
    rw [split]
    rcases List.mem_cons.mp h with rfl | h
    · rw [if_neg hc]
      cases hs : split sep s with
      | nil => exact absurd hs (split_ne_nil sep s)
      | cons w ws => exact ⟨c :: w, List.mem_cons_self, List.mem_cons_self⟩
    · obtain ⟨p, hp, hcp⟩ := ih h
      split_ifs with hd
      · exact ⟨p, List.mem_cons_of_mem _ hp, hcp⟩
      · cases hs : split sep s with
        | nil => exact absurd hs (split_ne_nil sep s)
        | cons w ws =>
          rw [hs] at hp
          rcases List.mem_cons.mp hp with rfl | hp
          · exact ⟨d :: p, List.mem_cons_self, List.mem_cons_of_mem _ hcp⟩
          · exact ⟨p, List.mem_cons_of_mem _ hp, hcp⟩

/-- A character of a part is one of the string. -/
theorem mem_of_mem_split {sep c : CodePoint} {p : PyStr} : {s : PyStr} → p ∈ split sep s → c ∈ p →
    c ∈ s
  | [], hp, hc => by
      rw [split_nil, List.mem_singleton] at hp
      exact hp ▸ hc
  | d :: s, hp, hc => by
      have ih : ∀ q ∈ split sep s, c ∈ q → c ∈ s := fun q hq hcq => mem_of_mem_split hq hcq
      rw [split] at hp
      split_ifs at hp with hd
      · rcases List.mem_cons.mp hp with rfl | hp
        · cases hc
        · exact List.mem_cons_of_mem d (ih p hp hc)
      · cases hs : split sep s with
        | nil => exact absurd hs (split_ne_nil sep s)
        | cons w ws =>
          rw [hs] at hp ih
          rcases List.mem_cons.mp hp with rfl | hp
          · rcases List.mem_cons.mp hc with rfl | hc
            · exact List.mem_cons_self
            · exact List.mem_cons_of_mem d (ih w List.mem_cons_self hc)
          · exact List.mem_cons_of_mem d (ih p (List.mem_cons_of_mem w hp) hc)

/-- A string without the separator is its only part. -/
theorem split_of_notMem {sep : CodePoint} : {s : PyStr} → sep ∉ s → split sep s = [s]
  | [], _ => rfl
  | c :: s, h => by
      have hc : c ≠ sep := fun hc => h (by simp [hc])
      rw [split, if_neg hc, split_of_notMem fun hs => h (List.mem_cons_of_mem c hs)]

/-- The parts of a string that starts with a part. -/
theorem split_append {sep : CodePoint} (t : PyStr) : {s : PyStr} → sep ∉ s →
    split sep (s ++ sep :: t) = s :: split sep t
  | [], _ => by rw [List.nil_append, split, if_pos rfl]
  | c :: s, h => by
      have hc : c ≠ sep := fun hc => h (by simp [hc])
      rw [List.cons_append, split, if_neg hc,
        split_append t fun hs => h (List.mem_cons_of_mem c hs)]

/-- The parts of a string on both sides of a separator. -/
theorem split_append_cons (sep : CodePoint) (t : PyStr) : (s : PyStr) →
    split sep (s ++ sep :: t) = split sep s ++ split sep t
  | [] => by
      rw [List.nil_append, split_nil, List.singleton_append, split, if_pos rfl]
  | c :: s => by
      rw [List.cons_append, split, split, split_append_cons sep t s]
      split_ifs
      · rfl
      · obtain ⟨w, ws, hs⟩ := List.exists_cons_of_ne_nil (split_ne_nil sep s)
        rw [hs]
        rfl

/-- A string that ends with the separator has an empty last part. -/
theorem split_concat (sep : CodePoint) (s : PyStr) : split sep (s ++ [sep]) = split sep s ++ [[]] :=
  split_append_cons sep [] s

/-- The first part of a string. -/
theorem head?_split (sep : CodePoint) : (s : PyStr) →
    (split sep s).head? = some (s.takeWhile fun c => !(c == sep))
  | [] => rfl
  | c :: s => by
      have ih := head?_split sep s
      rw [split]
      split_ifs with hc
      · rw [hc, List.takeWhile_cons_of_neg (by simp)]
        rfl
      · obtain ⟨w, ws, hs⟩ := List.exists_cons_of_ne_nil (split_ne_nil sep s)
        rw [hs] at ih ⊢
        rw [List.takeWhile_cons_of_pos (by simpa using hc), ← Option.some.inj ih]
        rfl

/-- The last separator of a text. -/
theorem rpartition_append_cons {sep : CodePoint} {t : PyStr} (s : PyStr) (h : sep ∉ t) :
    rpartition sep (s ++ sep :: t) = (s, true, t) := by
  have hpart : ∀ {u : PyStr}, sep ∉ u → ∀ v, partition sep (u ++ sep :: v) = (u, true, v) := by
    intro u hu v
    induction u with
    | nil => rw [List.nil_append, partition, if_pos rfl]
    | cons c u ih =>
      have hc : c ≠ sep := fun heq => hu (heq ▸ List.mem_cons_self)
      rw [List.cons_append, partition, if_neg hc, ih fun hmem => hu (List.mem_cons_of_mem c hmem)]
  have hrev : (s ++ sep :: t).reverse = t.reverse ++ sep :: s.reverse := by simp
  rw [rpartition, hrev, hpart (by rwa [List.mem_reverse])]
  simp

/-! ### Joining -/

variable {sep : CodePoint}

/-- The parts of a joined text come back. -/
theorem split_join : {parts : List PyStr} → parts ≠ [] → (∀ p ∈ parts, sep ∉ p) →
    split sep (join [sep] parts) = parts
  | [p], _, h => split_of_notMem (h p (List.mem_singleton_self p))
  | p :: q :: parts, _, h => by
      obtain ⟨hp, hrest⟩ := List.forall_mem_cons.mp h
      rw [join_cons_cons, List.append_assoc, List.singleton_append, split_append _ hp,
        split_join (List.cons_ne_nil q parts) hrest]

/-- A character of a joined text is one of the separator or of a part. -/
theorem mem_join {sep : PyStr} {c : CodePoint} : {parts : List PyStr} → c ∈ join sep parts →
    c ∈ sep ∨ ∃ p ∈ parts, c ∈ p
  | [], h => by cases h
  | [p], h => .inr ⟨p, List.mem_singleton_self p, h⟩
  | p :: q :: parts, h => by
      rw [join_cons_cons, List.append_assoc, List.mem_append, List.mem_append] at h
      rcases h with h | h | h
      · exact .inr ⟨p, List.mem_cons_self, h⟩
      · exact .inl h
      · exact (mem_join h).imp_right fun ⟨r, hr, hc⟩ => ⟨r, List.mem_cons_of_mem p hr, hc⟩

/-- Parts whose joined text is empty. -/
theorem join_eq_nil {parts : List PyStr} (h : join [sep] parts = []) :
    parts = [] ∨ parts = [[]] := by
  rcases parts with _ | ⟨p, _ | ⟨q, parts⟩⟩
  · exact .inl rfl
  · exact .inr (congrArg (fun p => [p]) h)
  · simp [join_cons_cons] at h

/-- **A joined text determines its parts**, unless it is empty: then there is no part or one empty
part. -/
theorem join_inj {parts parts' : List PyStr} (h : ∀ p ∈ parts, sep ∉ p)
    (h' : ∀ p ∈ parts', sep ∉ p) (heq : join [sep] parts = join [sep] parts')
    (hne : join [sep] parts ≠ []) : parts = parts' := by
  have hparts : parts ≠ [] := by
    rintro rfl
    exact hne rfl
  have hparts' : parts' ≠ [] := by
    rintro rfl
    exact hne heq
  rw [← split_join hparts h, heq, split_join hparts' h']

/-- A joined text determines its parts, if their number is known. -/
theorem join_inj_of_length {parts parts' : List PyStr} (h : ∀ p ∈ parts, sep ∉ p)
    (h' : ∀ p ∈ parts', sep ∉ p) (heq : join [sep] parts = join [sep] parts')
    (hlen : parts.length = parts'.length) : parts = parts' := by
  rcases eq_or_ne parts [] with rfl | hne
  · exact (List.length_eq_zero_iff.mp hlen.symm).symm
  · have hne' : parts' ≠ [] := by
      rintro rfl
      exact hne (List.length_eq_zero_iff.mp hlen)
    rw [← split_join hne h, heq, split_join hne' h']

end C2Engine.Python.PyStr
