import C2Engine.Python.Join

/-!
# Lines of a text

A line is ended by a line feed, or by any of the characters `str.splitlines` breaks at. Of either
reading the same is used: a text put together of parts, each with a line feed behind it, has these
parts for its lines, unless a part has a break of its own; then it has the beginning of the part.

## Main definitions

* `LineReader`: a way to tell the lines of a text.
* `LineReader.lineFeeds`, `LineReader.splitlines`: the two readings.

## Main results

* `LineReader.lines_flatMap`: the lines of parts without breaks.
* `LineReader.sublist_lines_flatMap`: the beginning of every part is a line.
-/

namespace C2Engine.Python

/-- A way to tell the lines of a text: a line feed ends a line, and so may other characters at which
`str.splitlines` breaks. -/
structure LineReader where
  breaks : CodePoint → Bool
  lines : PyStr → List PyStr
  breaks_lineFeed : breaks (cp '\n')
  isLineBreak_of_breaks : ∀ c, breaks c → c.isLineBreak
  lines_nil : lines [] = []
  /-- A part with a line feed behind it begins with a line, which is all of it if it has no
  break. -/
  lines_part : ∀ p t, ∃ more, lines (p ++ cp '\n' :: t) =
    (p.takeWhile fun c => !breaks c) :: (more ++ lines t) ∧
      ((∀ c ∈ p, breaks c = false) → more = [])

namespace LineReader

/-! ### Line feeds -/

/-- The lines that line feeds end; an empty one at the end of the text is none. -/
def feedLines (s : PyStr) : List PyStr :=
  if (PyStr.split (cp '\n') s).getLast? = some [] then (PyStr.split (cp '\n') s).dropLast
  else PyStr.split (cp '\n') s

theorem feedLines_append_cons (p t : PyStr) :
    feedLines (p ++ cp '\n' :: t) = PyStr.split (cp '\n') p ++ feedLines t := by
  have hne := PyStr.split_ne_nil (cp '\n') t
  rw [feedLines, feedLines, PyStr.split_append_cons, List.getLast?_append_of_ne_nil _ hne]
  split_ifs
  · exact List.dropLast_append_of_ne_nil hne
  · rfl

/-- Lines are ended by line feeds. -/
def lineFeeds : LineReader where
  breaks c := c == cp '\n'
  lines := feedLines
  breaks_lineFeed := by decide
  isLineBreak_of_breaks c h := by
    rw [beq_iff_eq.mp h]
    decide
  lines_nil := by decide
  lines_part p t := by
    obtain ⟨w, ws, hs⟩ := List.exists_cons_of_ne_nil (PyStr.split_ne_nil (cp '\n') p)
    have hw : w = p.takeWhile fun c => !(c == cp '\n') := by
      have hhead := PyStr.head?_split (cp '\n') p
      rw [hs] at hhead
      exact Option.some.inj hhead
    refine ⟨ws, ?_, fun h => ?_⟩
    · rw [feedLines_append_cons, hs, List.cons_append, hw]
    · rw [PyStr.split_of_notMem fun hmem => absurd (h _ hmem) (by decide)] at hs
      exact (List.cons.inj hs).2.symm

/-! ### `str.splitlines` -/

theorem splitlines_lineFeed (t : PyStr) :
    PyStr.splitlines (cp '\n' :: t) = [] :: PyStr.splitlines t := by
  cases t with
  | nil => decide
  | cons d t =>
    rw [PyStr.splitlines, if_neg fun h => absurd h.1 (by decide), if_pos (by decide)]

/-- A part with a line feed behind it. -/
theorem splitlines_part (t : PyStr) : (p : PyStr) → ∃ more,
    PyStr.splitlines (p ++ cp '\n' :: t) =
      (p.takeWhile fun c => !c.isLineBreak) :: (more ++ PyStr.splitlines t) ∧
      ((∀ c ∈ p, c.isLineBreak = false) → more = [])
  | [] => ⟨[], splitlines_lineFeed t, fun _ => rfl⟩
  | [c] => by
      rw [List.singleton_append, PyStr.splitlines]
      by_cases hpair : c = 0x0D ∧ cp '\n' = 0x0A
      · rw [if_pos hpair, hpair.1]
        exact ⟨[], rfl, fun _ => rfl⟩
      · rw [if_neg hpair, splitlines_lineFeed]
        by_cases hc : c.isLineBreak
        · rw [if_pos hc, List.takeWhile_cons_of_neg (by simp [hc])]
          exact ⟨[[]], rfl, fun h => absurd (h c List.mem_cons_self) (by simp [hc])⟩
        · rw [if_neg hc, List.takeWhile_cons_of_pos (by simpa using hc)]
          exact ⟨[], rfl, fun _ => rfl⟩
  | c :: d :: p => by
      rw [List.cons_append, List.cons_append, PyStr.splitlines]
      by_cases hpair : c = 0x0D ∧ d = 0x0A
      · -- a carriage return and a line feed
        obtain ⟨more, hmore, -⟩ := splitlines_part t p
        have hc : c.isLineBreak = true := by
          rw [hpair.1]
          decide
        rw [if_pos hpair, hmore, List.takeWhile_cons_of_neg (by simp [hc])]
        exact ⟨_ :: more, rfl, fun h => absurd (h c List.mem_cons_self) (by simp [hc])⟩
      · obtain ⟨more, hmore, hnone⟩ := splitlines_part t (d :: p)
        rw [List.cons_append] at hmore
        rw [if_neg hpair, hmore]
        by_cases hc : c.isLineBreak
        · rw [if_pos hc, List.takeWhile_cons_of_neg (a := c) (by simp [hc])]
          exact ⟨_ :: more, rfl, fun h => absurd (h c List.mem_cons_self) (by simp [hc])⟩
        · rw [if_neg hc, List.takeWhile_cons_of_pos (a := c) (by simpa using hc)]
          exact ⟨more, rfl, fun h => hnone fun x hx => h x (List.mem_cons_of_mem c hx)⟩

/-- A part with a carriage return and a line feed behind it. -/
theorem splitlines_append_crlf (t : PyStr) : (p : PyStr) → (∀ c ∈ p, c.isLineBreak = false) →
    PyStr.splitlines (p ++ [cp '\r', cp '\n'] ++ t) = p :: PyStr.splitlines t
  | [], _ => by
      change PyStr.splitlines (cp '\r' :: cp '\n' :: t) = _
      rw [PyStr.splitlines, if_pos ⟨by decide, by decide⟩]
  | [c], h => by
      have hc := h c (List.mem_singleton_self c)
      have ih : PyStr.splitlines (cp '\r' :: cp '\n' :: t) = [] :: PyStr.splitlines t :=
        splitlines_append_crlf t [] nofun
      change PyStr.splitlines (c :: cp '\r' :: cp '\n' :: t) = _
      rw [PyStr.splitlines, if_neg fun hpair => absurd hpair.2 (by decide),
        if_neg (Bool.eq_false_iff.mp hc), ih]
  | c :: d :: p, h => by
      obtain ⟨hc, hp⟩ := List.forall_mem_cons.mp h
      have ih := splitlines_append_crlf t (d :: p) hp
      have hpair : ¬ (c = 0x0D ∧ d = 0x0A) := by
        rintro ⟨rfl, -⟩
        exact absurd hc (by decide)
      rw [List.cons_append, List.cons_append] at ih
      rw [List.cons_append, List.cons_append, List.cons_append, List.cons_append,
        PyStr.splitlines, if_neg hpair, if_neg (Bool.eq_false_iff.mp hc), ih]

/-- The lines of parts that end with a carriage return and a line feed. -/
theorem splitlines_flatMap_crlf : (parts : List PyStr) →
    (∀ p ∈ parts, ∀ c ∈ p, c.isLineBreak = false) →
    PyStr.splitlines (parts.flatMap fun p => p ++ [cp '\r', cp '\n']) = parts
  | [], _ => rfl
  | p :: parts, h => by
      obtain ⟨hp, hparts⟩ := List.forall_mem_cons.mp h
      rw [List.flatMap_cons, splitlines_append_crlf _ p hp, splitlines_flatMap_crlf parts hparts]

/-- Lines are those of `str.splitlines`. -/
def splitlines : LineReader where
  breaks := CodePoint.isLineBreak
  lines := PyStr.splitlines
  breaks_lineFeed := by decide
  isLineBreak_of_breaks _ h := h
  lines_nil := rfl
  lines_part p t := splitlines_part t p

/-! ### Texts of lines -/

variable (R : LineReader)

/-- The beginning of a text up to a break. -/
def firstLine (p : PyStr) : PyStr := p.takeWhile fun c => !R.breaks c

variable {R}

theorem firstLine_eq_self {p : PyStr} (h : ∀ c ∈ p, R.breaks c = false) : R.firstLine p = p :=
  List.takeWhile_eq_self_iff.mpr fun c hc => by simp [h c hc]

/-- The beginning of a text has no break. -/
theorem breaks_firstLine {p : PyStr} : ∀ c ∈ R.firstLine p, R.breaks c = false := by
  intro c hc
  simpa using List.mem_takeWhile_imp hc

/-- **The lines of parts without breaks** are the parts. -/
theorem lines_flatMap : (parts : List PyStr) → (∀ p ∈ parts, ∀ c ∈ p, R.breaks c = false) →
    R.lines (parts.flatMap fun p => p ++ [cp '\n']) = parts
  | [], _ => R.lines_nil
  | p :: parts, h => by
      obtain ⟨hp, hparts⟩ := List.forall_mem_cons.mp h
      obtain ⟨more, hmore, hnone⟩ := R.lines_part p (parts.flatMap fun p => p ++ [cp '\n'])
      rw [List.flatMap_cons, List.append_assoc, List.singleton_append, hmore, hnone hp,
        List.nil_append, lines_flatMap parts hparts]
      exact congrArg (· :: parts) (firstLine_eq_self hp)

/-- **The beginning of every part is a line**, in the order of the parts. -/
theorem sublist_lines_flatMap : (parts : List PyStr) →
    (parts.map R.firstLine).Sublist (R.lines (parts.flatMap fun p => p ++ [cp '\n']))
  | [] => List.nil_sublist _
  | p :: parts => by
      obtain ⟨more, hmore, -⟩ := R.lines_part p (parts.flatMap fun p => p ++ [cp '\n'])
      rw [List.flatMap_cons, List.append_assoc, List.singleton_append, hmore, List.map_cons]
      exact ((sublist_lines_flatMap parts).trans (List.sublist_append_right _ _)).cons_cons _

/-- Parts joined by line feeds, with one behind the last. -/
theorem join_lineFeed : {parts : List PyStr} → parts ≠ [] →
    PyStr.join [cp '\n'] parts ++ [cp '\n'] = parts.flatMap fun p => p ++ [cp '\n']
  | [p], _ => by simp
  | p :: q :: parts, _ => by
      rw [PyStr.join_cons_cons, List.flatMap_cons, ← join_lineFeed (List.cons_ne_nil q parts)]
      simp

end LineReader

end C2Engine.Python
