import C2Engine.Python.Csv
import C2Engine.Python.Join

/-!
# Writing CSV

A row is written by joining its fields with commas, behind which spaces may stand, and a field is
quoted, with its quotes doubled, or written as it is if nothing in it has a meaning. The reader
gives the rows back, provided that no field is longer than its limit.

## Main definitions

* `Csv.quote`: a field in quotes.
* `Csv.separator`, `Csv.row`: the separator of fields, and a row.
* `Csv.ReadsAs`: a piece of a line that is read as one field.

## Main results

* `Csv.readsAs_quote`, `Csv.readsAs_bare`: quoted fields and bare ones.
* `csvReader_rows`: the reader gives written rows back.
* `isOk_csvFirst`: short lines are read.
-/

namespace C2Engine.Python

namespace Csv

/-- A field in quotes. -/
def quote (field : PyStr) : PyStr :=
  cp '"' :: (PyStr.replace (cp '"') [cp '"', cp '"'] field ++ [cp '"'])

/-- The separator of fields. -/
def separator (gap : ℕ) : PyStr := cp ',' :: List.replicate gap (cp ' ')

/-- A row, whose fields are written by `write`. -/
def row (gap : ℕ) (write : PyStr → PyStr) (fields : List PyStr) : PyStr :=
  PyStr.join (separator gap) (fields.map write)

/-- The states in which a field begins. -/
def Mode.isStart (m : Mode) : Prop := m = .startRecord ∨ m = .startField

/-- The states in which a field may end. -/
def Mode.isStop (m : Mode) : Prop := m = .inField ∨ m = .quoteInQuotedField

/-- A piece of a line that is read as one field. -/
def ReadsAs (piece field : PyStr) : Prop :=
  ∀ mode fields, mode.isStart → ∃ mode' : Mode, mode'.isStop ∧
    piece.foldlM step ⟨mode, fields, []⟩ = .ok ⟨mode', fields, field⟩

/-! ### Fields -/

theorem State.add_eq_ok {s : State} (h : s.field.length < fieldLimit) (c : CodePoint)
    (mode : Mode) :
    s.add c mode = .ok ⟨mode, s.fields, s.field ++ [c]⟩ :=
  if_neg (Nat.not_le.mpr h)

/-- The inside of a quoted field. -/
theorem foldlM_quoted (fields : List PyStr) : (s acc : PyStr) →
    acc.length + s.length ≤ fieldLimit →
    (PyStr.replace (cp '"') [cp '"', cp '"'] s).foldlM step ⟨.inQuotedField, fields, acc⟩ =
      .ok ⟨.inQuotedField, fields, acc ++ s⟩
  | [], acc, _ => by
      rw [List.append_nil]
      rfl
  | c :: s, acc, h => by
      rw [List.length_cons] at h
      have hlt : acc.length < fieldLimit := by omega
      have hrest := foldlM_quoted fields s (acc ++ [c]) (by
        rw [List.length_append, List.length_singleton]
        omega)
      rw [List.append_assoc, List.singleton_append] at hrest
      rw [PyStr.replace, List.flatMap_cons, List.foldlM_append]
      by_cases hc : c = cp '"'
      · -- a doubled quote stands for one
        subst hc
        rw [if_pos rfl]
        have hpair : [cp '"', cp '"'].foldlM step ⟨.inQuotedField, fields, acc⟩ =
            .ok ⟨.inQuotedField, fields, acc ++ [cp '"']⟩ := by
          have hfirst : step ⟨.inQuotedField, fields, acc⟩ (cp '"') =
              .ok ⟨.quoteInQuotedField, fields, acc⟩ := rfl
          have hsecond : step ⟨.quoteInQuotedField, fields, acc⟩ (cp '"') =
              .ok ⟨.inQuotedField, fields, acc ++ [cp '"']⟩ :=
            State.add_eq_ok (s := ⟨.quoteInQuotedField, fields, acc⟩) hlt _ _
          rw [List.foldlM_cons, hfirst]
          exact congrArg (· >>= pure) hsecond
        rw [hpair]
        exact hrest
      · have hstep : step ⟨.inQuotedField, fields, acc⟩ c =
            .ok ⟨.inQuotedField, fields, acc ++ [c]⟩ := by
          rw [step, if_neg hc]
          exact State.add_eq_ok (s := ⟨.inQuotedField, fields, acc⟩) hlt _ _
        rw [if_neg hc, List.foldlM_cons, hstep]
        exact hrest

/-- **Quoted fields**: any field up to the limit. -/
theorem readsAs_quote {field : PyStr} (h : field.length ≤ fieldLimit) :
    ReadsAs (quote field) field := by
  intro mode fields hmode
  refine ⟨.quoteInQuotedField, .inr rfl, ?_⟩
  have hopen : step ⟨mode, fields, []⟩ (cp '"') = .ok ⟨.inQuotedField, fields, []⟩ := by
    rcases hmode with rfl | rfl <;> rfl
  have hinside := foldlM_quoted fields field [] (by simpa using h)
  rw [quote, List.foldlM_cons, hopen]
  change List.foldlM step _ _ = _
  rw [List.foldlM_append, hinside]
  rfl

/-- A character without a meaning in a field that is not quoted. -/
def IsBare (c : CodePoint) : Prop := isCrnl c = false ∧ c ≠ cp ',' ∧ c ≠ cp '"' ∧ c ≠ cp ' '

instance (c : CodePoint) : Decidable (IsBare c) := inferInstanceAs (Decidable (_ ∧ _))

theorem foldlM_bare (fields : List PyStr) : (s acc : PyStr) → (∀ c ∈ s, IsBare c) →
    acc.length + s.length ≤ fieldLimit →
    s.foldlM step ⟨.inField, fields, acc⟩ = .ok ⟨.inField, fields, acc ++ s⟩
  | [], acc, _, _ => by
      rw [List.append_nil]
      rfl
  | c :: s, acc, hs, h => by
      obtain ⟨⟨hcrnl, hcomma, -⟩, hs⟩ := List.forall_mem_cons.mp hs
      rw [List.length_cons] at h
      have hstep : step ⟨.inField, fields, acc⟩ c = .ok ⟨.inField, fields, acc ++ [c]⟩ := by
        change (if isCrnl c then _ else if c = cp ',' then _ else
          State.add ⟨.inField, fields, acc⟩ c .inField) = _
        rw [if_neg (Bool.eq_false_iff.mp hcrnl), if_neg hcomma]
        exact State.add_eq_ok (s := ⟨.inField, fields, acc⟩) (show acc.length < _ by omega) _ _
      have hrest := foldlM_bare fields s (acc ++ [c]) hs (by
        rw [List.length_append, List.length_singleton]
        omega)
      rw [List.append_assoc, List.singleton_append] at hrest
      rw [List.foldlM_cons, hstep]
      exact hrest

/-- **Bare fields**: fields that are not empty, of characters without a meaning, up to the limit. -/
theorem readsAs_bare {field : PyStr} (hne : field ≠ []) (hbare : ∀ c ∈ field, IsBare c)
    (h : field.length ≤ fieldLimit) : ReadsAs field field := by
  intro mode fields hmode
  refine ⟨.inField, .inl rfl, ?_⟩
  obtain ⟨c, s, rfl⟩ := List.exists_cons_of_ne_nil hne
  obtain ⟨⟨hcrnl, hcomma, hquote, hspace⟩, hs⟩ := List.forall_mem_cons.mp hbare
  have hcrnl' := Bool.eq_false_iff.mp hcrnl
  have hfirst : step ⟨mode, fields, []⟩ c = .ok ⟨.inField, fields, [c]⟩ := by
    have hfield : startField ⟨mode, fields, []⟩ c = .ok ⟨.inField, fields, [c]⟩ := by
      rw [startField, if_neg hcrnl', if_neg hquote, if_neg hspace, if_neg hcomma]
      rfl
    rcases hmode with rfl | rfl
    · rw [step, if_neg hcrnl', hfield]
    · exact hfield
  rw [List.length_cons] at h
  rw [List.foldlM_cons, hfirst]
  exact foldlM_bare fields s [c] hs (by simpa [Nat.add_comm] using h)

/-- A field beyond the limit is refused. -/
theorem line_eq_error {field : PyStr} (hne : field ≠ []) (hbare : ∀ c ∈ field, IsBare c)
    (h : field.length = fieldLimit) {c : CodePoint} (hc : IsBare c) :
    line .start (field ++ [c]) = .error .csvError := by
  obtain ⟨mode, hmode, hread⟩ := readsAs_bare hne hbare h.le .startRecord [] (.inl rfl)
  obtain ⟨hcrnl, hcomma, hquote, -⟩ := hc
  have hadd : State.add ⟨mode, [], field⟩ c .inField = .error .csvError := if_pos h.ge
  have hstep : step ⟨mode, [], field⟩ c = .error .csvError := by
    rw [← hadd, step]
    rcases hmode with rfl | rfl
    · simp only [if_neg (Bool.eq_false_iff.mp hcrnl), if_neg hcomma]
    · simp only [if_neg (Bool.eq_false_iff.mp hcrnl), if_neg hcomma, if_neg hquote]
  rw [line, List.foldlM_append, State.start, hread]
  change (step ⟨mode, [], field⟩ c >>= _).map eol = _
  rw [hstep]
  rfl

/-! ### Rows -/

/-- The separator ends a field. -/
theorem foldlM_separator {mode : Mode} (hmode : mode.isStop) (fields : List PyStr) (field : PyStr)
    (gap : ℕ) : (separator gap).foldlM step ⟨mode, fields, field⟩ =
      .ok ⟨.startField, fields ++ [field], []⟩ := by
  have hspaces : ∀ gap,
    (List.replicate gap (cp ' ')).foldlM step ⟨.startField, fields ++ [field], []⟩ =
      .ok ⟨.startField, fields ++ [field], []⟩ := by
    intro gap
    induction gap with
    | zero => rfl
    | succ gap ih =>
      rw [List.replicate_succ, List.foldlM_cons]
      exact ih
  have hcomma : step ⟨mode, fields, field⟩ (cp ',') = .ok ⟨.startField, fields ++ [field], []⟩ := by
    rcases hmode with rfl | rfl <;> rfl
  rw [separator, List.foldlM_cons, hcomma]
  exact hspaces gap

/-- A row is a record. -/
theorem line_row {gap : ℕ} {write : PyStr → PyStr} (s : State) (hmode : s.mode.isStart)
    (hfield : s.field = []) : (row : List PyStr) → row ≠ [] →
    (∀ field ∈ row, ReadsAs (write field) field) →
    line s (Csv.row gap write row) = .ok ⟨.startRecord, s.fields ++ row, []⟩
  | [field], _, h => by
      obtain ⟨mode, fields, f⟩ := s
      obtain rfl : f = [] := hfield
      obtain ⟨mode', hstop, hread⟩ := h field (List.mem_singleton_self field) mode fields hmode
      rw [line, Csv.row, List.map_singleton, PyStr.join_singleton, hread]
      rcases hstop with rfl | rfl <;> rfl
  | field :: field' :: row, _, h => by
      obtain ⟨mode, fields, f⟩ := s
      obtain rfl : f = [] := hfield
      obtain ⟨hfirst, hrest⟩ := List.forall_mem_cons.mp h
      obtain ⟨mode', hstop, hread⟩ := hfirst mode fields hmode
      have htail := @line_row gap write ⟨.startField, fields ++ [field], []⟩ (.inr rfl) rfl
        (field' :: row) (List.cons_ne_nil _ _) hrest
      rw [line, Csv.row, List.map_cons] at htail
      rw [line, Csv.row, List.map_cons, List.map_cons, PyStr.join_cons_cons, List.foldlM_append,
        List.foldlM_append, hread]
      change ((separator gap).foldlM step _ >>= _).map eol = _
      rw [foldlM_separator hstop]
      rw [List.append_assoc, List.singleton_append] at htail
      exact htail

/-! ### Lines up to the limit -/

/-- A state in which no field is longer than the line that was read. -/
structure State.Within (s : State) (n : ℕ) : Prop where
  mode : s.mode ≠ .eatCrnl
  length : s.field.length ≤ n

theorem State.within_add {s : State} {n : ℕ} (h : s.field.length ≤ n) (hn : n < fieldLimit)
    (c : CodePoint) {mode : Mode} (hmode : mode ≠ .eatCrnl) :
    ∃ s', s.add c mode = .ok s' ∧ s'.Within (n + 1) := by
  refine ⟨_, State.add_eq_ok (by omega) c mode, hmode, ?_⟩
  rw [List.length_append, List.length_singleton]
  omega

/-- A character within a line is read. -/
theorem State.Within.step {s : State} {n : ℕ} (h : s.Within n) (hn : n < fieldLimit) {c : CodePoint}
    (hc : isCrnl c = false) : ∃ s', step s c = .ok s' ∧ s'.Within (n + 1) := by
  have hc' := Bool.eq_false_iff.mp hc
  have hle := Nat.le_succ_of_le h.length
  have hsave : ∀ mode : Mode, mode ≠ .eatCrnl → (s.save mode).Within (n + 1) := fun mode hmode =>
    ⟨hmode, Nat.zero_le _⟩
  have hstart : ∃ s', startField s c = .ok s' ∧ s'.Within (n + 1) := by
    rw [startField, if_neg hc']
    split_ifs
    · exact ⟨_, rfl, nofun, hle⟩
    · exact ⟨_, rfl, nofun, hle⟩
    · exact ⟨_, rfl, hsave _ nofun⟩
    · exact within_add h.length hn c nofun
  rw [Csv.step]
  cases hmode : s.mode with
  | startRecord => simpa only [if_neg hc'] using hstart
  | startField => exact hstart
  | inField =>
    simp only [if_neg hc']
    split_ifs
    · exact ⟨_, rfl, hsave _ nofun⟩
    · exact within_add h.length hn c nofun
  | inQuotedField =>
    simp only
    split_ifs
    · exact ⟨_, rfl, nofun, hle⟩
    · exact within_add h.length hn c nofun
  | quoteInQuotedField =>
    simp only [if_neg hc']
    split_ifs
    · exact within_add h.length hn c nofun
    · exact ⟨_, rfl, hsave _ nofun⟩
    · exact within_add h.length hn c nofun
  | eatCrnl => exact absurd hmode h.mode

theorem State.Within.foldlM : {s : State} → {n : ℕ} → s.Within n → (l : PyStr) →
    (∀ c ∈ l, isCrnl c = false) → n + l.length ≤ fieldLimit → (l.foldlM Csv.step s).isOk
  | _, _, _, [], _, _ => rfl
  | s, n, h, c :: l, hl, hn => by
      obtain ⟨hc, hl⟩ := List.forall_mem_cons.mp hl
      rw [List.length_cons] at hn
      obtain ⟨s', hstep, hs'⟩ := h.step (by omega) hc
      rw [List.foldlM_cons, hstep]
      exact hs'.foldlM l hl (by omega)

end Csv

/-- A line that is no longer than a field may be is read. -/
theorem isOk_csvFirst {l : PyStr} (hl : ∀ c ∈ l, Csv.isCrnl c = false)
    (hlen : l.length ≤ Csv.fieldLimit) : (csvFirst l).isOk := by
  have hstart : Csv.State.start.Within 0 := ⟨nofun, le_rfl⟩
  obtain ⟨s, hs⟩ := isOk_iff.mp (hstart.foldlM l hl (by simpa using hlen))
  have hline : Csv.line .start l = .ok (Csv.eol s) := by
    rw [Csv.line, hs]
    rfl
  have hrows : (csvReader [l]).isOk := by
    rw [csvReader, csvRows, hline]
    change (if _ then _ else _ : Except PyExc (List (List PyStr))).isOk
    split_ifs <;> rfl
  exact isOk_bind_pure.mpr hrows

/-- **The reader gives written rows back.** -/
theorem csvReader_rows {gap : ℕ} {write : PyStr → PyStr} : (rows : List (List PyStr)) →
    (∀ row ∈ rows, row ≠ [] ∧ ∀ field ∈ row, Csv.ReadsAs (write field) field) →
    csvReader (rows.map (Csv.row gap write)) = .ok rows
  | [], _ => rfl
  | row :: rows, h => by
      obtain ⟨⟨hne, hrow⟩, hrows⟩ := List.forall_mem_cons.mp h
      have ih := @csvReader_rows gap write rows hrows
      have hline := @Csv.line_row gap write .start (.inl rfl) rfl row hne hrow
      rw [csvReader, List.map_cons, csvRows]
      refine bind_eq_ok.mpr ⟨_, hline, ?_⟩
      rw [if_pos rfl]
      exact bind_eq_ok.mpr ⟨rows, ih, rfl⟩

end C2Engine.Python
