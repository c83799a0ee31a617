import C2Engine.Python.CsvWrite
import C2Engine.Python.Lines
import C2Engine.Python.Words
import C2Engine.Reason.Feeds

/-!
# The dumps of abuse.ch

A dump is a table written as text: comment lines, one of which names the columns, and a line for
each row, with every cell in quotes. `_read_abusech_csv` reads the table back, whatever stands in
the cells and in whatever order the columns come, provided that the CSV reader can read the comments
too: it refuses a field beyond its limit, wherever the field stands.

## Main definitions

* `Table`: names of columns and rows of cells.
* `Layout`, `DumpLine`, `Dump`: a table written as a dump.
* `Dump.RoundTrips`: reading the dump gives the rows, keyed by the names.
* `Dump.Readable`: no name and no comment is beyond the limit of the CSV reader.

## Main results

* `Dump.roundTrips`: a readable dump is read back.
* `not_roundTrips_longComment`: a comment beyond the limit.
-/

namespace C2Engine

open Python

/-! ### Tables -/

/-- A character of the name of a column. -/
def IsPlain (c : CodePoint) : Prop :=
  c.isSpace = false ∧ c ≠ cp ',' ∧ c ≠ cp '"' ∧ c ≠ cp '#'

instance (c : CodePoint) : Decidable (IsPlain c) := inferInstanceAs (Decidable (_ ∧ _))

/-- The name of a column. -/
def IsName (name : PyStr) : Prop := name ≠ [] ∧ ∀ c ∈ name, IsPlain c

instance (name : PyStr) : Decidable (IsName name) :=
  decidable_of_iff (name ≠ [] ∧ name.all fun c => decide (IsPlain c)) (by simp [IsName])

/-- A cell: on one line, without blanks around it, and no longer than a field may be. -/
structure IsCell (cell : PyStr) : Prop where
  breaks : ∀ c ∈ cell, c.isLineBreak = false
  strip : PyStr.strip cell = cell
  short : cell.length ≤ Csv.fieldLimit

instance (cell : PyStr) : Decidable (IsCell cell) :=
  decidable_of_iff ((cell.all fun c => !c.isLineBreak) ∧ PyStr.strip cell = cell ∧
      cell.length ≤ Csv.fieldLimit)
    ⟨fun h => ⟨by simpa using h.1, h.2.1, h.2.2⟩, fun h =>
      ⟨by simpa using h.breaks, h.strip, h.short⟩⟩

/-- A table with a column `marker`. -/
structure Table (marker : PyStr) where
  names : List PyStr
  rows : List (List PyStr)
  nodup : names.Nodup
  marked : marker ∈ names
  plain : ∀ name ∈ names, IsName name
  width : ∀ row ∈ rows, row.length = names.length
  cells : ∀ row ∈ rows, ∀ cell ∈ row, IsCell cell

/-- A row keyed by the names of the columns. -/
def Table.keyed {marker : PyStr} (T : Table marker) (row : List PyStr) : CsvRow := T.names.zip row

/-! ### Dumps -/

/-- The layout of a dump. -/
structure Layout where
  lineEnd : PyStr
  /-- Lines end with a line feed, which may have a carriage return before it. -/
  lineEnd_eq : lineEnd = [cp '\n'] ∨ lineEnd = [cp '\r', cp '\n']
  /-- The number of spaces behind a comma. -/
  gap : ℕ
  /-- The names of the columns are in quotes. -/
  quoted : Bool

/-- A line of a dump. -/
inductive DumpLine where
  | comment (line : PyStr)
  | header
  | row (cells : List PyStr)

/-- The row on a line. -/
def DumpLine.row? : DumpLine → Option (List PyStr)
  | row cells => some cells
  | _ => none

/-- How a name is written. -/
def Layout.name (L : Layout) (name : PyStr) : PyStr := if L.quoted then Csv.quote name else name

/-- The text of a line. -/
def DumpLine.text (L : Layout) (names : List PyStr) : DumpLine → PyStr
  | comment line => line
  | header => str "# " ++ Csv.row L.gap L.name names
  | row cells => Csv.row L.gap Csv.quote cells

/-- A table written as a dump: comment lines that do not have the marker for a cell, lines that name
the columns, and the rows in their order. -/
structure Dump {marker : PyStr} (T : Table marker) where
  layout : Layout
  lines : List DumpLine
  header : .header ∈ lines
  rows : lines.filterMap DumpLine.row? = T.rows
  comments : ∀ line, .comment line ∈ lines → (∀ c ∈ line, c.isLineBreak = false) ∧
    isComment line ∧ ∀ toks, commentFields line = .ok toks → marker ∉ toks

variable {marker : PyStr} {T : Table marker}

/-- The text of a dump. -/
def Dump.text (D : Dump T) : PyStr :=
  (D.lines.map (DumpLine.text D.layout T.names)).flatMap fun line => line ++ D.layout.lineEnd

/-- **The parser inverts the format**: it returns the rows in their order, and a name looked up in a
row gives the cell. -/
def Dump.RoundTrips (D : Dump T) : Prop :=
  readAbusechCsv D.text marker = .ok (T.rows.map T.keyed) ∧
    ∀ row ∈ T.rows, ∀ (i : ℕ) (name : PyStr), T.names[i]? = some name →
      (T.keyed row).lookup name = row[i]?

/-- The CSV reader refuses no name and no comment: none of their fields is beyond its limit. -/
structure Dump.Readable (D : Dump T) : Prop where
  names : ∀ name ∈ T.names, name.length ≤ Csv.fieldLimit
  comments : ∀ line, .comment line ∈ D.lines → (commentFields line).isOk

/-! ### Texts of lines -/

theorem isSpace_of_isLineBreak {c : CodePoint} (h : c.isSpace = false) : c.isLineBreak = false := by
  simp only [CodePoint.isSpace, CodePoint.isLineBreak, Bool.or_eq_false_iff,
    Bool.and_eq_false_iff, decide_eq_false_iff_not, beq_eq_false_iff_ne] at h ⊢
  omega

/-- A text between two characters that are no blanks is its own strip. -/
theorem strip_eq_self {s : PyStr} (hhead : ∀ c ∈ s.head?, c.isSpace = false)
    (hlast : ∀ c ∈ s.getLast?, c.isSpace = false) : PyStr.strip s = s := by
  have hl : s.dropWhile CodePoint.isSpace = s := by
    cases s with
    | nil => rfl
    | cons c s => exact List.dropWhile_cons_of_neg (by simp [hhead c rfl])
  rw [PyStr.strip, PyStr.lstrip, hl, PyStr.rstrip, List.rdropWhile_eq_self_iff]
  exact fun hne => Bool.eq_false_iff.mp (hlast _ (List.getLast?_eq_getLast_of_ne_nil hne))

/-- The first character of a text, if it is no blank, is the first of its strip. -/
theorem head?_strip {c : CodePoint} (hc : c.isSpace = false) (s : PyStr) :
    (PyStr.strip (c :: s)).head? = some c := by
  rw [PyStr.strip, PyStr.lstrip, List.dropWhile_cons_of_neg (by simp [hc])]
  have hprefix : PyStr.rstrip CodePoint.isSpace (c :: s) <+: c :: s := List.rdropWhile_prefix _ _
  have hne : PyStr.rstrip CodePoint.isSpace (c :: s) ≠ [] := fun h =>
    Bool.eq_false_iff.mp hc (List.rdropWhile_eq_nil_iff.mp h c List.mem_cons_self)
  obtain ⟨d, t, hd⟩ := List.exists_cons_of_ne_nil hne
  rw [hd] at hprefix ⊢
  rw [(List.cons_prefix_cons.mp hprefix).1]
  rfl

/-- The ends of a row are those of its first and its last field. -/
theorem head?_row {gap : ℕ} {write : PyStr → PyStr} {field : PyStr} (h : write field ≠ [])
    (row : List PyStr) : (Csv.row gap write (field :: row)).head? = (write field).head? := by
  cases row with
  | nil => rfl
  | cons field' row =>
    rw [Csv.row, List.map_cons, List.map_cons, PyStr.join_cons_cons, List.append_assoc,
      List.head?_append_of_ne_nil _ h]

theorem getLast?_row {gap : ℕ} {write : PyStr → PyStr} : {row : List PyStr} → (hne : row ≠ []) →
    (∀ field ∈ row, write field ≠ []) →
    (Csv.row gap write row).getLast? = (write (row.getLast hne)).getLast?
  | [field], _, _ => rfl
  | field :: field' :: row, _, h => by
      have hrest := (List.forall_mem_cons.mp h).2
      have ih := @getLast?_row gap write (field' :: row) (List.cons_ne_nil _ _) hrest
      have hne : Csv.row gap write (field' :: row) ≠ [] := by
        intro hnil
        rw [hnil] at ih
        exact hrest _ (List.getLast_mem _) (List.getLast?_eq_none_iff.mp ih.symm)
      rw [Csv.row, List.map_cons] at ih hne
      rw [Csv.row, List.map_cons, List.map_cons, PyStr.join_cons_cons,
        List.getLast?_append_of_ne_nil _ hne, ih]
      rfl

/-- A character of a row is one of a written field, or of the separator. -/
theorem mem_row {gap : ℕ} {write : PyStr → PyStr} {row : List PyStr} {c : CodePoint}
    (h : c ∈ Csv.row gap write row) : c = cp ',' ∨ c = cp ' ' ∨ ∃ field ∈ row, c ∈ write field := by
  rcases PyStr.mem_join h with h | ⟨p, hp, hc⟩
  · rcases List.mem_cons.mp h with rfl | h
    · exact .inl rfl
    · exact .inr (.inl (List.eq_of_mem_replicate h))
  · obtain ⟨field, hfield, rfl⟩ := List.mem_map.mp hp
    exact .inr (.inr ⟨field, hfield, hc⟩)

theorem isBare_of_isPlain {c : CodePoint} (h : IsPlain c) : Csv.IsBare c := by
  obtain ⟨hspace, hcomma, hquote, -⟩ := h
  have hne : ∀ d : CodePoint, d.isSpace → c ≠ d := by
    rintro d hd rfl
    rw [hspace] at hd
    cases hd
  refine ⟨?_, hcomma, hquote, hne _ (by decide)⟩
  rw [Csv.isCrnl, Bool.or_eq_false_iff, beq_eq_false_iff_ne, beq_eq_false_iff_ne]
  exact ⟨hne _ (by decide), hne _ (by decide)⟩

/-- What stands in a comment behind its mark, if it begins and ends with a character of its own. -/
theorem commentText_header {s : PyStr} (hhead : ∀ c ∈ s.head?, c.isSpace = false ∧ c ≠ cp '#')
    (hlast : ∀ c ∈ s.getLast?, c.isSpace = false) : commentText (str "# " ++ s) = s := by
  cases s with
  | nil => decide
  | cons c t =>
    obtain ⟨hspace, hhash⟩ := hhead c rfl
    have hline : PyStr.strip (str "# " ++ c :: t) = str "# " ++ c :: t := by
      refine strip_eq_self (fun d hd => ?_) fun d hd => ?_
      · obtain rfl := Option.some.inj hd
        decide
      · rw [List.getLast?_append_of_ne_nil _ (List.cons_ne_nil c t)] at hd
        exact hlast d hd
    have hstop : PyStr.oneOf (str "# ") c = false := by
      rw [PyStr.oneOf, Bool.eq_false_iff, ne_eq, List.elem_iff]
      intro hmem
      rcases List.mem_pair.mp hmem with rfl | rfl
      · exact hhash rfl
      · exact absurd hspace (by decide)
    have hmark : PyStr.lstrip (PyStr.oneOf (str "# ")) (str "# " ++ c :: t) = c :: t := by
      have hfirst : (str "# ").dropWhile (PyStr.oneOf (str "# ")) = [] := by decide
      rw [PyStr.lstrip, List.dropWhile_append, hfirst]
      exact List.dropWhile_cons_of_neg (by simp [hstop])
    rw [commentText, hline, hmark]
    exact strip_eq_self (fun d hd => (hhead d hd).1) hlast

/-- A character of a quoted field. -/
theorem mem_quote {field : PyStr} {c : CodePoint} (h : c ∈ Csv.quote field) :
    c = cp '"' ∨ c ∈ field := by
  rw [Csv.quote, List.mem_cons, List.mem_append, List.mem_singleton, PyStr.replace,
    List.mem_flatMap] at h
  rcases h with rfl | ⟨x, hx, hc⟩ | rfl
  · exact .inl rfl
  · split_ifs at hc with hquote
    · exact .inl (by simpa using hc)
    · exact .inr (List.mem_singleton.mp hc ▸ hx)
  · exact .inl rfl

namespace Dump

variable {D : Dump T}

theorem names_ne_nil (T : Table marker) : T.names ≠ [] := List.ne_nil_of_mem T.marked

theorem mem_rows {D : Dump T} {cells : List PyStr} (h : .row cells ∈ D.lines) : cells ∈ T.rows :=
  D.rows ▸ List.mem_filterMap.mpr ⟨_, h, rfl⟩

theorem row_ne_nil {row : List PyStr} (h : row ∈ T.rows) : row ≠ [] := fun hnil =>
  names_ne_nil T (List.length_eq_zero_iff.mp ((T.width row h).symm.trans (congrArg _ hnil)))

theorem name_ne_nil (L : Layout) {name : PyStr} (h : name ∈ T.names) : L.name name ≠ [] := by
  rw [Layout.name]
  split_ifs
  · exact List.cons_ne_nil _ _
  · exact (T.plain name h).1

/-- A character of a written name. -/
theorem mem_name {L : Layout} {name : PyStr} (h : name ∈ T.names) {c : CodePoint}
    (hc : c ∈ L.name name) : c = cp '"' ∨ IsPlain c := by
  rw [Layout.name] at hc
  split_ifs at hc
  · exact (mem_quote hc).imp_right ((T.plain name h).2 c)
  · exact .inr ((T.plain name h).2 c hc)

/-! ### The lines of a dump -/

/-- A line of a dump is one line. -/
theorem breaks_text {line : DumpLine} (h : line ∈ D.lines) :
    ∀ c ∈ line.text D.layout T.names, c.isLineBreak = false := by
  intro c hc
  cases line with
  | comment line => exact (D.comments line h).1 c hc
  | header =>
    rcases List.mem_append.mp hc with hc | hc
    · rcases List.mem_pair.mp hc with rfl | rfl <;> decide
    · rcases mem_row hc with rfl | rfl | ⟨name, hname, hc⟩
      · decide
      · decide
      · rcases mem_name hname hc with rfl | hplain
        · decide
        · exact isSpace_of_isLineBreak hplain.1
  | row cells =>
    rcases mem_row hc with rfl | rfl | ⟨cell, hcell, hc⟩
    · decide
    · decide
    · rcases mem_quote hc with rfl | hc
      · decide
      · exact (T.cells cells (mem_rows h) cell hcell).breaks c hc

/-- The lines of the text of a dump. -/
theorem splitlines_text (D : Dump T) :
    PyStr.splitlines D.text = D.lines.map (DumpLine.text D.layout T.names) := by
  have hbreaks : ∀ p ∈ D.lines.map (DumpLine.text D.layout T.names), ∀ c ∈ p,
      c.isLineBreak = false := List.forall_mem_map.mpr fun _ h => breaks_text h
  rw [text]
  rcases D.layout.lineEnd_eq with hend | hend
  · rw [hend]
    exact LineReader.lines_flatMap (R := LineReader.splitlines) _ hbreaks
  · rw [hend]
    exact LineReader.splitlines_flatMap_crlf _ hbreaks

/-- A row begins with a quote. -/
theorem exists_row_eq (gap : ℕ) {row : List PyStr} (h : row ≠ []) :
    ∃ s, Csv.row gap Csv.quote row = cp '"' :: s := by
  obtain ⟨cell, cells, rfl⟩ := List.exists_cons_of_ne_nil h
  have hhead := @head?_row gap Csv.quote cell (List.cons_ne_nil _ _) cells
  exact ⟨_, List.eq_cons_of_mem_head? hhead⟩

theorem isComment_row {row : List PyStr} (h : row ≠ []) (gap : ℕ) :
    isComment (Csv.row gap Csv.quote row) = false := by
  obtain ⟨s, hs⟩ := exists_row_eq gap h
  rw [isComment, hs, head?_strip (by decide)]
  decide

theorem isEmpty_strip_row {row : List PyStr} (h : row ≠ []) (gap : ℕ) :
    (PyStr.strip (Csv.row gap Csv.quote row)).isEmpty = false := by
  obtain ⟨s, hs⟩ := exists_row_eq gap h
  have hquote : (cp '"').isSpace = false := by decide
  have hhead := head?_strip hquote s
  rw [hs, List.isEmpty_eq_false_iff]
  intro hnil
  rw [hnil] at hhead
  cases hhead

/-! ### The header -/

theorem isComment_mark (s : PyStr) : isComment (str "# " ++ s) := by
  have hhash : (cp '#').isSpace = false := by decide
  exact decide_eq_true (head?_strip hhash _)

theorem isComment_header (L : Layout) (names : List PyStr) :
    isComment (DumpLine.header.text L names) :=
  isComment_mark _

/-- The columns are read from a line that names them. -/
theorem commentFields_header (h : D.Readable) :
    commentFields (DumpLine.header.text D.layout T.names) = .ok T.names := by
  have hne := names_ne_nil T
  have hwrite : ∀ name ∈ T.names, D.layout.name name ≠ [] := fun name => name_ne_nil _
  -- neither end of the line is a blank
  have hvisible : ∀ name ∈ T.names, ∀ c ∈ D.layout.name name, c.isSpace = false := by
    intro name hname c hc
    rcases mem_name hname hc with rfl | hplain
    · decide
    · exact hplain.1
  have hlast : ∀ c ∈ (Csv.row D.layout.gap D.layout.name T.names).getLast?, c.isSpace = false := by
    rw [getLast?_row hne hwrite]
    exact fun c hc => hvisible _ (List.getLast_mem hne) c (List.mem_of_getLast? hc)
  have hhead : ∀ c ∈ (Csv.row D.layout.gap D.layout.name T.names).head?,
      c.isSpace = false ∧ c ≠ cp '#' := by
    intro c hc
    obtain ⟨name, names, hnames⟩ := List.exists_cons_of_ne_nil hne
    have hname : name ∈ T.names := hnames ▸ List.mem_cons_self
    rw [hnames, head?_row (hwrite name hname)] at hc
    have hmem := List.mem_of_mem_head? hc
    refine ⟨hvisible name hname c hmem, ?_⟩
    rcases mem_name hname hmem with rfl | hplain
    · decide
    · exact hplain.2.2.2
  have hread : ∀ name ∈ T.names, Csv.ReadsAs (D.layout.name name) name := by
    intro name hname
    rw [Layout.name]
    split_ifs
    · exact Csv.readsAs_quote (h.names name hname)
    · exact Csv.readsAs_bare (T.plain name hname).1
        (fun c hc => isBare_of_isPlain ((T.plain name hname).2 c hc)) (h.names name hname)
  have hrows := @csvReader_rows D.layout.gap D.layout.name [T.names]
    (List.forall_mem_singleton.mpr ⟨hne, hread⟩)
  rw [commentFields, DumpLine.text, commentText_header hhead hlast, csvFirst]
  exact bind_eq_ok.mpr ⟨_, hrows, rfl⟩

/-- The header is found, among the lines of a dump or before them. -/
theorem findHeader_lines (h : D.Readable) : (lines : List DumpLine) → lines ⊆ D.lines →
    (header : Option (List PyStr)) → .header ∈ lines ∨ header = some T.names →
    findHeader marker header (lines.map (DumpLine.text D.layout T.names)) = .ok (some T.names)
  | [], _, _, hfound => congrArg _ (hfound.resolve_left List.not_mem_nil)
  | line :: lines, hsub, header, hfound => by
      obtain ⟨hline, hrest⟩ := List.cons_subset.mp hsub
      have hself : T.names.map PyStr.strip = T.names :=
        (List.map_congr_left fun name hname =>
          strip_solid fun c hc => ((T.plain name hname).2 c hc).1).trans (List.map_id _)
      rw [List.map_cons, findHeader]
      cases line with
      | comment text =>
        obtain ⟨-, hcomment, hmarker⟩ := D.comments text hline
        obtain ⟨toks, htoks⟩ := isOk_iff.mp (h.comments text hline)
        rw [DumpLine.text, if_pos hcomment, htoks]
        refine bind_eq_ok.mpr ⟨toks, rfl, ?_⟩
        rw [if_neg (by simpa using hmarker toks htoks)]
        exact findHeader_lines h lines hrest header (hfound.imp_left (by simp))
      | header =>
        rw [if_pos (isComment_header _ _), commentFields_header h]
        refine bind_eq_ok.mpr ⟨T.names, rfl, ?_⟩
        rw [if_pos (by simpa using T.marked), hself]
        exact findHeader_lines h lines hrest _ (.inr rfl)
      | row cells =>
        have hdata : isComment (DumpLine.text D.layout T.names (.row cells)) = false :=
          isComment_row (row_ne_nil (mem_rows hline)) _
        rw [if_neg (Bool.eq_false_iff.mp hdata)]
        exact findHeader_lines h lines hrest header (hfound.imp_left (by simp))

/-- The lines with data are the rows. -/
theorem dataLines_text (D : Dump T) :
    dataLines D.text = T.rows.map (Csv.row D.layout.gap Csv.quote) := by
  have hlines : ∀ lines : List DumpLine, lines ⊆ D.lines →
      (lines.map (DumpLine.text D.layout T.names)).filter
          (fun line => !(PyStr.strip line).isEmpty && !isComment line) =
        (lines.filterMap DumpLine.row?).map (Csv.row D.layout.gap Csv.quote) := by
    intro lines hsub
    induction lines with
    | nil => rfl
    | cons line lines ih =>
      obtain ⟨hline, hrest⟩ := List.cons_subset.mp hsub
      rw [List.map_cons]
      cases line with
      | comment text =>
        rw [List.filter_cons_of_neg (by simp [DumpLine.text, (D.comments text hline).2.1]),
          ih hrest]
        rfl
      | header =>
        rw [List.filter_cons_of_neg (by simp [isComment_header]), ih hrest]
        rfl
      | row cells =>
        have hne := row_ne_nil (mem_rows hline)
        rw [List.filter_cons_of_pos, ih hrest]
        · rfl
        · simp [DumpLine.text, isComment_row hne, isEmpty_strip_row hne]
  rw [dataLines, splitlines_text, hlines _ (List.Subset.refl _), D.rows]

/-- The cells of a row, keyed by the names. -/
theorem keyRow_eq {row : List PyStr} (h : row ∈ T.rows) : keyRow T.names row = T.keyed row := by
  refine List.ext_getElem ?_ fun i hi _ => ?_
  · rw [keyRow, Table.keyed, List.length_map, List.length_zipIdx, List.length_zip, T.width row h,
      min_self]
  · rw [keyRow, List.length_map, List.length_zipIdx] at hi
    have hi' : i < row.length := by rwa [T.width row h]
    simp [keyRow, Table.keyed, hi', (T.cells row h _ (List.getElem_mem hi')).strip]

/-- A name looked up in a row gives the cell. -/
theorem lookup_keyed {row : List PyStr} (h : row ∈ T.rows) {i : ℕ} {name : PyStr}
    (hi : T.names[i]? = some name) : (T.keyed row).lookup name = row[i]? := by
  have hzip : ∀ (names cells : List PyStr) (i : ℕ), names.Nodup → cells.length = names.length →
      names[i]? = some name → (names.zip cells).lookup name = cells[i]? := by
    intro names
    induction names with
    | nil => exact fun cells i _ _ hi => by cases hi
    | cons n names ih =>
      intro cells i hnodup hlen hi
      obtain ⟨cell, cells, rfl⟩ := List.exists_cons_of_length_eq_add_one hlen
      obtain ⟨hn, hnodup⟩ := List.nodup_cons.mp hnodup
      rw [List.zip_cons_cons, List.lookup_cons]
      cases i with
      | zero =>
        obtain rfl := Option.some.inj hi
        simp
      | succ i =>
        have hne : name ≠ n := by
          rintro rfl
          exact hn (List.mem_of_getElem? hi)
        rw [beq_false_of_ne hne]
        exact ih cells i hnodup (Nat.succ.inj hlen) hi
  exact hzip T.names row i T.nodup (T.width row h) hi

/-- **A readable dump is read back.** -/
theorem roundTrips (h : D.Readable) : D.RoundTrips := by
  refine ⟨?_, fun row hrow i name hi => lookup_keyed hrow hi⟩
  have hheader := findHeader_lines h D.lines (List.Subset.refl _) none (.inl D.header)
  have hrows := @csvReader_rows D.layout.gap Csv.quote T.rows fun row hrow =>
    ⟨row_ne_nil hrow, fun cell hcell => Csv.readsAs_quote (T.cells row hrow cell hcell).short⟩
  have hfilter : T.rows.filter (fun row => !row.isEmpty) = T.rows :=
    List.filter_eq_self.mpr fun row hrow => by simp [row_ne_nil hrow]
  rw [readAbusechCsv, splitlines_text, hheader]
  refine bind_eq_ok.mpr ⟨_, rfl, ?_⟩
  rw [dataLines_text]
  refine bind_eq_ok.mpr ⟨_, hrows, ?_⟩
  rw [hfilter]
  exact congrArg _ (List.map_congr_left fun row hrow => keyRow_eq hrow)

/-- Names and comments up to the limit are readable. -/
theorem readable_of_length (hnames : ∀ name ∈ T.names, name.length ≤ Csv.fieldLimit)
    (hcomments : ∀ line, .comment line ∈ D.lines → line.length ≤ Csv.fieldLimit) : D.Readable := by
  refine ⟨hnames, fun line hline => ?_⟩
  have hsub : (commentText line).Sublist line :=
    (((List.rdropWhile_prefix _ _).sublist.trans (List.dropWhile_sublist _)).trans
      (List.dropWhile_sublist _)).trans
      ((List.rdropWhile_prefix _ _).sublist.trans (List.dropWhile_sublist _))
  refine isOk_csvFirst (fun c hc => ?_) (hsub.length_le.trans (hcomments line hline))
  have hbreak := (D.comments line hline).1 c (hsub.subset hc)
  rw [Csv.isCrnl, Bool.or_eq_false_iff, beq_eq_false_iff_ne, beq_eq_false_iff_ne]
  constructor
  all_goals
    rintro rfl
    exact absurd hbreak (by decide)

end Dump

/-! ### Two dumps -/

/-- A table of one row. -/
def sampleTable : Table (str "url") where
  names := [str "id", str "url"]
  rows := [[str "1", str "http://192.0.2.1/a,\"b\"#"]]
  nodup := by decide
  marked := by decide
  plain := by decide
  width := by decide
  cells := by decide

/-- The table with a comment over it. -/
def sampleDump (line : PyStr) (hbreaks : ∀ c ∈ line, c.isLineBreak = false)
    (hcomment : isComment line)
    (hmarker : ∀ toks, commentFields line = .ok toks → str "url" ∉ toks) :
    Dump sampleTable where
  layout := ⟨[cp '\n'], .inl rfl, 1, false⟩
  lines := [.comment line, .header, .row [str "1", str "http://192.0.2.1/a,\"b\"#"]]
  header := by simp
  rows := rfl
  comments := by
    intro line' h
    obtain rfl : line' = line := by simpa using h
    exact ⟨hbreaks, hcomment, hmarker⟩

theorem roundTrips_sample : ∃ D : Dump sampleTable, D.Readable ∧ D.RoundTrips := by
  have hfields : commentFields (str "# URLhaus, all") = .ok [str "URLhaus", str "all"] := by
    rfl
  have hbreaks : ((str "# URLhaus, all").all fun c => !c.isLineBreak) = true := by decide
  let D := sampleDump (str "# URLhaus, all") (by simpa using hbreaks) (by decide) fun toks h => by
    obtain rfl := Except.ok.inj (hfields.symm.trans h)
    decide
  have hreadable : D.Readable := Dump.readable_of_length (by decide) fun line h => by
    obtain rfl : line = str "# URLhaus, all" := by simpa [D, sampleDump] using h
    decide
  exact ⟨D, hreadable, Dump.roundTrips hreadable⟩

/-- A comment of one cell beyond the limit of the CSV reader. -/
def longComment : PyStr := str "# " ++ List.replicate (Csv.fieldLimit + 1) (cp 'x')

theorem mem_longComment {c : CodePoint} (h : c ∈ longComment) :
    c = cp '#' ∨ c = cp ' ' ∨ c = cp 'x' := by
  rcases List.mem_append.mp h with h | h
  · exact (List.mem_pair.mp h).imp_right .inl
  · exact .inr (.inr (List.eq_of_mem_replicate h))

theorem commentText_longComment :
    commentText longComment = List.replicate (Csv.fieldLimit + 1) (cp 'x') := by
  refine commentText_header (fun c hc => ?_) fun c hc => ?_
  · obtain rfl := List.eq_of_mem_replicate (List.mem_of_mem_head? hc)
    decide
  · obtain rfl := List.eq_of_mem_replicate (List.mem_of_getLast? hc)
    decide

/-- The reader refuses it. -/
theorem not_isOk_commentFields_longComment : ¬ (commentFields longComment).isOk := by
  have hx : Csv.IsBare (cp 'x') := by decide
  have hline : Csv.line .start (List.replicate (Csv.fieldLimit + 1) (cp 'x')) =
      .error .csvError := by
    rw [List.replicate_succ']
    refine Csv.line_eq_error ?_ (fun c hc => List.eq_of_mem_replicate hc ▸ hx)
      List.length_replicate hx
    exact List.ne_nil_of_length_pos (List.length_replicate ▸ Nat.succ_pos _)
  rw [commentFields, commentText_longComment, csvFirst, csvReader, csvRows, hline]
  exact Bool.false_ne_true

/-- **A comment beyond the limit**: with it over the table the dump is not read. -/
theorem not_roundTrips_longComment : ∃ D : Dump sampleTable, ¬ D.RoundTrips := by
  have hbreaks : ∀ c ∈ longComment, c.isLineBreak = false := by
    intro c hc
    rcases mem_longComment hc with rfl | rfl | rfl <;> decide
  have hcomment : isComment longComment := Dump.isComment_mark _
  let D := sampleDump longComment hbreaks hcomment fun toks h =>
    absurd (isOk_iff.mpr ⟨toks, h⟩) not_isOk_commentFields_longComment
  refine ⟨D, fun h => not_isOk_commentFields_longComment ?_⟩
  have hcomments := ((isOk_readAbusechCsv _ _).mp (isOk_iff.mpr ⟨_, h.1⟩)).1
  refine hcomments longComment ?_ hcomment
  rw [Dump.splitlines_text]
  exact List.mem_map.mpr ⟨.comment longComment, List.mem_cons_self, rfl⟩

end C2Engine
