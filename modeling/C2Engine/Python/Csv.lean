import C2Engine.Python.Object

/-!
# Reading CSV

The reader of Python's `csv` module in the dialect `excel` with `skipinitialspace`: fields are
separated by commas, a field may be quoted, a doubled quote stands for a quote, and a quoted field
may go on in the next line. The reader is given its input line by line.

## Main definitions

* `Csv.step`, `Csv.line`: the automaton over one character and one line.
* `csvReader`: the rows of a list of lines.
-/

namespace C2Engine.Python

namespace Csv

/-- The states of the automaton. -/
inductive Mode where
  | startRecord
  | startField
  | inField
  | inQuotedField
  | quoteInQuotedField
  | eatCrnl
  deriving DecidableEq

/-- A record being read. -/
structure State where
  mode : Mode
  /-- The fields that are complete. -/
  fields : List PyStr
  /-- The field being read. -/
  field : PyStr

/-- The state before a record. -/
def State.start : State := ⟨.startRecord, [], []⟩

/-- `csv.field_size_limit()`. -/
def fieldLimit : ℕ := 131072

/-- `parse_save_field`. -/
def State.save (s : State) (mode : Mode) : State := ⟨mode, s.fields ++ [s.field], []⟩

/-- `parse_add_char`. -/
def State.add (s : State) (c : CodePoint) (mode : Mode) : Except PyExc State :=
  if fieldLimit ≤ s.field.length then .error .csvError
  else .ok ⟨mode, s.fields, s.field ++ [c]⟩

/-- A line feed or a carriage return. -/
def isCrnl (c : CodePoint) : Bool := c == cp '\n' || c == cp '\r'

/-- `parse_process_char` at the start of a field. -/
def startField (s : State) (c : CodePoint) : Except PyExc State :=
  if isCrnl c then .ok (s.save .eatCrnl)
  else if c = cp '"' then .ok { s with mode := .inQuotedField }
  else if c = cp ' ' then .ok { s with mode := .startField }
  else if c = cp ',' then .ok (s.save .startField)
  else s.add c .inField

/-- `parse_process_char` at a character. -/
def step (s : State) (c : CodePoint) : Except PyExc State :=
  match s.mode with
  | .startRecord => if isCrnl c then .ok { s with mode := .eatCrnl } else startField s c
  | .startField => startField s c
  | .inField =>
    if isCrnl c then .ok (s.save .eatCrnl)
    else if c = cp ',' then .ok (s.save .startField)
    else s.add c .inField
  | .inQuotedField =>
    if c = cp '"' then .ok { s with mode := .quoteInQuotedField } else s.add c .inQuotedField
  | .quoteInQuotedField =>
    if c = cp '"' then s.add c .inQuotedField
    else if c = cp ',' then .ok (s.save .startField)
    else if isCrnl c then .ok (s.save .eatCrnl)
    else s.add c .inField
  | .eatCrnl => if isCrnl c then .ok s else .error .csvError

/-- `parse_process_char` at the end of a line. -/
def eol (s : State) : State :=
  match s.mode with
  | .startRecord => s
  | .startField | .inField | .quoteInQuotedField => s.save .startRecord
  | .inQuotedField => s
  | .eatCrnl => { s with mode := .startRecord }

/-- One line of the input. -/
def line (s : State) (l : PyStr) : Except PyExc State := (l.foldlM step s).map eol

end Csv

/-- The rows read from the lines, when the record before them has come to the state `s`. -/
def csvRows (s : Csv.State) : List PyStr → Except PyExc (List (List PyStr))
  | [] => .ok (if s.mode = .inQuotedField then [s.fields ++ [s.field]] else [])
  | l :: ls => do
    let s' ← Csv.line s l
    if s'.mode = .startRecord then
      let rows ← csvRows .start ls
      return s'.fields :: rows
    else csvRows s' ls

/-- `csv.reader(lines, skipinitialspace=True)`. -/
def csvReader (lines : List PyStr) : Except PyExc (List (List PyStr)) := csvRows .start lines

/-- `next(csv.reader([line], skipinitialspace=True), [])`. -/
def csvFirst (l : PyStr) : Except PyExc (List PyStr) := do
  let rows ← csvReader [l]
  return rows.headD []

example : (csvReader [str "\"a,\"\"b\", c", str "d"]).toOption =
    some [[str "a,\"b", str "c"], [str "d"]] := by decide

end C2Engine.Python
