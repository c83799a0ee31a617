import C2Engine.Python.Codec

/-!
# Unpacking a stream

The loop `for v in unpacker` of `msgpack`, over a reader that takes one value from the front of a
buffer. The loop ends where the buffer is too short for another value, whether it is empty or not;
what it has not read stays in the buffer.

## Main definitions

* `Read`, `Reader`: one value from the front of a buffer.
* `Reader.unpack`: the values of a buffer, and what is left of it.

## Main results

* `Reader.unpack_of_value`, `Reader.unpack_of_incomplete`: the loop.
* `Reader.unpack_flatMap`: a reader that inverts an encoding reads back a stream of encoded values
  to its end.
-/

namespace C2Engine.Python.Msgpack

/-- What a reader makes of the front of a buffer. -/
inductive Read where
  | value (v : Obj) (rest : Bytes)
  /-- The buffer ends within the value. -/
  | incomplete
  | malformed (e : PyExc)

/-- A reader, which takes something of the buffer with every value. -/
structure Reader where
  read : Bytes → Read
  read_nil : read [] = .incomplete
  shorter : ∀ {data rest : Bytes} {v : Obj}, read data = .value v rest → rest.length < data.length

namespace Reader

variable (m : Reader)

/-- At most `fuel` rounds of the loop. -/
def unpackFuel : ℕ → Bytes → Except PyExc (List Obj × Bytes)
  | 0, data => .ok ([], data)
  | fuel + 1, data => match m.read data with
    | .value v rest => (unpackFuel fuel rest).map fun out => (v :: out.1, out.2)
    | .incomplete => .ok ([], data)
    | .malformed e => .error e

/-- `unpacker.feed(data)` and `for v in unpacker`: the values, and what is left in the buffer. -/
def unpack (data : Bytes) : Except PyExc (List Obj × Bytes) := m.unpackFuel data.length data

/-- The values alone. -/
def unpackAll (data : Bytes) : Except PyExc (List Obj) := (m.unpack data).map Prod.fst

/-- The values of an unpacker with a `max_buffer_size`; it raises `BufferFull` where it is fed more
than that. -/
def unpackWithin (max : ℕ) (data : Bytes) : Except PyExc (List Obj) :=
  if max < data.length then .error .other else m.unpackAll data

variable {m}

theorem unpackFuel_nil (fuel : ℕ) : m.unpackFuel fuel [] = .ok ([], []) := by
  cases fuel with
  | zero => rfl
  | succ fuel => rw [unpackFuel, m.read_nil]

/-- Rounds beyond the length of the buffer change nothing. -/
theorem unpackFuel_eq : (fuel : ℕ) → {data : Bytes} → data.length ≤ fuel →
    m.unpackFuel fuel data = m.unpack data := by
  have hstep : ∀ (n fuel : ℕ) {data : Bytes}, data.length ≤ n → data.length ≤ fuel →
      m.unpackFuel fuel data = m.unpackFuel n data := by
    intro n
    induction n with
    | zero =>
      intro fuel data hn _
      obtain rfl := List.length_eq_zero_iff.mp (Nat.le_zero.mp hn)
      rw [unpackFuel_nil, unpackFuel_nil]
    | succ n ih =>
      intro fuel data hn hfuel
      cases fuel with
      | zero =>
        obtain rfl := List.length_eq_zero_iff.mp (Nat.le_zero.mp hfuel)
        rw [unpackFuel_nil, unpackFuel_nil]
      | succ fuel =>
        rw [unpackFuel, unpackFuel]
        cases hread : m.read data with
        | value v rest =>
          have hlt := m.shorter hread
          have heq : m.unpackFuel fuel rest = m.unpackFuel n rest := ih fuel (by omega) (by omega)
          simp only [heq]
        | incomplete => rfl
        | malformed e => rfl
  exact fun fuel data h => hstep data.length fuel le_rfl h

theorem unpack_eq (data : Bytes) : m.unpack data = match m.read data with
    | .value v rest => (m.unpack rest).map fun out => (v :: out.1, out.2)
    | .incomplete => .ok ([], data)
    | .malformed e => .error e := by
  rw [← unpackFuel_eq (data.length + 1) (Nat.le_succ _), unpackFuel]
  cases hread : m.read data with
  | value v rest =>
    have heq := unpackFuel_eq (m := m) data.length (m.shorter hread).le
    simp only [heq]
  | incomplete => rfl
  | malformed e => rfl

theorem unpack_of_value {data rest : Bytes} {v : Obj} (h : m.read data = .value v rest) :
    m.unpack data = (m.unpack rest).map fun out => (v :: out.1, out.2) := by
  rw [unpack_eq, h]

/-- Where the buffer ends within a value, the loop ends without a word. -/
theorem unpack_of_incomplete {data : Bytes} (h : m.read data = .incomplete) :
    m.unpack data = .ok ([], data) := by
  rw [unpack_eq, h]

/-- **A stream of encoded values is read back to its end**, where the reader inverts the
encoding. -/
theorem unpack_flatMap {enc : Obj → Bytes} : {vs : List Obj} →
    (∀ v ∈ vs, ∀ rest, m.read (enc v ++ rest) = .value v rest) →
      m.unpack (vs.flatMap enc) = .ok (vs, [])
  | [], _ => unpack_of_incomplete m.read_nil
  | v :: vs, h => by
      rw [List.flatMap_cons, unpack_of_value (h v List.mem_cons_self _),
        unpack_flatMap fun w hw => h w (List.mem_cons_of_mem v hw)]
      rfl

end Reader

end C2Engine.Python.Msgpack
