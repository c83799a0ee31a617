import C2Engine.Python.Msgpack
import C2Engine.Python.Prog

/-!
# Unpacking what arrives in pieces

An unpacker that is fed the pieces of a stream one after the other, and a program that takes the
values out of it as they become complete. A `StreamReader` is a reader whose answers do not change
with what arrives later; then the program does what it does on the values of the whole stream, in
whatever pieces the stream comes.

## Main definitions

* `StreamReader`: a reader of streams.
* `StreamReader.items`: the values of a stream, and the exception that ends it.
* `consume`: a loop over items, which its body may end.
* `StreamReader.drain`, `StreamReader.receive`: `for v in unpacker`, and the loop around it that
  feeds the unpacker.

## Main results

* `StreamReader.unpack_append`: what is left in the buffer is unpacked with what arrives next.
* `StreamReader.exists_items`: the pieces are always handled as some list of items.
* `StreamReader.receive_eq`: that list is the items of the whole stream.
* `StreamReader.receive_full`: a piece there is no room for.
* `StreamReader.unpack_of_prefix`: of a stream of encoded values that breaks off, exactly the values
  that arrived whole are unpacked.
-/

namespace C2Engine.Python.Msgpack

/-- A loop over the items of a stream, which ends where its body says so and raises where the stream
does. -/
def consume {σ : Type} (body : Obj → Prog σ Bool) : List (Except PyExc Obj) → Prog σ Unit
  | [] => pure ()
  | .error e :: _ => Prog.raise e
  | .ok v :: items => do
    let goOn ← body v
    if goOn then consume body items else pure ()

/-- What was read, with more bytes in the buffer behind it. -/
def Read.append (more : Bytes) : Read → Read
  | .value v rest => .value v (rest ++ more)
  | .incomplete => .incomplete
  | .malformed e => .malformed e

/-- A reader of streams: a value that was read, and an error, stay what they are whatever arrives
behind them. The parts of a value that has not arrived whole may be taken out of the buffer one by
one. -/
structure StreamReader extends Reader where
  read_append : ∀ data more : Bytes, read data = .incomplete ∨
    read (data ++ more) = (read data).append more
  /-- How many bytes of a value that has not arrived whole still take room in the buffer. -/
  held : Bytes → ℕ
  held_le : ∀ data, held data ≤ data.length

namespace StreamReader

variable (m : StreamReader)

/-- At most `fuel` of the items of a stream. -/
def itemsFuel : ℕ → Bytes → List (Except PyExc Obj)
  | 0, _ => []
  | fuel + 1, data => match m.read data with
    | .value v rest => .ok v :: itemsFuel fuel rest
    | .incomplete => []
    | .malformed e => [.error e]

/-- The values of a stream, and the exception at its end if there is one. -/
def items (data : Bytes) : List (Except PyExc Obj) := m.itemsFuel data.length data

section Programs

variable {σ : Type} (body : Obj → Prog σ Bool)

/-- At most `fuel` rounds of `drain`. -/
def drainFuel : ℕ → Bytes → Prog σ (Option Bytes)
  | 0, data => pure (some data)
  | fuel + 1, data => match m.read data with
    | .value v rest => do
      let goOn ← body v
      if goOn then drainFuel fuel rest else pure none
    | .incomplete => pure (some data)
    | .malformed e => Prog.raise e

/-- `for v in unpacker: body(v)`: what is left in the buffer, or `none` where the body ended the
loop. -/
def drain (data : Bytes) : Prog σ (Option Bytes) := m.drainFuel body data.length data

/-- The loop around `drain`, with what has arrived of the next value and the pieces to come; an
empty piece is the end of the stream. Feeding an unpacker more than there is room for raises
`BufferFull`. -/
def receive (max : ℕ) : Bytes → List Bytes → Prog σ Unit
  | _, [] => pure ()
  | buffer, data :: pieces =>
    if data.isEmpty then pure ()
    else if max < m.held buffer + data.length then Prog.raise .other
    else do
      let left ← m.drain body (buffer ++ data)
      match left with
      | some rest => receive max rest pieces
      | none => pure ()

end Programs

variable {m}

theorem value_append {data rest : Bytes} {v : Obj} (more : Bytes)
    (h : m.read data = .value v rest) : m.read (data ++ more) = .value v (rest ++ more) := by
  have happ := m.read_append data more
  rw [h] at happ
  exact happ.resolve_left nofun

theorem malformed_append {data : Bytes} {e : PyExc} (more : Bytes)
    (h : m.read data = .malformed e) : m.read (data ++ more) = .malformed e := by
  have happ := m.read_append data more
  rw [h] at happ
  exact happ.resolve_left nofun

/-- Induction along the values of a stream. -/
theorem induction {P : Bytes → Prop}
    (value : ∀ data v rest, m.read data = .value v rest → P rest → P data)
    (incomplete : ∀ data, m.read data = .incomplete → P data)
    (malformed : ∀ data e, m.read data = .malformed e → P data) (data : Bytes) : P data := by
  induction hn : data.length using Nat.strong_induction_on generalizing data with
  | _ n ih =>
    cases hread : m.read data with
    | value v rest => exact value data v rest hread (ih rest.length (hn ▸ m.shorter hread) rest rfl)
    | incomplete => exact incomplete data hread
    | malformed e => exact malformed data e hread

theorem itemsFuel_nil (fuel : ℕ) : m.itemsFuel fuel [] = [] := by
  cases fuel with
  | zero => rfl
  | succ fuel => rw [itemsFuel, m.read_nil]

/-- Rounds beyond the length of the stream change nothing. -/
theorem itemsFuel_eq : (n fuel : ℕ) → {data : Bytes} → data.length ≤ n → data.length ≤ fuel →
    m.itemsFuel fuel data = m.itemsFuel n data := by
  intro n
  induction n with
  | zero =>
    intro fuel data hn _
    obtain rfl := List.length_eq_zero_iff.mp (Nat.le_zero.mp hn)
    rw [itemsFuel_nil, itemsFuel_nil]
  | succ n ih =>
    intro fuel data hn hfuel
    cases fuel with
    | zero =>
      obtain rfl := List.length_eq_zero_iff.mp (Nat.le_zero.mp hfuel)
      rw [itemsFuel_nil, itemsFuel_nil]
    | succ fuel =>
      rw [itemsFuel, itemsFuel]
      cases hread : m.read data with
      | value v rest =>
        have hlt := m.shorter hread
        exact congrArg _ (ih fuel (by omega) (by omega))
      | incomplete => rfl
      | malformed e => rfl

theorem items_of_value {data rest : Bytes} {v : Obj} (h : m.read data = .value v rest) :
    m.items data = .ok v :: m.items rest := by
  have hlt := m.shorter h
  have heq : m.items data = m.itemsFuel (data.length + 1) data :=
    (itemsFuel_eq data.length (data.length + 1) le_rfl (Nat.le_succ _)).symm
  rw [heq, itemsFuel, h]
  exact congrArg _ (itemsFuel_eq rest.length data.length le_rfl hlt.le)

theorem items_of_incomplete {data : Bytes} (h : m.read data = .incomplete) : m.items data = [] := by
  cases hlen : data.length with
  | zero => rw [items, hlen, itemsFuel]
  | succ n => rw [items, hlen, itemsFuel, h]

theorem items_of_malformed {data : Bytes} {e : PyExc} (h : m.read data = .malformed e) :
    m.items data = [.error e] := by
  cases hlen : data.length with
  | zero =>
    rw [List.length_eq_zero_iff.mp hlen, m.read_nil] at h
    cases h
  | succ n => rw [items, hlen, itemsFuel, h]

/-- What was unpacked begins with the first value. -/
theorem unpack_of_value_eq {data tail rest : Bytes} {v : Obj} {vs : List Obj}
    (hread : m.read data = .value v tail) (h : m.unpack data = .ok (vs, rest)) :
    ∃ vs', vs = v :: vs' ∧ m.unpack tail = .ok (vs', rest) := by
  rw [Reader.unpack_of_value hread] at h
  obtain ⟨⟨vs', rest'⟩, hout, heq⟩ := map_eq_ok.mp h
  obtain ⟨rfl, rfl⟩ := Prod.mk.inj heq
  exact ⟨vs', rfl, hout⟩

theorem unpack_of_incomplete_eq {data rest : Bytes} {vs : List Obj}
    (hread : m.read data = .incomplete) (h : m.unpack data = .ok (vs, rest)) :
    vs = [] ∧ rest = data := by
  rw [Reader.unpack_of_incomplete hread, Except.ok.injEq, Prod.mk.injEq] at h
  exact ⟨h.1.symm, h.2.symm⟩

theorem unpack_of_malformed {data : Bytes} {e : PyExc} (h : m.read data = .malformed e) :
    m.unpack data = .error e := by
  rw [Reader.unpack_eq, h]

theorem length_le_of_unpack {data rest : Bytes} {vs : List Obj}
    (h : m.unpack data = .ok (vs, rest)) : rest.length ≤ data.length := by
  induction data using induction (m := m) generalizing vs with
  | value data v tail hread ih =>
    obtain ⟨vs', -, htail⟩ := unpack_of_value_eq hread h
    exact (ih htail).trans (m.shorter hread).le
  | incomplete data hread =>
    obtain ⟨-, rfl⟩ := unpack_of_incomplete_eq hread h
    exact le_rfl
  | malformed data e hread =>
    rw [unpack_of_malformed hread] at h
    cases h

/-- **What is left in the buffer is unpacked with what arrives next.** -/
theorem unpack_append {data rest : Bytes} {vs : List Obj} (more : Bytes)
    (h : m.unpack data = .ok (vs, rest)) :
    m.unpack (data ++ more) = (m.unpack (rest ++ more)).map fun out => (vs ++ out.1, out.2) := by
  induction data using induction (m := m) generalizing vs with
  | value data v tail hread ih =>
    obtain ⟨vs', rfl, htail⟩ := unpack_of_value_eq hread h
    rw [Reader.unpack_of_value (value_append more hread), ih htail]
    cases m.unpack (rest ++ more) <;> rfl
  | incomplete data hread =>
    obtain ⟨rfl, rfl⟩ := unpack_of_incomplete_eq hread h
    cases m.unpack (rest ++ more) <;> rfl
  | malformed data e hread =>
    rw [unpack_of_malformed hread] at h
    cases h

/-- A buffer that was unpacked ends within a value. -/
theorem read_of_unpack {data rest : Bytes} {vs : List Obj} (h : m.unpack data = .ok (vs, rest)) :
    m.read rest = .incomplete := by
  induction data using induction (m := m) generalizing vs with
  | value data v tail hread ih =>
    obtain ⟨vs', -, htail⟩ := unpack_of_value_eq hread h
    exact ih htail
  | incomplete data hread =>
    obtain ⟨-, rfl⟩ := unpack_of_incomplete_eq hread h
    exact hread
  | malformed data e hread =>
    rw [unpack_of_malformed hread] at h
    cases h

theorem items_append_of_unpack {data rest : Bytes} {vs : List Obj} (more : Bytes)
    (h : m.unpack data = .ok (vs, rest)) :
    m.items (data ++ more) = vs.map .ok ++ m.items (rest ++ more) := by
  induction data using induction (m := m) generalizing vs with
  | value data v tail hread ih =>
    obtain ⟨vs', rfl, htail⟩ := unpack_of_value_eq hread h
    rw [items_of_value (value_append more hread), ih htail]
    rfl
  | incomplete data hread =>
    obtain ⟨rfl, rfl⟩ := unpack_of_incomplete_eq hread h
    rfl
  | malformed data e hread =>
    rw [unpack_of_malformed hread] at h
    cases h

/-- An error ends the stream, whatever arrives behind it. -/
theorem items_append_of_error {data : Bytes} {e : PyExc} (more : Bytes)
    (h : m.unpack data = .error e) : m.items (data ++ more) = m.items data := by
  induction data using induction (m := m) with
  | value data v tail hread ih =>
    rw [Reader.unpack_of_value hread] at h
    have htail : m.unpack tail = .error e := by
      cases hout : m.unpack tail with
      | ok out =>
        rw [hout] at h
        cases h
      | error e' =>
        rw [hout] at h
        exact congrArg _ (Except.error.inj h)
    rw [items_of_value (value_append more hread), items_of_value hread, ih htail]
  | incomplete data hread =>
    rw [Reader.unpack_of_incomplete hread] at h
    cases h
  | malformed data e' hread =>
    rw [items_of_malformed (malformed_append more hread), items_of_malformed hread]

/-! ### The loop over the values in the buffer -/

section Programs

variable {σ : Type} {body : Obj → Prog σ Bool}

theorem drainFuel_nil (fuel : ℕ) : m.drainFuel body fuel [] = pure (some []) := by
  cases fuel with
  | zero => rfl
  | succ fuel => rw [drainFuel, m.read_nil]

theorem drainFuel_eq : (n fuel : ℕ) → {data : Bytes} → data.length ≤ n → data.length ≤ fuel →
    m.drainFuel body fuel data = m.drainFuel body n data := by
  intro n
  induction n with
  | zero =>
    intro fuel data hn _
    obtain rfl := List.length_eq_zero_iff.mp (Nat.le_zero.mp hn)
    rw [drainFuel_nil, drainFuel_nil]
  | succ n ih =>
    intro fuel data hn hfuel
    cases fuel with
    | zero =>
      obtain rfl := List.length_eq_zero_iff.mp (Nat.le_zero.mp hfuel)
      rw [drainFuel_nil, drainFuel_nil]
    | succ fuel =>
      rw [drainFuel, drainFuel]
      cases hread : m.read data with
      | value v rest =>
        have hlt := m.shorter hread
        have heq : m.drainFuel body fuel rest = m.drainFuel body n rest :=
          ih fuel (by omega) (by omega)
        simp only [heq]
      | incomplete => rfl
      | malformed e => rfl

theorem drain_eq (data : Bytes) : m.drain body data = match m.read data with
    | .value v rest => (do
      let goOn ← body v
      if goOn then m.drain body rest else pure none)
    | .incomplete => pure (some data)
    | .malformed e => Prog.raise e := by
  have heq : m.drain body data = m.drainFuel body (data.length + 1) data :=
    (drainFuel_eq data.length (data.length + 1) le_rfl (Nat.le_succ _)).symm
  rw [heq, drainFuel]
  cases hread : m.read data with
  | value v rest =>
    have hrest : m.drainFuel body data.length rest = m.drain body rest :=
      drainFuel_eq rest.length data.length le_rfl (m.shorter hread).le
    simp only [hrest]
  | incomplete => rfl
  | malformed e => rfl

/-- **The loop over the buffer and then over what arrives behind it** is the loop over both. -/
theorem run_drain_bind {k : Bytes → Prog σ Unit} (tail : Bytes → List (Except PyExc Obj))
    {data : Bytes} {all : List (Except PyExc Obj)}
    (hall : ∀ vs rest, m.unpack data = .ok (vs, rest) → all = vs.map .ok ++ tail rest)
    (herr : ∀ e, m.unpack data = .error e → all = m.items data)
    (hk : ∀ vs rest s, m.unpack data = .ok (vs, rest) →
      (k rest).run s = (consume body (tail rest)).run s) (s : σ) :
    (m.drain body data >>= fun left => match left with
      | some rest => k rest
      | none => pure ()).run s = (consume body all).run s := by
  induction data using induction (m := m) generalizing s all with
  | value data v rest hread ih =>
    rw [drain_eq]
    have hunpack := Reader.unpack_of_value hread
    -- the items behind the first one
    obtain ⟨all', rfl, hall', herr'⟩ : ∃ all', all = .ok v :: all' ∧
        (∀ vs left, m.unpack rest = .ok (vs, left) → all' = vs.map .ok ++ tail left) ∧
        (∀ e, m.unpack rest = .error e → all' = m.items rest) := by
      cases hrest : m.unpack rest with
      | ok out =>
        obtain ⟨vs, left⟩ := out
        rw [hrest] at hunpack
        refine ⟨_, hall (v :: vs) left hunpack, ?_, ?_⟩
        · intro vs' left' heq
          obtain ⟨rfl, rfl⟩ := Prod.mk.inj (Except.ok.inj heq)
          rfl
        · intro e heq
          cases heq
      | error e =>
        rw [hrest] at hunpack
        refine ⟨m.items rest, (herr e hunpack).trans (items_of_value hread), ?_, fun _ _ => rfl⟩
        intro vs left heq
        cases heq
    have hk' : ∀ vs left s, m.unpack rest = .ok (vs, left) →
        (k left).run s = (consume body (tail left)).run s := by
      intro vs left s hvs
      refine hk (v :: vs) left s ?_
      rw [hunpack, hvs]
      rfl
    simp only [hread, consume, Prog.run_bind]
    rcases (body v).run s with ⟨e | goOn, s₁⟩
    · rfl
    · cases goOn with
      | true => exact ih hall' herr' hk' s₁
      | false => rfl
  | incomplete data hread =>
    have hunpack := Reader.unpack_of_incomplete hread
    rw [drain_eq, hread, hall [] data hunpack]
    exact hk [] data s hunpack
  | malformed data e hread =>
    rw [drain_eq, hread, herr e (unpack_of_malformed hread), items_of_malformed hread]
    rfl

/-- **Whatever arrives, it is handled as some list of items**, which is that of the bytes and of
the bound alone. -/
theorem exists_items (body : Obj → Prog σ Bool) (max : ℕ) : (buffer : Bytes) →
    (pieces : List Bytes) →
      ∃ all, ∀ s, (m.receive body max buffer pieces).run s = (consume body all).run s := by
  intro buffer pieces
  induction pieces generalizing buffer with
  | nil => exact ⟨[], fun _ => rfl⟩
  | cons data pieces ih =>
    rw [receive]
    split_ifs with hempty hfull
    · exact ⟨[], fun _ => rfl⟩
    · exact ⟨[.error .other], fun _ => rfl⟩
    · choose tail htail using ih
      cases hunpack : m.unpack (buffer ++ data) with
      | ok out =>
        refine ⟨out.1.map .ok ++ tail out.2, run_drain_bind tail ?_ ?_ ?_⟩
        · intro vs rest h
          rw [hunpack, Except.ok.injEq] at h
          rw [h]
        · intro e h
          rw [hunpack] at h
          cases h
        · exact fun vs rest s _ => htail rest s
      | error e =>
        refine ⟨m.items (buffer ++ data), run_drain_bind tail ?_ (fun _ _ => rfl) ?_⟩
        · intro vs rest h
          rw [hunpack] at h
          cases h
        · exact fun vs rest s _ => htail rest s

/-- **The pieces do not matter**: where the buffer always has room for the next piece, they are
handled as the items of the whole stream. -/
theorem receive_eq {max size : ℕ} {seen buffer : Bytes} {vs : List Obj} {pieces : List Bytes}
    (hseen : m.unpack seen = .ok (vs, buffer))
    (hpieces : ∀ data ∈ pieces, data ≠ [] ∧ data.length ≤ size)
    (hroom : ∀ p data vs rest, p ++ data <+: seen ++ pieces.flatten → data.length ≤ size →
      m.unpack p = .ok (vs, rest) → m.held rest + data.length ≤ max) (s : σ) :
    (m.receive body max buffer pieces).run s =
      (consume body (m.items (buffer ++ pieces.flatten))).run s := by
  induction pieces generalizing seen buffer vs s with
  | nil =>
    rw [List.flatten_nil, List.append_nil, items_of_incomplete (read_of_unpack hseen)]
    rfl
  | cons data pieces ih =>
    obtain ⟨⟨hne, hle⟩, hpieces⟩ := List.forall_mem_cons.mp hpieces
    have hfits : ¬ max < m.held buffer + data.length := by
      have hle' := hroom seen data vs buffer ?_ hle hseen
      · omega
      · rw [List.flatten_cons, List.prefix_append_right_inj]
        exact List.prefix_append _ _
    have hsplit : buffer ++ (data :: pieces).flatten = (buffer ++ data) ++ pieces.flatten := by
      rw [List.flatten_cons, List.append_assoc]
    rw [receive, if_neg (by simpa using hne), if_neg hfits, hsplit]
    refine run_drain_bind (fun rest => m.items (rest ++ pieces.flatten)) ?_ ?_ ?_ s
    · exact fun vs rest h => items_append_of_unpack pieces.flatten h
    · exact fun e h => items_append_of_error pieces.flatten h
    · intro vs' rest s h
      -- what was fed so far leaves the same rest
      have hfed : m.unpack (seen ++ data) = .ok (vs ++ vs', rest) := by
        rw [unpack_append data hseen, h]
        rfl
      refine ih hfed hpieces ?_ s
      rwa [List.append_assoc, ← List.flatten_cons]

/-- **A piece there is no room for** ends the loop before the value it belongs to is there, and
nothing was done. -/
theorem receive_full {max : ℕ} {front : List Bytes} {data : Bytes} (pieces : List Bytes)
    (hfront : ∀ p ∈ front, p ≠ []) (hdata : data ≠ []) {buffer : Bytes}
    (hread : ∀ p, p <+: front.flatten → m.read (buffer ++ p) = .incomplete)
    (hfull : max < m.held (buffer ++ front.flatten) + data.length) (s : σ) :
    (m.receive body max buffer (front ++ data :: pieces)).run s = (.error .other, s) := by
  induction front generalizing buffer with
  | nil =>
    rw [List.flatten_nil, List.append_nil] at hfull
    rw [List.nil_append, receive, if_neg (by simpa using hdata), if_pos hfull]
    rfl
  | cons p front ih =>
    obtain ⟨hp, hfront⟩ := List.forall_mem_cons.mp hfront
    rw [List.cons_append, receive, if_neg (by simpa using hp)]
    split_ifs
    · rfl
    · rw [drain_eq, hread p (List.flatten_cons ▸ List.prefix_append _ _)]
      refine ih hfront (fun q hq => ?_) ?_
      · rw [List.append_assoc]
        exact hread _ (List.flatten_cons ▸ (List.prefix_append_right_inj p).mpr hq)
      · rwa [List.append_assoc, ← List.flatten_cons]

end Programs

/-! ### Encoded values -/

/-- A part of an encoded value is not read yet: a reader that answered would answer differently
later. -/
theorem read_of_part {encoded p : Bytes} {v : Obj}
    (hread : ∀ rest, m.read (encoded ++ rest) = .value v rest) (hp : p <+: encoded)
    (hne : p ≠ encoded) : m.read p = .incomplete := by
  obtain ⟨more, rfl⟩ := hp
  have hval := hread []
  rw [List.append_nil] at hval
  cases hp' : m.read p with
  | value w rest =>
    have happ := value_append more hp'
    rw [hval, Read.value.injEq] at happ
    have hnil : more = [] := (List.append_eq_nil_iff.mp happ.2.symm).2
    exact absurd (by rw [hnil, List.append_nil]) hne
  | incomplete => rfl
  | malformed e =>
    have happ := malformed_append more hp'
    rw [hval] at happ
    cases happ

/-- **Of a stream of encoded values that breaks off, exactly the values that arrived whole are
unpacked**: what is left in the buffer is a part of the next one. -/
theorem unpack_of_prefix {enc : Obj → Bytes} : {vs : List Obj} → {p : Bytes} →
    (∀ v ∈ vs, ∀ rest, m.read (enc v ++ rest) = .value v rest) → p <+: vs.flatMap enc →
      ∃ n rest, n ≤ vs.length ∧ p = (vs.take n).flatMap enc ++ rest ∧
        m.unpack p = .ok (vs.take n, rest) ∧ m.items p = (vs.take n).map .ok ∧
        (rest = [] ∨ ∃ v, vs[n]? = some v ∧ rest <+: enc v ∧ rest ≠ enc v)
  | [], p, _, hp => by
      obtain rfl := List.prefix_nil.mp hp
      exact ⟨0, [], le_rfl, rfl, Reader.unpack_of_incomplete m.read_nil,
        items_of_incomplete m.read_nil, .inl rfl⟩
  | v :: vs, p, hread, hp => by
      have hv := hread v List.mem_cons_self
      by_cases hwhole : enc v <+: p
      · -- the first value arrived whole
        obtain ⟨p', rfl⟩ := hwhole
        rw [List.flatMap_cons] at hp
        obtain ⟨n, rest, hn, hp', hunpack, hitems, hrest⟩ := unpack_of_prefix
          (fun w hw => hread w (List.mem_cons_of_mem v hw)) ((List.prefix_append_right_inj _).mp hp)
        refine ⟨n + 1, rest, Nat.succ_le_succ hn, ?_, ?_, ?_, hrest⟩
        · rw [List.take_succ_cons, List.flatMap_cons, List.append_assoc, ← hp']
        · rw [Reader.unpack_of_value (hv p'), hunpack]
          rfl
        · rw [items_of_value (hv p'), hitems]
          rfl
      · -- the first value is not there yet
        have hpart : p <+: enc v := (List.prefix_or_prefix_of_prefix hp
          (List.flatMap_cons ▸ List.prefix_append _ _)).resolve_right hwhole
        have hincomplete := read_of_part hv hpart fun heq => hwhole (heq ▸ List.prefix_refl _)
        refine ⟨0, p, Nat.zero_le _, rfl, Reader.unpack_of_incomplete hincomplete,
          items_of_incomplete hincomplete, .inr ⟨v, rfl, hpart, ?_⟩⟩
        rintro rfl
        exact hwhole (List.prefix_refl _)

end StreamReader

end C2Engine.Python.Msgpack
