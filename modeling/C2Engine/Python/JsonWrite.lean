import C2Engine.Python.JsonText

/-!
# Writing JSON

`json.dumps` with its default settings: items stand apart by a comma and a space, names and values
by a colon and a space. The text of a value is read as the value again, in front of whatever may
follow a value.

## Main definitions

* `Json.write`: the text of a value.
* `Json.Faithful`: the values whose text is read as the value.

## Main results

* `Json.printable_write`: what is written is printable ASCII.
* `Json.scanOnce_write`: the text of a value is read as the value.
* `jsonLoads_write`: `json.loads(json.dumps(v))` is `v`.
-/

namespace C2Engine.Python

namespace Json

/-- `float.__repr__`, with the names JSON has for what is no number. -/
def writeFloat (ft : FloatText) : PyFloat → PyStr
  | .finite q => ft.repr q
  | .inf negative => str (if negative then "-Infinity" else "Infinity")
  | .nan => str "NaN"

/-! ### Values -/

/-- The name of a member. -/
def writeKey : Key → PyStr
  | .str s => writeString s
  | .bytes _ => []

mutual

/-- `json.dumps(v)`; what JSON has no text for is left out. -/
def write (ft : FloatText) : Obj → PyStr
  | .none => str "null"
  | .bool b => str (if b then "true" else "false")
  | .int n => writeInt n
  | .float x => writeFloat ft x
  | .str s => writeString s
  | .list xs => cp '[' :: writeItems ft xs ++ [cp ']']
  | .map kvs => cp '{' :: writeMembers ft kvs ++ [cp '}']
  | _ => []

/-- The items of an array. -/
def writeItems (ft : FloatText) : List Obj → PyStr
  | [] => []
  | x :: xs => write ft x ++ (if xs.isEmpty then [] else str ", ") ++ writeItems ft xs

/-- The members of an object. -/
def writeMembers (ft : FloatText) : List (Key × Obj) → PyStr
  | [] => []
  | (k, v) :: kvs =>
    writeKey k ++ str ": " ++ write ft v ++ (if kvs.isEmpty then [] else str ", ") ++
      writeMembers ft kvs

end

mutual

/-- **What is written is printable ASCII.** -/
theorem printable_write (ft : FloatText) : (v : Obj) → Printable (write ft v)
  | .none => by
      rw [write]
      decide
  | .bool b => by
      rw [write]
      cases b <;> decide
  | .int n => by
      rw [write, writeInt]
      split_ifs
      · exact .cons (by decide) (printable_ofNat _)
      · exact printable_ofNat _
  | .float (.finite q) => by
      rw [write]
      exact ft.printable q
  | .float (.inf negative) => by
      rw [write, writeFloat]
      cases negative <;> decide
  | .float .nan => by
      rw [write, writeFloat]
      decide
  | .str s => by
      rw [write]
      exact printable_writeString s
  | .list xs => by
      rw [write]
      exact .cons (by decide) (.append (printable_writeItems ft xs) (.cons (by decide) .nil))
  | .map kvs => by
      rw [write]
      exact .cons (by decide) (.append (printable_writeMembers ft kvs) (.cons (by decide) .nil))
  | .bytes _ | .ext _ _ | .timestamp _ _ => by
      simp only [write]
      exact .nil

theorem printable_writeItems (ft : FloatText) : (xs : List Obj) → Printable (writeItems ft xs)
  | [] => .nil
  | x :: xs => by
      rw [writeItems]
      refine ((printable_write ft x).append ?_).append (printable_writeItems ft xs)
      split_ifs
      · exact .nil
      · decide

theorem printable_writeMembers (ft : FloatText) : (kvs : List (Key × Obj)) →
    Printable (writeMembers ft kvs)
  | [] => .nil
  | (k, v) :: kvs => by
      have hkey : Printable (writeKey k) := by
        cases k with
        | str s => exact printable_writeString s
        | bytes b => exact .nil
      rw [writeMembers]
      refine (((hkey.append (by decide)).append (printable_write ft v)).append ?_).append
        (printable_writeMembers ft kvs)
      split_ifs
      · exact .nil
      · decide

end

/-- The floating-point numbers a double can hold. -/
def IsDouble : PyFloat → Prop
  | .finite q => toDouble q = .finite q
  | _ => True

/-- The values whose text is read as the value, with arrays and objects nested no deeper than
given: texts without split surrogate pairs, numbers that are not too long, and objects whose names
differ. -/
inductive Faithful : ℕ → Obj → Prop
  | none {n : ℕ} : Faithful n .none
  | bool {n : ℕ} (b : Bool) : Faithful n (.bool b)
  | int {n : ℕ} {i : ℤ} (h : (PyStr.ofNat i.natAbs).length ≤ intMaxStrDigits) : Faithful n (.int i)
  | float {n : ℕ} {x : PyFloat} (h : IsDouble x) : Faithful n (.float x)
  | str {n : ℕ} {s : PyStr} (h : Paired s) : Faithful n (.str s)
  | list {n : ℕ} {xs : List Obj} (h : ∀ x ∈ xs, Faithful n x) : Faithful (n + 1) (.list xs)
  | map {n : ℕ} {d : Dict} (hkeys : ∀ kv ∈ d, ∃ s, kv.1 = .str s ∧ Paired s)
      (hnodup : (d.map Prod.fst).Nodup) (h : ∀ kv ∈ d, Faithful n kv.2) : Faithful (n + 1) (.map d)

mutual

/-- `Faithful`, computed. -/
def isFaithful : ℕ → Obj → Bool
  | _, .none | _, .bool _ => true
  | _, .int i => (PyStr.ofNat i.natAbs).length ≤ intMaxStrDigits
  | _, .float x => match x with
    | .finite q => toDouble q = .finite q
    | _ => true
  | _, .str s => decide (Paired s)
  | n + 1, .list xs => itemsFaithful n xs
  | n + 1, .map d => (d.map Prod.fst).Nodup && membersFaithful n d
  | _, _ => false

/-- `isFaithful` of every item of an array. -/
def itemsFaithful : ℕ → List Obj → Bool
  | _, [] => true
  | n, x :: xs => isFaithful n x && itemsFaithful n xs

/-- `isFaithful` of every member of an object, with names that are read again. -/
def membersFaithful : ℕ → List (Key × Obj) → Bool
  | _, [] => true
  | n, kv :: kvs => (match kv.1 with
      | .str s => decide (Paired s)
      | .bytes _ => false) && isFaithful n kv.2 && membersFaithful n kvs

end

mutual

theorem faithful_of_isFaithful : {n : ℕ} → {v : Obj} → isFaithful n v → Faithful n v
  | _, .none, _ => .none
  | _, .bool b, _ => .bool b
  | _, .int i, h => .int (by simpa [isFaithful] using h)
  | _, .float (.finite q), h => .float (by
      have heq : toDouble q = .finite q := by simpa [isFaithful] using h
      exact heq)
  | _, .float (.inf _), _ => .float trivial
  | _, .float .nan, _ => .float trivial
  | _, .str s, h => .str (by simpa [isFaithful] using h)
  | n + 1, .list xs, h => .list (forall_mem_itemsFaithful (by simpa [isFaithful] using h))
  | n + 1, .map d, h => by
      rw [isFaithful, Bool.and_eq_true, decide_eq_true_eq] at h
      have hall := forall_mem_membersFaithful h.2
      exact .map (fun kv hkv => (hall kv hkv).1) h.1 fun kv hkv => (hall kv hkv).2
  | 0, .list _, h | 0, .map _, h | _, .bytes _, h | _, .ext _ _, h | _, .timestamp _ _, h => by
      simp [isFaithful] at h

theorem forall_mem_itemsFaithful : {n : ℕ} → {xs : List Obj} → itemsFaithful n xs →
    ∀ x ∈ xs, Faithful n x
  | _, [], _ => List.forall_mem_nil _
  | n, x :: xs, h => by
      rw [itemsFaithful, Bool.and_eq_true] at h
      exact List.forall_mem_cons.mpr ⟨faithful_of_isFaithful h.1, forall_mem_itemsFaithful h.2⟩

theorem forall_mem_membersFaithful : {n : ℕ} → {d : List (Key × Obj)} → membersFaithful n d →
    ∀ kv ∈ d, (∃ s, kv.1 = .str s ∧ Paired s) ∧ Faithful n kv.2
  | _, [], _ => List.forall_mem_nil _
  | n, (k, v) :: d, h => by
      rw [membersFaithful, Bool.and_eq_true, Bool.and_eq_true] at h
      refine List.forall_mem_cons.mpr ⟨⟨?_, faithful_of_isFaithful h.1.2⟩,
        forall_mem_membersFaithful h.2⟩
      cases k with
      | str s => exact ⟨s, rfl, by simpa using h.1.1⟩
      | bytes b => exact absurd h.1.1 Bool.false_ne_true

end

/-- A value that is read again is one JSON can hold. -/
theorem Faithful.isJson {n : ℕ} {v : Obj} (h : Faithful n v) : v.isJson := by
  induction h with
  | none => rfl
  | bool b => exact Obj.isJson_bool b
  | int h => exact Obj.isJson_int _
  | float h => exact Obj.isJson_float _
  | str h => exact Obj.isJson_str _
  | list h ih => exact (Obj.isJson_list _).mpr ih
  | map hkeys hnodup h ih =>
    refine (Obj.isJson_map _).mpr fun kv hkv => ⟨?_, ih kv hkv⟩
    obtain ⟨s, hs, -⟩ := hkeys kv hkv
    exact ⟨s, hs⟩

/-- A text that can be encoded has no surrogates, and so no pair of them. -/
theorem paired_of_encodable : {s : PyStr} → s.Encodable → Paired s
  | [], _ => .nil
  | [_], _ => .singleton _
  | c :: d :: s, h => by
      obtain ⟨-, hs⟩ := (PyStr.encodable_cons c (d :: s)).mp h
      refine List.isChain_cons_cons.mpr ⟨fun _ hlow => ?_, paired_of_encodable hs⟩
      have hd := hs d List.mem_cons_self
      simp only [isLow, Bool.and_eq_true, decide_eq_true_eq] at hlow
      rw [CodePoint.isSurrogate, Bool.and_eq_false_iff, decide_eq_false_iff_not,
        decide_eq_false_iff_not] at hd
      omega

/-- Printable ASCII can be encoded. -/
theorem Printable.encodable {s : PyStr} (h : Printable s) : s.Encodable := by
  intro c hc
  have hval := h c hc
  rw [CodePoint.isSurrogate, Bool.and_eq_false_iff, decide_eq_false_iff_not,
    decide_eq_false_iff_not]
  omega

/-- Printable ASCII has no line feed. -/
theorem Printable.notMem {s : PyStr} (h : Printable s) : cp '\n' ∉ s := fun hc =>
  absurd (h _ hc) (by decide)

/-- What may follow a value. -/
def EndsValue (t : PyStr) : Prop := ∀ c ∈ t.head?, c ∈ [cp ',', cp ']', cp '}', cp '\n']

theorem EndsValue.endsNumber {t : PyStr} (h : EndsValue t) : EndsNumber t := by
  intro c hc
  have hall : ∀ c ∈ [cp ',', cp ']', cp '}', cp '\n'],
      ¬ c.isAsciiDigit ∧ c ≠ cp '.' ∧ c ≠ cp 'e' ∧ c ≠ cp 'E' := by
    simp only [List.forall_mem_cons]
    refine ⟨?_, ?_, ?_, ?_, List.forall_mem_nil _⟩ <;> decide
  exact hall c (h c hc)

/-- A text that begins as a number does is read as a number. -/
theorem scanValue_number {inner : Option (Scanner Obj)} {s : PyStr} (hs : BeginsNumber s) :
    scanValue inner s = scanNumber s := by
  cases s with
  | nil => cases hs
  | cons c s =>
    -- no constant begins like this: its first characters are letters, or a minus and a letter
    have hconstants : ∀ w ∈ constants, ∃ x y r, w.1 = x :: y :: r ∧ ¬ x.isAsciiDigit ∧
        (x = cp '-' → ¬ y.isAsciiDigit) := by
      simp only [constants, List.forall_mem_cons]
      refine ⟨⟨_, _, _, rfl, ?_⟩, ⟨_, _, _, rfl, ?_⟩, ⟨_, _, _, rfl, ?_⟩, ⟨_, _, _, rfl, ?_⟩,
        ⟨_, _, _, rfl, ?_⟩, ⟨_, _, _, rfl, ?_⟩, List.forall_mem_nil _⟩ <;> decide +kernel
    have hfind : constants.find? (fun w => w.1.isPrefixOf (c :: s)) = Option.none := by
      rw [List.find?_eq_none]
      intro w hw hprefix
      obtain ⟨x, y, r, hw, hx, hy⟩ := hconstants w hw
      rw [hw, List.isPrefixOf_iff_prefix, List.cons_prefix_cons] at hprefix
      obtain ⟨rfl, hrest⟩ := hprefix
      obtain ⟨s', rfl⟩ := hrest
      simp only [BeginsNumber, Bool.or_eq_true, Bool.and_eq_true, decide_eq_true_eq] at hs
      rcases hs with hs | ⟨hs, hdigit⟩
      · exact hx hs
      · exact hy hs (by simpa using hdigit)
    have hne : c ≠ cp '"' ∧ c ≠ cp '{' ∧ c ≠ cp '[' := by
      have hc : c.isAsciiDigit ∨ c = cp '-' := by
        simp only [BeginsNumber, Bool.or_eq_true, Bool.and_eq_true, decide_eq_true_eq] at hs
        exact hs.imp_right And.left
      refine ⟨?_, ?_, ?_⟩ <;> rintro rfl <;> revert hc <;> decide
    rw [scanValue.eq_def]
    dsimp only
    rw [if_neg hne.1, if_neg hne.2.1, if_neg hne.2.2, hfind]

theorem beginsNumber_append {s : PyStr} (hs : BeginsNumber s) (t : PyStr) :
    BeginsNumber (s ++ t) := by
  rcases s with _ | ⟨c, _ | ⟨d, s⟩⟩
  · cases hs
  · simp only [BeginsNumber, List.head?_nil, Option.any_none, Bool.and_false, Bool.or_false] at hs
    simp [BeginsNumber, hs]
  · exact hs

theorem beginsNumber_writeInt (n : ℤ) (t : PyStr) : BeginsNumber (writeInt n ++ t) := by
  obtain ⟨c, s, heq, hdigit, -⟩ := exists_ofNat_eq_cons n.natAbs
  rw [writeInt, heq]
  split_ifs
  · simp [BeginsNumber, hdigit]
  · simp [BeginsNumber, hdigit]

/-! ### Round trip -/

/-- A character that is no white space, no closing bracket and no byte order mark. -/
def BeginsValue (c : CodePoint) : Prop :=
  PyStr.oneOf (Python.str " \t\n\r") c = false ∧ c ≠ cp ']' ∧ c ≠ cp '}' ∧ c.val ≠ 0xFEFF

theorem beginsValue_of_beginsNumber {c : CodePoint} {s : PyStr} (h : BeginsNumber (c :: s)) :
    BeginsValue c := by
  have hc : c.isAsciiDigit ∨ c = cp '-' := by
    simp only [BeginsNumber, Bool.or_eq_true, Bool.and_eq_true, decide_eq_true_eq] at h
    exact h.imp_right And.left
  have hspace : ∀ d ∈ Python.str " \t\n\r", ¬ d.isAsciiDigit ∧ d ≠ cp '-' := by
    have heq : Python.str " \t\n\r" = [cp ' ', cp '\t', cp '\n', cp '\r'] := rfl
    rw [heq]
    simp only [List.forall_mem_cons]
    refine ⟨?_, ?_, ?_, ?_, List.forall_mem_nil _⟩ <;> decide
  refine ⟨?_, ?_, ?_, ?_⟩
  · by_contra hmem
    obtain ⟨h₁, h₂⟩ := hspace c (List.elem_iff.mp (by simpa [PyStr.oneOf] using hmem))
    exact hc.elim h₁ h₂
  · rintro rfl
    revert hc
    decide
  · rintro rfl
    revert hc
    decide
  · intro hval
    have hbom : c = ⟨0xFEFF, by decide⟩ := Fin.ext hval
    subst hbom
    revert hc
    decide

theorem skipSpace_cons {c : CodePoint} (h : BeginsValue c) (s : PyStr) :
    skipSpace (c :: s) = c :: s := by
  rw [skipSpace, List.dropWhile_cons_of_neg (by simp [h.1])]

variable (ft : FloatText)

/-- The text of a value begins with a character that is no white space and closes nothing. -/
theorem exists_write_eq_cons {n : ℕ} {v : Obj} (h : Faithful n v) :
    ∃ c s, write ft v = c :: s ∧ BeginsValue c := by
  have hnumber : ∀ s, BeginsNumber s → ∃ c t, s = c :: t ∧ BeginsValue c := by
    intro s hs
    cases s with
    | nil => cases hs
    | cons c s => exact ⟨c, s, rfl, beginsValue_of_beginsNumber hs⟩
  cases h with
  | none => exact ⟨cp 'n', _, rfl, by decide, by decide, by decide, by decide⟩
  | bool b =>
    cases b
    · exact ⟨cp 'f', _, rfl, by decide, by decide, by decide, by decide⟩
    · exact ⟨cp 't', _, rfl, by decide, by decide, by decide, by decide⟩
  | @int _ i h =>
    have hbegins := beginsNumber_writeInt i []
    rw [List.append_nil] at hbegins
    exact hnumber _ hbegins
  | @float _ x h =>
    cases x with
    | finite q => exact hnumber _ (ft.begins q)
    | inf negative =>
      cases negative
      · exact ⟨cp 'I', _, rfl, by decide, by decide, by decide, by decide⟩
      · exact ⟨cp '-', _, rfl, by decide, by decide, by decide, by decide⟩
    | nan => exact ⟨cp 'N', _, rfl, by decide, by decide, by decide, by decide⟩
  | str h => exact ⟨cp '"', _, rfl, by decide, by decide, by decide, by decide⟩
  | list h => exact ⟨cp '[', _, rfl, by decide, by decide, by decide, by decide⟩
  | map hkeys hnodup h => exact ⟨cp '{', _, rfl, by decide, by decide, by decide, by decide⟩

theorem endsValue_cons {c : CodePoint} (h : c ∈ [cp ',', cp ']', cp '}', cp '\n']) (t : PyStr) :
    EndsValue (c :: t) := by
  intro d hd
  exact Option.some.inj hd ▸ h

/-- A scanner that reads the text of a value as the value. -/
def Inverts (item : Scanner Obj) (v : Obj) : Prop :=
  ∀ t, EndsValue t → item (write ft v ++ t) = .ok (v, t)

variable {ft}

/-- The items of an array are read as written. -/
theorem scanItems_writeItems {item : Scanner Obj} {n : ℕ} {t : PyStr} : {xs : List Obj} →
    {fuel : ℕ} → xs ≠ [] → xs.length ≤ fuel → (∀ x ∈ xs, Faithful n x) →
      (∀ x ∈ xs, Inverts ft item x) →
        scanItems item fuel (writeItems ft xs ++ cp ']' :: t) = .ok (xs, t)
  | [], _, hne, _, _, _ => absurd rfl hne
  | x :: xs, 0, _, hfuel, _, _ => absurd hfuel (by simp)
  | [x], fuel + 1, _, _, _, hitem => by
      have hx := hitem x List.mem_cons_self (cp ']' :: t) (endsValue_cons (by decide) t)
      have htext : writeItems ft [x] ++ cp ']' :: t = write ft x ++ cp ']' :: t := by
        simp [writeItems]
      rw [scanItems, htext, hx]
      rfl
  | x :: y :: xs, fuel + 1, _, hfuel, hfaithful, hitem => by
      obtain ⟨hx, hrest⟩ := List.forall_mem_cons.mp hitem
      obtain ⟨-, hfaithful⟩ := List.forall_mem_cons.mp hfaithful
      have ih := scanItems_writeItems (t := t) (List.cons_ne_nil y xs)
        (Nat.le_of_succ_le_succ hfuel) hfaithful hrest
      have htext : writeItems ft (x :: y :: xs) ++ cp ']' :: t =
          write ft x ++ cp ',' :: cp ' ' :: (writeItems ft (y :: xs) ++ cp ']' :: t) := by
        rw [writeItems]
        simp [Python.str_eq]
      obtain ⟨c, s, heq, hc⟩ := exists_write_eq_cons ft (hfaithful y List.mem_cons_self)
      have hskip : skipSpace (cp ' ' :: (writeItems ft (y :: xs) ++ cp ']' :: t)) =
          writeItems ft (y :: xs) ++ cp ']' :: t := by
        rw [writeItems, heq]
        simp only [List.cons_append]
        rw [skipSpace, List.dropWhile_cons_of_pos (by decide)]
        exact skipSpace_cons hc _
      rw [scanItems, htext, hx _ (endsValue_cons (by decide) _)]
      change (scanItems item fuel (skipSpace (cp ' ' :: _)) >>= fun r =>
        Except.ok (x :: r.1, r.2)) = _
      rw [hskip, ih]
      rfl

/-- One member is read, and what stands behind it says whether there are more. -/
theorem scanMembers_member {item : Scanner Obj} {n fuel : ℕ} {d : Dict} {name r : PyStr} {v : Obj}
    (hname : Paired name) (hfaithful : Faithful n v) (hv : Inverts ft item v) (hr : EndsValue r) :
    scanMembers item (fuel + 1) d (writeString name ++ Python.str ": " ++ write ft v ++ r) =
      match skipSpace r with
      | [] => decodeError
      | c :: s =>
        if c = cp '}' then .ok (d.set (.str name) v, s)
        else if c = cp ',' then scanMembers item fuel (d.set (.str name) v) (skipSpace s)
        else decodeError := by
  obtain ⟨c, s, heq, hc⟩ := exists_write_eq_cons ft hfaithful
  have htext : writeString name ++ Python.str ": " ++ write ft v ++ r =
      cp '"' :: (name.flatMap writeChar ++ cp '"' :: (cp ':' :: cp ' ' :: (write ft v ++ r))) := by
    simp [writeString, Python.str_eq]
  have hcolon : skipSpace (cp ':' :: cp ' ' :: (write ft v ++ r)) =
      cp ':' :: cp ' ' :: (write ft v ++ r) :=
    List.dropWhile_cons_of_neg (by decide)
  have hspace : skipSpace (cp ' ' :: (write ft v ++ r)) = write ft v ++ r := by
    rw [heq, List.cons_append, skipSpace, List.dropWhile_cons_of_pos (by decide)]
    exact skipSpace_cons hc _
  rw [htext, scanMembers, if_neg (not_not.mpr rfl), scanString_writeString name hname]
  change (match skipSpace (cp ':' :: cp ' ' :: (write ft v ++ r)) with
    | [] => decodeError
    | _ :: _ => _) = _
  rw [hcolon]
  change (item (skipSpace (cp ' ' :: (write ft v ++ r))) >>= _) = _
  rw [hspace, hv r hr]
  rfl

/-- The members of an object are read as written, behind those read so far. -/
theorem scanMembers_writeMembers {item : Scanner Obj} {n : ℕ} {t : PyStr} : {kvs d : Dict} →
    {fuel : ℕ} → kvs ≠ [] → kvs.length ≤ fuel → ((d ++ kvs).map Prod.fst).Nodup →
      (∀ kv ∈ kvs, ∃ s, kv.1 = .str s ∧ Paired s) → (∀ kv ∈ kvs, Faithful n kv.2) →
        (∀ kv ∈ kvs, Inverts ft item kv.2) →
          scanMembers item fuel d (writeMembers ft kvs ++ cp '}' :: t) = .ok (d ++ kvs, t)
  | [], _, _, hne, _, _, _, _, _ => absurd rfl hne
  | kv :: kvs, _, 0, _, hfuel, _, _, _, _ => absurd hfuel (by simp)
  | (k, v) :: kvs, d, fuel + 1, _, hfuel, hnodup, hkeys, hfaithful, hitem => by
      obtain ⟨⟨name, hk, hname⟩, hnames⟩ := List.forall_mem_cons.mp hkeys
      obtain ⟨hv, hrest⟩ := List.forall_mem_cons.mp hitem
      obtain ⟨hfv, hfrest⟩ := List.forall_mem_cons.mp hfaithful
      obtain rfl : k = .str name := hk
      have hset : Dict.set d (.str name) v = d ++ [(.str name, v)] := by
        refine Dict.set_of_notMem (fun hmem => ?_) v
        rw [List.map_append, List.map_cons] at hnodup
        exact (List.nodup_append.mp hnodup).2.2 _ hmem _ List.mem_cons_self rfl
      cases kvs with
      | nil =>
        have htext : writeMembers ft [(.str name, v)] ++ cp '}' :: t =
            writeString name ++ Python.str ": " ++ write ft v ++ cp '}' :: t := by
          simp [writeMembers, writeKey]
        rw [htext, scanMembers_member hname hfv hv (endsValue_cons (by decide) t), hset]
        rfl
      | cons kv kvs =>
        obtain ⟨k', v'⟩ := kv
        have ih := scanMembers_writeMembers (d := d ++ [(.str name, v)]) (t := t)
          (List.cons_ne_nil (k', v') kvs) (Nat.le_of_succ_le_succ hfuel)
          (by rwa [List.append_assoc, List.singleton_append]) hnames hfrest hrest
        rw [List.append_assoc, List.singleton_append] at ih
        have htext : writeMembers ft ((.str name, v) :: (k', v') :: kvs) ++ cp '}' :: t =
            writeString name ++ Python.str ": " ++ write ft v ++
              cp ',' :: cp ' ' :: (writeMembers ft ((k', v') :: kvs) ++ cp '}' :: t) := by
          rw [writeMembers]
          simp [writeKey, Python.str_eq]
        -- the next member begins with the quote of its name
        have hskip : skipSpace (cp ' ' :: (writeMembers ft ((k', v') :: kvs) ++ cp '}' :: t)) =
            writeMembers ft ((k', v') :: kvs) ++ cp '}' :: t := by
          obtain ⟨name', hk', -⟩ := hnames _ List.mem_cons_self
          obtain rfl : k' = .str name' := hk'
          simp only [writeMembers, writeKey, writeString, List.cons_append]
          rw [skipSpace, List.dropWhile_cons_of_pos (by decide),
            List.dropWhile_cons_of_neg (by decide)]
        rw [htext, scanMembers_member hname hfv hv (endsValue_cons (by decide) _), hset]
        change scanMembers item fuel _ (skipSpace (cp ' ' :: _)) = _
        rw [hskip, ih]

variable (ft)

theorem length_writeItems {n : ℕ} : {xs : List Obj} → (∀ x ∈ xs, Faithful n x) →
    xs.length ≤ (writeItems ft xs).length
  | [], _ => Nat.zero_le _
  | x :: xs, h => by
      obtain ⟨hx, hxs⟩ := List.forall_mem_cons.mp h
      obtain ⟨c, s, heq, -⟩ := exists_write_eq_cons ft hx
      have ih := length_writeItems hxs
      rw [writeItems, heq]
      simp only [List.length_append, List.length_cons]
      omega

theorem length_writeMembers : (kvs : Dict) → kvs.length ≤ (writeMembers ft kvs).length
  | [] => Nat.zero_le _
  | (k, v) :: kvs => by
      have ih := length_writeMembers kvs
      have hcolon : (Python.str ": ").length = 2 := rfl
      rw [writeMembers]
      simp only [List.length_append, List.length_cons, hcolon]
      omega

/-- The names of the constants. -/
theorem scanValue_constant {inner : Option (Scanner Obj)} {w : PyStr × Obj} (hw : w ∈ constants)
    (t : PyStr) : scanValue inner (w.1 ++ t) = .ok (w.2, t) := by
  revert w
  simp only [constants, List.forall_mem_cons]
  exact ⟨rfl, rfl, rfl, rfl, rfl, rfl, List.forall_mem_nil _⟩

/-- **The text of a value is read as the value**, in front of what may follow a value. -/
theorem scanOnce_write {n : ℕ} {v : Obj} (h : Faithful n v) {t : PyStr} (ht : EndsValue t) :
    scanOnce n (write ft v ++ t) = .ok (v, t) := by
  have hlevel : ∀ m, ∃ inner, scanOnce m = scanValue inner := fun m => by
    cases m with
    | zero => exact ⟨_, rfl⟩
    | succ m => exact ⟨_, rfl⟩
  induction h generalizing t with
  | @none m =>
    obtain ⟨inner, hinner⟩ := hlevel m
    rw [hinner]
    exact scanValue_constant (w := (Python.str "null", .none)) (by simp [constants]) t
  | @bool m b =>
    obtain ⟨inner, hinner⟩ := hlevel m
    rw [hinner]
    cases b
    · exact scanValue_constant (w := (Python.str "false", .bool false)) (by simp [constants]) t
    · exact scanValue_constant (w := (Python.str "true", .bool true)) (by simp [constants]) t
  | @int m i hi =>
    obtain ⟨inner, hinner⟩ := hlevel m
    rw [hinner, write, scanValue_number (beginsNumber_writeInt i t)]
    exact scanNumber_writeInt hi ht.endsNumber
  | @float m x hx =>
    obtain ⟨inner, hinner⟩ := hlevel m
    rw [hinner]
    cases x with
    | finite q =>
      have hbegins := beginsNumber_append (ft.begins q) t
      exact (scanValue_number hbegins).trans (ft.scan q t hx ht.endsNumber)
    | inf negative =>
      cases negative
      · exact scanValue_constant (w := (Python.str "Infinity", .float (.inf false)))
          (by simp [constants]) t
      · exact scanValue_constant (w := (Python.str "-Infinity", .float (.inf true)))
          (by simp [constants]) t
    | nan => exact scanValue_constant (w := (Python.str "NaN", .float .nan)) (by simp [constants]) t
  | @str m s hs =>
    obtain ⟨inner, hinner⟩ := hlevel m
    rw [hinner]
    have htext : write ft (.str s) ++ t = cp '"' :: (s.flatMap writeChar ++ cp '"' :: t) := by
      simp [write, writeString]
    rw [htext, scanValue.eq_def]
    dsimp only
    rw [if_pos rfl, scanString_writeString s hs]
    rfl
  | @list m xs hxs ih =>
    cases xs with
    | nil =>
      simp only [write, writeItems, List.cons_append, List.nil_append]
      rfl
    | cons x xs =>
      have hlen : (x :: xs).length ≤ (writeItems ft (x :: xs) ++ cp ']' :: t).length :=
        (length_writeItems ft hxs).trans (by simp)
      have hitems := scanItems_writeItems (t := t) (List.cons_ne_nil x xs) hlen hxs
        fun y hy t ht => ih y hy ht
      have htext : write ft (.list (x :: xs)) ++ t =
          cp '[' :: (writeItems ft (x :: xs) ++ cp ']' :: t) := by
        simp [write]
      obtain ⟨c, s, heq, hc⟩ := exists_write_eq_cons ft (hxs x List.mem_cons_self)
      obtain ⟨s', hs'⟩ : ∃ s', writeItems ft (x :: xs) ++ cp ']' :: t = c :: s' := by
        rw [writeItems, heq]
        exact ⟨_, rfl⟩
      rw [hs'] at hitems
      rw [htext, hs']
      change scanValue (some (scanOnce m)) _ = _
      rw [scanValue.eq_def]
      dsimp only
      rw [if_neg (by decide), if_neg (by decide), if_pos rfl, skipSpace_cons hc]
      dsimp only
      rw [if_neg hc.2.1, hitems]
      rfl
  | @map m d hkeys hnodup hd ih =>
    cases d with
    | nil =>
      simp only [write, writeMembers, List.cons_append, List.nil_append]
      rfl
    | cons kv d =>
      have hlen : (kv :: d).length ≤ (writeMembers ft (kv :: d) ++ cp '}' :: t).length :=
        (length_writeMembers ft (kv :: d)).trans (by simp)
      have hmembers := scanMembers_writeMembers (d := []) (t := t) (List.cons_ne_nil kv d) hlen
        hnodup hkeys hd fun kv hkv t ht => ih kv hkv ht
      have htext : write ft (.map (kv :: d)) ++ t =
          cp '{' :: (writeMembers ft (kv :: d) ++ cp '}' :: t) := by
        simp [write]
      obtain ⟨s', hs'⟩ : ∃ s', writeMembers ft (kv :: d) ++ cp '}' :: t = cp '"' :: s' := by
        obtain ⟨name, hk, -⟩ := hkeys kv List.mem_cons_self
        obtain ⟨k, v⟩ := kv
        obtain rfl : k = .str name := hk
        rw [writeMembers, writeKey, writeString]
        exact ⟨_, rfl⟩
      rw [hs'] at hmembers
      rw [htext, hs']
      change scanValue (some (scanOnce m)) _ = _
      rw [scanValue.eq_def]
      dsimp only
      rw [if_neg (by decide), if_pos rfl,
        skipSpace_cons ⟨by decide, by decide, by decide, by decide⟩]
      dsimp only
      rw [if_neg (by decide), hmembers]
      rfl

end Json

/-- **`json.loads` reads what `json.dumps` writes**, also with white space behind it. -/
theorem jsonLoads_write_append (ft : Json.FloatText) {depth : ℕ} {v : Obj} {t : PyStr}
    (h : Json.Faithful depth v) (ht : Json.EndsValue t) (hspace : Json.skipSpace t = []) :
    jsonLoads depth (Json.write ft v ++ t) = .ok v := by
  obtain ⟨c, s, heq, hc⟩ := Json.exists_write_eq_cons ft h
  have hscan := Json.scanOnce_write ft h ht
  rw [heq] at hscan
  rw [heq, jsonLoads, if_neg (by simpa using hc.2.2.2), List.cons_append, Json.skipSpace_cons hc]
  rw [List.cons_append] at hscan
  rw [hscan]
  change (if (Json.skipSpace t).isEmpty then pure v else _) = _
  rw [hspace]
  rfl

theorem jsonLoads_write (ft : Json.FloatText) {depth : ℕ} {v : Obj} (h : Json.Faithful depth v) :
    jsonLoads depth (Json.write ft v) = .ok v := by
  have happend := jsonLoads_write_append ft (t := []) h (fun c hc => by cases hc) rfl
  rwa [List.append_nil] at happend

end C2Engine.Python
