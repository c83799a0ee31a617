import C2Engine.Python.Dict
import C2Engine.Python.MsgpackStream
import C2Engine.Python.Utf8

/-!
# Short values of msgpack

A reader and a writer of the values that closed examples need: numbers below 128, ASCII texts, byte
strings, arrays and mappings with a length of 16 bits. The reader takes the heads of a value out of
its buffer one after the other.

## Main definitions

* `Reader.short`, `StreamReader.short`: the reader, and its buffer.
* `packShort`: the writer.
* `isShort`: the values it writes.

## Main results

* `read_packShort`: what was written is read back, whatever stands behind it.
* `heldShort_part`, `heldShort_bytes`: the room a byte string takes in the buffer.
-/

namespace C2Engine.Python.Msgpack

namespace Reader

/-! ### Reading -/

/-- The first `n` bytes, where there are so many. -/
def takeExactly : ℕ → Bytes → Option (Bytes × Bytes)
  | 0, data => some ([], data)
  | _ + 1, [] => none
  | n + 1, b :: data => (takeExactly n data).map fun out => (b :: out.1, out.2)

theorem length_of_takeExactly : {n : ℕ} → {data front rest : Bytes} →
    takeExactly n data = some (front, rest) → rest.length ≤ data.length
  | 0, _, _, _, h => by
      obtain ⟨-, rfl⟩ := Prod.mk.inj (Option.some.inj h)
      exact le_rfl
  | _ + 1, [], _, _, h => by cases h
  | n + 1, b :: data, front, rest, h => by
      obtain ⟨out, hout, heq⟩ := Option.map_eq_some_iff.mp h
      obtain ⟨-, rfl⟩ := Prod.mk.inj heq
      exact (length_of_takeExactly hout).trans (Nat.le_succ _)

/-- What stands at the front of a buffer: a value without parts, or the number of parts of an array
or a mapping. -/
inductive Head where
  | value (v : Obj) (rest : Bytes)
  | array (n : ℕ) (rest : Bytes)
  | mapping (n : ℕ) (rest : Bytes)
  | incomplete
  | malformed

/-- A text or a byte string of `n` bytes. -/
def readText (f : Bytes → Obj) (n : ℕ) (data : Bytes) : Head :=
  match takeExactly n data with
  | some (front, rest) => .value (f front) rest
  | none => .incomplete

/-- A number of `width` bytes, the first of them the highest, and what `f` reads behind it. -/
def readLength (width : ℕ) (f : ℕ → Bytes → Head) (data : Bytes) : Head :=
  match takeExactly width data with
  | some (front, rest) => f (front.foldl (fun n b => 256 * n + b.toNat) 0) rest
  | none => .incomplete

/-- How many bytes of a length stand behind a first byte. -/
def lengthWidth (b : UInt8) : ℕ :=
  if b = 0xC4 ∨ b = 0xD9 then 1
  else if b = 0xC5 ∨ b = 0xDA ∨ b = 0xDC ∨ b = 0xDE then 2
  else 0

/-- A text. -/
def textOf (front : Bytes) : Obj := .str (utf8DecodeEscape front)

/-- What is read behind a first byte `b`. -/
def readHead (b : UInt8) : Bytes → Head :=
  if b < 0x80 then .value (.int b.toNat)
  else if b < 0x90 then .mapping (b.toNat - 0x80)
  else if b < 0xA0 then .array (b.toNat - 0x90)
  else if b < 0xC0 then readText textOf (b.toNat - 0xA0)
  else if b = 0xC0 then .value .none
  else if b = 0xC2 ∨ b = 0xC3 then .value (.bool (b = 0xC3))
  else if b = 0xC4 ∨ b = 0xC5 then readLength (lengthWidth b) (readText .bytes)
  else if b = 0xD9 ∨ b = 0xDA then readLength (lengthWidth b) (readText textOf)
  else if b = 0xDC then readLength (lengthWidth b) .array
  else if b = 0xDE then readLength (lengthWidth b) .mapping
  else fun _ => .malformed

/-- What is behind the head of a value. -/
def Head.rest? : Head → Option Bytes
  | .value _ rest | .array _ rest | .mapping _ rest => some rest
  | .incomplete | .malformed => none

/-- What is behind a head is no longer than what was there. -/
def Shortens (f : Bytes → Head) : Prop :=
  ∀ data rest : Bytes, (f data).rest? = some rest → rest.length ≤ data.length

theorem shortens_of_rest {f : Bytes → Head} (h : ∀ data, (f data).rest? = some data) :
    Shortens f := fun data _ hrest =>
  (congrArg List.length (Option.some.inj (hrest.symm.trans (h data)))).le

theorem shortens_readText (f : Bytes → Obj) (n : ℕ) : Shortens (readText f n) := by
  intro data rest h
  unfold readText at h
  split at h
  · next front rest' htake =>
    obtain rfl := Option.some.inj h
    exact length_of_takeExactly htake
  · cases h

theorem shortens_readLength {f : ℕ → Bytes → Head} (hf : ∀ n, Shortens (f n)) (width : ℕ) :
    Shortens (readLength width f) := by
  intro data rest h
  unfold readLength at h
  split at h
  · next front rest' htake => exact (hf _ _ _ h).trans (length_of_takeExactly htake)
  · cases h

theorem shortens_readHead (b : UInt8) : Shortens (readHead b) := by
  unfold readHead
  refine iteInduction (fun _ => shortens_of_rest fun _ => rfl) fun _ => ?_
  refine iteInduction (fun _ => shortens_of_rest fun _ => rfl) fun _ => ?_
  refine iteInduction (fun _ => shortens_of_rest fun _ => rfl) fun _ => ?_
  refine iteInduction (fun _ => shortens_readText _ _) fun _ => ?_
  refine iteInduction (fun _ => shortens_of_rest fun _ => rfl) fun _ => ?_
  refine iteInduction (fun _ => shortens_of_rest fun _ => rfl) fun _ => ?_
  refine iteInduction (fun _ => shortens_readLength (shortens_readText _) _) fun _ => ?_
  refine iteInduction (fun _ => shortens_readLength (shortens_readText _) _) fun _ => ?_
  refine iteInduction (fun _ => shortens_readLength ?_ _) fun _ => ?_
  · exact fun _ => shortens_of_rest fun _ => rfl
  refine iteInduction (fun _ => shortens_readLength ?_ _) fun _ _ _ h => ?_
  · exact fun _ => shortens_of_rest fun _ => rfl
  · cases h

/-- The items of a mapping whose keys are text. -/
def pairItems : List Obj → Option Dict
  | [] => some []
  | .str k :: v :: vs => (pairItems vs).map fun d => (.str k, v) :: d
  | _ => none

/-- Read `count` short values: `None`, truth values and numbers below 128, and texts, byte strings,
arrays and mappings with a length of 16 bits; `none` is a buffer that is too short. -/
def readShort : (fuel count : ℕ) → Bytes → Except PyExc (Option (List Obj × Bytes))
  | _, 0, data => .ok (some ([], data))
  | 0, _ + 1, _ => .ok none
  | _ + 1, _ + 1, [] => .ok none
  | fuel + 1, count + 1, b :: data =>
    let more (v : Obj) (rest : Bytes) : Except PyExc (Option (List Obj × Bytes)) :=
      (readShort fuel count rest).map (Option.map fun out => (v :: out.1, out.2))
    match readHead b data with
    | .value v rest => more v rest
    | .array n rest => match readShort fuel n rest with
      | .ok (some (vs, rest)) => more (.list vs) rest
      | .ok none => .ok none
      | .error e => .error e
    | .mapping n rest => match readShort fuel (2 * n) rest with
      | .ok (some (vs, rest)) => match pairItems vs with
        | some d => more (.map (Dict.update [] d)) rest
        | none => .error .valueError
      | .ok none => .ok none
      | .error e => .error e
    | .incomplete => .ok none
    | .malformed => .error .other

theorem length_of_readShort : (fuel count : ℕ) → {data rest : Bytes} → {vs : List Obj} →
    readShort fuel count data = .ok (some (vs, rest)) → rest.length + count ≤ data.length := by
  intro fuel
  induction fuel with
  | zero =>
    intro count data rest vs h
    cases count with
    | zero =>
      rw [readShort, Except.ok.injEq, Option.some.injEq, Prod.mk.injEq] at h
      exact h.2 ▸ le_rfl
    | succ count => cases h
  | succ fuel ih =>
    intro count data rest vs h
    -- the values behind the first one
    have hmore : ∀ {count : ℕ} {v : Obj} {data : Bytes},
        (readShort fuel count data).map (Option.map fun out => (v :: out.1, out.2)) =
          .ok (some (vs, rest)) → rest.length + count ≤ data.length := by
      intro count v data h
      obtain ⟨out, hout, hout'⟩ := map_eq_ok.mp h
      obtain ⟨⟨vs', rest'⟩, rfl, heq⟩ := Option.map_eq_some_iff.mp hout'
      obtain ⟨-, rfl⟩ := Prod.mk.inj heq
      exact ih count hout
    cases count with
    | zero =>
      rw [readShort, Except.ok.injEq, Option.some.injEq, Prod.mk.injEq] at h
      exact h.2 ▸ le_rfl
    | succ count =>
      cases data with
      | nil => cases h
      | cons b data =>
        rw [readShort] at h
        dsimp only at h
        have hhead := shortens_readHead b data
        rw [List.length_cons]
        cases hb : readHead b data with
        | value v left =>
          rw [hb] at h hhead
          exact Nat.succ_le_succ ((hmore h).trans (hhead _ rfl))
        | array n left =>
          rw [hb] at h hhead
          dsimp only at h
          split at h
          · next vs' rest' hread =>
            have hparts := Nat.le_of_add_right_le (ih _ hread)
            exact Nat.succ_le_succ ((hmore h).trans (hparts.trans (hhead _ rfl)))
          · cases h
          · cases h
        | mapping n left =>
          rw [hb] at h hhead
          dsimp only at h
          split at h
          · next vs' rest' hread =>
            have hparts := Nat.le_of_add_right_le (ih _ hread)
            split at h
            · exact Nat.succ_le_succ ((hmore h).trans (hparts.trans (hhead _ rfl)))
            · cases h
          · cases h
          · cases h
        | incomplete =>
          rw [hb] at h
          cases h
        | malformed =>
          rw [hb] at h
          cases h

/-- A reader of short values, for closed examples. -/
def short : Reader where
  read data := match readShort (data.length + 1) 1 data with
    | .ok (some (v :: _, rest)) => .value v rest
    | .ok _ => .incomplete
    | .error e => .malformed e
  read_nil := rfl
  shorter {data rest v} h := by
    split at h
    · next v' vs rest' hread =>
      obtain ⟨-, rfl⟩ := Read.value.inj h
      have := length_of_readShort _ _ hread
      omega
    · cases h
    · cases h

end Reader

namespace StreamReader

/-! ### Reading what arrives -/

/-- What was read of the front of a buffer, with more bytes behind it. -/
def appendHead (more : Bytes) : Reader.Head → Reader.Head
  | .value v rest => .value v (rest ++ more)
  | .array n rest => .array n (rest ++ more)
  | .mapping n rest => .mapping n (rest ++ more)
  | .incomplete => .incomplete
  | .malformed => .malformed

theorem takeExactly_append (more : Bytes) : (n : ℕ) → (data : Bytes) →
    Reader.takeExactly n data = none ∨ Reader.takeExactly n (data ++ more) =
      (Reader.takeExactly n data).map fun out => (out.1, out.2 ++ more)
  | 0, _ => .inr rfl
  | _ + 1, [] => .inl rfl
  | n + 1, b :: data => by
      rcases takeExactly_append more n data with h | h
      · exact .inl (by rw [Reader.takeExactly, h]; rfl)
      · right
        rw [List.cons_append, Reader.takeExactly, Reader.takeExactly, h]
        cases Reader.takeExactly n data <;> rfl

/-- A head that was read is read the same whatever arrives behind it. -/
def Appends (f : Bytes → Reader.Head) : Prop :=
  ∀ data more : Bytes, f data = .incomplete ∨ f (data ++ more) = appendHead more (f data)

theorem appends_readText (f : Bytes → Obj) (n : ℕ) : Appends (Reader.readText f n) := by
  intro data more
  unfold Reader.readText
  rcases takeExactly_append more n data with h | h
  · exact .inl (by rw [h])
  · rw [h]
    cases Reader.takeExactly n data with
    | none => exact .inl rfl
    | some out => exact .inr rfl

theorem appends_readLength {f : ℕ → Bytes → Reader.Head} (hf : ∀ n, Appends (f n)) (width : ℕ) :
    Appends (Reader.readLength width f) := by
  intro data more
  unfold Reader.readLength
  rcases takeExactly_append more width data with h | h
  · exact .inl (by rw [h])
  · rw [h]
    cases Reader.takeExactly width data with
    | none => exact .inl rfl
    | some out => exact hf _ out.2 more

theorem appends_readHead (b : UInt8) : Appends (Reader.readHead b) := by
  unfold Reader.readHead
  refine iteInduction (fun _ _ _ => .inr rfl) fun _ => ?_
  refine iteInduction (fun _ _ _ => .inr rfl) fun _ => ?_
  refine iteInduction (fun _ _ _ => .inr rfl) fun _ => ?_
  refine iteInduction (fun _ => appends_readText _ _) fun _ => ?_
  refine iteInduction (fun _ _ _ => .inr rfl) fun _ => ?_
  refine iteInduction (fun _ _ _ => .inr rfl) fun _ => ?_
  refine iteInduction (fun _ => appends_readLength (appends_readText _) _) fun _ => ?_
  refine iteInduction (fun _ => appends_readLength (appends_readText _) _) fun _ => ?_
  refine iteInduction (fun _ => appends_readLength (fun _ _ _ => .inr rfl) _) fun _ => ?_
  exact iteInduction (fun _ => appends_readLength (fun _ _ _ => .inr rfl) _) fun _ _ _ => .inr rfl

/-- What was read of a buffer is read of a longer one, and is followed by what is behind it. -/
theorem readShort_append (more : Bytes) : (fuel fuel' count : ℕ) → (data : Bytes) → fuel ≤ fuel' →
    Reader.readShort fuel count data = .ok none ∨
      Reader.readShort fuel' count (data ++ more) =
        (Reader.readShort fuel count data).map (Option.map fun out => (out.1, out.2 ++ more)) := by
  intro fuel
  induction fuel with
  | zero =>
    intro fuel' count data _
    cases count with
    | zero => exact .inr (by cases fuel' <;> rfl)
    | succ count => exact .inl rfl
  | succ fuel ih =>
    intro fuel' count data hle
    obtain ⟨fuel', rfl⟩ := Nat.exists_eq_succ_of_ne_zero (by omega : fuel' ≠ 0)
    have hle := Nat.le_of_succ_le_succ hle
    -- the values behind the first one
    have hmore : ∀ (count : ℕ) (v : Obj) (data : Bytes),
        (Reader.readShort fuel count data).map (Option.map fun out => (v :: out.1, out.2)) =
            .ok none ∨
          (Reader.readShort fuel' count (data ++ more)).map
            (Option.map fun out => (v :: out.1, out.2)) =
              ((Reader.readShort fuel count data).map
                (Option.map fun out => (v :: out.1, out.2))).map
                  (Option.map fun out => (out.1, out.2 ++ more)) := by
      intro count v data
      rcases ih fuel' count data hle with h | h
      · exact .inl (by rw [h]; rfl)
      · right
        rw [h]
        rcases Reader.readShort fuel count data with e | (_ | out) <;> rfl
    cases count with
    | zero => exact .inr rfl
    | succ count =>
      cases data with
      | nil => exact .inl rfl
      | cons b data =>
        rw [List.cons_append, Reader.readShort, Reader.readShort]
        dsimp only
        rcases appends_readHead b data more with hhead | hhead
        · exact .inl (by rw [hhead])
        rw [hhead]
        cases Reader.readHead b data with
        | value v rest => exact hmore count v rest
        | array n rest =>
          dsimp only [appendHead]
          rcases ih fuel' n rest hle with h | h
          · exact .inl (by rw [h])
          · rw [h]
            rcases Reader.readShort fuel n rest with e | (_ | ⟨vs, left⟩)
            · exact .inr rfl
            · exact .inl rfl
            · exact hmore count _ left
        | mapping n rest =>
          dsimp only [appendHead]
          rcases ih fuel' (2 * n) rest hle with h | h
          · exact .inl (by rw [h])
          · rw [h]
            rcases Reader.readShort fuel (2 * n) rest with e | (_ | ⟨vs, left⟩)
            · exact .inr rfl
            · exact .inl rfl
            · dsimp only [Except.map, Option.map]
              cases Reader.pairItems vs with
              | none => exact .inr rfl
              | some d => exact hmore count _ left
        | incomplete => exact .inl rfl
        | malformed => exact .inr rfl

/-- What takes room in the buffer of a value that has not arrived whole: its heads are taken out one
after the other, and of the last one the first byte and the length. -/
def heldShort : ℕ → Bytes → ℕ
  | 0, data => data.length
  | _ + 1, [] => 0
  | fuel + 1, b :: data => match Reader.readHead b data with
    | .value _ rest | .array _ rest | .mapping _ rest => heldShort fuel rest
    | .incomplete | .malformed =>
      if data.length < Reader.lengthWidth b then data.length
      else data.length - Reader.lengthWidth b

theorem heldShort_le : (fuel : ℕ) → (data : Bytes) → heldShort fuel data ≤ data.length
  | 0, _ => le_rfl
  | _ + 1, [] => le_rfl
  | fuel + 1, b :: data => by
      have hrest {rest : Bytes} (h : (Reader.readHead b data).rest? = some rest) :
          heldShort fuel rest ≤ (b :: data).length :=
        (heldShort_le fuel rest).trans
          ((Reader.shortens_readHead b data rest h).trans (Nat.le_succ _))
      have hlast : (if data.length < Reader.lengthWidth b then data.length
          else data.length - Reader.lengthWidth b) ≤ (b :: data).length := by
        rw [List.length_cons]
        split_ifs <;> omega
      rw [heldShort]
      cases hb : Reader.readHead b data with
      | value v rest => exact hrest (by rw [hb]; rfl)
      | array n rest => exact hrest (by rw [hb]; rfl)
      | mapping n rest => exact hrest (by rw [hb]; rfl)
      | incomplete => exact hlast
      | malformed => exact hlast

/-- A reader of streams of short values, for closed examples. -/
def short : StreamReader where
  toReader := Reader.short
  held data := heldShort data.length data
  held_le data := heldShort_le data.length data
  read_append data more := by
    have hread : ∀ data, Reader.short.read data =
        match Reader.readShort (data.length + 1) 1 data with
        | .ok (some (v :: _, rest)) => Read.value v rest
        | .ok _ => .incomplete
        | .error e => .malformed e := fun _ => rfl
    have hle : data.length + 1 ≤ (data ++ more).length + 1 := by simp
    rw [hread, hread]
    rcases readShort_append more _ _ 1 data hle with hnone | heq
    · exact .inl (by rw [hnone])
    · rw [heq]
      rcases Reader.readShort (data.length + 1) 1 data with e | (_ | ⟨_ | ⟨v, vs⟩, rest⟩)
      · exact .inr rfl
      · exact .inl rfl
      · exact .inl rfl
      · exact .inr rfl

end StreamReader

/-! ### Writing -/

/-- A length of 16 bits. -/
def packLength (n : ℕ) : Bytes := [UInt8.ofNat (n / 256), UInt8.ofNat n]

/-- The encoding of a text of ASCII characters. -/
def packText (s : PyStr) : Bytes :=
  (if s.length < 32 then [UInt8.ofNat (0xA0 + s.length)] else 0xDA :: packLength s.length) ++
    s.map fun c => UInt8.ofNat c.val

/-- The encoding of a key. -/
def packKey : Key → Bytes
  | .str s => packText s
  | .bytes _ => []

mutual

/-- `msgpack.packb` of a short value, for closed examples. -/
def packShort : Obj → Bytes
  | .none => [0xC0]
  | .bool b => [if b then 0xC3 else 0xC2]
  | .int n => [UInt8.ofNat n.toNat]
  | .str s => packText s
  | .bytes b => 0xC5 :: packLength b.length ++ b
  | .list xs =>
    (if xs.length < 16 then [UInt8.ofNat (0x90 + xs.length)] else 0xDC :: packLength xs.length) ++
      packShortList xs
  | .map d =>
    (if d.length < 16 then [UInt8.ofNat (0x80 + d.length)] else 0xDE :: packLength d.length) ++
      packShortItems d
  | _ => []

/-- The elements of an array. -/
def packShortList : List Obj → Bytes
  | [] => []
  | x :: xs => packShort x ++ packShortList xs

/-- The items of a mapping. -/
def packShortItems : List (Key × Obj) → Bytes
  | [] => []
  | (k, v) :: d => packKey k ++ packShort v ++ packShortItems d

end

/-! ### The round trip -/

/-- A text the writer writes. -/
def isShortText (s : PyStr) : Bool := s.all CodePoint.isAscii && decide (s.length < 65536)

mutual

/-- A value the writer writes. -/
def isShort : Obj → Bool
  | .none | .bool _ => true
  | .int n => decide (0 ≤ n ∧ n < 128)
  | .str s => isShortText s
  | .bytes b => decide (b.length < 65536)
  | .list xs => decide (xs.length < 65536) && isShortList xs
  | .map d => decide (d.length < 65536) && decide (d.map Prod.fst).Nodup && isShortItems d
  | _ => false

/-- The elements of an array. -/
def isShortList : List Obj → Bool
  | [] => true
  | x :: xs => isShort x && isShortList xs

/-- The items of a mapping. -/
def isShortItems : List (Key × Obj) → Bool
  | [] => true
  | (.str k, v) :: d => isShortText k && isShort v && isShortItems d
  | (.bytes _, _) :: _ => false

end

theorem takeExactly_of_length {n : ℕ} {front : Bytes} (h : front.length = n) (rest : Bytes) :
    Reader.takeExactly n (front ++ rest) = some (front, rest) := by
  subst h
  induction front with
  | nil => rfl
  | cons b front ih => rw [List.length_cons, List.cons_append, Reader.takeExactly, ih]; rfl

theorem takeExactly_of_lt {n : ℕ} {data : Bytes} (h : data.length < n) :
    Reader.takeExactly n data = none := by
  induction n generalizing data with
  | zero => exact absurd h (Nat.not_lt_zero _)
  | succ n ih =>
    cases data with
    | nil => rfl
    | cons b data => rw [Reader.takeExactly, ih (Nat.lt_of_succ_lt_succ h)]; rfl

theorem packLength_length (n : ℕ) : (packLength n).length = 2 := rfl

theorem readLength_packLength {f : ℕ → Bytes → Reader.Head} {n : ℕ} (h : n < 65536)
    (rest : Bytes) : Reader.readLength 2 f (packLength n ++ rest) = f n rest := by
  have hhigh : (UInt8.ofNat (n / 256)).toNat = n / 256 := toNat_ofNat_of_lt (by omega)
  have hlow : (UInt8.ofNat n).toNat = n % 256 := UInt8.toNat_ofNat'
  rw [Reader.readLength, takeExactly_of_length (packLength_length n), packLength]
  simp only [List.foldl_cons, List.foldl_nil, hhigh, hlow]
  rw [show 256 * (256 * 0 + n / 256) + n % 256 = n by omega]

theorem readText_append {f : Bytes → Obj} (front rest : Bytes) :
    Reader.readText f front.length (front ++ rest) = .value (f front) rest := by
  rw [Reader.readText, takeExactly_of_length rfl]

/-- ASCII text is its own encoding. -/
theorem utf8DecodeEscape_asciiBytes : {s : PyStr} → s.all CodePoint.isAscii →
    utf8DecodeEscape (asciiBytes s) = s
  | [], _ => rfl
  | c :: s, h => by
      rw [List.all_cons, Bool.and_eq_true] at h
      have hc : c.val < 128 := of_decide_eq_true h.1
      have hsurrogate : c.isSurrogate = false := by
        rw [CodePoint.isSurrogate, Bool.and_eq_false_iff, decide_eq_false_iff_not]
        exact .inl (by omega)
      have hchar : utf8EncodeChar c = [UInt8.ofNat c.val] := by
        rw [utf8EncodeChar, if_pos hc]
        rfl
      have hfirst : utf8First (UInt8.ofNat c.val :: asciiBytes s) = some (c, 1) := by
        have h := utf8First_utf8EncodeChar hsurrogate (asciiBytes s)
        rwa [hchar] at h
      have hrest := utf8DecodeEscape_asciiBytes h.2
      rw [utf8DecodeEscape] at hrest ⊢
      rw [asciiBytes, List.map_cons, utf8EscapeGo, ← asciiBytes, hfirst]
      exact congrArg _ hrest

/-! #### The heads -/

section Heads

variable {n : ℕ} {fuel count : ℕ} {b : UInt8} {data rest : Bytes}

theorem ofNat_lt_iff (m : ℕ) (hb : b.toNat = m) (hn : n < 256) : UInt8.ofNat n < b ↔ n < m := by
  rw [UInt8.lt_iff_toNat_lt, toNat_ofNat_of_lt hn, hb]

theorem readHead_int (h : n < 128) (data : Bytes) :
    Reader.readHead (UInt8.ofNat n) data = .value (.int n) data := by
  have h1 : UInt8.ofNat n < 0x80 := (ofNat_lt_iff 0x80 rfl (by omega)).mpr h
  rw [Reader.readHead, if_pos h1, toNat_ofNat_of_lt (by omega)]

theorem readHead_mapping (h : n < 16) (data : Bytes) :
    Reader.readHead (UInt8.ofNat (0x80 + n)) data = .mapping n data := by
  have h1 : ¬ UInt8.ofNat (0x80 + n) < 0x80 := by
    rw [ofNat_lt_iff 0x80 rfl (by omega)]
    omega
  have h2 : UInt8.ofNat (0x80 + n) < 0x90 := (ofNat_lt_iff 0x90 rfl (by omega)).mpr (by omega)
  rw [Reader.readHead, if_neg h1, if_pos h2, toNat_ofNat_of_lt (by omega), Nat.add_sub_cancel_left]

theorem readHead_array (h : n < 16) (data : Bytes) :
    Reader.readHead (UInt8.ofNat (0x90 + n)) data = .array n data := by
  have h1 : ¬ UInt8.ofNat (0x90 + n) < 0x80 := by
    rw [ofNat_lt_iff 0x80 rfl (by omega)]
    omega
  have h2 : ¬ UInt8.ofNat (0x90 + n) < 0x90 := by
    rw [ofNat_lt_iff 0x90 rfl (by omega)]
    omega
  have h3 : UInt8.ofNat (0x90 + n) < 0xA0 := (ofNat_lt_iff 0xA0 rfl (by omega)).mpr (by omega)
  rw [Reader.readHead, if_neg h1, if_neg h2, if_pos h3, toNat_ofNat_of_lt (by omega),
    Nat.add_sub_cancel_left]

theorem readHead_text (h : n < 32) (data : Bytes) :
    Reader.readHead (UInt8.ofNat (0xA0 + n)) data = Reader.readText Reader.textOf n data := by
  have h1 : ¬ UInt8.ofNat (0xA0 + n) < 0x80 := by
    rw [ofNat_lt_iff 0x80 rfl (by omega)]
    omega
  have h2 : ¬ UInt8.ofNat (0xA0 + n) < 0x90 := by
    rw [ofNat_lt_iff 0x90 rfl (by omega)]
    omega
  have h3 : ¬ UInt8.ofNat (0xA0 + n) < 0xA0 := by
    rw [ofNat_lt_iff 0xA0 rfl (by omega)]
    omega
  have h4 : UInt8.ofNat (0xA0 + n) < 0xC0 := (ofNat_lt_iff 0xC0 rfl (by omega)).mpr (by omega)
  rw [Reader.readHead, if_neg h1, if_neg h2, if_neg h3, if_pos h4, toNat_ofNat_of_lt (by omega),
    Nat.add_sub_cancel_left]

theorem readShort_of_value {v : Obj} (h : Reader.readHead b data = .value v rest) :
    Reader.readShort (fuel + 1) (count + 1) (b :: data) =
      (Reader.readShort fuel count rest).map (Option.map fun out => (v :: out.1, out.2)) := by
  rw [Reader.readShort]
  simp only [h]

theorem readShort_of_array {vs : List Obj} {left : Bytes}
    (h : Reader.readHead b data = .array n rest)
    (hparts : Reader.readShort fuel n rest = .ok (some (vs, left))) :
    Reader.readShort (fuel + 1) (count + 1) (b :: data) =
      (Reader.readShort fuel count left).map
        (Option.map fun out => (.list vs :: out.1, out.2)) := by
  rw [Reader.readShort]
  simp only [h, hparts]

theorem readShort_of_mapping {vs : List Obj} {d : Dict} {left : Bytes}
    (h : Reader.readHead b data = .mapping n rest)
    (hparts : Reader.readShort fuel (2 * n) rest = .ok (some (vs, left)))
    (hitems : Reader.pairItems vs = some d) (hself : Dict.update [] d = d) :
    Reader.readShort (fuel + 1) (count + 1) (b :: data) =
      (Reader.readShort fuel count left).map (Option.map fun out => (.map d :: out.1, out.2)) := by
  rw [Reader.readShort]
  simp only [h, hparts, hitems, hself]

/-- The head of a text. -/
theorem readShort_packText {s : PyStr} (h : isShortText s) (fuel count : ℕ) (rest : Bytes) :
    Reader.readShort (fuel + 1) (count + 1) (packText s ++ rest) =
      (Reader.readShort fuel count rest).map (Option.map fun out => (.str s :: out.1, out.2)) := by
  obtain ⟨hascii, hlength⟩ := Bool.and_eq_true_iff.mp h
  have hlength := of_decide_eq_true hlength
  have htext : Reader.readText Reader.textOf s.length (asciiBytes s ++ rest) =
      .value (.str s) rest := by
    have hbytes : (asciiBytes s).length = s.length := List.length_map _
    rw [← hbytes, readText_append, Reader.textOf, utf8DecodeEscape_asciiBytes hascii]
  rw [packText, ← asciiBytes]
  split_ifs with hshort
  · exact readShort_of_value ((readHead_text hshort _).trans htext)
  · have hhead : Reader.readHead 0xDA (packLength s.length ++ asciiBytes s ++ rest) =
        .value (.str s) rest := by
      rw [List.append_assoc]
      exact (readLength_packLength hlength _).trans htext
    exact readShort_of_value hhead

end Heads

/-! #### The values -/

/-- The values an encoded mapping is read as. -/
def itemParts : List (Key × Obj) → List Obj
  | [] => []
  | (.str k, v) :: d => .str k :: v :: itemParts d
  | (.bytes _, _) :: d => itemParts d

theorem pairItems_itemParts : {d : List (Key × Obj)} → isShortItems d →
    Reader.pairItems (itemParts d) = some d
  | [], _ => rfl
  | (.str k, v) :: d, h => by
      rw [isShortItems, Bool.and_eq_true] at h
      rw [itemParts, Reader.pairItems, pairItems_itemParts h.2]
      rfl

theorem length_packText_pos (s : PyStr) : 0 < (packText s).length := by
  rw [packText, List.length_append]
  split_ifs
  · exact Nat.add_pos_left Nat.one_pos _
  · exact Nat.add_pos_left (Nat.succ_pos _) _

theorem length_packShort_pos : {v : Obj} → isShort v → 0 < (packShort v).length
  | .none, _ | .bool _, _ | .int _, _ | .bytes _, _ => Nat.succ_pos _
  | .str s, _ => length_packText_pos s
  | .list xs, _ => by
      rw [packShort, List.length_append]
      split_ifs
      · exact Nat.add_pos_left Nat.one_pos _
      · exact Nat.add_pos_left (Nat.succ_pos _) _
  | .map d, _ => by
      rw [packShort, List.length_append]
      split_ifs
      · exact Nat.add_pos_left Nat.one_pos _
      · exact Nat.add_pos_left (Nat.succ_pos _) _

mutual

/-- A value is read where the rounds suffice for its parts. -/
theorem readShort_packShort : (v : Obj) → isShort v → ∀ {fuel : ℕ} (count : ℕ) (rest : Bytes),
    (packShort v).length ≤ fuel + 1 →
      Reader.readShort (fuel + 1) (count + 1) (packShort v ++ rest) =
        (Reader.readShort fuel count rest).map (Option.map fun out => (v :: out.1, out.2))
  | .none, _, _, _, _, _ => readShort_of_value rfl
  | .bool b, _, _, _, _, _ => by
      cases b
      · exact readShort_of_value rfl
      · exact readShort_of_value rfl
  | .int n, h, _, _, rest, _ => by
      have hn := of_decide_eq_true h
      have hhead := readHead_int (n := n.toNat) (by omega) rest
      rw [Int.toNat_of_nonneg hn.1] at hhead
      exact readShort_of_value hhead
  | .str s, h, _, _, rest, _ => readShort_packText h _ _ rest
  | .bytes b, h, _, _, rest, _ => by
      have hhead : Reader.readHead 0xC5 (packLength b.length ++ b ++ rest) =
          .value (.bytes b) rest := by
        rw [List.append_assoc]
        exact (readLength_packLength (of_decide_eq_true h) _).trans (readText_append b rest)
      exact readShort_of_value hhead
  | .list xs, h, fuel, count, rest, hfuel => by
      rw [isShort, Bool.and_eq_true] at h
      have hlength := of_decide_eq_true h.1
      rw [packShort] at hfuel ⊢
      split_ifs with hshort
      · rw [if_pos hshort, List.length_append, List.length_singleton] at hfuel
        rw [List.append_assoc]
        exact readShort_of_array (readHead_array hshort _)
          (readShort_packShortList xs h.2 rest (by omega))
      · rw [if_neg hshort, List.length_append, List.length_cons, packLength_length] at hfuel
        have hhead : Reader.readHead 0xDC (packLength xs.length ++ packShortList xs ++ rest) =
            .array xs.length (packShortList xs ++ rest) := by
          rw [List.append_assoc]
          exact readLength_packLength hlength _
        exact readShort_of_array hhead (readShort_packShortList xs h.2 rest (by omega))
  | .map d, h, fuel, count, rest, hfuel => by
      rw [isShort, Bool.and_eq_true, Bool.and_eq_true] at h
      obtain ⟨⟨hlength, hnodup⟩, hitems⟩ := h
      have hlength := of_decide_eq_true hlength
      have hself : Dict.update [] d = d := Dict.update_of_nodup (of_decide_eq_true hnodup)
      have hpair := pairItems_itemParts hitems
      rw [packShort] at hfuel ⊢
      split_ifs with hshort
      · rw [if_pos hshort, List.length_append, List.length_singleton] at hfuel
        rw [List.append_assoc]
        exact readShort_of_mapping (readHead_mapping hshort _)
          (readShort_packShortItems d hitems rest (by omega)) hpair hself
      · rw [if_neg hshort, List.length_append, List.length_cons, packLength_length] at hfuel
        have hhead : Reader.readHead 0xDE (packLength d.length ++ packShortItems d ++ rest) =
            .mapping d.length (packShortItems d ++ rest) := by
          rw [List.append_assoc]
          exact readLength_packLength hlength _
        exact readShort_of_mapping hhead (readShort_packShortItems d hitems rest (by omega)) hpair
          hself

/-- The elements of an array. -/
theorem readShort_packShortList : (xs : List Obj) → isShortList xs → ∀ {fuel : ℕ} (rest : Bytes),
    (packShortList xs).length ≤ fuel →
      Reader.readShort fuel xs.length (packShortList xs ++ rest) = .ok (some (xs, rest))
  | [], _, fuel, rest, _ => by cases fuel <;> rfl
  | x :: xs, h, fuel, rest, hfuel => by
      rw [isShortList, Bool.and_eq_true] at h
      have hpos := length_packShort_pos h.1
      rw [packShortList, List.length_append] at hfuel
      obtain ⟨fuel, rfl⟩ := Nat.exists_eq_succ_of_ne_zero (by omega : fuel ≠ 0)
      rw [packShortList, List.append_assoc, List.length_cons,
        readShort_packShort x h.1 _ _ (by omega), readShort_packShortList xs h.2 rest (by omega)]
      rfl

/-- The items of a mapping. -/
theorem readShort_packShortItems : (d : List (Key × Obj)) → isShortItems d → ∀ {fuel : ℕ}
    (rest : Bytes), (packShortItems d).length ≤ fuel →
      Reader.readShort fuel (2 * d.length) (packShortItems d ++ rest) =
        .ok (some (itemParts d, rest))
  | [], _, fuel, rest, _ => by cases fuel <;> rfl
  | (.str k, v) :: d, h, fuel, rest, hfuel => by
      rw [isShortItems, Bool.and_eq_true, Bool.and_eq_true] at h
      obtain ⟨⟨hk, hv⟩, hd⟩ := h
      have hkpos := length_packText_pos k
      have hvpos := length_packShort_pos hv
      rw [packShortItems, List.length_append, List.length_append, packKey] at hfuel
      -- a round for the key and one for the value
      obtain ⟨fuel, rfl⟩ := Nat.exists_eq_add_of_le' (by omega : 2 ≤ fuel)
      have hcount : 2 * ((Key.str k, v) :: d).length = 2 * d.length + 1 + 1 := by
        rw [List.length_cons]
        omega
      rw [packShortItems, packKey, List.append_assoc, List.append_assoc, hcount,
        readShort_packText hk, readShort_packShort v hv _ _ (by omega),
        readShort_packShortItems d hd rest (by omega)]
      rfl

end

/-- **What was written is read back**, whatever stands behind it. -/
theorem read_packShort {v : Obj} (h : isShort v) (rest : Bytes) :
    StreamReader.short.read (packShort v ++ rest) = .value v rest := by
  have hread : Reader.readShort ((packShort v ++ rest).length + 1) 1 (packShort v ++ rest) =
      .ok (some ([v], rest)) := by
    rw [readShort_packShort v h 0 rest (by rw [List.length_append]; omega)]
    cases (packShort v ++ rest).length <;> rfl
  change (match Reader.readShort ((packShort v ++ rest).length + 1) 1 (packShort v ++ rest) with
    | .ok (some (v :: _, rest)) => Read.value v rest
    | .ok _ => .incomplete
    | .error e => .malformed e) = _
  rw [hread]

/-! ### The room in the buffer -/

section Held

variable {fuel : ℕ} {b : UInt8} {data rest : Bytes}

/-- A head that was read takes no room. -/
theorem heldShort_of_rest (h : (Reader.readHead b data).rest? = some rest) :
    StreamReader.heldShort (fuel + 1) (b :: data) = StreamReader.heldShort fuel rest := by
  rw [StreamReader.heldShort]
  cases hb : Reader.readHead b data with
  | incomplete | malformed =>
    rw [hb] at h
    cases h
  | value v left | array n left | mapping n left =>
    rw [hb] at h
    rw [← Option.some.inj h]

theorem heldShort_packText {s : PyStr} (h : isShortText s) (fuel : ℕ) (rest : Bytes) :
    StreamReader.heldShort (fuel + 1) (packText s ++ rest) = StreamReader.heldShort fuel rest := by
  have htext : Reader.readText Reader.textOf s.length (asciiBytes s ++ rest) =
      .value (Reader.textOf (asciiBytes s)) rest := by
    have hbytes : (asciiBytes s).length = s.length := List.length_map _
    rw [← hbytes, readText_append]
  rw [packText, ← asciiBytes]
  split_ifs with hshort
  · have hhead : (Reader.readHead (UInt8.ofNat (0xA0 + s.length)) (asciiBytes s ++ rest)).rest? =
        some rest := by
      rw [readHead_text hshort, htext]
      rfl
    exact heldShort_of_rest hhead
  · have hlength := of_decide_eq_true (Bool.and_eq_true_iff.mp h).2
    have hhead : (Reader.readHead 0xDA (packLength s.length ++ asciiBytes s ++ rest)).rest? =
        some rest := by
      rw [List.append_assoc]
      exact congrArg Reader.Head.rest? ((readLength_packLength hlength _).trans htext)
    exact heldShort_of_rest hhead

/-- Of a byte string that has not arrived whole its bytes take room. -/
theorem heldShort_part {n : ℕ} (hn : n < 65536) (hdata : data.length < n) (fuel : ℕ) :
    StreamReader.heldShort (fuel + 1) (0xC5 :: (packLength n ++ data)) = data.length := by
  have hhead : Reader.readHead 0xC5 (packLength n ++ data) = .incomplete := by
    have hbytes : Reader.readHead 0xC5 (packLength n ++ data) = Reader.readText .bytes n data :=
      readLength_packLength (f := Reader.readText .bytes) hn data
    rw [hbytes, Reader.readText, takeExactly_of_lt hdata]
  have hwidth : Reader.lengthWidth 0xC5 = 2 := by decide
  rw [StreamReader.heldShort, hhead]
  dsimp only
  rw [hwidth, List.length_append, packLength_length, if_neg (by omega), Nat.add_sub_cancel_left]

/-- A byte string that has arrived takes no room. -/
theorem heldShort_bytes (h : data.length < 65536) (fuel : ℕ) (rest : Bytes) :
    StreamReader.heldShort (fuel + 1) (0xC5 :: (packLength data.length ++ (data ++ rest))) =
      StreamReader.heldShort fuel rest :=
  heldShort_of_rest (congrArg Reader.Head.rest?
    ((readLength_packLength h _).trans (readText_append data rest)))

end Held

end C2Engine.Python.Msgpack
