import C2Engine.Python.IpAddress
import C2Engine.Python.Number

/-!
# Reading JSON

`json.loads` of the standard library. Besides the JSON grammar it accepts `NaN` and the
infinities; of two members with one name it keeps the last; it joins two escaped surrogates. What
is no JSON raises a `ValueError`, and so does a whole number with more digits than `int` reads.
Every array and every object inside another takes a level of recursion, and past the limit of the
interpreter a `RecursionError` is raised, which is no `ValueError`.

The scanners take the text in front of them and return the value and the text behind it. The
loops over the items of an array and the members of an object are bounded by the length of the
text; `scanItems_fuel` and `scanMembers_fuel` say that the bound is never met, since a value takes
at least one character.

## Main definitions

* `Json.scanString`, `Json.scanNumber`, `Json.scanOnce`: the scanners.
* `jsonLoads`: `json.loads`.

## Main results

* `Json.proper_scanOnce`: a value takes at least one character.
* `Json.scanItems_fuel`, `Json.scanMembers_fuel`: the bound on the loops is no restriction.
* `isJson_of_jsonLoads`: what was read can be written again.
-/

namespace C2Engine.Python

namespace Json

/-- A scanner: the value in front of the text, and the text behind it. -/
abbrev Scanner (α : Type) := PyStr → Except PyExc (α × PyStr)

/-- `JSONDecodeError`. -/
def decodeError {α : Type} : Except PyExc α := .error .valueError

/-- `WHITESPACE`. -/
def skipSpace (s : PyStr) : PyStr := s.dropWhile (PyStr.oneOf (str " \t\n\r"))

/-! ### Texts -/

/-- The value of four hexadecimal digits. -/
def hex4 (a b c d : CodePoint) : Option ℕ :=
  if [a, b, c, d].all CodePoint.isHexDigit then some (digitsValue 16 hexValue [a, b, c, d])
  else none

/-- The character a one-letter escape stands for. -/
def escaped (c : CodePoint) : Option CodePoint :=
  if PyStr.oneOf (str "\"\\/") c then some c
  else if c = cp 'b' then some (cp '\x08')
  else if c = cp 'f' then some (cp '\x0c')
  else if c = cp 'n' then some (cp '\n')
  else if c = cp 'r' then some (cp '\r')
  else if c = cp 't' then some (cp '\t')
  else none

/-- The character of a code unit, with the low surrogate behind it if there is one. -/
def unit (n : ℕ) : CodePoint := ⟨n % 0x110000, Nat.mod_lt n (by decide)⟩

/-- The first half of a surrogate pair. -/
def isHigh (n : ℕ) : Bool := 0xD800 ≤ n && n ≤ 0xDBFF

/-- The second half of a surrogate pair. -/
def isLow (n : ℕ) : Bool := 0xDC00 ≤ n && n ≤ 0xDFFF

/-- The character of a surrogate pair. -/
def joinPair (hi lo : ℕ) : CodePoint := unit (0x10000 + (hi - 0xD800) * 0x400 + (lo - 0xDC00))

/-- `c` in front of what was scanned. -/
def consChar (c : CodePoint) (r : Except PyExc (PyStr × PyStr)) : Except PyExc (PyStr × PyStr) :=
  r.map fun (t, s) => (c :: t, s)

/-- `scanstring`, behind the opening quote. -/
def scanString : Scanner PyStr
  | [] => decodeError
  | c :: s =>
    if c = cp '"' then .ok ([], s)
    else if c.val ≤ 0x1f then decodeError
    else if c ≠ cp '\\' then consChar c (scanString s)
    else match s with
      | [] => decodeError
      | e :: s =>
        if e ≠ cp 'u' then match escaped e with
          | some x => consChar x (scanString s)
          | none => decodeError
        else match s with
          | a :: b :: c :: d :: s => match hex4 a b c d with
            | none => decodeError
            | some n =>
              -- a high surrogate is joined with an escaped low one
              if isHigh n then match s with
                | x :: y :: a' :: b' :: c' :: d' :: s' =>
                  match if x = cp '\\' && y = cp 'u' then hex4 a' b' c' d' else none with
                  | some m =>
                    if isLow m then consChar (joinPair n m) (scanString s')
                    else consChar (unit n) (scanString (x :: y :: a' :: b' :: c' :: d' :: s'))
                  | none => consChar (unit n) (scanString (x :: y :: a' :: b' :: c' :: d' :: s'))
                | s => consChar (unit n) (scanString s)
              else consChar (unit n) (scanString s)
          | _ => decodeError

/-! ### Numbers -/

/-- The digits in front of a text, and what is behind them. -/
def spanDigits (s : PyStr) : PyStr × PyStr :=
  (s.takeWhile CodePoint.isAsciiDigit, s.dropWhile CodePoint.isAsciiDigit)

/-- Whether a sign in front of a text is a minus, and what is behind the sign. -/
def scanSign (signs : PyStr) : PyStr → Bool × PyStr
  | [] => (false, [])
  | c :: s => if PyStr.oneOf signs c then (c = cp '-', s) else (false, c :: s)

/-- The whole part of a number, which is empty or has no leading zero. -/
def scanWhole : PyStr → PyStr × PyStr
  | [] => ([], [])
  | c :: s => if c = cp '0' then ([c], s) else spanDigits (c :: s)

/-- The fraction in front of a text: the digits behind a point. -/
def scanFraction : PyStr → Option (PyStr × PyStr)
  | [] => none
  | c :: s => if c = cp '.' && !(spanDigits s).1.isEmpty then some (spanDigits s) else none

/-- The exponent in front of a text. -/
def scanExponent : PyStr → Option (ℤ × PyStr)
  | [] => none
  | c :: s =>
    let sign := scanSign (str "+-") s
    let ds := spanDigits sign.2
    if (c = cp 'e' || c = cp 'E') && !ds.1.isEmpty then
      let n : ℤ := digitsValue 10 decValue ds.1
      some (if sign.1 then -n else n, ds.2)
    else none

/-- The longest run of digits `int` reads. -/
def intMaxStrDigits : ℕ := 4300

/-- The value of a number with the given parts. -/
def numberValue (neg : Bool) (whole : PyStr) (frac : Option PyStr) (exp : Option ℤ) :
    Except PyExc Obj :=
  match frac, exp with
  | none, none =>
    if intMaxStrDigits < whole.length then .error .valueError
    else
      let n : ℤ := digitsValue 10 decValue whole
      .ok (.int (if neg then -n else n))
  | _, _ =>
    let ds := frac.getD []
    let e := exp.getD 0 - ds.length
    let m : ℚ := (digitsValue 10 decValue (whole ++ ds) : ℕ)
    let q := if 0 ≤ e then m * 10 ^ e.toNat else m / 10 ^ (-e).toNat
    .ok (.float (toDouble (if neg then -q else q)))

/-- `_match_number`: a whole number without a leading zero, a fraction and an exponent. -/
def scanNumber : Scanner Obj := fun s =>
  let sign := scanSign (str "-") s
  let whole := scanWhole sign.2
  if whole.1.isEmpty then decodeError
  else
    let frac := scanFraction whole.2
    let s := (frac.map Prod.snd).getD whole.2
    let exp := scanExponent s
    (numberValue sign.1 whole.1 (frac.map Prod.fst) (exp.map Prod.fst)).map fun v =>
      (v, (exp.map Prod.snd).getD s)

/-! ### Values -/

/-- The constants. -/
def constants : List (PyStr × Obj) :=
  [(str "null", .none), (str "true", .bool true), (str "false", .bool false),
   (str "NaN", .float .nan), (str "Infinity", .float (.inf false)),
   (str "-Infinity", .float (.inf true))]

/-- The items of an array, behind the opening bracket or a comma. -/
def scanItems (item : Scanner Obj) : ℕ → Scanner (List Obj)
  | 0, _ => decodeError
  | n + 1, s => do
    let (v, s) ← item s
    match skipSpace s with
    | [] => decodeError
    | c :: s =>
      if c = cp ']' then return ([v], s)
      else if c = cp ',' then
        let (vs, s) ← scanItems item n (skipSpace s)
        return (v :: vs, s)
      else decodeError

/-- The members of an object, behind the opening brace or a comma, put into the members read so
far. -/
def scanMembers (item : Scanner Obj) : ℕ → Dict → Scanner Dict
  | 0, _, _ => decodeError
  | n + 1, d, s =>
    match s with
    | [] => decodeError
    | c :: s =>
      if c ≠ cp '"' then decodeError
      else do
        let (name, s) ← scanString s
        match skipSpace s with
        | [] => decodeError
        | c :: s =>
          if c ≠ cp ':' then decodeError
          else do
            let (v, s) ← item (skipSpace s)
            let d := d.set (.str name) v
            match skipSpace s with
            | [] => decodeError
            | c :: s =>
              if c = cp '}' then return (d, s)
              else if c = cp ',' then scanMembers item n d (skipSpace s)
              else decodeError

/-- `scan_once`, with the scanner of the values one level down, if there is one. -/
def scanValue (inner : Option (Scanner Obj)) : Scanner Obj
  | [] => decodeError
  | c :: s =>
    if c = cp '"' then (scanString s).map fun (t, s) => (.str t, s)
    else if c = cp '{' then
      match inner with
      | none => .error .runtimeError
      | some item =>
        match skipSpace s with
        | [] => decodeError
        | c :: s' =>
          if c = cp '}' then .ok (.map [], s')
          else (scanMembers item s.length [] (c :: s')).map fun (d, s) => (.map d, s)
    else if c = cp '[' then
      match inner with
      | none => .error .runtimeError
      | some item =>
        match skipSpace s with
        | [] => decodeError
        | c :: s' =>
          if c = cp ']' then .ok (.list [], s')
          else (scanItems item s.length (c :: s')).map fun (vs, s) => (.list vs, s)
    else
      match constants.find? fun w => w.1.isPrefixOf (c :: s) with
      | some w => .ok (w.2, (c :: s).drop w.1.length)
      | none => scanNumber (c :: s)

/-- `scan_once` with the levels of recursion that are left. -/
def scanOnce : ℕ → Scanner Obj
  | 0 => scanValue none
  | depth + 1 => scanValue (some (scanOnce depth))

/-! ### The bound on the loops -/

theorem length_skipSpace_le (s : PyStr) : (skipSpace s).length ≤ s.length :=
  (List.dropWhile_sublist _).length_le

theorem length_of_skipSpace {s s' : PyStr} {c : CodePoint} (h : skipSpace s = c :: s') :
    s'.length < s.length := by
  have hle := length_skipSpace_le s
  rw [h, List.length_cons] at hle
  exact hle

theorem consChar_eq_ok {c : CodePoint} {r : Except PyExc (PyStr × PyStr)} {t s : PyStr}
    (h : consChar c r = .ok (t, s)) : ∃ t', r = .ok (t', s) := by
  cases r with
  | error e => simp [consChar, Except.map] at h
  | ok p =>
    simp only [consChar, Except.map, Except.ok.injEq, Prod.mk.injEq] at h
    exact ⟨p.1, by rw [← h.2]⟩

theorem length_of_scanString {s t s' : PyStr} (h : scanString s = .ok (t, s')) :
    s'.length < s.length := by
  fun_induction scanString s generalizing t s' with
  | case1 | case3 | case5 | case7 | case8 | case14 => simp [decodeError] at h
  | case2 => simp_all
  | case4 _ _ _ _ _ ih | case6 _ _ _ _ _ _ _ _ _ ih | case13 _ _ _ _ _ _ _ _ _ _ _ _ _ _ ih
  | case9 _ _ _ _ _ _ _ _ _ _ _ _ _ _ _ _ _ _ _ _ _ _ _ ih
  | case10 _ _ _ _ _ _ _ _ _ _ _ _ _ _ _ _ _ _ _ _ _ _ _ ih
  | case11 _ _ _ _ _ _ _ _ _ _ _ _ _ _ _ _ _ _ _ _ _ ih
  | case12 _ _ _ _ _ _ _ _ _ _ _ _ _ _ _ ih =>
    obtain ⟨t', ht⟩ := consChar_eq_ok h
    have hlt := ih ht
    simp only [List.length_cons] at hlt ⊢
    omega

theorem length_spanDigits_le (s : PyStr) : (spanDigits s).2.length ≤ s.length :=
  (List.dropWhile_sublist _).length_le

theorem length_of_spanDigits {s : PyStr} (h : (spanDigits s).1 ≠ []) :
    (spanDigits s).2.length < s.length := by
  have hpos := List.length_pos_of_ne_nil h
  have hsum := congrArg List.length (List.takeWhile_append_dropWhile
    (p := CodePoint.isAsciiDigit) (l := s))
  rw [List.length_append] at hsum
  change (List.dropWhile _ s).length < s.length
  change 0 < (List.takeWhile _ s).length at hpos
  omega

theorem length_scanSign_le (signs s : PyStr) : (scanSign signs s).2.length ≤ s.length := by
  cases s with
  | nil => exact le_rfl
  | cons c s =>
    rw [scanSign]
    split_ifs
    · exact Nat.le_succ _
    · exact le_rfl

theorem length_of_scanWhole {s : PyStr} (h : (scanWhole s).1 ≠ []) :
    (scanWhole s).2.length < s.length := by
  cases s with
  | nil => exact absurd rfl h
  | cons c s =>
    rw [scanWhole] at h ⊢
    split_ifs with hc
    · exact Nat.lt_succ_self _
    · rw [if_neg hc] at h
      exact length_of_spanDigits h

theorem length_scanFraction_le (s : PyStr) :
    (((scanFraction s).map Prod.snd).getD s).length ≤ s.length := by
  cases s with
  | nil => exact le_rfl
  | cons c s =>
    rw [scanFraction]
    split_ifs
    · exact (length_spanDigits_le s).trans (Nat.le_succ _)
    · exact le_rfl

theorem length_scanExponent_le (s : PyStr) :
    (((scanExponent s).map Prod.snd).getD s).length ≤ s.length := by
  cases s with
  | nil => exact le_rfl
  | cons c s =>
    simp only [scanExponent]
    have hle := (length_spanDigits_le _).trans (length_scanSign_le (str "+-") s)
    split_ifs
    · exact hle.trans (Nat.le_succ _)
    · exact hle.trans (Nat.le_succ _)
    · exact Nat.le_refl (c :: s).length

theorem length_of_scanNumber {s s' : PyStr} {v : Obj} (h : scanNumber s = .ok (v, s')) :
    s'.length < s.length := by
  simp only [scanNumber] at h
  split_ifs at h with hw
  · simp [decodeError] at h
  · have hwhole := length_of_scanWhole (fun h => hw (List.isEmpty_iff.mpr h))
    have hsign := length_scanSign_le (str "-") s
    have hfrac := length_scanFraction_le (scanWhole (scanSign (str "-") s).2).2
    have hexp := length_scanExponent_le
      (((scanFraction (scanWhole (scanSign (str "-") s).2).2).map Prod.snd).getD
        (scanWhole (scanSign (str "-") s).2).2)
    obtain ⟨v', -, hv⟩ := map_eq_ok.mp h
    cases hv
    omega

/-- A scanner that takes at least one character, and finds nothing in the empty text. -/
structure Proper (f : Scanner Obj) : Prop where
  nil : f [] = decodeError
  length_lt : ∀ {s v s'}, f s = .ok (v, s') → s'.length < s.length

theorem length_of_scanItems {item : Scanner Obj} (h : Proper item) : {n : ℕ} → {s s' : PyStr} →
    {vs : List Obj} → scanItems item n s = .ok (vs, s') → s'.length < s.length
  | 0, s, s', vs, hs => by simp [scanItems, decodeError] at hs
  | n + 1, s, s', vs, hs => by
      rw [scanItems] at hs
      obtain ⟨⟨v, s₁⟩, hitem, hs⟩ := bind_eq_ok.mp hs
      have hlt := h.length_lt hitem
      dsimp only at hs
      cases hskip : skipSpace s₁ with
      | nil => simp [hskip, decodeError] at hs
      | cons c s₂ =>
        have hlt₂ := length_of_skipSpace hskip
        rw [hskip] at hs
        dsimp only at hs
        split_ifs at hs
        · cases hs
          omega
        · obtain ⟨⟨vs', s₃⟩, hrest, hs⟩ := bind_eq_ok.mp hs
          have hlt₃ := length_of_scanItems h hrest
          have hle := length_skipSpace_le s₂
          simp only [pure, Except.pure, Except.ok.injEq, Prod.mk.injEq] at hs
          obtain ⟨-, rfl⟩ := hs
          omega
        · simp [decodeError] at hs

theorem length_of_scanMembers {item : Scanner Obj} (h : Proper item) : {n : ℕ} → {d d' : Dict} →
    {s s' : PyStr} → scanMembers item n d s = .ok (d', s') → s'.length < s.length
  | 0, d, d', s, s', hs => by simp [scanMembers, decodeError] at hs
  | n + 1, d, d', [], s', hs => by simp [scanMembers, decodeError] at hs
  | n + 1, d, d', c :: s, s', hs => by
      rw [scanMembers] at hs
      split_ifs at hs with hc
      · simp [decodeError] at hs
      · obtain ⟨⟨name, s₁⟩, hname, hs⟩ := bind_eq_ok.mp hs
        have hlt := length_of_scanString hname
        dsimp only at hs
        cases hskip : skipSpace s₁ with
        | nil => simp [hskip, decodeError] at hs
        | cons c₂ s₂ =>
          have hlt₂ := length_of_skipSpace hskip
          rw [hskip] at hs
          dsimp only at hs
          split_ifs at hs with hc₂
          · simp [decodeError] at hs
          · obtain ⟨⟨v, s₃⟩, hitem, hs⟩ := bind_eq_ok.mp hs
            have hlt₃ := h.length_lt hitem
            have hle₃ := length_skipSpace_le s₂
            dsimp only at hs
            cases hskip₃ : skipSpace s₃ with
            | nil => simp [hskip₃, decodeError] at hs
            | cons c₄ s₄ =>
              have hlt₄ := length_of_skipSpace hskip₃
              rw [hskip₃] at hs
              dsimp only at hs
              rw [List.length_cons]
              split_ifs at hs
              · cases hs
                omega
              · have hlt₅ := length_of_scanMembers h hs
                have hle₅ := length_skipSpace_le s₄
                omega
              · simp [decodeError] at hs

/-- What a value is read as, by its first character. -/
inductive Scans (inner : Option (Scanner Obj)) : PyStr → Obj → PyStr → Prop
  | string {s t s' : PyStr} (h : scanString s = .ok (t, s')) :
      Scans inner (cp '"' :: s) (.str t) s'
  | emptyMap {s s' : PyStr} (hskip : skipSpace s = cp '}' :: s') :
      Scans inner (cp '{' :: s) (.map []) s'
  | map {item : Scanner Obj} {c : CodePoint} {s s₁ s' : PyStr} {d : Dict}
      (hitem : inner = some item) (hskip : skipSpace s = c :: s₁)
      (h : scanMembers item s.length [] (c :: s₁) = .ok (d, s')) :
      Scans inner (cp '{' :: s) (.map d) s'
  | emptyList {s s' : PyStr} (hskip : skipSpace s = cp ']' :: s') :
      Scans inner (cp '[' :: s) (.list []) s'
  | list {item : Scanner Obj} {c : CodePoint} {s s₁ s' : PyStr} {vs : List Obj}
      (hitem : inner = some item) (hskip : skipSpace s = c :: s₁)
      (h : scanItems item s.length (c :: s₁) = .ok (vs, s')) :
      Scans inner (cp '[' :: s) (.list vs) s'
  | constant {c : CodePoint} {s : PyStr} {w : PyStr × Obj} (hw : w ∈ constants) :
      Scans inner (c :: s) w.2 ((c :: s).drop w.1.length)
  | number {c : CodePoint} {s s' : PyStr} {v : Obj} (h : scanNumber (c :: s) = .ok (v, s')) :
      Scans inner (c :: s) v s'

/-- **The ways to read a value.** -/
theorem scans_of_scanValue {inner : Option (Scanner Obj)} {s s' : PyStr} {v : Obj}
    (hs : scanValue inner s = .ok (v, s')) : Scans inner s v s' := by
  cases s with
  | nil => simp [scanValue, decodeError] at hs
  | cons c s =>
    rw [scanValue.eq_def] at hs
    dsimp only at hs
    split_ifs at hs with hquote hbrace hbracket
    · obtain ⟨⟨t, s₁⟩, hstr, hs⟩ := map_eq_ok.mp hs
      cases hs
      exact hquote ▸ .string hstr
    · cases hinner : inner with
      | none => simp [hinner] at hs
      | some item =>
        rw [hinner] at hs
        dsimp only at hs
        cases hskip : skipSpace s with
        | nil => simp [hskip, decodeError] at hs
        | cons c' s₁ =>
          rw [hskip] at hs
          dsimp only at hs
          split_ifs at hs with hclose
          · cases hs
            exact hbrace ▸ .emptyMap (hclose ▸ hskip)
          · obtain ⟨⟨d, s₂⟩, hmembers, hs⟩ := map_eq_ok.mp hs
            cases hs
            exact hbrace ▸ .map rfl hskip hmembers
    · cases hinner : inner with
      | none => simp [hinner] at hs
      | some item =>
        rw [hinner] at hs
        dsimp only at hs
        cases hskip : skipSpace s with
        | nil => simp [hskip, decodeError] at hs
        | cons c' s₁ =>
          rw [hskip] at hs
          dsimp only at hs
          split_ifs at hs with hclose
          · cases hs
            exact hbracket ▸ .emptyList (hclose ▸ hskip)
          · obtain ⟨⟨vs, s₂⟩, hitems, hs⟩ := map_eq_ok.mp hs
            cases hs
            exact hbracket ▸ .list rfl hskip hitems
    · split at hs
      · next w hw =>
        cases hs
        exact .constant (List.mem_of_find?_eq_some hw)
      · exact .number hs

/-- **A value takes at least one character.** -/
theorem proper_scanValue {inner : Option (Scanner Obj)}
    (h : ∀ item, inner = some item → Proper item) : Proper (scanValue inner) := by
  refine ⟨rfl, fun {s v s'} hs => ?_⟩
  cases scans_of_scanValue hs with
  | string hstr =>
    have hlt := length_of_scanString hstr
    rw [List.length_cons]
    omega
  | emptyMap hskip | emptyList hskip =>
    have hlt := length_of_skipSpace hskip
    rw [List.length_cons]
    omega
  | map hitem hskip hmembers =>
    have hlt := length_of_skipSpace hskip
    have hlt₂ := length_of_scanMembers (h _ hitem) hmembers
    rw [List.length_cons] at hlt₂ ⊢
    omega
  | list hitem hskip hitems =>
    have hlt := length_of_skipSpace hskip
    have hlt₂ := length_of_scanItems (h _ hitem) hitems
    rw [List.length_cons] at hlt₂ ⊢
    omega
  | @constant c s w hw =>
    have hpos : 0 < w.1.length := (by decide : ∀ w ∈ constants, 0 < w.1.length) w hw
    rw [List.length_drop, List.length_cons]
    omega
  | number hnumber => exact length_of_scanNumber hnumber

theorem proper_scanOnce : (depth : ℕ) → Proper (scanOnce depth)
  | 0 => proper_scanValue nofun
  | depth + 1 => proper_scanValue fun _ hitem =>
      Option.some.inj hitem ▸ proper_scanOnce depth

/-- More rounds of the loop over the items than the text has characters change nothing. -/
theorem scanItems_fuel {item : Scanner Obj} (h : Proper item) : (n : ℕ) → (s : PyStr) →
    s.length ≤ n → scanItems item (n + 1) s = scanItems item n s
  | 0, s, hn => by
      rw [List.length_eq_zero_iff.mp (Nat.le_zero.mp hn)]
      change item [] >>= _ = _
      rw [h.nil]
      rfl
  | n + 1, s, hn => by
      rw [scanItems]
      conv_rhs => rw [scanItems]
      refine bind_congr_ok fun ⟨v, s₁⟩ hitem => ?_
      have hlt := h.length_lt hitem
      dsimp only
      cases hskip : skipSpace s₁ with
      | nil => rfl
      | cons c s₂ =>
        have hlt₂ := length_of_skipSpace hskip
        have hle := length_skipSpace_le s₂
        dsimp only
        rw [scanItems_fuel h n (skipSpace s₂) (by omega)]

/-- More rounds of the loop over the members than the text has characters change nothing. -/
theorem scanMembers_fuel {item : Scanner Obj} (h : Proper item) : (n : ℕ) → (d : Dict) →
    (s : PyStr) → s.length ≤ n → scanMembers item (n + 1) d s = scanMembers item n d s
  | 0, d, s, hn => by
      rw [List.length_eq_zero_iff.mp (Nat.le_zero.mp hn), scanMembers, scanMembers]
  | n + 1, d, [], hn => by rw [scanMembers, scanMembers]
  | n + 1, d, c :: s, hn => by
      rw [scanMembers]
      conv_rhs => rw [scanMembers]
      rw [List.length_cons] at hn
      by_cases hc : c = cp '"'
      · rw [if_neg (not_not.mpr hc), if_neg (not_not.mpr hc)]
        refine bind_congr_ok fun ⟨name, s₁⟩ hname => ?_
        have hlt := length_of_scanString hname
        dsimp only
        cases hskip : skipSpace s₁ with
        | nil => rfl
        | cons c₂ s₂ =>
          have hlt₂ := length_of_skipSpace hskip
          have hle₂ := length_skipSpace_le s₂
          dsimp only
          by_cases hc₂ : c₂ = cp ':'
          · rw [if_neg (not_not.mpr hc₂), if_neg (not_not.mpr hc₂)]
            refine bind_congr_ok fun ⟨v, s₃⟩ hitem => ?_
            have hlt₃ := h.length_lt hitem
            dsimp only
            cases hskip₃ : skipSpace s₃ with
            | nil => rfl
            | cons c₄ s₄ =>
              have hlt₄ := length_of_skipSpace hskip₃
              have hle₄ := length_skipSpace_le s₄
              dsimp only
              rw [scanMembers_fuel h n _ (skipSpace s₄) (by omega)]
          · rw [if_pos hc₂, if_pos hc₂]
      · rw [if_pos hc, if_pos hc]

/-! ### What is read -/

/-- A scanner whose values can be written as JSON again. -/
def ReadsJson (f : Scanner Obj) : Prop := ∀ {s v s'}, f s = .ok (v, s') → v.isJson

theorem isJson_of_scanItems {item : Scanner Obj} (h : ReadsJson item) : {n : ℕ} → {s s' : PyStr} →
    {vs : List Obj} → scanItems item n s = .ok (vs, s') → ∀ v ∈ vs, v.isJson
  | 0, s, s', vs, hs => by simp [scanItems, decodeError] at hs
  | n + 1, s, s', vs, hs => by
      rw [scanItems] at hs
      obtain ⟨⟨v, s₁⟩, hitem, hs⟩ := bind_eq_ok.mp hs
      dsimp only at hs
      cases hskip : skipSpace s₁ with
      | nil => simp [hskip, decodeError] at hs
      | cons c s₂ =>
        rw [hskip] at hs
        dsimp only at hs
        split_ifs at hs
        · cases hs
          exact List.forall_mem_singleton.mpr (h hitem)
        · obtain ⟨⟨vs', s₃⟩, hrest, hs⟩ := bind_eq_ok.mp hs
          cases hs
          exact List.forall_mem_cons.mpr ⟨h hitem, isJson_of_scanItems h hrest⟩
        · simp [decodeError] at hs

theorem isJson_of_scanMembers {item : Scanner Obj} (h : ReadsJson item) : {n : ℕ} → {d d' : Dict} →
    {s s' : PyStr} → (Obj.map d).isJson → scanMembers item n d s = .ok (d', s') →
      (Obj.map d').isJson
  | 0, d, d', s, s', _, hs => by simp [scanMembers, decodeError] at hs
  | n + 1, d, d', [], s', _, hs => by simp [scanMembers, decodeError] at hs
  | n + 1, d, d', c :: s, s', hd, hs => by
      rw [scanMembers] at hs
      split_ifs at hs with hc
      · simp [decodeError] at hs
      · obtain ⟨⟨name, s₁⟩, -, hs⟩ := bind_eq_ok.mp hs
        dsimp only at hs
        cases hskip : skipSpace s₁ with
        | nil => simp [hskip, decodeError] at hs
        | cons c₂ s₂ =>
          rw [hskip] at hs
          dsimp only at hs
          split_ifs at hs with hc₂
          · simp [decodeError] at hs
          · obtain ⟨⟨v, s₃⟩, hitem, hs⟩ := bind_eq_ok.mp hs
            have hset := Dict.isJson_set hd name (h hitem)
            dsimp only at hs
            cases hskip₃ : skipSpace s₃ with
            | nil => simp [hskip₃, decodeError] at hs
            | cons c₄ s₄ =>
              rw [hskip₃] at hs
              dsimp only at hs
              split_ifs at hs
              · cases hs
                exact hset
              · exact isJson_of_scanMembers h hset hs
              · simp [decodeError] at hs

theorem isJson_of_numberValue {neg : Bool} {whole : PyStr} {frac : Option PyStr} {exp : Option ℤ}
    {v : Obj} (h : numberValue neg whole frac exp = .ok v) : v.isJson := by
  unfold numberValue at h
  split at h
  · by_cases hlong : intMaxStrDigits < whole.length
    · rw [if_pos hlong] at h
      cases h
    · rw [if_neg hlong] at h
      cases h
      exact Obj.isJson_int _
  · cases h
    exact Obj.isJson_float _

theorem isJson_of_scanNumber {s s' : PyStr} {v : Obj} (h : scanNumber s = .ok (v, s')) :
    v.isJson := by
  simp only [scanNumber] at h
  split_ifs at h
  · simp [decodeError] at h
  · obtain ⟨v', hv, h⟩ := map_eq_ok.mp h
    cases h
    exact isJson_of_numberValue hv

theorem readsJson_scanValue {inner : Option (Scanner Obj)}
    (h : ∀ item, inner = some item → ReadsJson item) : ReadsJson (scanValue inner) := by
  intro s v s' hs
  cases scans_of_scanValue hs with
  | string => exact Obj.isJson_str _
  | emptyMap => exact Obj.isJson_nil
  | map hitem _ hmembers => exact isJson_of_scanMembers (h _ hitem) Obj.isJson_nil hmembers
  | emptyList => exact (Obj.isJson_list []).mpr nofun
  | list hitem _ hitems => exact (Obj.isJson_list _).mpr (isJson_of_scanItems (h _ hitem) hitems)
  | @constant c s w hw =>
    have hconstants : ∀ w ∈ constants, w.2.isJson := by decide
    exact hconstants w hw
  | number hnumber => exact isJson_of_scanNumber hnumber

theorem readsJson_scanOnce : (depth : ℕ) → ReadsJson (scanOnce depth)
  | 0 => readsJson_scanValue fun _ hitem => (Option.some_ne_none _ hitem.symm).elim
  | depth + 1 => readsJson_scanValue fun _ hitem =>
      Option.some.inj hitem ▸ readsJson_scanOnce depth

end Json

/-- `json.loads(text)` with a limit on the levels of recursion. -/
def jsonLoads (depth : ℕ) (text : PyStr) : Except PyExc Obj :=
  if text.head?.any (fun c => c.val = 0xFEFF) then .error .valueError
  else do
    let (v, rest) ← Json.scanOnce depth (Json.skipSpace text)
    if (Json.skipSpace rest).isEmpty then return v else .error .valueError

/-- **What was read as JSON can be written as JSON.** -/
theorem isJson_of_jsonLoads {depth : ℕ} {text : PyStr} {v : Obj}
    (h : jsonLoads depth text = .ok v) : v.isJson := by
  unfold jsonLoads at h
  split_ifs at h
  obtain ⟨⟨v', rest⟩, hscan, h⟩ := bind_eq_ok.mp h
  dsimp only at h
  split_ifs at h
  cases h
  exact Json.readsJson_scanOnce depth hscan

example : ((jsonLoads 1 (str "[\"\\u0041\"]")).toOption.bind Obj.asList?).bind
    (fun xs => xs.head?.bind Obj.asStr?) = some (str "A") := by decide +kernel

example : (jsonLoads 1 (str "[1, [2]]")).isOk = false := by decide +kernel

end C2Engine.Python
