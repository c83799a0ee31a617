import C2Engine.Python.Calendar
import C2Engine.Python.Dict
import C2Engine.Python.Json
import Mathlib.Algebra.Order.Field.Basic
import Mathlib.Algebra.Order.Field.Rat
import Mathlib.Tactic.NormNum

/-!
# Strings and numbers as JSON text

The texts `json.dumps` writes for strings and numbers. A string is ASCII, with the other characters
as escapes of their UTF-16 code units; a whole number is its digits. The texts of floating-point
numbers are those of `float.__repr__`, which is given by what it is documented to do: the text is
read as the number.

## Main definitions

* `Json.Printable`: printable ASCII.
* `Json.writeString`, `Json.writeInt`: the texts of strings and whole numbers.
* `Json.FloatText`: the texts of floating-point numbers.

## Main results

* `Json.scanString_writeString`: the text of a string is read as the string.
* `Json.scanNumber_writeInt`: the text of a whole number is read as the number.
* `Json.exists_units`: a double is a whole number of the least unit.
-/

namespace C2Engine.Python

namespace Json

/-- Printable ASCII characters. -/
def Printable (s : PyStr) : Prop := ∀ c ∈ s, 0x20 ≤ c.val ∧ c.val ≤ 0x7e

instance (s : PyStr) : Decidable (Printable s) := List.decidableBAll _ s

theorem Printable.append {s t : PyStr} (hs : Printable s) (ht : Printable t) :
    Printable (s ++ t) := List.forall_mem_append.mpr ⟨hs, ht⟩

theorem Printable.cons {c : CodePoint} {s : PyStr} (hc : 0x20 ≤ c.val ∧ c.val ≤ 0x7e)
    (hs : Printable s) : Printable (c :: s) := List.forall_mem_cons.mpr ⟨hc, hs⟩

theorem Printable.nil : Printable [] := List.forall_mem_nil _

/-! ### Strings -/

/-- A hexadecimal digit. -/
def hexChar (n : ℕ) : CodePoint := (str "0123456789abcdef").getD n (cp '0')

/-- The escape of a code unit. -/
def writeUnit (n : ℕ) : PyStr :=
  [cp '\\', cp 'u', hexChar (n / 4096), hexChar (n / 256 % 16), hexChar (n / 16 % 16),
    hexChar (n % 16)]

/-- The letter of the characters that have a one-letter escape. -/
def escapeLetter (c : CodePoint) : Option CodePoint :=
  if c = cp '\\' then some (cp '\\')
  else if c = cp '"' then some (cp '"')
  else if c = cp '\x08' then some (cp 'b')
  else if c = cp '\x0c' then some (cp 'f')
  else if c = cp '\n' then some (cp 'n')
  else if c = cp '\r' then some (cp 'r')
  else if c = cp '\t' then some (cp 't')
  else none

/-- The text of a character in a string. -/
def writeChar (c : CodePoint) : PyStr :=
  match escapeLetter c with
  | some e => [cp '\\', e]
  | none =>
    if c.between ' ' '~' then [c]
    else if c.val < 0x10000 then writeUnit c.val
    else
      let n := c.val - 0x10000
      writeUnit (0xD800 + n / 0x400) ++ writeUnit (0xDC00 + n % 0x400)

/-- `py_encode_basestring_ascii`. -/
def writeString (s : PyStr) : PyStr := cp '"' :: s.flatMap writeChar ++ [cp '"']

/-- No two characters are the halves of a surrogate pair; written one after the other, these would
be read as one character. -/
def Paired (s : PyStr) : Prop := s.IsChain fun c d => isHigh c.val → ¬ isLow d.val

instance (s : PyStr) : Decidable (Paired s) :=
  inferInstanceAs (Decidable (s.IsChain fun c d => isHigh c.val → ¬ isLow d.val))

/-- The text does not go on with the escape of a low surrogate. -/
def NoLow (s : PyStr) : Prop :=
  ∀ a b c d t n, s = cp '\\' :: cp 'u' :: a :: b :: c :: d :: t → hex4 a b c d = some n →
    isLow n = false

theorem hexChar_spec : ∀ n < 16, (hexChar n).isHexDigit ∧ hexValue (hexChar n) = n := by
  decide

theorem printable_hexChar (n : ℕ) : 0x20 ≤ (hexChar n).val ∧ (hexChar n).val ≤ 0x7e := by
  rcases Nat.lt_or_ge n 16 with h | h
  · have hall : ∀ n < 16, 0x20 ≤ (hexChar n).val ∧ (hexChar n).val ≤ 0x7e := by decide
    exact hall n h
  · rw [hexChar, List.getD_eq_getElem?_getD, List.getElem?_eq_none h]
    decide

theorem printable_writeUnit (n : ℕ) : Printable (writeUnit n) :=
  .cons (by decide) <| .cons (by decide) <| .cons (printable_hexChar _) <|
    .cons (printable_hexChar _) <| .cons (printable_hexChar _) <| .cons (printable_hexChar _) .nil

theorem printable_writeChar (c : CodePoint) : Printable (writeChar c) := by
  rw [writeChar]
  cases he : escapeLetter c with
  | some e =>
    refine .cons (by decide) (.cons ?_ .nil)
    unfold escapeLetter at he
    split_ifs at he <;> cases he <;> decide
  | none =>
    dsimp only
    split_ifs with hplain hbmp
    · simp only [CodePoint.between, Bool.and_eq_true, decide_eq_true_eq] at hplain
      exact .cons hplain .nil
    · exact printable_writeUnit _
    · exact (printable_writeUnit _).append (printable_writeUnit _)

/-- The text of a string is printable ASCII. -/
theorem printable_writeString (s : PyStr) : Printable (writeString s) := by
  refine .cons (by decide) (.append (fun c hc => ?_) (.cons (by decide) .nil))
  obtain ⟨d, -, hd⟩ := List.mem_flatMap.mp hc
  exact printable_writeChar d c hd

/-- The digits of a code unit are read as the code unit. -/
theorem hex4_hexChar {n : ℕ} (h : n < 0x10000) :
    hex4 (hexChar (n / 4096)) (hexChar (n / 256 % 16)) (hexChar (n / 16 % 16)) (hexChar (n % 16)) =
      some n := by
  obtain ⟨h₁, v₁⟩ := hexChar_spec (n / 4096) (by omega)
  obtain ⟨h₂, v₂⟩ := hexChar_spec (n / 256 % 16) (by omega)
  obtain ⟨h₃, v₃⟩ := hexChar_spec (n / 16 % 16) (by omega)
  obtain ⟨h₄, v₄⟩ := hexChar_spec (n % 16) (by omega)
  rw [hex4, if_pos (by simp [h₁, h₂, h₃, h₄])]
  simp only [digitsValue, List.foldl_cons, List.foldl_nil, v₁, v₂, v₃, v₄, Option.some.injEq]
  omega

theorem unit_val (c : CodePoint) : unit c.val = c := Fin.ext (Nat.mod_eq_of_lt c.isLt)

theorem scanString_quote (t : PyStr) : scanString (cp '"' :: t) = .ok ([], t) := by
  rw [scanString.eq_def]
  exact if_pos rfl

/-- A character that is not escaped. -/
theorem scanString_cons {c : CodePoint} (hquote : c ≠ cp '"') (hval : ¬ c.val ≤ 0x1f)
    (hslash : c ≠ cp '\\') (t : PyStr) :
    scanString (c :: t) = consChar c (scanString t) := by
  rw [scanString.eq_def]
  dsimp only
  rw [if_neg hquote, if_neg hval, if_pos hslash]

/-- A one-letter escape. -/
theorem scanString_letter {e x : CodePoint} (hu : e ≠ cp 'u') (hx : escaped e = some x)
    (t : PyStr) : scanString (cp '\\' :: e :: t) = consChar x (scanString t) := by
  rw [scanString.eq_def]
  dsimp only
  rw [if_neg (by decide), if_neg (by decide), if_neg (by decide), if_pos hu, hx]

/-- The escape of a code unit below the surrogates or above them, or of one that is not followed by
the other half of its pair. -/
theorem scanString_writeUnit {n : ℕ} (hn : n < 0x10000) {t : PyStr} (ht : isHigh n → NoLow t) :
    scanString (writeUnit n ++ t) = consChar (unit n) (scanString t) := by
  rw [writeUnit]
  simp only [List.cons_append, List.nil_append]
  rw [scanString, if_neg (by decide), if_neg (by decide), if_neg (by decide), if_neg (by decide),
    hex4_hexChar hn]
  dsimp only
  split_ifs with hhigh
  · split
    · rename_i _ x y a b c d s'
      cases hm : (if x = cp '\\' && y = cp 'u' then hex4 a b c d else none) with
      | none => rfl
      | some m =>
        split_ifs at hm with hxy
        · obtain ⟨rfl, rfl⟩ : x = cp '\\' ∧ y = cp 'u' := by simpa using hxy
          have hlow := ht hhigh a b c d s' m rfl hm
          simp [hlow]
    · rfl
  · rfl

/-- The escapes of the two halves of a pair. -/
theorem scanString_writePair {hi lo : ℕ} (hhi : isHigh hi) (hlo : isLow lo) (t : PyStr) :
    scanString (writeUnit hi ++ (writeUnit lo ++ t)) =
      consChar (joinPair hi lo) (scanString t) := by
  have hhi' : hi < 0x10000 := by simp [isHigh] at hhi; omega
  have hlo' : lo < 0x10000 := by simp [isLow] at hlo; omega
  rw [writeUnit, writeUnit]
  simp only [List.cons_append, List.nil_append]
  rw [scanString, if_neg (by decide), if_neg (by decide), if_neg (by decide), if_neg (by decide),
    hex4_hexChar hhi']
  dsimp only
  rw [if_pos hhi, if_pos (by decide), hex4_hexChar hlo']
  dsimp only
  rw [if_pos hlo]

/-- A character is the one of the two halves it is written as. -/
theorem joinPair_halves {c : CodePoint} (h : 0x10000 ≤ c.val) :
    joinPair (0xD800 + (c.val - 0x10000) / 0x400) (0xDC00 + (c.val - 0x10000) % 0x400) = c := by
  have harith : ∀ n : ℕ, 0x10000 ≤ n → n < 0x110000 →
      (0x10000 + (0xD800 + (n - 0x10000) / 0x400 - 0xD800) * 0x400 +
        (0xDC00 + (n - 0x10000) % 0x400 - 0xDC00)) % 0x110000 = n := by
    intro n _ _
    omega
  exact Fin.ext (harith c.val h c.isLt)

/-- The text of a character is read as the character. -/
theorem scanString_writeChar {c : CodePoint} {t : PyStr} (h : isHigh c.val → NoLow t) :
    scanString (writeChar c ++ t) = consChar c (scanString t) := by
  rw [writeChar]
  cases he : escapeLetter c with
  | some e =>
    have hescaped : e ≠ cp 'u' ∧ escaped e = some c := by
      unfold escapeLetter at he
      split_ifs at he with h₁ h₂ h₃ h₄ h₅ h₆ h₇ <;> subst_vars <;> cases he <;> decide
    exact scanString_letter hescaped.1 hescaped.2 t
  | none =>
    dsimp only
    split_ifs with hplain hbmp
    · have hne : c ≠ cp '\\' ∧ c ≠ cp '"' := by
        constructor <;> rintro rfl <;> revert he <;> decide
      have hval : ¬ c.val ≤ 0x1f := by
        simp only [CodePoint.between, Bool.and_eq_true, decide_eq_true_eq] at hplain
        have : (' ' : Char).val.toNat = 32 := rfl
        omega
      exact scanString_cons hne.2 hval hne.1 t
    · rw [scanString_writeUnit hbmp h, unit_val]
    · have hlt := c.isLt
      rw [List.append_assoc, scanString_writePair (by simp [isHigh]; omega)
        (by simp [isLow]; omega), joinPair_halves (by omega)]

theorem noLow_writeUnit {n : ℕ} (hn : n < 0x10000) (hlow : isLow n = false) (t : PyStr) :
    NoLow (writeUnit n ++ t) := by
  intro a b c d t' m heq hm
  simp only [writeUnit, List.cons_append, List.nil_append, List.cons.injEq] at heq
  obtain ⟨-, -, rfl, rfl, rfl, rfl, -⟩ := heq
  rw [hex4_hexChar hn] at hm
  exact Option.some.inj hm ▸ hlow

/-- The text of a character that is no low surrogate is not the escape of one. -/
theorem noLow_writeChar {c : CodePoint} (h : isLow c.val = false) (t : PyStr) :
    NoLow (writeChar c ++ t) := by
  rw [writeChar]
  cases he : escapeLetter c with
  | some e =>
    have hu : e ≠ cp 'u' := by
      unfold escapeLetter at he
      split_ifs at he <;> cases he <;> decide
    intro _ _ _ _ _ _ heq _
    exact absurd (List.cons.inj (List.cons.inj heq).2).1 hu
  | none =>
    dsimp only
    split_ifs with hplain hbmp
    · intro _ _ _ _ _ _ heq _
      obtain rfl := (List.cons.inj heq).1
      cases he
    · exact noLow_writeUnit hbmp h t
    · have hlt := c.isLt
      rw [List.append_assoc]
      exact noLow_writeUnit (by omega) (by simp [isLow]; omega) _

/-- The texts of characters do not go on with the escape of a low surrogate, unless the first one
is a low surrogate. -/
theorem noLow_flatMap {s : PyStr} (h : ∀ d ∈ s.head?, ¬ isLow d.val) (t : PyStr) :
    NoLow (s.flatMap writeChar ++ cp '"' :: t) := by
  cases s with
  | nil =>
    intro _ _ _ _ _ _ heq _
    exact absurd (List.cons.inj heq).1 (by decide)
  | cons d s =>
    rw [List.flatMap_cons, List.append_assoc]
    exact noLow_writeChar (Bool.eq_false_iff.mpr (h d rfl)) _

/-- **The text of a string** is read as the string. -/
theorem scanString_writeString : (s : PyStr) → Paired s → (t : PyStr) →
    scanString (s.flatMap writeChar ++ cp '"' :: t) = .ok (s, t)
  | [], _, t => scanString_quote t
  | c :: s, h, t => by
      have hs : Paired s := List.IsChain.of_cons h
      rw [List.flatMap_cons, List.append_assoc, scanString_writeChar, scanString_writeString s hs t]
      · rfl
      · intro hhigh
        refine noLow_flatMap (fun d hd => ?_) t
        cases s with
        | nil => cases hd
        | cons d' s =>
          obtain rfl := Option.some.inj hd
          exact (List.isChain_cons_cons.mp h).1 hhigh

/-! ### Numbers -/

/-- What may follow a number. -/
def EndsNumber (t : PyStr) : Prop :=
  ∀ c ∈ t.head?, ¬ c.isAsciiDigit ∧ c ≠ cp '.' ∧ c ≠ cp 'e' ∧ c ≠ cp 'E'

/-- `int.__repr__`. -/
def writeInt (n : ℤ) : PyStr :=
  if n < 0 then cp '-' :: PyStr.ofNat n.natAbs else PyStr.ofNat n.natAbs

/-- A number begins with a digit, which is no zero unless it is the only one. -/
theorem exists_ofNat_eq_cons (n : ℕ) : ∃ c s, PyStr.ofNat n = c :: s ∧ c.isAsciiDigit ∧
    (c = cp '0' → s = []) := by
  have hdigits : ∀ n, PyStr.ofNat n = (Nat.toDigits 10 n).map cp := fun n => by
    simp [PyStr.ofNat, str_eq]
  have hall : ∀ c s, PyStr.ofNat n = c :: s → c.isAsciiDigit := fun c s h =>
    List.all_eq_true.mp (PyStr.isAsciiDigit_ofNat n) c (h ▸ List.mem_cons_self)
  suffices h : ∃ c s, PyStr.ofNat n = c :: s ∧ (c = cp '0' → s = []) by
    obtain ⟨c, s, heq, hzero⟩ := h
    exact ⟨c, s, heq, hall c s heq, hzero⟩
  clear hall
  induction n using Nat.strong_induction_on with
  | _ n ih =>
    rcases Nat.lt_or_ge n 10 with hlt | hge
    · rw [hdigits, Nat.toDigits_of_lt_base hlt]
      exact ⟨_, [], rfl, fun _ => rfl⟩
    · obtain ⟨c, s, heq, hzero⟩ := ih (n / 10) (by omega)
      refine ⟨c, s ++ [cp (n % 10).digitChar], ?_, fun hc => ?_⟩
      · rw [hdigits, Nat.toDigits_of_base_le (by decide) hge, List.map_append, ← hdigits, heq]
        rfl
      · subst hc
        have hval := digitsValue_ofNat (n / 10)
        rw [heq, hzero rfl] at hval
        have hzero' : digitsValue 10 decValue [cp '0'] = 0 := by decide
        omega

/-- Digits are taken as far as they go. -/
theorem spanDigits_append {ds t : PyStr} (hds : ds.all CodePoint.isAsciiDigit)
    (ht : ∀ c ∈ t.head?, ¬ c.isAsciiDigit) : spanDigits (ds ++ t) = (ds, t) := by
  have hall := List.all_eq_true.mp hds
  have hstop : t.takeWhile CodePoint.isAsciiDigit = [] ∧
      t.dropWhile CodePoint.isAsciiDigit = t := by
    cases t with
    | nil => exact ⟨rfl, rfl⟩
    | cons c t =>
      have hc := ht c rfl
      simp [hc]
  rw [spanDigits, List.takeWhile_append_of_pos hall, List.dropWhile_append_of_pos hall,
    hstop.1, hstop.2, List.append_nil]

/-- The digits of a number are taken whole. -/
theorem scanWhole_ofNat (n : ℕ) {t : PyStr} (ht : ∀ c ∈ t.head?, ¬ c.isAsciiDigit) :
    scanWhole (PyStr.ofNat n ++ t) = (PyStr.ofNat n, t) := by
  have hspan := spanDigits_append (PyStr.isAsciiDigit_ofNat n) ht
  obtain ⟨c, s, heq, -, hzero⟩ := exists_ofNat_eq_cons n
  rw [heq] at hspan ⊢
  rw [List.cons_append, scanWhole]
  split_ifs with hc
  · rw [hzero hc, List.nil_append]
  · exact hspan

theorem scanFraction_of_endsNumber {t : PyStr} (ht : EndsNumber t) : scanFraction t = none := by
  cases t with
  | nil => rfl
  | cons c t =>
    have hc := (ht c rfl).2.1
    simp [scanFraction, hc]

theorem scanExponent_of_endsNumber {t : PyStr} (ht : EndsNumber t) : scanExponent t = none := by
  cases t with
  | nil => rfl
  | cons c t =>
    obtain ⟨-, -, he, hE⟩ := ht c rfl
    simp [scanExponent, he, hE]

/-- A digit is no sign. -/
theorem not_minus_of_isAsciiDigit {c : CodePoint} (h : c.isAsciiDigit) :
    PyStr.oneOf (str "-") c = false := by
  by_contra hc
  have hminus : c = cp '-' := by simpa [PyStr.oneOf, str_eq] using hc
  subst hminus
  revert h
  decide

/-- The sign of a whole number. -/
theorem scanSign_writeInt (n : ℤ) (t : PyStr) : scanSign (str "-") (writeInt n ++ t) =
    (decide (n < 0), PyStr.ofNat n.natAbs ++ t) := by
  rw [writeInt]
  split_ifs with hn
  · simp [scanSign, hn, PyStr.oneOf]
    decide
  · obtain ⟨c, s, heq, hdigit, -⟩ := exists_ofNat_eq_cons n.natAbs
    have hc := not_minus_of_isAsciiDigit hdigit
    rw [heq, List.cons_append, scanSign, if_neg (by simp [hc])]
    simp [hn]

/-- **The text of a whole number** that is not too long is read as the number. -/
theorem scanNumber_writeInt {n : ℤ} (hn : (PyStr.ofNat n.natAbs).length ≤ intMaxStrDigits)
    {t : PyStr} (ht : EndsNumber t) : scanNumber (writeInt n ++ t) = .ok (.int n, t) := by
  have hne : (PyStr.ofNat n.natAbs).isEmpty = false := by
    obtain ⟨c, s, heq, -⟩ := exists_ofNat_eq_cons n.natAbs
    rw [heq]
    rfl
  simp only [scanNumber, scanSign_writeInt, scanWhole_ofNat _ fun c hc => (ht c hc).1,
    hne, Bool.false_eq_true, if_false,
    scanFraction_of_endsNumber ht, scanExponent_of_endsNumber ht, Option.map_none,
    Option.getD_none, numberValue, if_neg (not_lt.mpr hn), digitsValue_ofNat, Except.map]
  split_ifs with hneg
  · rw [Int.ofNat_natAbs_of_nonpos (of_decide_eq_true hneg).le, neg_neg]
  · rw [Int.natAbs_of_nonneg (not_lt.mp fun h => hneg (decide_eq_true h))]

/-- A text begins as a number does. -/
def BeginsNumber : PyStr → Bool
  | [] => false
  | c :: s => c.isAsciiDigit || (c = cp '-' && s.head?.any CodePoint.isAsciiDigit)

theorem printable_ofNat (n : ℕ) : Printable (PyStr.ofNat n) := by
  intro c hc
  have hdigit := List.all_eq_true.mp (PyStr.isAsciiDigit_ofNat n) c hc
  simp only [CodePoint.isAsciiDigit, CodePoint.between, Bool.and_eq_true, decide_eq_true_eq]
    at hdigit
  have h0 : ('0' : Char).val.toNat = 48 := rfl
  have h9 : ('9' : Char).val.toNat = 57 := rfl
  omega

/-- The texts of the finite floating-point numbers: digits with a sign, a point or an exponent,
which are read as the number. -/
structure FloatText where
  repr : ℚ → PyStr
  printable : ∀ q, Printable (repr q)
  /-- The text begins with a digit, or with a minus and a digit. -/
  begins : ∀ q, BeginsNumber (repr q)
  /-- The text of a double is read as the double. -/
  scan : ∀ q t, toDouble q = .finite q → EndsNumber t →
    scanNumber (repr q ++ t) = .ok (.float (.finite q), t)

/-- The units of a double with a given exponent are whole numbers of the least unit. -/
theorem exists_twoPow (e : ℤ) : ∃ k : ℕ, twoPow (max e (-1022) - 52) = 2 ^ k / 2 ^ 1074 := by
  have hle : -1074 ≤ max e (-1022) - 52 := by omega
  generalize max e (-1022) - 52 = d at hle
  have hpow : ∀ k : ℕ, (2 : ℚ) ^ k ≠ 0 := fun k => pow_ne_zero k two_ne_zero
  rw [twoPow]
  split_ifs with hd
  · exact ⟨d.toNat + 1074, by rw [pow_add, mul_div_cancel_right₀ _ (hpow 1074)]⟩
  · refine ⟨1074 - (-d).toNat, ?_⟩
    rw [div_eq_div_iff (hpow _) (hpow _), one_mul, ← pow_add]
    congr 1
    omega

/-- A double is a whole number of the least unit. -/
theorem exists_units {q : ℚ} (h : toDouble q = .finite q) : ∃ n : ℕ, |q| = n / 2 ^ 1074 := by
  by_cases hq : q = 0
  · exact ⟨0, by rw [hq, abs_zero, Nat.cast_zero, zero_div]⟩
  · rw [toDouble, if_neg hq] at h
    dsimp only at h
    obtain ⟨k, hk⟩ := exists_twoPow (exponent |q|)
    rw [hk] at h
    generalize roundHalfEven (|q| / (2 ^ k / 2 ^ 1074)) = r at h
    have habs : |q| = |(r : ℚ) * (2 ^ k / 2 ^ 1074)| := by
      split_ifs at h with hbig hneg
      · rw [← PyFloat.finite.inj h, abs_neg]
      · rw [← PyFloat.finite.inj h]
    refine ⟨r.natAbs * 2 ^ k, ?_⟩
    have hpos : (0 : ℚ) < 2 ^ k / 2 ^ 1074 := div_pos (pow_pos two_pos k) (pow_pos two_pos 1074)
    rw [habs, abs_mul, abs_of_pos hpos, Nat.cast_mul, Nat.cast_natAbs, Int.cast_abs,
      Nat.cast_pow, mul_div_assoc]
    rfl

/-- A number with an exponent below zero. -/
theorem scanNumber_exponent (neg : Bool) (m : ℕ) {k : ℕ} (hk : 0 < k) {t : PyStr}
    (ht : EndsNumber t) :
    scanNumber ((if neg then [cp '-'] else []) ++ PyStr.ofNat m ++
        (cp 'e' :: cp '-' :: (PyStr.ofNat k ++ t))) =
      .ok (.float (toDouble (if neg then -(m / 10 ^ k : ℚ) else m / 10 ^ k)), t) := by
  obtain ⟨c, s, heq, hdigit, -⟩ := exists_ofNat_eq_cons m
  obtain ⟨c', s', heq', hdigit', -⟩ := exists_ofNat_eq_cons k
  generalize hrest : cp 'e' :: cp '-' :: (PyStr.ofNat k ++ t) = rest
  have hsign : scanSign (str "-") ((if neg then [cp '-'] else []) ++ PyStr.ofNat m ++ rest) =
      (neg, PyStr.ofNat m ++ rest) := by
    cases neg with
    | true =>
      simp [scanSign, PyStr.oneOf]
      decide
    | false =>
      have hc := not_minus_of_isAsciiDigit hdigit
      simp [heq, scanSign, hc]
  have hspan := spanDigits_append (PyStr.isAsciiDigit_ofNat k) fun c hc => (ht c hc).1
  have hexp : scanExponent rest = some (-(k : ℤ), t) := by
    have hminus : scanSign (str "+-") (cp '-' :: (PyStr.ofNat k ++ t)) =
        (true, PyStr.ofNat k ++ t) := rfl
    have hne : (PyStr.ofNat k).isEmpty = false := by rw [heq']; rfl
    rw [← hrest]
    simp only [scanExponent, hminus, hspan, hne, digitsValue_ofNat]
    rfl
  have hfrac : scanFraction rest = none := by
    rw [← hrest]
    rfl
  have hwhole : scanWhole (PyStr.ofNat m ++ rest) = (PyStr.ofNat m, rest) :=
    scanWhole_ofNat m fun c hc => by
      rw [← hrest] at hc
      exact Option.some.inj hc ▸ by decide
  have hne : (PyStr.ofNat m).isEmpty = false := by rw [heq]; rfl
  have hneg : ¬ (0 : ℤ) ≤ -(k : ℤ) := by omega
  simp only [scanNumber, hsign, hwhole, hne, Bool.false_eq_true, if_false, hfrac, hexp,
    Option.map_none, Option.map_some, Option.getD_none, Option.getD_some, numberValue,
    List.append_nil, List.length_nil, Nat.cast_zero, sub_zero, if_neg hneg, digitsValue_ofNat,
    neg_neg, Int.toNat_natCast, Except.map]

/-- The text of a double as a number of the least unit. -/
def FloatText.units : FloatText where
  repr q := (if q < 0 then [cp '-'] else []) ++
    PyStr.ofNat ((|q| * 2 ^ 1074).num.natAbs * 5 ^ 1074) ++
    (cp 'e' :: cp '-' :: PyStr.ofNat 1074)
  printable q := by
    refine .append (.append ?_ (printable_ofNat _))
      (.cons (by decide) (.cons (by decide) (printable_ofNat _)))
    split_ifs
    · exact .cons (by decide) .nil
    · exact .nil
  begins q := by
    obtain ⟨c, s, heq, hdigit, -⟩ :=
      exists_ofNat_eq_cons ((|q| * 2 ^ 1074).num.natAbs * 5 ^ 1074)
    rw [heq]
    split_ifs <;> simp [BeginsNumber, hdigit]
  scan q t hq ht := by
    obtain ⟨n, hn⟩ := exists_units hq
    have hpow : (2 : ℚ) ^ 1074 ≠ 0 := pow_ne_zero 1074 two_ne_zero
    have hunits : |q| * 2 ^ 1074 = n := by rw [hn, div_mul_cancel₀ _ hpow]
    have hvalue : ((n * 5 ^ 1074 : ℕ) : ℚ) / 10 ^ 1074 = |q| := by
      have hten : (10 : ℚ) = 2 * 5 := by norm_num
      have hfive : (5 : ℚ) ^ 1074 ≠ 0 := pow_ne_zero 1074 (by norm_num)
      rw [hten, mul_pow, Nat.cast_mul, Nat.cast_pow, hn]
      exact mul_div_mul_right _ _ hfive
    have hscan := scanNumber_exponent (decide (q < 0)) (n * 5 ^ 1074)
      (show 0 < 1074 by decide) ht
    rw [hvalue] at hscan
    rw [hunits, Rat.num_natCast, Int.natAbs_natCast]
    simp only [decide_eq_true_eq, List.append_assoc] at hscan
    simp only [List.append_assoc, List.cons_append]
    rw [hscan]
    split_ifs with hneg
    · rw [abs_of_neg hneg, neg_neg, hq]
    · rw [abs_of_nonneg (not_lt.mp hneg), hq]

end Json

end C2Engine.Python
