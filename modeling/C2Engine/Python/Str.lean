import Mathlib.Algebra.Order.Ring.Int
import Mathlib.Data.List.Basic
import Mathlib.Data.List.Infix
import Mathlib.Data.List.DropRight

/-!
# Python strings

A Python `str` is a sequence of code points, lone surrogates included; `CodePoint` is the set of
code points and `PyStr` a list of them. This file has the string methods the engine calls, the
character classes the standard library fixes by a short table (`isSpace`, the line boundaries of
`splitlines`), and `Unicode`, the part of the character database that is too large for one.

## Main definitions

* `CodePoint`, `PyStr`, `str`: code points, strings, and the string of a literal.
* `Unicode`: the character database, with its values on ASCII.
* `PyStr.Encodable`: the strings UTF-8 can encode, those without a lone surrogate.
* `PyStr.strip`, `PyStr.split`, `PyStr.partition`, `PyStr.rpartition`, `PyStr.replace`,
  `PyStr.splitlines`, `PyStr.join`: the methods of `str`.

## Main results

* `str_eq`: the string of a literal is that of its characters.
* `PyStr.partition_eq`: the parts of a partition put the string together.
* `PyStr.join_cons_cons`: joining lines puts a separator between two of them.
-/

namespace C2Engine.Python

/-- A code point; a lone surrogate is one. -/
abbrev CodePoint := Fin 0x110000

/-- A Python string. -/
abbrev PyStr := List CodePoint

/-- A byte string. -/
abbrev Bytes := List UInt8

/-- The code point of a character. -/
def cp (c : Char) : CodePoint :=
  ⟨c.val.toNat, by
    have := c.valid
    simp only [UInt32.isValidChar, Nat.isValidChar] at this
    omega⟩

/-- The code points of UTF-8 bytes, of which `more` still belong to a character that has begun;
`acc` is its number so far. -/
def utf8Points : (acc more : ℕ) → List UInt8 → PyStr
  | _, _, [] => []
  | acc, 0, b :: bs =>
    let n := b.toNat
    if n < 0x80 then Fin.ofNat _ n :: utf8Points acc 0 bs
    else if n < 0xE0 then utf8Points (n % 0x20) 1 bs
    else if n < 0xF0 then utf8Points (n % 0x10) 2 bs
    else utf8Points (n % 0x08) 3 bs
  | acc, 1, b :: bs => Fin.ofNat _ (acc * 64 + b.toNat % 64) :: utf8Points 0 0 bs
  | acc, more + 2, b :: bs => utf8Points (acc * 64 + b.toNat % 64) (more + 1) bs

/-- The string of a literal: its characters (`str_eq`), read from its bytes, which the kernel does
faster than `String.toList`. -/
def str (s : String) : PyStr := utf8Points 0 0 s.toByteArray.data.toList

theorem utf8Points_append (c : Char) (bs : List UInt8) :
    utf8Points 0 0 (String.utf8EncodeChar c ++ bs) = cp c :: utf8Points 0 0 bs := by
  have hvalid : c.val.toNat < 0x110000 := (cp c).isLt
  have hpoint : ∀ n, n = c.val.toNat → Fin.ofNat 0x110000 n = cp c := by
    rintro _ rfl
    exact Fin.ext (Nat.mod_eq_of_lt hvalid)
  have hbyte : ∀ n, n < 256 → (UInt8.ofNat n).toNat = n := fun n h => by
    rw [UInt8.toNat_ofNat']
    exact Nat.mod_eq_of_lt h
  unfold String.utf8EncodeChar
  dsimp only
  -- one case for each length of an encoding
  split_ifs with h1 h2 h3
  · simp only [List.cons_append, List.nil_append, utf8Points]
    rw [hbyte _ (by omega), if_pos (by omega), hpoint _ rfl]
  · simp only [List.cons_append, List.nil_append, utf8Points]
    rw [hbyte _ (by omega), hbyte _ (by omega), if_neg (by omega), if_pos (by omega),
      hpoint _ (by omega)]
  · simp only [List.cons_append, List.nil_append, utf8Points]
    rw [hbyte _ (by omega), hbyte _ (by omega), hbyte _ (by omega), if_neg (by omega),
      if_neg (by omega), if_pos (by omega), hpoint _ (by omega)]
  · simp only [List.cons_append, List.nil_append, utf8Points]
    rw [hbyte _ (by omega), hbyte _ (by omega), hbyte _ (by omega), hbyte _ (by omega),
      if_neg (by omega), if_neg (by omega), if_neg (by omega), hpoint _ (by omega)]

theorem utf8Points_flatMap (cs : List Char) :
    utf8Points 0 0 (cs.flatMap String.utf8EncodeChar) = cs.map cp := by
  induction cs with
  | nil => rfl
  | cons c cs ih => rw [List.flatMap_cons, utf8Points_append, ih, List.map_cons]

theorem str_eq (s : String) : str s = s.toList.map cp := by
  have hbytes : s.toByteArray.data.toList = s.toList.flatMap String.utf8EncodeChar := by
    rw [← String.utf8Encode_toList, List.utf8Encode, List.toList_data_toByteArray]
  rw [str, hbytes, utf8Points_flatMap]

theorem cp_injective : Function.Injective cp := by
  intro c d h
  have hval : c.val.toNat = d.val.toNat := Fin.mk.inj h
  exact Char.ext (UInt32.toNat_inj.mp hval)

@[simp] theorem str_inj {s t : String} : str s = str t ↔ s = t := by
  rw [str_eq, str_eq, (List.map_injective_iff.mpr cp_injective).eq_iff, String.toList_inj]

/-! ### Character classes -/

namespace CodePoint

/-- `c` lies between the characters `a` and `b`. -/
def between (a b : Char) (c : CodePoint) : Bool :=
  a.val.toNat ≤ c.val && c.val ≤ b.val.toNat

/-- An ASCII decimal digit. -/
def isAsciiDigit (c : CodePoint) : Bool := c.between '0' '9'

/-- An ASCII letter. -/
def isAsciiAlpha (c : CodePoint) : Bool := c.between 'a' 'z' || c.between 'A' 'Z'

/-- An ASCII letter or digit. -/
def isAsciiAlnum (c : CodePoint) : Bool := c.isAsciiAlpha || c.isAsciiDigit

/-- A hexadecimal digit. -/
def isHexDigit (c : CodePoint) : Bool :=
  c.isAsciiDigit || c.between 'a' 'f' || c.between 'A' 'F'

/-- An ASCII character. -/
def isAscii (c : CodePoint) : Bool := c.val < 128

/-- A lone surrogate, which UTF-8 cannot encode. -/
def isSurrogate (c : CodePoint) : Bool := 0xD800 ≤ c.val && c.val ≤ 0xDFFF

/-- White space: `str.isspace`, `\s` in a pattern, and what `str.strip` removes. -/
def isSpace (c : CodePoint) : Bool :=
  (0x09 ≤ c.val && c.val ≤ 0x0D) || (0x1C ≤ c.val && c.val ≤ 0x20) ||
  c.val == 0x85 || c.val == 0xA0 || c.val == 0x1680 || (0x2000 ≤ c.val && c.val ≤ 0x200A) ||
  c.val == 0x2028 || c.val == 0x2029 || c.val == 0x202F || c.val == 0x205F || c.val == 0x3000

/-- The characters `str.splitlines` breaks a line at. -/
def isLineBreak (c : CodePoint) : Bool :=
  (0x0A ≤ c.val && c.val ≤ 0x0D) || (0x1C ≤ c.val && c.val ≤ 0x1E) ||
  c.val == 0x85 || c.val == 0x2028 || c.val == 0x2029

/-- The lower case of an ASCII letter; other characters are kept. -/
def asciiLower (c : CodePoint) : CodePoint :=
  if h : c.between 'A' 'Z' then
    ⟨c.val + 32, by
      have h' : 65 ≤ c.val ∧ c.val ≤ 90 := by simpa [between] using h
      omega⟩
  else c

/-- The upper case of an ASCII letter; other characters are kept. -/
def asciiUpper (c : CodePoint) : CodePoint :=
  if c.between 'a' 'z' then ⟨c.val - 32, (Nat.sub_le _ _).trans_lt c.isLt⟩ else c

/-- The lower case of an ASCII letter and of the Kelvin sign; other characters are kept. -/
def fold (c : CodePoint) : CodePoint := if c.val = 0x212A then cp 'k' else c.asciiLower

/-- An ASCII character or the Kelvin sign. -/
def isFoldable (c : CodePoint) : Bool := c.isAscii || c.val == 0x212A

end CodePoint

/-- The character database: word characters (`\w`), decimal digits (`\d`), lower case and the
normal form NFKC. The fields after these say what they are on ASCII, which Unicode fixes; the
Kelvin sign is the one character outside ASCII whose lower case is an ASCII character. -/
structure Unicode where
  /-- `\w`, the characters `\b` separates from the others. -/
  isWord : CodePoint → Bool
  /-- `\d`. -/
  isDigit : CodePoint → Bool
  /-- `str.lower`. -/
  lower : PyStr → PyStr
  /-- `unicodedata.normalize('NFKC', ·)`. -/
  nfkc : PyStr → PyStr
  isWord_ascii : ∀ c : CodePoint, c.isAscii → isWord c = (c.isAsciiAlnum || c == cp '_')
  isDigit_ascii : ∀ c : CodePoint, c.isAscii → isDigit c = c.isAsciiDigit
  isDigit_isWord : ∀ c : CodePoint, isDigit c → isWord c
  isDigit_not_isSpace : ∀ c : CodePoint, isDigit c → c.isSpace = false
  isWord_not_isSpace : ∀ c : CodePoint, isWord c → c.isSpace = false
  lower_ascii : ∀ s : PyStr, s.all CodePoint.isAscii → lower s = s.map CodePoint.asciiLower
  lower_eq_ascii : ∀ s : PyStr, (lower s).all CodePoint.isAscii →
    lower s = s.map (fun c => if c.val = 0x212A then cp 'k' else c.asciiLower)
  lower_foldable : ∀ s : PyStr, s.all CodePoint.isFoldable → lower s = s.map CodePoint.fold
  lower_lower : ∀ s : PyStr, lower (lower s) = lower s
  lower_percent : ∀ s t : PyStr, lower (s ++ cp '%' :: t) = lower s ++ cp '%' :: lower t
  lower_space : ∀ (s t : PyStr) (c : CodePoint), c.isSpace →
    lower (s ++ c :: t) = lower s ++ c :: lower t
  isSpace_lower : ∀ s : PyStr, (∀ c ∈ s, c.isSpace = false) → ∀ c ∈ lower s, c.isSpace = false

namespace Unicode

theorem asciiLower_idem (c : CodePoint) : c.asciiLower.asciiLower = c.asciiLower := by
  by_cases h : c.between 'A' 'Z'
  · have h' : 65 ≤ c.val ∧ c.val ≤ 90 := by simpa [CodePoint.between] using h
    have hlow : (c.asciiLower).between 'A' 'Z' = false := by
      simp only [CodePoint.asciiLower, h, dif_pos]
      simp only [CodePoint.between, Bool.and_eq_false_iff, decide_eq_false_iff_not]
      right
      change ¬ c.val + 32 ≤ 90
      omega
    conv_lhs => rw [CodePoint.asciiLower]
    simp [hlow]
  · simp [CodePoint.asciiLower, h]

/-- A database that knows ASCII and the Kelvin sign, on which closed examples are evaluated. -/
def basic : Unicode where
  isWord c := c.isAsciiAlnum || c == cp '_'
  isDigit := CodePoint.isAsciiDigit
  lower s := s.map fun c => if c.val = 0x212A then cp 'k' else c.asciiLower
  nfkc s := s
  isWord_ascii _ _ := rfl
  isDigit_ascii _ _ := rfl
  isDigit_isWord c h := by simp [CodePoint.isAsciiAlnum, h]
  isDigit_not_isSpace c h := by
    have h' : 48 ≤ c.val ∧ c.val ≤ 57 := by
      simpa [CodePoint.isAsciiDigit, CodePoint.between] using h
    simp only [CodePoint.isSpace, Bool.or_eq_false_iff, Bool.and_eq_false_iff,
      decide_eq_false_iff_not, beq_eq_false_iff_ne, ne_eq]
    omega
  isWord_not_isSpace c h := by
    have h' : c.val = 95 ∨ (48 ≤ c.val ∧ c.val ≤ 57) ∨ (65 ≤ c.val ∧ c.val ≤ 90) ∨
        (97 ≤ c.val ∧ c.val ≤ 122) := by
      simp only [CodePoint.isAsciiAlnum, CodePoint.isAsciiAlpha, CodePoint.isAsciiDigit,
        CodePoint.between, Bool.or_eq_true, Bool.and_eq_true, decide_eq_true_eq, beq_iff_eq] at h
      rcases h with ((h | h) | h) | rfl
      · exact .inr (.inr (.inr h))
      · exact .inr (.inr (.inl h))
      · exact .inr (.inl h)
      · exact .inl rfl
    simp only [CodePoint.isSpace, Bool.or_eq_false_iff, Bool.and_eq_false_iff,
      decide_eq_false_iff_not, beq_eq_false_iff_ne, ne_eq]
    omega
  lower_ascii s h := by
    refine List.map_congr_left fun c hc => ?_
    have : c.val < 128 := by simpa [CodePoint.isAscii] using List.all_eq_true.mp h c hc
    rw [if_neg (by omega)]
  lower_eq_ascii _ _ := rfl
  lower_foldable _ _ := rfl
  lower_lower s := by
    simp only [List.map_map, List.map_inj_left, Function.comp_apply]
    intro c _
    by_cases hc : c.val = 0x212A
    · simp only [hc, if_pos]
      decide
    · simp only [hc, if_false]
      by_cases hu : c.between 'A' 'Z'
      · have h' : 65 ≤ c.val ∧ c.val ≤ 90 := by simpa [CodePoint.between] using hu
        have hv : (c.asciiLower).val = c.val + 32 := by simp [CodePoint.asciiLower, hu]
        rw [if_neg (by omega), asciiLower_idem]
      · have hv : c.asciiLower = c := by simp [CodePoint.asciiLower, hu]
        rw [hv, if_neg hc, hv]
  lower_percent s t := by
    rw [List.map_append, List.map_cons]
    rfl
  lower_space s t c hc := by
    have hne : c.val ≠ 0x212A := by
      intro h
      simp [CodePoint.isSpace, h] at hc
    have hup : c.between 'A' 'Z' = false := by
      by_contra h
      have h' : 65 ≤ c.val ∧ c.val ≤ 90 := by simpa [CodePoint.between] using h
      simp only [CodePoint.isSpace, Bool.or_eq_true, Bool.and_eq_true, decide_eq_true_eq,
        beq_iff_eq] at hc
      omega
    rw [List.map_append, List.map_cons, if_neg hne, CodePoint.asciiLower, dif_neg (by simp [hup])]
  isSpace_lower s hs c hc := by
    obtain ⟨d, hd, rfl⟩ := List.mem_map.mp hc
    by_cases hk : d.val = 0x212A
    · rw [if_pos hk]
      decide
    · rw [if_neg hk]
      by_cases hu : d.between 'A' 'Z'
      · have h' : 65 ≤ d.val ∧ d.val ≤ 90 := by simpa [CodePoint.between] using hu
        have hv : (d.asciiLower).val = d.val + 32 := by simp [CodePoint.asciiLower, hu]
        simp only [CodePoint.isSpace, Bool.or_eq_false_iff, Bool.and_eq_false_iff,
          decide_eq_false_iff_not, beq_eq_false_iff_ne, ne_eq]
        omega
      · have hv : d.asciiLower = d := by simp [CodePoint.asciiLower, hu]
        rw [hv]
        exact hs d hd

end Unicode

theorem isDigit_of_isAsciiDigit (uni : Unicode) {c : CodePoint} (h : c.isAsciiDigit) :
    uni.isDigit c := by
  have hval : 48 ≤ c.val ∧ c.val ≤ 57 := by
    simpa [CodePoint.isAsciiDigit, CodePoint.between] using h
  rw [uni.isDigit_ascii c (decide_eq_true (show c.val < 128 by omega)), h]

namespace PyStr

/-! ### Encoding -/

/-- The strings `str.encode("utf-8")` accepts: those without a lone surrogate. -/
def Encodable (s : PyStr) : Prop := ∀ c ∈ s, c.isSurrogate = false

instance (s : PyStr) : Decidable s.Encodable :=
  decidable_of_iff (s.all fun c => !c.isSurrogate) (by simp [Encodable])

@[simp] theorem encodable_nil : Encodable [] := nofun

@[simp] theorem encodable_cons (c : CodePoint) (s : PyStr) :
    Encodable (c :: s) ↔ c.isSurrogate = false ∧ s.Encodable :=
  List.forall_mem_cons

@[simp] theorem encodable_append (s t : PyStr) :
    Encodable (s ++ t) ↔ s.Encodable ∧ t.Encodable :=
  List.forall_mem_append

/-- A literal has no surrogate. -/
theorem encodable_str (s : String) : (str s).Encodable := by
  intro c hc
  rw [str_eq] at hc
  obtain ⟨ch, -, rfl⟩ := List.mem_map.mp hc
  have hvalid := ch.valid
  simp only [UInt32.isValidChar, Nat.isValidChar] at hvalid
  rw [CodePoint.isSurrogate, Bool.and_eq_false_iff, decide_eq_false_iff_not,
    decide_eq_false_iff_not]
  change ¬ 0xD800 ≤ ch.val.toNat ∨ ¬ ch.val.toNat ≤ 0xDFFF
  omega

/-- The number of bytes of a character in UTF-8; a lone surrogate is counted as the replacement
character an index stores for it. -/
def utf8Width (c : CodePoint) : ℕ :=
  if c.val < 0x80 then 1 else if c.val < 0x800 then 2 else if c.val < 0x10000 then 3 else 4

/-- The number of bytes of a string in UTF-8. -/
def utf8Len (s : PyStr) : ℕ := (s.map utf8Width).sum

theorem utf8Width_le (c : CodePoint) : utf8Width c ≤ 4 := by
  simp only [utf8Width]
  split_ifs <;> omega

theorem utf8Len_le (s : PyStr) : s.utf8Len ≤ 4 * s.length := by
  induction s with
  | nil => simp [utf8Len]
  | cons c s ih =>
    have hc := utf8Width_le c
    simp only [utf8Len, List.map_cons, List.sum_cons, List.length_cons] at ih ⊢
    omega

theorem utf8Len_cons (c : CodePoint) (s : PyStr) : utf8Len (c :: s) = utf8Width c + utf8Len s := by
  simp [utf8Len]

@[simp] theorem utf8Len_append (s t : PyStr) : utf8Len (s ++ t) = utf8Len s + utf8Len t := by
  simp [utf8Len]

/-- A part of a string has no more bytes. -/
theorem utf8Len_le_of_sublist {s t : PyStr} (h : s.Sublist t) : utf8Len s ≤ utf8Len t := by
  induction h with
  | slnil => exact le_rfl
  | cons c _ ih =>
    rw [utf8Len_cons]
    omega
  | cons_cons c _ ih =>
    rw [utf8Len_cons, utf8Len_cons]
    omega

/-! ### Methods -/

/-- `s.lstrip(chars)`, with the characters given by a predicate. -/
def lstrip (p : CodePoint → Bool) (s : PyStr) : PyStr := s.dropWhile p

/-- `s.rstrip(chars)`, with the characters given by a predicate. -/
def rstrip (p : CodePoint → Bool) (s : PyStr) : PyStr := s.rdropWhile p

/-- `s.strip()`. -/
def strip (s : PyStr) : PyStr := rstrip CodePoint.isSpace (lstrip CodePoint.isSpace s)

/-- The characters of `chars`, for `strip` and its kin. -/
def oneOf (chars : PyStr) (c : CodePoint) : Bool := chars.elem c

/-- `needle in s`. -/
def hasSub (s needle : PyStr) : Bool := s.tails.any fun t => needle.isPrefixOf t

/-- `s.split(sep)` at a one-character separator. -/
def split (sep : CodePoint) : PyStr → List PyStr
  | [] => [[]]
  | c :: s =>
    if c = sep then [] :: split sep s
    else match split sep s with
      | [] => [[c]]
      | w :: ws => (c :: w) :: ws

/-- `s.partition(sep)` at a one-character separator: what is before it, whether it is there, and
what is after it. -/
def partition (sep : CodePoint) : PyStr → PyStr × Bool × PyStr
  | [] => ([], false, [])
  | c :: s =>
    if c = sep then ([], true, s)
    else
      let r := partition sep s
      (c :: r.1, r.2.1, r.2.2)

/-- `s.rpartition(sep)` at a one-character separator; without one, the last part is `s`. -/
def rpartition (sep : CodePoint) (s : PyStr) : PyStr × Bool × PyStr :=
  let r := partition sep s.reverse
  if r.2.1 then (r.2.2.reverse, true, r.1.reverse) else ([], false, s)

/-- `s.replace(c, by)` for a one-character `c`. -/
def replace (c : CodePoint) (by_ : PyStr) (s : PyStr) : PyStr :=
  s.flatMap fun x => if x = c then by_ else [x]

/-- `s.split()`: the words between runs of white space. -/
def words (s : PyStr) : List PyStr :=
  (s.splitOnP CodePoint.isSpace).filter fun w => !w.isEmpty

/-- A word of a string is a part of it. -/
theorem sublist_of_mem_words {s w : PyStr} (h : w ∈ words s) : w.Sublist s := by
  have hsplit : ∀ (s : PyStr), ∀ w ∈ s.splitOnP CodePoint.isSpace, w.Sublist s := by
    intro s
    induction s with
    | nil => simp
    | cons c s ih =>
      intro w hw
      rw [List.splitOnP_cons_eq_if_modifyHead] at hw
      split_ifs at hw
      · rcases List.mem_cons.mp hw with rfl | hw
        · exact List.nil_sublist _
        · exact (ih w hw).cons c
      · cases hs : s.splitOnP CodePoint.isSpace with
        | nil => simp [hs] at hw
        | cons v vs =>
          rw [hs] at ih hw
          rcases List.mem_cons.mp hw with rfl | hw
          · exact (ih v List.mem_cons_self).cons_cons c
          · exact (ih w (List.mem_cons_of_mem v hw)).cons c
  exact hsplit s w (List.mem_of_mem_filter h)

/-- `s.splitlines()`; a carriage return followed by a line feed is one break. -/
def splitlines : PyStr → List PyStr
  | [] => []
  | [c] => if c.isLineBreak then [[]] else [[c]]
  | c :: d :: s =>
    if c = 0x0D ∧ d = 0x0A then [] :: splitlines s
    else if c.isLineBreak then [] :: splitlines (d :: s)
    else match splitlines (d :: s) with
      | [] => [[c]]
      | w :: ws => (c :: w) :: ws

/-- `sep.join(parts)`. -/
def join (sep : PyStr) : List PyStr → PyStr
  | [] => []
  | [p] => p
  | p :: q :: ps => p ++ sep ++ join sep (q :: ps)

/-- The digits of a number in base ten, `str(n)`. -/
def ofNat (n : ℕ) : PyStr := str (toString n)

/-- A number below `10 ^ k` has at most `k` digits. -/
theorem length_ofNat_le {n k : ℕ} (hk : 0 < k) (h : n < 10 ^ k) : (ofNat n).length ≤ k := by
  have := (Nat.length_toDigits_le_iff (b := 10) (by omega) hk).mpr h
  simpa [ofNat, str_eq, Nat.toString_eq_ofList_toDigits] using this

/-- The digits of a number are ASCII digits. -/
theorem isAsciiDigit_ofNat (n : ℕ) : (ofNat n).all CodePoint.isAsciiDigit := by
  rw [List.all_eq_true]
  intro c hc
  simp only [ofNat, str_eq, Nat.toString_eq_ofList_toDigits, String.toList_ofList,
    List.mem_map] at hc
  obtain ⟨d, hd, rfl⟩ := hc
  have hdigit := Nat.isDigit_of_mem_toDigits (by omega) (by omega) hd
  simp only [Char.isDigit, Bool.and_eq_true, decide_eq_true_eq] at hdigit
  have hge : 48 ≤ d.val.toNat := hdigit.1
  have hle : d.val.toNat ≤ 57 := hdigit.2
  exact Bool.and_eq_true_iff.mpr ⟨decide_eq_true hge, decide_eq_true hle⟩

/-- The digits of a number are ASCII. -/
theorem isAscii_ofNat (n : ℕ) : (ofNat n).all CodePoint.isAscii := by
  refine List.all_eq_true.mpr fun c hc => ?_
  have hdigit := List.all_eq_true.mp (isAsciiDigit_ofNat n) c hc
  have hle : c.val ≤ 57 := of_decide_eq_true (Bool.and_eq_true_iff.mp hdigit).2
  exact decide_eq_true (show c.val < 128 by omega)

/-- `s or None`: `None` in place of the empty text. -/
def orNone (s : PyStr) : Option PyStr := if s.isEmpty then none else some s

theorem orNone_eq_some {s t : PyStr} : orNone s = some t ↔ s = t ∧ t ≠ [] := by
  cases s with
  | nil => simp [orNone]
  | cons c s =>
    simp only [orNone, List.isEmpty_cons, Bool.false_eq_true, if_false, Option.some.injEq,
      iff_self_and]
    rintro rfl
    exact List.cons_ne_nil c s

@[simp] theorem join_nil (sep : PyStr) : join sep [] = [] := rfl

@[simp] theorem join_singleton (sep p : PyStr) : join sep [p] = p := rfl

theorem join_cons_cons (sep p q : PyStr) (ps : List PyStr) :
    join sep (p :: q :: ps) = p ++ sep ++ join sep (q :: ps) := rfl

theorem encodable_join {sep : PyStr} (hsep : sep.Encodable) :
    (ps : List PyStr) → (join sep ps).Encodable ↔ ∀ p ∈ ps, p.Encodable
  | [] => by simp
  | [p] => by simp
  | p :: q :: ps => by
      rw [join_cons_cons, encodable_append, encodable_append, encodable_join hsep (q :: ps)]
      simp [hsep]

/-- The parts of a partition, with the separator where one was found, are the string. -/
theorem partition_eq (sep : CodePoint) : (s : PyStr) →
    s = (partition sep s).1 ++ if (partition sep s).2.1 then sep :: (partition sep s).2.2 else []
  | [] => rfl
  | c :: s => by
      by_cases h : c = sep
      · simp [partition, h]
      · have ih := partition_eq sep s
        simp only [partition, h, if_false, List.cons_append, List.cons.injEq, true_and]
        exact ih

/-- The part before the separator does not contain it. -/
theorem notMem_partition_fst (sep : CodePoint) : (s : PyStr) → sep ∉ (partition sep s).1
  | [] => nofun
  | c :: s => by
      by_cases h : c = sep
      · simp [partition, h]
      · simp only [partition, h, if_false, List.mem_cons, not_or]
        exact ⟨fun h' => h h'.symm, notMem_partition_fst sep s⟩

theorem partition_fst_sublist (sep : CodePoint) (s : PyStr) :
    (partition sep s).1.Sublist s := by
  conv_rhs => rw [partition_eq sep s]
  exact List.sublist_append_left _ _

/-- Nothing follows a separator that was not found. -/
theorem partition_snd_eq_nil (sep : CodePoint) : (s : PyStr) →
    (partition sep s).2.1 = false → (partition sep s).2.2 = []
  | [], _ => rfl
  | c :: s, h => by
      by_cases hc : c = sep
      · simp [partition, hc] at h
      · simp only [partition, hc, if_false] at h ⊢
        exact partition_snd_eq_nil sep s h

theorem partition_snd_sublist (sep : CodePoint) (s : PyStr) :
    (partition sep s).2.2.Sublist s := by
  cases hb : (partition sep s).2.1 with
  | false =>
    rw [partition_snd_eq_nil sep s hb]
    exact List.nil_sublist s
  | true =>
    conv_rhs => rw [partition_eq sep s, hb, if_pos rfl]
    exact ((List.Sublist.refl _).cons sep).trans (List.sublist_append_right _ _)

/-- A string without the separator is its own first part. -/
theorem partition_of_notMem {sep : CodePoint} :
    {s : PyStr} → sep ∉ s → partition sep s = (s, false, [])
  | [], _ => rfl
  | c :: s, h => by
      have hc : c ≠ sep := fun hc => h (by simp [hc])
      have hs : sep ∉ s := fun hs => h (List.mem_cons_of_mem c hs)
      simp [partition, hc, partition_of_notMem hs]

/-- The first separator of a string splits it. -/
theorem partition_append {sep : CodePoint} (t : PyStr) :
    {s : PyStr} → sep ∉ s → partition sep (s ++ sep :: t) = (s, true, t)
  | [], _ => by simp [partition]
  | c :: s, h => by
      have hc : c ≠ sep := fun hc => h (by simp [hc])
      have hs : sep ∉ s := fun hs => h (List.mem_cons_of_mem c hs)
      simp [partition, hc, partition_append t hs]

/-- A string without the separator is the last part of its partition from the right. -/
theorem rpartition_of_notMem {sep : CodePoint} {s : PyStr} (h : sep ∉ s) :
    rpartition sep s = ([], false, s) := by
  have hr : sep ∉ s.reverse := by simpa using h
  simp [rpartition, partition_of_notMem hr]

end PyStr

end C2Engine.Python
