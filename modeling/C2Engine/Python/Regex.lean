import C2Engine.Python.Str

/-!
# Backtracking patterns

Patterns of Python's `re` over any alphabet (code points for `str` patterns, bytes for `bytes`
patterns), with the order in which its matcher tries alternatives: `Re.run` lists every way a
pattern can match at a position, the preferred one first, and `Re.finditer` scans a text from
left to right with the preferred match at each position.

The second part is about lines. A pattern is *local* to a separator when none of its characters
can be the separator; such a pattern matches in `a ++ sep :: b` exactly as it does in `a` and in
`b` apart (`Re.finditer_append`), so scanning lines joined by the separator is scanning each line
(`Re.findall_join`).

## Main definitions

* `Alphabet`, `Re`, `Re.Cursor`: alphabets, patterns, positions of a match in progress.
* `Re.run`, `Re.finditer`, `Re.search`, `Re.match?`, `Re.sub`: the matcher and the module
  functions over it.
* `Re.Ends`: the ends of a match, by rules.
* `Re.Local`, `Re.minLen`: locality to a separator, least length of a match.

## Main results

* `Re.ends_of_mem_run`: the matcher goes by the rules.
* `Re.run_extend`: a local pattern does not see past the separator.
* `Re.finditer_append`, `Re.findall_join`: scanning joined lines.
-/

namespace C2Engine.Python

/-- What a pattern knows of its alphabet: the word characters of `\b`, and the line feed of `$`. -/
structure Alphabet (α : Type) where
  /-- The characters of `\w`. -/
  isWord : α → Bool
  /-- The line feed. -/
  isNewline : α → Bool

/-- A pattern. The repetitions `{m,n}`, `+` and `?` are written with `seq`, `alt` and `star`. -/
inductive Re (α : Type) where
  /-- The empty pattern. -/
  | eps
  /-- One character of a class. -/
  | set (p : α → Bool)
  /-- One pattern after another. -/
  | seq (a b : Re α)
  /-- `a|b`, where `a` is tried first. -/
  | alt (a b : Re α)
  /-- `a*`, or `a*?` when `greedy` is false. -/
  | star (greedy : Bool) (a : Re α)
  /-- The capturing group of number `n`. -/
  | group (n : ℕ) (a : Re α)
  /-- `\b`. -/
  | wordB
  /-- `$`. -/
  | eos

namespace Re

variable {α : Type}

/-- A position in a text during a match: whether the character before it is a word character, the
text after it, and the groups captured so far. -/
structure Cursor (α : Type) where
  /-- The character before is a word character. -/
  prevWord : Bool
  /-- The text that is left. -/
  rest : List α
  /-- The captured groups, the latest last. -/
  caps : List (ℕ × List α)

/-- The text between two positions of one match. -/
def consumed (c d : Cursor α) : List α := c.rest.take (c.rest.length - d.rest.length)

/-- The iterations of a repetition; each must read a character, so `fuel` bounds their number by
the length of the text. -/
def starGo (greedy : Bool) (body : Cursor α → List (Cursor α)) : ℕ → Cursor α → List (Cursor α)
  | 0, c => [c]
  | fuel + 1, c =>
    let more := ((body c).filter fun d => d.rest.length < c.rest.length).flatMap
      (starGo greedy body fuel)
    if greedy then more ++ [c] else c :: more

/-- Every position at which the pattern can end when it starts at `c`, the preferred one first. -/
def run (A : Alphabet α) : Re α → Cursor α → List (Cursor α)
  | eps, c => [c]
  | set p, c => match c.rest with
    | [] => []
    | x :: xs => if p x then [⟨A.isWord x, xs, c.caps⟩] else []
  | seq a b, c => (run A a c).flatMap (run A b)
  | alt a b, c => run A a c ++ run A b c
  | star greedy a, c => starGo greedy (run A a) c.rest.length c
  | group n a, c => (run A a c).map fun d => { d with caps := d.caps ++ [(n, consumed c d)] }
  | wordB, c => if c.prevWord != (c.rest.head?.any A.isWord) then [c] else []
  | eos, c => match c.rest with
    | [] => [c]
    | [x] => if A.isNewline x then [c] else []
    | _ => []

/-- `r?`. -/
def opt (r : Re α) : Re α := alt r eps

/-- `r{n}`. -/
def times (r : Re α) : ℕ → Re α
  | 0 => eps
  | 1 => r
  | n + 1 => seq r (times r n)

/-- `r{0,n}`. -/
def upTo (r : Re α) : ℕ → Re α
  | 0 => eps
  | n + 1 => alt (seq r (upTo r n)) eps

/-- `r{m,n}`. -/
def between (r : Re α) (m n : ℕ) : Re α := seq (times r m) (upTo r (n - m))

/-- `r{m,}`. -/
def atLeast (r : Re α) (m : ℕ) : Re α := seq (times r m) (star true r)

/-- `r+`. -/
def plus (r : Re α) : Re α := seq r (star true r)

/-- `r+?`. -/
def plusLazy (r : Re α) : Re α := seq r (star false r)

/-- One given character. -/
def char [DecidableEq α] (x : α) : Re α := set fun y => y == x

/-- A given text. -/
def lit [DecidableEq α] : List α → Re α
  | [] => eps
  | [x] => char x
  | x :: xs => seq (char x) (lit xs)

/-- One of several patterns, tried in order. -/
def oneOf : List (Re α) → Re α
  | [] => set fun _ => false
  | [r] => r
  | r :: rs => alt r (oneOf rs)

/-- Several patterns, one after another. -/
def cat : List (Re α) → Re α
  | [] => eps
  | [r] => r
  | r :: rs => seq r (cat rs)

/-! ### Scanning a text -/

/-- A match: its text and its groups. -/
structure Match (α : Type) where
  /-- `m.group(0)`. -/
  text : List α
  /-- The captured groups, the latest last. -/
  caps : List (ℕ × List α)

/-- `m.group(n)`; a group that took no part in the match gives `none`. -/
def Match.group (m : Match α) (n : ℕ) : Option (List α) :=
  (m.caps.reverse.find? fun g => g.1 == n).map Prod.snd

/-- The preferred match at a position. -/
def matchAt (A : Alphabet α) (r : Re α) (prevWord : Bool) (text : List α) : Option (Match α) :=
  (run A r ⟨prevWord, text, []⟩).head?.map fun d => ⟨consumed ⟨prevWord, text, []⟩ d, d.caps⟩

/-- The scan of `finditer`: `skip` characters belong to the match found last. It is for patterns
that match no empty text. -/
def scan (A : Alphabet α) (r : Re α) : ℕ → Bool → List α → List (Match α)
  | _, _, [] => []
  | skip + 1, _, x :: xs => scan A r skip (A.isWord x) xs
  | 0, prevWord, x :: xs => match matchAt A r prevWord (x :: xs) with
    | some m => m :: scan A r (m.text.length - 1) (A.isWord x) xs
    | none => scan A r 0 (A.isWord x) xs

/-- `re.finditer(r, text)`, for a pattern that matches no empty text. -/
def finditer (A : Alphabet α) (r : Re α) (text : List α) : List (Match α) := scan A r 0 false text

/-- `re.findall(r, text)`, for a pattern without groups that matches no empty text. -/
def findall (A : Alphabet α) (r : Re α) (text : List α) : List (List α) :=
  (finditer A r text).map Match.text

/-- `re.search(r, text)`, for a pattern that matches no empty text. -/
def search (A : Alphabet α) (r : Re α) (text : List α) : Option (Match α) :=
  (finditer A r text).head?

/-- `re.match(r, text)`. -/
def match? (A : Alphabet α) (r : Re α) (text : List α) : Option (Match α) :=
  matchAt A r false text

/-- The scan of `sub`, as `scan` does it. -/
def subGo (A : Alphabet α) (r : Re α) (repl : Match α → List α) :
    ℕ → Bool → List α → List α
  | _, _, [] => []
  | skip + 1, _, x :: xs => subGo A r repl skip (A.isWord x) xs
  | 0, prevWord, x :: xs => match matchAt A r prevWord (x :: xs) with
    | some m => repl m ++ subGo A r repl (m.text.length - 1) (A.isWord x) xs
    | none => x :: subGo A r repl 0 (A.isWord x) xs

/-- `re.sub(r, repl, text)`, for a pattern that matches no empty text. -/
def sub (A : Alphabet α) (r : Re α) (repl : Match α → List α) (text : List α) : List α :=
  subGo A r repl 0 false text

/-! ### The ends of a match -/

/-- A match of the pattern from `c` can end at `d`: the rules the matcher goes by, without the order
in which it tries them. -/
inductive Ends (A : Alphabet α) : Re α → Cursor α → Cursor α → Prop
  | eps (c : Cursor α) : Ends A eps c c
  | set {p : α → Bool} {prevWord : Bool} {x : α} {xs : List α} {caps : List (ℕ × List α)}
      (h : p x) : Ends A (set p) ⟨prevWord, x :: xs, caps⟩ ⟨A.isWord x, xs, caps⟩
  | seq {a b : Re α} {c d e : Cursor α} (hd : Ends A a c d) (he : Ends A b d e) :
      Ends A (seq a b) c e
  | left {a b : Re α} {c d : Cursor α} (hd : Ends A a c d) : Ends A (alt a b) c d
  | right {a b : Re α} {c d : Cursor α} (hd : Ends A b c d) : Ends A (alt a b) c d
  | done {greedy : Bool} {a : Re α} (c : Cursor α) : Ends A (star greedy a) c c
  | more {greedy : Bool} {a : Re α} {c d e : Cursor α} (hd : Ends A a c d)
      (he : Ends A (star greedy a) d e) : Ends A (star greedy a) c e
  | group {n : ℕ} {a : Re α} {c d : Cursor α} (hd : Ends A a c d) :
      Ends A (group n a) c { d with caps := d.caps ++ [(n, consumed c d)] }
  | wordB (c : Cursor α) : Ends A wordB c c
  | eos (c : Cursor α) : Ends A eos c c

theorem ends_of_mem_starGo {A : Alphabet α} {greedy : Bool} {a : Re α}
    {body : Cursor α → List (Cursor α)} (hbody : ∀ {c d}, d ∈ body c → Ends A a c d) :
    (fuel : ℕ) → {c d : Cursor α} → d ∈ starGo greedy body fuel c → Ends A (star greedy a) c d
  | 0, c, d, h => by
      obtain rfl : d = c := by simpa [starGo] using h
      exact .done d
  | fuel + 1, c, d, h => by
      have h' : d = c ∨ ∃ e ∈ body c, e.rest.length < c.rest.length ∧
          d ∈ starGo greedy body fuel e := by
        cases greedy <;> simp [starGo, and_assoc] at h <;> tauto
      obtain rfl | ⟨e, he, -, hd⟩ := h'
      · exact .done d
      · exact .more (hbody he) (ends_of_mem_starGo hbody fuel hd)

/-- **The matcher goes by these rules.** -/
theorem ends_of_mem_run (A : Alphabet α) :
    (r : Re α) → {c d : Cursor α} → d ∈ run A r c → Ends A r c d
  | eps, c, d, h => by
      obtain rfl : d = c := by simpa [run] using h
      exact .eps d
  | set p, ⟨prevWord, rest, caps⟩, d, h => by
      cases rest with
      | nil => simp [run] at h
      | cons x xs =>
        simp only [run] at h
        split_ifs at h with hp
        · obtain rfl := List.mem_singleton.mp h
          exact .set hp
        · simp at h
  | seq a b, c, d, h => by
      obtain ⟨e, he, hd⟩ := List.mem_flatMap.mp h
      exact .seq (ends_of_mem_run A a he) (ends_of_mem_run A b hd)
  | alt a b, c, d, h => by
      rcases List.mem_append.mp h with h | h
      · exact .left (ends_of_mem_run A a h)
      · exact .right (ends_of_mem_run A b h)
  | star greedy a, c, d, h => ends_of_mem_starGo (ends_of_mem_run A a) _ h
  | group n a, c, d, h => by
      obtain ⟨e, he, rfl⟩ := List.mem_map.mp h
      exact .group (ends_of_mem_run A a he)
  | wordB, c, d, h => by
      obtain rfl : d = c := by
        simp only [run] at h
        split_ifs at h
        · exact List.mem_singleton.mp h
        · simp at h
      exact .wordB d
  | eos, c, d, h => by
      obtain rfl : d = c := by
        simp only [run] at h
        split at h
        · exact List.mem_singleton.mp h
        · split_ifs at h
          · exact List.mem_singleton.mp h
          · simp at h
        · simp at h
      exact .eos d

/-! ### The length of a match -/

/-- The least number of characters the pattern reads. -/
def minLen : Re α → ℕ
  | eps | star _ _ | wordB | eos => 0
  | set _ => 1
  | seq a b => a.minLen + b.minLen
  | alt a b => min a.minLen b.minLen
  | group _ a => a.minLen

/-- A match reads at least `minLen` characters. -/
theorem length_add_minLen_le (A : Alphabet α) (r : Re α) {c d : Cursor α} (h : d ∈ run A r c) :
    d.rest.length + r.minLen ≤ c.rest.length := by
  replace h := ends_of_mem_run A r h
  induction h with
  | eps | set | done | wordB | eos => exact le_rfl
  | seq _ _ iha ihb | more _ _ iha ihb =>
    simp only [minLen] at iha ihb ⊢
    omega
  | left _ ih =>
    simp only [minLen]
    omega
  | right _ ih =>
    simp only [minLen]
    omega
  | group _ ih => exact ih

theorem length_le (A : Alphabet α) {r : Re α} {c d : Cursor α} (h : d ∈ run A r c) :
    d.rest.length ≤ c.rest.length :=
  (Nat.le_add_right _ _).trans (length_add_minLen_le A r h)

theorem length_consumed {c d : Cursor α} (h : d.rest.length ≤ c.rest.length) :
    (consumed c d).length = c.rest.length - d.rest.length := by
  rw [consumed, List.length_take]
  omega

/-- Past the length of the text, more fuel gives a repetition no further iteration. -/
theorem starGo_fuel (greedy : Bool) (body : Cursor α → List (Cursor α)) :
    (fuel : ℕ) → (c : Cursor α) → c.rest.length ≤ fuel →
      starGo greedy body fuel c = starGo greedy body c.rest.length c
  | 0, c, h => by rw [Nat.le_zero.mp h]
  | fuel + 1, c, h => by
      cases hn : c.rest.length with
      | zero =>
        have hnil : ((body c).filter fun d => d.rest.length < c.rest.length) = [] := by
          simp [hn]
        cases greedy <;> simp [starGo, hnil]
      | succ n =>
        have hcongr : (((body c).filter fun d => d.rest.length < c.rest.length).flatMap
            (starGo greedy body fuel)) =
            ((body c).filter fun d => d.rest.length < c.rest.length).flatMap
              (starGo greedy body n) := by
          refine List.flatMap_congr fun d hd => ?_
          have hlt : d.rest.length < c.rest.length := by
            simpa using (List.mem_filter.mp hd).2
          rw [starGo_fuel greedy body fuel d (by omega)]
          exact (starGo_fuel greedy body n d (by omega)).symm
        simp only [starGo, hcongr]
termination_by fuel c => fuel + c.rest.length

/-! ### Lines -/

/-- The pattern reads no separator and does not ask for the end of the text. -/
def Local (sep : α) : Re α → Prop
  | eps | wordB => True
  | eos => False
  | set p => p sep = false
  | seq a b | alt a b => a.Local sep ∧ b.Local sep
  | star _ a | group _ a => a.Local sep

instance decidableLocal (sep : α) : (r : Re α) → Decidable (r.Local sep)
  | eps | wordB => .isTrue trivial
  | eos => .isFalse id
  | set p => inferInstanceAs (Decidable (p sep = false))
  | seq a b | alt a b => @instDecidableAnd _ _ (decidableLocal sep a) (decidableLocal sep b)
  | star _ a | group _ a => decidableLocal sep a

/-- A position, with a separator and a further text behind what is left. -/
def Cursor.extend (sep : α) (tail : List α) (c : Cursor α) : Cursor α :=
  { c with rest := c.rest ++ sep :: tail }

@[simp] theorem Cursor.extend_prevWord (sep : α) (tail : List α) (c : Cursor α) :
    (c.extend sep tail).prevWord = c.prevWord := rfl

@[simp] theorem Cursor.extend_rest (sep : α) (tail : List α) (c : Cursor α) :
    (c.extend sep tail).rest = c.rest ++ sep :: tail := rfl

theorem consumed_extend (sep : α) (tail : List α) (c d : Cursor α) :
    consumed (c.extend sep tail) (d.extend sep tail) = consumed c d := by
  simp only [consumed, Cursor.extend_rest, List.length_append]
  rw [Nat.add_sub_add_right]
  exact List.take_append_of_le_length (Nat.sub_le _ _)

theorem starGo_extend {sep : α} {tail : List α} {greedy : Bool}
    {body : Cursor α → List (Cursor α)}
    (hbody : ∀ c, body (c.extend sep tail) = (body c).map (Cursor.extend sep tail)) :
    (fuel : ℕ) → (c : Cursor α) → starGo greedy body fuel (c.extend sep tail) =
      (starGo greedy body fuel c).map (Cursor.extend sep tail)
  | 0, c => rfl
  | fuel + 1, c => by
      have hmore : (((body (c.extend sep tail)).filter fun d =>
          d.rest.length < (c.extend sep tail).rest.length).flatMap (starGo greedy body fuel)) =
          (((body c).filter fun d => d.rest.length < c.rest.length).flatMap
            (starGo greedy body fuel)).map (Cursor.extend sep tail) := by
        rw [hbody, List.filter_map, List.flatMap_map, List.map_flatMap]
        refine (List.flatMap_congr fun d _ => starGo_extend hbody fuel d).trans ?_
        congr 1
        refine List.filter_congr fun d _ => ?_
        simp
      cases greedy <;> simp only [starGo, hmore] <;> simp

/-- **A local pattern does not see past the separator**, which is no word character and so stands
for the end of the text to `\b` too. -/
theorem run_extend (A : Alphabet α) {sep : α} (hsep : A.isWord sep = false) (tail : List α) :
    (r : Re α) → r.Local sep → (c : Cursor α) →
      run A r (c.extend sep tail) = (run A r c).map (Cursor.extend sep tail)
  | eps, _, c => rfl
  | set p, h, c => by
      cases hc : c.rest with
      | nil =>
        have hp : p sep = false := h
        simp [run, hc, hp]
      | cons x xs =>
        by_cases hp : p x = true
        · simp [run, hc, hp, Cursor.extend]
        · simp [run, hc, hp]
  | seq a b, h, c => by
      change (run A a (c.extend sep tail)).flatMap (run A b) = _
      rw [run_extend A hsep tail a h.1 c, List.flatMap_map]
      simp only [run, List.map_flatMap, run_extend A hsep tail b h.2]
  | alt a b, h, c => by
      change run A a (c.extend sep tail) ++ run A b (c.extend sep tail) = _
      rw [run_extend A hsep tail a h.1 c, run_extend A hsep tail b h.2 c, ← List.map_append]
      rfl
  | star greedy a, h, c => by
      change starGo greedy (run A a) (c.extend sep tail).rest.length (c.extend sep tail) = _
      rw [starGo_extend (run_extend A hsep tail a h),
        starGo_fuel greedy (run A a) _ c (by simp)]
      rfl
  | group n a, h, c => by
      change (run A a (c.extend sep tail)).map _ = ((run A a c).map _).map _
      rw [run_extend A hsep tail a h c, List.map_map, List.map_map]
      refine List.map_congr_left fun d _ => ?_
      simp only [Function.comp_apply, consumed_extend]
      rfl
  | wordB, _, c => by
      have hhead : ((c.extend sep tail).rest.head?.any A.isWord) = c.rest.head?.any A.isWord := by
        cases hc : c.rest with
        | nil => simp [hc, hsep]
        | cons x xs => simp [hc]
      simp only [run, hhead, Cursor.extend_prevWord]
      split_ifs <;> rfl

theorem matchAt_extend (A : Alphabet α) {sep : α} (hsep : A.isWord sep = false) {r : Re α}
    (hr : r.Local sep) (prevWord : Bool) (text tail : List α) :
    matchAt A r prevWord (text ++ sep :: tail) = matchAt A r prevWord text := by
  have h := run_extend A hsep tail r hr ⟨prevWord, text, []⟩
  change run A r ⟨prevWord, text ++ sep :: tail, []⟩ = _ at h
  rw [matchAt, matchAt, h, List.head?_map, Option.map_map]
  congr 1
  funext d
  exact congrArg₂ Match.mk (consumed_extend sep tail ⟨prevWord, text, []⟩ d) rfl

/-- A match has at least `minLen` characters and at most those of the text. -/
theorem length_matchAt (A : Alphabet α) {r : Re α} {prevWord : Bool} {text : List α} {m : Match α}
    (h : matchAt A r prevWord text = some m) :
    r.minLen ≤ m.text.length ∧ m.text.length ≤ text.length := by
  simp only [matchAt, Option.map_eq_some_iff] at h
  obtain ⟨d, hd, rfl⟩ := h
  have hlen := length_add_minLen_le A r (List.mem_of_head? hd)
  change d.rest.length + r.minLen ≤ text.length at hlen
  have hle : d.rest.length ≤ (⟨prevWord, text, []⟩ : Cursor α).rest.length :=
    (Nat.le_add_right _ _).trans hlen
  have hc := length_consumed hle
  change _ = text.length - d.rest.length at hc
  refine ⟨?_, ?_⟩ <;> dsimp only <;> omega

theorem matchAt_nil (A : Alphabet α) {r : Re α} (hmin : 0 < r.minLen) (prevWord : Bool) :
    matchAt A r prevWord [] = none := by
  cases h : matchAt A r prevWord [] with
  | none => rfl
  | some m =>
    have := length_matchAt A h
    simp only [List.length_nil] at this
    omega

theorem scan_append (A : Alphabet α) {sep : α} (hsep : A.isWord sep = false) {r : Re α}
    (hr : r.Local sep) (hmin : 0 < r.minLen) (b : List α) :
    (a : List α) → (skip : ℕ) → skip ≤ a.length → (prevWord : Bool) →
      scan A r skip prevWord (a ++ sep :: b) = scan A r skip prevWord a ++ scan A r 0 false b
  | [], skip, hskip, prevWord => by
      obtain rfl := Nat.le_zero.mp hskip
      have h := matchAt_extend A hsep hr prevWord [] b
      rw [matchAt_nil A hmin] at h
      simp only [List.nil_append] at h ⊢
      simp [scan, h, hsep]
  | x :: a, skip + 1, hskip, prevWord =>
      scan_append A hsep hr hmin b a skip (Nat.le_of_succ_le_succ hskip) (A.isWord x)
  | x :: a, 0, _, prevWord => by
      have h := matchAt_extend A hsep hr prevWord (x :: a) b
      simp only [List.cons_append] at h ⊢
      simp only [scan, h]
      cases hm : matchAt A r prevWord (x :: a) with
      | none => exact scan_append A hsep hr hmin b a 0 (Nat.zero_le _) (A.isWord x)
      | some m =>
        have hle := (length_matchAt A hm).2
        simp only [List.length_cons] at hle
        simp only [List.cons_append, List.cons.injEq, true_and]
        exact scan_append A hsep hr hmin b a _ (by omega) (A.isWord x)

/-- **Scanning two lines.** A local pattern that reads at least one character finds in two lines
what it finds in each. -/
theorem finditer_append (A : Alphabet α) {sep : α} (hsep : A.isWord sep = false) {r : Re α}
    (hr : r.Local sep) (hmin : 0 < r.minLen) (a b : List α) :
    finditer A r (a ++ sep :: b) = finditer A r a ++ finditer A r b :=
  scan_append A hsep hr hmin b a 0 (Nat.zero_le _) false

theorem findall_append (A : Alphabet α) {sep : α} (hsep : A.isWord sep = false) {r : Re α}
    (hr : r.Local sep) (hmin : 0 < r.minLen) (a b : List α) :
    findall A r (a ++ sep :: b) = findall A r a ++ findall A r b := by
  rw [findall, finditer_append A hsep hr hmin, List.map_append]
  rfl

/-- **Scanning joined lines** is scanning each of them. -/
theorem findall_join (A : Alphabet CodePoint) {sep : CodePoint} (hsep : A.isWord sep = false)
    {r : Re CodePoint} (hr : r.Local sep) (hmin : 0 < r.minLen) :
    (lines : List PyStr) → findall A r (PyStr.join [sep] lines) = lines.flatMap (findall A r)
  | [] => rfl
  | [l] => by simp
  | l :: l' :: lines => by
      rw [PyStr.join_cons_cons, List.append_assoc, List.singleton_append,
        findall_append A hsep hr hmin, findall_join A hsep hr hmin (l' :: lines)]
      simp only [List.flatMap_cons]

/-! ### Patterns over text -/

/-- The alphabet of `str` patterns. -/
def text (uni : Unicode) : Alphabet CodePoint := ⟨uni.isWord, fun c => c == cp '\n'⟩

/-- The line feed is no word character. -/
theorem isWord_newline (uni : Unicode) : (text uni).isWord (cp '\n') = false :=
  uni.isWord_ascii (cp '\n') (by decide)

/-- `c` is the lower-case ASCII character `x` ignoring case; the letters `i`, `k` and `s` have
variants outside ASCII. -/
def foldsTo (x c : CodePoint) : Bool :=
  c.asciiLower == x || (x == cp 's' && c.val == 0x17F) || (x == cp 'k' && c.val == 0x212A) ||
  (x == cp 'i' && (c.val == 0x130 || c.val == 0x131))

/-- A given lower-case text, ignoring case. -/
def litI (s : PyStr) : Re CodePoint := cat (s.map fun x => set (foldsTo x))

/-- `[A-Za-z0-9]` ignoring case. -/
def isAlnumI (c : CodePoint) : Bool :=
  c.isAsciiAlnum || c.val == 0x130 || c.val == 0x131 || c.val == 0x17F || c.val == 0x212A

/-- `\s`. -/
def space : Re CodePoint := set CodePoint.isSpace

/-- `.` under `DOTALL`. -/
def any : Re CodePoint := set fun _ => true

end Re

end C2Engine.Python
