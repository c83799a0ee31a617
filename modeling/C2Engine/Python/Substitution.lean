import C2Engine.Python.Matching

/-!
# Replacing matches

What `Re.sub` does to a text without evaluating it. Over a character that the pattern cannot read
and that is no word character it works on both sides apart; characters no match can begin with stay
in front; a text that holds nothing of the pattern's language is kept.

## Main definitions

* `Re.reads`: the characters a match can begin with.
* `Re.Demands`: a character every match has.
* `Re.Plain`: a pattern without assertions.

## Main results

* `Re.sub_append`: replacing on both sides of a separator.
* `Re.subGo_append_of_reads`: a text in front in which no match begins.
* `Re.sub_of_prefers`: a text that is one match.
* `Re.sub_eq_self`, `Re.sub_eq_self_or`: a text without a match, and a text with one.
* `Re.subGo_plain`: the matches of a plain pattern do not depend on word characters.
-/

namespace C2Engine.Python.Re

variable {α : Type} {A : Alphabet α} {r : Re α} {repl : Match α → List α}

/-! ### Both sides of a separator -/

theorem subGo_append {sep : α} (hsep : A.isWord sep = false) (hr : r.Local sep)
    (hmin : 0 < r.minLen) (repl : Match α → List α) (b : List α) :
    (a : List α) → (skip : ℕ) → skip ≤ a.length → (prevWord : Bool) →
      subGo A r repl skip prevWord (a ++ sep :: b) =
        subGo A r repl skip prevWord a ++ sep :: subGo A r repl 0 false b
  | [], skip, hskip, prevWord => by
      obtain rfl := Nat.le_zero.mp hskip
      have h := matchAt_extend A hsep hr prevWord [] b
      rw [matchAt_nil A hmin] at h
      simp only [List.nil_append] at h ⊢
      simp [subGo, h, hsep]
  | x :: a, skip + 1, hskip, prevWord =>
      subGo_append hsep hr hmin repl b a skip (Nat.le_of_succ_le_succ hskip) (A.isWord x)
  | x :: a, 0, _, prevWord => by
      have h := matchAt_extend A hsep hr prevWord (x :: a) b
      simp only [List.cons_append] at h ⊢
      simp only [subGo, h]
      cases hm : matchAt A r prevWord (x :: a) with
      | none =>
        simp only [List.cons_append, List.cons.injEq, true_and]
        exact subGo_append hsep hr hmin repl b a 0 (Nat.zero_le _) (A.isWord x)
      | some m =>
        have hle := (length_matchAt A hm).2
        simp only [List.length_cons] at hle
        dsimp only
        rw [subGo_append hsep hr hmin repl b a _ (by omega) (A.isWord x), List.append_assoc]

/-- **Replacing on both sides of a separator.** -/
theorem sub_append {sep : α} (hsep : A.isWord sep = false) (hr : r.Local sep) (hmin : 0 < r.minLen)
    (repl : Match α → List α) (a b : List α) :
    sub A r repl (a ++ sep :: b) = sub A r repl a ++ sep :: sub A r repl b :=
  subGo_append hsep hr hmin repl b a 0 (Nat.zero_le _) false

/-! ### Where a match begins -/

/-- A match can begin with the character. -/
def reads : Re α → α → Bool
  | eps, _ | wordB, _ | eos, _ => false
  | set p, x => p x
  | seq a b, x => a.reads x || (a.minLen == 0 && b.reads x)
  | alt a b, x => a.reads x || b.reads x
  | star _ a, x | group _ a, x => a.reads x

theorem Lang.reads {w : List α} (h : Lang r w) : ∀ {x : α} {v : List α}, w = x :: v →
    r.reads x := by
  induction h with
  | eps | done | wordB | eos => nofun
  | set hp =>
    rintro x v ⟨⟩
    exact hp
  | @seq a b u v hu hv iha ihb =>
    intro x w hw
    rw [Re.reads, Bool.or_eq_true, Bool.and_eq_true, beq_iff_eq]
    rcases u with _ | ⟨y, u⟩
    · exact .inr ⟨Nat.le_zero.mp hu.minLen_le, ihb hw⟩
    · obtain ⟨rfl, -⟩ := List.cons.inj hw
      exact .inl (iha rfl)
  | left _ iha =>
    intro x v hw
    rw [Re.reads, Bool.or_eq_true]
    exact .inl (iha hw)
  | right _ ihb =>
    intro x v hw
    rw [Re.reads, Bool.or_eq_true]
    exact .inr (ihb hw)
  | @more greedy a u v _ _ iha ihb =>
    intro x w hw
    rcases u with _ | ⟨y, u⟩
    · exact ihb hw
    · obtain ⟨rfl, -⟩ := List.cons.inj hw
      exact iha rfl
  | group _ iha => exact fun hw => iha hw

/-- No match begins with a character the pattern does not read. -/
theorem matchAt_of_reads (hmin : 0 < r.minLen) {x : α} (h : r.reads x = false) (prevWord : Bool)
    (xs : List α) : matchAt A r prevWord (x :: xs) = none := by
  cases hm : matchAt A r prevWord (x :: xs) with
  | none => rfl
  | some m =>
    obtain ⟨hlang, v, hv⟩ := lang_of_matchAt hm
    cases htext : m.text with
    | nil =>
      have hle := hlang.minLen_le
      rw [htext, List.length_nil] at hle
      omega
    | cons y t =>
      rw [htext, List.cons_append] at hv
      obtain ⟨rfl, -⟩ := List.cons.inj hv
      rw [hlang.reads htext] at h
      cases h

/-- Whether the character before is a word character, once a text is read. -/
def wordAfter (A : Alphabet α) (prevWord : Bool) (s : List α) : Bool :=
  s.foldl (fun _ x => A.isWord x) prevWord

theorem wordAfter_concat (A : Alphabet α) (prevWord : Bool) (s : List α) (x : α) :
    wordAfter A prevWord (s ++ [x]) = A.isWord x := by
  rw [wordAfter, List.foldl_append]
  rfl

/-- A text of word characters ends with one. -/
theorem wordAfter_of_forall {s : List α} (hne : s ≠ []) (h : ∀ x ∈ s, A.isWord x)
    (prevWord : Bool) : wordAfter A prevWord s = true := by
  rcases List.eq_nil_or_concat s with rfl | ⟨front, x, rfl⟩
  · exact absurd rfl hne
  · rw [List.concat_eq_append, wordAfter_concat]
    exact h x (by simp)

/-- A text in front in which no match begins is kept. -/
theorem subGo_append_of_reads (hmin : 0 < r.minLen) (repl : Match α → List α) (t : List α) :
    (s : List α) → (∀ x ∈ s, r.reads x = false) → (prevWord : Bool) →
      subGo A r repl 0 prevWord (s ++ t) = s ++ subGo A r repl 0 (wordAfter A prevWord s) t
  | [], _, _ => rfl
  | x :: s, h, prevWord => by
      obtain ⟨hx, hs⟩ := List.forall_mem_cons.mp h
      rw [List.cons_append, subGo, matchAt_of_reads hmin hx,
        subGo_append_of_reads hmin repl t s hs (A.isWord x)]
      rfl

/-- Past a match, the scan goes on behind it. -/
theorem subGo_drop (A : Alphabet α) (r : Re α) (repl : Match α → List α) (t : List α) :
    (s : List α) → (prevWord : Bool) → subGo A r repl s.length prevWord (s ++ t) =
      subGo A r repl 0 (wordAfter A prevWord s) t
  | [], _ => rfl
  | x :: s, _ => subGo_drop A r repl t s (A.isWord x)

/-! ### A match of the whole text -/

theorem sub_of_prefers {x : α} {xs : List α} {d : Cursor α}
    (h : Prefers A r ⟨false, x :: xs, []⟩ d) (hd : d.rest = []) :
    sub A r repl (x :: xs) = repl ⟨x :: xs, d.caps⟩ := by
  have hmatch : matchAt A r false (x :: xs) = some ⟨x :: xs, d.caps⟩ := by
    rw [matchAt, h, Option.map_some,
      consumed_of_append (u := x :: xs) (by rw [hd, List.append_nil])]
  have hskip := subGo_drop A r repl [] xs (A.isWord x)
  rw [List.append_nil] at hskip
  rw [sub, subGo, hmatch]
  change repl _ ++ subGo A r repl xs.length (A.isWord x) xs = _
  rw [hskip, subGo, List.append_nil]

/-- A class read up to a number of times goes as far as the class, if that is not too far. -/
theorem Prefers.upTo_set {p : α → Bool} : {n : ℕ} → (u : List α) → u.length ≤ n →
    (∀ x ∈ u, p x) → {rest : List α} → (∀ x ∈ rest.head?, p x = false) → (prevWord : Bool) →
      (caps : List (ℕ × List α)) → Prefers A (upTo (.set p) n) ⟨prevWord, u ++ rest, caps⟩
        ⟨wordAfter A prevWord u, rest, caps⟩
  | 0, [], _, _, rest, _, prevWord, caps => .eps _
  | n + 1, [], _, _, rest, hrest, prevWord, caps => by
      refine .right ?_ (.eps _)
      cases rest with
      | nil => rfl
      | cons y rest =>
        have hy : p y = false := hrest y rfl
        simp [run, hy]
  | n + 1, x :: u, hlen, hu, rest, hrest, prevWord, caps => by
      obtain ⟨hx, hu⟩ := List.forall_mem_cons.mp hu
      exact .left (.seq (.set hx) (upTo_set u (Nat.le_of_succ_le_succ hlen) hu hrest
        (A.isWord x) caps))

/-- A class read once to a number of times. -/
theorem Prefers.between_set {p : α → Bool} {n : ℕ} {u : List α} (hne : u ≠ [])
    (hlen : u.length ≤ n + 1) (hu : ∀ x ∈ u, p x) {rest : List α}
    (hrest : ∀ x ∈ rest.head?, p x = false) (prevWord : Bool) (caps : List (ℕ × List α)) :
    Prefers A (between (.set p) 1 (n + 1)) ⟨prevWord, u ++ rest, caps⟩
      ⟨wordAfter A prevWord u, rest, caps⟩ := by
  obtain ⟨x, u, rfl⟩ := List.exists_cons_of_ne_nil hne
  obtain ⟨hx, hu⟩ := List.forall_mem_cons.mp hu
  exact .seq (.set hx) (upTo_set u (Nat.le_of_succ_le_succ hlen) hu hrest (A.isWord x) caps)

/-- A class read at least a number of times goes as far as the class. -/
theorem Prefers.atLeast_set {p : α → Bool} {n : ℕ} {u : List α} (hlen : n ≤ u.length)
    (hu : ∀ x ∈ u, p x) {rest : List α} (hrest : ∀ x ∈ rest.head?, p x = false) (prevWord : Bool)
    (caps : List (ℕ × List α)) : ∃ b, Prefers A (atLeast (.set p) n)
      ⟨prevWord, u ++ rest, caps⟩ ⟨b, rest, caps⟩ := by
  have hstop : rest.dropWhile p = rest := by
    cases rest with
    | nil => rfl
    | cons y rest =>
      have hy : p y = false := hrest y rfl
      rw [List.dropWhile_cons_of_neg (by rw [hy]; exact Bool.false_ne_true)]
  obtain ⟨f, hf⟩ := Prefers.times_set (A := A) (u.take n)
    (fun x hx => hu x (List.mem_of_mem_take hx)) prevWord (u.drop n ++ rest) caps
  rw [List.length_take_of_le hlen, ← List.append_assoc, List.take_append_drop] at hf
  obtain ⟨⟨b, rest', caps'⟩, hg, hgrest, hgcaps⟩ :=
    Prefers.star_set A p ⟨f, u.drop n ++ rest, caps⟩
  rw [List.dropWhile_append_of_pos fun x hx => hu x (List.mem_of_mem_drop hx), hstop] at hgrest
  obtain rfl : rest' = rest := hgrest
  obtain rfl : caps' = caps := hgcaps
  exact ⟨b, .seq hf hg⟩

/-! ### Texts without a match -/

/-- Every match has the character. -/
def Demands (x : α) : Re α → Prop
  | eps | wordB | eos | star _ _ => False
  | set p => ∀ y, p y → y = x
  | seq a b => a.Demands x ∨ b.Demands x
  | alt a b => a.Demands x ∧ b.Demands x
  | group _ a => a.Demands x

theorem Lang.mem {w : List α} {x : α} (h : Lang r w) : r.Demands x → x ∈ w := by
  induction h with
  | eps | done | more | wordB | eos => exact False.elim
  | set hp => exact fun hx => List.mem_singleton.mpr (hx _ hp).symm
  | seq _ _ iha ihb =>
    rintro (hx | hx)
    · exact List.mem_append_left _ (iha hx)
    · exact List.mem_append_right _ (ihb hx)
  | left _ iha => exact fun hx => iha hx.1
  | right _ ihb => exact fun hx => ihb hx.2
  | group _ iha => exact iha

theorem subGo_eq_self : (s : List α) → (∀ u, u <:+: s → ¬ Lang r u) → (prevWord : Bool) →
    subGo A r repl 0 prevWord s = s
  | [], _, _ => rfl
  | x :: s, h, prevWord => by
      have hnone : matchAt A r prevWord (x :: s) = none := by
        cases hm : matchAt A r prevWord (x :: s) with
        | none => rfl
        | some m =>
          obtain ⟨hlang, hfront⟩ := lang_of_matchAt hm
          exact absurd hlang (h m.text hfront.isInfix)
      have hrest : ∀ u, u <:+: s → ¬ Lang r u :=
        fun u hu => h u (hu.trans (List.suffix_cons x s).isInfix)
      rw [subGo, hnone, subGo_eq_self s hrest (A.isWord x)]

/-- A text no part of which is in the language is kept. -/
theorem sub_eq_self {s : List α} (h : ∀ u, u <:+: s → ¬ Lang r u) : sub A r repl s = s :=
  subGo_eq_self s h false

theorem sub_eq_self_of_notMem {s : List α} {x : α} (hx : r.Demands x) (h : x ∉ s) :
    sub A r repl s = s :=
  sub_eq_self fun _ hu hlang => h (hu.subset (hlang.mem hx))

theorem sub_eq_self_of_length {s : List α} (h : s.length < r.minLen) : sub A r repl s = s :=
  sub_eq_self fun u hu hlang => by
    have := hlang.minLen_le
    have := hu.length_le
    omega

/-- What becomes of a text: either it is kept, or the replacement of a match is in it. -/
theorem subGo_eq_self_or (hmin : 0 < r.minLen) : (s : List α) → (skip : ℕ) → (prevWord : Bool) →
    subGo A r repl skip prevWord s = s.drop skip ∨
      ∃ m, Lang r m.text ∧ m.text <:+: s ∧ repl m <:+: subGo A r repl skip prevWord s
  | [], skip, _ => .inl (by cases skip <;> rfl)
  | x :: s, skip + 1, prevWord => by
      rcases subGo_eq_self_or hmin s skip (A.isWord x) with h | ⟨m, hlang, hm, hin⟩
      · exact .inl h
      · exact .inr ⟨m, hlang, hm.trans (List.suffix_cons x s).isInfix, hin⟩
  | x :: s, 0, prevWord => by
      rw [subGo]
      cases hmatch : matchAt A r prevWord (x :: s) with
      | some m =>
        obtain ⟨hlang, hfront⟩ := lang_of_matchAt hmatch
        exact .inr ⟨m, hlang, hfront.isInfix, (List.prefix_append _ _).isInfix⟩
      | none =>
        rcases subGo_eq_self_or hmin s 0 (A.isWord x) with h | ⟨m, hlang, hm, hin⟩
        · exact .inl (congrArg (x :: ·) h)
        · exact .inr ⟨m, hlang, hm.trans (List.suffix_cons x s).isInfix,
            hin.trans (List.suffix_cons x _).isInfix⟩

theorem sub_eq_self_or (A : Alphabet α) (repl : Match α → List α) (hmin : 0 < r.minLen)
    (s : List α) :
    sub A r repl s = s ∨ ∃ m, Lang r m.text ∧ m.text <:+: s ∧ repl m <:+: sub A r repl s :=
  subGo_eq_self_or hmin s 0 false

/-- A character of the result is one of the text or of a replacement. -/
theorem mem_subGo {y : α} : (s : List α) → (skip : ℕ) → (prevWord : Bool) →
    y ∈ subGo A r repl skip prevWord s →
      y ∈ s ∨ ∃ m, Lang r m.text ∧ m.text <:+: s ∧ y ∈ repl m
  | [], skip, _, h => by cases skip <;> cases h
  | x :: s, skip, prevWord, h => by
      have hrest : ∀ {skip}, y ∈ subGo A r repl skip (A.isWord x) s →
          y ∈ x :: s ∨ ∃ m, Lang r m.text ∧ m.text <:+: x :: s ∧ y ∈ repl m := by
        intro skip hy
        rcases mem_subGo s skip (A.isWord x) hy with hy | ⟨m, hlang, hm, hy⟩
        · exact .inl (List.mem_cons_of_mem x hy)
        · exact .inr ⟨m, hlang, hm.trans (List.suffix_cons x s).isInfix, hy⟩
      cases skip with
      | succ skip => exact hrest h
      | zero =>
        rw [subGo] at h
        cases hmatch : matchAt A r prevWord (x :: s) with
        | some m =>
          rw [hmatch] at h
          rcases List.mem_append.mp h with hy | hy
          · obtain ⟨hlang, hfront⟩ := lang_of_matchAt hmatch
            exact .inr ⟨m, hlang, hfront.isInfix, hy⟩
          · exact hrest hy
        | none =>
          rw [hmatch] at h
          rcases List.mem_cons.mp h with rfl | hy
          · exact .inl List.mem_cons_self
          · exact hrest hy

theorem mem_sub {s : List α} {y : α} (h : y ∈ sub A r repl s) :
    y ∈ s ∨ ∃ m, Lang r m.text ∧ m.text <:+: s ∧ y ∈ repl m :=
  mem_subGo s 0 false h

/-! ### Patterns without assertions -/

/-- The pattern asks for nothing but the characters it reads. -/
def Plain : Re α → Prop
  | eps | set _ => True
  | wordB | eos => False
  | seq a b | alt a b => a.Plain ∧ b.Plain
  | star _ a | group _ a => a.Plain

theorem plain_lit [DecidableEq α] : (s : List α) → (lit s).Plain
  | [] => trivial
  | [_] => trivial
  | _ :: y :: s => ⟨trivial, plain_lit (y :: s)⟩

/-- A position without the character before it. -/
def Cursor.forget (c : Cursor α) : Cursor α := { c with prevWord := false }

theorem rest_of_forget {c d : Cursor α} (h : c.forget = d.forget) : c.rest = d.rest := by
  change c.forget.rest = d.forget.rest
  rw [h]

theorem caps_of_forget {c d : Cursor α} (h : c.forget = d.forget) : c.caps = d.caps := by
  change c.forget.caps = d.forget.caps
  rw [h]

variable {B : Alphabet α}

theorem flatMap_forget {f g : Cursor α → List (Cursor α)} {cs ds : List (Cursor α)}
    (hcs : cs.map Cursor.forget = ds.map Cursor.forget)
    (h : ∀ c d : Cursor α, c.forget = d.forget →
      (f c).map Cursor.forget = (g d).map Cursor.forget) :
    (cs.flatMap f).map Cursor.forget = (ds.flatMap g).map Cursor.forget := by
  induction cs generalizing ds with
  | nil =>
    obtain rfl := List.map_eq_nil_iff.mp hcs.symm
    rfl
  | cons c cs ih =>
    cases ds with
    | nil => cases hcs
    | cons d ds =>
      obtain ⟨hcd, hrest⟩ := List.cons.inj hcs
      rw [List.flatMap_cons, List.flatMap_cons, List.map_append, List.map_append, h c d hcd,
        ih hrest]

theorem starGo_plain (greedy : Bool) {f g : Cursor α → List (Cursor α)}
    (h : ∀ c d : Cursor α, c.forget = d.forget →
      (f c).map Cursor.forget = (g d).map Cursor.forget) :
    (fuel : ℕ) → (c d : Cursor α) → c.forget = d.forget →
      (starGo greedy f fuel c).map Cursor.forget = (starGo greedy g fuel d).map Cursor.forget
  | 0, c, d, hcd => congrArg (fun e => [e]) hcd
  | fuel + 1, c, d, hcd => by
      have hfilter : ∀ cs : List (Cursor α),
          (cs.filter fun e => e.rest.length < d.rest.length).map Cursor.forget =
            (cs.map Cursor.forget).filter fun e => e.rest.length < d.rest.length := by
        intro cs
        rw [List.filter_map]
        rfl
      have hone : ((f c).filter fun e => e.rest.length < d.rest.length).map Cursor.forget =
          ((g d).filter fun e => e.rest.length < d.rest.length).map Cursor.forget := by
        rw [hfilter, hfilter, h c d hcd]
      have hmore := flatMap_forget hone (starGo_plain greedy h fuel)
      cases greedy <;>
        simp only [starGo, rest_of_forget hcd, Bool.false_eq_true, if_true, if_false,
          List.map_append, List.map_cons, List.map_nil, hmore, hcd]

/-- The ends of a plain pattern do not depend on word characters. -/
theorem run_plain : (r : Re α) → r.Plain → (c d : Cursor α) → c.forget = d.forget →
    (run A r c).map Cursor.forget = (run B r d).map Cursor.forget
  | eps, _, c, d, hcd => congrArg (fun e => [e]) hcd
  | set p, _, c, d, hcd => by
      rw [run, run, rest_of_forget hcd, caps_of_forget hcd]
      cases d.rest with
      | nil => rfl
      | cons x xs =>
        dsimp only
        split_ifs <;> rfl
  | seq a b, h, c, d, hcd =>
      flatMap_forget (run_plain a h.1 c d hcd) (run_plain b h.2)
  | alt a b, h, c, d, hcd => by
      rw [run, run, List.map_append, List.map_append, run_plain a h.1 c d hcd,
        run_plain b h.2 c d hcd]
  | star greedy a, h, c, d, hcd => by
      rw [run, run, rest_of_forget hcd]
      exact starGo_plain greedy (run_plain a h) _ c d hcd
  | group n a, h, c, d, hcd => by
      have hgroup : ∀ (cs : List (Cursor α)) (c : Cursor α),
          (cs.map fun e => { e with caps := e.caps ++ [(n, consumed c e)] }).map Cursor.forget =
            (cs.map Cursor.forget).map
              fun e => { e with caps := e.caps ++ [(n, consumed c.forget e)] } := by
        intro cs c
        rw [List.map_map, List.map_map]
        rfl
      rw [run, run, hgroup, hgroup, run_plain a h c d hcd, hcd]

theorem matchAt_plain (hr : r.Plain) (p q : Bool) (text : List α) :
    matchAt A r p text = matchAt B r q text := by
  have h := congrArg List.head? (run_plain (A := A) (B := B) r hr ⟨p, text, []⟩ ⟨q, text, []⟩ rfl)
  rw [List.head?_map, List.head?_map] at h
  rw [matchAt, matchAt]
  have hmap : ∀ (o : Option (Cursor α)) (b : Bool),
      o.map (fun d => (⟨consumed ⟨b, text, []⟩ d, d.caps⟩ : Match α)) =
        (o.map Cursor.forget).map fun d => ⟨consumed ⟨false, text, []⟩ d, d.caps⟩ := by
    intro o b
    rw [Option.map_map]
    rfl
  rw [hmap _ p, hmap _ q, h]

/-- **The replacements of a plain pattern** do not depend on word characters. -/
theorem subGo_plain (hr : r.Plain) : (text : List α) → (skip : ℕ) → (p q : Bool) →
    subGo A r repl skip p text = subGo B r repl skip q text
  | [], skip, _, _ => by cases skip <;> rfl
  | x :: xs, skip + 1, _, _ => subGo_plain hr xs skip _ _
  | x :: xs, 0, p, q => by
      rw [subGo, subGo, matchAt_plain (B := B) hr p q]
      cases matchAt B r q (x :: xs) with
      | none => exact congrArg (x :: ·) (subGo_plain hr xs 0 _ _)
      | some m => exact congrArg (repl m ++ ·) (subGo_plain hr xs _ _ _)

end C2Engine.Python.Re
