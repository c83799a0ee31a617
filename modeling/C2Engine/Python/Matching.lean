import C2Engine.Python.Regex
import Mathlib.Data.List.Infix

/-!
# What a pattern matches

Two readings of a pattern apart from its matcher. `Re.Lang` is the set of texts a pattern can read,
`\b` and `$` left out of account, so that a match is known to be of a certain form. `Re.Prefers`
is the position the matcher takes first, with one rule for each constructor, so that the match of a
pattern in a given text can be derived.

## Main definitions

* `Re.Lang`: the texts of a pattern.
* `Re.Prefers`: the preferred end of a match.

## Main results

* `Re.lang_of_mem_findall`: what is found is a part of the text and in the language.
* `Re.group_of_mem_finditer`: where a captured group stands in the text.
* `Re.Prefers.star_set`: a greedy repetition of a class reads as far as the class goes.
-/

namespace C2Engine.Python.Re

variable {α : Type} {A : Alphabet α}

/-! ### The language of a pattern -/

/-- The texts a pattern can read. -/
inductive Lang : Re α → List α → Prop
  | eps : Lang eps []
  | set {p : α → Bool} {x : α} (h : p x) : Lang (set p) [x]
  | seq {a b : Re α} {u v : List α} (hu : Lang a u) (hv : Lang b v) : Lang (seq a b) (u ++ v)
  | left {a b : Re α} {u : List α} (hu : Lang a u) : Lang (alt a b) u
  | right {a b : Re α} {v : List α} (hv : Lang b v) : Lang (alt a b) v
  | done {greedy : Bool} {a : Re α} : Lang (star greedy a) []
  | more {greedy : Bool} {a : Re α} {u v : List α} (hu : Lang a u) (hv : Lang (star greedy a) v) :
      Lang (star greedy a) (u ++ v)
  | group {n : ℕ} {a : Re α} {u : List α} (hu : Lang a u) : Lang (group n a) u
  | wordB : Lang wordB []
  | eos : Lang eos []

/-- What is read between two positions of a match is in the language. -/
theorem lang_of_mem_run (r : Re α) {c d : Cursor α} (h : d ∈ run A r c) :
    ∃ u, Lang r u ∧ c.rest = u ++ d.rest := by
  replace h := ends_of_mem_run A r h
  induction h with
  | eps => exact ⟨[], .eps, rfl⟩
  | @set p prevWord x xs caps hp => exact ⟨[x], .set hp, rfl⟩
  | seq _ _ iha ihb =>
    obtain ⟨u, hu, hc⟩ := iha
    obtain ⟨v, hv, hd⟩ := ihb
    exact ⟨u ++ v, .seq hu hv, by rw [hc, hd, List.append_assoc]⟩
  | left _ ih =>
    obtain ⟨u, hu, hc⟩ := ih
    exact ⟨u, .left hu, hc⟩
  | right _ ih =>
    obtain ⟨u, hu, hc⟩ := ih
    exact ⟨u, .right hu, hc⟩
  | done => exact ⟨[], .done, rfl⟩
  | more _ _ iha ihb =>
    obtain ⟨u, hu, hc⟩ := iha
    obtain ⟨v, hv, hd⟩ := ihb
    exact ⟨u ++ v, .more hu hv, by rw [hc, hd, List.append_assoc]⟩
  | group _ ih =>
    obtain ⟨u, hu, hc⟩ := ih
    exact ⟨u, .group hu, hc⟩
  | wordB => exact ⟨[], .wordB, rfl⟩
  | eos => exact ⟨[], .eos, rfl⟩

theorem consumed_of_append {c d : Cursor α} {u : List α} (h : c.rest = u ++ d.rest) :
    consumed c d = u := by
  rw [consumed, h, List.length_append, Nat.add_sub_cancel]
  exact List.take_left

/-- A match is in the language and starts the text. -/
theorem lang_of_matchAt {r : Re α} {prevWord : Bool} {text : List α} {m : Match α}
    (h : matchAt A r prevWord text = some m) : Lang r m.text ∧ m.text <+: text := by
  simp only [matchAt, Option.map_eq_some_iff] at h
  obtain ⟨d, hd, rfl⟩ := h
  obtain ⟨u, hu, hc⟩ := lang_of_mem_run r (List.mem_of_head? hd)
  rw [consumed_of_append hc]
  exact ⟨hu, d.rest, hc.symm⟩

/-- A match of the scan is the preferred match at some position of the text. -/
theorem exists_matchAt_of_mem_scan {r : Re α} {m : Match α} : (text : List α) → (skip : ℕ) →
    (prevWord : Bool) → m ∈ scan A r skip prevWord text →
      ∃ b rest, rest <:+ text ∧ matchAt A r b rest = some m
  | [], skip, prevWord, h => by cases skip <;> simp [scan] at h
  | x :: xs, skip + 1, prevWord, h => by
      obtain ⟨b, rest, hrest, hmatch⟩ := exists_matchAt_of_mem_scan xs skip (A.isWord x) h
      exact ⟨b, rest, hrest.trans (List.suffix_cons x xs), hmatch⟩
  | x :: xs, 0, prevWord, h => by
      have hbehind : ∀ skip, m ∈ scan A r skip (A.isWord x) xs →
          ∃ b rest, rest <:+ x :: xs ∧ matchAt A r b rest = some m := by
        intro skip hm
        obtain ⟨b, rest, hrest, hmatch⟩ := exists_matchAt_of_mem_scan xs skip (A.isWord x) hm
        exact ⟨b, rest, hrest.trans (List.suffix_cons x xs), hmatch⟩
      rw [scan] at h
      cases hmatch : matchAt A r prevWord (x :: xs) with
      | none =>
        rw [hmatch] at h
        exact hbehind 0 h
      | some m' =>
        rw [hmatch] at h
        rcases List.mem_cons.mp h with rfl | h
        · exact ⟨prevWord, x :: xs, List.suffix_refl _, hmatch⟩
        · exact hbehind _ h

theorem lang_of_mem_scan {r : Re α} {m : Match α} (text : List α) (skip : ℕ) (prevWord : Bool)
    (h : m ∈ scan A r skip prevWord text) : Lang r m.text ∧ m.text <:+: text := by
  obtain ⟨b, rest, hrest, hmatch⟩ := exists_matchAt_of_mem_scan text skip prevWord h
  obtain ⟨hlang, hfront⟩ := lang_of_matchAt hmatch
  exact ⟨hlang, hfront.isInfix.trans hrest.isInfix⟩

/-- **What is found is in the language and a part of the text.** -/
theorem lang_of_mem_findall {r : Re α} {text u : List α} (h : u ∈ findall A r text) :
    Lang r u ∧ u <:+: text := by
  obtain ⟨m, hm, rfl⟩ := List.mem_map.mp h
  exact lang_of_mem_scan text 0 false hm

theorem lang_seq {a b : Re α} {w : List α} :
    Lang (seq a b) w ↔ ∃ u v, w = u ++ v ∧ Lang a u ∧ Lang b v := by
  constructor
  · intro h
    cases h with
    | seq hu hv => exact ⟨_, _, rfl, hu, hv⟩
  · rintro ⟨u, v, rfl, hu, hv⟩
    exact .seq hu hv

theorem lang_set {p : α → Bool} {w : List α} : Lang (set p) w ↔ ∃ x, w = [x] ∧ p x := by
  constructor
  · intro h
    cases h with
    | set hx => exact ⟨_, rfl, hx⟩
  · rintro ⟨x, rfl, hx⟩
    exact .set hx

theorem lang_alt {a b : Re α} {w : List α} : Lang (alt a b) w ↔ Lang a w ∨ Lang b w := by
  constructor
  · intro h
    cases h with
    | left hu => exact .inl hu
    | right hv => exact .inr hv
  · rintro (h | h)
    · exact .left h
    · exact .right h

theorem lang_lit [DecidableEq α] : {s w : List α} → Lang (lit s) w ↔ w = s
  | [], w => by
      constructor
      · intro h
        cases h
        rfl
      · rintro rfl
        exact .eps
  | [x], w => by simp [lit, char, lang_set]
  | x :: x' :: s, w => by
      have ih := fun w => lang_lit (s := x' :: s) (w := w)
      simp [lit, char, lang_seq, lang_set, ih]

theorem lang_group {n : ℕ} {a : Re α} {w : List α} : Lang (group n a) w ↔ Lang a w := by
  constructor
  · intro h
    cases h with
    | group hu => exact hu
  · exact .group

/-- The texts of a repetition of a class. -/
theorem lang_star_set {p : α → Bool} {greedy : Bool} {w : List α}
    (h : Lang (star greedy (set p)) w) : ∀ x ∈ w, p x := by
  generalize hr : star greedy (set p) = r at h
  induction h with
  | done => exact fun x hx => by cases hx
  | more hu _ _ ih =>
    cases hr
    obtain ⟨x, rfl, hx⟩ := lang_set.mp hu
    exact List.forall_mem_cons.mpr ⟨hx, ih rfl⟩
  | _ => cases hr

/-- The texts of `p+` for a class. -/
theorem lang_plus_set {p : α → Bool} {w : List α} (h : Lang (plus (set p)) w) :
    w ≠ [] ∧ ∀ x ∈ w, p x := by
  obtain ⟨u, v, rfl, hu, hv⟩ := lang_seq.mp h
  obtain ⟨x, rfl, hx⟩ := lang_set.mp hu
  exact ⟨List.cons_ne_nil _ _, List.forall_mem_cons.mpr ⟨hx, lang_star_set hv⟩⟩

/-- The texts of `p{n}` for a class. -/
theorem lang_times_set {p : α → Bool} : {n : ℕ} → {w : List α} → Lang (times (set p) n) w →
    w.length = n ∧ ∀ x ∈ w, p x
  | 0, w, h => by
      cases h
      exact ⟨rfl, fun x hx => by cases hx⟩
  | 1, w, h => by
      obtain ⟨x, rfl, hx⟩ := lang_set.mp h
      exact ⟨rfl, List.forall_mem_cons.mpr ⟨hx, fun x hx => by cases hx⟩⟩
  | n + 2, w, h => by
      obtain ⟨u, v, rfl, hu, hv⟩ := lang_seq.mp h
      obtain ⟨x, rfl, hx⟩ := lang_set.mp hu
      obtain ⟨hlen, hall⟩ := lang_times_set hv
      exact ⟨by rw [List.singleton_append, List.length_cons, hlen],
        List.forall_mem_cons.mpr ⟨hx, hall⟩⟩

/-- The texts of `p{n,}` for a class. -/
theorem lang_atLeast_set {p : α → Bool} {n : ℕ} {w : List α} (h : Lang (atLeast (set p) n) w) :
    n ≤ w.length ∧ ∀ x ∈ w, p x := by
  obtain ⟨u, v, rfl, hu, hv⟩ := lang_seq.mp h
  obtain ⟨hlen, hall⟩ := lang_times_set hu
  refine ⟨?_, List.forall_mem_append.mpr ⟨hall, lang_star_set hv⟩⟩
  rw [List.length_append, hlen]
  exact Nat.le_add_right _ _

theorem lang_wordB {w : List α} : Lang wordB w ↔ w = [] := by
  constructor
  · intro h
    cases h
    rfl
  · rintro rfl
    exact .wordB

theorem lang_opt {a : Re α} {w : List α} : Lang (opt a) w ↔ Lang a w ∨ w = [] := by
  constructor
  · intro h
    cases h with
    | left hu => exact .inl hu
    | right hv =>
      cases hv
      exact .inr rfl
  · rintro (h | rfl)
    · exact .left h
    · exact .right .eps

/-- The texts of `p{0,n}` for a class. -/
theorem lang_upTo_set {p : α → Bool} : {n : ℕ} → {w : List α} → Lang (upTo (set p) n) w →
    w.length ≤ n ∧ ∀ x ∈ w, p x
  | 0, w, h => by
      cases h
      exact ⟨le_rfl, fun x hx => by cases hx⟩
  | n + 1, w, h => by
      cases h with
      | left hu =>
        obtain ⟨u, v, rfl, hu, hv⟩ := lang_seq.mp hu
        obtain ⟨x, rfl, hx⟩ := lang_set.mp hu
        obtain ⟨hlen, hall⟩ := lang_upTo_set hv
        exact ⟨by rw [List.singleton_append, List.length_cons]; omega,
          List.forall_mem_cons.mpr ⟨hx, hall⟩⟩
      | right hv =>
        cases hv
        exact ⟨Nat.zero_le _, fun x hx => by cases hx⟩

/-- The texts of `p{1,n}` for a class. -/
theorem lang_between_set {p : α → Bool} {n : ℕ} {w : List α}
    (h : Lang (between (set p) 1 (n + 1)) w) : w ≠ [] ∧ w.length ≤ n + 1 ∧ ∀ x ∈ w, p x := by
  obtain ⟨u, v, rfl, hu, hv⟩ := lang_seq.mp h
  obtain ⟨x, rfl, hx⟩ := lang_set.mp hu
  obtain ⟨hlen, hall⟩ := lang_upTo_set hv
  exact ⟨List.cons_ne_nil _ _, Nat.succ_le_succ hlen, List.forall_mem_cons.mpr ⟨hx, hall⟩⟩

/-- A text of a pattern has its least length. -/
theorem Lang.minLen_le {r : Re α} {w : List α} (h : Lang r w) : r.minLen ≤ w.length := by
  induction h with
  | eps | done | more | wordB | eos => exact Nat.zero_le _
  | set => exact le_rfl
  | seq _ _ iha ihb =>
    rw [List.length_append]
    exact Nat.add_le_add iha ihb
  | left _ iha => exact (Nat.min_le_left _ _).trans iha
  | right _ ihb => exact (Nat.min_le_right _ _).trans ihb
  | group _ iha => exact iha

/-- A local pattern reads no separator. -/
theorem Lang.notMem {r : Re α} {w : List α} {sep : α} (h : Lang r w) (hlocal : r.Local sep) :
    sep ∉ w := by
  induction h with
  | eps | done | wordB | eos => exact List.not_mem_nil
  | @set p x hx =>
    rw [List.mem_singleton]
    rintro rfl
    have hp : p sep = false := hlocal
    rw [hp] at hx
    cases hx
  | seq _ _ iha ihb =>
    rw [List.mem_append, not_or]
    exact ⟨iha hlocal.1, ihb hlocal.2⟩
  | left _ iha => exact iha hlocal.1
  | right _ ihb => exact ihb hlocal.2
  | more _ _ iha ihb =>
    rw [List.mem_append, not_or]
    exact ⟨iha hlocal, ihb hlocal⟩
  | group _ iha => exact iha hlocal

/-- No text of the pattern consists of the given elements alone. -/
def avoids (xs : List α) : Re α → Bool
  | set p => xs.all fun x => !p x
  | seq a b => avoids xs a || avoids xs b
  | alt a b => avoids xs a && avoids xs b
  | group _ a => avoids xs a
  | eps | star _ _ | wordB | eos => false

theorem Lang.exists_notMem {r : Re α} {w xs : List α} (h : Lang r w) (havoids : r.avoids xs) :
    ∃ x ∈ w, x ∉ xs := by
  induction h with
  | eps | done | more | wordB | eos => cases havoids
  | @set p x hx =>
    refine ⟨x, List.mem_singleton_self x, fun hmem => ?_⟩
    have hnot := List.all_eq_true.mp havoids x hmem
    rw [hx] at hnot
    cases hnot
  | seq _ _ iha ihb =>
    rcases Bool.or_eq_true_iff.mp havoids with ha | hb
    · obtain ⟨x, hx, hnot⟩ := iha ha
      exact ⟨x, List.mem_append_left _ hx, hnot⟩
    · obtain ⟨x, hx, hnot⟩ := ihb hb
      exact ⟨x, List.mem_append_right _ hx, hnot⟩
  | left _ iha => exact iha (Bool.and_eq_true_iff.mp havoids).1
  | right _ ihb => exact ihb (Bool.and_eq_true_iff.mp havoids).2
  | group _ iha => exact iha havoids

/-- Nothing is found in a text of elements that the pattern avoids. -/
theorem finditer_eq_nil {r : Re α} {text xs : List α} (havoids : r.avoids xs)
    (htext : ∀ x ∈ text, x ∈ xs) : finditer A r text = [] := by
  refine List.eq_nil_iff_forall_not_mem.mpr fun m hm => ?_
  obtain ⟨hlang, hpart⟩ := lang_of_mem_scan text 0 false hm
  obtain ⟨x, hx, hnot⟩ := hlang.exists_notMem havoids
  exact hnot (htext x (hpart.subset hx))

/-! ### Groups -/

/-- A pattern without groups. -/
def GroupFree : Re α → Prop
  | eps | set _ | wordB | eos => True
  | seq a b | alt a b => a.GroupFree ∧ b.GroupFree
  | star _ a => a.GroupFree
  | group _ _ => False

/-- A pattern without groups captures nothing. -/
theorem caps_of_mem_run (r : Re α) (hfree : r.GroupFree) {c d : Cursor α} (h : d ∈ run A r c) :
    d.caps = c.caps := by
  replace h := ends_of_mem_run A r h
  induction h with
  | eps | set | done | wordB | eos => rfl
  | seq _ _ iha ihb => rw [ihb hfree.2, iha hfree.1]
  | left _ ih => exact ih hfree.1
  | right _ ih => exact ih hfree.2
  | more _ _ iha ihb => rw [ihb hfree, iha hfree]
  | group => exact absurd hfree id

/-- **A captured group** stands in the text between what the pattern reads before and behind
it. -/
theorem group_of_mem_finditer {a b e : Re α} {n : ℕ} (he : e.GroupFree) {text g : List α}
    {m : Match α} (h : m ∈ finditer A (seq a (seq (group n b) e)) text) (hg : m.group n = some g) :
    ∃ u v, u ++ g ++ v <:+: text ∧ Lang a u ∧ Lang b g ∧ Lang e v := by
  obtain ⟨prevWord, rest, hrest, hmatch⟩ := exists_matchAt_of_mem_scan text 0 false h
  simp only [matchAt, Option.map_eq_some_iff] at hmatch
  obtain ⟨d, hd, rfl⟩ := hmatch
  obtain ⟨c₁, ha, hd⟩ := List.mem_flatMap.mp (List.mem_of_head? hd)
  obtain ⟨c₂, hgroup, hend⟩ := List.mem_flatMap.mp hd
  obtain ⟨c₂', hb, rfl⟩ := List.mem_map.mp hgroup
  obtain ⟨u, hu, hc₁⟩ := lang_of_mem_run a ha
  obtain ⟨w, hw, hc₂⟩ := lang_of_mem_run b hb
  obtain ⟨v, hv, hd'⟩ := lang_of_mem_run e hend
  obtain rfl : w = g := by
    have hcaps := caps_of_mem_run e he hend
    simpa [Match.group, hcaps, consumed_of_append hc₂] using hg
  refine ⟨u, v, ?_, hu, hw, hv⟩
  refine List.IsInfix.trans ⟨[], d.rest, ?_⟩ hrest.isInfix
  change rest = _ at hc₁
  change c₂'.rest = _ at hd'
  rw [hc₁, hc₂, hd']
  simp

/-! ### The preferred match -/

/-- The position the matcher takes first. -/
def Prefers (A : Alphabet α) (r : Re α) (c d : Cursor α) : Prop := (run A r c).head? = some d

namespace Prefers

variable {a b : Re α} {c d e : Cursor α}

theorem seq (ha : Prefers A a c d) (hb : Prefers A b d e) : Prefers A (seq a b) c e := by
  obtain ⟨ds, hds⟩ := List.head?_eq_some_iff.mp ha
  rw [Prefers, run, hds, List.flatMap_cons, List.head?_append, hb]
  rfl

theorem left (ha : Prefers A a c d) : Prefers A (alt a b) c d := by
  rw [Prefers, run, List.head?_append, ha]
  rfl

theorem right (ha : run A a c = []) (hb : Prefers A b c d) : Prefers A (alt a b) c d := by
  rw [Prefers, run, ha]
  exact hb

theorem eps (c : Cursor α) : Prefers A eps c c := rfl

theorem set {p : α → Bool} {prevWord : Bool} {x : α} {xs : List α} {caps : List (ℕ × List α)}
    (h : p x) : Prefers A (set p) ⟨prevWord, x :: xs, caps⟩ ⟨A.isWord x, xs, caps⟩ := by
  simp [Prefers, run, h]

theorem wordB (h : c.prevWord ≠ c.rest.head?.any A.isWord) : Prefers A wordB c c := by
  simp [Prefers, run, h]

theorem group {n : ℕ} (ha : Prefers A a c d) :
    Prefers A (group n a) c { d with caps := d.caps ++ [(n, consumed c d)] } := by
  obtain ⟨ds, hds⟩ := List.head?_eq_some_iff.mp ha
  rw [Prefers, run, hds]
  rfl

/-- A class read a given number of times. -/
theorem times_set {p : α → Bool} : (u : List α) → (∀ x ∈ u, p x) → (prevWord : Bool) →
    (rest : List α) → (caps : List (ℕ × List α)) →
      ∃ b, Prefers A (times (.set p) u.length) ⟨prevWord, u ++ rest, caps⟩ ⟨b, rest, caps⟩
  | [], _, prevWord, rest, caps => ⟨prevWord, .eps _⟩
  | [x], h, prevWord, rest, caps => ⟨A.isWord x, .set (h x List.mem_cons_self)⟩
  | x :: x' :: u, h, prevWord, rest, caps => by
      obtain ⟨hx, hu⟩ := List.forall_mem_cons.mp h
      obtain ⟨b, hb⟩ := times_set (x' :: u) hu (A.isWord x) rest caps
      exact ⟨b, .seq (.set hx) hb⟩

/-- **A greedy repetition of a class** reads as far as the class goes. -/
theorem star_set (A : Alphabet α) (p : α → Bool) (c : Cursor α) :
    ∃ d, Prefers A (star true (.set p)) c d ∧ d.rest = c.rest.dropWhile p ∧ d.caps = c.caps := by
  have hgo : (xs : List α) → (prevWord : Bool) → ∃ d,
      (starGo true (run A (.set p)) xs.length ⟨prevWord, xs, c.caps⟩).head? = some d ∧
        d.rest = xs.dropWhile p ∧ d.caps = c.caps := by
    intro xs
    induction xs with
    | nil => exact fun prevWord => ⟨⟨prevWord, [], c.caps⟩, rfl, rfl, rfl⟩
    | cons x xs ih =>
      intro prevWord
      by_cases hp : p x
      · obtain ⟨d, hd, hrest, hcaps⟩ := ih (A.isWord x)
        refine ⟨d, ?_, by rw [hrest, List.dropWhile_cons_of_pos hp], hcaps⟩
        have hone : run A (.set p) ⟨prevWord, x :: xs, c.caps⟩ =
            [⟨A.isWord x, xs, c.caps⟩] := by
          simp [run, hp]
        rw [List.length_cons, starGo, hone]
        simp [hd]
      · have hnone : run A (.set p) ⟨prevWord, x :: xs, c.caps⟩ = [] := by
          simp [run, hp]
        refine ⟨⟨prevWord, x :: xs, c.caps⟩, ?_, by rw [List.dropWhile_cons_of_neg hp], rfl⟩
        rw [List.length_cons, starGo, hnone]
        rfl
  exact hgo c.rest c.prevWord

end Prefers

/-- The first match of a text that a pattern matches at its start. -/
theorem findall_of_prefers {r : Re α} {x : α} {xs : List α} {d : Cursor α}
    (h : Prefers A r ⟨false, x :: xs, []⟩ d) :
    ∃ us, findall A r (x :: xs) = consumed ⟨false, x :: xs, []⟩ d :: us := by
  have hmatch : matchAt A r false (x :: xs) = some ⟨consumed ⟨false, x :: xs, []⟩ d, d.caps⟩ := by
    rw [matchAt, h]
    rfl
  rw [findall, finditer, scan, hmatch]
  exact ⟨_, rfl⟩

/-- A given text is read where it stands. -/
theorem run_lit [DecidableEq α] (A : Alphabet α) : (s : List α) → (prevWord : Bool) →
    (text : List α) → (caps : List (ℕ × List α)) → run A (lit s) ⟨prevWord, text, caps⟩ =
      if s.isPrefixOf text then
        [⟨s.foldl (fun _ x => A.isWord x) prevWord, text.drop s.length, caps⟩]
      else []
  | [], prevWord, text, caps => by simp [lit, run]
  | [x], prevWord, [], caps => by simp [lit, char, run]
  | [x], prevWord, y :: text, caps => by
      by_cases h : x = y
      · subst h
        simp [lit, char, run]
      · simp [lit, char, run, h, Ne.symm h]
  | x :: x' :: s, prevWord, [], caps => by simp [lit, char, run]
  | x :: x' :: s, prevWord, y :: text, caps => by
      have ih := run_lit A (x' :: s) (A.isWord y) text caps
      by_cases h : x = y
      · subst h
        simp [lit, char, run, ih]
      · simp [lit, char, run, h, Ne.symm h]

/-! ### Texts ignoring case -/

/-- The cursor behind a text. -/
def Cursor.skip (A : Alphabet α) (c : Cursor α) (u rest : List α) : Cursor α :=
  ⟨u.foldl (fun _ x => A.isWord x) c.prevWord, rest, c.caps⟩

/-- A text is read whatever its case. -/
theorem run_litI {A : Alphabet CodePoint} {rest : PyStr} : (s u : PyStr) → (c : Cursor CodePoint) →
    u.map CodePoint.asciiLower = s → c.rest = u ++ rest →
      run A (litI s) c = [c.skip A u rest]
  | [], u, c, hu, hc => by
      obtain rfl := List.map_eq_nil_iff.mp hu
      obtain ⟨prevWord, _, caps⟩ := c
      obtain rfl : _ = rest := hc
      rfl
  | [x], u, c, hu, hc => by
      obtain ⟨y, t, rfl, rfl, ht⟩ := List.map_eq_cons_iff.mp hu
      obtain rfl := List.map_eq_nil_iff.mp ht
      obtain ⟨prevWord, _, caps⟩ := c
      obtain rfl : _ = y :: rest := hc
      simp [litI, cat, run, foldsTo, Cursor.skip]
  | x :: x' :: s, u, c, hu, hc => by
      obtain ⟨y, t, rfl, rfl, ht⟩ := List.map_eq_cons_iff.mp hu
      obtain ⟨prevWord, _, caps⟩ := c
      obtain rfl : _ = y :: (t ++ rest) := hc
      have ih := run_litI (A := A) (x' :: s) t ⟨A.isWord y, t ++ rest, caps⟩ ht rfl
      rw [litI, List.map_cons] at ih
      simp only [litI, List.map_cons, cat, run, foldsTo, beq_self_eq_true, Bool.true_or, if_true,
        List.flatMap_cons, List.flatMap_nil, List.append_nil]
      rw [ih]
      rfl

/-- A text is not read where its first character does not fit. -/
theorem run_litI_of_not {A : Alphabet CodePoint} {x y : CodePoint} {s : PyStr} (rest : PyStr)
    {c : Cursor CodePoint} (h : foldsTo x y = false) (hc : c.rest = y :: rest) :
    run A (litI (x :: s)) c = [] := by
  cases s <;> simp [litI, cat, run, hc, h]

end C2Engine.Python.Re
