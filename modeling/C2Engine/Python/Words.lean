import C2Engine.Python.Substitution
import C2Engine.Python.Join
import C2Engine.Python.Split

/-!
# Words

The words of a text, between white space. Joined with spaces they are the text with its white space
normalised, which is how `re.sub(r"\s+", " ", s).strip()` reads it. A pattern that reads no white
space replaces in a text what it replaces in each of its words.

## Main definitions

* `PyStr.Solid`: a text without white space.

## Main results

* `PyStr.words_append_cons`, `PyStr.words_solid`: the words of a text.
* `PyStr.words_join`: the words of joined words.
* `Re.words_sub`: replacing in a text is replacing in its words.
* `strip_sub_space`: normalising the white space of a text.
-/

namespace C2Engine.Python

theorem Unicode.lower_nil (uni : Unicode) : uni.lower [] = [] := uni.lower_ascii [] rfl

theorem Unicode.lower_ne_nil (uni : Unicode) {s : PyStr} (h : s ≠ []) : uni.lower s ≠ [] := by
  intro hnil
  have hascii := uni.lower_eq_ascii s (by rw [hnil]; rfl)
  rw [hnil] at hascii
  exact h (List.map_eq_nil_iff.mp hascii.symm)

namespace PyStr

/-- A text without white space. -/
def Solid (s : PyStr) : Prop := ∀ c ∈ s, c.isSpace = false

instance (s : PyStr) : Decidable (Solid s) :=
  decidable_of_iff (s.all fun c => !c.isSpace) (by simp [Solid])

theorem solid_nil : Solid [] := nofun

theorem Solid.append {s t : PyStr} (hs : Solid s) (ht : Solid t) : Solid (s ++ t) :=
  List.forall_mem_append.mpr ⟨hs, ht⟩

theorem Solid.sublist {s t : PyStr} (h : Solid t) (hst : s.Sublist t) : Solid s :=
  fun c hc => h c (hst.subset hc)

/-- A text is free of white space or has a first piece of it. -/
theorem solid_or_split (s : PyStr) :
    Solid s ∨ ∃ w c t, s = w ++ c :: t ∧ Solid w ∧ c.isSpace := by
  induction s with
  | nil => exact .inl solid_nil
  | cons x s ih =>
    cases hx : x.isSpace with
    | true => exact .inr ⟨[], x, s, rfl, solid_nil, hx⟩
    | false =>
      rcases ih with h | ⟨w, c, t, rfl, hw, hc⟩
      · exact .inl (List.forall_mem_cons.mpr ⟨hx, h⟩)
      · exact .inr ⟨x :: w, c, t, rfl, List.forall_mem_cons.mpr ⟨hx, hw⟩, hc⟩

/-- A text is its first word, if it starts with one, and the rest from its white space on. -/
theorem exists_solid_append (s : PyStr) :
    ∃ v t, s = v ++ t ∧ Solid v ∧ ∀ c ∈ t.head?, c.isSpace := by
  rcases solid_or_split s with hs | ⟨w, c, t, rfl, hw, hc⟩
  · exact ⟨s, [], (List.append_nil s).symm, hs, nofun⟩
  · refine ⟨w, c :: t, rfl, hw, ?_⟩
    rintro x ⟨⟩
    exact hc

/-- The first word of a text is the text up to its white space. -/
theorem Solid.append_inj : {v w : PyStr} → Solid v → Solid w → {s t : PyStr} →
    (∀ c ∈ s.head?, c.isSpace) → (∀ c ∈ t.head?, c.isSpace) → v ++ s = w ++ t → v = w ∧ s = t
  | [], [], _, _, _, _, _, _, h => ⟨rfl, h⟩
  | [], y :: w, _, hw, s, t, hs, _, h => by
      obtain rfl : s = y :: (w ++ t) := h
      have hy := hs y rfl
      rw [hw y List.mem_cons_self] at hy
      cases hy
  | x :: v, [], hv, _, s, t, _, ht, h => by
      obtain rfl : x :: (v ++ s) = t := h
      have hx := ht x rfl
      rw [hv x List.mem_cons_self] at hx
      cases hx
  | x :: v, y :: w, hv, hw, s, t, hs, ht, h => by
      obtain ⟨rfl, htail⟩ := List.cons.inj h
      obtain ⟨rfl, rfl⟩ := append_inj (List.forall_mem_cons.mp hv).2 (List.forall_mem_cons.mp hw).2
        hs ht htail
      exact ⟨rfl, rfl⟩

/-! ### The words of a text -/

@[simp] theorem words_nil : words [] = [] := rfl

theorem words_append_cons {c : CodePoint} (hc : c.isSpace) (s t : PyStr) :
    words (s ++ c :: t) = words s ++ words t := by
  rw [words, List.splitOnP_append_cons s t hc, List.filter_append]
  rfl

theorem words_cons {c : CodePoint} (hc : c.isSpace) (t : PyStr) : words (c :: t) = words t :=
  words_append_cons hc [] t

theorem words_solid {w : PyStr} (hw : Solid w) (hne : w ≠ []) : words w = [w] := by
  rw [words, List.splitOnP_eq_singleton hw]
  simp [hne]

theorem words_space_append {r : PyStr} (hr : ∀ c ∈ r, c.isSpace) (s : PyStr) :
    words (r ++ s) = words s := by
  induction r with
  | nil => rfl
  | cons c r ih =>
    obtain ⟨hc, hr⟩ := List.forall_mem_cons.mp hr
    rw [List.cons_append, words_cons hc, ih hr]

/-- A word that ends before white space is the first. -/
theorem words_solid_append_cons {w : PyStr} (hw : Solid w) (hne : w ≠ []) {c : CodePoint}
    (hc : c.isSpace) (t : PyStr) : words (w ++ c :: t) = w :: words t := by
  rw [words_append_cons hc, words_solid hw hne, List.singleton_append]

theorem words_append {v t : PyStr} (ht : ∀ c ∈ t.head?, c.isSpace) :
    words (v ++ t) = words v ++ words t := by
  cases t with
  | nil => rw [List.append_nil, words_nil, List.append_nil]
  | cons c t => rw [words_append_cons (ht c rfl), words_cons (ht c rfl)]

theorem solid_of_mem_words {s w : PyStr} (h : w ∈ words s) : Solid w ∧ w ≠ [] := by
  obtain ⟨hmem, hne⟩ := List.mem_filter.mp h
  exact ⟨notMem_of_mem_splitOnP hmem, by simpa using hne⟩

/-- A text of nothing but white space has no words. -/
theorem words_eq_nil {s : PyStr} : words s = [] ↔ ∀ c ∈ s, c.isSpace := by
  induction s with
  | nil => exact iff_of_true rfl nofun
  | cons x s ih =>
    rw [List.forall_mem_cons]
    cases hx : x.isSpace with
    | true => rw [words_cons hx, ih, and_iff_right rfl]
    | false =>
      refine iff_of_false (fun h => ?_) fun h => absurd h.1 Bool.false_ne_true
      rcases solid_or_split (x :: s) with hs | ⟨v, c, t, heq, hv, hc⟩
      · rw [words_solid hs (List.cons_ne_nil x s)] at h
        cases h
      · have hne : v ≠ [] := by
          rintro rfl
          obtain ⟨rfl, -⟩ := List.cons.inj heq
          rw [hx] at hc
          cases hc
        rw [heq, words_solid_append_cons hv hne hc] at h
        cases h

/-- The words of joined words. -/
theorem words_join {c : CodePoint} (hc : c.isSpace) : {ws : List PyStr} →
    (∀ w ∈ ws, Solid w ∧ w ≠ []) → words (join [c] ws) = ws
  | [], _ => rfl
  | [w], h => words_solid (h w (List.mem_singleton_self w)).1 (h w (List.mem_singleton_self w)).2
  | w :: v :: ws, h => by
      obtain ⟨⟨hw, hne⟩, hrest⟩ := List.forall_mem_cons.mp h
      rw [join_cons_cons, List.append_assoc, List.singleton_append,
        words_solid_append_cons hw hne hc, words_join hc hrest]

/-- The case of joined texts. -/
theorem lower_join (uni : Unicode) {c : CodePoint} (hc : c.isSpace) : (ws : List PyStr) →
    ws ≠ [] → uni.lower (join [c] ws) = join [c] (ws.map uni.lower)
  | [w], _ => rfl
  | w :: v :: ws, _ => by
      have ih := lower_join uni hc (v :: ws) (List.cons_ne_nil v ws)
      rw [List.map_cons] at ih
      rw [join_cons_cons, List.append_assoc, List.singleton_append, uni.lower_space w _ c hc, ih,
        List.map_cons, List.map_cons, join_cons_cons, List.append_assoc, List.singleton_append]

end PyStr

open PyStr

namespace Re

variable {A : Alphabet CodePoint} {r : Re CodePoint} {repl : Match CodePoint → PyStr}

/-- No replacement of a match without white space is empty or has white space. -/
def KeepsSolid (r : Re CodePoint) (repl : Match CodePoint → PyStr) : Prop :=
  ∀ m : Match CodePoint, Lang r m.text → Solid m.text → Solid (repl m) ∧ repl m ≠ []

theorem solid_sub (h : KeepsSolid r repl) {w : PyStr} (hw : Solid w) : Solid (sub A r repl w) := by
  intro c hc
  rcases mem_sub hc with hc | ⟨m, hlang, hm, hc⟩
  · exact hw c hc
  · exact (h m hlang (hw.sublist hm.sublist)).1 c hc

theorem sub_ne_nil (hmin : 0 < r.minLen) (h : KeepsSolid r repl) {w : PyStr} (hw : Solid w)
    (hne : w ≠ []) : sub A r repl w ≠ [] := by
  rcases sub_eq_self_or A repl hmin w with heq | ⟨m, hlang, hm, hin⟩
  · rw [heq]
    exact hne
  · intro hnil
    rw [hnil, List.infix_nil] at hin
    exact (h m hlang (hw.sublist hm.sublist)).2 hin

/-- **Replacing in a text is replacing in its words**, for a pattern that reads no white space. -/
theorem words_sub (hsep : ∀ c : CodePoint, c.isSpace → A.isWord c = false)
    (hr : ∀ c : CodePoint, c.isSpace → r.Local c) (hmin : 0 < r.minLen) (h : KeepsSolid r repl)
    (s : PyStr) : words (sub A r repl s) = (words s).map (sub A r repl) := by
  have hsolid : ∀ {w : PyStr}, Solid w → words (sub A r repl w) = (words w).map (sub A r repl) := by
    intro w hw
    rcases eq_or_ne w [] with rfl | hne
    · rfl
    · rw [words_solid hw hne, words_solid (solid_sub h hw) (sub_ne_nil hmin h hw hne)]
      rfl
  generalize hn : s.length = n
  induction n using Nat.strong_induction_on generalizing s with
  | _ n ih =>
    rcases solid_or_split s with hs | ⟨w, c, t, rfl, hw, hc⟩
    · exact hsolid hs
    · have hlt : t.length < n := by
        rw [← hn, List.length_append, List.length_cons]
        omega
      rw [sub_append (hsep c hc) (hr c hc) hmin, words_append_cons hc, words_append_cons hc,
        List.map_append, hsolid hw, ih t.length hlt t rfl]

end Re

/-! ### Normalised white space -/

/-- The text with a space for each piece of white space, scanned from some place on. -/
def squeezeFrom (A : Alphabet CodePoint) (prevWord : Bool) (s : PyStr) : PyStr :=
  Re.subGo A (.plus .space) (fun _ => [cp ' ']) 0 prevWord s

theorem reads_space {c : CodePoint} (hc : c.isSpace = false) :
    (Re.plus Re.space).reads c = false := by
  simp [Re.plus, Re.space, Re.reads, Re.minLen, hc]

theorem squeezeFrom_solid (A : Alphabet CodePoint) (prevWord : Bool) {w : PyStr} (hw : Solid w) :
    squeezeFrom A prevWord w = w := by
  have h := Re.subGo_append_of_reads (A := A) (by decide) (fun _ => [cp ' ']) [] w
    (fun c hc => reads_space (hw c hc)) prevWord
  rwa [List.append_nil, Re.subGo, List.append_nil] at h

/-- A piece of white space is read to its end. -/
theorem squeezeFrom_cons (A : Alphabet CodePoint) (prevWord : Bool) {c : CodePoint}
    (hc : c.isSpace) (s : PyStr) : ∃ b, squeezeFrom A prevWord (c :: s) =
      cp ' ' :: squeezeFrom A b (s.dropWhile CodePoint.isSpace) := by
  obtain ⟨d, hd, hrest, -⟩ := Re.Prefers.star_set A CodePoint.isSpace ⟨A.isWord c, s, []⟩
  have hpref : Re.Prefers A (.plus .space) ⟨prevWord, c :: s, []⟩ d := .seq (.set hc) hd
  have hconsumed : Re.consumed ⟨prevWord, c :: s, []⟩ d =
      c :: s.takeWhile CodePoint.isSpace := by
    refine Re.consumed_of_append ?_
    rw [hrest, List.cons_append, List.takeWhile_append_dropWhile]
  have hmatch : Re.matchAt A (.plus .space) prevWord (c :: s) =
      some ⟨c :: s.takeWhile CodePoint.isSpace, d.caps⟩ := by
    rw [Re.matchAt, hpref, Option.map_some, hconsumed]
  have hskip := Re.subGo_drop A (.plus .space) (fun _ => [cp ' '])
    (s.dropWhile CodePoint.isSpace) (s.takeWhile CodePoint.isSpace) (A.isWord c)
  rw [List.takeWhile_append_dropWhile] at hskip
  refine ⟨Re.wordAfter A (A.isWord c) (s.takeWhile CodePoint.isSpace), ?_⟩
  rw [squeezeFrom, Re.subGo, hmatch]
  exact congrArg (cp ' ' :: ·) hskip

theorem squeezeFrom_append (A : Alphabet CodePoint) (prevWord : Bool) {w : PyStr} (hw : Solid w)
    (t : PyStr) : squeezeFrom A prevWord (w ++ t) =
      w ++ squeezeFrom A (Re.wordAfter A prevWord w) t :=
  Re.subGo_append_of_reads (by decide) _ t w (fun c hc => reads_space (hw c hc)) prevWord

theorem words_dropWhile (s : PyStr) : words (s.dropWhile CodePoint.isSpace) = words s := by
  induction s with
  | nil => rfl
  | cons c s ih =>
    cases hc : c.isSpace with
    | true => rw [List.dropWhile_cons_of_pos hc, ih, words_cons hc]
    | false => rw [List.dropWhile_cons_of_neg (by rw [hc]; exact Bool.false_ne_true)]

/-- White space in front is dropped, and nothing behind it. -/
theorem dropWhile_space_append {r s : PyStr} (hr : ∀ c ∈ r, c.isSpace)
    (hs : ∀ c ∈ s.head?, c.isSpace = false) : (r ++ s).dropWhile CodePoint.isSpace = s := by
  rw [List.dropWhile_append_of_pos hr]
  cases s with
  | nil => rfl
  | cons c s => rw [List.dropWhile_cons_of_neg (by rw [hs c rfl]; exact Bool.false_ne_true)]

theorem head?_dropWhile_space (s : PyStr) :
    ∀ c ∈ (s.dropWhile CodePoint.isSpace).head?, c.isSpace = false := by
  intro c hc
  have h := List.head?_dropWhile_not CodePoint.isSpace s
  rw [hc] at h
  exact h

/-- A text that does not start with white space still does not. -/
theorem lstrip_squeezeFrom (A : Alphabet CodePoint) (prevWord : Bool) (s : PyStr)
    (hs : ∀ c ∈ s.head?, c.isSpace = false) :
    lstrip CodePoint.isSpace (squeezeFrom A prevWord s) = squeezeFrom A prevWord s := by
  cases s with
  | nil => rfl
  | cons c s =>
    have hc : c.isSpace = false := hs c rfl
    have hsq := squeezeFrom_append A prevWord (w := [c]) (by simpa [Solid] using hc) s
    rw [List.singleton_append, List.singleton_append] at hsq
    rw [hsq, lstrip, List.dropWhile_cons_of_neg (by rw [hc]; exact Bool.false_ne_true)]

/-- `rstrip` keeps what is before a text it does not remove. -/
theorem rstrip_append_of_ne_nil {p : CodePoint → Bool} {s t : PyStr} (h : rstrip p t ≠ []) :
    rstrip p (s ++ t) = s ++ rstrip p t := by
  have hne : ¬ (t.reverse.dropWhile p).isEmpty := by
    rw [List.isEmpty_iff]
    exact fun hnil => h (by rw [rstrip, List.rdropWhile, hnil, List.reverse_nil])
  rw [rstrip, rstrip, List.rdropWhile, List.reverse_append, List.dropWhile_append, if_neg hne,
    List.reverse_append, List.reverse_reverse]
  rfl

theorem rstrip_solid {w : PyStr} (hw : Solid w) : rstrip CodePoint.isSpace w = w :=
  List.rdropWhile_eq_self_iff.mpr fun hne => by
    rw [hw _ (List.getLast_mem hne)]
    exact Bool.false_ne_true

theorem strip_solid {w : PyStr} (hw : Solid w) : strip w = w := by
  have hl : lstrip CodePoint.isSpace w = w := by
    cases w with
    | nil => rfl
    | cons c w => exact List.dropWhile_cons_of_neg (by simp [hw c List.mem_cons_self])
  rw [strip, hl, rstrip_solid hw]

/-- A text that does not start with white space, without the white space at its end. -/
theorem rstrip_squeezeFrom (A : Alphabet CodePoint) (prevWord : Bool) (s : PyStr)
    (hs : ∀ c ∈ s.head?, c.isSpace = false) :
    rstrip CodePoint.isSpace (squeezeFrom A prevWord s) = join [cp ' '] (words s) := by
  generalize hn : s.length = n
  induction n using Nat.strong_induction_on generalizing s prevWord with
  | _ n ih =>
    rcases solid_or_split s with hsolid | ⟨w, c, t, rfl, hw, hc⟩
    · rw [squeezeFrom_solid A prevWord hsolid, rstrip_solid hsolid]
      rcases eq_or_ne s [] with rfl | hne
      · rfl
      · rw [words_solid hsolid hne, join_singleton]
    · have hne : w ≠ [] := by
        rintro rfl
        rw [hs c rfl] at hc
        cases hc
      obtain ⟨b, hsq⟩ := squeezeFrom_cons A (Re.wordAfter A prevWord w) hc t
      rw [squeezeFrom_append A prevWord hw, hsq, words_solid_append_cons hw hne hc,
        ← words_dropWhile t]
      have hhead := head?_dropWhile_space t
      have hlt : (t.dropWhile CodePoint.isSpace).length < n := by
        have := (List.dropWhile_suffix CodePoint.isSpace (l := t)).length_le
        rw [← hn, List.length_append, List.length_cons]
        omega
      have hrest := ih _ hlt b (t.dropWhile CodePoint.isSpace) hhead rfl
      generalize t.dropWhile CodePoint.isSpace = u at hrest hhead
      cases u with
      | nil =>
        change rstrip CodePoint.isSpace (w ++ [cp ' ']) = w
        rw [rstrip, List.rdropWhile_concat_pos _ _ _ (by decide)]
        exact rstrip_solid hw
      | cons x u =>
        have hx : x.isSpace = false := hhead x rfl
        have hwords : words (x :: u) ≠ [] := by
          intro hnil
          have := words_eq_nil.mp hnil x List.mem_cons_self
          rw [hx] at this
          cases this
        have hjoin : join [cp ' '] (words (x :: u)) ≠ [] := by
          intro hnil
          rcases join_eq_nil hnil with h | h
          · exact hwords h
          · exact (solid_of_mem_words (h ▸ List.mem_singleton_self [])).2 rfl
        rw [← List.singleton_append, ← List.append_assoc,
          rstrip_append_of_ne_nil (by rw [hrest]; exact hjoin), hrest]
        cases hws : words (x :: u) with
        | nil => exact absurd hws hwords
        | cons v ws => rw [join_cons_cons]

/-- **Normalised white space.** A space for each piece of white space, and none at the ends, gives
the words of a text joined with spaces. -/
theorem strip_sub_space (A : Alphabet CodePoint) (s : PyStr) :
    strip (Re.sub A (.plus .space) (fun _ => [cp ' ']) s) = join [cp ' '] (words s) := by
  change rstrip _ (lstrip _ (squeezeFrom A false s)) = _
  cases s with
  | nil => rfl
  | cons c s =>
    cases hc : c.isSpace with
    | false =>
      have hhead : ∀ x ∈ (c :: s).head?, x.isSpace = false := by
        rintro x ⟨⟩
        exact hc
      rw [lstrip_squeezeFrom A false _ hhead, rstrip_squeezeFrom A false _ hhead]
    | true =>
      obtain ⟨b, hsq⟩ := squeezeFrom_cons A false hc s
      have hhead := head?_dropWhile_space s
      have hspace : (cp ' ').isSpace := by decide
      rw [hsq, lstrip, List.dropWhile_cons_of_pos hspace, ← lstrip,
        lstrip_squeezeFrom A b _ hhead, rstrip_squeezeFrom A b _ hhead, words_dropWhile,
        words_cons hc]

end C2Engine.Python
