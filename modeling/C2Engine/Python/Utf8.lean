import C2Engine.Python.Codec

/-!
# The round trips of UTF-8

Bytes that are decoded with the error handler `surrogateescape` and encoded with it again come back
as they were, whether they are UTF-8 or not. A text that can be encoded is decoded as it was. Where
the bytes of a text are cut off anywhere, the handler `ignore` drops the character that was cut, and
nothing else.

## Main results

* `utf8First_eq_some`: the first character of a text, encoded, is the bytes it was decoded from.
* `utf8EncodeEscape_utf8DecodeEscape`: the round trip of bytes.
* `utf8Decode_of_utf8Encode`, `utf8Encode_of_utf8Decode`: the round trip of texts.
* `utf8Go_take`: what is decoded of a text that is cut off.
-/

namespace C2Engine.Python

theorem tailBits_eq_some {b : UInt8} {lo hi m : ℕ} :
    tailBits b lo hi = some m ↔ (lo ≤ b.toNat ∧ b.toNat ≤ hi) ∧ b.toNat - 0x80 = m := by
  rw [tailBits, Option.ite_none_right_eq_some, Option.some.injEq]

theorem codePoint?_eq_some {n : ℕ} {c : CodePoint} : codePoint? n = some c ↔ c.val = n := by
  rw [codePoint?]
  split_ifs with h
  · rw [Option.some.injEq, Fin.ext_iff, eq_comm]
  · exact iff_of_false (fun heq => by cases heq) fun heq => h (heq ▸ c.isLt)

/-- Bytes by their numbers. -/
theorem map_ofNat_eq {l : List ℕ} {bs : Bytes} (h : l = bs.map UInt8.toNat) :
    l.map UInt8.ofNat = bs := by
  rw [h, List.map_map]
  exact (List.map_congr_left fun b _ => UInt8.ofNat_toNat).trans (List.map_id bs)

/-- **The first character of a text**, encoded, is the bytes it was decoded from; it is no
surrogate. -/
theorem utf8First_eq_some {data : Bytes} {c : CodePoint} {n : ℕ}
    (h : utf8First data = some (c, n)) :
    c.isSurrogate = false ∧ ∃ rest, data = utf8EncodeChar c ++ rest ∧
      (utf8EncodeChar c).length = n := by
  have hsurrogate : ∀ {c : CodePoint}, c.val < 0xD800 ∨ 0xDFFF < c.val → c.isSurrogate = false := by
    intro c hc
    rw [CodePoint.isSurrogate, Bool.and_eq_false_iff, decide_eq_false_iff_not,
      decide_eq_false_iff_not]
    omega
  have hbytes : ∀ {l : List ℕ} (bs rest : Bytes) {n : ℕ}, l = bs.map UInt8.toNat →
      bs.length = n → ∃ rest', bs ++ rest = l.map UInt8.ofNat ++ rest' ∧
        (l.map UInt8.ofNat).length = n := by
    rintro l bs rest n hl rfl
    rw [map_ofNat_eq hl]
    exact ⟨rest, rfl, rfl⟩
  rcases data with _ | ⟨b, bs⟩
  · cases h
  have hb := b.toNat_lt
  unfold utf8First at h
  dsimp only at h
  by_cases h1 : b.toNat < 0x80
  · -- one byte
    rw [if_pos h1] at h
    obtain ⟨c', hc, heq⟩ := Option.map_eq_some_iff.mp h
    obtain ⟨rfl, rfl⟩ := Prod.mk.inj heq
    rw [codePoint?_eq_some] at hc
    refine ⟨hsurrogate (by omega), ?_⟩
    rw [utf8EncodeChar, if_pos (by omega)]
    exact hbytes [b] bs (by rw [hc]; rfl) rfl
  rw [if_neg h1] at h
  by_cases h2 : 0xC2 ≤ b.toNat ∧ b.toNat ≤ 0xDF
  · -- two bytes
    rw [if_pos h2] at h
    rcases bs with _ | ⟨d, bs⟩
    · cases h
    simp only [Option.bind_eq_bind, Option.bind_eq_some_iff, Option.map_eq_some_iff,
      tailBits_eq_some, codePoint?_eq_some, Prod.mk.injEq] at h
    obtain ⟨m, ⟨hd, rfl⟩, c', hc, rfl, rfl⟩ := h
    refine ⟨hsurrogate (by omega), ?_⟩
    rw [utf8EncodeChar, if_neg (by omega), if_pos (by omega)]
    refine hbytes [b, d] bs ?_ rfl
    simp only [List.map_cons, List.map_nil, List.cons.injEq, and_true]
    omega
  rw [if_neg h2] at h
  by_cases h3 : 0xE0 ≤ b.toNat ∧ b.toNat ≤ 0xEF
  · -- three bytes, without the surrogates
    rw [if_pos h3] at h
    rcases bs with _ | ⟨d, _ | ⟨e, bs⟩⟩
    · cases h
    · cases h
    simp only [Option.bind_eq_bind, Option.bind_eq_some_iff, Option.map_eq_some_iff,
      tailBits_eq_some, codePoint?_eq_some, Prod.mk.injEq] at h
    obtain ⟨m, ⟨hd, rfl⟩, k, ⟨he, rfl⟩, c', hc, rfl, rfl⟩ := h
    have hrange : 0x800 ≤ c'.val ∧ c'.val < 0x10000 ∧ (c'.val < 0xD800 ∨ 0xDFFF < c'.val) ∧
        0x80 ≤ d.toNat ∧ d.toNat ≤ 0xBF := by
      split_ifs at hd <;> omega
    refine ⟨hsurrogate hrange.2.2.1, ?_⟩
    rw [utf8EncodeChar, if_neg (by omega), if_neg (by omega), if_pos hrange.2.1]
    refine hbytes [b, d, e] bs ?_ rfl
    simp only [List.map_cons, List.map_nil, List.cons.injEq, and_true]
    omega
  rw [if_neg h3] at h
  by_cases h4 : 0xF0 ≤ b.toNat ∧ b.toNat ≤ 0xF4
  · -- four bytes
    rw [if_pos h4] at h
    rcases bs with _ | ⟨d, _ | ⟨e, _ | ⟨f, bs⟩⟩⟩
    · cases h
    · cases h
    · cases h
    simp only [Option.bind_eq_bind, Option.bind_eq_some_iff, Option.map_eq_some_iff,
      tailBits_eq_some, codePoint?_eq_some, Prod.mk.injEq] at h
    obtain ⟨m, ⟨hd, rfl⟩, k, ⟨he, rfl⟩, l, ⟨hf, rfl⟩, c', hc, rfl, rfl⟩ := h
    have hrange : 0x10000 ≤ c'.val ∧ 0x80 ≤ d.toNat ∧ d.toNat ≤ 0xBF := by
      split_ifs at hd <;> omega
    refine ⟨hsurrogate (.inr (by omega)), ?_⟩
    rw [utf8EncodeChar, if_neg (by omega), if_neg (by omega), if_neg (by omega)]
    refine hbytes [b, d, e, f] bs ?_ rfl
    simp only [List.map_cons, List.map_nil, List.cons.injEq, and_true]
    omega
  rw [if_neg h4] at h
  cases h

theorem utf8EncodeChar_ne_nil (c : CodePoint) : utf8EncodeChar c ≠ [] := by
  rw [utf8EncodeChar]
  split_ifs <;> exact List.cons_ne_nil _ _

/-- A byte that begins no character is not ASCII. -/
theorem le_of_utf8First_eq_none {b : UInt8} {bs : Bytes} (h : utf8First (b :: bs) = none) :
    0x80 ≤ b.toNat := by
  by_contra hlt
  unfold utf8First at h
  dsimp only at h
  rw [if_pos (by omega), codePoint?, dif_pos (by omega)] at h
  cases h

/-- The encoding of one character with `surrogateescape`. -/
def utf8EncodeCharEscape (c : CodePoint) : Except PyExc Bytes :=
  if 0xDC80 ≤ c.val ∧ c.val ≤ 0xDCFF then .ok [UInt8.ofNat (c.val - 0xDC00)]
  else if c.isSurrogate then .error .valueError
  else .ok (utf8EncodeChar c)

theorem utf8EncodeEscape_eq (s : PyStr) :
    utf8EncodeEscape s = (s.mapM utf8EncodeCharEscape).map List.flatten := by
  rw [utf8EncodeEscape]
  change (s.mapM utf8EncodeCharEscape >>= fun parts => pure parts.flatten) = _
  cases s.mapM utf8EncodeCharEscape <;> rfl

theorem utf8EncodeEscape_cons {c : CodePoint} {s : PyStr} {front back : Bytes}
    (hc : utf8EncodeCharEscape c = .ok front) (hs : utf8EncodeEscape s = .ok back) :
    utf8EncodeEscape (c :: s) = .ok (front ++ back) := by
  rw [utf8EncodeEscape_eq] at hs ⊢
  obtain ⟨parts, hparts, rfl⟩ := map_eq_ok.mp hs
  rw [List.mapM_cons, hc, hparts]
  rfl

/-- **The round trip of `surrogateescape`**, from within a character. -/
theorem utf8EncodeEscape_utf8EscapeGo (data : Bytes) :
    ∀ skip, utf8EncodeEscape (utf8EscapeGo skip data) = .ok (data.drop skip) := by
  induction data with
  | nil =>
    intro skip
    rw [utf8EscapeGo, List.drop_nil]
    rfl
  | cons b bs ih =>
    intro skip
    cases skip with
    | succ skip => exact ih skip
    | zero =>
      rw [utf8EscapeGo]
      cases hfirst : utf8First (b :: bs) with
      | none =>
        have hb := le_of_utf8First_eq_none hfirst
        have hlt := b.toNat_lt
        have hc : utf8EncodeCharEscape ⟨0xDC00 + b.toNat, by omega⟩ = .ok [b] := by
          rw [utf8EncodeCharEscape, if_pos ⟨by dsimp only; omega, by dsimp only; omega⟩]
          dsimp only
          rw [Nat.add_sub_cancel_left, UInt8.ofNat_toNat]
        exact utf8EncodeEscape_cons hc (ih 0)
      | some cn =>
        obtain ⟨c, n⟩ := cn
        obtain ⟨hsurrogate, rest, hdata, rfl⟩ := utf8First_eq_some hfirst
        have hc : utf8EncodeCharEscape c = .ok (utf8EncodeChar c) := by
          have hrange : ¬ (0xDC80 ≤ c.val ∧ c.val ≤ 0xDCFF) := by
            rw [CodePoint.isSurrogate, Bool.and_eq_false_iff, decide_eq_false_iff_not,
              decide_eq_false_iff_not] at hsurrogate
            omega
          rw [utf8EncodeCharEscape, if_neg hrange, hsurrogate, if_neg Bool.false_ne_true]
        have hcons := utf8EncodeEscape_cons hc (ih ((utf8EncodeChar c).length - 1))
        dsimp only
        rw [hcons, List.drop_zero]
        cases henc : utf8EncodeChar c with
        | nil => exact absurd henc (utf8EncodeChar_ne_nil c)
        | cons b' enc =>
          rw [henc] at hdata
          obtain ⟨rfl, hbs⟩ := List.cons.inj hdata
          have hdrop : bs.drop enc.length = rest := hbs ▸ List.drop_left
          rw [List.length_cons, Nat.add_sub_cancel, hdrop]
          exact congrArg (fun l => Except.ok (b :: l)) hbs.symm

/-- **The round trip of `surrogateescape`.** -/
theorem utf8EncodeEscape_utf8DecodeEscape (data : Bytes) :
    utf8EncodeEscape (utf8DecodeEscape data) = .ok data := utf8EncodeEscape_utf8EscapeGo data 0

/-! ### Texts that are encoded -/

theorem toNat_ofNat_of_lt {n : ℕ} (h : n < 256) : (UInt8.ofNat n).toNat = n := by
  rw [UInt8.toNat_ofNat', Nat.mod_eq_of_lt h]

/-- A character that is no surrogate is the first one of its bytes. -/
theorem utf8First_utf8EncodeChar {c : CodePoint} (h : c.isSurrogate = false) (rest : Bytes) :
    utf8First (utf8EncodeChar c ++ rest) = some (c, (utf8EncodeChar c).length) := by
  have hc := c.isLt
  have hsurrogate : c.val < 0xD800 ∨ 0xDFFF < c.val := by
    rw [CodePoint.isSurrogate, Bool.and_eq_false_iff, decide_eq_false_iff_not,
      decide_eq_false_iff_not] at h
    omega
  have htail : ∀ {n lo hi : ℕ}, lo ≤ 0x80 + n → 0x80 + n ≤ hi → n < 64 →
      tailBits (UInt8.ofNat (0x80 + n)) lo hi = some n := by
    intro n lo hi hlo hhi hn
    rw [tailBits_eq_some, toNat_ofNat_of_lt (by omega)]
    omega
  have hcode : ∀ {n : ℕ}, n = c.val → codePoint? n = some c := fun h =>
    codePoint?_eq_some.mpr h.symm
  unfold utf8EncodeChar
  dsimp only
  by_cases h1 : c.val < 0x80
  · -- one byte
    rw [if_pos h1]
    simp only [List.map_cons, List.map_nil, List.cons_append, List.nil_append, utf8First]
    rw [toNat_ofNat_of_lt (by omega), if_pos h1, hcode rfl]
    rfl
  by_cases h2 : c.val < 0x800
  · -- two bytes
    rw [if_neg h1, if_pos h2]
    simp only [List.map_cons, List.map_nil, List.cons_append, List.nil_append, utf8First]
    rw [toNat_ofNat_of_lt (by omega), if_neg (by omega), if_pos (by omega),
      htail (by omega) (by omega) (by omega)]
    change (codePoint? _).map _ = _
    rw [hcode (by omega)]
    rfl
  by_cases h3 : c.val < 0x10000
  · -- three bytes
    rw [if_neg h1, if_neg h2, if_pos h3]
    simp only [List.map_cons, List.map_nil, List.cons_append, List.nil_append, utf8First]
    rw [toNat_ofNat_of_lt (by omega), if_neg (by omega), if_neg (by omega), if_pos (by omega),
      htail (by split_ifs <;> omega) (by split_ifs <;> omega) (by omega),
      htail (by omega) (by omega) (by omega)]
    change (codePoint? _).map _ = _
    rw [hcode (by omega)]
    rfl
  · -- four bytes
    rw [if_neg h1, if_neg h2, if_neg h3]
    simp only [List.map_cons, List.map_nil, List.cons_append, List.nil_append, utf8First]
    rw [toNat_ofNat_of_lt (by omega), if_neg (by omega), if_neg (by omega), if_neg (by omega),
      if_pos (by omega), htail (by split_ifs <;> omega) (by split_ifs <;> omega) (by omega),
      htail (by omega) (by omega) (by omega), htail (by omega) (by omega) (by omega)]
    change (codePoint? _).map _ = _
    rw [hcode (by omega)]
    rfl

theorem utf8Go_append {strict : Bool} (rest : Bytes) : (u : Bytes) →
    utf8Go strict u.length (u ++ rest) = utf8Go strict 0 rest
  | [] => rfl
  | _ :: u => utf8Go_append rest u

/-- A character that is no surrogate is decoded from its bytes, and then the text behind them. -/
theorem utf8Go_utf8EncodeChar {c : CodePoint} (hc : c.isSurrogate = false) (strict : Bool)
    (rest : Bytes) :
    utf8Go strict 0 (utf8EncodeChar c ++ rest) = (utf8Go strict 0 rest).map (c :: ·) := by
  have hfirst := utf8First_utf8EncodeChar hc rest
  cases henc : utf8EncodeChar c with
  | nil => exact absurd henc (utf8EncodeChar_ne_nil c)
  | cons b enc =>
    rw [henc, List.cons_append] at hfirst
    rw [List.cons_append, utf8Go, hfirst]
    dsimp only
    rw [List.length_cons, Nat.add_sub_cancel, utf8Go_append]

/-- A text without surrogates is decoded from the bytes of its characters. -/
theorem utf8Decode_flatMap_utf8EncodeChar : {s : PyStr} → s.Encodable →
    utf8Decode (s.flatMap utf8EncodeChar) = some s
  | [], _ => rfl
  | c :: s, h => by
      obtain ⟨hc, hs⟩ := (PyStr.encodable_cons c s).mp h
      have ih : utf8Go true 0 (s.flatMap utf8EncodeChar) = some s :=
        utf8Decode_flatMap_utf8EncodeChar hs
      rw [List.flatMap_cons, utf8Decode, utf8Go_utf8EncodeChar hc, ih, Option.map_some]

/-- **The round trip of texts.** -/
theorem utf8Decode_of_utf8Encode {s : PyStr} {data : Bytes} (h : utf8Encode s = .ok data) :
    utf8Decode data = some s := by
  rw [utf8Encode] at h
  split_ifs at h with hs
  cases h
  exact utf8Decode_flatMap_utf8EncodeChar hs

/-- Only what can be encoded is decoded, and its bytes are those it was decoded from. -/
theorem utf8Go_eq_some {data : Bytes} {skip : ℕ} {s : PyStr} (h : utf8Go true skip data = some s) :
    s.Encodable ∧ data.drop skip = s.flatMap utf8EncodeChar := by
  induction data generalizing skip s with
  | nil =>
    obtain rfl : [] = s := by
      cases skip <;> exact Option.some.inj h
    exact ⟨PyStr.encodable_nil, List.drop_nil⟩
  | cons b bs ih =>
    cases skip with
    | succ skip => exact ih h
    | zero =>
      rw [utf8Go] at h
      cases hfirst : utf8First (b :: bs) with
      | none =>
        rw [hfirst] at h
        cases h
      | some cn =>
        obtain ⟨c, n⟩ := cn
        rw [hfirst] at h
        obtain ⟨s', hs', rfl⟩ := Option.map_eq_some_iff.mp h
        obtain ⟨henc, hrest⟩ := ih hs'
        obtain ⟨hsurrogate, rest, hdata, rfl⟩ := utf8First_eq_some hfirst
        refine ⟨(PyStr.encodable_cons c s').mpr ⟨hsurrogate, henc⟩, ?_⟩
        have hbs : bs.drop ((utf8EncodeChar c).length - 1) = rest := by
          have hdrop : (b :: bs).drop (utf8EncodeChar c).length = rest := by
            rw [hdata, List.drop_left]
          have hpos := List.length_pos_iff.mpr (utf8EncodeChar_ne_nil c)
          rwa [← Nat.succ_pred_eq_of_pos hpos, List.drop_succ_cons] at hdrop
        rw [List.flatMap_cons, ← hrest, hbs, List.drop_zero, hdata]

/-- **The bytes of a text that was decoded.** -/
theorem utf8Encode_of_utf8Decode {data : Bytes} {s : PyStr} (h : utf8Decode data = some s) :
    utf8Encode s = .ok data := by
  obtain ⟨henc, hdata⟩ := utf8Go_eq_some h
  rw [utf8Encode, if_pos henc, ← hdata, List.drop_zero]

/-! ### Cutting a text -/

theorem length_utf8EncodeChar_le (c : CodePoint) : (utf8EncodeChar c).length ≤ 4 := by
  rw [utf8EncodeChar]
  split_ifs <;> simp

/-- The bytes of a character behind its first one are continuation bytes. -/
theorem forall_mem_tail_utf8EncodeChar (c : CodePoint) :
    ∀ b ∈ (utf8EncodeChar c).tail, 0x80 ≤ b.toNat ∧ b.toNat < 0xC0 := by
  have hc := c.isLt
  rw [utf8EncodeChar]
  split_ifs
  all_goals
    simp only [List.map_cons, List.map_nil, List.tail_cons, List.forall_mem_cons,
      UInt8.toNat_ofNat']
  · exact fun b hb => absurd hb List.not_mem_nil
  · exact ⟨by omega, fun b hb => absurd hb List.not_mem_nil⟩
  · exact ⟨by omega, by omega, fun b hb => absurd hb List.not_mem_nil⟩
  · exact ⟨by omega, by omega, by omega, fun b hb => absurd hb List.not_mem_nil⟩

/-- Continuation bytes are left out. -/
theorem utf8Go_of_continuation : (bs : Bytes) → (∀ b ∈ bs, 0x80 ≤ b.toNat ∧ b.toNat < 0xC0) →
    utf8Go false 0 bs = some []
  | [], _ => rfl
  | b :: bs, h => by
      obtain ⟨hb, hbs⟩ := List.forall_mem_cons.mp h
      have hfirst : utf8First (b :: bs) = none := by
        unfold utf8First
        dsimp only
        rw [if_neg (by omega), if_neg (by omega), if_neg (by omega), if_neg (by omega)]
      rw [utf8Go, hfirst]
      exact utf8Go_of_continuation bs hbs

/-- A character that is cut off is left out. -/
theorem utf8Go_take_utf8EncodeChar {c : CodePoint} (hc : c.isSurrogate = false) {n : ℕ}
    (hn : n < (utf8EncodeChar c).length) :
      utf8Go false 0 ((utf8EncodeChar c).take n) = some [] := by
  have htail := forall_mem_tail_utf8EncodeChar c
  have hsplit := List.take_append_drop n (utf8EncodeChar c)
  cases htake : (utf8EncodeChar c).take n with
  | nil => rfl
  | cons b bs =>
    have hfirst : utf8First (b :: bs) = none := by
      by_contra hne
      obtain ⟨⟨c', n'⟩, hfirst⟩ := Option.ne_none_iff_exists'.mp hne
      obtain ⟨hc', rest, hdata, -⟩ := utf8First_eq_some hfirst
      -- then the whole character would begin with another one
      have hwhole := utf8First_utf8EncodeChar hc []
      rw [List.append_nil, ← hsplit, htake, hdata, List.append_assoc,
        utf8First_utf8EncodeChar hc'] at hwhole
      obtain rfl := (Prod.mk.inj (Option.some.inj hwhole)).1
      have hlen := congrArg List.length (htake.trans hdata)
      rw [List.length_take, List.length_append] at hlen
      omega
    have hbs : ∀ x ∈ bs, x ∈ (utf8EncodeChar c).tail := by
      rw [htake, List.cons_append] at hsplit
      rw [← hsplit, List.tail_cons]
      exact fun x hx => List.mem_append_left _ hx
    rw [utf8Go, hfirst]
    exact utf8Go_of_continuation bs fun x hx => htail x (hbs x hx)

/-- **A text cut off after some bytes** is decoded to a beginning of it; at most three bytes, of the
character that was cut, are left out. -/
theorem utf8Go_take : {s : PyStr} → s.Encodable → (n : ℕ) → ∃ k,
    utf8Go false 0 ((s.flatMap utf8EncodeChar).take n) = some (s.take k) ∧
      ((s.take k).flatMap utf8EncodeChar).length ≤ n ∧
      min n (s.flatMap utf8EncodeChar).length ≤ ((s.take k).flatMap utf8EncodeChar).length + 3
  | [], _, n => ⟨0, by rw [List.flatMap_nil, List.take_nil]; rfl, Nat.zero_le n, by simp⟩
  | c :: s, h, n => by
      obtain ⟨hc, hs⟩ := (PyStr.encodable_cons c s).mp h
      have hle := length_utf8EncodeChar_le c
      by_cases hn : n < (utf8EncodeChar c).length
      · refine ⟨0, ?_, Nat.zero_le n, ?_⟩
        · rw [List.flatMap_cons, List.take_append_of_le_length hn.le,
            utf8Go_take_utf8EncodeChar hc hn]
          rfl
        · rw [List.take_zero, List.flatMap_nil, List.length_nil]
          omega
      · obtain ⟨k, hk, hlen, hmin⟩ := utf8Go_take hs (n - (utf8EncodeChar c).length)
        refine ⟨k + 1, ?_, ?_, ?_⟩
        · rw [List.flatMap_cons, List.take_append, List.take_of_length_le (not_lt.mp hn),
            utf8Go_utf8EncodeChar hc, hk, Option.map_some, List.take_succ_cons]
        · rw [List.take_succ_cons, List.flatMap_cons, List.length_append]
          omega
        · rw [List.take_succ_cons, List.flatMap_cons, List.flatMap_cons, List.length_append,
            List.length_append]
          omega

end C2Engine.Python
