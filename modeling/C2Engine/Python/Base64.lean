import C2Engine.Python.Codec

/-!
# The round trip of Base64

Bytes written in Base64 and read back are the bytes they were. Three bytes become four characters of
the alphabet, which the strict reader takes as one group; the last group is filled up with padding.

## Main results

* `b64decode_b64encode`: the round trip.
* `forall_mem_b64encode`, `length_b64encode`: the form of the text.
-/

namespace C2Engine.Python

theorem b64Value_b64Char : ∀ n < 64, b64Value (b64Char n) = some n := by decide +kernel

theorem b64Char_ne_pad : ∀ n < 64, b64Char n ≠ cp '=' := by decide +kernel

/-- A character of the alphabet in the reader, by its place in the group. -/
theorem a2bGo_b64Char {n : ℕ} (hn : n < 64) (cs : PyStr) (left : ℕ) :
    a2bGo (b64Char n :: cs) 0 left 0 false = a2bGo cs 1 n 0 false ∧
    a2bGo (b64Char n :: cs) 1 left 0 false =
      (a2bGo cs 2 (n % 16) 0 false).map (UInt8.ofNat (left * 4 + n / 16) :: ·) ∧
    a2bGo (b64Char n :: cs) 2 left 0 false =
      (a2bGo cs 3 (n % 4) 0 false).map (UInt8.ofNat (left * 16 + n / 4) :: ·) ∧
    a2bGo (b64Char n :: cs) 3 left 0 false =
      (a2bGo cs 0 0 0 false).map (UInt8.ofNat (left * 64 + n) :: ·) := by
  simp [a2bGo, b64Char_ne_pad n hn, b64Value_b64Char n hn]

/-- The padding of a group that lacks two bytes, and of one that lacks one. -/
theorem a2bGo_pads (left : ℕ) : a2bGo [cp '=', cp '='] 2 left 0 false = some [] ∧
    a2bGo [cp '='] 3 left 0 false = some [] := by
  simp [a2bGo]

/-- A byte from its number. -/
theorem ofNat_eq_of_toNat {n : ℕ} {b : UInt8} (h : n = b.toNat) : UInt8.ofNat n = b := by
  rw [h, UInt8.ofNat_toNat]

theorem a2bGo_b64encode : (data : Bytes) → a2bGo (b64encode data) 0 0 0 false = some data
  | [] => rfl
  | [a] => by
      have ha := a.toNat_lt
      rw [b64encode, (a2bGo_b64Char (by omega) _ _).1, (a2bGo_b64Char (by omega) _ _).2.1,
        (a2bGo_pads _).1, ofNat_eq_of_toNat (b := a) (by omega)]
      rfl
  | [a, b] => by
      have ha := a.toNat_lt
      have hb := b.toNat_lt
      rw [b64encode, (a2bGo_b64Char (by omega) _ _).1, (a2bGo_b64Char (by omega) _ _).2.1,
        (a2bGo_b64Char (by omega) _ _).2.2.1, (a2bGo_pads _).2,
        ofNat_eq_of_toNat (b := a) (by omega), ofNat_eq_of_toNat (b := b) (by omega)]
      rfl
  | a :: b :: c :: data => by
      have ha := a.toNat_lt
      have hb := b.toNat_lt
      have hc := c.toNat_lt
      have ih := a2bGo_b64encode data
      simp only [b64encode, List.cons_append, List.nil_append]
      rw [(a2bGo_b64Char (by omega) _ _).1, (a2bGo_b64Char (by omega) _ _).2.1,
        (a2bGo_b64Char (by omega) _ _).2.2.1, (a2bGo_b64Char (by omega) _ _).2.2.2, ih,
        ofNat_eq_of_toNat (b := a) (by omega), ofNat_eq_of_toNat (b := b) (by omega),
        ofNat_eq_of_toNat (b := c) (by omega)]
      rfl

/-- **The round trip of Base64.** -/
theorem b64decode_b64encode (data : Bytes) : b64decode (b64encode data) = some data := by
  have hhead : (b64encode data).head? ≠ some (cp '=') := by
    have hfirst : ∀ a : UInt8, b64Char (a.toNat / 4) ≠ cp '=' := fun a =>
      b64Char_ne_pad _ (by have := a.toNat_lt; omega)
    rcases data with _ | ⟨a, _ | ⟨b, _ | ⟨c, data⟩⟩⟩ <;> simp [b64encode, hfirst]
  rw [b64decode, if_neg hhead, a2bGo_b64encode]

/-! ### The form of the text -/

/-- What holds of the alphabet and of the padding holds of each character. -/
theorem forall_mem_b64encode {P : CodePoint → Prop} (hchar : ∀ n < 64, P (b64Char n))
    (hpad : P (cp '=')) : (data : Bytes) → ∀ x ∈ b64encode data, P x
  | [] => fun x hx => absurd hx List.not_mem_nil
  | [a] => by
      have ha := a.toNat_lt
      simp only [b64encode, List.forall_mem_cons]
      exact ⟨hchar _ (by omega), hchar _ (by omega), hpad, hpad, fun x hx =>
        absurd hx List.not_mem_nil⟩
  | [a, b] => by
      have ha := a.toNat_lt
      have hb := b.toNat_lt
      simp only [b64encode, List.forall_mem_cons]
      exact ⟨hchar _ (by omega), hchar _ (by omega), hchar _ (by omega), hpad,
        fun x hx => absurd hx List.not_mem_nil⟩
  | a :: b :: c :: data => by
      have ha := a.toNat_lt
      have hb := b.toNat_lt
      have hc := c.toNat_lt
      simp only [b64encode, List.cons_append, List.nil_append, List.forall_mem_cons]
      exact ⟨hchar _ (by omega), hchar _ (by omega), hchar _ (by omega), hchar _ (by omega),
        forall_mem_b64encode hchar hpad data⟩

/-- Three bytes, or what is left of them, become four characters. -/
theorem length_b64encode : (data : Bytes) →
    (b64encode data).length = 4 * ((data.length + 2) / 3)
  | [] | [_] | [_, _] => by simp [b64encode]
  | a :: b :: c :: data => by
      have ih := length_b64encode data
      simp only [b64encode, List.length_append, List.length_cons, List.length_nil]
      omega

theorem b64encode_ne_nil {data : Bytes} (h : data ≠ []) : b64encode data ≠ [] := by
  rcases data with _ | ⟨a, _ | ⟨b, _ | ⟨c, data⟩⟩⟩
  · exact absurd rfl h
  all_goals simp [b64encode]

end C2Engine.Python
