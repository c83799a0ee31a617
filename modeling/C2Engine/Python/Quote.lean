import C2Engine.Python.UrlRequest
import C2Engine.Python.Utf8

/-!
# Quoting a part of a URL

`urllib.parse.quote(s, safe="")`: the bytes of the text in UTF-8, those of letters, digits and four
more characters as they are and the others as percent escapes. A quoted text has no character that
means anything in a URL, and the escapes are undone byte by byte.

## Main definitions

* `quote`: `urllib.parse.quote(s, safe="")`.
* `unquotePart`: the text of a quoted part, where its bytes are UTF-8.

## Main results

* `isQuoted_of_quote`: the characters of a quoted text.
* `unquotePart_of_quote`: the round trip.
-/

namespace C2Engine.Python

/-- `_ALWAYS_SAFE`. -/
def isAlwaysSafe (c : CodePoint) : Bool := c.isAsciiAlnum || PyStr.oneOf (str "_.-~") c

/-- A hexadecimal digit in upper case. -/
def upperHexChar (n : ℕ) : CodePoint := (str "0123456789ABCDEF").getD n (cp '0')

/-- The quoted text of a byte. -/
def quoteByte (b : UInt8) : PyStr :=
  let c : CodePoint := ⟨b.toNat, by have := b.toNat_lt; omega⟩
  if isAlwaysSafe c then [c]
  else [cp '%', upperHexChar (b.toNat / 16), upperHexChar (b.toNat % 16)]

/-- `urllib.parse.quote(s, safe="")`; a surrogate has no encoding. -/
def quote (s : PyStr) : Except PyExc PyStr := (utf8Encode s).map fun data => data.flatMap quoteByte

/-- The text of a quoted part, where its bytes are UTF-8. -/
def unquotePart (s : PyStr) : Option PyStr := utf8Decode (unquoteGo 0 s)

/-- The characters that are left as they are are ASCII. -/
theorem val_of_isAlwaysSafe {c : CodePoint} (h : isAlwaysSafe c) : c.val < 0x80 := by
  have hend : ∀ d : Char, d.val.toNat < 0x80 → c = cp d → c.val < 0x80 := by
    rintro d hd rfl
    exact hd
  simp only [isAlwaysSafe, CodePoint.isAsciiAlnum, CodePoint.isAsciiAlpha, CodePoint.isAsciiDigit,
    CodePoint.between, Bool.or_eq_true, Bool.and_eq_true, decide_eq_true_eq, PyStr.oneOf, str_eq,
    List.elem_eq_mem] at h
  simp only [show "_.-~".toList = ['_', '.', '-', '~'] from rfl, List.map_cons, List.map_nil,
    List.mem_cons, List.not_mem_nil, or_false] at h
  rcases h with ((h | h) | h) | h | h | h | h
  · exact h.2.trans_lt (by decide)
  · exact h.2.trans_lt (by decide)
  · exact h.2.trans_lt (by decide)
  · exact hend '_' (by decide) h
  · exact hend '.' (by decide) h
  · exact hend '-' (by decide) h
  · exact hend '~' (by decide) h

/-- A character of a quoted text. -/
def isQuoted (c : CodePoint) : Bool := isAlwaysSafe c || c = cp '%'

theorem upperHexChar_spec : ∀ n < 16, (upperHexChar n).isHexDigit ∧ isQuoted (upperHexChar n) ∧
    hexValue (upperHexChar n) = n := by
  decide

/-- The quoted text of a byte has no character that means anything in a URL. -/
theorem isQuoted_of_mem_quoteByte {b : UInt8} {c : CodePoint} (h : c ∈ quoteByte b) :
    isQuoted c := by
  have hb := b.toNat_lt
  unfold quoteByte at h
  dsimp only at h
  split_ifs at h with hsafe
  · rw [List.mem_singleton.mp h, isQuoted, hsafe]
    rfl
  · simp only [List.mem_cons, List.not_mem_nil, or_false] at h
    rcases h with rfl | rfl | rfl
    · decide
    · exact (upperHexChar_spec _ (by omega)).2.1
    · exact (upperHexChar_spec _ (by omega)).2.1

/-- **A quoted text** has no character that means anything in a URL. -/
theorem isQuoted_of_quote {s q : PyStr} (h : quote s = .ok q) {c : CodePoint} (hc : c ∈ q) :
    isQuoted c := by
  obtain ⟨data, -, rfl⟩ := map_eq_ok.mp h
  obtain ⟨b, -, hb⟩ := List.mem_flatMap.mp hc
  exact isQuoted_of_mem_quoteByte hb

/-- A text is quoted exactly when it can be encoded. -/
theorem isOk_quote (s : PyStr) : (quote s).isOk ↔ s.Encodable := by
  rw [quote, isOk_map, isOk_utf8Encode]

/-- The escape of a byte is undone. -/
theorem unquoteGo_quoteByte (b : UInt8) (t : PyStr) :
    unquoteGo 0 (quoteByte b ++ t) = b :: unquoteGo 0 t := by
  have hb := b.toNat_lt
  unfold quoteByte
  dsimp only
  split_ifs with hsafe
  · have hne : (⟨b.toNat, by omega⟩ : CodePoint) ≠ cp '%' := by
      intro heq
      rw [heq] at hsafe
      revert hsafe
      decide
    rw [List.singleton_append, unquoteGo]
    dsimp only
    rw [if_neg (fun h => hne h.1), UInt8.ofNat_toNat]
  · obtain ⟨h₁, -, v₁⟩ := upperHexChar_spec (b.toNat / 16) (by omega)
    obtain ⟨h₂, -, v₂⟩ := upperHexChar_spec (b.toNat % 16) (by omega)
    have hvalue : digitsValue 16 hexValue
        [upperHexChar (b.toNat / 16), upperHexChar (b.toNat % 16)] = b.toNat := by
      simp only [digitsValue, List.foldl_cons, List.foldl_nil, v₁, v₂]
      omega
    simp only [List.cons_append, List.nil_append]
    rw [unquoteGo]
    rw [if_pos ⟨rfl, rfl, by simp [h₁, h₂]⟩]
    simp only [List.take_succ_cons, List.take_zero, hvalue, UInt8.ofNat_toNat]
    rfl

theorem unquoteGo_flatMap_quoteByte : (data : Bytes) → unquoteGo 0 (data.flatMap quoteByte) = data
  | [] => rfl
  | b :: data => by
      rw [List.flatMap_cons, unquoteGo_quoteByte, unquoteGo_flatMap_quoteByte data]

/-- **The round trip of quoting.** -/
theorem unquotePart_of_quote {s q : PyStr} (h : quote s = .ok q) : unquotePart q = some s := by
  obtain ⟨data, hdata, rfl⟩ := map_eq_ok.mp h
  rw [unquotePart, unquoteGo_flatMap_quoteByte]
  exact utf8Decode_of_utf8Encode hdata

/-- A quoted text has neither a slash nor a question mark. -/
theorem notMem_of_quote {s q : PyStr} (h : quote s = .ok q) : cp '/' ∉ q ∧ cp '?' ∉ q :=
  ⟨fun hc => absurd (isQuoted_of_quote h hc) (by decide),
    fun hc => absurd (isQuoted_of_quote h hc) (by decide)⟩

end C2Engine.Python
