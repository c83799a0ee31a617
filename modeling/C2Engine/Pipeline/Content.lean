import C2Engine.Pipeline.Monotone
import C2Engine.Python.Matching
import C2Engine.Python.Utf8

/-!
# The content of scripts

The content of a script is written into its row, up to a cap that counts bytes. Where the bytes are
cut the cut may fall into a character; the decoder then leaves out the beginning of this character
and nothing besides, so what is written is the beginning of the text of the file.

## Main definitions

* `FaithfulPrefix`: a content that is the beginning of a text.

## Main results

* `content_of_classifyPayload`: the content of a script and the mark of its truncation.
* `faithfulPrefix_servedPayload`: the content of the row of a script.
-/

namespace C2Engine

open Python

/-- **A faithful beginning**: the content is the beginning of the text of the bytes, and its own
bytes are the beginning of them; all of them if there are no more than the cap, and else at least
all but three of those up to the cap, which is marked. -/
structure FaithfulPrefix (data : Bytes) (content : PyStr) (truncated : Bool) : Prop where
  text : ∃ text, utf8Decode data = some text ∧ content <+: text
  bytes : ∃ enc, utf8Encode content = .ok enc ∧ enc <+: data ∧
    (data.length ≤ contentCap → enc = data ∧ truncated = false) ∧
    (contentCap < data.length →
      truncated = true ∧ contentCap - 3 ≤ enc.length ∧ enc.length ≤ contentCap)

/-- The text of a script is that of its bytes. -/
theorem utf8Decode_of_payloadText {magic : Option PyStr} {data : Bytes} {text : PyStr}
    (h : payloadText magic data = (.script, text)) : utf8Decode data = some text := by
  unfold payloadText at h
  by_cases hmagic : isBinaryMagic (magic.getD [])
  · rw [if_pos hmagic] at h
    cases h
  · rw [if_neg hmagic] at h
    cases hdecode : utf8Decode data with
    | none =>
      rw [hdecode] at h
      cases h
    | some text' =>
      rw [hdecode] at h
      exact congrArg some (Prod.mk.inj h).2

/-- The content of a script and the mark of its truncation, in a row that had none. -/
theorem content_of_classifyPayload {rt : Runtime} {obs o : C2Observation} {data : Bytes}
    (h : classifyPayload rt obs data = .ok o) (htruncated : obs.contentTruncated = false)
    (hkind : o.fileKind = some .script) : ∃ text, utf8Decode data = some text ∧
      o.content = some (if contentCap < data.length then utf8DecodeIgnore (data.take contentCap)
        else text) ∧
      o.contentTruncated = decide (contentCap < data.length) := by
  simp only [classifyPayload, bind_eq_ok, pure, Except.pure, Except.ok.injEq] at h
  obtain ⟨hosts, -, rfl⟩ := h
  rcases hpayload : payloadText obs.magic data with ⟨kind, text⟩
  simp only [hpayload] at hkind ⊢
  cases kind with
  | binary => cases hkind
  | script =>
    refine ⟨text, utf8Decode_of_payloadText hpayload, ?_⟩
    by_cases hcap : contentCap < data.length
    · simp [hcap]
    · simp [hcap, htruncated]

/-- A text whose bytes are not more than the cap. -/
theorem faithfulPrefix_self {data : Bytes} {text : PyStr} (h : utf8Decode data = some text)
    (hcap : data.length ≤ contentCap) : FaithfulPrefix data text false where
  text := ⟨text, h, List.prefix_rfl⟩
  bytes := ⟨data, utf8Encode_of_utf8Decode h, List.prefix_rfl, fun _ => ⟨rfl, rfl⟩,
    fun hlt => absurd hlt (not_lt.mpr hcap)⟩

/-- **The beginning of a text** whose bytes are more than the cap. -/
theorem faithfulPrefix_take {data : Bytes} {text : PyStr} (h : utf8Decode data = some text)
    (hcap : contentCap < data.length) :
    FaithfulPrefix data (utf8DecodeIgnore (data.take contentCap)) true := by
  obtain ⟨htext, hdata⟩ := utf8Go_eq_some h
  rw [List.drop_zero] at hdata
  obtain ⟨k, hk, hle, hmin⟩ := utf8Go_take htext contentCap
  rw [← hdata] at hk hmin
  have hsplit := List.take_append_drop k text
  have hcontent : utf8DecodeIgnore (data.take contentCap) = text.take k := by
    rw [utf8DecodeIgnore, hk, Option.getD_some]
  have henc : PyStr.Encodable (text.take k) := by
    rw [← hsplit, PyStr.encodable_append] at htext
    exact htext.1
  rw [hcontent]
  refine ⟨⟨text, h, List.take_prefix k text⟩, (text.take k).flatMap utf8EncodeChar, if_pos henc, ?_,
    fun hge => absurd hcap (not_lt.mpr hge), fun _ => ⟨rfl, by omega, hle⟩⟩
  refine ⟨(text.drop k).flatMap utf8EncodeChar, ?_⟩
  rw [hdata, ← List.flatMap_append, hsplit]

/-- **The content of the row of a script** is a faithful beginning of the bytes of its file. -/
theorem faithfulPrefix_servedPayload {rt : Runtime} {session : SessionIn} {f : FileRef}
    {host : PyStr} {port : Option ℕ} {path : PyStr} {data : Bytes} {o : C2Observation}
    (h : servedPayload rt (servedObs session f host port path) data = .ok o)
    (hkind : o.fileKind = some .script) :
    ∃ content, o.content = some content ∧ FaithfulPrefix data content o.contentTruncated := by
  obtain ⟨magic, -, hclassify⟩ := bind_eq_ok.mp h
  obtain ⟨text, htext, hcontent, htruncated⟩ := content_of_classifyPayload hclassify rfl hkind
  refine ⟨_, hcontent, ?_⟩
  by_cases hcap : contentCap < data.length
  · rw [htruncated, decide_eq_true hcap, if_pos hcap]
    exact faithfulPrefix_take htext hcap
  · rw [htruncated, decide_eq_false hcap, if_neg hcap]
    exact faithfulPrefix_self htext (not_lt.mp hcap)

/-! ### A long script -/

/-- A script of a comment with `n` characters of three bytes. -/
def commentScript (n : ℕ) : PyStr := str "#!/bin/sh\n# " ++ List.replicate n (cp '€')

/-- The bytes of the script. -/
def commentBytes (n : ℕ) : Bytes := (commentScript n).flatMap utf8EncodeChar

/-- The characters of the script. -/
def commentChars : PyStr := cp '€' :: str "#!/bin/sh\n# "

theorem mem_commentChars {n : ℕ} : ∀ c ∈ commentScript n, c ∈ commentChars := by
  intro c hc
  rcases List.mem_append.mp hc with hc | hc
  · exact List.mem_cons_of_mem _ hc
  · exact List.eq_of_mem_replicate hc ▸ List.mem_cons_self

theorem length_commentBytes (n : ℕ) : (commentBytes n).length = 12 + 3 * n := by
  have hfront : ((str "#!/bin/sh\n# ").flatMap utf8EncodeChar).length = 12 := by decide
  have hchar : (utf8EncodeChar (cp '€')).length = 3 := by decide
  rw [commentBytes, commentScript, List.flatMap_append, List.length_append, hfront,
    List.length_flatMap, List.map_replicate, hchar, List.sum_replicate_nat, Nat.mul_comm]

/-- Nothing in the script is unwrapped, and it has no URL. -/
theorem textReadable_commentScript (n : ℕ) : TextReadable .basic (commentScript n) := by
  have hunwrap : unwrapOnce .basic (commentScript n) = [] := by
    have hnone : ∀ re ∈ [reB64HereString, reB64Echo, reEchoPipeSh, reEvalSubshell],
        firstGroups .basic re (commentScript n) = [] := by
      intro re hre
      have havoids : ∀ re ∈ [reB64HereString, reB64Echo, reEchoPipeSh, reEvalSubshell],
          re.avoids commentChars := by decide +kernel
      rw [firstGroups, Re.finditer_eq_nil (havoids re hre) mem_commentChars, List.filterMap_nil]
    simp [unwrapOnce, hnone]
  have hurls : findUrls .basic (commentScript n) = [] := by
    have havoids : reUrl.avoids commentChars := by decide +kernel
    rw [findUrls, Re.findall, Re.finditer_eq_nil havoids mem_commentChars]
    rfl
  have hlines : expandCommand .basic (commentScript n) = [commentScript n] := by
    simp [expandCommand, expandGo, maxRecursion, hunwrap, unseen]
  intro l hl u hu
  obtain rfl := List.mem_singleton.mp (hlines ▸ hl)
  rw [hurls] at hu
  cases hu

theorem payloadText_commentBytes {magic : Option PyStr} (h : ¬ isBinaryMagic (magic.getD []))
    (n : ℕ) : payloadText magic (commentBytes n) = (.script, commentScript n) := by
  have hchars : PyStr.Encodable commentChars := by decide
  have hencodable : PyStr.Encodable (commentScript n) := fun c hc =>
    hchars c (mem_commentChars c hc)
  rw [payloadText, if_neg h, commentBytes, utf8Decode_flatMap_utf8EncodeChar hencodable]

theorem sniffMagic_commentBytes (n : ℕ) :
    sniffMagic (commentBytes n) = .ok (some (str "script (shebang)")) := by
  have hfront : (str "#!/bin/sh\n# ").flatMap utf8EncodeChar =
      0x23 :: 0x21 :: asciiBytes (str "/bin/sh\n# ") := by decide
  rw [commentBytes, commentScript, List.flatMap_append, hfront, List.cons_append, List.cons_append]
  generalize asciiBytes _ ++ _ = rest
  rfl

theorem payloadOk_commentBytes (n : ℕ) : PayloadOk .basic (commentBytes n) := by
  refine ⟨_, sniffMagic_commentBytes n, ?_⟩
  rw [payloadText_commentBytes (by decide)]
  exact textReadable_commentScript n

/-- The row of a script that is cut within a character. -/
theorem faithfulPrefix_servedPayload_comment : ∃ o,
    servedPayload .basic (servedObs {} {} (str "192.0.2.1") none []) (commentBytes 87380) = .ok o ∧
      o.fileKind = some .script ∧ o.contentTruncated = true ∧
      ∃ content, o.content = some content ∧
        FaithfulPrefix (commentBytes 87380) content o.contentTruncated := by
  obtain ⟨o, ho⟩ := isOk_iff.mp ((isOk_servedPayload .basic
    (servedObs {} {} (str "192.0.2.1") none []) _).mpr (payloadOk_commentBytes 87380))
  have hkind : o.fileKind = some .script := by
    obtain ⟨magic, _, hmagic, -, _, _, rfl⟩ := servedPayload_eq_ok ho rfl
    obtain rfl := Except.ok.inj (hmagic.symm.trans (sniffMagic_commentBytes 87380))
    exact congrArg some (congrArg Prod.fst (payloadText_commentBytes (by decide) 87380))
  obtain ⟨content, hcontent, hfaithful⟩ := faithfulPrefix_servedPayload ho hkind
  obtain ⟨_, -, -, -, hcut⟩ := hfaithful.bytes
  have hcap : contentCap < (commentBytes 87380).length := by
    rw [length_commentBytes]
    decide
  exact ⟨o, ho, hkind, (hcut hcap).1, content, hcontent, hfaithful⟩

end C2Engine
