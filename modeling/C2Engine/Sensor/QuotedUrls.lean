import C2Engine.Analyze.Unwrapping
import C2Engine.Sensor.ExtractUrls

/-!
# URLs in quoted arguments

The honeypot fetches what its own downloaders are called with, and `extract_urls` is for the rest: a
URL in a quoted argument of another program, which the shell of the honeypot never looks into. A
shell ends a segment at a separator that is not quoted. `extract_urls` cuts a command at every
separator, quoted or not, and passes over a piece that begins with a downloader, although it may be
the middle of an argument; and the payload of a wrapper ends for it at the first quote of either
kind.

Here the segments are those of the shell. Every one of them falls into pieces between separators,
and one without quoting is a piece, so that no other piece shows its URLs. What is found in the
wrappers is told by the texts that at most four unwrappings lead to.

## Main definitions

* `Quoting`, `topSegments`, `quotedArgs`: segments and quoted arguments, as a shell reads a command.
* `FillsGap`: the URLs of quoted arguments are returned, and no URL that a downloader fetches.
* `Unwraps`: a text that at most four unwrappings lead to.
* `Exposed`: the commands for which `extract_urls` does what it is for.

## Main results

* `flatMap_topSegments`: the pieces of the segments are the pieces of the command.
* `mem_extractUrls_iff`: the URLs of pieces and of unwrapped texts.
* `mem_extractUrls_of_quoted`: the URLs of quoted arguments without separators.
* `mem_extractUrls_of_shellCall`: the URLs of an argument of a shell without inner quotes.
* `fillsGap_iff`: the commands for which `extract_urls` does what it is for.
* `not_fillsGap_nested`: a downloader behind a quote of the other kind.
-/

namespace C2Engine.Sensor

open Python

/-! ### Quoting -/

/-- What a shell is in when it reads a character. -/
inductive Quoting where
  | plain
  | escaped
  | single
  | double
  | doubleEscaped
  deriving DecidableEq

/-- What it is in behind the character. -/
def Quoting.next (c : CodePoint) : Quoting → Quoting
  | plain => if c = cp '\\' then escaped else if c = cp '\'' then single
      else if c = cp '"' then double else plain
  | escaped => plain
  | single => if c = cp '\'' then plain else single
  | double => if c = cp '\\' then doubleEscaped else if c = cp '"' then plain else double
  | doubleEscaped => double

/-- The segments of a text, of which the first has begun. -/
def topSegmentsFrom (q : Quoting) : PyStr → List PyStr
  | [] => [[]]
  | c :: s =>
    if q = .plain ∧ isSeparator c then [] :: topSegmentsFrom .plain s
    else (topSegmentsFrom (q.next c) s).modifyHead (List.cons c)

/-- The segments of a command: it is cut at the separators that are not quoted. -/
def topSegments (cmd : PyStr) : List PyStr := topSegmentsFrom .plain cmd

/-- The quoted arguments of a text, of which the first has begun if `q` is within quotes. -/
def quotedArgsFrom (q : Quoting) (arg : PyStr) : PyStr → List PyStr
  | [] => []
  | c :: s =>
    if q = .plain ∨ q = .escaped then quotedArgsFrom (q.next c) [] s
    else if q.next c = .plain then arg :: quotedArgsFrom .plain [] s
    else quotedArgsFrom (q.next c) (arg ++ [c]) s

/-- The quoted arguments of a segment, each without its quotes. -/
def quotedArgs (segment : PyStr) : List PyStr := quotedArgsFrom .plain [] segment

/-- A character that quotes. -/
def isQuoting (c : CodePoint) : Bool := PyStr.oneOf (str "\"'\\") c

/-- A segment without quoting. -/
def Unquoted (segment : PyStr) : Prop := ∀ c ∈ segment, isQuoting c = false

example : (topSegments (str "a 'b;c' \"d'\";e")).map quotedArgs =
    [[str "b;c", str "d'"], []] := by decide

/-! ### Where URLs occur -/

/-- The texts of Base64 payloads, as `_unwrap_once` decodes them. -/
def decodedTexts (uni : Unicode) (text : PyStr) : List PyStr :=
  (([reB64HereString, reB64Echo].flatMap fun re => firstGroups uni re text).filterMap
    tryB64Decode).filter fun s => !s.isEmpty

/-- A URL occurs outside a segment: in another one, or in a Base64 payload. -/
def Elsewhere (uni : Unicode) (cmd : PyStr) (i : ℕ) (u : PyStr) : Prop :=
  (∃ j s, j ≠ i ∧ (topSegments cmd)[j]? = some s ∧ u <:+: s) ∨
  ∃ n < maxUnwrapDepth, ∃ text, Leads (unwrapOnce uni) n cmd text ∧
    ∃ t ∈ decodedTexts uni text, u <:+: t

/-- **The fetcher fills the gap**: it returns the URLs of the quoted arguments of the segments that
call no downloader, and no URL of an unquoted segment that calls one, unless it occurs elsewhere. -/
structure FillsGap (rt : Runtime) (cmd : PyStr) : Prop where
  quoted : ∀ segment ∈ topSegments cmd, segmentDispatchesToNative segment = false →
    ∀ arg ∈ quotedArgs segment, ∀ u ∈ findUrls rt arg, u ∈ extractUrls rt cmd
  native : ∀ i segment, (topSegments cmd)[i]? = some segment →
    segmentDispatchesToNative segment → Unquoted segment →
      ∀ u ∈ findUrls rt segment, u ∈ extractUrls rt cmd → Elsewhere rt.unicode cmd i u

/-- A text, other than the command, that at most four unwrappings lead to. -/
def Unwraps (uni : Unicode) (cmd text : PyStr) : Prop :=
  text ≠ cmd ∧ ∃ n ≤ maxUnwrapDepth, Leads (unwrapOnce uni) n cmd text

/-- **The commands for which the fetcher does what it is for**: where a segment that calls no
downloader has a quoted separator, every URL of a quoted argument stands whole in a piece between
two separators, quoted or not, that does not begin with a downloader, or in an unwrapped text; and a
URL that an unquoted downloader is called with, and that occurs nowhere else, stands in no unwrapped
text. -/
structure Exposed (rt : Runtime) (cmd : PyStr) : Prop where
  quoted : ∀ segment ∈ topSegments cmd, segmentDispatchesToNative segment = false →
    segment.any isSeparator → ∀ arg ∈ quotedArgs segment, ∀ u ∈ findUrls rt arg,
      (∃ piece ∈ cmd.splitOnP isSeparator, segmentDispatchesToNative piece = false ∧
        u ∈ findUrls rt piece) ∨
      ∃ text, Unwraps rt.unicode cmd text ∧ u ∈ findUrls rt text
  native : ∀ i segment, (topSegments cmd)[i]? = some segment →
    segmentDispatchesToNative segment → Unquoted segment → ∀ u ∈ findUrls rt segment,
      Elsewhere rt.unicode cmd i u ∨
      ∀ text, Unwraps rt.unicode cmd text → u ∉ findUrls rt text

/-! ### Segments and pieces -/

theorem topSegmentsFrom_ne_nil (q : Quoting) (s : PyStr) : topSegmentsFrom q s ≠ [] := by
  induction s generalizing q with
  | nil => exact List.cons_ne_nil _ _
  | cons c s ih =>
    rw [topSegmentsFrom]
    split_ifs
    · exact List.cons_ne_nil _ _
    · simpa using ih _

/-- **The pieces of the segments** are the pieces of the command: a shell cuts at some of the
separators. -/
theorem flatMap_topSegmentsFrom (q : Quoting) (s : PyStr) :
    (topSegmentsFrom q s).flatMap (List.splitOnP isSeparator) = s.splitOnP isSeparator := by
  induction s generalizing q with
  | nil => rfl
  | cons c s ih =>
    rw [topSegmentsFrom, List.splitOnP_cons_eq_if_modifyHead]
    split_ifs with hcut hsep hsep
    · rw [List.flatMap_cons, ih]
      rfl
    · exact absurd hcut.2 hsep
    · -- a quoted separator
      obtain ⟨w, ws, hw⟩ := List.exists_cons_of_ne_nil (topSegmentsFrom_ne_nil (q.next c) s)
      rw [← ih (q.next c), hw, List.modifyHead_cons, List.flatMap_cons, List.flatMap_cons,
        List.splitOnP_cons_eq_if_modifyHead, if_pos hsep]
      rfl
    · obtain ⟨w, ws, hw⟩ := List.exists_cons_of_ne_nil (topSegmentsFrom_ne_nil (q.next c) s)
      rw [← ih (q.next c), hw, List.modifyHead_cons, List.flatMap_cons, List.flatMap_cons,
        List.splitOnP_cons_eq_if_modifyHead, if_neg hsep]
      obtain ⟨v, vs, hv⟩ := List.exists_cons_of_ne_nil (List.splitOnP_ne_nil isSeparator w)
      rw [hv]
      rfl

theorem flatMap_topSegments (cmd : PyStr) :
    (topSegments cmd).flatMap (List.splitOnP isSeparator) = cmd.splitOnP isSeparator :=
  flatMap_topSegmentsFrom .plain cmd

/-- A character that does not quote leaves a shell as it is. -/
theorem next_plain {c : CodePoint} (h : isQuoting c = false) : Quoting.plain.next c = .plain := by
  have hne : ∀ d ∈ str "\"'\\", c ≠ d := by
    rintro d hd rfl
    rw [isQuoting, PyStr.oneOf, List.elem_eq_mem, decide_eq_false_iff_not] at h
    exact h hd
  rw [Quoting.next, if_neg (hne _ (by decide)), if_neg (hne _ (by decide)),
    if_neg (hne _ (by decide))]

/-- A segment without quoting has no separator. The first segment of a text has begun, and is
whole if nothing is quoted there. -/
theorem isSeparator_of_unquotedFrom (q : Quoting) (s : PyStr) : ∃ w ws,
    topSegmentsFrom q s = w :: ws ∧ (q = .plain → Unquoted w → ∀ c ∈ w, isSeparator c = false) ∧
      ∀ v ∈ ws, Unquoted v → ∀ c ∈ v, isSeparator c = false := by
  induction s generalizing q with
  | nil => exact ⟨[], [], rfl, fun _ _ => List.forall_mem_nil _, List.forall_mem_nil _⟩
  | cons c s ih =>
    rw [topSegmentsFrom]
    split_ifs with hcut
    · obtain ⟨w, ws, hw, hfirst, hrest⟩ := ih .plain
      refine ⟨[], _, rfl, fun _ _ => List.forall_mem_nil _, ?_⟩
      rw [hw]
      exact List.forall_mem_cons.mpr ⟨hfirst rfl, hrest⟩
    · obtain ⟨w, ws, hw, hfirst, hrest⟩ := ih (q.next c)
      refine ⟨c :: w, ws, by rw [hw, List.modifyHead_cons], ?_, hrest⟩
      rintro rfl hunquoted
      obtain ⟨hc, hunquoted⟩ := List.forall_mem_cons.mp hunquoted
      refine List.forall_mem_cons.mpr ⟨?_, hfirst (next_plain hc) hunquoted⟩
      exact Bool.eq_false_iff.mpr fun hsep => hcut ⟨rfl, hsep⟩

theorem isSeparator_of_unquoted {cmd segment : PyStr} (h : segment ∈ topSegments cmd)
    (hunquoted : Unquoted segment) : ∀ c ∈ segment, isSeparator c = false := by
  obtain ⟨w, ws, hw, hfirst, hrest⟩ := isSeparator_of_unquotedFrom .plain cmd
  rw [topSegments, hw] at h
  rcases List.mem_cons.mp h with rfl | h
  · exact hfirst rfl hunquoted
  · exact hrest segment h hunquoted

/-! ### What is returned -/

/-- A URL has characters that are no punctuation. -/
theorem ne_nil_of_mem_findUrls {rt : Runtime} {text u : PyStr} (h : u ∈ findUrls rt text) :
    u ≠ [] := by
  obtain ⟨m, hm, rfl⟩ := List.mem_map.mp h
  obtain ⟨_, hrest, rfl, -, hrest'⟩ := Re.lang_seq.mp (Re.lang_of_mem_findall hm).1
  obtain ⟨_, _, rfl, -, htail⟩ := Re.lang_seq.mp hrest'
  obtain ⟨_, _, rfl, hmark, -⟩ := Re.lang_seq.mp htail
  obtain ⟨_, _, rfl, -, hslashes⟩ := Re.lang_seq.mp hmark
  obtain ⟨_, _, rfl, hslash, -⟩ := Re.lang_seq.mp hslashes
  obtain ⟨x, rfl, hfold⟩ := Re.lang_set.mp hslash
  have hx : Re.foldsTo (cp '/') x = true := hfold
  have hpunct : ((str ").],\x7d;\x22\x27>").all fun c => !Re.foldsTo (cp '/') c) = true := by decide
  intro hnil
  have hall := List.rdropWhile_eq_nil_iff.mp hnil x (by simp)
  rw [PyStr.oneOf, List.elem_iff] at hall
  have hnot := List.all_eq_true.mp hpunct x hall
  rw [hx] at hnot
  cases hnot

theorem unwrapGo_eq_rounds (uni : Unicode) (depth : ℕ) (queue seen : List PyStr) :
    unwrapGo uni depth queue seen = rounds (unwrapOnce uni) depth queue seen := by
  induction depth generalizing queue seen with
  | zero => rfl
  | succ depth ih =>
    rw [unwrapGo, rounds]
    simp only [ih]

theorem mem_innerTexts_iff {uni : Unicode} {cmd text : PyStr} :
    text ∈ innerTexts uni cmd ↔ Unwraps uni cmd text := by
  rw [innerTexts, unwrapGo_eq_rounds, mem_rounds_iff, Unwraps]

/-- **The URLs that are returned** stand in a piece that does not begin with a downloader, or in an
unwrapped text. -/
theorem mem_extractUrls_iff {rt : Runtime} {cmd u : PyStr} : u ∈ extractUrls rt cmd ↔
    (∃ piece ∈ cmd.splitOnP isSeparator, segmentDispatchesToNative piece = false ∧
      u ∈ findUrls rt piece) ∨
    ∃ text, Unwraps rt.unicode cmd text ∧ u ∈ findUrls rt text := by
  have hsep := separates_reShellSeparators rt.unicode
  rw [extractUrls, mem_dedupe, List.flatMap_append, List.mem_append, List.mem_flatMap,
    List.mem_flatMap]
  simp only [mem_innerTexts_iff]
  constructor
  · rintro ⟨⟨piece, hpiece, hu⟩ | ⟨text, htext, hu⟩, -⟩
    · obtain ⟨hsplit, hnative⟩ := List.mem_filter.mp hpiece
      rcases Re.mem_split hsep hsplit with rfl | hmem
      · cases hu
      · exact .inl ⟨piece, hmem, by simpa using hnative, hu⟩
    · exact .inr ⟨text, htext, hu⟩
  · rintro (⟨piece, hpiece, hnative, hu⟩ | ⟨text, htext, hu⟩)
    · have hne : piece ≠ [] := by
        rintro rfl
        cases hu
      have hsplit := Re.mem_split_of_ne_nil hsep hpiece hne
      refine ⟨.inl ⟨piece, List.mem_filter.mpr ⟨hsplit, by simpa using hnative⟩, hu⟩, ?_⟩
      exact ne_nil_of_mem_findUrls hu
    · exact ⟨.inr ⟨text, htext, hu⟩, ne_nil_of_mem_findUrls hu⟩

/-! ### Arguments without separators -/

section Quotes

variable {q : Quoting} {c : CodePoint}

/-- An argument begins behind a quote. -/
theorem isDelimiter_of_opens (hq : q = .plain ∨ q = .escaped)
    (hnext : ¬ (q.next c = .plain ∨ q.next c = .escaped)) : isDelimiter c := by
  rcases hq with rfl | rfl
  · rw [Quoting.next] at hnext
    split_ifs at hnext with hesc hsingle hdouble
    · exact absurd (.inr rfl) hnext
    · exact hsingle ▸ by decide
    · exact hdouble ▸ by decide
    · exact absurd (.inl rfl) hnext
  · exact absurd (.inl rfl) hnext

/-- It ends at a quote. -/
theorem isDelimiter_of_closes (hq : ¬ (q = .plain ∨ q = .escaped)) (hnext : q.next c = .plain) :
    isDelimiter c := by
  cases q with
  | plain => exact absurd (.inl rfl) hq
  | escaped => exact absurd (.inr rfl) hq
  | single =>
    rw [Quoting.next] at hnext
    split_ifs at hnext with hc
    exact hc ▸ by decide
  | double =>
    rw [Quoting.next] at hnext
    split_ifs at hnext with _ hc
    exact hc ▸ by decide
  | doubleEscaped => cases hnext

/-- A backslash within quotes does not end an argument. -/
theorem next_ne_escaped (hq : ¬ (q = .plain ∨ q = .escaped)) : q.next c ≠ .escaped := by
  intro hnext
  cases q with
  | plain => exact hq (.inl rfl)
  | escaped => exact hq (.inr rfl)
  | single =>
    rw [Quoting.next] at hnext
    split_ifs at hnext
  | double =>
    rw [Quoting.next] at hnext
    split_ifs at hnext
  | doubleEscaped => cases hnext

end Quotes

/-- A quoted argument stands between quotes. -/
theorem delimited_of_quotedArgsFrom {q : Quoting} {a s arg : PyStr} (before : PyStr)
    (hplain : q = .plain ∨ q = .escaped → a = [])
    (hopen : ¬ (q = .plain ∨ q = .escaped) → ∀ c, before.getLast? = some c → isDelimiter c)
    (h : arg ∈ quotedArgsFrom q a s) : Delimited (before ++ a ++ s) arg := by
  induction s generalizing q a before with
  | nil => cases h
  | cons c s ih =>
    rw [quotedArgsFrom] at h
    split_ifs at h with hq hclose
    · -- the argument begins, or not yet
      obtain rfl := hplain hq
      have hrest := ih (before ++ [c]) (fun _ => rfl) (fun hnext d hd => ?_) h
      · rwa [List.append_nil, List.append_assoc, List.singleton_append,
          ← List.append_nil before] at hrest
      · obtain rfl : c = d := by simpa using hd
        exact isDelimiter_of_opens hq hnext
    · -- the argument ends
      rcases List.mem_cons.mp h with rfl | h
      · refine ⟨before, c :: s, rfl, hopen hq, fun d hd => ?_⟩
        obtain rfl := Option.some.inj hd
        exact isDelimiter_of_closes hq hclose
      · have hrest := ih (before ++ a ++ [c]) (fun _ => rfl) (fun hnext =>
          absurd (.inl rfl) hnext) h
        rwa [List.append_nil, List.append_assoc _ [c], List.singleton_append] at hrest
    · have hinside := not_or.mpr ⟨hclose, @next_ne_escaped q c hq⟩
      have hrest := ih before (fun h => absurd h hinside) (fun _ => hopen hq) h
      rwa [← List.append_assoc, List.append_assoc _ [c], List.singleton_append] at hrest

/-- **The URLs of the quoted arguments of a segment without separators** are returned. -/
theorem mem_extractUrls_of_quoted {rt : Runtime} {cmd segment arg u : PyStr}
    (hsegment : segment ∈ topSegments cmd) (hkept : segmentDispatchesToNative segment = false)
    (hnone : ∀ c ∈ segment, isSeparator c = false) (harg : arg ∈ quotedArgs segment)
    (hu : u ∈ findUrls rt arg) : u ∈ extractUrls rt cmd := by
  have hdelimited : Delimited segment arg :=
    delimited_of_quotedArgsFrom [] (fun _ => rfl) (fun h => absurd (.inl rfl) h) harg
  have hpiece : segment ∈ cmd.splitOnP isSeparator := by
    rw [← flatMap_topSegments]
    refine List.mem_flatMap.mpr ⟨segment, hsegment, ?_⟩
    rw [List.splitOnP_eq_singleton hnone]
    exact List.mem_singleton_self _
  exact mem_extractUrls_iff.mpr
    (.inl ⟨segment, hpiece, hkept, findUrls_subset_of_delimited hdelimited hu⟩)

/-! ### Arguments of a shell -/

/-- `["']`. -/
def isQuote (c : CodePoint) : Bool := PyStr.oneOf (str "\"'") c

section Shell

variable {shell payload rest : PyStr} {q q' : CodePoint}

/-- A call of a shell with a quoted argument. -/
def shellCall (shell payload rest : PyStr) (q q' : CodePoint) : PyStr :=
  shell ++ (str " " ++ (str "-c" ++ str " ")) ++ [q] ++ (payload ++ [q']) ++ rest

/-- The pattern reads the argument up to its first quote. -/
theorem reads_shellDashC {A : Alphabet CodePoint} (hshell : shell ∈ [str "sh", str "bash"])
    (hq : isQuote q) (hq' : isQuote q') (hne : payload ≠ [])
    (hfree : ∀ c ∈ payload, isQuote c = false) :
    Re.Reads A reShellDashC
      (shell ++ (str " " ++ (str "-c" ++ str " ")) ++ [q] ++ (payload ++ [q']))
        [(1, payload)] rest := by
  have hspace : q.isSpace = false := by
    have hall : (str "\"'").all fun c => !c.isSpace := by decide
    have hmem : q ∈ str "\"'" := by simpa [isQuote, PyStr.oneOf] using hq
    simpa using List.all_eq_true.mp hall q hmem
  have hblank : ∀ {x : CodePoint} {v : PyStr}, x.isSpace = false →
      Re.Reads A (.plus .space) (str " ") [] (x :: v) := fun h => (reads_blank h).1
  -- no `nohup` before the shell
  have hopt : ∀ v, Re.Reads A (.opt (.seq (.litI (str "nohup")) (.plus .space))) [] []
      (shell ++ v) := by
    intro v
    refine .right (fun prevWord caps => ?_) .eps
    have hnone : ∀ y s, Re.foldsTo (cp 'n') y = false → shell = y :: s →
        Re.run A (.litI (str "nohup")) ⟨prevWord, shell ++ v, caps⟩ = [] := by
      rintro y s hy rfl
      exact Re.run_litI_of_not (s ++ v) hy rfl
    have hlit : Re.run A (.litI (str "nohup")) ⟨prevWord, shell ++ v, caps⟩ = [] := by
      rcases List.mem_pair.mp hshell with rfl | rfl
      · exact hnone (cp 's') (str "h") (by decide) (by decide)
      · exact hnone (cp 'b') (str "ash") (by decide) (by decide)
    rw [List.nil_append, Re.run, hlit]
    rfl
  have hname : ∀ v, Re.Reads A (.oneOf [.litI (str "bash"), .litI (str "sh"), .litI (str "$shell"),
      .litI (str "/bin/bash"), .litI (str "/bin/sh")]) shell [] v := by
    intro v
    rcases List.mem_pair.mp hshell with rfl | rfl
    · exact .right (fun prevWord caps =>
        Re.run_litI_of_not (y := cp 's') (str "h" ++ v) (by decide) rfl) (.left (.litI rfl))
    · exact .left (.litI rfl)
  have hfront : Re.Reads A (.cat [.opt (.seq (.litI (str "nohup")) (.plus .space)),
      .oneOf [.litI (str "bash"), .litI (str "sh"), .litI (str "$shell"), .litI (str "/bin/bash"),
        .litI (str "/bin/sh")],
      .plus .space, .litI (str "-c"), .plus .space])
      ([] ++ (shell ++ (str " " ++ (str "-c" ++ str " ")))) ([] ++ ([] ++ ([] ++ ([] ++ []))))
      ([q] ++ ((payload ++ [q']) ++ rest)) :=
    .seq (by rw [List.append_assoc]; exact hopt _) <| .seq (hname _) <| .seq (hblank rfl) <|
      .seq (.litI rfl) (hblank hspace)
  have hquote : Re.Reads A quoteRe [q] [] ((payload ++ [q']) ++ rest) := .set hq
  exact (hfront.seq hquote).seq (.group_lazy_until hne (fun _ _ => rfl) hfree hq')

/-- **The URLs of the argument of a shell** are returned, wherever its separators fall, if no quote
stands in it. -/
theorem mem_extractUrls_of_shellCall {rt : Runtime} {u : PyStr}
    (hshell : shell ∈ [str "sh", str "bash"])
    (hq : isQuote q) (hq' : isQuote q') (hfree : ∀ c ∈ payload, isQuote c = false)
    (hu : u ∈ findUrls rt payload) : u ∈ extractUrls rt (shellCall shell payload rest q q') := by
  have hne : payload ≠ [] := by
    rintro rfl
    cases hu
  have hreads := @reads_shellDashC shell payload rest q q'
    (Re.text rt.unicode) hshell hq hq' hne hfree
  have hgroup : payload ∈ firstGroups rt.unicode reShellDashC
      (shellCall shell payload rest q q') := by
    refine List.mem_filterMap.mpr ⟨_, Re.mem_finditer_of_reads ?_ hreads, rfl⟩
    simp
  refine mem_extractUrls_iff.mpr
    (.inr ⟨payload, ⟨fun heq => ?_, 1, by decide, payload, ?_, rfl⟩, hu⟩)
  · have hlen := congrArg List.length heq
    simp only [shellCall, List.length_append, List.length_singleton] at hlen
    omega
  · exact List.mem_append_right _ hgroup

end Shell

/-! ### When the gap is filled -/

/-- A URL of a piece occurs in a segment; not in one that is unquoted and begins with a downloader,
which is a piece itself. -/
theorem elsewhere_of_piece {rt : Runtime} {cmd piece u : PyStr}
    (hpiece : piece ∈ cmd.splitOnP isSeparator) (hkept : segmentDispatchesToNative piece = false)
    (hu : u ∈ findUrls rt piece) {i : ℕ} {segment : PyStr}
    (hi : (topSegments cmd)[i]? = some segment)
    (hnative : segmentDispatchesToNative segment) (hunquoted : Unquoted segment) :
    Elsewhere rt.unicode cmd i u := by
  rw [← flatMap_topSegments] at hpiece
  obtain ⟨s, hs, hpiece⟩ := List.mem_flatMap.mp hpiece
  obtain ⟨j, hj⟩ := List.mem_iff_getElem?.mp hs
  refine .inl ⟨j, s, ?_, hj, ((cleanUrl_of_mem_findUrls hu).2).trans ?_⟩
  · rintro rfl
    obtain rfl := Option.some.inj (hi.symm.trans hj)
    rw [List.splitOnP_eq_singleton (isSeparator_of_unquoted hs hunquoted)] at hpiece
    rw [List.mem_singleton.mp hpiece, hnative] at hkept
    cases hkept
  · exact isInfix_of_mem_splitOnP hpiece

/-- **The commands for which the fetcher does what it is for.** -/
theorem fillsGap_iff (rt : Runtime) (cmd : PyStr) : FillsGap rt cmd ↔ Exposed rt cmd := by
  constructor
  · rintro ⟨hquoted, hnative⟩
    refine ⟨fun segment hsegment hkept _ arg harg u hu =>
      mem_extractUrls_iff.mp (hquoted segment hsegment hkept arg harg u hu), ?_⟩
    intro i segment hi hdispatch hunquoted u hu
    by_cases hreturned : u ∈ extractUrls rt cmd
    · exact .inl (hnative i segment hi hdispatch hunquoted u hu hreturned)
    · exact .inr fun text htext hmem =>
        hreturned (mem_extractUrls_iff.mpr (.inr ⟨text, htext, hmem⟩))
  · rintro ⟨hquoted, hnative⟩
    refine ⟨fun segment hsegment hkept arg harg u hu => ?_, ?_⟩
    · by_cases hsep : segment.any isSeparator = true
      · exact mem_extractUrls_iff.mpr (hquoted segment hsegment hkept hsep arg harg u hu)
      · exact mem_extractUrls_of_quoted hsegment hkept (by simpa using hsep) harg hu
    intro i segment hi hdispatch hunquoted u hu hreturned
    rcases hnative i segment hi hdispatch hunquoted u hu with h | hhidden
    · exact h
    rcases mem_extractUrls_iff.mp hreturned with ⟨piece, hpiece, hkept, hmem⟩ | ⟨text, htext, hmem⟩
    · exact elsewhere_of_piece hpiece hkept hmem hi hdispatch hunquoted
    · exact absurd hmem (hhidden text htext)

/-- A downloader behind a quote of the other kind. -/
def nestedQuotes : PyStr := str "sh -c 'echo \"hi\"; wget http://x.example/a'"

/-- The payload of `sh -c` ends for `extract_urls` at the inner quote, and the rest of the argument
is passed over as a call of `wget`. -/
theorem not_fillsGap_nested : ¬ FillsGap .basic nestedQuotes := by
  intro h
  have hsegments : topSegments nestedQuotes = [nestedQuotes] := by decide +kernel
  have hargs : quotedArgs nestedQuotes = [str "echo \"hi\"; wget http://x.example/a"] := by
    decide +kernel
  have hurls : findUrls .basic (str "echo \"hi\"; wget http://x.example/a") =
      [str "http://x.example/a"] := by decide +kernel
  have hreturned : extractUrls .basic nestedQuotes = [] := by decide +kernel
  have hmem := h.quoted nestedQuotes (hsegments ▸ List.mem_singleton_self _) (by decide +kernel)
    _ (hargs ▸ List.mem_singleton_self _) _ (hurls ▸ List.mem_singleton_self _)
  rw [hreturned] at hmem
  cases hmem

end C2Engine.Sensor
