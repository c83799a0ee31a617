import C2Engine.Analyze.Completeness
import C2Engine.Analyze.Shell
import C2Engine.Python.Split

/-!
# The URLs the sensor fetches

`extract_urls` of `output/urlfetcher.py`: the URLs of a command that the sensor fetches itself. It
is written apart from the engine's passes and differs from them in two places. The command is cut
at the separators of the shell, and of every piece the URLs are taken unless the honeypot emulates
its program; and one more wrapper is unwrapped, `sh -c '...'`. The patterns of URLs and of the other
wrappers are those of the engine, spelled the same.

A separator may stand inside what the engine reads as one URL, `http://host;ls`, and then the two
read different hosts. Everything else the sensor finds the engine finds too: a URL that no separator
cuts, and one in the payload of `sh -c`, which stands between quotes in a text the engine scans.

## Main definitions

* `Sensor.unwrapOnce`, `Sensor.extractUrls`: `_unwrap_once` and `extract_urls`.
* `Sensor.HostsAgree`: the hosts of the fetched URLs are endpoints of the engine.
* `Sensor.Torn`: a URL that is cut, or hidden from the engine.

## Main results

* `Sensor.findUrls_segment`: the URLs of a segment are URLs of the command, or cut.
* `Sensor.findUrls_shellDashC`: the URLs of a payload of `sh -c` are URLs of the text around it.
* `Sensor.hostsAgree_iff`: the commands for which sensor and engine agree.
-/

namespace C2Engine.Sensor

open Python

/-! ### Extraction -/

/-- `_NATIVE_DOWNLOADER_BASENAMES`. -/
def nativeDownloaderBasenames : List PyStr :=
  [str "wget", str "curl", str "tftp", str "ftpget", str "scp"]

/-- The characters of the separators. -/
def isSeparator : CodePoint → Bool := PyStr.oneOf (str ";&|\n")

/-- `_SHELL_SEPARATORS_RE`. -/
def reShellSeparators : Re CodePoint :=
  .oneOf [.lit (str "&&"), .lit (str "||"), .plus (.set isSeparator)]

/-- `_segment_dispatches_to_native`. -/
def segmentDispatchesToNative (segment : PyStr) : Bool :=
  match PyStr.words (PyStr.strip segment) with
  | [] => false
  | token :: _ => nativeDownloaderBasenames.elem (PyStr.rpartition (cp '/') token).2.2

/-- `_RE_SHELL_DASH_C`. -/
def reShellDashC : Re CodePoint :=
  .seq (.seq (.cat [.opt (.seq (.litI (str "nohup")) (.plus .space)),
      .oneOf [.litI (str "bash"), .litI (str "sh"), .litI (str "$shell"), .litI (str "/bin/bash"),
        .litI (str "/bin/sh")],
      .plus .space, .litI (str "-c"), .plus .space]) quoteRe)
    (.seq (.group 1 (.plusLazy .any)) quoteRe)

/-- `_unwrap_once`: the wrappers of the engine, and `sh -c`. -/
def unwrapOnce (uni : Unicode) (text : PyStr) : List PyStr :=
  C2Engine.unwrapOnce uni text ++ firstGroups uni reShellDashC text

/-- `_MAX_UNWRAP_DEPTH`. -/
def maxUnwrapDepth : ℕ := 4

/-- The loop of `extract_urls` over the layers of payloads, with the texts of `queue` to unwrap. -/
def unwrapGo (uni : Unicode) : ℕ → (queue seen : List PyStr) → List PyStr
  | 0, _, _ => []
  | depth + 1, queue, seen =>
    let nextQueue := unseen seen (queue.flatMap (unwrapOnce uni))
    if nextQueue.isEmpty then [] else nextQueue ++ unwrapGo uni depth nextQueue (nextQueue ++ seen)

/-- `inner_texts`: the payloads inside a command. -/
def innerTexts (uni : Unicode) (cmd : PyStr) : List PyStr :=
  unwrapGo uni maxUnwrapDepth [cmd] [cmd]

/-- The segments of a command that no downloader of the honeypot is called in. -/
def segments (uni : Unicode) (cmd : PyStr) : List PyStr :=
  (Re.split (Re.text uni) reShellSeparators cmd).filter fun s => !segmentDispatchesToNative s

/-- `extract_urls`; `_take` keeps a URL that is not empty at its first place. -/
def extractUrls (rt : Runtime) (cmd : PyStr) : List PyStr :=
  dedupe ((segments rt.unicode cmd ++ innerTexts rt.unicode cmd).flatMap (findUrls rt))

example : extractUrls .basic (str "cd /tmp; x http://a.b/c;wget http://d.e") =
    [str "http://a.b/c"] := by decide +kernel

/-! ### Agreement with the engine -/

/-- **Agreement**: the engine returns on the command, and the host of a URL that the sensor fetches
is an endpoint. -/
def HostsAgree (rt : Runtime) (cmd : PyStr) : Prop :=
  ∀ u ∈ extractUrls rt cmd, ∀ h, urlHost rt u = .ok h → h ≠ [] →
    ∃ b, extract rt (expandedText rt.unicode [cmd]) [] = .ok b ∧ h ∈ b.c2Hosts

/-- The URLs of the pieces of words with a separator, a word being a run of characters a URL may
contain. -/
def cutUrls (rt : Runtime) (cmd : PyStr) : List PyStr :=
  ((cmd.splitOnP isUrlStop).filter fun word => word.any isSeparator).flatMap fun word =>
    (word.splitOnP isSeparator).flatMap (findUrls rt)

/-- The payloads that only the sensor unwraps, besides those of `sh -c` in a text the engine
scans. -/
def hiddenTexts (uni : Unicode) (cmd : PyStr) : List PyStr :=
  (innerTexts uni cmd).filter fun text =>
    !(expandCommand uni cmd).elem text &&
      !((expandCommand uni cmd).flatMap (firstGroups uni reShellDashC)).elem text

theorem mem_hiddenTexts {uni : Unicode} {cmd text : PyStr} : text ∈ hiddenTexts uni cmd ↔
    text ∈ innerTexts uni cmd ∧ text ∉ expandCommand uni cmd ∧
      text ∉ (expandCommand uni cmd).flatMap (firstGroups uni reShellDashC) := by
  rw [hiddenTexts, List.mem_filter, Bool.and_eq_true, Bool.not_eq_true', Bool.not_eq_true',
    List.elem_eq_mem, List.elem_eq_mem, decide_eq_false_iff_not, decide_eq_false_iff_not]

/-- A URL that stands in a longer word of the command, cut by a separator, or in a payload that is
hidden from the engine. -/
def Torn (rt : Runtime) (cmd u : PyStr) : Prop :=
  u ∈ cutUrls rt cmd ∨ ∃ text ∈ hiddenTexts rt.unicode cmd, u ∈ findUrls rt text

/-- A host that the text shows in another way: as an address, or in a URL as it stands there. -/
def Shown (rt : Runtime) (text h : PyStr) : Prop :=
  h ∈ ipTokens rt text ∨ ∃ v ∈ findUrls rt text, urlHost rt v = .ok h

/-! ### The segments -/

theorem isWord_of_isUrlStop {uni : Unicode} {c : CodePoint} (h : isUrlStop c) :
    uni.isWord c = false := by
  rw [isUrlStop, Bool.or_eq_true] at h
  rcases h with h | h
  · exact isWord_of_isDelimiter (by rw [isDelimiter, h, Bool.true_or])
  · rw [PyStr.oneOf, List.elem_iff] at h
    have hall : (str "\"'`<>|").all fun c => c.isAscii && !(c.isAsciiAlnum || c == cp '_') := by
      decide
    have hc := List.all_eq_true.mp hall c h
    rw [Bool.and_eq_true, Bool.not_eq_true'] at hc
    rw [uni.isWord_ascii c hc.1, hc.2]

/-- The URLs of a text are those of its words. -/
theorem findUrls_words (rt : Runtime) (text : PyStr) :
    findUrls rt text = (text.splitOnP isUrlStop).flatMap (findUrls rt) := by
  rw [findUrls, Re.findall_splitOnP (p := isUrlStop) (fun c hc => isWord_of_isUrlStop hc)
    (fun c hc => local_reUrl_of_isUrlStop hc) (by decide), List.map_flatMap]
  rfl

theorem separates_reShellSeparators (uni : Unicode) :
    Re.Separates (Re.text uni) reShellSeparators isSeparator where
  reads := by
    intro w hw x hx
    rcases Re.lang_alt.mp hw with hw | hw
    · rw [Re.lang_lit.mp hw] at hx
      have hall : (str "&&").all isSeparator := by decide
      exact List.all_eq_true.mp hall x hx
    · rcases Re.lang_alt.mp hw with hw | hw
      · rw [Re.lang_lit.mp hw] at hx
        have hall : (str "||").all isSeparator := by decide
        exact List.all_eq_true.mp hall x hx
      · exact (Re.lang_plus_set hw).2 x hx
  finds := by
    intro x xs b hx
    obtain ⟨d, hd, -⟩ := Re.Prefers.star_set (Re.text uni) isSeparator
      ⟨(Re.text uni).isWord x, xs, []⟩
    have hplus : Re.Prefers (Re.text uni) (.plus (.set isSeparator)) ⟨b, x :: xs, []⟩ d :=
      .seq (.set hx) hd
    -- whichever alternative is taken, the last one is there
    rw [Re.matchAt, Option.isSome_map, Option.isSome_iff_ne_none, ne_eq, List.head?_eq_none_iff]
    intro hnil
    have hlast : Re.run (Re.text uni) (.plus (.set isSeparator)) ⟨b, x :: xs, []⟩ = [] :=
      (List.append_eq_nil_iff.mp (List.append_eq_nil_iff.mp hnil).2).2
    rw [Re.Prefers, hlast] at hplus
    cases hplus
  minLen_pos := by decide

/-- **The URLs of a segment are URLs of the command**, but for those that a separator cuts. -/
theorem findUrls_segment {rt : Runtime} {cmd s u : PyStr}
    (hs : s ∈ Re.split (Re.text rt.unicode) reShellSeparators cmd) (hu : u ∈ findUrls rt s) :
    u ∈ findUrls rt cmd ∨ u ∈ cutUrls rt cmd := by
  rcases Re.mem_split (separates_reShellSeparators rt.unicode) hs with rfl | hs
  · cases hu
  -- cut at the separators and then into words, the command has the pieces it has cut into words
  -- and then at the separators
  have hpieces : (cmd.splitOnP isSeparator).flatMap (List.splitOnP isUrlStop) =
      (cmd.splitOnP isUrlStop).flatMap (List.splitOnP isSeparator) := by
    rw [flatMap_splitOnP, flatMap_splitOnP]
    simp only [Bool.or_comm]
  rw [findUrls_words] at hu
  obtain ⟨piece, hpiece, hu⟩ := List.mem_flatMap.mp hu
  have hmem : piece ∈ (cmd.splitOnP isSeparator).flatMap (List.splitOnP isUrlStop) :=
    List.mem_flatMap.mpr ⟨s, hs, hpiece⟩
  rw [hpieces] at hmem
  obtain ⟨word, hword, hpiece⟩ := List.mem_flatMap.mp hmem
  by_cases hcut : word.any isSeparator = true
  · refine .inr (List.mem_flatMap.mpr ⟨word, List.mem_filter.mpr ⟨hword, hcut⟩, ?_⟩)
    exact List.mem_flatMap.mpr ⟨piece, hpiece, hu⟩
  · have hnone : ∀ c ∈ word, isSeparator c = false := by simpa using hcut
    rw [List.splitOnP_eq_singleton hnone] at hpiece
    obtain rfl := List.mem_singleton.mp hpiece
    rw [findUrls_words]
    exact .inl (List.mem_flatMap.mpr ⟨piece, hword, hu⟩)

/-! ### The payloads -/

/-- **The URLs of a payload of `sh -c`** are URLs of the text it stands in. -/
theorem findUrls_shellDashC {rt : Runtime} {text payload : PyStr}
    (h : payload ∈ firstGroups rt.unicode reShellDashC text) :
    findUrls rt payload ⊆ findUrls rt text := by
  obtain ⟨m, hm, hgroup⟩ := List.mem_filterMap.mp h
  have hfree : quoteRe.GroupFree := trivial
  obtain ⟨u, v, ⟨a, b, htext⟩, hu, -, hv⟩ := Re.group_of_mem_finditer hfree hm hgroup
  obtain ⟨front, open_, rfl, -, hopen⟩ := Re.lang_seq.mp hu
  obtain ⟨q, rfl, hq⟩ := Re.lang_set.mp hopen
  obtain ⟨q', rfl, hq'⟩ := Re.lang_set.mp hv
  have hquote : ∀ c, PyStr.oneOf (str "\"'") c → isDelimiter c := by
    intro c hc
    rw [PyStr.oneOf, List.elem_iff] at hc
    have hall : (str "\"'").all isDelimiter := by decide
    exact List.all_eq_true.mp hall c hc
  refine findUrls_subset_of_delimited ⟨a ++ (front ++ [q]), q' :: b, ?_, ?_, ?_⟩
  · rw [← htext]
    simp
  · intro c hc
    have hlast : q = c := by simpa using hc
    exact hlast ▸ hquote q hq
  · intro c hc
    have hhead : q' = c := by simpa using hc
    exact hhead ▸ hquote q' hq'

/-- The URLs of a piece of the command are URLs of the engine's text. -/
theorem findUrls_expandedText {rt : Runtime} {cmd text : PyStr}
    (h : text ∈ expandCommand rt.unicode cmd) :
    findUrls rt text ⊆ findUrls rt (expandedText rt.unicode [cmd]) := by
  intro u hu
  rw [expandedText, findUrls_lines, expandedLines, List.flatMap_singleton]
  exact List.mem_flatMap.mpr ⟨text, h, hu⟩

/-- **What the sensor fetches is whole or torn**: a URL of the engine's text, or a torn one. -/
theorem mem_findUrls_or_torn {rt : Runtime} {cmd u : PyStr} (hu : u ∈ extractUrls rt cmd) :
    u ∈ findUrls rt (expandedText rt.unicode [cmd]) ∨ Torn rt cmd u := by
  rw [extractUrls, mem_dedupe, List.mem_flatMap] at hu
  obtain ⟨⟨text, htext, hu⟩, -⟩ := hu
  rcases List.mem_append.mp htext with hseg | hinner
  · rcases findUrls_segment (List.mem_filter.mp hseg).1 hu with h | h
    · exact .inl (findUrls_expandedText (mem_expandCommand_self _ cmd) h)
    · exact .inr (.inl h)
  · by_cases hline : text ∈ expandCommand rt.unicode cmd
    · exact .inl (findUrls_expandedText hline hu)
    by_cases hdash : text ∈ (expandCommand rt.unicode cmd).flatMap
        (firstGroups rt.unicode reShellDashC)
    · obtain ⟨line, hline, hpayload⟩ := List.mem_flatMap.mp hdash
      exact .inl (findUrls_expandedText hline (findUrls_shellDashC hpayload hu))
    · have hhidden := mem_hiddenTexts.mpr ⟨hinner, hline, hdash⟩
      exact .inr (.inr ⟨text, hhidden, hu⟩)

/-- The endpoints of the engine are the hosts its text shows. -/
theorem mem_c2Hosts_iff_shown {rt : Runtime} {text : PyStr} {b : IocBundle}
    (hb : extract rt text [] = .ok b) (h : PyStr) : h ∈ b.c2Hosts ↔ h ≠ [] ∧ Shown rt text h := by
  rw [mem_c2Hosts_extract hb, allUrls, List.nil_append]
  exact Iff.rfl

/-- **The commands for which sensor and engine agree**: no URL of the engine's text has an authority
that `urlparse` refuses, and the host of every torn URL is shown in another way. -/
theorem hostsAgree_iff (rt : Runtime) (cmd : PyStr) :
    HostsAgree rt cmd ↔ ∀ u ∈ extractUrls rt cmd, ∀ h, urlHost rt u = .ok h → h ≠ [] →
      (∀ v ∈ findUrls rt (expandedText rt.unicode [cmd]), Readable rt v) ∧
      (Torn rt cmd u → Shown rt (expandedText rt.unicode [cmd]) h) := by
  generalize htext : expandedText rt.unicode [cmd] = text
  have hreads : (∀ v ∈ findUrls rt text, Readable rt v) ↔ (extract rt text []).isOk := by
    rw [isOk_extract, allUrls, List.nil_append]
    simp only [isOk_urlHost]
  rw [HostsAgree, htext]
  refine forall₂_congr fun u hu => forall₃_congr fun h hh hne => ?_
  rw [hreads]
  constructor
  · rintro ⟨b, hb, hmem⟩
    exact ⟨isOk_iff.mpr ⟨b, hb⟩, fun _ => ((mem_c2Hosts_iff_shown hb h).mp hmem).2⟩
  · rintro ⟨hok, htorn⟩
    obtain ⟨b, hb⟩ := isOk_iff.mp hok
    refine ⟨b, hb, (mem_c2Hosts_iff_shown hb h).mpr ⟨hne, ?_⟩⟩
    rcases mem_findUrls_or_torn hu with hwhole | h'
    · exact .inr ⟨u, htext ▸ hwhole, hh⟩
    · exact htorn h'

/-- A command whose host ends at a separator. -/
def hostBeforeSeparator : PyStr := str "x http://evil.example.com;ls"

/-- The sensor fetches from a host that the engine has no endpoint for. -/
theorem not_hostsAgree : ¬ HostsAgree .basic hostBeforeSeparator := by
  intro h
  have hurls : extractUrls .basic hostBeforeSeparator = [str "http://evil.example.com"] := by
    decide +kernel
  have hhost : (urlHost .basic (str "http://evil.example.com")).toOption =
      some (str "evil.example.com") := by decide +kernel
  have hc2 : (extract .basic (expandedText .basic [hostBeforeSeparator]) []).toOption.map
      (fun b => b.c2Hosts) = some [str "evil.example.com;ls"] := by decide +kernel
  have hmem : str "http://evil.example.com" ∈ extractUrls .basic hostBeforeSeparator := by
    rw [hurls]
    exact List.mem_cons_self
  cases hok : urlHost .basic (str "http://evil.example.com") with
  | error e =>
    rw [hok] at hhost
    cases hhost
  | ok host =>
    rw [hok] at hhost
    obtain rfl : host = str "evil.example.com" := Option.some.inj hhost
    obtain ⟨b, hb, hc2Host⟩ := h _ hmem _ hok (List.cons_ne_nil _ _)
    have hb' : extract .basic (expandedText .basic [hostBeforeSeparator]) [] = .ok b := hb
    rw [hb'] at hc2
    have hhosts : b.c2Hosts = [str "evil.example.com;ls"] := Option.some.inj hc2
    rw [hhosts] at hc2Host
    revert hc2Host
    decide

end C2Engine.Sensor
