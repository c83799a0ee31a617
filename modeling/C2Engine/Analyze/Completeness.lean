import C2Engine.Analyze.Tokens

/-!
# Which URLs reach the pivot

A URL of one of the fetched schemes that stands between white space, quotes and the ends of a text
is found by the pattern for URLs, whatever stands around it. Its host is then among the endpoints,
unless some URL of the text or of the sensor has an authority `urlparse` refuses: the extraction
raises then, and gives no endpoint at all. The punctuation taken off the end of a URL makes such an
authority of every bracketed IPv6 literal with nothing behind its bracket.

## Main definitions

* `Delimited`: a text holds a URL between delimiters.
* `Reaches`: the extraction returns, with a given host among the endpoints.

## Main results

* `findUrls_of_delimited`: a delimited URL is found.
* `reaches_iff`: when the host of a URL reaches the pivot.
-/

namespace C2Engine

open Python

/-! ### Finding a URL -/

theorem prefers_litI {A : Alphabet CodePoint} {s u rest : PyStr} {c : Re.Cursor CodePoint}
    (hu : u.map CodePoint.asciiLower = s) (hc : c.rest = u ++ rest) :
    Re.Prefers A (.litI s) c (c.skip A u rest) := by
  rw [Re.Prefers, Re.run_litI s u c hu hc]
  rfl

theorem foldsTo_eq_false {x y : CodePoint} (hne : y.asciiLower ≠ x)
    (hx : PyStr.oneOf (str "ski") x = false) : Re.foldsTo x y = false := by
  have hnot : x ∉ str "ski" := by
    rw [← List.elem_iff]
    exact Bool.eq_false_iff.mp hx
  have hs : (x == cp 's') = false := beq_eq_false_iff_ne.mpr fun h => hnot (h ▸ by decide)
  have hk : (x == cp 'k') = false := beq_eq_false_iff_ne.mpr fun h => hnot (h ▸ by decide)
  have hi : (x == cp 'i') = false := beq_eq_false_iff_ne.mpr fun h => hnot (h ▸ by decide)
  rw [Re.foldsTo, hs, hk, hi, beq_eq_false_iff_ne.mpr hne]
  rfl

/-- The scheme of a URL is read whole. -/
theorem prefers_scheme (A : Alphabet CodePoint) {scheme body : PyStr} {c : Re.Cursor CodePoint}
    (hscheme : scheme.map CodePoint.asciiLower ∈ fetchSchemes)
    (hc : c.rest = scheme ++ (str "://" ++ body)) :
    ∃ d, Re.Prefers A reScheme c d ∧ d.rest = str "://" ++ body ∧ d.caps = c.caps := by
  simp only [fetchSchemes, List.mem_cons, List.not_mem_nil, or_false] at hscheme
  -- a scheme of the text that starts with another letter
  have hother : ∀ {x : CodePoint} {s s' : PyStr}, scheme.map CodePoint.asciiLower = x :: s' →
      ∀ {y : CodePoint}, x ≠ y → PyStr.oneOf (str "ski") y = false →
        Re.run A (.litI (y :: s)) c = [] := by
    intro x s s' hx y hne hy
    obtain ⟨z, t, rfl, hz, -⟩ := List.map_eq_cons_iff.mp hx
    exact Re.run_litI_of_not _ (foldsTo_eq_false (hz ▸ hne) hy) (by rw [hc]; rfl)
  have hseq : ∀ {s : PyStr} {r : Re CodePoint}, Re.run A (.litI s) c = [] →
      Re.run A (.seq (.litI s) r) c = [] := by
    intro s r h
    rw [Re.run, h]
    rfl
  rcases hscheme with hs | hs | hs | hs
  · refine ⟨c.skip A scheme (str "://" ++ body), .left (.seq (prefers_litI hs hc) (.right ?_
      (.eps _))), rfl, rfl⟩
    exact Re.run_litI_of_not (str "//" ++ body) (y := cp ':') (by decide) rfl
  · have hsplit : scheme.map CodePoint.asciiLower = str "http" ++ str "s" := hs
    obtain ⟨u, v, rfl, hu, hv⟩ := List.map_eq_append_iff.mp hsplit
    rw [List.append_assoc] at hc
    exact ⟨_, .left (.seq (prefers_litI hu hc) (.left (prefers_litI hv rfl))), rfl, rfl⟩
  · exact ⟨_, .right (hseq (hother (y := cp 'h') hs (by decide) (by decide)))
      (.left (prefers_litI hs hc)), rfl, rfl⟩
  · exact ⟨_, .right (hseq (hother (y := cp 'h') hs (by decide) (by decide)))
      (.right (hother (y := cp 'f') hs (by decide) (by decide)) (prefers_litI hs hc)), rfl, rfl⟩

/-- The match of a URL that starts a text: as far as no stop comes. -/
theorem prefers_reUrl (uni : Unicode) {scheme : PyStr} (rest : PyStr) {c : CodePoint}
    (hscheme : scheme.map CodePoint.asciiLower ∈ fetchSchemes) (hstop : isUrlStop c = false) :
    ∃ d, Re.Prefers (Re.text uni) reUrl ⟨false, scheme ++ (str "://" ++ c :: rest), []⟩ d ∧
      d.rest = rest.dropWhile fun c => !isUrlStop c := by
  set start : Re.Cursor CodePoint := ⟨false, scheme ++ (str "://" ++ c :: rest), []⟩ with hstart
  obtain ⟨d, hd, hdrest, hdcaps⟩ := prefers_scheme (Re.text uni) (c := start) hscheme rfl
  have hsep := prefers_litI (A := Re.text uni) (s := str "://") (u := str "://") (c := d)
    (by decide) hdrest
  obtain ⟨e, he, herest, -⟩ := Re.Prefers.star_set (Re.text uni) (fun c => !isUrlStop c)
    ⟨(Re.text uni).isWord c, rest, d.caps⟩
  have hfirst : Re.Prefers (Re.text uni) (.set fun c => !isUrlStop c)
      (d.skip (Re.text uni) (str "://") (c :: rest)) ⟨(Re.text uni).isWord c, rest, d.caps⟩ :=
    .set (by rw [hstop]; rfl)
  have hword : start.prevWord ≠ start.rest.head?.any (Re.text uni).isWord := by
    have halpha : ∃ x s', scheme = x :: s' ∧ x.isAscii ∧ x.isAsciiAlnum := by
      have hhead : fetchSchemes.all fun s => s.head?.any fun y => y.between 'a' 'z' := by decide
      have hany := List.all_eq_true.mp hhead _ hscheme
      cases scheme with
      | nil => cases hany
      | cons x s' =>
        have hlow : x.asciiLower.between 'a' 'z' := hany
        refine ⟨x, s', rfl, ?_⟩
        by_cases hup : x.between 'A' 'Z'
        · have hrange : 65 ≤ x.val ∧ x.val ≤ 90 := by simpa [CodePoint.between] using hup
          exact ⟨decide_eq_true (by omega), by
            simp [CodePoint.isAsciiAlnum, CodePoint.isAsciiAlpha, hup]⟩
        · rw [CodePoint.asciiLower, dif_neg hup] at hlow
          have hrange : 97 ≤ x.val ∧ x.val ≤ 122 := by simpa [CodePoint.between] using hlow
          exact ⟨decide_eq_true (by omega), by
            simp [CodePoint.isAsciiAlnum, CodePoint.isAsciiAlpha, hlow]⟩
    obtain ⟨x, s', rfl, hascii, halnum⟩ := halpha
    have hisWord : uni.isWord x = true := by rw [uni.isWord_ascii x hascii, halnum, Bool.true_or]
    change false ≠ uni.isWord x
    rw [hisWord]
    exact Bool.false_ne_true
  exact ⟨e, .seq (.wordB hword) (.seq hd (.seq hsep (.seq hfirst he))), herest⟩

/-- The URL at the start of a text is found. -/
theorem mem_findUrls_of_start (rt : Runtime) {scheme : PyStr} (rest : PyStr) {c : CodePoint}
    (hscheme : scheme.map CodePoint.asciiLower ∈ fetchSchemes) (hstop : isUrlStop c = false) :
    stripUrlPunct (scheme ++ str "://" ++ c :: rest.takeWhile fun c => !isUrlStop c) ∈
      findUrls rt (scheme ++ str "://" ++ c :: rest) := by
  obtain ⟨d, hd, hdrest⟩ := prefers_reUrl rt.unicode rest hscheme hstop
  obtain ⟨x, xs, hxs⟩ : ∃ x xs, scheme ++ (str "://" ++ c :: rest) = x :: xs := by
    cases scheme with
    | nil => exact ⟨cp ':', _, rfl⟩
    | cons x s => exact ⟨x, _, rfl⟩
  have hconsumed : Re.consumed ⟨false, scheme ++ (str "://" ++ c :: rest), []⟩ d =
      scheme ++ str "://" ++ c :: rest.takeWhile fun c => !isUrlStop c := by
    refine Re.consumed_of_append ?_
    rw [hdrest]
    simp only [List.append_assoc, List.cons_append, List.takeWhile_append_dropWhile]
  rw [hxs] at hd hconsumed
  obtain ⟨us, hus⟩ := Re.findall_of_prefers hd
  rw [hconsumed] at hus
  rw [findUrls, List.append_assoc, hxs, hus]
  exact List.mem_map_of_mem List.mem_cons_self

/-! ### Delimiters -/

/-- White space and quotes. -/
def isDelimiter (c : CodePoint) : Bool := c.isSpace || PyStr.oneOf (str "\"'`") c

theorem isUrlStop_of_isDelimiter {c : CodePoint} (h : isDelimiter c) : isUrlStop c := by
  rw [isDelimiter, Bool.or_eq_true] at h
  rw [isUrlStop, Bool.or_eq_true]
  refine h.imp_right fun hc => ?_
  rw [PyStr.oneOf, List.elem_iff] at hc
  have hall : (str "\"'`").all fun c => PyStr.oneOf (str "\"'`<>|") c := by decide
  exact List.all_eq_true.mp hall c hc

/-- The text holds the URL between delimiters or its ends. -/
def Delimited (text url : PyStr) : Prop :=
  ∃ before after, text = before ++ url ++ after ∧ (∀ c, before.getLast? = some c → isDelimiter c) ∧
    ∀ c, after.head? = some c → isDelimiter c

/-- A delimiter is no word character. -/
theorem isWord_of_isDelimiter {uni : Unicode} {c : CodePoint} (h : isDelimiter c) :
    uni.isWord c = false := by
  rw [isDelimiter, Bool.or_eq_true] at h
  rcases h with h | h
  · by_contra hword
    rw [Bool.not_eq_false] at hword
    rw [uni.isWord_not_isSpace c hword] at h
    exact Bool.false_ne_true h
  · rw [PyStr.oneOf, List.elem_iff] at h
    have hall : (str "\"'`").all fun c => c.isAscii && !(c.isAsciiAlnum || c == cp '_') := by decide
    have hc := List.all_eq_true.mp hall c h
    rw [Bool.and_eq_true, Bool.not_eq_true'] at hc
    rw [uni.isWord_ascii c hc.1, hc.2]

/-- The URLs of a part of a text between delimiters are URLs of the text. -/
theorem findUrls_subset_of_delimited {rt : Runtime} {text url : PyStr} (h : Delimited text url) :
    findUrls rt url ⊆ findUrls rt text := by
  obtain ⟨before, after, rfl, hbefore, hafter⟩ := h
  have hcut : ∀ {c : CodePoint} (a b : PyStr), isDelimiter c →
      findUrls rt (a ++ c :: b) = findUrls rt a ++ findUrls rt b := by
    intro c a b hc
    rw [findUrls, Re.findall_append _ (isWord_of_isDelimiter hc)
      (local_reUrl_of_isUrlStop (isUrlStop_of_isDelimiter hc)) (by decide), List.map_append]
    rfl
  have hright : findUrls rt url ⊆ findUrls rt (url ++ after) := by
    cases after with
    | nil =>
      rw [List.append_nil]
      exact List.Subset.refl _
    | cons c after =>
      rw [hcut url after (hafter c rfl)]
      exact List.subset_append_left _ _
  rcases List.eq_nil_or_concat before with rfl | ⟨front, c, rfl⟩
  · exact hright
  · have hc : isDelimiter c := hbefore c (by simp)
    rw [List.concat_eq_append, List.append_assoc, List.append_assoc, List.singleton_append,
      hcut front (url ++ after) hc]
    exact List.Subset.trans hright (List.subset_append_right _ _)

/-! ### Taking punctuation off -/

/-- `rstrip` does not reach past a character it keeps. -/
theorem rstrip_append {p : CodePoint → Bool} {a b : PyStr} {c : CodePoint}
    (ha : a.getLast? = some c) (hc : p c = false) :
    PyStr.rstrip p (a ++ b) = a ++ PyStr.rstrip p b := by
  obtain ⟨front, rfl⟩ := List.getLast?_eq_some_iff.mp ha
  induction b using List.reverseRecOn with
  | nil =>
    rw [List.append_nil, PyStr.rstrip, PyStr.rstrip, List.rdropWhile_nil,
      List.rdropWhile_concat_neg _ _ _ (by rw [hc]; exact Bool.false_ne_true), List.append_nil]
  | append_singleton b d ih =>
    rw [PyStr.rstrip] at ih ⊢
    by_cases hd : p d
    · rw [← List.append_assoc, List.rdropWhile_concat_pos _ _ _ hd, ih, PyStr.rstrip,
        PyStr.rstrip, List.rdropWhile_concat_pos _ _ _ hd]
    · rw [← List.append_assoc, List.rdropWhile_concat_neg _ _ _ hd, PyStr.rstrip,
        List.rdropWhile_concat_neg _ _ _ hd, List.append_assoc]

/-- The punctuation that is taken off the end of a URL. -/
def isUrlPunct : CodePoint → Bool := PyStr.oneOf (str ").],\x7d;\x22\x27>")

theorem isTail_rstrip {tail : PyStr} (h : IsTail tail) : IsTail (PyStr.rstrip isUrlPunct tail) := by
  intro c hc
  obtain ⟨t, ht⟩ := List.rdropWhile_prefix isUrlPunct tail
  refine h c ?_
  rw [← ht, List.head?_append]
  change (PyStr.rstrip isUrlPunct tail).head?.or _ = _
  rw [hc]
  rfl

/-- The last character of an authority that no bracket ends. -/
theorem isUrlPunct_getLast {written host port : PyStr} (hform : HostForm written host)
    (hport : IsPort port) (h : written = host ∨ port ≠ []) :
    ∃ c, (written ++ port).getLast? = some c ∧ isUrlPunct c = false := by
  have hlabel : ∀ {c : CodePoint}, isLabelChar c → isUrlPunct c = false := by
    intro c hc
    rw [isUrlPunct, PyStr.oneOf, Bool.eq_false_iff, ne_eq, List.elem_iff]
    intro hmem
    have hall : (str ").],\x7d;\x22\x27>").all fun d => !isLabelChar d := by decide
    have hnot := List.all_eq_true.mp hall c hmem
    rw [hc] at hnot
    exact Bool.false_ne_true hnot
  rcases hport with rfl | ⟨digits, rfl, hdigits⟩
  · obtain rfl : written = host := h.resolve_right fun h => h rfl
    have hname : IsDnsName written := by
      rcases hform.cases' with ⟨-, hname⟩ | ⟨n, hself, -⟩
      · exact hname
      · have hlen := congrArg List.length hself
        simp only [List.length_cons, List.length_append, List.length_nil] at hlen
        omega
    obtain ⟨c, hc, hcl⟩ := getLast?_of_isDnsName hname
    exact ⟨c, by rw [List.append_nil, hc], hlabel hcl⟩
  · rcases List.eq_nil_or_concat digits with rfl | ⟨init, d, rfl⟩
    · exact ⟨cp ':', List.getLast?_concat, by decide⟩
    · refine ⟨d, ?_, hlabel (isLabelChar_of_isHexDigit (isHexDigit_of_isAsciiDigit
        (hdigits d (by simp))))⟩
      rw [List.concat_eq_append, ← List.cons_append, ← List.append_assoc, List.getLast?_concat]

theorem isUrlStop_of_isAuthorityChar {c : CodePoint} (h : isAuthorityChar c) :
    isUrlStop c = false := by
  have hcases := isAuthorityChar_cases h
  have hspace : c.isSpace = false := by
    simp only [CodePoint.isSpace, Bool.or_eq_false_iff, Bool.and_eq_false_iff,
      decide_eq_false_iff_not, beq_eq_false_iff_ne, ne_eq]
    omega
  rw [isUrlStop, hspace, Bool.false_or]
  exact oneOf_eq_false h (by decide)

/-- The visible part of what follows an authority. -/
def visibleTail (tail : PyStr) : PyStr := tail.takeWhile fun c => !isUrlStop c

theorem isTail_visibleTail {tail : PyStr} (h : IsTail tail) : IsTail (visibleTail tail) := by
  intro c hc
  refine h c ?_
  rw [← List.takeWhile_append_dropWhile (p := fun c => !isUrlStop c) (l := tail),
    List.head?_append]
  change (visibleTail tail).head?.or _ = _
  rw [hc]
  rfl

theorem stripUrlPunct_append {front rest : PyStr} {c : CodePoint} (hlast : front.getLast? = some c)
    (hc : isUrlPunct c = false) :
    stripUrlPunct (front ++ rest) = front ++ PyStr.rstrip isUrlPunct rest :=
  rstrip_append hlast hc

/-- A delimited URL is found, up to the punctuation at its end. -/
theorem mem_findUrls_of_delimited (rt : Runtime) {text scheme written host port tail : PyStr}
    (hscheme : scheme.map CodePoint.asciiLower ∈ fetchSchemes) (hform : HostForm written host)
    (hport : IsPort port)
    (hdelimited : Delimited text (scheme ++ str "://" ++ (written ++ port) ++ tail)) :
    stripUrlPunct (scheme ++ str "://" ++ (written ++ port) ++ visibleTail tail) ∈
      findUrls rt text := by
  have hchars := isAuthorityChar_of_form hform hport
  refine findUrls_subset_of_delimited hdelimited ?_
  cases hw : written ++ port with
  | nil => exact absurd (List.append_eq_nil_iff.mp hw).1 hform.written_ne_nil
  | cons c rest =>
    rw [hw] at hchars
    have hrest : ∀ d ∈ rest, (!isUrlStop d) = true := fun d hd => by
      rw [isUrlStop_of_isAuthorityChar (hchars d (List.mem_cons_of_mem c hd))]
      rfl
    have hmem := mem_findUrls_of_start rt (rest ++ tail) hscheme
      (isUrlStop_of_isAuthorityChar (hchars c List.mem_cons_self))
    rw [List.takeWhile_append_of_pos hrest] at hmem
    simpa only [visibleTail, List.append_assoc, List.cons_append] using hmem

/-- **A delimited URL is found with its authority**, where its authority does not end in a bracket
or something visible is behind it. -/
theorem findUrls_of_delimited (rt : Runtime) {text scheme written host port tail : PyStr}
    (hscheme : scheme.map CodePoint.asciiLower ∈ fetchSchemes) (hform : HostForm written host)
    (hport : IsPort port) (htail : IsTail tail)
    (hdelimited : Delimited text (scheme ++ str "://" ++ (written ++ port) ++ tail))
    (hbehind : (written = host ∨ port ≠ []) ∨ visibleTail tail ≠ []) :
    ∃ tail', IsTail tail' ∧
      scheme ++ str "://" ++ (written ++ port) ++ tail' ∈ findUrls rt text := by
  have hfound := mem_findUrls_of_delimited rt hscheme hform hport hdelimited
  have hvisible := isTail_visibleTail htail
  cases hv : visibleTail tail with
  | nil =>
    obtain ⟨c, hc, hpunct⟩ := isUrlPunct_getLast hform hport
      (hbehind.resolve_right fun h => h hv)
    rw [stripUrlPunct_append (by rw [List.getLast?_append, hc]; rfl) hpunct] at hfound
    exact ⟨_, isTail_rstrip hvisible, hfound⟩
  | cons c t =>
    -- the first character behind the authority stays
    rw [hv] at hfound hvisible
    have hpunct : isUrlPunct c = false := by
      have hall : (str "/?#").all fun c => !isUrlPunct c := by decide
      have hc := hvisible c rfl
      rw [isNetlocEnd, PyStr.oneOf, List.elem_iff] at hc
      have hnot := List.all_eq_true.mp hall c hc
      rwa [Bool.not_eq_true'] at hnot
    have hsplit : ∀ front t : PyStr, front ++ c :: t = front ++ [c] ++ t := by simp
    rw [hsplit, stripUrlPunct_append List.getLast?_concat hpunct, ← hsplit] at hfound
    exact ⟨c :: PyStr.rstrip isUrlPunct t, fun d hd => hvisible d hd, hfound⟩

/-- **A bracket with nothing visible behind it is taken off.** -/
theorem findUrls_of_bracketed (rt : Runtime) {text scheme host tail : PyStr} {n : ℕ}
    (hscheme : scheme.map CodePoint.asciiLower ∈ fetchSchemes)
    (h6 : ipAddress host = some (.v6 n none))
    (hdelimited : Delimited text
      (scheme ++ str "://" ++ (cp '[' :: (host ++ [cp ']']) ++ []) ++ tail))
    (hbehind : visibleTail tail = []) :
    ∃ rest, scheme ++ str "://" ++ cp '[' :: rest ∈ findUrls rt text ∧
      (∀ c ∈ rest, isAuthorityChar c) ∧ cp ']' ∉ rest := by
  have hfound := mem_findUrls_of_delimited rt hscheme (.ipv6 h6) (.inl rfl) hdelimited
  rw [hbehind, List.append_nil, List.append_nil] at hfound
  obtain ⟨u, hu⟩ := List.rdropWhile_prefix isUrlPunct host
  have hsub : ∀ c ∈ PyStr.rstrip isUrlPunct host, c ∈ host := by
    intro c hc
    rw [← hu]
    exact List.mem_append_left _ hc
  refine ⟨PyStr.rstrip isUrlPunct host, ?_, fun c hc => ?_, fun hmem => ?_⟩
  · have hbracket : stripUrlPunct (scheme ++ str "://" ++ cp '[' :: (host ++ [cp ']'])) =
        scheme ++ str "://" ++ cp '[' :: PyStr.rstrip isUrlPunct host := by
      have hsplit : ∀ t : PyStr, scheme ++ str "://" ++ cp '[' :: t =
          scheme ++ str "://" ++ [cp '['] ++ t := by simp
      have hclose : PyStr.rstrip isUrlPunct (host ++ [cp ']']) = PyStr.rstrip isUrlPunct host :=
        List.rdropWhile_concat_pos _ _ _ (by decide)
      have hopen : isUrlPunct (cp '[') = false := by decide
      rw [hsplit (host ++ [cp ']']), stripUrlPunct_append List.getLast?_concat hopen, hclose,
        hsplit (PyStr.rstrip isUrlPunct host)]
    rwa [hbracket] at hfound
  · refine (HostForm.ipv6 h6).isAuthorityChar ?_
    exact List.mem_cons_of_mem _ (List.mem_append_left _ (hsub c hc))
  · exact notMem_of_ipv6 h6 (by decide) (by decide) (by decide) (hsub _ hmem)

/-! ### The pivot -/

theorem hasSub_of_append (a needle b : PyStr) : PyStr.hasSub (a ++ needle ++ b) needle := by
  rw [PyStr.hasSub, List.any_eq_true]
  refine ⟨needle ++ b, (List.mem_tails _ _).mpr ⟨a, by rw [List.append_assoc]⟩, ?_⟩
  simp

/-- The host of a well-formed URL. -/
theorem urlHost_of_form {rt : Runtime} {scheme written host port tail : PyStr}
    (hscheme : IsScheme scheme) (hform : HostForm written host) (hport : IsPort port)
    (htail : IsTail tail) :
    urlHost rt (scheme ++ str "://" ++ (written ++ port) ++ tail) =
      .ok (rt.unicode.lower host) := by
  obtain ⟨r, hr, hname⟩ := hostname_of_form rt.unicode hscheme hform hport htail
  have hsub : PyStr.hasSub (scheme ++ str "://" ++ (written ++ port) ++ tail) (str "://") := by
    rw [List.append_assoc (scheme ++ str "://")]
    exact hasSub_of_append _ _ _
  rw [urlHost, if_pos hsub, hr, ← hname]
  rfl

/-- A well-formed URL with the given host is between delimiters in the text, with a scheme that is
fetched, or among the recorded URLs, with any scheme. -/
def Carries (text : PyStr) (existingUrls : List PyStr) (host : PyStr) : Prop :=
  (∃ scheme url, scheme.map CodePoint.asciiLower ∈ fetchSchemes ∧ IsUrl scheme url host ∧
    Delimited text url) ∨
  ∃ scheme url, IsScheme scheme ∧ IsUrl scheme url host ∧ url ∈ existingUrls

/-- The extraction returns, with the host in lower case among the endpoints. -/
def Reaches (rt : Runtime) (text : PyStr) (existingUrls : List PyStr) (host : PyStr) : Prop :=
  ∃ b, extract rt text existingUrls = .ok b ∧ rt.unicode.lower host ∈ b.c2Hosts

/-- `urlparse` accepts the URL, where it has an authority. -/
def Readable (rt : Runtime) (url : PyStr) : Prop :=
  PyStr.hasSub url (str "://") → (urlsplit rt.unicode url).isOk

instance (rt : Runtime) (url : PyStr) : Decidable (Readable rt url) :=
  inferInstanceAs (Decidable (_ → _))

theorem isOk_urlHost {rt : Runtime} {url : PyStr} : (urlHost rt url).isOk ↔ Readable rt url := by
  rw [urlHost, Readable]
  split_ifs with h
  · cases hs : urlsplit rt.unicode url <;> simp [h, Except.map, Except.isOk, Except.toBool]
  · exact iff_of_true rfl fun h' => absurd h' h

/-- The schemes that are fetched are schemes. -/
theorem isScheme_of_asciiLower {scheme : PyStr}
    (h : scheme.map CodePoint.asciiLower ∈ fetchSchemes) : IsScheme scheme := by
  refine isScheme_of_fold h (List.map_congr_left fun c hc => ?_)
  have hkelvin : c.val ≠ 0x212A := by
    intro hval
    have hall : fetchSchemes.all fun s => s.all CodePoint.isAscii := by decide
    have hascii := List.all_eq_true.mp (List.all_eq_true.mp hall _ h) _ (List.mem_map_of_mem hc)
    have hself : c = ⟨0x212A, by decide⟩ := Fin.ext hval
    rw [hself] at hascii
    exact absurd hascii (by decide)
  rw [CodePoint.fold, if_neg hkelvin]

theorem lower_ne_nil {rt : Runtime} {written host : PyStr} (h : HostForm written host) :
    rt.unicode.lower host ≠ [] := by
  have hascii : host.all CodePoint.isAscii := by
    refine List.all_eq_true.mpr fun c hc => (visible_of_isAuthorityChar ?_).2
    rcases h.cases' with ⟨rfl, -⟩ | ⟨n, rfl, -⟩
    · exact h.isAuthorityChar hc
    · exact h.isAuthorityChar (List.mem_cons_of_mem _ (List.mem_append_left _ hc))
  rw [rt.unicode.lower_ascii host hascii, ne_eq, List.map_eq_nil_iff]
  exact h.host_ne_nil

/-- **When the host of a URL reaches the pivot**: exactly when every URL that is found in the text
and every recorded URL has an authority `urlparse` accepts. -/
theorem reaches_iff {rt : Runtime} {text : PyStr} {existingUrls : List PyStr} {host : PyStr}
    (h : Carries text existingUrls host) :
    Reaches rt text existingUrls host ↔
      (∀ m ∈ Re.findall (Re.text rt.unicode) reUrl text, Readable rt (stripUrlPunct m)) ∧
      ∀ u ∈ existingUrls, Readable rt u := by
  have hall : (extract rt text existingUrls).isOk ↔
      (∀ m ∈ Re.findall (Re.text rt.unicode) reUrl text, Readable rt (stripUrlPunct m)) ∧
      ∀ u ∈ existingUrls, Readable rt u := by
    rw [isOk_extract, allUrls, List.forall_mem_append, findUrls, List.forall_mem_map, and_comm]
    simp only [isOk_urlHost]
  rw [← hall]
  constructor
  · rintro ⟨b, hb, -⟩
    rw [hb]
    rfl
  · intro hok
    obtain ⟨b, hb⟩ := isOk_iff.mp hok
    have hreadable := (isOk_extract rt text existingUrls).mp hok
    refine ⟨b, hb, (mem_c2Hosts_extract hb _).mpr ?_⟩
    rcases h with ⟨scheme, url, hscheme, ⟨written, port, tail, rfl, hform, hport, htail⟩, hdel⟩ |
      ⟨scheme, url, hscheme, ⟨written, port, tail, rfl, hform, hport, htail⟩, hmem⟩
    · refine ⟨lower_ne_nil hform, .inr ?_⟩
      have hscheme' := isScheme_of_asciiLower hscheme
      by_cases hbehind : (written = host ∨ port ≠ []) ∨ visibleTail tail ≠ []
      · obtain ⟨tail', htail', hfound⟩ :=
          findUrls_of_delimited rt hscheme hform hport htail hdel hbehind
        exact ⟨_, List.mem_append_right _ hfound, urlHost_of_form hscheme' hform hport htail'⟩
      · -- a bracket without its partner would be refused
        rw [not_or, not_or, not_not, not_not] at hbehind
        obtain ⟨⟨hwritten, rfl⟩, hvisible⟩ := hbehind
        obtain ⟨n, rfl, h6⟩ := hform.cases'.resolve_left fun h => hwritten h.1
        obtain ⟨rest, hfound, hrest, hclosed⟩ :=
          findUrls_of_bracketed rt hscheme h6 hdel hvisible
        have hok := isOk_urlHost.mp (hreadable _ (List.mem_append_right _ hfound))
          (hasSub_of_append _ _ _)
        rw [isOk_urlsplit_unclosed hscheme' hrest hclosed] at hok
        cases hok
    · exact ⟨lower_ne_nil hform, .inr ⟨_, List.mem_append_left _ hmem,
        urlHost_of_form hscheme hform hport htail⟩⟩

/-- The host of a URL with a path is extracted. -/
theorem reaches_url_with_path :
    Reaches .basic (str "wget 'HTTP://[2001:DB8::1]:80/x'") [] (str "2001:DB8::1") := by
  have h6 : ipAddress (str "2001:DB8::1") = some (.v6 0x20010db8000000000000000000000001 none) := by
    decide
  have hdigits : (str "80").all CodePoint.isAsciiDigit := by decide
  have hcarries : Carries (str "wget 'HTTP://[2001:DB8::1]:80/x'") [] (str "2001:DB8::1") := by
    refine .inl ⟨str "HTTP", str "HTTP://[2001:DB8::1]:80/x", by decide,
      ⟨cp '[' :: (str "2001:DB8::1" ++ [cp ']']), cp ':' :: str "80", str "/x", by decide, .ipv6 h6,
        .inr ⟨str "80", rfl, List.all_eq_true.mp hdigits⟩, ?_⟩,
      str "wget '", str "'", by decide, ?_, ?_⟩ <;>
    · intro c hc
      obtain rfl := Option.some.inj hc
      decide
  exact (reaches_iff hcarries).mpr (by decide +kernel)

/-- A bracketed address with nothing behind it makes the extraction raise. -/
theorem not_reaches_bracketed :
    Carries (str "wget http://[2001:db8::1]") [] (str "2001:db8::1") ∧
      ¬ Reaches .basic (str "wget http://[2001:db8::1]") [] (str "2001:db8::1") := by
  have h6 : ipAddress (str "2001:db8::1") = some (.v6 0x20010db8000000000000000000000001 none) := by
    decide
  refine ⟨.inl ⟨str "http", str "http://[2001:db8::1]", by decide,
    ⟨cp '[' :: (str "2001:db8::1" ++ [cp ']']), [], [], by decide, .ipv6 h6, .inl rfl,
      fun c hc => by cases hc⟩,
    str "wget ", [], by decide, ?_, fun c hc => by cases hc⟩, ?_⟩
  · intro c hc
    obtain rfl := Option.some.inj hc
    decide
  · rintro ⟨b, hb, -⟩
    have hok : (extract .basic (str "wget http://[2001:db8::1]") []).isOk = false := by
      decide +kernel
    rw [hb] at hok
    cases hok

/-- **The URLs that fail**: of an IPv6 literal in brackets with nothing visible behind it, the
closing bracket is taken for punctuation, so the extraction raises on every text with such a
URL. -/
theorem not_isOk_extract_of_bracketed {rt : Runtime} {text scheme host tail : PyStr} {n : ℕ}
    (hscheme : scheme.map CodePoint.asciiLower ∈ fetchSchemes)
    (h6 : ipAddress host = some (.v6 n none))
    (hdelimited : Delimited text
      (scheme ++ str "://" ++ (cp '[' :: (host ++ [cp ']']) ++ []) ++ tail))
    (hbehind : visibleTail tail = []) (existingUrls : List PyStr) :
    ¬ (extract rt text existingUrls).isOk := by
  obtain ⟨rest, hfound, hrest, hclosed⟩ :=
    findUrls_of_bracketed rt hscheme h6 hdelimited hbehind
  intro hok
  have hurl := (isOk_extract rt text existingUrls).mp hok _ (List.mem_append_right _ hfound)
  have hsplit := isOk_urlHost.mp hurl (hasSub_of_append _ _ _)
  rw [isOk_urlsplit_unclosed (isScheme_of_asciiLower hscheme) hrest hclosed] at hsplit
  cases hsplit

end C2Engine
