import C2Engine.Python.Case
import C2Engine.Python.Literal

/-!
# URLs by their parts

A URL with an authority, put together from a scheme, a host, a port and the rest. The host is an
IPv4 literal, an IPv6 literal in brackets, or a name of labels between dots. `urlsplit` takes such
a URL apart again: its host name is the host in lower case.

## Main definitions

* `HostForm`: a host as it is written in an authority, and the host.
* `IsUrl`: a URL with a given scheme and host.

## Main results

* `urlsplit_of_parts`: the result for a URL in parts.
* `hostname_of_form`: the host name of a well-formed URL.
* `isOk_urlsplit_unclosed`: an open bracket without its partner is refused.
-/

namespace C2Engine.Python

/-! ### Parts of a URL -/

/-- A character of a label of a DNS name. -/
def isLabelChar (c : CodePoint) : Bool := c.isAsciiAlnum || PyStr.oneOf (str "-_") c

/-- A DNS name: labels between dots. -/
def IsDnsName (s : PyStr) : Prop := ∀ l ∈ PyStr.split (cp '.') s, l ≠ [] ∧ ∀ c ∈ l, isLabelChar c

instance (s : PyStr) : Decidable (IsDnsName s) :=
  decidable_of_iff (∀ l ∈ PyStr.split (cp '.') s, l ≠ [] ∧ l.all isLabelChar)
    (by simp only [IsDnsName, List.all_eq_true])

/-- A host as it is written in an authority: an IPv4 literal, an IPv6 literal without a zone in
brackets, or a DNS name. -/
inductive HostForm : PyStr → PyStr → Prop
  | ipv4 {host : PyStr} {n : ℕ} (h : ipAddress host = some (.v4 n)) : HostForm host host
  | ipv6 {host : PyStr} {n : ℕ} (h : ipAddress host = some (.v6 n none)) :
      HostForm (cp '[' :: (host ++ [cp ']'])) host
  | name {host : PyStr} (h : IsDnsName host) : HostForm host host

/-- A port with its colon, or nothing. -/
def IsPort (port : PyStr) : Prop :=
  port = [] ∨ ∃ digits, port = cp ':' :: digits ∧ ∀ c ∈ digits, c.isAsciiDigit

/-- What may follow an authority: a path, a query, a fragment, or nothing. -/
def IsTail (tail : PyStr) : Prop := ∀ c, tail.head? = some c → isNetlocEnd c

/-- A URL of the given scheme and host. -/
structure IsUrl (scheme url host : PyStr) : Prop where
  parts : ∃ written port tail, url = scheme ++ str "://" ++ (written ++ port) ++ tail ∧
    HostForm written host ∧ IsPort port ∧ IsTail tail

/-! ### Characters -/

/-- The characters of the authorities above. -/
def isAuthorityChar (c : CodePoint) : Bool := isLabelChar c || PyStr.oneOf (str ".:[]") c

theorem isAuthorityChar_cases {c : CodePoint} (h : isAuthorityChar c) :
    (48 ≤ c.val ∧ c.val ≤ 58) ∨ (65 ≤ c.val ∧ c.val ≤ 91) ∨ (97 ≤ c.val ∧ c.val ≤ 122) ∨
      c.val = 45 ∨ c.val = 46 ∨ c.val = 93 ∨ c.val = 95 := by
  have hval : ∀ {d : Char}, c = cp d → c.val = d.val.toNat := fun h => congrArg Fin.val h
  simp only [isAuthorityChar, isLabelChar, CodePoint.isAsciiAlnum, CodePoint.isAsciiAlpha,
    CodePoint.isAsciiDigit, CodePoint.between, Bool.or_eq_true, Bool.and_eq_true,
    decide_eq_true_eq, PyStr.oneOf, str_eq, List.elem_eq_mem] at h
  simp only [show "-_".toList = ['-', '_'] from rfl,
    show ".:[]".toList = ['.', ':', '[', ']'] from rfl, List.map_cons, List.map_nil,
    List.mem_cons, List.not_mem_nil, or_false] at h
  rcases h with (((h | h) | h) | h | h) | h | h | h | h
  · exact .inr (.inr (.inl h))
  · exact .inr (.inl ⟨h.1, h.2.trans (by decide)⟩)
  · exact .inl ⟨h.1, h.2.trans (by decide)⟩
  · exact .inr (.inr (.inr (.inl (hval h))))
  · exact .inr (.inr (.inr (.inr (.inr (.inr (hval h))))))
  · exact .inr (.inr (.inr (.inr (.inl (hval h)))))
  · have := hval h
    exact .inl ⟨by rw [this]; decide, by rw [this]; decide⟩
  · have := hval h
    exact .inr (.inl ⟨by rw [this]; decide, by rw [this]; decide⟩)
  · exact .inr (.inr (.inr (.inr (.inr (.inl (hval h))))))

/-- A character of an authority is none of the given ones. -/
theorem oneOf_eq_false {c : CodePoint} (h : isAuthorityChar c) {chars : PyStr}
    (hchars : chars.all fun d => !isAuthorityChar d) : PyStr.oneOf chars c = false := by
  rw [PyStr.oneOf, Bool.eq_false_iff, ne_eq, List.elem_iff]
  intro hmem
  have hnot := List.all_eq_true.mp hchars c hmem
  rw [h] at hnot
  exact Bool.false_ne_true hnot

theorem isNetlocEnd_of_isAuthorityChar {c : CodePoint} (h : isAuthorityChar c) :
    isNetlocEnd c = false :=
  oneOf_eq_false h (by decide)

theorem visible_of_isAuthorityChar {c : CodePoint} (h : isAuthorityChar c) :
    0x20 < c.val ∧ c.isAscii := by
  have hcases := isAuthorityChar_cases h
  rw [CodePoint.isAscii, decide_eq_true_eq]
  omega

theorem isAuthorityChar_of_isLabelChar {c : CodePoint} (h : isLabelChar c) :
    isAuthorityChar c := by
  rw [isAuthorityChar, h, Bool.true_or]

theorem isLabelChar_of_isHexDigit {c : CodePoint} (h : c.isHexDigit) : isLabelChar c := by
  have hrange : (48 ≤ c.val ∧ c.val ≤ 57) ∨ (97 ≤ c.val ∧ c.val ≤ 102) ∨
      (65 ≤ c.val ∧ c.val ≤ 70) := by
    simpa [CodePoint.isHexDigit, CodePoint.isAsciiDigit, CodePoint.between, or_assoc] using h
  have halnum : c.isAsciiAlnum := by
    simp only [CodePoint.isAsciiAlnum, CodePoint.isAsciiAlpha, CodePoint.isAsciiDigit,
      CodePoint.between, Bool.or_eq_true, Bool.and_eq_true, decide_eq_true_eq]
    change ((97 ≤ c.val ∧ c.val ≤ 122) ∨ 65 ≤ c.val ∧ c.val ≤ 90) ∨ 48 ≤ c.val ∧ c.val ≤ 57
    omega
  rw [isLabelChar, halnum, Bool.true_or]

theorem isHexDigit_of_isAsciiDigit {c : CodePoint} (h : c.isAsciiDigit) : c.isHexDigit := by
  rw [CodePoint.isHexDigit, h, Bool.true_or, Bool.true_or]

/-- The characters of a DNS name. -/
theorem isLabelChar_of_isDnsName {s : PyStr} (h : IsDnsName s) {c : CodePoint} (hc : c ∈ s) :
    isLabelChar c ∨ c = cp '.' := by
  by_cases hdot : c = cp '.'
  · exact .inr hdot
  · obtain ⟨l, hl, hcl⟩ := PyStr.exists_mem_split hc hdot
    exact .inl ((h l hl).2 c hcl)

/-- A DNS name ends with a character of a label. -/
theorem getLast?_of_isDnsName {s : PyStr} (h : IsDnsName s) :
    ∃ c, s.getLast? = some c ∧ isLabelChar c := by
  rcases List.eq_nil_or_concat s with rfl | ⟨init, c, rfl⟩
  · exact absurd rfl (h [] (List.mem_singleton_self [])).1
  · rw [List.concat_eq_append] at h ⊢
    refine ⟨c, List.getLast?_concat, ?_⟩
    rcases isLabelChar_of_isDnsName h (List.mem_append_right _ (List.mem_singleton_self c)) with
      hc | rfl
    · exact hc
    · have hmem : [] ∈ PyStr.split (cp '.') (init ++ [cp '.']) := by
        rw [PyStr.split_concat]
        exact List.mem_append_right _ (List.mem_singleton_self [])
      exact absurd rfl (h [] hmem).1

/-- The value of an IPv4 literal. -/
theorem parseIpv4_of_ipAddress {s : PyStr} {n : ℕ} (h : ipAddress s = some (.v4 n)) :
    parseIpv4 s = some n := by
  rcases ipAddress_cases h with ⟨m, hm, heq⟩ | ⟨m, zone, -, -, heq⟩
  · cases heq
    exact hm
  · cases heq

/-- The value of an IPv6 literal without a zone. -/
theorem ipv6Value_of_ipAddress {s : PyStr} {n : ℕ} (h : ipAddress s = some (.v6 n none)) :
    ipv6Value s = some n := by
  rcases ipAddress_cases h with ⟨m, -, heq⟩ | ⟨m, zone, -, h6, heq⟩
  · cases heq
  · cases heq
    obtain ⟨hvalue, hs, -⟩ := parseIpv6_eq_some h6
    rw [hs rfl]
    exact hvalue

/-- An IPv4 literal is a name of digits. -/
theorem isDnsName_of_parseIpv4 {s : PyStr} {n : ℕ} (h : parseIpv4 s = some n) : IsDnsName s := by
  intro l hl
  have hoctet := isOctet_of_parseIpv4 h hl
  exact ⟨hoctet.ne_nil, fun c hc =>
    isLabelChar_of_isHexDigit (isHexDigit_of_isAsciiDigit (hoctet.digits c hc))⟩

/-- A host is a name or an IPv6 literal. -/
theorem HostForm.cases' {written host : PyStr} (h : HostForm written host) :
    (written = host ∧ IsDnsName host) ∨
    ∃ n, written = cp '[' :: (host ++ [cp ']']) ∧ ipAddress host = some (.v6 n none) := by
  cases h with
  | ipv4 h => exact .inl ⟨rfl, isDnsName_of_parseIpv4 (parseIpv4_of_ipAddress h)⟩
  | ipv6 h => exact .inr ⟨_, rfl, h⟩
  | name h => exact .inl ⟨rfl, h⟩

theorem HostForm.host_ne_nil {written host : PyStr} (h : HostForm written host) : host ≠ [] := by
  rintro rfl
  rcases h.cases' with ⟨-, hname⟩ | ⟨n, -, h6⟩
  · exact absurd rfl (hname [] (List.mem_singleton_self [])).1
  · have hnone : ipAddress [] = none := by decide
    rw [hnone] at h6
    cases h6

theorem HostForm.written_ne_nil {written host : PyStr} (h : HostForm written host) :
    written ≠ [] := by
  rcases h.cases' with ⟨rfl, -⟩ | ⟨n, rfl, -⟩
  · exact h.host_ne_nil
  · exact List.cons_ne_nil _ _

/-- A character of an IPv6 literal: a label's, a dot or a colon. -/
theorem isLabelChar_of_ipv6 {s : PyStr} {n : ℕ} (h : ipAddress s = some (.v6 n none))
    {c : CodePoint} (hc : c ∈ s) : isLabelChar c ∨ c = cp ':' ∨ c = cp '.' :=
  (isIpv6Char_of_ipv6Value (ipv6Value_of_ipAddress h) hc).imp_left isLabelChar_of_isHexDigit

theorem HostForm.isAuthorityChar {written host : PyStr} (h : HostForm written host)
    {c : CodePoint} (hc : c ∈ written) : isAuthorityChar c := by
  rcases h.cases' with ⟨rfl, hname⟩ | ⟨n, rfl, h6⟩
  · rcases isLabelChar_of_isDnsName hname hc with hlabel | rfl
    · exact isAuthorityChar_of_isLabelChar hlabel
    · decide
  · rw [List.mem_cons, List.mem_append, List.mem_singleton] at hc
    rcases hc with rfl | hc | rfl
    · decide
    · rcases isLabelChar_of_ipv6 h6 hc with hlabel | rfl | rfl
      · exact isAuthorityChar_of_isLabelChar hlabel
      · decide
      · decide
    · decide

theorem IsPort.isAuthorityChar {port : PyStr} (h : IsPort port) {c : CodePoint} (hc : c ∈ port) :
    isAuthorityChar c := by
  rcases h with rfl | ⟨digits, rfl, hdigits⟩
  · cases hc
  · rcases List.mem_cons.mp hc with rfl | hc
    · decide
    · exact isAuthorityChar_of_isLabelChar
        (isLabelChar_of_isHexDigit (isHexDigit_of_isAsciiDigit (hdigits c hc)))

theorem isAuthorityChar_of_form {written host port : PyStr} (h : HostForm written host)
    (hport : IsPort port) : ∀ c ∈ written ++ port, isAuthorityChar c := fun _ hc =>
  (List.mem_append.mp hc).elim h.isAuthorityChar hport.isAuthorityChar

/-! ### Splitting -/

/-- The filter of `cleanUrl`. -/
def isKept (c : CodePoint) : Bool := !PyStr.oneOf (str "\t\r\n") c

/-- The front of a URL is read as it is, and what follows without tabs and line breaks. -/
theorem cleanUrl_append {front tail : PyStr} (hne : front ≠ []) (h : ∀ c ∈ front, 0x20 < c.val) :
    cleanUrl (front ++ tail) = front ++ tail.filter isKept := by
  have hstrip : PyStr.lstrip (fun c => decide (c.val ≤ 0x20)) (front ++ tail) = front ++ tail := by
    cases front with
    | nil => exact absurd rfl hne
    | cons c s =>
      have hc := h c List.mem_cons_self
      exact List.dropWhile_cons_of_neg (by simpa using hc)
  have hfront : front.filter isKept = front := by
    have hclean := cleanUrl_of_visible h
    have hself : PyStr.lstrip (fun c => decide (c.val ≤ 0x20)) front = front := by
      cases front with
      | nil => rfl
      | cons c s =>
        have hc := h c List.mem_cons_self
        exact List.dropWhile_cons_of_neg (by simpa using hc)
    rwa [cleanUrl, hself] at hclean
  rw [cleanUrl, hstrip, List.filter_append]
  exact congrArg (· ++ _) hfront

theorem IsScheme.visible {scheme : PyStr} (h : IsScheme scheme) {c : CodePoint}
    (hc : c ∈ scheme) : 0x20 < c.val := by
  have hchar := List.all_eq_true.mp h.chars c hc
  by_contra hlow
  have hall : ∀ n : Fin 33, isSchemeChar (n.castLE (by decide)) = false := by decide
  have hfalse : isSchemeChar c = false := hall ⟨c.val, by omega⟩
  rw [hfalse] at hchar
  exact Bool.false_ne_true hchar

theorem IsScheme.ne_nil {scheme : PyStr} (h : IsScheme scheme) : scheme ≠ [] := by
  rintro rfl
  exact absurd h.head (by decide)

theorem IsTail.filter {tail : PyStr} (h : IsTail tail) : IsTail (tail.filter isKept) := by
  cases tail with
  | nil => exact h
  | cons c tail =>
    have hend := h c rfl
    have hkept : isKept c = true := by
      have hall : (str "/?#").all isKept := by decide
      rw [isNetlocEnd, PyStr.oneOf, List.elem_iff] at hend
      exact List.all_eq_true.mp hall c hend
    rw [List.filter_cons_of_pos hkept]
    intro d hd
    rw [List.head?_cons, Option.some.injEq] at hd
    rwa [← hd]

/-- **The result for a URL in parts.** -/
theorem urlsplit_of_parts (uni : Unicode) {scheme authority tail : PyStr}
    (hscheme : IsScheme scheme) (hauthority : ∀ c ∈ authority, isAuthorityChar c)
    (htail : IsTail tail) :
    urlsplit uni (scheme ++ str "://" ++ authority ++ tail) = (do
      checkAuthority uni authority
      return splitPath (uni.lower scheme) authority (tail.filter isKept)) := by
  have hfront : ∀ c ∈ scheme ++ str "://" ++ authority, 0x20 < c.val := by
    intro c hc
    rcases List.mem_append.mp hc with hc | hc
    · rcases List.mem_append.mp hc with hc | hc
      · exact hscheme.visible hc
      · have hall : (str "://").all fun c => decide (0x20 < c.val) := by decide
        exact of_decide_eq_true (List.all_eq_true.mp hall c hc)
    · exact (visible_of_isAuthorityChar (hauthority c hc)).1
  have hcolon : cp ':' ∉ scheme := by
    intro hmem
    exact absurd (List.all_eq_true.mp hscheme.chars _ hmem) (by decide)
  have hsplit : splitScheme uni (scheme ++ str "://" ++ authority ++ tail.filter isKept) =
      (uni.lower scheme, str "//" ++ (authority ++ tail.filter isKept)) := by
    have hpart := PyStr.partition_append (str "//" ++ (authority ++ tail.filter isKept)) hcolon
    have heq : scheme ++ str "://" ++ authority ++ tail.filter isKept =
        scheme ++ cp ':' :: (str "//" ++ (authority ++ tail.filter isKept)) := by
      simp only [List.append_assoc]
      rfl
    rw [splitScheme, heq, hpart]
    simp [hscheme.head, hscheme.chars]
  have hne : scheme ++ str "://" ++ authority ≠ [] := by
    simp [hscheme.ne_nil]
  rw [urlsplit, cleanUrl_append hne hfront, hsplit]
  dsimp only
  have hslashes : (str "//").isPrefixOf (str "//" ++ (authority ++ tail.filter isKept)) = true := by
    simp
  have hdrop : (str "//" ++ (authority ++ tail.filter isKept)).drop 2 =
      authority ++ tail.filter isKept := rfl
  have hin : ∀ c ∈ authority, (!isNetlocEnd c) = true := fun c hc => by
    rw [isNetlocEnd_of_isAuthorityChar (hauthority c hc)]
    rfl
  have htake : (tail.filter isKept).takeWhile (fun c => !isNetlocEnd c) = [] ∧
      (tail.filter isKept).dropWhile (fun c => !isNetlocEnd c) = tail.filter isKept := by
    have hfilter := htail.filter
    cases htl : tail.filter isKept with
    | nil => exact ⟨rfl, rfl⟩
    | cons c t =>
      rw [htl] at hfilter
      have hend := hfilter c rfl
      exact ⟨List.takeWhile_cons_of_neg (by simp [hend]),
        List.dropWhile_cons_of_neg (by simp [hend])⟩
  rw [if_pos hslashes, hdrop, List.takeWhile_append_of_pos hin, htake.1, List.append_nil,
    List.dropWhile_append_of_pos hin, htake.2]

/-- The authorities above are of ASCII. -/
theorem checkNetloc_of_authority {uni : Unicode} {authority : PyStr}
    (h : ∀ c ∈ authority, isAuthorityChar c) : checkNetloc uni authority = .ok () := by
  have hascii : authority.all CodePoint.isAscii = true :=
    List.all_eq_true.mpr fun c hc => (visible_of_isAuthorityChar (h c hc)).2
  rw [checkNetloc, if_pos hascii]

/-- A character of an authority is not another one. -/
theorem notMem_of_authority {s : PyStr} {d : CodePoint} (hd : isAuthorityChar d = false)
    (h : ∀ c ∈ s, isAuthorityChar c) : d ∉ s := by
  intro hmem
  rw [h d hmem] at hd
  cases hd

/-- A DNS name has no colon and no bracket. -/
theorem notMem_of_isDnsName {s : PyStr} (h : IsDnsName s) {d : CodePoint}
    (hd : isLabelChar d = false) (hdot : d ≠ cp '.') : d ∉ s := by
  intro hmem
  rcases isLabelChar_of_isDnsName h hmem with hlabel | rfl
  · rw [hlabel] at hd
    cases hd
  · exact hdot rfl

/-- An IPv6 literal has no bracket. -/
theorem notMem_of_ipv6 {s : PyStr} {n : ℕ} (h : ipAddress s = some (.v6 n none)) {d : CodePoint}
    (hd : isLabelChar d = false) (hcolon : d ≠ cp ':') (hdot : d ≠ cp '.') : d ∉ s := by
  intro hmem
  rcases isLabelChar_of_ipv6 h hmem with hlabel | rfl | rfl
  · rw [hlabel] at hd
    cases hd
  · exact hcolon rfl
  · exact hdot rfl

theorem IsPort.notMem {port : PyStr} (h : IsPort port) {d : CodePoint}
    (hd : d.isAsciiDigit = false) (hcolon : d ≠ cp ':') : d ∉ port := by
  rcases h with rfl | ⟨digits, rfl, hdigits⟩
  · exact List.not_mem_nil
  · rw [List.mem_cons, not_or]
    refine ⟨hcolon, fun hmem => ?_⟩
    rw [hdigits d hmem] at hd
    cases hd

/-- The authority of a well-formed URL passes the checks. -/
theorem checkAuthority_of_form {uni : Unicode} {written host port : PyStr}
    (hform : HostForm written host) (hport : IsPort port) :
    checkAuthority uni (written ++ port) = .ok () := by
  have hchars := isAuthorityChar_of_form hform hport
  rcases hform.cases' with ⟨rfl, hname⟩ | ⟨n, rfl, h6⟩
  · have hopen : (written ++ port).elem (cp '[') = false := by
      rw [Bool.eq_false_iff, ne_eq, List.elem_iff, List.mem_append, not_or]
      exact ⟨notMem_of_isDnsName hname (by decide) (by decide),
        hport.notMem (by decide) (by decide)⟩
    have hclose : (written ++ port).elem (cp ']') = false := by
      rw [Bool.eq_false_iff, ne_eq, List.elem_iff, List.mem_append, not_or]
      exact ⟨notMem_of_isDnsName hname (by decide) (by decide),
        hport.notMem (by decide) (by decide)⟩
    rw [checkAuthority, hopen, hclose]
    exact checkNetloc_of_authority hchars
  · have hopen : (cp '[' :: (host ++ [cp ']']) ++ port).elem (cp '[') = true := by
      rw [List.elem_iff]
      exact List.mem_cons_self
    have hclose : (cp '[' :: (host ++ [cp ']']) ++ port).elem (cp ']') = true := by
      rw [List.elem_iff]
      simp
    have hat : cp '@' ∉ cp '[' :: (host ++ [cp ']']) ++ port :=
      notMem_of_authority (by decide) hchars
    have hbracket : cp ']' ∉ host := notMem_of_ipv6 h6 (by decide) (by decide) (by decide)
    have hpart : PyStr.partition (cp ']') (host ++ [cp ']'] ++ port) = (host, true, port) := by
      rw [List.append_assoc, List.singleton_append, PyStr.partition_append port hbracket]
    have hhost : checkBracketedHost host = .ok () := by
      have hv : (host.head? == some (cp 'v')) = false := by
        rw [beq_eq_false_iff_ne]
        intro hhead
        have hmem : cp 'v' ∈ host := List.mem_of_head? hhead
        rcases isIpv6Char_of_ipv6Value (ipv6Value_of_ipAddress h6) hmem with h | h | h <;>
          exact absurd h (by decide)
      rw [checkBracketedHost, hv, h6]
      rfl
    have hnetloc : checkBracketedNetloc (cp '[' :: (host ++ [cp ']']) ++ port) = .ok () := by
      have hfst : PyStr.partition (cp '[') (cp '[' :: (host ++ [cp ']']) ++ port) =
          ([], true, host ++ [cp ']'] ++ port) := by
        rw [List.cons_append, PyStr.partition, if_pos rfl]
      have hportHead : (!port.isEmpty && port.head? != some (cp ':')) = false := by
        rcases hport with rfl | ⟨digits, rfl, -⟩ <;> rfl
      rw [checkBracketedNetloc, PyStr.rpartition_of_notMem hat]
      dsimp only
      rw [hfst]
      dsimp only
      rw [if_pos rfl, hpart]
      dsimp only
      rw [if_neg (by simp), hportHead, if_neg Bool.false_ne_true]
      exact hhost
    rw [checkAuthority, hopen, hclose, hnetloc]
    exact checkNetloc_of_authority hchars

/-- The host in the authority of a well-formed URL. -/
theorem rawHost_of_form {written host port : PyStr} (hform : HostForm written host)
    (hport : IsPort port) : rawHost (written ++ port) = host := by
  have hchars := isAuthorityChar_of_form hform hport
  have hat : cp '@' ∉ written ++ port := notMem_of_authority (by decide) hchars
  rw [rawHost, SplitResult.hostinfo]
  dsimp only
  rw [PyStr.rpartition_of_notMem hat]
  dsimp only
  rcases hform.cases' with ⟨rfl, hname⟩ | ⟨n, rfl, h6⟩
  · have hopen : cp '[' ∉ written ++ port := by
      rw [List.mem_append, not_or]
      exact ⟨notMem_of_isDnsName hname (by decide) (by decide),
        hport.notMem (by decide) (by decide)⟩
    have hcolon : cp ':' ∉ written := notMem_of_isDnsName hname (by decide) (by decide)
    rw [PyStr.partition_of_notMem hopen]
    dsimp only
    rw [if_neg Bool.false_ne_true]
    rcases hport with rfl | ⟨digits, rfl, -⟩
    · rw [List.append_nil, PyStr.partition_of_notMem hcolon]
    · rw [PyStr.partition_append digits hcolon]
  · have hbracket : cp ']' ∉ host := notMem_of_ipv6 h6 (by decide) (by decide) (by decide)
    rw [List.cons_append, PyStr.partition, if_pos rfl]
    dsimp only
    rw [if_pos rfl, List.append_assoc, List.singleton_append, PyStr.partition_append port hbracket]

/-- A host without a zone is its host name, in lower case. -/
theorem hostname_of_notMem (uni : Unicode) {r : SplitResult} (h : cp '%' ∉ rawHost r.netloc) :
    r.hostname uni = uni.lower (rawHost r.netloc) := by
  rw [SplitResult.hostname, hostinfo_fst, PyStr.partition_of_notMem h]
  rfl

/-- **The host name of a well-formed URL** is its host in lower case. -/
theorem hostname_of_form (uni : Unicode) {scheme written host port tail : PyStr}
    (hscheme : IsScheme scheme) (hform : HostForm written host) (hport : IsPort port)
    (htail : IsTail tail) :
    ∃ r, urlsplit uni (scheme ++ str "://" ++ (written ++ port) ++ tail) = .ok r ∧
      r.hostname uni = uni.lower host := by
  have hchars := isAuthorityChar_of_form hform hport
  refine ⟨splitPath (uni.lower scheme) (written ++ port) (tail.filter isKept), ?_, ?_⟩
  · rw [urlsplit_of_parts uni hscheme hchars htail, checkAuthority_of_form hform hport]
    rfl
  · have hraw := rawHost_of_form hform hport
    have hpercent : cp '%' ∉ host := by
      intro hmem
      have hsub := (rawHost_sublist (written ++ port)).subset
      rw [hraw] at hsub
      exact notMem_of_authority (by decide) hchars (hsub hmem)
    have hname := hostname_of_notMem uni
      (r := splitPath (uni.lower scheme) (written ++ port) (tail.filter isKept))
    rw [show (splitPath (uni.lower scheme) (written ++ port) (tail.filter isKept)).netloc =
      written ++ port from rfl, hraw] at hname
    exact hname hpercent

/-- **An open bracket without its partner** is refused. -/
theorem isOk_urlsplit_unclosed {uni : Unicode} {scheme rest : PyStr} (hscheme : IsScheme scheme)
    (hrest : ∀ c ∈ rest, isAuthorityChar c) (hclosed : cp ']' ∉ rest) :
    (urlsplit uni (scheme ++ str "://" ++ cp '[' :: rest)).isOk = false := by
  have hchars : ∀ c ∈ cp '[' :: rest, isAuthorityChar c := by
    intro c hc
    rcases List.mem_cons.mp hc with rfl | hc
    · decide
    · exact hrest c hc
  have hsplit := urlsplit_of_parts uni hscheme hchars
    (show IsTail [] from fun c hc => by cases hc)
  rw [List.append_nil] at hsplit
  have hopen : (cp '[' :: rest).elem (cp '[') = true := List.elem_iff.mpr List.mem_cons_self
  have hclose : (cp '[' :: rest).elem (cp ']') = false := by
    rw [Bool.eq_false_iff, ne_eq, List.elem_iff, List.mem_cons, not_or]
    exact ⟨by decide, hclosed⟩
  rw [hsplit, checkAuthority, hopen, hclose]
  rfl

end C2Engine.Python
