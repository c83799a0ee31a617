import C2Engine.Analyze.Iocs
import C2Engine.Python.Matching
import C2Engine.Python.UrlForm

/-!
# The addresses and hosts that are read

What the patterns for addresses accept, and what `urlparse` reads as the host of a URL. An address
in a text is four runs of digits between dots, with no bound on a number, or five or more runs of
hexadecimal digits between colons, with no bound on their count; so it is an IP literal only if the
numbers, or the count, are right. The host of a URL is a part of it in lower case.

## Main definitions

* `IsQuad`, `IsHexRun`: the texts of the two patterns.

## Main results

* `mem_ipTokens`, `isQuad_of_mem`, `isHexRun_of_mem`: the addresses of a text.
* `isIpLiteral_iff_of_isQuad`, `isIpLiteral_iff_of_isHexRun`: which of them are literals.
* `urlHost_cases`: the host of a URL.
-/

namespace C2Engine

open Python

variable {rt : Runtime}

/-! ### Addresses in a text -/

/-- Four runs of up to three digits between dots. -/
structure IsQuad (uni : Unicode) (s : PyStr) : Prop where
  runs : ∃ a b c d, s = a ++ cp '.' :: (b ++ cp '.' :: (c ++ cp '.' :: d)) ∧
    ∀ r ∈ [a, b, c, d], r ≠ [] ∧ r.length ≤ 3 ∧ ∀ x ∈ r, uni.isDigit x

/-- Five or more runs of up to four hexadecimal digits between colons. -/
structure IsHexRun (s : PyStr) : Prop where
  five : 5 ≤ (PyStr.split (cp ':') s).length
  hextets : ∀ p ∈ PyStr.split (cp ':') s, IsHextet p

/-- The texts of the pattern for IPv4 addresses: with or without a port. -/
theorem isQuad_of_lang {uni : Unicode} {m : PyStr} (h : Re.Lang (reIpv4 uni) m) :
    ∃ s port, m = s ++ port ∧ IsQuad uni s ∧
      (port = [] ∨ ∃ digits, port = cp ':' :: digits ∧ ∀ x ∈ digits, uni.isDigit x) := by
  obtain ⟨_, m₁, rfl, hword, hrest₁⟩ := Re.lang_seq.mp h
  obtain rfl := Re.lang_wordB.mp hword
  obtain ⟨three, m₂, rfl, hthree, hrest₂⟩ := Re.lang_seq.mp hrest₁
  obtain ⟨d, m₃, rfl, hd, hrest₃⟩ := Re.lang_seq.mp hrest₂
  obtain ⟨port, _, rfl, hport, hend⟩ := Re.lang_seq.mp hrest₃
  obtain rfl := Re.lang_wordB.mp hend
  have hrun : ∀ {w : PyStr}, Re.Lang (.seq (.between (.set uni.isDigit) 1 3) (.char (cp '.'))) w →
      ∃ r, w = r ++ [cp '.'] ∧ r ≠ [] ∧ r.length ≤ 3 ∧ ∀ x ∈ r, uni.isDigit x := by
    intro w hw
    obtain ⟨r, dot, rfl, hr, hdot⟩ := Re.lang_seq.mp hw
    obtain ⟨x, rfl, hx⟩ := Re.lang_set.mp hdot
    obtain rfl := beq_iff_eq.mp hx
    exact ⟨r, rfl, Re.lang_between_set hr⟩
  obtain ⟨w₁, w', rfl, h₁, h'⟩ := Re.lang_seq.mp hthree
  obtain ⟨w₂, w₃, rfl, h₂, h₃⟩ := Re.lang_seq.mp h'
  obtain ⟨a, rfl, ha⟩ := hrun h₁
  obtain ⟨b, rfl, hb⟩ := hrun h₂
  obtain ⟨c, rfl, hc⟩ := hrun h₃
  refine ⟨a ++ cp '.' :: (b ++ cp '.' :: (c ++ cp '.' :: d)), port, by simp, ⟨a, b, c, d, rfl, ?_⟩,
    ?_⟩
  · simp only [List.forall_mem_cons, List.not_mem_nil, false_implies, implies_true, and_true]
    exact ⟨ha, hb, hc, Re.lang_between_set hd⟩
  · rcases Re.lang_opt.mp hport with hport | rfl
    · obtain ⟨colon, digits, rfl, hcolon, hdigits⟩ := Re.lang_seq.mp hport
      obtain ⟨x, rfl, hx⟩ := Re.lang_set.mp hcolon
      obtain rfl := beq_iff_eq.mp hx
      exact .inr ⟨digits, rfl, (Re.lang_between_set hdigits).2.2⟩
    · exact .inl rfl

/-- ASCII characters that are no ASCII digits are no digits. -/
theorem isDigit_eq_false {uni : Unicode} {c : CodePoint} (hascii : c.isAscii)
    (hc : c.isAsciiDigit = false) : uni.isDigit c = false := by
  rw [uni.isDigit_ascii c hascii, hc]

theorem IsQuad.char {uni : Unicode} {s : PyStr} (h : IsQuad uni s) {c : CodePoint} (hc : c ∈ s) :
    uni.isDigit c ∨ c = cp '.' := by
  obtain ⟨a, b, d, e, rfl, hruns⟩ := h.runs
  simp only [List.forall_mem_cons, List.not_mem_nil, false_implies, implies_true, and_true] at hruns
  simp only [List.mem_append, List.mem_cons] at hc
  rcases hc with hc | rfl | hc | rfl | hc | rfl | hc
  · exact .inl (hruns.1.2.2 c hc)
  · exact .inr rfl
  · exact .inl (hruns.2.1.2.2 c hc)
  · exact .inr rfl
  · exact .inl (hruns.2.2.1.2.2 c hc)
  · exact .inr rfl
  · exact .inl (hruns.2.2.2.2.2 c hc)

theorem IsQuad.notMem {uni : Unicode} {s : PyStr} (h : IsQuad uni s) {c : CodePoint}
    (hascii : c.isAscii) (hdigit : c.isAsciiDigit = false) (hdot : c ≠ cp '.') : c ∉ s := by
  intro hc
  rcases h.char hc with hd | hd
  · rw [isDigit_eq_false hascii hdigit] at hd
    cases hd
  · exact hdot hd

theorem IsQuad.split {uni : Unicode} {s : PyStr} (h : IsQuad uni s) :
    (PyStr.split (cp '.') s).length = 4 := by
  obtain ⟨a, b, c, d, rfl, hruns⟩ := h.runs
  have hdot : ∀ r ∈ [a, b, c, d], cp '.' ∉ r := by
    intro r hr hmem
    have hd := (hruns r hr).2.2 _ hmem
    rw [isDigit_eq_false (by decide) (by decide)] at hd
    cases hd
  rw [PyStr.split_append _ (hdot a (by simp)), PyStr.split_append _ (hdot b (by simp)),
    PyStr.split_append _ (hdot c (by simp)), PyStr.split_of_notMem (hdot d (by simp))]
  rfl

/-- **Which runs of digits are literals**: those of four octets. -/
theorem isIpLiteral_iff_of_isQuad {uni : Unicode} {s : PyStr} (h : IsQuad uni s) :
    IsIpLiteral s ↔ ∀ p ∈ PyStr.split (cp '.') s, IsOctet p :=
  isIpLiteral_iff_octets (h.notMem (by decide) (by decide) (by decide)) h.split

/-- **Which runs of hexadecimal digits are literals**: those of eight. -/
theorem isIpLiteral_iff_of_isHexRun {s : PyStr} (h : IsHexRun s) :
    IsIpLiteral s ↔ (PyStr.split (cp ':') s).length = 8 :=
  isIpLiteral_iff_hextets (by have := h.five; omega) h.hextets

/-- The texts of the pattern for IPv6 addresses. -/
theorem isHexRun_of_lang {m : PyStr} (h : Re.Lang reIpv6 m) : IsHexRun m := by
  obtain ⟨_, m₁, rfl, hword, hrest₁⟩ := Re.lang_seq.mp h
  obtain rfl := Re.lang_wordB.mp hword
  obtain ⟨front, m₂, rfl, hfront, hrest₂⟩ := Re.lang_seq.mp hrest₁
  obtain ⟨last, _, rfl, hlast, hend⟩ := Re.lang_seq.mp hrest₂
  obtain rfl := Re.lang_wordB.mp hend
  obtain ⟨four, more, rfl, hfour, hmore⟩ := Re.lang_seq.mp hfront
  have hhextet : ∀ {w : PyStr}, Re.Lang (.between hexRe 1 4) w → IsHextet w := by
    intro w hw
    obtain ⟨hne, hlen, hall⟩ := Re.lang_between_set hw
    exact ⟨hne, hall, hlen⟩
  have hgroup : ∀ {w : PyStr}, Re.Lang (.seq (.between hexRe 1 4) (.char (cp ':'))) w →
      ∃ r, w = r ++ [cp ':'] ∧ IsHextet r := by
    intro w hw
    obtain ⟨r, colon, rfl, hr, hcolon⟩ := Re.lang_seq.mp hw
    obtain ⟨x, rfl, hx⟩ := Re.lang_set.mp hcolon
    obtain rfl := beq_iff_eq.mp hx
    exact ⟨r, rfl, hhextet hr⟩
  have hnot : ∀ {r : PyStr}, IsHextet r → cp ':' ∉ r := by
    intro r hr hmem
    exact absurd (hr.digits _ hmem) (by decide)
  -- groups in front of a text are parts of their own
  have hstar : ∀ {r : Re CodePoint} {w : PyStr}, Re.Lang r w →
      r = .star true (.seq (.between hexRe 1 4) (.char (cp ':'))) → ∀ t, ∃ gs : List PyStr,
        (∀ g ∈ gs, IsHextet g) ∧ PyStr.split (cp ':') (w ++ t) = gs ++ PyStr.split (cp ':') t := by
    intro r w hw
    induction hw with
    | done => exact fun _ t => ⟨[], nofun, rfl⟩
    | @more greedy a u v hu hv _ ih =>
      intro heq t
      obtain ⟨rfl, rfl⟩ := Re.star.inj heq
      obtain ⟨g, rfl, hg⟩ := hgroup hu
      obtain ⟨gs, hgs, hsplit⟩ := ih rfl t
      refine ⟨g :: gs, List.forall_mem_cons.mpr ⟨hg, hgs⟩, ?_⟩
      rw [List.append_assoc, List.append_assoc, List.singleton_append,
        PyStr.split_append _ (hnot hg), hsplit]
      rfl
    | _ => exact fun heq => by cases heq
  obtain ⟨w₁, w', rfl, h₁, h'⟩ := Re.lang_seq.mp hfour
  obtain ⟨w₂, w'', rfl, h₂, h''⟩ := Re.lang_seq.mp h'
  obtain ⟨w₃, w₄, rfl, h₃, h₄⟩ := Re.lang_seq.mp h''
  obtain ⟨a, rfl, ha⟩ := hgroup h₁
  obtain ⟨b, rfl, hb⟩ := hgroup h₂
  obtain ⟨c, rfl, hc⟩ := hgroup h₃
  obtain ⟨d, rfl, hd⟩ := hgroup h₄
  obtain ⟨gs, hgs, hmoreSplit⟩ := hstar hmore rfl last
  have hl := hhextet hlast
  have hparts : PyStr.split (cp ':') ([] ++ (((a ++ [cp ':']) ++ ((b ++ [cp ':']) ++
      ((c ++ [cp ':']) ++ (d ++ [cp ':'])))) ++ more ++ (last ++ []))) =
      a :: b :: c :: d :: (gs ++ [last]) := by
    simp only [List.nil_append, List.append_nil, List.append_assoc, List.cons_append]
    rw [PyStr.split_append _ (hnot ha), PyStr.split_append _ (hnot hb),
      PyStr.split_append _ (hnot hc), PyStr.split_append _ (hnot hd), hmoreSplit,
      PyStr.split_of_notMem (hnot hl)]
  constructor
  · rw [hparts]
    simp only [List.length_cons, List.length_append]
    omega
  · rw [hparts]
    simp only [List.forall_mem_cons, List.forall_mem_append, List.not_mem_nil, false_implies,
      implies_true, and_true]
    exact ⟨ha, hb, hc, hd, hgs, hl⟩

/-- The addresses of a text: the matches of the two patterns, an IPv4 address without its port. -/
theorem mem_ipTokens {text h : PyStr} : h ∈ ipTokens rt text ↔
    (∃ m ∈ Re.findall (Re.text rt.unicode) (reIpv4 rt.unicode) text,
      (PyStr.partition (cp ':') m).1 = h) ∨
    h ∈ Re.findall (Re.text rt.unicode) reIpv6 text := by
  have h4 : ∀ m ∈ Re.findall (Re.text rt.unicode) (reIpv4 rt.unicode) text,
      (if m.count (cp ':') = 1 then (PyStr.partition (cp ':') m).1 else m) =
        (PyStr.partition (cp ':') m).1 := by
    intro m hm
    obtain ⟨s, port, rfl, hquad, hport⟩ := isQuad_of_lang (Re.lang_of_mem_findall hm).1
    have hcolon : cp ':' ∉ s := hquad.notMem (by decide) (by decide) (by decide)
    rcases hport with rfl | ⟨digits, rfl, hdigits⟩
    · rw [List.append_nil, List.count_eq_zero.mpr hcolon, if_neg (by decide),
        PyStr.partition_of_notMem hcolon]
    · have hnot : cp ':' ∉ digits := by
        intro hmem
        have hd := hdigits _ hmem
        rw [isDigit_eq_false (by decide) (by decide)] at hd
        cases hd
      rw [List.count_append, List.count_cons_self, List.count_eq_zero.mpr hcolon,
        List.count_eq_zero.mpr hnot, if_pos rfl]
  have h6 : ∀ m ∈ Re.findall (Re.text rt.unicode) reIpv6 text,
      (if m.count (cp ':') = 1 then (PyStr.partition (cp ':') m).1 else m) = m := by
    intro m hm
    have hrun := isHexRun_of_lang (Re.lang_of_mem_findall hm).1
    refine if_neg fun hone => ?_
    have hlen : ∀ s : PyStr, (PyStr.split (cp ':') s).length = s.count (cp ':') + 1 := by
      intro s
      induction s with
      | nil => rfl
      | cons c s ih =>
        rw [PyStr.split]
        by_cases hc : c = cp ':'
        · rw [if_pos hc, List.length_cons, ih, hc, List.count_cons_self]
        · rw [if_neg hc, List.count_cons_of_ne hc]
          cases hs : PyStr.split (cp ':') s with
          | nil => exact absurd hs (PyStr.split_ne_nil _ s)
          | cons w ws =>
            rw [hs] at ih
            exact ih
    have hfive := hrun.five
    rw [hlen, hone] at hfive
    omega
  simp only [ipTokens, List.map_append, List.mem_append, List.mem_map]
  constructor
  · rintro (⟨m, hm, rfl⟩ | ⟨m, hm, rfl⟩)
    · exact .inl ⟨m, hm, (h4 m hm).symm⟩
    · exact .inr ((h6 m hm).symm ▸ hm)
  · rintro (⟨m, hm, rfl⟩ | hm)
    · exact .inl ⟨m, hm, h4 m hm⟩
    · exact .inr ⟨h, hm, h6 h hm⟩

/-- An IPv4 address of a text, without its port. -/
theorem isQuad_of_mem {text m : PyStr}
    (hm : m ∈ Re.findall (Re.text rt.unicode) (reIpv4 rt.unicode) text) :
    IsQuad rt.unicode (PyStr.partition (cp ':') m).1 ∧
      (PyStr.partition (cp ':') m).1 <:+: text := by
  obtain ⟨hlang, hinfix⟩ := Re.lang_of_mem_findall hm
  obtain ⟨s, port, rfl, hquad, hport⟩ := isQuad_of_lang hlang
  have hcolon : cp ':' ∉ s := hquad.notMem (by decide) (by decide) (by decide)
  have hfst : (PyStr.partition (cp ':') (s ++ port)).1 = s := by
    rcases hport with rfl | ⟨digits, rfl, -⟩
    · rw [List.append_nil, PyStr.partition_of_notMem hcolon]
    · rw [PyStr.partition_append digits hcolon]
  rw [hfst]
  exact ⟨hquad, (List.prefix_append s port).isInfix.trans hinfix⟩

/-- An IPv6 address of a text. -/
theorem isHexRun_of_mem {text m : PyStr} (hm : m ∈ Re.findall (Re.text rt.unicode) reIpv6 text) :
    IsHexRun m ∧ m <:+: text := by
  obtain ⟨hlang, hinfix⟩ := Re.lang_of_mem_findall hm
  exact ⟨isHexRun_of_lang hlang, hinfix⟩

/-! ### Hosts of URLs -/

/-- The host of a URL: the host name `urlparse` reads. -/
theorem urlHost_cases {u h : PyStr} (hu : urlHost rt u = .ok h) (hne : h ≠ []) :
    ∃ r, urlsplit rt.unicode u = .ok r ∧ r.hostname rt.unicode = h := by
  rw [urlHost] at hu
  split_ifs at hu
  · cases hr : urlsplit rt.unicode u with
    | error e =>
      rw [hr] at hu
      cases hu
    | ok r =>
      rw [hr] at hu
      exact ⟨r, rfl, Except.ok.inj hu⟩
  · exact absurd (Except.ok.inj hu).symm hne

/-- The host name is the written host ignoring case. -/
theorem lower_hostname_eq {uni : Unicode} (r : SplitResult) :
    uni.lower (r.hostname uni) = uni.lower (rawHost r.netloc) := by
  have hpart := PyStr.partition_eq (cp '%') (rawHost r.netloc)
  rw [SplitResult.hostname, hostinfo_fst]
  dsimp only
  cases hpercent : (PyStr.partition (cp '%') (rawHost r.netloc)).2.1 with
  | true =>
    rw [hpercent, if_pos rfl] at hpart
    conv_rhs => rw [hpart]
    rw [if_pos rfl, uni.lower_percent, uni.lower_percent, uni.lower_lower]
  | false =>
    rw [hpercent, if_neg Bool.false_ne_true, List.append_nil] at hpart
    rw [if_neg Bool.false_ne_true, uni.lower_lower, ← hpart]

/-- The schemes of the pattern for URLs. -/
def reScheme : Re CodePoint :=
  .oneOf [.seq (.litI (str "http")) (.opt (.litI (str "s"))), .litI (str "ftp"), .litI (str "tftp")]

theorem foldsTo_of_stop {x c : CodePoint} (hx : x ∈ str "htpsf:/")
    (hc : isUrlStop c ∨ c.val ≤ 0x20) : Re.foldsTo x c = false := by
  by_cases hascii : c.val < 128
  · have hall : (List.finRange 128).all fun n => (str "htpsf:/").all fun x =>
        !(isUrlStop (n.castLE (by decide)) || decide (n.val ≤ 0x20)) ||
          !Re.foldsTo x (n.castLE (by decide)) := by
      decide +kernel
    have h := List.all_eq_true.mp (List.all_eq_true.mp hall ⟨c.val, hascii⟩ (List.mem_finRange _))
      x hx
    have hcast : (⟨c.val, hascii⟩ : Fin 128).castLE (by decide) = c := rfl
    have hbad : (isUrlStop c || decide (c.val ≤ 0x20)) = true := by
      rw [Bool.or_eq_true, decide_eq_true_eq]
      exact hc
    rw [hcast, hbad] at h
    simpa using h
  · -- the variants outside ASCII are no stops
    have hstop : isUrlStop c := hc.resolve_right (by omega)
    have hspecial : ∀ v, v = 0x17F ∨ v = 0x212A ∨ v = 0x130 ∨ v = 0x131 → c.val ≠ v := by
      intro v hv hval
      have hall : [0x17F, 0x212A, 0x130, 0x131].all fun v : CodePoint => !isUrlStop v := by decide
      have hmem : c ∈ ([0x17F, 0x212A, 0x130, 0x131] : List CodePoint) := by
        rcases hv with rfl | rfl | rfl | rfl <;>
          simp only [List.mem_cons, List.not_mem_nil, or_false, Fin.ext_iff, hval] <;> decide
      have hnot := List.all_eq_true.mp hall c hmem
      rw [hstop] at hnot
      exact Bool.false_ne_true hnot
    have hlower : c.asciiLower = c := by
      have hup : ¬ c.between 'A' 'Z' = true := by
        intro hup
        have hrange : 65 ≤ c.val ∧ c.val ≤ 90 := by simpa [CodePoint.between] using hup
        omega
      rw [CodePoint.asciiLower, dif_neg hup]
    have hne : c ≠ x := by
      rintro rfl
      have hall : (str "htpsf:/").all fun x => decide (x.val < 128) := by decide
      exact hascii (of_decide_eq_true (List.all_eq_true.mp hall c hx))
    rw [Re.foldsTo, hlower, beq_eq_false_iff_ne.mpr hne,
      beq_eq_false_iff_ne.mpr (hspecial _ (.inl rfl)),
      beq_eq_false_iff_ne.mpr (hspecial _ (.inr (.inl rfl))),
      beq_eq_false_iff_ne.mpr (hspecial _ (.inr (.inr (.inl rfl)))),
      beq_eq_false_iff_ne.mpr (hspecial _ (.inr (.inr (.inr rfl))))]
    simp

theorem local_litI_of_stop {s : PyStr} {c : CodePoint} (hs : s ⊆ str "htpsf:/")
    (hc : isUrlStop c ∨ c.val ≤ 0x20) : (Re.litI s).Local c := by
  induction s with
  | nil => exact trivial
  | cons x s ih =>
    obtain ⟨hx, hs⟩ := List.cons_subset.mp hs
    have hset : Re.foldsTo x c = false := foldsTo_of_stop hx hc
    cases s with
    | nil => exact hset
    | cons y s => exact ⟨hset, ih hs⟩

theorem local_reScheme_of_stop {c : CodePoint} (hc : isUrlStop c ∨ c.val ≤ 0x20) :
    reScheme.Local c :=
  ⟨⟨local_litI_of_stop (by decide) hc, local_litI_of_stop (by decide) hc, trivial⟩,
    local_litI_of_stop (by decide) hc, local_litI_of_stop (by decide) hc⟩

/-- The pattern for URLs reads no stop. -/
theorem local_reUrl_of_isUrlStop {c : CodePoint} (hc : isUrlStop c) : reUrl.Local c := by
  have hset : (!isUrlStop c) = false := by rw [hc]; rfl
  exact ⟨trivial, local_reScheme_of_stop (.inl hc), local_litI_of_stop (by decide) (.inl hc),
    hset, hset⟩

/-- A URL that is found in a text is a run of it, and read as it is. -/
theorem cleanUrl_of_mem_findUrls {text u : PyStr} (hu : u ∈ findUrls rt text) :
    cleanUrl u = u ∧ u <:+: text := by
  obtain ⟨m, hm, rfl⟩ := List.mem_map.mp hu
  obtain ⟨hlang, hinfix⟩ := Re.lang_of_mem_findall hm
  have hfront : stripUrlPunct m <+: m := List.rdropWhile_prefix _ _
  refine ⟨?_, hfront.isInfix.trans hinfix⟩
  have hkept : ∀ c ∈ stripUrlPunct m, isKept c := by
    intro c hc
    by_contra hnot
    have htab : c ∈ str "\t\r\n" := by
      rw [isKept, Bool.not_eq_true', Bool.not_eq_false, PyStr.oneOf, List.elem_iff] at hnot
      exact hnot
    have hall : (str "\t\r\n").all isUrlStop := by decide
    exact hlang.notMem (local_reUrl_of_isUrlStop (List.all_eq_true.mp hall c htab))
      (hfront.subset hc)
  have hhead : ∀ c s, stripUrlPunct m = c :: s → ¬ c.val ≤ 0x20 := by
    intro c s hcons hlow
    obtain ⟨_, m', rfl, hword, hrest⟩ := Re.lang_seq.mp hlang
    obtain rfl := Re.lang_wordB.mp hword
    obtain ⟨first, m'', rfl, hfirst, -⟩ := Re.lang_seq.mp hrest
    have hnot := hfirst.notMem (local_reScheme_of_stop (c := c) (.inr hlow))
    obtain ⟨t, ht⟩ := hfront
    rw [hcons] at ht
    cases first with
    | nil => exact absurd hfirst.minLen_le (by decide)
    | cons d first =>
      have hd : c = d := (List.cons.inj ht).1
      exact hnot (hd ▸ List.mem_cons_self)
  have hstrip : PyStr.lstrip (fun c => decide (c.val ≤ 0x20)) (stripUrlPunct m) =
      stripUrlPunct m := by
    cases hm' : stripUrlPunct m with
    | nil => rfl
    | cons c s => exact List.dropWhile_cons_of_neg (by simpa using hhead c s hm')
  rw [cleanUrl, hstrip]
  exact List.filter_eq_self.mpr hkept

end C2Engine
