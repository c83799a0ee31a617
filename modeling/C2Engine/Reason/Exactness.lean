import C2Engine.Python.Case
import C2Engine.Python.Words
import C2Engine.Reason.Generations

/-!
# The matcher and a scan of the cache

The dictionaries of the matcher are read with the keys they were written with: a URL and a hash in
lower case, and for each indicator a host. For every kind of indicator but IPv6 addresses the host
is the plain one, so that the look-up of an entity finds the sources a scan over all cached
indicators finds. Of a value with more than one colon the code takes the text before the first one
for its host.

One dictionary keeps one indicator a URL, although several feeds may list it; the others are found
by the host of the URL, because a URL has the host of the text it is in lower case.

## Main definitions

* `ipIocAddress`: the address of an indicator, told from its port.
* `plainMatch`, `linearScan`: the comparison of an entity with each indicator.
* `WellFormed`, `FromFeed`: the indicators of well-formed feeds.

## Main results

* `host_eq_plainHost`: the host the code keeps, for indicators that are no IPv6 addresses.
* `mem_hits_iff`: the indicators a look-up finds.
* `match_eq_linearScan_iff`: when the look-up is the scan.
-/

namespace C2Engine.IntelMatcher

open Python Store

/-! ### The scan -/

/-- A port of decimal digits. -/
def isPort (s : PyStr) : Bool := !s.isEmpty && s.all CodePoint.isAsciiDigit

/-- The address of an indicator, and whether it is one of IPv6: an address, `a.b.c.d:port`,
`[address]` or `[address]:port`. -/
def ipIocAddress (value : PyStr) : Option (PyStr × Bool) :=
  if value.head? = some (cp '[') then
    let (addr, closed, rest) := PyStr.partition (cp ']') value.tail
    if closed && (parseIpv6 addr).isSome && (rest.isEmpty ||
      rest.head? = some (cp ':') && isPort rest.tail) then some (addr, true) else none
  else if (parseIpv6 value).isSome then some (value, true)
  else
    let (addr, colon, port) := PyStr.partition (cp ':') value
    if (parseIpv4 addr).isSome && (!colon || isPort port) then some (addr, false) else none

variable (rt : Runtime)

/-- The host of an indicator in lower case; the empty text if it has none. -/
def plainHost (d : IntelDoc) : PyStr :=
  match d.iocType with
  | .url => (urlHostKey rt d.value).toOption.getD []
  | .domain => rt.unicode.lower d.value
  | .ip => ((ipIocAddress d.value).map fun a => rt.unicode.lower a.1).getD []
  | .hash => []

/-- The hosts of an entity in lower case: its own, the resolved addresses and those of its URLs. -/
def entityHosts (e : Entity) : List PyStr :=
  (e.host :: e.resolvedIps).map rt.unicode.lower ++
    e.urls.map fun u => (urlHostKey rt u).toOption.getD []

/-- A text is a host of the entity. -/
def isHostOf (e : Entity) (host : PyStr) : Bool := !host.isEmpty && (entityHosts rt e).elem host

/-- An indicator names an entity: it is one of its URLs or hashes ignoring case, or its host is one
of its hosts. -/
def plainMatch (e : Entity) (d : IntelDoc) : Bool :=
  (d.iocType = .url && e.urls.any fun u => rt.unicode.lower u = rt.unicode.lower d.value) ||
  isHostOf rt e (plainHost rt d) ||
  (d.iocType = .hash && e.shas.any fun s => rt.unicode.lower s = rt.unicode.lower d.value)

/-- The feeds with an indicator that names the entity. -/
def linearScan (docs : List IntelDoc) (e : Entity) : List PyStr :=
  sortedSet ((docs.filter (plainMatch rt e)).map fun d => d.source.name)

/-- The indicator is an IPv6 address. -/
def isIpv6 (d : IntelDoc) : Bool := d.iocType = .ip && (ipIocAddress d.value).any Prod.snd

/-- What the code takes for the host of an address. -/
def beforeColon (d : IntelDoc) : PyStr := rt.unicode.lower (PyStr.partition (cp ':') d.value).1

/-! ### The indicators of well-formed feeds -/

/-- The indicator comes out of the parser of its feed. -/
def FromFeed (d : IntelDoc) : Prop :=
  ∃ text recs, parseFeed rt d.source text = .ok recs ∧ d.toIoc ∈ recs

/-- The value of the indicator is a text of visible ASCII characters, of an address an address with
or without port, and of a URL one that is fetched and has a host. -/
structure WellFormed (d : IntelDoc) : Prop where
  visible : ∀ c ∈ d.value, 0x20 < c.val ∧ c.isAscii
  ip : d.iocType = .ip → (ipIocAddress d.value).isSome
  url : d.iocType = .url → IsVisibleUrl d.value ∧ ∃ h, urlHostKey rt d.value = .ok h ∧ h ≠ []

variable {rt} {d : IntelDoc}

/-- What a parser makes of an indicator. -/
theorem FromFeed.spec (h : FromFeed rt d) :
    hostOf rt d.value d.iocType = .ok d.host ∧
      (d.iocType ≠ .ip → rt.unicode.lower d.value = d.value) ∧
      (d.iocType = .hash → d.source = .threatfox) := by
  obtain ⟨text, recs, hparse, hmem⟩ := h
  obtain ⟨iocType, value, malware, tags, hioc, hurlhaus, hfeodo⟩ :=
    exists_ioc_of_mem_parseFeed hparse hmem
  rw [ioc, bind_eq_ok] at hioc
  obtain ⟨host, hhost, hpure⟩ := hioc
  have heq : (⟨d.source, iocType, normValue rt iocType value, clean rt malware, clean rt tags,
      host⟩ : Ioc) = d.toIoc := Except.ok.inj hpure
  have htype : iocType = d.iocType := congrArg Ioc.iocType heq
  have hvalue : normValue rt iocType value = d.value := congrArg Ioc.value heq
  have hhost' : host = d.host := congrArg Ioc.host heq
  rw [hvalue, htype, hhost'] at hhost
  rw [htype] at hvalue hurlhaus hfeodo
  refine ⟨hhost, fun hip => ?_, fun hhash => ?_⟩
  · rw [← hvalue]
    cases ht : d.iocType with
    | ip => exact absurd ht hip
    | url => exact rt.unicode.lower_lower _
    | domain => exact rt.unicode.lower_lower _
    | hash => exact rt.unicode.lower_lower _
  · cases hs : d.source with
    | threatfox => rfl
    | urlhaus => cases hhash.symm.trans (hurlhaus hs)
    | feodo => cases hhash.symm.trans (hfeodo hs)

/-- A text without white space is its own strip. -/
theorem strip_of_visible {s : PyStr} (h : ∀ c ∈ s, 0x20 < c.val ∧ c.isAscii) :
    PyStr.strip s = s := by
  have hspace : ∀ c ∈ s, c.isSpace = false := by
    intro c hc
    obtain ⟨hlow, hascii⟩ := h c hc
    have hhigh : c.val < 128 := by simpa [CodePoint.isAscii] using hascii
    simp only [CodePoint.isSpace, Bool.or_eq_false_iff, Bool.and_eq_false_iff,
      decide_eq_false_iff_not, beq_eq_false_iff_ne, ne_eq]
    omega
  exact strip_solid hspace

/-- The host of an address that is none of IPv6. -/
theorem fst_of_ipIocAddress {value addr : PyStr} (h : ipIocAddress value = some (addr, false)) :
    (PyStr.partition (cp ':') value).1 = addr := by
  simp only [ipIocAddress] at h
  split_ifs at h with h₁ h₂ h₃ h₄
  · simp at h
  · simp at h
  · simp only [Option.some.injEq, Prod.mk.injEq, and_true] at h
    exact h

/-- **The host the code keeps is the plain one**, of an indicator that is no IPv6 address. -/
theorem host_eq_plainHost (hfeed : FromFeed rt d) (hwell : WellFormed rt d) (h : ¬ isIpv6 d) :
    d.host = PyStr.orNone (plainHost rt d) := by
  obtain ⟨hhost, -, -⟩ := hfeed.spec
  cases ht : d.iocType with
  | url =>
    rw [ht, hostOf, bind_eq_ok] at hhost
    obtain ⟨host, hkey, hpure⟩ := hhost
    rw [plainHost, ht, hkey]
    exact (Except.ok.inj hpure).symm
  | domain =>
    rw [ht, hostOf, strip_of_visible hwell.visible] at hhost
    rw [plainHost, ht]
    exact (Except.ok.inj hhost).symm
  | hash =>
    rw [ht, hostOf] at hhost
    rw [plainHost, ht]
    exact (Except.ok.inj hhost).symm
  | ip =>
    obtain ⟨⟨addr, six⟩, haddr⟩ := Option.isSome_iff_exists.mp (hwell.ip ht)
    have hsix : six = false := by simpa [isIpv6, ht, haddr] using h
    subst hsix
    have hfst := fst_of_ipIocAddress haddr
    have hvisible : ∀ c ∈ addr, 0x20 < c.val ∧ c.isAscii := fun c hc =>
      hwell.visible c ((PyStr.partition_fst_sublist _ _).subset (hfst ▸ hc))
    rw [ht, hostOf, hfst, strip_of_visible hvisible] at hhost
    rw [plainHost, ht, haddr]
    exact (Except.ok.inj hhost).symm

/-- The host the code keeps of an IPv6 address is the text before the first colon. -/
theorem host_eq_beforeColon (hfeed : FromFeed rt d) (hwell : WellFormed rt d) (h : isIpv6 d) :
    d.host = PyStr.orNone (beforeColon rt d) := by
  have ht : d.iocType = .ip := by
    simp only [isIpv6, Bool.and_eq_true, decide_eq_true_eq] at h
    exact h.1
  obtain ⟨hhost, -, -⟩ := hfeed.spec
  have hvisible : ∀ c ∈ (PyStr.partition (cp ':') d.value).1, 0x20 < c.val ∧ c.isAscii :=
    fun c hc => hwell.visible c ((PyStr.partition_fst_sublist _ _).subset hc)
  rw [ht, hostOf, strip_of_visible hvisible] at hhost
  exact (Except.ok.inj hhost).symm

/-! ### The look-up -/

/-- The URLs of an entity can be split exactly if its hosts can be told. -/
theorem isOk_candidateHosts (e : Entity) :
    (candidateHosts rt e).isOk ↔ ∀ u ∈ e.urls, (urlsplit rt.unicode u).isOk := by
  rw [candidateHosts, isOk_bind_pure, isOk_mapM]
  simp only [isOk_urlHostKey]

/-- The hosts of an entity, as the code tells them. -/
theorem mem_candidateHosts {e : Entity} {hosts : List PyStr} (h : candidateHosts rt e = .ok hosts)
    {host : PyStr} (hne : host ≠ []) : host ∈ hosts ↔ host ∈ entityHosts rt e := by
  rw [candidateHosts, bind_eq_ok] at h
  obtain ⟨netlocs, hnetlocs, hpure⟩ := h
  obtain rfl := Except.ok.inj hpure
  have hnil : rt.unicode.lower [] = [] := rt.unicode.lower_ascii [] rfl
  rw [entityHosts, List.mem_append, List.mem_append]
  refine or_congr ?_ ?_
  · simp only [lowered, List.mem_map, List.mem_filter]
    constructor
    · rintro ⟨x, ⟨hx, -⟩, rfl⟩
      exact ⟨x, hx, rfl⟩
    · rintro ⟨x, hx, rfl⟩
      refine ⟨x, ⟨hx, ?_⟩, rfl⟩
      cases x with
      | nil => exact absurd hnil hne
      | cons c x => rfl
  · rw [List.mem_filter, mem_of_mapM hnetlocs, List.mem_map]
    constructor
    · rintro ⟨⟨u, hu, hkey⟩, -⟩
      exact ⟨u, hu, by rw [hkey]; rfl⟩
    · rintro ⟨u, hu, hkey⟩
      refine ⟨⟨u, hu, ?_⟩, by simpa using hne⟩
      cases hu' : urlHostKey rt u with
      | error e =>
        rw [hu'] at hkey
        exact absurd hkey.symm hne
      | ok k =>
        rw [hu'] at hkey
        exact congrArg Except.ok hkey

/-- **What a look-up finds** in the dictionaries of a list. -/
theorem mem_hits_iff {docs found : List IntelDoc} {e : Entity} {hosts : List PyStr}
    (hhosts : candidateHosts rt e = .ok hosts) (h : hits rt (.ofDocs docs) e = .ok found) :
    d ∈ found ↔
      (∃ u ∈ e.urls, (docs.filter fun d => d.iocType = .url ∧
        d.value = rt.unicode.lower u).getLast? =
        some d) ∨
      (d ∈ docs ∧ ∃ host ∈ hosts, d.host = some host) ∨
      ∃ sha ∈ e.shas, (docs.filter fun d => d.iocType = .hash ∧
        d.value = rt.unicode.lower sha).getLast? = some d := by
  rw [hits, bind_eq_ok] at h
  obtain ⟨hosts', hhosts', hpure⟩ := h
  rw [hhosts, Except.ok.injEq] at hhosts'
  subst hhosts'
  obtain rfl := Except.ok.inj hpure
  simp only [List.mem_append, List.mem_filterMap, List.mem_flatMap, Indexes.lookup_urls_ofDocs,
    Indexes.lookup_hashes_ofDocs, Indexes.atHost_ofDocs, List.mem_filter,
      decide_eq_true_eq, or_assoc]
  refine or_congr_right (or_congr_left ?_)
  constructor
  · rintro ⟨host, hhost, hd, heq⟩
    exact ⟨hd, host, hhost, heq⟩
  · rintro ⟨hd, host, hhost, heq⟩
    exact ⟨host, hhost, hd, heq⟩

theorem isHostOf_eq_true {e : Entity} {host : PyStr} :
    isHostOf rt e host ↔ host ≠ [] ∧ host ∈ entityHosts rt e := by
  simp [isHostOf]

/-- An indicator whose host the code keeps is found exactly if it is a host of the entity. -/
theorem exists_host_iff {e : Entity} {hosts : List PyStr} (hhosts : candidateHosts rt e = .ok hosts)
    {key : PyStr} (hkey : d.host = PyStr.orNone key) :
    (∃ host ∈ hosts, d.host = some host) ↔ isHostOf rt e key := by
  rw [isHostOf_eq_true, hkey]
  constructor
  · rintro ⟨host, hhost, heq⟩
    obtain ⟨rfl, hne⟩ := PyStr.orNone_eq_some.mp heq
    exact ⟨hne, (mem_candidateHosts hhosts hne).mp hhost⟩
  · rintro ⟨hne, hmem⟩
    exact ⟨key, (mem_candidateHosts hhosts hne).mpr hmem, PyStr.orNone_eq_some.mpr ⟨rfl, hne⟩⟩

/-- An indicator that is one of the URLs of an entity has one of its hosts. -/
theorem isHostOf_of_url {e : Entity} (hread : ∀ u ∈ e.urls, (urlsplit rt.unicode u).isOk)
    (hfeed : FromFeed rt d) (hwell : WellFormed rt d) (ht : d.iocType = .url) {u : PyStr}
    (hu : u ∈ e.urls) (heq : rt.unicode.lower u = rt.unicode.lower d.value) :
    isHostOf rt e (plainHost rt d) := by
  obtain ⟨hvisible, host, hhost, hne⟩ := hwell.url ht
  have hlower : rt.unicode.lower u = d.value := by
    rw [heq]
    exact hfeed.spec.2.1 (by simp [ht])
  obtain ⟨r, hr⟩ := isOk_iff.mp (hread u hu)
  obtain ⟨r', hr', hpure⟩ := bind_eq_ok.mp hhost
  have hsame := lower_hostname_of_lower_eq hvisible hlower hr hr'
  have hkey : urlHostKey rt u = .ok host := by
    rw [urlHostKey, hr, ← hpure]
    exact congrArg Except.ok hsame
  rw [plainHost, ht, hhost, isHostOf_eq_true]
  refine ⟨hne, List.mem_append_right _ (List.mem_map.mpr ⟨u, hu, ?_⟩)⟩
  rw [hkey]

/-- **The feeds a look-up finds**: those with an indicator that names the entity, of those that are
no IPv6 addresses, or with an IPv6 address whose text before the first colon is a host of the
entity. -/
theorem exists_hit_iff {docs found : List IntelDoc} {e : Entity}
    (hread : ∀ u ∈ e.urls, (urlsplit rt.unicode u).isOk)
    (hfeeds : ∀ d ∈ docs, FromFeed rt d) (hwell : ∀ d ∈ docs, WellFormed rt d)
    (hfound : hits rt (.ofDocs docs) e = .ok found) (source : Source) :
    (∃ d ∈ found, d.source = source) ↔
      (∃ d ∈ docs, d.source = source ∧ ¬ isIpv6 d ∧ plainMatch rt e d) ∨
      ∃ d ∈ docs, d.source = source ∧ isIpv6 d ∧ isHostOf rt e (beforeColon rt d) := by
  obtain ⟨hosts, hhosts⟩ := isOk_iff.mp ((isOk_candidateHosts e).mpr hread)
  have hlowered : ∀ d ∈ docs, d.iocType ≠ .ip → rt.unicode.lower d.value = d.value :=
    fun d hd => (hfeeds d hd).spec.2.1
  have hnotIpv6 : ∀ d : IntelDoc, d.iocType ≠ .ip → ¬ isIpv6 d := by
    intro d hd h
    simp only [isIpv6, Bool.and_eq_true, decide_eq_true_eq] at h
    exact hd h.1
  have hhost : ∀ d ∈ docs, (d ∈ found ∧ ∃ host ∈ hosts, d.host = some host) ↔
      ∃ host ∈ hosts, d.host = some host := fun d hd =>
    ⟨And.right, fun h => ⟨(mem_hits_iff hhosts hfound).mpr (.inr (.inl ⟨hd, h⟩)), h⟩⟩
  constructor
  · rintro ⟨d, hd, rfl⟩
    rcases (mem_hits_iff hhosts hfound).mp hd with
      ⟨u, hu, hlast⟩ | ⟨hd, hkeeps⟩ | ⟨sha, hsha, hlast⟩
    · obtain ⟨hd, hkey⟩ := List.mem_filter.mp (List.mem_of_getLast? hlast)
      obtain ⟨ht, hvalue⟩ := of_decide_eq_true hkey
      refine .inl ⟨d, hd, rfl, hnotIpv6 d (by simp [ht]), ?_⟩
      have heq : rt.unicode.lower u = rt.unicode.lower d.value := by
        rw [hlowered d hd (by simp [ht]), hvalue]
      simp only [plainMatch, ht, decide_true, Bool.true_and, Bool.or_eq_true]
      exact .inl (.inl (List.any_eq_true.mpr ⟨u, hu, decide_eq_true heq⟩))
    · by_cases hsix : isIpv6 d
      · refine .inr ⟨d, hd, rfl, hsix, ?_⟩
        exact (exists_host_iff hhosts
          (host_eq_beforeColon (hfeeds d hd) (hwell d hd) hsix)).mp hkeeps
      · refine .inl ⟨d, hd, rfl, hsix, ?_⟩
        have hmatch := (exists_host_iff hhosts
          (host_eq_plainHost (hfeeds d hd) (hwell d hd) hsix)).mp hkeeps
        simp [plainMatch, hmatch]
    · obtain ⟨hd, hkey⟩ := List.mem_filter.mp (List.mem_of_getLast? hlast)
      obtain ⟨ht, hvalue⟩ := of_decide_eq_true hkey
      refine .inl ⟨d, hd, rfl, hnotIpv6 d (by simp [ht]), ?_⟩
      have heq : rt.unicode.lower sha = rt.unicode.lower d.value := by
        rw [hlowered d hd (by simp [ht]), hvalue]
      simp only [plainMatch, ht, decide_true, Bool.true_and, Bool.or_eq_true]
      exact .inr (List.any_eq_true.mpr ⟨sha, hsha, decide_eq_true heq⟩)
  · rintro (⟨d, hd, rfl, hsix, hmatch⟩ | ⟨d, hd, rfl, hsix, hmatch⟩)
    · have hkept := host_eq_plainHost (hfeeds d hd) (hwell d hd) hsix
      simp only [plainMatch, Bool.or_eq_true, Bool.and_eq_true, decide_eq_true_eq,
        List.any_eq_true] at hmatch
      rcases hmatch with (⟨ht, u, hu, heq⟩ | hmatch) | ⟨ht, sha, hsha, heq⟩
      · -- of the indicators with one URL the dictionary keeps one; this one is found by its host
        have hmatch := isHostOf_of_url hread (hfeeds d hd) (hwell d hd) ht hu heq
        exact ⟨d, ((hhost d hd).mpr ((exists_host_iff hhosts hkept).mpr hmatch)).1, rfl⟩
      · exact ⟨d, ((hhost d hd).mpr ((exists_host_iff hhosts hkept).mpr hmatch)).1, rfl⟩
      · -- hashes come from one feed only
        have hmem : d ∈ docs.filter fun d => d.iocType = .hash ∧
            d.value = rt.unicode.lower sha := by
          rw [List.mem_filter, heq, hlowered d hd (by simp [ht])]
          exact ⟨hd, decide_eq_true ⟨ht, rfl⟩⟩
        obtain ⟨d', hlast⟩ := Option.ne_none_iff_exists'.mp
          (mt List.getLast?_eq_none_iff.mp (List.ne_nil_of_mem hmem))
        obtain ⟨hd', hkey'⟩ := List.mem_filter.mp (List.mem_of_getLast? hlast)
        refine ⟨d', (mem_hits_iff hhosts hfound).mpr (.inr (.inr ⟨sha, hsha, hlast⟩)), ?_⟩
        rw [(hfeeds d hd).spec.2.2 ht, (hfeeds d' hd').spec.2.2 (of_decide_eq_true hkey').1]
    · have hkept := host_eq_beforeColon (hfeeds d hd) (hwell d hd) hsix
      exact ⟨d, ((hhost d hd).mpr ((exists_host_iff hhosts hkept).mpr hmatch)).1, rfl⟩

/-- An IPv6 address names an entity exactly if it is one of its hosts. -/
theorem plainMatch_of_isIpv6 {e : Entity} (h : isIpv6 d) :
    plainMatch rt e d = isHostOf rt e (plainHost rt d) := by
  have ht : d.iocType = .ip := by
    simp only [isIpv6, Bool.and_eq_true, decide_eq_true_eq] at h
    exact h.1
  simp [plainMatch, ht]

/-- The feeds a scan finds, told by whether the indicators are IPv6 addresses. -/
theorem exists_plainMatch_iff (docs : IntelCache) (e : Entity) (source : Source) :
    (∃ d ∈ docs, d.source = source ∧ plainMatch rt e d) ↔
      (∃ d ∈ docs, d.source = source ∧ ¬ isIpv6 d ∧ plainMatch rt e d) ∨
        ∃ d ∈ docs, d.source = source ∧ isIpv6 d ∧ isHostOf rt e (plainHost rt d) := by
  constructor
  · rintro ⟨d, hd, hsource, hmatch⟩
    by_cases hsix : isIpv6 d
    · exact .inr ⟨d, hd, hsource, hsix, plainMatch_of_isIpv6 hsix ▸ hmatch⟩
    · exact .inl ⟨d, hd, hsource, hsix, hmatch⟩
  · rintro (⟨d, hd, hsource, -, hmatch⟩ | ⟨d, hd, hsource, hsix, hmatch⟩)
    · exact ⟨d, hd, hsource, hmatch⟩
    · exact ⟨d, hd, hsource, (plainMatch_of_isIpv6 hsix).symm ▸ hmatch⟩

/-- The names of feeds that indicators belong to, sorted, are told by the feeds. -/
theorem sortedSet_sources_eq_iff (ds es : List IntelDoc) :
    sortedSet (ds.map fun d => d.source.name) = sortedSet (es.map fun d => d.source.name) ↔
      ∀ source, (∃ d ∈ ds, d.source = source) ↔ ∃ d ∈ es, d.source = source := by
  have hmem : ∀ (ds : List IntelDoc) (source : Source),
      source.name ∈ sortedSet (ds.map fun d => d.source.name) ↔ ∃ d ∈ ds, d.source = source := by
    intro ds source
    simp only [mem_sortedSet, List.mem_map, Source.name_injective.eq_iff]
  have hsubset : ∀ ds es : List IntelDoc,
      (∀ source, (∃ d ∈ ds, d.source = source) → ∃ d ∈ es, d.source = source) →
        ∀ name ∈ ds.map fun d => d.source.name, name ∈ es.map fun d => d.source.name := by
    intro ds es h name hname
    obtain ⟨d, hd, rfl⟩ := List.mem_map.mp hname
    obtain ⟨e, he, heq⟩ := h d.source ⟨d, hd, rfl⟩
    exact List.mem_map.mpr ⟨e, he, congrArg Source.name heq⟩
  constructor
  · intro heq source
    rw [← hmem, ← hmem, heq]
  · intro h
    exact sortedSet_congr fun name => ⟨hsubset ds es (fun source => (h source).mp) name,
      hsubset es ds (fun source => (h source).mpr) name⟩

/-- Two disjunctions with one side in common. -/
theorem or_iff_or_left {a v k : Prop} : ((a ∨ k) ↔ (a ∨ v)) ↔ a ∨ (v ↔ k) := by
  by_cases ha : a
  · simp [ha]
  · simp [ha, iff_comm]

/-- **The look-up is the scan of the cache**, after a load, exactly if the URLs of the entity can be
split and, for each feed none of whose other indicators names the entity, one of its IPv6 addresses
is a host of the entity if and only if the text of one of them before the first colon is. -/
theorem match_eq_linearScan_iff {reply : IntelRequest → Reply} {s : IntelState}
    (hreply : ∀ r, (reply r).accepts) (hcap : s.cache.docs.length ≤ loadCap)
    (hfeeds : ∀ d ∈ s.cache, FromFeed rt d) (hwell : ∀ d ∈ s.cache, WellFormed rt d) (e : Entity) :
    (∃ m, matchEntity rt ((loadIndexes reply).run s).2.matcher.indexes e = .ok m ∧
      m.sources = linearScan rt s.cache.docs e) ↔
    (∀ u ∈ e.urls, (urlsplit rt.unicode u).isOk) ∧
    ∀ source, (∃ d ∈ s.cache, d.source = source ∧ ¬ isIpv6 d ∧ plainMatch rt e d) ∨
      ((∃ d ∈ s.cache, d.source = source ∧ isIpv6 d ∧ isHostOf rt e (plainHost rt d)) ↔
        ∃ d ∈ s.cache, d.source = source ∧ isIpv6 d ∧ isHostOf rt e (beforeColon rt d)) := by
  have hindexes : ((loadIndexes reply).run s).2.matcher.indexes = .ofDocs s.cache.listed := by
    obtain ⟨docs, hload⟩ := loadIndexes_spec reply s
    have hdocs : docs = s.cache.listed := by
      rw [hload.served fun n _ _ => hreply (.load n), List.take_of_length_le]
      rwa [IntelCache.listed, Index.length_sorted]
    rw [hload.state, hdocs]
  have hmem : ∀ d, d ∈ s.cache.listed ↔ d ∈ s.cache := fun d => Index.mem_sorted
  rw [hindexes]
  by_cases hread : ∀ u ∈ e.urls, (urlsplit rt.unicode u).isOk
  · obtain ⟨hosts, hhosts⟩ := isOk_iff.mp ((isOk_candidateHosts e).mpr hread)
    obtain ⟨found, hfound⟩ : ∃ found, hits rt (.ofDocs s.cache.listed) e = .ok found := by
      rw [hits, hhosts]
      exact ⟨_, rfl⟩
    have hexists := exists_hit_iff hread (fun d hd => hfeeds d ((hmem d).mp hd))
      (fun d hd => hwell d ((hmem d).mp hd)) hfound
    have hscan : ∀ source, (∃ d ∈ s.cache.docs.filter (plainMatch rt e), d.source = source) ↔
        ∃ d ∈ s.cache, d.source = source ∧ plainMatch rt e d := by
      intro source
      simp only [List.mem_filter, Index.mem_docs, and_assoc, and_comm]
    have hresult : (∃ m, matchEntity rt (.ofDocs s.cache.listed) e = .ok m ∧
        m.sources = linearScan rt s.cache.docs e) ↔
          sortedSet (found.map fun d => d.source.name) = linearScan rt s.cache.docs e := by
      rw [matchEntity, hfound]
      constructor
      · rintro ⟨m, hm, heq⟩
        obtain rfl := Except.ok.inj hm
        exact heq
      · exact fun heq => ⟨_, rfl, heq⟩
    rw [hresult, linearScan, sortedSet_sources_eq_iff, and_iff_right hread]
    refine forall_congr' fun source => ?_
    rw [hscan, exists_plainMatch_iff, hexists, ← or_iff_or_left]
    simp only [hmem]
  · refine iff_of_false ?_ fun h => hread h.1
    rintro ⟨m, hm, -⟩
    refine hread ((isOk_candidateHosts e).mp ?_)
    rw [matchEntity, hits, bind_eq_ok] at hm
    obtain ⟨found, hfound, -⟩ := hm
    obtain ⟨hosts, hhosts, -⟩ := bind_eq_ok.mp hfound
    rw [hhosts]
    rfl

/-- Well-formedness of an address of which the conditions are computed. -/
theorem wellFormed_of_ip (ht : d.iocType = .ip)
    (hvisible : d.value.all fun c => 0x20 < c.val ∧ c.isAscii)
    (hip : (ipIocAddress d.value).isSome) : WellFormed rt d where
  visible c hc := of_decide_eq_true (List.all_eq_true.mp hvisible c hc)
  ip _ := hip
  url h := absurd (ht.symm.trans h) nofun

/-- An entity that is an IPv4 address on a list. -/
theorem match_eq_linearScan_ipv4 :
    let d : IntelDoc := ⟨⟨.feodo, .ip, str "192.0.2.1", [], [], some (str "192.0.2.1")⟩, 1780000000⟩
    let s : IntelState := ⟨⟨[d], by decide⟩, ⟨true, [.feodo], 0, 0, .empty, false, []⟩⟩
    let e : Entity := ⟨str "192.0.2.1", [], [str "HTTP://192.0.2.1/x"], []⟩
    ∃ m, matchEntity .basic ((loadIndexes fun _ => .done).run s).2.matcher.indexes e = .ok m ∧
      m.sources = linearScan .basic s.cache.docs e := by
  intro d s e
  have hfeed : FromFeed .basic d :=
    ⟨str "[\x7b\x22ip_address\x22: \x22192.0.2.1\x22\x7d]", [d.toIoc], by decide +kernel, by decide⟩
  have hwell : WellFormed .basic d := wellFormed_of_ip rfl (by decide) (by decide)
  have hall : ∀ {P : IntelDoc → Prop}, P d → ∀ d' ∈ s.cache, P d' := by
    intro P hP d' hd'
    rwa [List.mem_singleton.mp hd']
  refine (match_eq_linearScan_iff (fun _ => rfl) (by decide) (hall hfeed) (hall hwell) e).mpr
    ⟨by decide, fun source => ?_⟩
  cases source with
  | feodo => exact .inl ⟨d, List.mem_cons_self, rfl, by decide, by decide⟩
  | threatfox => exact .inr (by decide)
  | urlhaus => exact .inr (by decide)

/-- An entity that is an IPv6 address on a list is not found. -/
theorem match_ne_linearScan_ipv6 :
    let d : IntelDoc := ⟨⟨.feodo, .ip, str "2001:db8::1", [], [], some (str "2001")⟩, 1780000000⟩
    let s : IntelState := ⟨⟨[d], by decide⟩, ⟨true, [.feodo], 0, 0, .empty, false, []⟩⟩
    let e : Entity := ⟨str "2001:db8::1", [], [], []⟩
    (FromFeed .basic d ∧ WellFormed .basic d) ∧
      ¬ ∃ m, matchEntity .basic ((loadIndexes fun _ => .done).run s).2.matcher.indexes e = .ok m ∧
        m.sources = linearScan .basic s.cache.docs e := by
  intro d s e
  refine ⟨⟨⟨str "[\x7b\x22ip_address\x22: \x222001:db8::1\x22\x7d]", [d.toIoc], by decide +kernel,
    by decide⟩, wellFormed_of_ip rfl (by decide) (by decide)⟩, ?_⟩
  have hfound : (matchEntity .basic ((loadIndexes fun _ => .done).run s).2.matcher.indexes
      e).toOption.map MatchResult.sources = some [] := by
    decide +kernel
  have hscan : linearScan .basic s.cache.docs e = [str "feodo"] := by
    decide +kernel
  rintro ⟨m, hm, hsources⟩
  rw [hm] at hfound
  have hnil : m.sources = [] := Option.some.inj hfound
  rw [hnil, hscan] at hsources
  exact absurd hsources nofun

end C2Engine.IntelMatcher
