import C2Engine.Runtime
import C2Engine.Python.Codec
import C2Engine.Python.Regex
import C2Engine.Python.Url

/-!
# Indicators in attacker text

`analyze/iocs.py`, the one source of hosts: the patterns it scans a text with, and `extract`,
which gathers addresses, URLs, host names, domains, file hashes, CVE numbers and SSH keys. Hosts
for the pivot come from addresses in the text and from the hosts of URLs, those of the text and
those the sensor recorded.

`extract` raises when `urlparse` refuses the authority of a URL.

## Main definitions

* `IocBundle`, `IocBundle.c2Hosts`: what is extracted, and the endpoints among it.
* `extract`: the extraction.

## Main results

* `mem_dedupe`, `nodup_dedupe`: `_dedupe` keeps each non-empty element once.
* `isOk_extract`: the extraction raises exactly when some URL has no readable authority.
* `mem_hosts_extract`, `mem_c2Hosts_extract`: the endpoints are the addresses and the hosts of the
  URLs.
* `findUrls_lines`, `mem_ipTokens_lines`: over joined lines, URLs and addresses are those of the
  lines.
-/

namespace C2Engine

open Python

/-! ### Patterns -/

/-- `[0-9a-fA-F]`. -/
def hexRe : Re CodePoint := .set CodePoint.isHexDigit

/-- The characters a URL in a command may not contain: `[\s"'<>|]` and the backquote. -/
def isUrlStop (c : CodePoint) : Bool := c.isSpace || PyStr.oneOf (str "\"'`<>|") c

/-- `_RE_URL`. -/
def reUrl : Re CodePoint :=
  .cat [.wordB,
    .oneOf [.seq (.litI (str "http")) (.opt (.litI (str "s"))), .litI (str "ftp"),
      .litI (str "tftp")],
    .litI (str "://"), .plus (.set fun c => !isUrlStop c)]

/-- `_RE_IPV4`. -/
def reIpv4 (uni : Unicode) : Re CodePoint :=
  let digits := Re.between (.set uni.isDigit) 1 3
  .cat [.wordB, .times (.seq digits (.char (cp '.'))) 3, digits,
    .opt (.seq (.char (cp ':')) (.between (.set uni.isDigit) 1 5)), .wordB]

/-- `_RE_IPV6`. -/
def reIpv6 : Re CodePoint :=
  .cat [.wordB, .atLeast (.seq (.between hexRe 1 4) (.char (cp ':'))) 4, .between hexRe 1 4,
    .wordB]

/-- `_RE_DOMAIN`. -/
def reDomain : Re CodePoint :=
  let alnum : Re CodePoint := .set CodePoint.isAsciiAlnum
  let inner : Re CodePoint := .set fun c => c.isAsciiAlnum || c == cp '-'
  .cat [.wordB, .plus (.cat [alnum, .opt (.seq (.upTo inner 61) alnum), .char (cp '.')]),
    .atLeast (.set CodePoint.isAsciiAlpha) 2, .wordB]

/-- `_RE_MD5`, `_RE_SHA1` and `_RE_SHA256`: a word of `n` hexadecimal digits. -/
def reHash (n : ℕ) : Re CodePoint := .cat [.wordB, .times hexRe n, .wordB]

/-- `_RE_CVE`. -/
def reCve (uni : Unicode) : Re CodePoint :=
  .cat [.wordB, .litI (str "cve-"), .times (.set uni.isDigit) 4, .char (cp '-'),
    .between (.set uni.isDigit) 4 7, .wordB]

/-- The types of SSH keys. -/
def sshKeyType : Re CodePoint :=
  .oneOf [.seq (.lit (str "ssh-")) (.oneOf [.lit (str "rsa"), .lit (str "ed25519"),
      .lit (str "dss")]),
    .seq (.lit (str "ecdsa-sha2-nistp")) (.oneOf [.lit (str "256"), .lit (str "384"),
      .lit (str "521")])]

/-- `[A-Za-z0-9+/=]`. -/
def isBase64Char (c : CodePoint) : Bool := c.isAsciiAlnum || PyStr.oneOf (str "+/=") c

/-- `_RE_SSHKEY`, the key body in group 1. -/
def reSshKey : Re CodePoint :=
  .cat [sshKeyType, .plus .space, .group 1 (.atLeast (.set isBase64Char) 64)]

/-! ### Extraction -/

/-- `IocBundle`. -/
structure IocBundle where
  ips : List PyStr
  urls : List PyStr
  domains : List PyStr
  hostnames : List PyStr
  fileHashes : List PyStr
  cveIds : List PyStr
  sshKeySha1s : List PyStr

/-- `_dedupe`: each non-empty element at its first place. -/
def dedupe (xs : List PyStr) : List PyStr := unseen [] (xs.filter fun x => !x.isEmpty)

/-- `c2_hosts`: addresses and full host names. -/
def IocBundle.c2Hosts (b : IocBundle) : List PyStr := dedupe (b.ips ++ b.hostnames)

/-- `is_ip`. -/
def isIp (token : PyStr) : Bool := (ipAddress token).isSome

/-- `_etld1`: the last two labels of a host name. -/
def etld1 (host : PyStr) : Option PyStr :=
  if isIp host then none
  else
    let labels := PyStr.split (cp '.') host
    if labels.length < 2 then none
    else some (PyStr.join (str ".") (labels.drop (labels.length - 2)))

/-- `_strip_url_punct`. -/
def stripUrlPunct (url : PyStr) : PyStr := PyStr.rstrip (PyStr.oneOf (str ").],\x7d;\x22\x27>")) url

/-- The URLs of a text. -/
def findUrls (rt : Runtime) (text : PyStr) : List PyStr :=
  (Re.findall (Re.text rt.unicode) reUrl text).map stripUrlPunct

/-- The addresses of a text, the port taken off an IPv4 address. -/
def ipTokens (rt : Runtime) (text : PyStr) : List PyStr :=
  (Re.findall (Re.text rt.unicode) (reIpv4 rt.unicode) text ++
    Re.findall (Re.text rt.unicode) reIpv6 text).map fun ip =>
      if ip.count (cp ':') = 1 then (PyStr.partition (cp ':') ip).1 else ip

/-- The host of a URL: `(urlparse(u).hostname or "") if "://" in u else ""`. -/
def urlHost (rt : Runtime) (u : PyStr) : Except PyExc PyStr :=
  if PyStr.hasSub u (str "://") then (urlsplit rt.unicode u).map (SplitResult.hostname rt.unicode)
  else .ok []

/-- `extract(text, existing_urls)`. The loop over the URLs is the `mapM`, which gives the host of
each, the empty text where there is none. -/
def extract (rt : Runtime) (text : PyStr) (existingUrls : List PyStr) :
    Except PyExc IocBundle := do
  let re := Re.text rt.unicode
  let urls := dedupe (existingUrls ++ findUrls rt text)
  let hosts ← urls.mapM (urlHost rt)
  let hosts := hosts.filter fun h => !h.isEmpty
  let ips := ipTokens rt text ++ hosts.filter isIp
  let hostnames := hosts.filter fun h => !isIp h
  let candidates := (Re.findall re reDomain text).filter fun d => !isIp d
  let domains := (hostnames ++ candidates).filterMap etld1
  let hashes := Re.findall re (reHash 64) text ++ Re.findall re (reHash 40) text ++
    Re.findall re (reHash 32) text
  return {
    ips := dedupe ips
    urls := urls
    domains := dedupe domains
    hostnames := dedupe hostnames
    fileHashes := dedupe (hashes.map rt.unicode.lower)
    cveIds := dedupe ((Re.findall re (reCve rt.unicode) text).map (List.map CodePoint.asciiUpper))
    sshKeySha1s := dedupe ((Re.finditer re reSshKey text).map fun m =>
      rt.hashlib.sha1 (asciiBytes ((m.group 1).getD []))) }

/-! ### Deduplication -/

/-- `_dedupe` keeps the non-empty elements. -/
@[simp] theorem mem_dedupe {x : PyStr} {xs : List PyStr} : x ∈ dedupe xs ↔ x ∈ xs ∧ x ≠ [] := by
  simp [dedupe]

/-- `_dedupe` keeps an element once. -/
theorem nodup_dedupe (xs : List PyStr) : (dedupe xs).Nodup := nodup_unseen [] _

/-! ### What is extracted -/

/-- The URLs of a session: those the sensor recorded and those of the text. -/
def allUrls (rt : Runtime) (text : PyStr) (existingUrls : List PyStr) : List PyStr :=
  existingUrls ++ findUrls rt text

/-- The extraction raises exactly when some URL has an authority `urlparse` refuses. -/
theorem isOk_extract (rt : Runtime) (text : PyStr) (existingUrls : List PyStr) :
    (extract rt text existingUrls).isOk ↔
      ∀ u ∈ allUrls rt text existingUrls, (urlHost rt u).isOk := by
  have hloop := isOk_mapM (f := urlHost rt) (dedupe (allUrls rt text existingUrls))
  have hbind : (extract rt text existingUrls).isOk ↔
      ((dedupe (allUrls rt text existingUrls)).mapM (urlHost rt)).isOk := by
    simp only [extract, allUrls, bind, Except.bind]
    cases (dedupe (existingUrls ++ findUrls rt text)).mapM (urlHost rt) <;> rfl
  rw [hbind, hloop]
  refine ⟨fun h u hu => ?_, fun h u hu => h u (mem_dedupe.mp hu).1⟩
  by_cases hnil : u = []
  · rw [hnil]
    rfl
  · exact h u (mem_dedupe.mpr ⟨hu, hnil⟩)

/-- A host of one of the URLs. -/
def IsUrlHost (rt : Runtime) (text : PyStr) (existingUrls : List PyStr) (h : PyStr) : Prop :=
  ∃ u ∈ allUrls rt text existingUrls, urlHost rt u = .ok h

/-- The addresses are those of the text and the URL hosts that are IP literals, the host names the
other URL hosts. -/
theorem mem_hosts_extract {rt : Runtime} {text : PyStr} {existingUrls : List PyStr}
    {b : IocBundle} (hb : extract rt text existingUrls = .ok b) {h : PyStr} (hne : h ≠ []) :
    (h ∈ b.ips ↔ h ∈ ipTokens rt text ∨ isIp h ∧ IsUrlHost rt text existingUrls h) ∧
      (h ∈ b.hostnames ↔ ¬ isIp h ∧ IsUrlHost rt text existingUrls h) := by
  cases hm : (dedupe (allUrls rt text existingUrls)).mapM (urlHost rt) with
  | error e =>
    simp only [allUrls] at hm
    simp [extract, hm, bind, Except.bind] at hb
  | ok hosts =>
    have hmem := mem_of_mapM hm h
    simp only [allUrls] at hm
    simp only [extract, hm, bind, Except.bind, pure, Except.pure, Except.ok.injEq] at hb
    subst hb
    have hurl : h ∈ hosts ↔ IsUrlHost rt text existingUrls h := by
      rw [hmem]
      constructor
      · rintro ⟨u, hu, huh⟩
        exact ⟨u, (mem_dedupe.mp hu).1, huh⟩
      · rintro ⟨u, hu, huh⟩
        refine ⟨u, mem_dedupe.mpr ⟨hu, ?_⟩, huh⟩
        rintro rfl
        exact hne (Except.ok.inj huh).symm
    simp only [mem_dedupe, List.mem_append, List.mem_filter, hurl]
    by_cases hip : isIp h = true <;> simp [hip, hne]

theorem ne_nil_of_mem_extract {rt : Runtime} {text : PyStr} {existingUrls : List PyStr}
    {b : IocBundle} (hb : extract rt text existingUrls = .ok b) {h : PyStr}
    (hmem : h ∈ b.ips ∨ h ∈ b.hostnames) : h ≠ [] := by
  simp only [extract, bind_eq_ok, pure, Except.pure, Except.ok.injEq] at hb
  obtain ⟨hosts, -, rfl⟩ := hb
  rcases hmem with hmem | hmem
  · exact (mem_dedupe.mp hmem).2
  · exact (mem_dedupe.mp hmem).2

/-- The endpoints are the addresses of the text and the hosts of the URLs. -/
theorem mem_c2Hosts_extract {rt : Runtime} {text : PyStr} {existingUrls : List PyStr}
    {b : IocBundle} (hb : extract rt text existingUrls = .ok b) (h : PyStr) :
    h ∈ b.c2Hosts ↔ h ≠ [] ∧ (h ∈ ipTokens rt text ∨
      ∃ u ∈ allUrls rt text existingUrls, urlHost rt u = .ok h) := by
  rw [IocBundle.c2Hosts, mem_dedupe, List.mem_append]
  constructor
  · rintro ⟨hmem, hne⟩
    obtain ⟨hips, hnames⟩ := mem_hosts_extract hb hne
    refine ⟨hne, ?_⟩
    rcases hmem with hmem | hmem
    · exact (hips.mp hmem).imp_right And.right
    · exact .inr (hnames.mp hmem).2
  · rintro ⟨hne, hmem⟩
    obtain ⟨hips, hnames⟩ := mem_hosts_extract hb hne
    refine ⟨?_, hne⟩
    rcases hmem with hmem | hmem
    · exact .inl (hips.mpr (.inl hmem))
    · by_cases hip : isIp h = true
      · exact .inl (hips.mpr (.inr ⟨hip, hmem⟩))
      · exact .inr (hnames.mpr ⟨hip, hmem⟩)

/-! ### Lines -/

theorem local_reUrl : reUrl.Local (cp '\n') := by decide

theorem local_reIpv4 (uni : Unicode) : (reIpv4 uni).Local (cp '\n') := by
  have h : uni.isDigit (cp '\n') = false := uni.isDigit_ascii (cp '\n') (by decide)
  simp only [reIpv4, Re.cat, Re.opt, Re.between, Re.times, Re.upTo, Re.char, Re.Local, h]
  decide

theorem local_reIpv6 : reIpv6.Local (cp '\n') := by decide

/-- Over joined lines, the URLs are those of the lines. -/
theorem findUrls_lines (rt : Runtime) (lines : List PyStr) :
    findUrls rt (PyStr.join [cp '\n'] lines) = lines.flatMap (findUrls rt) := by
  rw [findUrls, Re.findall_join _ (Re.isWord_newline rt.unicode) local_reUrl (by decide),
    List.map_flatMap]
  rfl

/-- Over joined lines, the addresses are those of the lines. -/
theorem mem_ipTokens_lines (rt : Runtime) (lines : List PyStr) (h : PyStr) :
    h ∈ ipTokens rt (PyStr.join [cp '\n'] lines) ↔ ∃ l ∈ lines, h ∈ ipTokens rt l := by
  have hmin : 0 < (reIpv4 rt.unicode).minLen := by
    simp only [reIpv4, Re.cat, Re.minLen, Re.times, Re.between, Re.char]
    omega
  rw [ipTokens, Re.findall_join _ (Re.isWord_newline rt.unicode) (local_reIpv4 _) hmin,
    Re.findall_join _ (Re.isWord_newline rt.unicode) local_reIpv6 (by decide)]
  simp only [ipTokens, List.mem_map, List.mem_append, List.mem_flatMap]
  grind

end C2Engine
