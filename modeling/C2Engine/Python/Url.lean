import C2Engine.Python.IpAddress
import C2Engine.Python.Object

/-!
# URLs

`urllib.parse.urlsplit` of Python 3.12 with the parts of its result the engine reads, the scheme,
the path, the host name and the port. `urlparse` splits parameters off the path besides, so the
host name of its result is the same.

## Main definitions

* `urlsplit`: the split, which raises `ValueError` on an authority it refuses.
* `SplitResult.hostname`, `SplitResult.port`: the host name in lower case, and the port, whose
  reading may raise `ValueError` too.

## Main results

* `SplitResult.port_le`: a port that was read is at most 65535.
-/

namespace C2Engine.Python

/-- `urllib.parse.SplitResult`. -/
structure SplitResult where
  scheme : PyStr
  netloc : PyStr
  path : PyStr
  query : PyStr
  fragment : PyStr
  deriving DecidableEq

/-- `scheme_chars`. -/
def isSchemeChar (c : CodePoint) : Bool := c.isAsciiAlnum || PyStr.oneOf (str "+-.") c

/-- `_check_bracketed_host`: an IPv6 address, or an address of a future version. -/
def checkBracketedHost (host : PyStr) : Except PyExc Unit :=
  if host.head? == some (cp 'v') then
    let rest := host.tail.dropWhile CodePoint.isHexDigit
    let hex := host.tail.takeWhile CodePoint.isHexDigit
    if !hex.isEmpty && rest.head? == some (cp '.') && 2 ≤ rest.length then .ok ()
    else .error .valueError
  else match ipAddress host with
    | some (.v6 _ _) => .ok ()
    | _ => .error .valueError

/-- `_check_bracketed_netloc`. -/
def checkBracketedNetloc (netloc : PyStr) : Except PyExc Unit :=
  let hostinfo := (PyStr.rpartition (cp '@') netloc).2.2
  let (before, openBr, bracketed) := PyStr.partition (cp '[') hostinfo
  if openBr then
    let (host, _, port) := PyStr.partition (cp ']') bracketed
    if !before.isEmpty then .error .valueError
    else if !port.isEmpty && port.head? != some (cp ':') then .error .valueError
    else checkBracketedHost host
  else checkBracketedHost (PyStr.partition (cp ':') hostinfo).1

/-- `_checknetloc`: characters that NFKC turns into a delimiter of the authority are refused. -/
def checkNetloc (uni : Unicode) (netloc : PyStr) : Except PyExc Unit :=
  if netloc.all CodePoint.isAscii then .ok ()
  else
    let n := netloc.filter fun c => !PyStr.oneOf (str "@:#?") c
    let n' := uni.nfkc n
    if n = n' then .ok ()
    else if n'.any (PyStr.oneOf (str "/?#@:")) then .error .valueError
    else .ok ()

/-- What `urlsplit` reads: blanks and control characters are taken off the front, tabs and line
breaks out of the whole. -/
def cleanUrl (url : PyStr) : PyStr :=
  (PyStr.lstrip (fun c => c.val ≤ 0x20) url).filter fun c => !PyStr.oneOf (str "\t\r\n") c

/-- The scheme of a URL and what is behind it. -/
def splitScheme (uni : Unicode) (url : PyStr) : PyStr × PyStr :=
  let (before, colon, after) := PyStr.partition (cp ':') url
  if colon && before.head?.any CodePoint.isAsciiAlpha && before.all isSchemeChar then
    (uni.lower before, after)
  else ([], url)

/-- The characters that end an authority. -/
def isNetlocEnd (c : CodePoint) : Bool := PyStr.oneOf (str "/?#") c

/-- The checks of an authority: brackets that do not match, a bracketed host that is no address,
and characters that stand for a delimiter. -/
def checkAuthority (uni : Unicode) (netloc : PyStr) : Except PyExc Unit := do
  if netloc.elem (cp '[') != netloc.elem (cp ']') then throw .valueError
  if netloc.elem (cp '[') then checkBracketedNetloc netloc
  checkNetloc uni netloc

/-- The result for what is behind the authority: the fragment and the query are split off the
path. -/
def splitPath (scheme netloc url : PyStr) : SplitResult :=
  let (url, _, fragment) := PyStr.partition (cp '#') url
  let (url, _, query) := PyStr.partition (cp '?') url
  ⟨scheme, netloc, url, query, fragment⟩

/-- `urlsplit(url)`. -/
def urlsplit (uni : Unicode) (url : PyStr) : Except PyExc SplitResult :=
  let (scheme, url) := splitScheme uni (cleanUrl url)
  if (str "//").isPrefixOf url then
    let rest := url.drop 2
    let netloc := rest.takeWhile fun c => !isNetlocEnd c
    let url := rest.dropWhile fun c => !isNetlocEnd c
    do
      checkAuthority uni netloc
      return splitPath scheme netloc url
  else .ok (splitPath scheme [] url)

theorem cleanUrl_sublist (url : PyStr) : (cleanUrl url).Sublist url :=
  List.filter_sublist.trans (List.dropWhile_sublist _)

theorem splitScheme_snd_sublist (uni : Unicode) (url : PyStr) :
    (splitScheme uni url).2.Sublist url := by
  simp only [splitScheme]
  split_ifs
  · exact PyStr.partition_snd_sublist _ _
  · exact List.Sublist.refl _

theorem splitPath_path_sublist (scheme netloc url : PyStr) :
    (splitPath scheme netloc url).path.Sublist url :=
  (PyStr.partition_fst_sublist _ _).trans (PyStr.partition_fst_sublist _ _)

theorem splitPath_query_sublist (scheme netloc url : PyStr) :
    (splitPath scheme netloc url).query.Sublist url :=
  (PyStr.partition_snd_sublist _ _).trans (PyStr.partition_fst_sublist _ _)

/-- Path, query and fragment are split off a part of the URL. -/
theorem exists_splitPath_of_urlsplit {uni : Unicode} {url : PyStr} {r : SplitResult}
    (h : urlsplit uni url = .ok r) :
    ∃ scheme netloc rest, r = splitPath scheme netloc rest ∧ rest.Sublist url := by
  have hsub := (splitScheme_snd_sublist uni (cleanUrl url)).trans (cleanUrl_sublist url)
  simp only [urlsplit] at h
  split_ifs at h
  · obtain ⟨-, -, h⟩ := bind_eq_ok.mp h
    cases h
    exact ⟨_, _, _, rfl, ((List.dropWhile_sublist _).trans (List.drop_sublist _ _)).trans hsub⟩
  · cases h
    exact ⟨_, _, _, rfl, hsub⟩

/-- The path of a URL is a part of it. -/
theorem path_sublist_of_urlsplit {uni : Unicode} {url : PyStr} {r : SplitResult}
    (h : urlsplit uni url = .ok r) : r.path.Sublist url := by
  obtain ⟨scheme, netloc, rest, rfl, hrest⟩ := exists_splitPath_of_urlsplit h
  exact (splitPath_path_sublist scheme netloc rest).trans hrest

/-- The query of a URL is a part of it. -/
theorem query_sublist_of_urlsplit {uni : Unicode} {url : PyStr} {r : SplitResult}
    (h : urlsplit uni url = .ok r) : r.query.Sublist url := by
  obtain ⟨scheme, netloc, rest, rfl, hrest⟩ := exists_splitPath_of_urlsplit h
  exact (splitPath_query_sublist scheme netloc rest).trans hrest

namespace SplitResult

/-- `_hostinfo`: the host and the port as they are written; no port is the empty text. -/
def hostinfo (r : SplitResult) : PyStr × PyStr :=
  let info := (PyStr.rpartition (cp '@') r.netloc).2.2
  let (_, openBr, bracketed) := PyStr.partition (cp '[') info
  if openBr then
    let (host, _, port) := PyStr.partition (cp ']') bracketed
    (host, (PyStr.partition (cp ':') port).2.2)
  else
    let (host, _, port) := PyStr.partition (cp ':') info
    (host, port)

/-- `hostname`, in lower case but for a zone; the empty text stands for `None`. -/
def hostname (uni : Unicode) (r : SplitResult) : PyStr :=
  let (host, percent, zone) := PyStr.partition (cp '%') r.hostinfo.1
  if percent then uni.lower host ++ cp '%' :: zone else uni.lower host

/-- The longest run of digits `int` reads. -/
def intMaxStrDigits : ℕ := 4300

/-- `port`: `None` where there is none, `ValueError` where it is no number up to 65535. -/
def port (r : SplitResult) : Except PyExc (Option ℕ) :=
  let p := r.hostinfo.2
  if p.isEmpty then .ok none
  else if !p.all CodePoint.isAsciiDigit || intMaxStrDigits < p.length then .error .valueError
  else
    let n := digitsValue 10 decValue p
    if 65535 < n then .error .valueError else .ok (some n)

/-- A port that was read is at most 65535. -/
theorem port_le {r : SplitResult} {n : ℕ} (h : r.port = .ok (some n)) : n ≤ 65535 := by
  simp only [port] at h
  split_ifs at h with h₁ h₂ h₃
  · cases h
  · cases h
    omega

end SplitResult

example : (urlsplit .basic (str "http://[::1")).isOk = false := by decide

example : (urlsplit .basic (str "HTTP://a@[FE80::1]:80/x")).toOption.map
    (fun r => (r.hostname .basic, r.port.toOption)) = some (str "fe80::1", some (some 80)) := by
  decide

end C2Engine.Python
