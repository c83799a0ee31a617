import C2Engine.Python.Codec
import C2Engine.Python.Url

/-!
# Opening a URL

What `urllib.request.urlopen` of Python 3.12 connects to. The default opener reads the host of a URL
with a splitter of its own and takes percent escapes out of it; the handler of the scheme splits the
port off and has the host resolved; and where an HTTP server answers with a redirect the opener goes
on with the URL it is sent to.

A run of the opener meets a list of hops, one for each request. Names, connections and answers are
those of the network at that moment; IP literals are not looked up.

## Main definitions

* `unquote`: `urllib.parse.unquote`.
* `Request.type`, `Request.host`, `Request.target`: the parts of `urllib.request.Request`, and what
  the handler of the scheme connects to.
* `Hop`: what the network does in one request.
* `urlopen`: the addresses to which connections are opened.

## Main results

* `Hop.connect_of_literal`: the connection to an IP literal.
-/

namespace C2Engine.Python

/-! ### Percent escapes -/

/-- The bytes of an ill-formed sequence that one replacement character stands for: the longest
beginning of a character. -/
def utf8BadLength : Bytes → ℕ
  | [] => 0
  | b :: bs =>
    let b := b.toNat
    let tail (n lo hi : ℕ) : Bool := bs[n]?.any fun c => lo ≤ c.toNat && c.toNat ≤ hi
    if 0xE0 ≤ b ∧ b ≤ 0xEF then
      if tail 0 (if b = 0xE0 then 0xA0 else 0x80) (if b = 0xED then 0x9F else 0xBF) then 2 else 1
    else if 0xF0 ≤ b ∧ b ≤ 0xF4 then
      if tail 0 (if b = 0xF0 then 0x90 else 0x80) (if b = 0xF4 then 0x8F else 0xBF) then
        if tail 1 0x80 0xBF then 3 else 2
      else 1
    else 1

/-- The loop of the decoder with the handler `replace`. -/
def utf8ReplaceGo : ℕ → Bytes → PyStr
  | _, [] => []
  | skip + 1, _ :: bs => utf8ReplaceGo skip bs
  | 0, b :: bs => match utf8First (b :: bs) with
    | some (c, n) => c :: utf8ReplaceGo (n - 1) bs
    | none => ⟨0xFFFD, by decide⟩ :: utf8ReplaceGo (utf8BadLength (b :: bs) - 1) bs

/-- `data.decode("utf-8", "replace")`. -/
def utf8DecodeReplace (data : Bytes) : PyStr := utf8ReplaceGo 0 data

/-- The loop of `unquote_to_bytes` over an ASCII text; `skip` characters belong to the escape read
last. -/
def unquoteGo : ℕ → PyStr → Bytes
  | _, [] => []
  | skip + 1, _ :: s => unquoteGo skip s
  | 0, c :: s =>
    let digits := s.take 2
    if c = cp '%' ∧ digits.length = 2 ∧ digits.all CodePoint.isHexDigit then
      UInt8.ofNat (digitsValue 16 hexValue digits) :: unquoteGo 2 s
    else UInt8.ofNat c.val :: unquoteGo 0 s

/-- `unquote`: the escapes in each run of ASCII characters. -/
def unquote (s : PyStr) : PyStr :=
  if s.elem (cp '%') then
    (s.splitBy fun c d => c.isAscii == d.isAscii).flatMap fun run =>
      if run.all CodePoint.isAscii then utf8DecodeReplace (unquoteGo 0 run) else run
  else s

example : unquote (str "%31%36%39.254.%zz%e2%82%C3%a9") =
    str "169.254.%zz" ++ [⟨0xFFFD, by decide⟩, cp 'é'] := by decide +kernel

/-! ### The request -/

/-- `unwrap`: `<URL:...>` without its brackets and its mark. -/
def unwrapUrl (url : PyStr) : PyStr :=
  let url := url.strip
  let url := if url.head? = some (cp '<') ∧ url.getLast? = some (cp '>') then
    PyStr.strip url.tail.dropLast else url
  if (str "URL:").isPrefixOf url then PyStr.strip (url.drop 4) else url

/-- The URL without its fragment, which `_splittag` takes off. -/
def withoutTag (url : PyStr) : PyStr :=
  let (path, delim, _) := PyStr.rpartition (cp '#') url
  if delim then path else url

/-- `_splittype`: the scheme of a URL and what is behind it, `none` where there is none. -/
def splitType (uni : Unicode) (url : PyStr) : Option (PyStr × PyStr) :=
  let (scheme, colon, data) := PyStr.partition (cp ':') url
  if colon && !scheme.isEmpty && !scheme.elem (cp '/') then some (uni.lower scheme, data) else none

/-- `_splithost`, the host with its port. -/
def splitHost (rest : PyStr) : PyStr :=
  if (str "//").isPrefixOf rest then (rest.drop 2).takeWhile fun c => !isNetlocEnd c else []

namespace Request

variable (uni : Unicode)

/-- `Request(url).type`; `none` is its `ValueError`. -/
def type (url : PyStr) : Option PyStr :=
  (splitType uni (withoutTag (unwrapUrl url))).map Prod.fst

/-- `Request(url).host`. -/
def host (url : PyStr) : PyStr :=
  match splitType uni (withoutTag (unwrapUrl url)) with
  | some (_, rest) => unquote (splitHost rest)
  | none => []

end Request

/-! ### The handlers -/

/-- `HTTPConnection._get_hostport`: the host without brackets, and the port as it is written. -/
def getHostport (host : PyStr) : PyStr × PyStr :=
  let (before, colon, after) := PyStr.rpartition (cp ':') host
  let (host, port) := if colon && !after.elem (cp ']') then (before, after) else (host, [])
  if host.head? = some (cp '[') ∧ host.getLast? = some (cp ']') then (host.tail.dropLast, port)
  else (host, port)

/-- `_validate_host`: a host without control characters and blanks. -/
def validHost (host : PyStr) : Bool := host.all fun c => 0x20 < c.val && c.val != 0x7F

/-- `_splitport`: the port is what is behind the last colon, if that are digits only. -/
def splitPort (host : PyStr) : PyStr × PyStr :=
  let (before, colon, after) := PyStr.rpartition (cp ':') host
  if colon && after.all CodePoint.isAsciiDigit then (before, after) else (host, [])

/-- The host and the port of `ftp_open`, without the user. -/
def ftpHostport (host : PyStr) : PyStr × PyStr :=
  let (host, port) := splitPort host
  (unquote (PyStr.rpartition (cp '@') host).2.2, port)

/-- What a request of the opener is made to: the host and the port, and whether by FTP. -/
structure Target where
  ftp : Bool
  host : PyStr
  port : PyStr

/-- The target of a URL; a scheme without a handler for the network has none. -/
def Request.target (uni : Unicode) (url : PyStr) : Option Target :=
  let host := Request.host uni url
  if host.isEmpty then none
  else if [some (str "http"), some (str "https")].elem (Request.type uni url) then
    let (host, port) := getHostport host
    if validHost host then some ⟨false, host, port⟩ else none
  else if Request.type uni url = some (str "ftp") then
    let (host, port) := ftpHostport host
    some ⟨true, host, port⟩
  else none

/-! ### The network -/

/-- What the network does in one request of the opener. -/
structure Hop where
  /-- The addresses of a name, as `getaddrinfo` lists them; none where it fails. -/
  addresses : PyStr → List IpAddress
  /-- The IPv4 address of a name, as `gethostbyname` finds it. -/
  address : PyStr → Option ℕ
  /-- Whether a connection to the address is made at a port as it is written. -/
  accepts : (port : PyStr) → IpAddress → Bool
  /-- The URL the server redirects to, joined with that of the request. -/
  redirect : Option PyStr

namespace Hop

variable (hop : Hop)

/-- `socket.getaddrinfo`: an IP literal is its own address. -/
def getaddrinfo (host : PyStr) : List IpAddress :=
  match ipAddress host with
  | some a => [a]
  | none => hop.addresses host

/-- `socket.gethostbyname`, for IPv4 only. -/
def gethostbyname (host : PyStr) : List IpAddress :=
  match ipAddress host with
  | some (.v4 n) => [.v4 n]
  | some (.v6 _ _) => []
  | none => (hop.address host).toList.map .v4

/-- The addresses of a target. -/
def resolve (target : Target) : List IpAddress :=
  if target.ftp then hop.gethostbyname target.host else hop.getaddrinfo target.host

/-- The connection of one request: the first address at which one is made, as
`socket.create_connection` tries them. -/
def connect (target : Target) : Option IpAddress :=
  (hop.resolve target).find? (hop.accepts target.port)

/-- A connection to a target that is an IP literal is one to its address. -/
theorem connect_of_literal {target : Target} {a b : IpAddress}
    (hhost : ipAddress target.host = some a)
    (h : hop.connect target = some b) : b = a := by
  have hmem : b ∈ hop.resolve target := List.mem_of_find?_eq_some h
  rw [resolve] at hmem
  split_ifs at hmem
  · rw [gethostbyname, hhost] at hmem
    cases a with
    | v4 n => exact List.mem_singleton.mp hmem
    | v6 n zone => exact absurd hmem List.not_mem_nil
  · rw [getaddrinfo, hhost] at hmem
    exact List.mem_singleton.mp hmem

end Hop

/-- `HTTPRedirectHandler`: a redirect of an HTTP server is followed to HTTP and FTP, four times to
one URL at most, and to ten URLs at most. -/
def followsRedirect (uni : Unicode) (visited : List PyStr) (url newurl : PyStr) : Bool :=
  [some (str "http"), some (str "https")].elem (Request.type uni url) &&
    [some (str "http"), some (str "https"), some (str "ftp")].elem (Request.type uni newurl) &&
    visited.count newurl < 4 && (unseen [] visited).length < 10

/-- `urlopen`: the addresses to which connections are opened, in their order. -/
def urlopen (uni : Unicode) : List Hop → (visited : List PyStr) → (url : PyStr) → List IpAddress
  | [], _, _ => []
  | hop :: hops, visited, url =>
    ((Request.target uni url).bind hop.connect).elim [] fun a =>
      a :: (hop.redirect.filter (followsRedirect uni visited url)).elim [] fun newurl =>
        urlopen uni hops (visited ++ [newurl]) newurl

/-- The first connection is the one of the first hop to the target of the URL. -/
theorem head?_urlopen (uni : Unicode) (hops : List Hop) (visited : List PyStr) (url : PyStr) :
    (urlopen uni hops visited url).head? =
      hops.head?.bind fun hop => (Request.target uni url).bind hop.connect := by
  cases hops with
  | nil => rfl
  | cons hop hops =>
    rw [urlopen, List.head?_cons, Option.bind_some]
    cases (Request.target uni url).bind hop.connect <;> rfl

example : (Request.target .basic (str "http://%31%36%39.254.169.254:80/x")).map
    (fun t => (t.host, t.port)) = some (str "169.254.169.254", str "80") := by
  decide +kernel

end C2Engine.Python
