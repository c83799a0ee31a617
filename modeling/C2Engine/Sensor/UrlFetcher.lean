import C2Engine.Python.UrlRequest
import C2Engine.Sensor.ExtractUrls
import C2Engine.Sensor.Stingar

/-!
# The guard of the fetcher

`output/urlfetcher.py`: the plugin fetches the URLs of the commands attackers type. A guard refuses
URLs whose host is the literal of an address in the skip ranges, and a worker thread looks the host
up once more and refuses an answer in them. The connection is made by `urllib.request` later, which
reads the host of the URL again, looks it up again and follows redirects.

The network is told for each URL, which is fetched once in the life of the process: the answer to
the look-up of the worker, and the hops of the opener.

## Main definitions

* `isSkipped`, `embedded`, `Barred`: the skip ranges, and the addresses that are never to be
  contacted.
* `urlIsFetchable`, `Net.resolve`, `fetchAndStore`, `write`: the functions.
* `connections`: the connections of a run of the plugin.
* `Harmless`: what the guard does not see to.

## Main results

* `not_isSkipped_of_readsLiteral`: what the guard sees to.
* `neverBarred_iff`: the statement about runs.
-/

namespace C2Engine

open Python

/-! ### The skip ranges -/

/-- A network, by one of its addresses and the number of bits that are free. -/
structure IpNetwork where
  base : ℕ
  hostBits : ℕ

namespace IpNetwork

/-- `IPv4Network("a.b.c.d/len")`. -/
def v4 (a b c d len : ℕ) : IpNetwork := ⟨((a * 256 + b) * 256 + c) * 256 + d, 32 - len⟩

/-- `IPv6Network`, by the value of its address. -/
def v6 (value len : ℕ) : IpNetwork := ⟨value, 128 - len⟩

/-- `addr in net`. -/
def contains (net : IpNetwork) (value : ℕ) : Bool :=
  value / 2 ^ net.hostBits == net.base / 2 ^ net.hostBits

end IpNetwork

namespace Sensor.UrlFetcher

/-- `_SKIP_IPV4`. -/
def skipIpv4 : List IpNetwork :=
  [.v4 0 0 0 0 8, .v4 10 0 0 0 8, .v4 100 64 0 0 10, .v4 127 0 0 0 8, .v4 169 254 0 0 16,
    .v4 172 16 0 0 12, .v4 192 0 0 0 24, .v4 192 0 2 0 24, .v4 192 168 0 0 16, .v4 198 18 0 0 15,
    .v4 198 51 100 0 24, .v4 203 0 113 0 24, .v4 224 0 0 0 4, .v4 240 0 0 0 4]

/-- `_SKIP_IPV6`: `::1/128`, `::/128`, `fc00::/7`, `fe80::/10`, `ff00::/8` and `2001:db8::/32`. -/
def skipIpv6 : List IpNetwork :=
  [.v6 1 128, .v6 0 128, .v6 (0xfc00 * 2 ^ 112) 7, .v6 (0xfe80 * 2 ^ 112) 10,
    .v6 (0xff00 * 2 ^ 112) 8, .v6 (0x20010db8 * 2 ^ 96) 32]

/-- The address is in the skip ranges. -/
def isSkipped : IpAddress → Bool
  | .v4 n => skipIpv4.any fun net => net.contains n
  | .v6 n _ => skipIpv6.any fun net => net.contains n

/-- The IPv4 addresses that an IPv6 address writes out: an address mapped to IPv6, one compatible
with it, one behind the well-known prefix of NAT64, and the router of a 6to4 network. -/
def embedded : IpAddress → List ℕ
  | .v4 _ => []
  | .v6 n _ =>
    (if n / 2 ^ 32 ∈ [0xffff, 0, 0x0064ff9b * 2 ^ 64] then [n % 2 ^ 32] else []) ++
      if n / 2 ^ 112 = 0x2002 then [n / 2 ^ 80 % 2 ^ 32] else []

/-- The address embeds an IPv4 address in the skip ranges. -/
def embedsSkipped (a : IpAddress) : Bool := (embedded a).any fun n => isSkipped (.v4 n)

/-- The address is in the skip ranges or embeds one that is. -/
def Barred (a : IpAddress) : Prop := isSkipped a ∨ embedsSkipped a

instance (a : IpAddress) : Decidable (Barred a) := inferInstanceAs (Decidable (_ ∨ _))

/-! ### The guard -/

/-- `_ip_is_private`. -/
def ipIsPrivate (ip : PyStr) : Bool := (ipAddress ip).any isSkipped

/-- `url_is_fetchable`. -/
def urlIsFetchable (rt : Runtime) (url : PyStr) : Bool :=
  match urlsplit rt.unicode url with
  | .error _ => false
  | .ok parsed =>
    let host := parsed.hostname rt.unicode
    [str "http", str "https", str "ftp", str "tftp"].elem (rt.unicode.lower parsed.scheme) &&
      !host.isEmpty && !ipIsPrivate host

/-- What `gethostbyname` makes of a name: the text of an address, an `OSError`, or another
exception. -/
inductive Lookup where
  | found (ip : PyStr)
  | osError
  | raised (e : PyExc)

/-- The network during the fetch of one URL. -/
structure Net where
  /-- The look-up of the worker. -/
  lookup : PyStr → Lookup
  /-- The requests of the opener. -/
  hops : List Hop

/-- `_resolve`. -/
def Net.resolve (net : Net) (host : PyStr) : Except PyExc (Option PyStr) :=
  if IsIpLiteral host then .ok (some host)
  else match net.lookup host with
    | .found ip => .ok (some ip)
    | .osError => .ok none
    | .raised e => .error e

/-- The check of `_fetch_and_store`: the host resolves, and not to an address in the skip ranges, or
it does not resolve. -/
def passesLookup (rt : Runtime) (net : Net) (url : PyStr) : Bool :=
  match urlsplit rt.unicode url with
  | .error _ => false
  | .ok parsed =>
    match net.resolve (parsed.hostname rt.unicode) with
    | .error _ => false
    | .ok resolvedIp => !resolvedIp.any ipIsPrivate

/-- `_fetch_and_store`, by the connections it opens. -/
def fetchAndStore (rt : Runtime) (net : Net) (url : PyStr) : List IpAddress :=
  if passesLookup rt net url then urlopen rt.unicode net.hops [] url else []

/-! ### The plugin -/

/-- The command of an event of `cowrie.command.input`; another value in its place raises. -/
def command (e : Entry) : Option PyStr :=
  match e.get "eventid", e.getD "input" (.str []) with
  | .str eventid, .str cmd =>
    if eventid = str "cowrie.command.input" ∧ cmd ≠ [] then some cmd else none
  | _, _ => none

/-- The loop of `write` over the URLs: those that are handed to a worker, and the URLs that are
never fetched again. -/
def hand (rt : Runtime) : (urls fetched : List PyStr) → List PyStr × List PyStr
  | [], fetched => ([], fetched)
  | url :: urls, fetched =>
    if fetched.elem url then hand rt urls fetched
    else
      let (handed, fetched) := hand rt urls (url :: fetched)
      (if urlIsFetchable rt url then url :: handed else handed, fetched)

/-- `write`. -/
def write (rt : Runtime) (e : Entry) (fetched : List PyStr) : List PyStr × List PyStr :=
  match command e with
  | some cmd => hand rt (extractUrls rt cmd) fetched
  | none => ([], fetched)

/-- The URLs that are handed to workers in a run of the plugin. -/
def handedIn (rt : Runtime) : List Entry → (fetched : List PyStr) → List PyStr
  | [], _ => []
  | e :: es, fetched =>
    let (handed, fetched) := write rt e fetched
    handed ++ handedIn rt es fetched

/-- The connections of a run of the plugin, whatever the order in which the workers are run. -/
def connections (rt : Runtime) (nets : PyStr → Net) (es : List Entry) : List IpAddress :=
  (handedIn rt es []).flatMap fun url => fetchAndStore rt (nets url) url

variable {rt : Runtime}

/-- A URL that was not fetched before is handed to a worker if it passes the guard. -/
theorem mem_hand {url : PyStr} : {urls fetched : List PyStr} →
    (url ∈ (hand rt urls fetched).1 ↔ url ∈ urls ∧ url ∉ fetched ∧ urlIsFetchable rt url) ∧
    (url ∈ (hand rt urls fetched).2 ↔ url ∈ urls ∨ url ∈ fetched)
  | [], fetched => by simp [hand]
  | u :: urls, fetched => by
      rw [hand]
      by_cases hu : u ∈ fetched
      · rw [if_pos (List.elem_iff.mpr hu), mem_hand.1, mem_hand.2]
        grind
      · obtain ⟨hhanded, hfetched⟩ := @mem_hand url urls (u :: fetched)
        rw [if_neg (mt List.elem_iff.mp hu)]
        dsimp only
        rw [hfetched]
        split_ifs with hguard
        · rw [List.mem_cons, hhanded]
          grind
        · rw [hhanded]
          grind

/-- What a run hands to workers: each URL of its commands that passes the guard. -/
theorem mem_handedIn {url : PyStr} : {es : List Entry} → {fetched : List PyStr} →
    (url ∈ handedIn rt es fetched ↔ (∃ e ∈ es, ∃ cmd ∈ command e, url ∈ extractUrls rt cmd) ∧
      url ∉ fetched ∧ urlIsFetchable rt url)
  | [], fetched => by simp [handedIn]
  | e :: es, fetched => by
      rw [handedIn]
      dsimp only
      rw [List.mem_append, mem_handedIn, write]
      cases hcmd : command e with
      | none => simp [hcmd]
      | some cmd =>
        dsimp only
        rw [mem_hand.1, mem_hand.2]
        simp only [List.exists_mem_cons_iff, hcmd, Option.mem_def, Option.some.injEq,
          exists_eq_left']
        tauto

/-! ### What the guard sees to -/

/-- The opener reads from the URL the IP literal that the guard reads. -/
def ReadsLiteral (rt : Runtime) (url : PyStr) (a : IpAddress) : Prop :=
  (∃ target, Request.target rt.unicode url = some target ∧ ipAddress target.host = some a) ∧
    ∃ parsed, urlsplit rt.unicode url = .ok parsed ∧
      ipAddress (parsed.hostname rt.unicode) = some a

/-- **What the guard sees to**: the address of an IP literal is not in the skip ranges. -/
theorem not_isSkipped_of_readsLiteral {url : PyStr} {a : IpAddress}
    (hguard : urlIsFetchable rt url) (h : ReadsLiteral rt url a) : isSkipped a = false := by
  obtain ⟨-, parsed, hparsed, ha⟩ := h
  rw [urlIsFetchable, hparsed] at hguard
  dsimp only at hguard
  rw [Bool.and_eq_true, Bool.not_eq_true', ipIsPrivate, ha] at hguard
  exact hguard.2

/-- The first connection for a URL with a literal is the one to the literal. -/
theorem eq_of_readsLiteral {url : PyStr} {a b : IpAddress} {hop : Hop} (h : ReadsLiteral rt url a)
    (hb : (Request.target rt.unicode url).bind hop.connect = some b) : b = a := by
  obtain ⟨⟨target, htarget, ha⟩, -⟩ := h
  rw [htarget, Option.bind_some] at hb
  exact hop.connect_of_literal ha hb

/-! ### The connections -/

/-- What the guard does not see to in the fetch of a URL. -/
structure Harmless (rt : Runtime) (net : Net) (url : PyStr) : Prop where
  /-- A literal that is connected to does not embed an address in the skip ranges. -/
  literal : ∀ a, ReadsLiteral rt url a → ∀ hop ∈ net.hops.head?,
    a ∈ (Request.target rt.unicode url).bind hop.connect → embedsSkipped a = false
  /-- Any other host leads the opener to an address that is not barred. -/
  name : (∀ a, ¬ ReadsLiteral rt url a) → ∀ hop ∈ net.hops.head?,
    ∀ a ∈ (Request.target rt.unicode url).bind hop.connect, ¬ Barred a
  /-- So does each redirect. -/
  redirected : ∀ a ∈ (urlopen rt.unicode net.hops [] url).tail, ¬ Barred a

/-- The first connection for a URL that passed the guard. -/
theorem not_barred_of_harmless {net : Net} {url : PyStr} {hop : Hop} {a : IpAddress}
    (hguard : urlIsFetchable rt url) (h : Harmless rt net url) (hhop : hop ∈ net.hops.head?)
    (ha : a ∈ (Request.target rt.unicode url).bind hop.connect) : ¬ Barred a := by
  by_cases hliteral : ∃ c, ReadsLiteral rt url c
  · obtain ⟨c, hc⟩ := hliteral
    obtain rfl := eq_of_readsLiteral hc (Option.mem_def.mp ha)
    rintro (hskipped | hembeds)
    · rw [not_isSkipped_of_readsLiteral hguard hc] at hskipped
      exact Bool.false_ne_true hskipped
    · rw [h.literal a hc hop hhop ha] at hembeds
      exact Bool.false_ne_true hembeds
  · exact h.name (not_exists.mp hliteral) hop hhop a ha

/-- The connections for a URL that passed the guard. -/
theorem harmless_iff {net : Net} {url : PyStr} (hguard : urlIsFetchable rt url) :
    (∀ a ∈ urlopen rt.unicode net.hops [] url, ¬ Barred a) ↔ Harmless rt net url := by
  have hfirst := head?_urlopen rt.unicode net.hops [] url
  constructor
  · intro h
    have hhead : ∀ hop ∈ net.hops.head?, ∀ a ∈ (Request.target rt.unicode url).bind hop.connect,
        ¬ Barred a := by
      intro hop hhop a ha
      rw [Option.mem_def.mp hhop, Option.bind_some, Option.mem_def.mp ha] at hfirst
      exact h a (List.mem_of_head? hfirst)
    refine ⟨fun a _ hop hhop ha => ?_, fun _ => hhead, fun a ha => h a (List.mem_of_mem_tail ha)⟩
    exact Bool.eq_false_iff.mpr fun hembeds => hhead hop hhop a ha (.inr hembeds)
  · intro h a ha
    cases hlist : urlopen rt.unicode net.hops [] url with
    | nil =>
      rw [hlist] at ha
      exact absurd ha List.not_mem_nil
    | cons b bs =>
      have hredirected := h.redirected
      rw [hlist] at ha hfirst hredirected
      rcases List.mem_cons.mp ha with rfl | ha
      · obtain ⟨hop, hhop, hconnect⟩ := Option.bind_eq_some_iff.mp hfirst.symm
        exact not_barred_of_harmless hguard h hhop hconnect
      · exact hredirected a ha

/-- **No barred address is ever contacted** in a run of the plugin exactly if the fetch of each URL
of its commands that passes the guard, and whose look-up passes it, is harmless. -/
theorem neverBarred_iff (rt : Runtime) (nets : PyStr → Net) (es : List Entry) :
    (∀ a ∈ connections rt nets es, ¬ Barred a) ↔
      ∀ e ∈ es, ∀ cmd ∈ command e, ∀ url ∈ extractUrls rt cmd, urlIsFetchable rt url →
        passesLookup rt (nets url) url → Harmless rt (nets url) url := by
  constructor
  · intro h e he cmd hcmd url hurl hguard hlookup
    rw [← harmless_iff hguard]
    intro a ha
    refine h a (List.mem_flatMap.mpr ⟨url, mem_handedIn.mpr ⟨⟨e, he, cmd, hcmd, hurl⟩,
      List.not_mem_nil, hguard⟩, ?_⟩)
    rw [fetchAndStore, if_pos hlookup]
    exact ha
  · intro h a ha
    obtain ⟨url, hurl, ha⟩ := List.mem_flatMap.mp ha
    obtain ⟨⟨e, he, cmd, hcmd, hurl⟩, -, hguard⟩ := mem_handedIn.mp hurl
    rw [fetchAndStore] at ha
    split_ifs at ha with hlookup
    · exact (harmless_iff hguard).mpr (h e he cmd hcmd url hurl hguard hlookup) a ha
    · exact absurd ha List.not_mem_nil

/-- A server that is allowed redirects to the address of the metadata service. -/
theorem barred_after_redirect :
    let e : Entry := ⟨some (str "a1"), [(key "eventid", .str (str "cowrie.command.input")),
      (key "input", .str (str "sh -c 'fetch http://8.8.8.8/x'"))]⟩
    let hop (redirect : Option PyStr) :
      Hop := ⟨fun _ => [], fun _ => none, fun _ _ => true, redirect⟩
    let net : Net := ⟨fun _ => .osError,
      [hop (some (str "http://169.254.169.254/latest/meta-data/")), hop none]⟩
    ¬ ∀ a ∈ connections .basic (fun _ => net) [e], ¬ Barred a := by
  intro e hop net h
  have hrun : connections .basic (fun _ => net) [e] =
      [.v4 0x08080808, .v4 0xA9FEA9FE] := by
    decide +kernel
  refine h (.v4 0xA9FEA9FE) ?_ (.inl (by decide +kernel))
  rw [hrun]
  exact List.mem_cons_of_mem _ List.mem_cons_self

end Sensor.UrlFetcher

end C2Engine
