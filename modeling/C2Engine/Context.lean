import C2Engine.Analyze.Canonical
import C2Engine.Analyze.Session
import C2Engine.Analyze.Shell

/-!
# What is computed once for a session

`context.py`: the indicators of the expanded commands, the playbook, the banner, the credentials
and the shape of a session, computed once and read by the ledger rows and by the session
enrichment, so that both speak of the same hosts.

## Main definitions

* `SessionContext`, `buildContext`.
* `HostIn`, `SessionHost`: the hosts in texts and URLs.

## Main results

* `isOk_buildContext`: which parts of a session make it raise.
* `mem_c2Hosts_buildContext`: the hosts it finds.
-/

namespace C2Engine

open Python

/-- `SessionContext`. -/
structure SessionContext where
  iocs : IocBundle
  playbookCanonical : PyStr
  playbookHash : PyStr
  banner : Option Cpe
  creds : CredEnrichment
  shape : ShapeFeatures

/-- The commands of a session, unknown ones last: `[*hp.commands, *hp.unknown_commands]`. -/
def HpData.allCommands (hp : HpData) : List PyStr := hp.commands ++ hp.unknownCommands

/-- `build_context`. -/
def buildContext (rt : Runtime) (session : SessionIn) : Except PyExc SessionContext := do
  let hp := session.hpData
  let expanded := expandedText rt.unicode hp.allCommands
  let iocs ← extract rt expanded hp.urls
  let (canonical, phash) ← canonicalizeAndHash rt hp.commands hp.unknownCommands
  let creds ← enrichCredentials rt hp.credentials
  let shape ← computeShape session
  return ⟨iocs, canonical, phash, parseBanner rt hp.version, creds, shape⟩

/-- The parts of a session the attacker's commands and URLs have no part in do not raise. -/
def BaseOk (rt : Runtime) (session : SessionIn) : Prop :=
  (enrichCredentials rt session.hpData.credentials).isOk ∧
    (duration session.startTime session.endTime).isOk

theorem isOk_computeShape (s : SessionIn) :
    (computeShape s).isOk ↔ (duration s.startTime s.endTime).isOk := by
  simp only [computeShape, bind, Except.bind]
  cases duration s.startTime s.endTime <;> rfl

/-- `build_context` returns exactly when the indicators, the playbook, the credentials and the
shape do. -/
theorem isOk_buildContext (rt : Runtime) (session : SessionIn) :
    (buildContext rt session).isOk ↔
      (extract rt (expandedText rt.unicode session.hpData.allCommands) session.hpData.urls).isOk ∧
      (canonicalizeAndHash rt session.hpData.commands session.hpData.unknownCommands).isOk ∧
      BaseOk rt session := by
  simp only [buildContext, isOk_bind, isOk_pure, and_true]
  rw [BaseOk, ← isOk_computeShape]
  simp only [isOk_iff]
  constructor
  · rintro ⟨b, hb, p, hp, c, hc, s, hs⟩
    exact ⟨⟨b, hb⟩, ⟨p, hp⟩, ⟨c, hc⟩, s, hs⟩
  · rintro ⟨⟨b, hb⟩, ⟨p, hp⟩, ⟨c, hc⟩, s, hs⟩
    exact ⟨b, hb, p, hp, c, hc, s, hs⟩

theorem iocs_of_buildContext {rt : Runtime} {session : SessionIn} {ctx : SessionContext}
    (h : buildContext rt session = .ok ctx) :
    extract rt (expandedText rt.unicode session.hpData.allCommands) session.hpData.urls =
      .ok ctx.iocs := by
  simp only [buildContext, bind_eq_ok, pure, Except.pure, Except.ok.injEq] at h
  obtain ⟨iocs, hiocs, -, -, -, -, -, -, rfl⟩ := h
  exact hiocs

/-- A host in texts and URLs: an address in one of the texts, or the host of one of the URLs or of
a URL in one of the texts. -/
def HostIn (rt : Runtime) (lines urls : List PyStr) (host : PyStr) : Prop :=
  host ≠ [] ∧ ((∃ l ∈ lines, host ∈ ipTokens rt l) ∨
    ∃ u, (u ∈ urls ∨ ∃ l ∈ lines, u ∈ findUrls rt l) ∧ urlHost rt u = .ok host)

theorem HostIn.mono {rt : Runtime} {lines lines' urls urls' : List PyStr} {host : PyStr}
    (h : HostIn rt lines urls host) (hl : lines ⊆ lines') (hu : urls ⊆ urls') :
    HostIn rt lines' urls' host := by
  obtain ⟨hne, ⟨l, hmem, hip⟩ | ⟨u, hmem | ⟨l, hmem, hfind⟩, hhost⟩⟩ := h
  · exact ⟨hne, .inl ⟨l, hl hmem, hip⟩⟩
  · exact ⟨hne, .inr ⟨u, .inl (hu hmem), hhost⟩⟩
  · exact ⟨hne, .inr ⟨u, .inr ⟨l, hl hmem, hfind⟩, hhost⟩⟩

/-- The endpoints extracted from expanded commands are the hosts in their pieces and in the
URLs. -/
theorem mem_c2Hosts_expandedText {rt : Runtime} {commands urls : List PyStr} {b : IocBundle}
    (h : extract rt (expandedText rt.unicode commands) urls = .ok b) (host : PyStr) :
    host ∈ b.c2Hosts ↔ HostIn rt (expandedLines rt.unicode commands) urls host := by
  rw [mem_c2Hosts_extract h, expandedText, mem_ipTokens_lines, allUrls, findUrls_lines]
  simp only [List.mem_append, List.mem_flatMap, HostIn]

/-- The hosts in the commands and the URLs of a session. -/
def SessionHost (rt : Runtime) (session : SessionIn) (host : PyStr) : Prop :=
  HostIn rt (expandedLines rt.unicode session.hpData.allCommands) session.hpData.urls host

theorem mem_c2Hosts_buildContext {rt : Runtime} {session : SessionIn} {ctx : SessionContext}
    (h : buildContext rt session = .ok ctx) (host : PyStr) :
    host ∈ ctx.iocs.c2Hosts ↔ SessionHost rt session host :=
  mem_c2Hosts_expandedText (iocs_of_buildContext h) host

end C2Engine
