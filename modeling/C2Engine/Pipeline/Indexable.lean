import C2Engine.Elastic.Schema
import C2Engine.Pipeline.Monotone

/-!
# Which rows the ledger accepts

A ledger row carries values the engine does not check: identifiers of the session, addresses and
hashes the sensor wrote, and hosts, URLs and interpreters taken from attacker text. This file says
for which sessions every row `process` returns fits the template of the ledger. Ports always do,
and so do the values the engine makes itself: hashes, magic and family labels.

The location databases are outside the engine; `GeoEnricher.Bounded` says that the names they
answer with fit a `keyword` field.

## Main definitions

* `SessionIndexable`, `FileIndexable`, `CommonIndexable`: the condition on a session, on a file,
  and on the columns all rows share.

## Main results

* `short_magic`, `short_familyLabel`: labels fit.
* `indexable_observations_iff`: every row fits exactly when the session is indexable.
-/

namespace C2Engine

open Python

/-! ### Labels -/

theorem Short.of_sublist {s t : PyStr} (h : Short t) (hs : s.Sublist t) : Short s :=
  (PyStr.utf8Len_le_of_sublist hs).trans h

theorem short_of_length {s : PyStr} (h : s.length ≤ 64) : Short s := by
  have := PyStr.utf8Len_le s
  rw [Short, maxTermBytes]
  omega

theorem fromBytes_lt (little : Bool) (data : Bytes) :
    fromBytes little data < 256 ^ data.length := by
  have hfold : ∀ (l : Bytes) (n : ℕ), l.foldl (fun n b => n * 256 + b.toNat) n <
      (n + 1) * 256 ^ l.length := by
    intro l
    induction l with
    | nil => simp
    | cons b l ih =>
      intro n
      refine (ih (n * 256 + b.toNat)).trans_le ?_
      have hb := b.toNat_lt
      rw [List.length_cons, Nat.pow_succ', ← Nat.mul_assoc]
      exact Nat.mul_le_mul_right _ (by omega)
  cases little with
  | true => simpa [fromBytes] using hfold data.reverse 0
  | false => simpa [fromBytes] using hfold data 0

/-- A magic text is ASCII and at most 64 characters long. -/
theorem sniffMagic_spec {data : Bytes} {m : PyStr} (h : sniffMagic data = .ok (some m)) :
    m.all CodePoint.isAscii ∧ m.length ≤ 64 := by
  unfold sniffMagic at h
  split_ifs at h
  · obtain ⟨cls, -, h⟩ := bind_eq_ok.mp h
    obtain ⟨order, -, h⟩ := bind_eq_ok.mp h
    simp only [pure, Except.pure, Except.ok.injEq, Option.some.injEq] at h
    subst h
    set machine := fromBytes (order = 1) ((data.drop 18).take 2) with hmachine
    have hlt : machine < 10 ^ 5 := by
      refine (fromBytes_lt _ _).trans_le ?_
      calc 256 ^ ((data.drop 18).take 2).length
          ≤ 256 ^ 2 := Nat.pow_le_pow_right (by omega) (List.length_take_le _ _)
        _ ≤ 10 ^ 5 := by omega
    have hdigits := PyStr.length_ofNat_le (by omega) hlt
    have harch : ∀ a, ((elfMachines.find? fun m => m.1 = machine).map Prod.snd).getD
        (str "machine " ++ PyStr.ofNat machine) = a → a.all CodePoint.isAscii ∧ a.length ≤ 13 := by
      rintro a rfl
      cases hfind : elfMachines.find? fun m => m.1 = machine with
      | none =>
        have hlabel : (str "machine ").all CodePoint.isAscii ∧ (str "machine ").length = 8 := by
          decide
        simp only [Option.map_none, Option.getD_none, List.all_append, List.length_append,
          hlabel.1, hlabel.2, PyStr.isAscii_ofNat, Bool.and_self, true_and]
        omega
      | some m =>
        have hmem := List.mem_of_find?_eq_some hfind
        have hall : ∀ m ∈ elfMachines, m.2.all CodePoint.isAscii ∧ m.2.length ≤ 13 := by decide
        exact hall m hmem
    obtain ⟨hascii, hlen⟩ := harch _ rfl
    have hbits : ∀ b, (if cls = 1 then str "32-bit" else if cls = 2 then str "64-bit" else str "?")
        = b → b.all CodePoint.isAscii ∧ b.length ≤ 6 := by
      rintro b rfl
      split_ifs <;> decide
    obtain ⟨hascii', hlen'⟩ := hbits _ rfl
    have helf : (str "ELF ").all CodePoint.isAscii ∧ (str "ELF ").length = 4 := by decide
    have hsp : (str " ").all CodePoint.isAscii ∧ (str " ").length = 1 := by decide
    simp only [List.all_append, List.length_append, hascii, hascii', helf.1, helf.2, hsp.1, hsp.2,
      Bool.and_self, true_and]
    omega
  all_goals cases h
  all_goals decide

/-- A magic text fits. -/
theorem short_magic {data : Bytes} {magic : Option PyStr} (h : sniffMagic data = .ok magic) :
    ∀ m, magic = some m → Short m := by
  rintro m rfl
  exact short_of_length (sniffMagic_spec h).2

/-- A family label fits. -/
theorem short_familyLabel {uni : Unicode} {data : Bytes} {magic interpreter : Option PyStr}
    (h : sniffMagic data = .ok magic) :
    ∀ f, familyLabel uni data magic interpreter = some f → Short f := by
  have hbinary : ∀ m ∈ binaryMarkers, Short m.2 := by decide +kernel
  have hscript : ∀ m ∈ scriptMarkers, Short m.2 := by decide +kernel
  intro f hf
  simp only [familyLabel] at hf
  split_ifs at hf with helf
  · cases hmark : firstMarker bytesAlphabet binaryMarkers data with
    | some m =>
      simp only [hmark, Option.getD_some, Option.some.injEq] at hf
      obtain ⟨p, hp, rfl⟩ := Option.map_eq_some_iff.mp hmark
      exact hf ▸ hbinary p (List.mem_of_find?_eq_some hp)
    | none =>
      simp only [hmark, Option.getD_none, Option.some.injEq] at hf
      subst hf
      cases magic with
      | none => simp [str_eq] at helf
      | some m =>
        obtain ⟨hascii, hlen⟩ := sniffMagic_spec h
        set w := (PyStr.words ((some m).getD [])).getLastD [] with hw
        have hsub : w.Sublist m := by
          cases hwords : PyStr.words m with
          | nil => simp [hw, hwords]
          | cons v vs =>
            refine PyStr.sublist_of_mem_words ?_
            simp only [hw, Option.getD_some, hwords, List.getLastD_cons]
            exact List.getLastD_mem_cons
        have hwascii : w.all CodePoint.isAscii := by
          rw [List.all_eq_true] at hascii ⊢
          exact fun c hc => hascii c (hsub.subset hc)
        have hwlen := hsub.length_le
        rw [uni.lower_ascii w hwascii]
        have hpre : (str "trojan.elf/").utf8Len ≤ 11 := by decide
        have hle := PyStr.utf8Len_le (w.map CodePoint.asciiLower)
        rw [List.length_map] at hle
        rw [Short, PyStr.utf8Len_append, maxTermBytes]
        omega
  · obtain ⟨i, -, hf⟩ := Option.bind_eq_some_iff.mp hf
    obtain ⟨p, hp, rfl⟩ := Option.map_eq_some_iff.mp hf
    exact hscript p (List.mem_of_find?_eq_some hp)

/-! ### The condition -/

/-- The columns all rows of a session share fit. -/
structure CommonIndexable (s : SessionIn) : Prop where
  sensorUuid : Short s.sensorUuid
  sensorHostname : Short s.sensorHostname
  srcIp : IsIpLiteral s.srcIp
  sessionId : Short s.sessionId
  hassh : ∀ h, (s.hpData.kex.bind fun k => k.hassh) = some h → Short h

/-- The columns a payload gives fit: the interpreter it names, and the hosts in its text other
than the host that served it. -/
structure PayloadIndexable (rt : Runtime) (host : PyStr) (magic : Option PyStr) (data : Bytes) :
    Prop where
  interpreter : ∀ i, payloadInterpreter rt.unicode magic data = some i → Short i
  callbacks : ∀ h, HostIn rt (expandCommand rt.unicode (payloadText magic data).2) [] h →
    h ≠ host → Short h

/-- The columns of a file served by `host` fit. -/
structure FileIndexable (rt : Runtime) (f : FileRef) (host : PyStr) : Prop where
  c2Host : Short host
  url : Short f.url
  resolvedIp : ∀ ip, f.resolvedIp = some ip → ip ≠ [] → IsIpLiteral ip
  shasum : Short f.shasum
  payload : ∀ data magic, decodeBytes f = some data → sniffMagic data = .ok magic →
    PayloadIndexable rt host magic data

/-- Every row of the session fits: the shared columns, if there is a row at all, the hosts its
commands and URLs name, and its files. -/
structure SessionIndexable (rt : Runtime) (s : SessionIn) : Prop where
  common : ((∃ host, SessionHost rt s host) ∨ ∃ f ∈ s.hpData.files, ∃ host, FileServes rt f host) →
    CommonIndexable s
  hosts : ∀ host, SessionHost rt s host → Short host
  files : ∀ f ∈ s.hpData.files, ∀ host, FileServes rt f host → FileIndexable rt f host

/-- The names a location database answers with fit. -/
structure GeoEnricher.Bounded (g : GeoEnricher) : Prop where
  isoCode : ∀ lookup, g.city = some lookup → ∀ ip a, lookup ip = some a →
    ∀ c, a.isoCode = some c → Short c
  organization : ∀ lookup, g.asn = some lookup → ∀ ip a, lookup ip = some a →
    ∀ o, a.organization = some o → Short o

/-! ### The rows of each producer -/

/-- A row without columns of its own fits when the shared ones and its host do. -/
theorem fits_baseObs {s : SessionIn} {host : PyStr} {kind : HostKind} {ev : Evidence} :
    (baseObs s host kind ev).Fits ↔ CommonIndexable s ∧ Short host := by
  constructor
  · intro h
    exact ⟨⟨h.sensorUuid, h.sensorHostname, h.srcIp, h.sessionId, h.hassh⟩, h.c2Host⟩
  · rintro ⟨⟨h₁, h₂, h₃, h₄, h₅⟩, hhost⟩
    rw [C2Observation.fits_iff]
    exact ⟨h₁, h₂, h₃, h₄, hhost, nofun, nofun, nofun, nofun, h₅, nofun, nofun, nofun, nofun,
      nofun, nofun, nofun, nofun, nofun, nofun⟩

theorem short_orNone {s : PyStr} : (∀ t, PyStr.orNone s = some t → Short t) ↔ Short s := by
  simp only [PyStr.orNone_eq_some]
  refine ⟨fun h => ?_, fun h t ht => ht.1 ▸ h⟩
  by_cases hs : s = []
  · rw [hs]
    decide +kernel
  · exact h s ⟨rfl, hs⟩

/-- A port that `split_url` returned, and a path. -/
theorem splitUrl_spec {rt : Runtime} {url urlHost path : PyStr} {port : Option ℕ}
    (h : splitUrl rt url = .ok (urlHost, port, path)) :
    (∀ n, port = some n → n ≤ 65535) ∧ path.Sublist url := by
  simp only [splitUrl, bind_eq_ok, pure, Except.pure, Except.ok.injEq, Prod.mk.injEq] at h
  obtain ⟨parts, hparts, port', hport, -, rfl, rfl⟩ := h
  refine ⟨?_, path_sublist_of_urlsplit hparts⟩
  rintro n rfl
  exact SplitResult.port_le hport

/-- The row of a file fits when the shared columns and those of the file do. -/
theorem fits_servedFile {rt : Runtime} {s : SessionIn} {f : FileRef} {o : C2Observation}
    {host : PyStr} (h : servedFile rt s f = .ok (some o)) (hserves : FileServes rt f host) :
    o.Fits ↔ CommonIndexable s ∧ FileIndexable rt f host := by
  have hresolved : (∀ ip, f.resolvedIp.bind PyStr.orNone = some ip → IsIpLiteral ip) ↔
      ∀ ip, f.resolvedIp = some ip → ip ≠ [] → IsIpLiteral ip := by
    simp only [Option.bind_eq_some_iff, PyStr.orNone_eq_some]
    grind
  have hcolumns {path : PyStr} {port : Option ℕ}
      (hurl : ∃ urlHost, splitUrl rt f.url = .ok (urlHost, port, path)) :
      (Short f.url → ∀ p, PyStr.orNone path = some p → Short p) ∧
        ∀ n, port = some n → n < 2 ^ 31 := by
    obtain ⟨urlHost, hurl⟩ := hurl
    obtain ⟨hport, hpath⟩ := splitUrl_spec hurl
    refine ⟨fun hu => short_orNone.mpr (hu.of_sublist hpath), fun n hn => ?_⟩
    have := hport n hn
    omega
  cases servedAs_of_eq h with
  | bare hserves' hurl hdata =>
    obtain rfl := hserves'.unique hserves
    obtain ⟨hpath', hport'⟩ := hcolumns hurl
    constructor
    · intro hfits
      exact ⟨⟨hfits.sensorUuid, hfits.sensorHostname, hfits.srcIp, hfits.sessionId, hfits.hassh⟩,
        hfits.c2Host, short_orNone.mp hfits.c2Url, hresolved.mp hfits.c2ResolvedIp,
        short_orNone.mp hfits.sha256, fun data magic hd => by simp [hdata] at hd⟩
    · rintro ⟨⟨h₁, h₂, h₃, h₄, h₅⟩, hhost, hu, hip, hsha, -⟩
      rw [C2Observation.fits_iff]
      exact ⟨h₁, h₂, h₃, h₄, hhost, hresolved.mpr hip, short_orNone.mpr hu, hport', hpath' hu, h₅,
        nofun, nofun, short_orNone.mpr hsha, nofun, nofun, nofun, nofun, nofun, nofun, nofun⟩
  | @payload host' path port data _ hserves' hurl hdata hrow =>
    obtain rfl := hserves'.unique hserves
    obtain ⟨hpath', hport'⟩ := hcolumns hurl
    obtain ⟨magic, hosts, hmagic, hhosts, content, truncated, rfl⟩ := servedPayload_eq_ok hrow rfl
    have hsha : (∀ h, (PyStr.orNone f.shasum <|> some (rt.hashlib.sha256 data)) = some h →
        Short h) ↔ Short f.shasum := by
      rw [← short_orNone]
      cases PyStr.orNone f.shasum with
      | some t => rfl
      | none =>
        refine iff_of_true (fun h hh => ?_) nofun
        obtain rfl : rt.hashlib.sha256 data = h := Option.some.inj hh
        exact short_of_length (rt.hashlib.length_sha256 data).le
    have hcallbacks : (∀ h ∈ (hosts.map Prod.fst).filter fun h => h ≠ host', Short h) ↔
        ∀ h, HostIn rt (expandCommand rt.unicode (payloadText magic data).2) [] h → h ≠ host' →
          Short h := by
      simp only [List.mem_filter, mem_findHosts hhosts, decide_eq_true_eq, and_imp]
    constructor
    · intro hfits
      refine ⟨⟨hfits.sensorUuid, hfits.sensorHostname, hfits.srcIp, hfits.sessionId, hfits.hassh⟩,
        hfits.c2Host, short_orNone.mp hfits.c2Url, hresolved.mp hfits.c2ResolvedIp,
        hsha.mp hfits.sha256, fun data' magic' hd hm => ?_⟩
      obtain rfl : data = data' := Option.some.inj (hdata.symm.trans hd)
      obtain rfl : magic = magic' := Except.ok.inj (hmagic.symm.trans hm)
      exact ⟨hfits.interpreter, hcallbacks.mp hfits.callbacks⟩
    · rintro ⟨⟨h₁, h₂, h₃, h₄, h₅⟩, hhost, hu, hip, hs, hp⟩
      obtain ⟨hinterp, hcb⟩ := hp data magic hdata hmagic
      have hdigest (n : ℕ) (hn : n ≤ 64) (d : PyStr) (hd : d.length = n) :
          ∀ h, some d = some h → Short h := by
        intro h hh
        obtain rfl := Option.some.inj hh
        exact short_of_length (hd.trans_le hn)
      rw [C2Observation.fits_iff]
      exact ⟨h₁, h₂, h₃, h₄, hhost, hresolved.mpr hip, short_orNone.mpr hu, hport', hpath' hu, h₅,
        nofun, nofun, hsha.mpr hs, hdigest 40 (by omega) _ (rt.hashlib.length_sha1 data),
        hdigest 32 (by omega) _ (rt.hashlib.length_md5 data), short_magic hmagic,
        short_familyLabel hmagic, hinterp, hcallbacks.mpr hcb, nofun⟩

/-- Where the row of a file fits, so do those of its callbacks. -/
theorem fits_callback {rt : Runtime} {s : SessionIn} {f : FileRef} {g : C2Observation}
    {host : PyStr} (hf : servedFile rt s f = .ok (some g)) (hfits : g.Fits)
    (hhost : host ∈ g.callbacks) :
    { baseObs s host (classifyHost host) .fileCallback with c2ViaSha256 := g.sha256 }.Fits := by
  obtain ⟨host', hserves⟩ := exists_fileServes_of_eq hf
  have hcommon := ((fits_servedFile hf hserves).mp hfits).1
  have hbase : (baseObs s host (classifyHost host) .fileCallback).Fits :=
    fits_baseObs.mpr ⟨hcommon, hfits.callbacks host hhost⟩
  exact { hbase with c2ViaSha256 := hfits.sha256 }

/-- The rows of the producers carry no location. -/
theorem location_of_allObservations {rt : Runtime} {s : SessionIn} {ctx : SessionContext}
    {rows : List C2Observation} (h : allObservations rt s ctx = .ok rows) :
    ∀ o ∈ rows, o.c2Country = none ∧ o.c2AsnOrg = none := by
  intro o ho
  cases (mem_allObservations h).mp ho with
  | reference | callback => exact ⟨rfl, rfl⟩
  | served _ hfile =>
    cases servedAs_of_eq hfile with
    | bare => exact ⟨rfl, rfl⟩
    | payload _ _ _ hrow =>
      obtain ⟨_, _, -, -, _, _, rfl⟩ := servedPayload_eq_ok hrow rfl
      exact ⟨rfl, rfl⟩

/-- A location leaves a row without one fitting, or not fitting, as it was. -/
theorem fits_enrich {g : GeoEnricher} (hg : g.Bounded) {o : C2Observation}
    (hcountry : o.c2Country = none) (horg : o.c2AsnOrg = none) : (g.enrich o).Fits ↔ o.Fits := by
  unfold GeoEnricher.enrich
  split
  · rfl
  · next ip _ =>
    have hlocate : (∀ c, (g.locate ip).c2Country = some c → Short c) ∧
        ∀ a n, (g.locate ip).asn = some a → a.organization = some n → Short n := by
      unfold GeoEnricher.locate
      split_ifs
      · exact ⟨nofun, nofun⟩
      · refine ⟨fun c hc => ?_, fun a n ha hn => ?_⟩
        · simp only [Option.bind_eq_some_iff, PyStr.orNone_eq_some] at hc
          obtain ⟨c', ⟨a, ⟨lookup, hl, ha⟩, hiso⟩, rfl, -⟩ := hc
          exact hg.isoCode lookup hl ip a ha c' hiso
        · obtain ⟨lookup, hl, ha⟩ := Option.bind_eq_some_iff.mp ha
          exact hg.organization lookup hl ip a ha n hn
    have hcountry' : ∀ c, ((g.locate ip).c2Country <|> o.c2Country) = some c → Short c := by
      simpa [hcountry] using hlocate.1
    constructor
    · intro h
      exact { h with c2Country := by simp [hcountry], c2AsnOrg := by simp [horg] }
    · intro h
      refine { h with c2Country := hcountry', c2AsnOrg := ?_ }
      cases hasn : (g.locate ip).asn with
      | none => simp [hasn, horg]
      | some a => simpa [hasn] using fun n hn => hlocate.2 a n hasn hn

theorem fits_locateRows {geo : Option GeoEnricher} (hgeo : ∀ g, geo = some g → g.Bounded)
    {rows : List C2Observation} (hrows : ∀ o ∈ rows, o.c2Country = none ∧ o.c2AsnOrg = none) :
    (∀ o ∈ locateRows geo rows, o.Fits) ↔ ∀ o ∈ rows, o.Fits := by
  unfold locateRows
  split
  · next g =>
    split_ifs
    · rw [List.forall_mem_map]
      exact forall₂_congr fun o ho => fits_enrich (hgeo g rfl) (hrows o ho).1 (hrows o ho).2
    · rfl
  · rfl

/-! ### All rows -/

/-- **Every row is indexable exactly when the session is.** For an accepted session that `process`
returns on, every dumped row is accepted by the template of the ledger if and only if the columns
its rows share, the hosts it names and the files it fetched fit. -/
theorem indexable_observations_iff {rt : Runtime} {geo : Option GeoEnricher}
    (hgeo : ∀ g, geo = some g → g.Bounded) {raw : Dict} {s : SessionIn} {e : Enriched}
    (h : SessionIn.modelValidate rt raw = .ok s) (he : process rt raw geo = .ok e) :
    (∀ o ∈ e.observations, Indexable (o.modelDump rt)) ↔ SessionIndexable rt s := by
  obtain ⟨ctx, rows, hctx, hrows, hobs⟩ := observations_of_process h he
  have hok := isOk_servedFile_of_allObservations (isOk_iff.mpr ⟨rows, hrows⟩)
  simp only [indexable_modelDump, hobs]
  rw [fits_locateRows hgeo (location_of_allObservations hrows)]
  constructor
  · intro hfits
    have hrefs : ∀ host, SessionHost rt s host → CommonIndexable s ∧ Short host := by
      intro host hhost
      exact fits_baseObs.mp (hfits _ ((mem_allObservations hrows).mpr
        (.reference ((mem_c2Hosts_buildContext hctx host).mpr hhost))))
    have hfiles : ∀ f ∈ s.hpData.files, ∀ host, FileServes rt f host →
        CommonIndexable s ∧ FileIndexable rt f host := by
      intro f hf host hserves
      obtain ⟨o, ho⟩ := exists_servedFile_eq (hok f hf) hserves
      exact (fits_servedFile ho hserves).mp
        (hfits o ((mem_allObservations hrows).mpr (.served hf ho)))
    refine ⟨?_, fun host hhost => (hrefs host hhost).2, fun f hf host hs => (hfiles f hf host hs).2⟩
    rintro (⟨host, hhost⟩ | ⟨f, hf, host, hserves⟩)
    · exact (hrefs host hhost).1
    · exact (hfiles f hf host hserves).1
  · rintro ⟨hcommon, hhosts, hfiles⟩
    have hserves : ∀ f ∈ s.hpData.files, ∀ o, servedFile rt s f = .ok (some o) → o.Fits := by
      intro f hf o hfile
      obtain ⟨host, hs⟩ := exists_fileServes_of_eq hfile
      exact (fits_servedFile hfile hs).mpr ⟨hcommon (.inr ⟨f, hf, host, hs⟩), hfiles f hf host hs⟩
    intro o ho
    cases (mem_allObservations hrows).mp ho with
    | reference hhost =>
      have hhost := (mem_c2Hosts_buildContext hctx _).mp hhost
      exact fits_baseObs.mpr ⟨hcommon (.inl ⟨_, hhost⟩), hhosts _ hhost⟩
    | served hf hfile => exact hserves _ hf _ hfile
    | callback hf hfile hhost => exact fits_callback hfile (hserves _ hf _ hfile) hhost

/-- A session with one URL and the address of its attacker. -/
theorem indexable_observations_iff_url :
    ∃ e, process .basic ((key "src_ip", .str (str "5.6.7.8")) ::
        hpDataDoc [] [str "http://1.2.3.4/x"]) none = .ok e ∧
      ((∀ o ∈ e.observations, Indexable (o.modelDump .basic)) ↔
        SessionIndexable .basic
          { srcIp := str "5.6.7.8", hpData := { urls := [str "http://1.2.3.4/x"] } }) := by
  obtain ⟨e, he⟩ := isOk_iff.mp (show (process .basic ((key "src_ip", .str (str "5.6.7.8")) ::
    hpDataDoc [] [str "http://1.2.3.4/x"]) none).isOk by decide +kernel)
  exact ⟨e, he, indexable_observations_iff (fun g hg => by simp at hg) rfl he⟩

/-- A session without `src_ip` has rows whose `src_ip` is the empty text. -/
theorem not_indexable_observations : ¬ ∀ (rt : Runtime) (geo : Option GeoEnricher) (raw : Dict)
    (s : SessionIn) (e : Enriched), (∀ g, geo = some g → g.Bounded) →
    SessionIn.modelValidate rt raw = .ok s → process rt raw geo = .ok e →
    ∀ o ∈ e.observations, Indexable (o.modelDump rt) := by
  intro h
  obtain ⟨e, he⟩ := isOk_iff.mp
    (show (process .basic (hpDataDoc [] [str "http://1.2.3.4/x"]) none).isOk by decide +kernel)
  have hvalid : SessionIn.modelValidate .basic (hpDataDoc [] [str "http://1.2.3.4/x"]) =
      .ok { hpData := { urls := [str "http://1.2.3.4/x"] } } := rfl
  obtain ⟨ctx, rows, hctx, hrows, hobs⟩ := observations_of_process hvalid he
  have hhost : str "1.2.3.4" ∈ ctx.iocs.c2Hosts := by
    rw [mem_c2Hosts_buildContext hctx]
    exact ⟨by decide, .inr ⟨str "http://1.2.3.4/x", .inl (List.mem_singleton.mpr rfl),
      by decide +kernel⟩⟩
  have hrow := (mem_allObservations hrows).mpr (.reference hhost)
  rw [show rows = e.observations from hobs.symm] at hrow
  have hfits := (indexable_modelDump _ _).mp
    (h .basic none _ _ e (fun g hg => by simp at hg) hvalid he _ hrow)
  exact absurd hfits.srcIp (by decide)

end C2Engine
