import C2Engine.Ingest.Frames
import C2Engine.Pipeline.Monotone
import C2Engine.Python.Base64
import C2Engine.Sensor.Stingar
import Mathlib.Data.List.Forall2

/-!
# Bytes on the wire

The plugin of the sensor inlines the bytes of a download as Base64 when the session closes; the
engine takes them out of the entry of the file and describes them in a row. The bytes arrive as they
were, but two contents do not come to their row: those of an empty file, whose Base64 is the empty
text, which the engine takes for no content, and those it cannot describe, an ELF header that is cut
off or a text with a URL that `urlparse` refuses.

## Main definitions

* `Output.Inlines`: the plugin inlines the bytes of a file.
* `Output.Carries`: the entry of a file, as the engine reads it.
* `BytesSurvive`: the rows of a session describe the inlined bytes.
* `Describable`: bytes that come to their row.

## Main results

* `contentB64_of_carries`: what the entry has of the bytes.
* `bytesSurvive_iff`: when the bytes of a session survive.
* `not_bytesSurvive_empty`: an empty file.
-/

namespace C2Engine.Sensor

open Python

/-- The plugin inlines the bytes of a file: those of a successful download whose file can be read
and has at most `inline_max` bytes. -/
structure Output.Inlines (out : Output) (disk : Disk) (g : FileData) (data : Bytes) : Prop where
  action : g.action = str "download"
  status : g.status = str "successful"
  outfile : g.outfile.truthy
  content : disk g.outfile = .content data
  le_inlineMax : (data.length : ℤ) ≤ out.inlineMax

/-- A file of the document, as the engine reads it. -/
def received (g : FileData) : Option FileRef := FileRef.validate (normalize g.toObj)

/-- The engine's entry of a file whose bytes the plugin was to inline. -/
def Output.Carries (out : Output) (disk : Disk) (g : FileData) (f : FileRef) : Prop :=
  ∃ g', out.inlineFile disk g = .ok g' ∧ received g' = some f

/-- A row with the columns of the bytes of its file. -/
structure Describes (rt : Runtime) (f : FileRef) (data : Bytes) (o : C2Observation) : Prop where
  size : o.size = some data.length
  sha1 : o.sha1 = some (rt.hashlib.sha1 data)
  md5 : o.md5 = some (rt.hashlib.md5 data)
  sha256 : f.shasum = [] → o.sha256 = some (rt.hashlib.sha256 data)

/-- **The bytes survive**: the engine has the rows of the served files, the bytes it decodes from
the entry of a file are those the plugin inlined, and the row of the file describes them. -/
def BytesSurvive (rt : Runtime) (out : Output) (disk : Disk) (files : List FileData)
    (session : SessionIn) : Prop :=
  ∃ rows, servedFiles rt session = .ok rows ∧
    ∀ p ∈ files.zip session.hpData.files, ∀ data, out.Inlines disk p.1 data →
      decodeBytes p.2 = some data ∧
        ∃ o ∈ rows, servedFile rt session p.2 = .ok (some o) ∧ Describes rt p.2 data o

/-- Bytes that come to their row: there are some, their file serves a host, they are no ELF header
that is cut off, and the URLs in their text can be read. -/
structure Describable (rt : Runtime) (f : FileRef) (data : Bytes) : Prop where
  ne_nil : data ≠ []
  host : ∃ host, FileServes rt f host
  header : ¬ (elfMagic <+: data ∧ data.length < 6)
  readable : ∀ magic, sniffMagic data = .ok magic → TextReadable rt (payloadText magic data).2

/-! ### The entry of a file -/

variable {out : Output} {disk : Disk} {g : FileData} {f : FileRef} {data : Bytes}

theorem inlineFile_of_inlines (h : out.Inlines disk g data) :
    out.inlineFile disk g = .ok { g with contentB64 := some (b64encode data) } := by
  obtain ⟨haction, hstatus, houtfile, hcontent, hle⟩ := h
  rw [Output.inlineFile, hcontent]
  simp [haction, hstatus, houtfile, not_lt.mpr hle, pure, Except.pure]

/-- A file whose bytes are not inlined is left as it is. -/
theorem inlineFile_of_not_inlines {g' : FileData} (h : out.inlineFile disk g = .ok g')
    (hnot : ∀ data, ¬ out.Inlines disk g data) : g' = g := by
  unfold Output.inlineFile at h
  split_ifs at h with hskip houtfile
  · exact (Except.ok.inj h).symm
  · exact (Except.ok.inj h).symm
  · cases hread : disk g.outfile with
    | osError =>
      rw [hread] at h
      exact (Except.ok.inj h).symm
    | raised e =>
      rw [hread] at h
      cases h
    | content data =>
      rw [hread] at h
      by_cases hmax : out.inlineMax < data.length
      · simp only [if_pos hmax] at h
        exact (Except.ok.inj h).symm
      · have hkind : g.action = str "download" ∧ g.status = str "successful" := by
          simpa [not_or] using hskip
        have hout : g.outfile.truthy = true := by simpa using houtfile
        exact absurd ⟨hkind.1, hkind.2, hout, hread, not_lt.mp hmax⟩ (hnot data)

/-- The items of an entry behind `_normalize`. -/
theorem normalize_toObj (g : FileData) : normalize g.toObj =
    .map ([(key "url", normalize g.url), (key "outfile", normalize g.outfile),
      (key "shasum", normalize g.shasum), (key "action", .str g.action),
      (key "status", .str g.status), (key "resolved_ip", normalize g.resolvedIp)] ++
      (g.contentB64.map fun text => (key "content_b64", Obj.str text)).toList) := by
  rw [FileData.toObj]
  cases g.contentB64 <;> rfl

/-- The texts of an entry arrive as they are. -/
theorem texts_of_received (h : received g = some f) :
    f.action = g.action ∧ f.status = g.status ∧ f.contentB64 = g.contentB64 := by
  rw [received, normalize_toObj] at h
  obtain ⟨d, hd, h⟩ := Option.bind_eq_some_iff.mp h
  obtain ⟨url, -, h⟩ := Option.bind_eq_some_iff.mp h
  obtain ⟨outfile, -, h⟩ := Option.bind_eq_some_iff.mp h
  obtain ⟨shasum, -, h⟩ := Option.bind_eq_some_iff.mp h
  obtain ⟨action, haction, h⟩ := Option.bind_eq_some_iff.mp h
  obtain ⟨status, hstatus, h⟩ := Option.bind_eq_some_iff.mp h
  obtain ⟨resolvedIp, -, h⟩ := Option.bind_eq_some_iff.mp h
  obtain ⟨contentB64, hcontent, h⟩ := Option.bind_eq_some_iff.mp h
  obtain rfl := Option.some.inj h
  obtain rfl := Obj.map.inj (validateKeys_eq_some hd)
  refine ⟨?_, ?_, ?_⟩
  · exact (Option.some.inj (field_eq_some haction rfl)).symm
  · exact (Option.some.inj (field_eq_some hstatus rfl)).symm
  · cases hb64 : g.contentB64 with
    | none =>
      rw [hb64] at hcontent
      exact (Option.some.inj hcontent).symm
    | some text =>
      rw [hb64] at hcontent
      exact (Option.some.inj hcontent).symm

/-- What the entry of a file has of the bytes: their Base64, if they were inlined. -/
theorem contentB64_of_carries (hnew : g.contentB64 = none) (h : out.Carries disk g f) :
    f.action = g.action ∧ f.status = g.status ∧
      (∀ data, out.Inlines disk g data → f.contentB64 = some (b64encode data)) ∧
      ((∀ data, ¬ out.Inlines disk g data) → f.contentB64 = none) := by
  obtain ⟨g', hinline, hreceived⟩ := h
  obtain ⟨haction, hstatus, hcontent⟩ := texts_of_received hreceived
  by_cases hsome : ∃ data, out.Inlines disk g data
  · obtain ⟨data, hdata⟩ := hsome
    rw [inlineFile_of_inlines hdata] at hinline
    obtain rfl := Except.ok.inj hinline
    refine ⟨haction, hstatus, fun data' hdata' => ?_, fun hnot => absurd hdata (hnot data)⟩
    obtain rfl := FileRead.content.inj (hdata.content.symm.trans hdata'.content)
    exact hcontent
  · rw [not_exists] at hsome
    obtain rfl := inlineFile_of_not_inlines hinline hsome
    exact ⟨haction, hstatus, fun data hdata => absurd hdata (hsome data),
      fun _ => hcontent.trans hnew⟩

/-- The bytes that are decoded from an entry are those that were inlined, unless there are none. -/
theorem decodeBytes_of_inlines (hnew : g.contentB64 = none) (h : out.Carries disk g f)
    (hin : out.Inlines disk g data) : decodeBytes f = if data = [] then none else some data := by
  obtain ⟨-, -, hcontent, -⟩ := contentB64_of_carries hnew h
  rw [decodeBytes, hcontent data hin]
  split_ifs with hdata
  · rw [hdata]
    rfl
  · cases hb64 : b64encode data with
    | nil => exact absurd hb64 (b64encode_ne_nil hdata)
    | cons c text =>
      dsimp only
      rw [← hb64, b64decode_b64encode]

/-- Bytes are decoded from an entry only if they were inlined. -/
theorem inlines_of_decodeBytes (hnew : g.contentB64 = none) (h : out.Carries disk g f)
    (hdecode : decodeBytes f = some data) : out.Inlines disk g data := by
  obtain ⟨-, -, -, hnone⟩ := contentB64_of_carries hnew h
  by_cases hsome : ∃ data, out.Inlines disk g data
  · obtain ⟨data', hdata'⟩ := hsome
    rw [decodeBytes_of_inlines hnew h hdata'] at hdecode
    split_ifs at hdecode
    exact Option.some.inj hdecode ▸ hdata'
  · rw [not_exists] at hsome
    rw [decodeBytes, hnone hsome] at hdecode
    cases hdecode

/-! ### The row of a file -/

variable {rt : Runtime} {session : SessionIn}

theorem payloadOk_iff (rt : Runtime) (data : Bytes) : PayloadOk rt data ↔
    ¬ (elfMagic <+: data ∧ data.length < 6) ∧
      ∀ magic, sniffMagic data = .ok magic → TextReadable rt (payloadText magic data).2 := by
  rw [← isOk_sniffMagic, isOk_iff]
  constructor
  · rintro ⟨magic, hmagic, hreads⟩
    refine ⟨⟨magic, hmagic⟩, fun magic' hmagic' => ?_⟩
    rw [hmagic] at hmagic'
    exact Except.ok.inj hmagic' ▸ hreads
  · rintro ⟨⟨magic, hmagic⟩, hreads⟩
    exact ⟨magic, hmagic, hreads magic hmagic⟩

/-- The row of a file that is decoded describes its bytes. -/
theorem describes_of_servedFile {o : C2Observation} (h : servedFile rt session f = .ok (some o))
    (hdata : decodeBytes f = some data) : Describes rt f data o := by
  cases servedAs_of_eq h with
  | bare _ _ hnone =>
    rw [hdata] at hnone
    cases hnone
  | @payload host path port _ _ _ _ hdata' hrow =>
    obtain rfl := Option.some.inj (hdata'.symm.trans hdata)
    obtain ⟨magic, hosts, -, -, content, truncated, rfl⟩ := servedPayload_eq_ok hrow rfl
    refine ⟨rfl, rfl, rfl, fun hshasum => ?_⟩
    have hsha : (servedObs session f host port path).sha256 = none := by
      rw [servedObs, hshasum]
      rfl
    simp [hsha]

/-- The bytes of a file with a row were sniffed and read. -/
theorem describable_of_fileOk {host : PyStr} (hfile : FileOk rt f) (hserves : FileServes rt f host)
    (hne : data ≠ []) (hdecode : decodeBytes f = some data) : Describable rt f data := by
  obtain ⟨hfetched, urlHost, port, path, hurl, hhost, hhostne⟩ := hserves
  obtain ⟨urlHost', port', path', hurl', hpayload⟩ := hfile hfetched
  rw [hurl] at hurl'
  obtain rfl := (Prod.mk.inj (Except.ok.inj hurl')).1
  obtain ⟨hheader, hreads⟩ := (payloadOk_iff rt data).mp
    (hpayload (hhost.symm ▸ hhostne) data hdecode)
  exact ⟨hne, ⟨host, hfetched, urlHost, port, path, hurl, hhost, hhostne⟩, hheader, hreads⟩

theorem fileOk_of_describable (hurl : f.fetched → (splitUrl rt f.url).isOk)
    (hbytes : ∀ data, decodeBytes f = some data → Describable rt f data) : FileOk rt f := by
  intro hfetched
  obtain ⟨⟨host, port, path⟩, hsplit⟩ := isOk_iff.mp (hurl hfetched)
  refine ⟨host, port, path, hsplit, fun _ data hdecode => ?_⟩
  exact (payloadOk_iff rt data).mpr ⟨(hbytes data hdecode).header, (hbytes data hdecode).readable⟩

/-! ### The files of a session -/

variable {files : List FileData}

/-- Every entry of the session is that of some file. -/
theorem exists_mem_zip (hwire : List.Forall₂ (out.Carries disk) files session.hpData.files)
    (hf : f ∈ session.hpData.files) : ∃ g, (g, f) ∈ files.zip session.hpData.files := by
  have hsnd := List.map_snd_zip hwire.length_eq.ge
  rw [← hsnd] at hf
  obtain ⟨⟨g, f'⟩, hp, rfl⟩ := List.mem_map.mp hf
  exact ⟨g, hp⟩

/-- **When the bytes of a session survive**: the URL of every download can be split, and the inlined
bytes come to their rows. -/
theorem bytesSurvive_iff (rt : Runtime) (hnew : ∀ g ∈ files, g.contentB64 = none)
    (hwire : List.Forall₂ (out.Carries disk) files session.hpData.files) :
    BytesSurvive rt out disk files session ↔
      ∀ p ∈ files.zip session.hpData.files,
        (p.2.fetched → (splitUrl rt p.2.url).isOk) ∧
          ∀ data, out.Inlines disk p.1 data → Describable rt p.2 data := by
  have hcarries {g : FileData} {f : FileRef} (hp : (g, f) ∈ files.zip session.hpData.files) :
      out.Carries disk g f := (List.forall₂_iff_zip.mp hwire).2 hp
  constructor
  · rintro ⟨rows, hrows, hall⟩ ⟨g, f⟩ hp
    have hg := hnew g (List.of_mem_zip hp).1
    have hfile := (isOk_servedFiles rt session).mp (isOk_iff.mpr ⟨rows, hrows⟩) f
      (List.of_mem_zip hp).2
    rw [isOk_servedFile] at hfile
    refine ⟨fun hfetched => ?_, fun data hin => ?_⟩
    · obtain ⟨host, port, path, hurl, -⟩ := hfile hfetched
      exact isOk_iff.mpr ⟨_, hurl⟩
    · obtain ⟨hdecode, o, -, hrow, -⟩ := hall (g, f) hp data hin
      obtain ⟨_, hserves⟩ := exists_fileServes_of_eq hrow
      have hne : data ≠ [] := by
        intro hnil
        rw [decodeBytes_of_inlines hg (hcarries hp) hin, if_pos hnil] at hdecode
        cases hdecode
      exact describable_of_fileOk hfile hserves hne hdecode
  · intro hall
    have hok : (servedFiles rt session).isOk := by
      refine (isOk_servedFiles rt session).mpr fun f hf => (isOk_servedFile rt session f).mpr ?_
      obtain ⟨g, hp⟩ := exists_mem_zip hwire hf
      obtain ⟨hurl, hbytes⟩ := hall (g, f) hp
      refine fileOk_of_describable hurl fun data hdecode => hbytes data ?_
      exact inlines_of_decodeBytes (hnew g (List.of_mem_zip hp).1) (hcarries hp) hdecode
    obtain ⟨rows, hrows⟩ := isOk_iff.mp hok
    refine ⟨rows, hrows, fun ⟨g, f⟩ hp data hin => ?_⟩
    have hdescribable := (hall (g, f) hp).2 data hin
    have hdecode : decodeBytes f = some data := by
      rw [decodeBytes_of_inlines (hnew g (List.of_mem_zip hp).1) (hcarries hp) hin,
        if_neg hdescribable.ne_nil]
    obtain ⟨host, hserves⟩ := hdescribable.host
    have hf := (isOk_servedFiles rt session).mp hok f (List.of_mem_zip hp).2
    obtain ⟨o, ho⟩ := exists_servedFile_eq hf hserves
    exact ⟨hdecode, o, (mem_servedFiles hrows).mpr ⟨f, (List.of_mem_zip hp).2, ho⟩, ho,
      describes_of_servedFile ho hdecode⟩

/-! ### An empty file -/

/-- The download of a file. -/
def downloaded : FileData where
  url := .str (str "http://192.0.2.1/x")
  outfile := .str (str "dl/x")
  shasum := .str []
  action := str "download"
  status := str "successful"
  resolvedIp := .str []

/-- The plugin with its default bound. -/
def plugin : Output := ⟨[], [], [], [], [], true, contentInlineMax, true⟩

/-- The session with the entry of the file, whose bytes are `data`. -/
def receivedSession (data : Bytes) : SessionIn where
  hpData := { files := [{
    url := str "http://192.0.2.1/x"
    outfile := str "dl/x"
    action := str "download"
    status := str "successful"
    resolvedIp := some []
    contentB64 := some (b64encode data) }] }

theorem inlines_downloaded {data : Bytes} (h : data.length ≤ contentInlineMax) :
    plugin.Inlines (fun _ => .content data) downloaded data where
  action := rfl
  status := rfl
  outfile := rfl
  content := rfl
  le_inlineMax := Int.ofNat_le.mpr h

theorem carries_downloaded {data : Bytes} (h : data.length ≤ contentInlineMax) :
    List.Forall₂ (plugin.Carries fun _ => .content data) [downloaded]
      (receivedSession data).hpData.files :=
  .cons ⟨_, inlineFile_of_inlines (inlines_downloaded h), rfl⟩ .nil

/-- The bytes of a script survive. -/
theorem bytesSurvive_script :
    let data := asciiBytes (str "id")
    BytesSurvive .basic plugin (fun _ => .content data) [downloaded] (receivedSession data) := by
  intro data
  have hlen : data.length ≤ contentInlineMax := by decide
  refine (bytesSurvive_iff .basic (List.forall_mem_singleton.mpr rfl)
    (carries_downloaded hlen)).mpr fun p hp => ?_
  obtain rfl := List.mem_singleton.mp hp
  have hurl : (splitUrl .basic (str "http://192.0.2.1/x")).toOption =
      some (str "192.0.2.1", none, str "/x") := by
    decide +kernel
  have hsplit : splitUrl .basic (str "http://192.0.2.1/x") =
    .ok (str "192.0.2.1", none, str "/x") := by
    cases h : splitUrl .basic (str "http://192.0.2.1/x") with
    | error e =>
      rw [h] at hurl
      cases hurl
    | ok parts =>
      rw [h] at hurl
      rw [Option.some.inj hurl]
  refine ⟨fun _ => isOk_iff.mpr ⟨_, hsplit⟩, fun data' hin => ?_⟩
  obtain rfl := FileRead.content.inj hin.content
  refine ⟨List.cons_ne_nil _ _, ⟨_, rfl, _, _, _, hsplit, rfl, List.cons_ne_nil _ _⟩, by decide,
    fun magic hmagic => ?_⟩
  obtain rfl := Except.ok.inj hmagic
  exact (isOk_findHosts_iff .basic _).mp (by decide +kernel)

/-- **The bytes of an empty file do not survive**: they are taken for no bytes. -/
theorem not_bytesSurvive_empty :
    List.Forall₂ (plugin.Carries fun _ => .content []) [downloaded]
        (receivedSession []).hpData.files ∧
      plugin.Inlines (fun _ => .content []) downloaded [] ∧
      ¬ BytesSurvive .basic plugin (fun _ => .content []) [downloaded] (receivedSession []) := by
  refine ⟨carries_downloaded (Nat.zero_le _), inlines_downloaded (Nat.zero_le _), ?_⟩
  rintro ⟨rows, -, hall⟩
  have hdecode := (hall _ (List.mem_singleton_self _) [] (inlines_downloaded (Nat.zero_le _))).1
  cases hdecode

end C2Engine.Sensor
