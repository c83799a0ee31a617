import C2Engine.Python.Csv
import C2Engine.Python.Json
import C2Engine.Python.Url
import C2Engine.Runtime
import Mathlib.Data.List.Dedup
import Mathlib.Data.List.Sort
import Mathlib.Data.List.Lex
import Mathlib.Data.List.ReduceOption

/-!
# The feeds of abuse.ch

The first part of `services/reason/intel.py`: the indicators of compromise (IOCs) of three feeds
are brought to one form. ThreatFox and URLhaus are CSV dumps whose header is a comment line, Feodo
Tracker is a JSON list.

The parsers run on whatever text a server answered with. Where each of them raises is stated here
as a condition on the text, `FeedReadable`.

## Main definitions

* `Source`, `IocType`, `Ioc`: the feeds, the kinds of indicators, and an indicator.
* `normType`, `hostOf`, `clean`, `ioc`: the normalisation.
* `readAbusechCsv`: the rows of a dump.
* `parseThreatfoxCsv`, `parseUrlhausCsv`, `parseFeodoJson`: the parsers.
* `FeedReadable`: the texts a parser reads.

## Main results

* `isOk_ioc`: the normalisation raises on URLs only.
* `isOk_readAbusechCsv`: when a dump can be read.
* `isOk_parseFeed`: a parser returns exactly on the texts it reads.
* `exists_ioc_of_mem_parseFeed`: every indicator a parser returns was made by `ioc`.
-/

namespace C2Engine

open Python

/-! ### Indicators -/

/-- The feeds. -/
inductive Source where
  | threatfox
  | urlhaus
  | feodo
  deriving DecidableEq

/-- The name of a feed. -/
def Source.name : Source → PyStr
  | .threatfox => str "threatfox"
  | .urlhaus => str "urlhaus"
  | .feodo => str "feodo"

theorem Source.name_injective : Function.Injective Source.name := by
  intro s t h
  cases s <;> cases t <;> first | rfl | exact absurd h (by decide)

/-- The kinds of indicators. -/
inductive IocType where
  | ip
  | domain
  | url
  | hash
  deriving DecidableEq

/-- An indicator of compromise; `host` is the key it is matched by on the level of hosts. -/
structure Ioc where
  source : Source
  iocType : IocType
  value : PyStr
  malware : List PyStr
  tags : List PyStr
  host : Option PyStr
  deriving DecidableEq

/-- `sorted({...})` of texts, which Python orders by their characters. -/
def sortedSet (xs : List PyStr) : List PyStr := xs.dedup.insertionSort (· ≤ ·)

@[simp] theorem mem_sortedSet {x : PyStr} {xs : List PyStr} : x ∈ sortedSet xs ↔ x ∈ xs := by
  rw [sortedSet, List.mem_insertionSort, List.mem_dedup]

/-- The texts of a sorted set increase strictly. -/
theorem pairwise_sortedSet (xs : List PyStr) : (sortedSet xs).Pairwise (· < ·) := by
  have hle : (sortedSet xs).Pairwise (· ≤ ·) := List.pairwise_insertionSort _ _
  have hne : (sortedSet xs).Nodup :=
    (List.perm_insertionSort _ _).nodup_iff.mpr (List.nodup_dedup xs)
  exact hle.imp₂ (fun _ _ hle hne => lt_of_le_of_ne hle hne) hne

theorem nodup_sortedSet (xs : List PyStr) : (sortedSet xs).Nodup :=
  (pairwise_sortedSet xs).imp fun h => ne_of_lt h

/-- A sorted set is told by its elements. -/
theorem sortedSet_congr {xs ys : List PyStr} (h : ∀ x, x ∈ xs ↔ x ∈ ys) :
    sortedSet xs = sortedSet ys := by
  have hperm : (sortedSet xs).Perm (sortedSet ys) :=
    (List.perm_ext_iff_of_nodup (nodup_sortedSet xs) (nodup_sortedSet ys)).mpr fun x => by
      rw [mem_sortedSet, mem_sortedSet, h]
  have hle : ∀ zs, (sortedSet zs).Pairwise (· ≤ ·) := fun zs =>
    (pairwise_sortedSet zs).imp le_of_lt
  exact hperm.eq_of_pairwise' (hle xs) (hle ys)

section Normalisation

variable (rt : Runtime)

/-- `_norm_type`. -/
def normType (raw : PyStr) : Option IocType :=
  let raw := rt.unicode.lower (PyStr.strip raw)
  if [str "ip", str "ip:port", str "ipv4", str "ipv6"].elem raw then some .ip
  else if [str "domain", str "hostname"].elem raw then some .domain
  else if raw = str "url" then some .url
  else if (str "hash").isSuffixOf raw || [str "md5", str "sha1", str "sha256"].elem raw then
    some .hash
  else none

/-- The host of a URL in lower case; the empty text if it has none. -/
def urlHostKey (url : PyStr) : Except PyExc PyStr := do
  let parts ← urlsplit rt.unicode url
  return rt.unicode.lower (parts.hostname rt.unicode)

/-- `_host_of`. -/
def hostOf (value : PyStr) : IocType → Except PyExc (Option PyStr)
  | .url => do
    let host ← urlHostKey rt value
    return PyStr.orNone host
  | .ip => .ok (PyStr.orNone (rt.unicode.lower (PyStr.strip (PyStr.partition (cp ':') value).1)))
  | .domain => .ok (PyStr.orNone (rt.unicode.lower (PyStr.strip value)))
  | .hash => .ok none

/-- `_clean`. -/
def clean (items : List PyStr) : List PyStr :=
  sortedSet ((items.map PyStr.strip).filter fun s =>
    !s.isEmpty && rt.unicode.lower s != str "none")

/-- The value of an indicator: a URL, a domain and a hash in lower case. -/
def normValue (iocType : IocType) (value : PyStr) : PyStr :=
  match iocType with
  | .ip => PyStr.strip value
  | .url | .domain | .hash => rt.unicode.lower (PyStr.strip value)

/-- `_ioc`. -/
def ioc (source : Source) (iocType : IocType) (value : PyStr) (malware tags : List PyStr) :
    Except PyExc Ioc := do
  let value := normValue rt iocType value
  let host ← hostOf rt value iocType
  return ⟨source, iocType, value, clean rt malware, clean rt tags, host⟩

theorem isOk_urlHostKey (url : PyStr) : (urlHostKey rt url).isOk ↔ (urlsplit rt.unicode url).isOk :=
  isOk_bind_pure

/-- The normalisation raises on URLs that cannot be split, and on nothing else. -/
theorem isOk_ioc (source : Source) (iocType : IocType) (value : PyStr) (malware tags : List PyStr) :
    (ioc rt source iocType value malware tags).isOk ↔
      (iocType = .url → (urlsplit rt.unicode (normValue rt .url value)).isOk) := by
  rw [ioc, isOk_bind_pure]
  cases iocType with
  | url => rw [hostOf, isOk_bind_pure, isOk_urlHostKey]; simp
  | ip => simp [hostOf, Except.isOk, Except.toBool]
  | domain => simp [hostOf, Except.isOk, Except.toBool]
  | hash => simp [hostOf, Except.isOk, Except.toBool]

end Normalisation

/-! ### Dumps -/

/-- A row of a dump, its fields with the names of their columns. -/
abbrev CsvRow := List (PyStr × PyStr)

/-- `r.get(name, "")`; of two columns with one name the last one counts. -/
def CsvRow.field (r : CsvRow) (name : String) : PyStr :=
  ((r.filter fun f => f.1 = str name).getLast?.map Prod.snd).getD []

/-- A comment line of a dump. -/
def isComment (line : PyStr) : Bool := (PyStr.strip line).head? = some (cp '#')

/-- The text of a comment. -/
def commentText (line : PyStr) : PyStr :=
  PyStr.strip (PyStr.lstrip (PyStr.oneOf (str "# ")) (PyStr.strip line))

/-- The columns a comment line names. -/
def commentFields (line : PyStr) : Except PyExc (List PyStr) := csvFirst (commentText line)

/-- The lines of a dump that hold data. -/
def dataLines (text : PyStr) : List PyStr :=
  (PyStr.splitlines text).filter fun line => !(PyStr.strip line).isEmpty && !isComment line

/-- The header of a dump, the last of the comment lines that name the column `marker`. -/
def findHeader (marker : PyStr) (header : Option (List PyStr)) :
    List PyStr → Except PyExc (Option (List PyStr))
  | [] => .ok header
  | line :: lines =>
    if isComment line then do
      let toks ← commentFields line
      findHeader marker (if toks.elem marker then some (toks.map PyStr.strip) else header) lines
    else findHeader marker header lines

/-- A row keyed by the header; a field that is not there is empty. -/
def keyRow (header row : List PyStr) : CsvRow :=
  header.zipIdx.map fun c => (c.1, PyStr.strip (row.getD c.2 []))

/-- `_read_abusech_csv`. -/
def readAbusechCsv (text marker : PyStr) : Except PyExc (List CsvRow) := do
  match ← findHeader marker none (PyStr.splitlines text) with
  | none => return []
  | some header =>
    let rows ← csvReader (dataLines text)
    return (rows.filter fun row => !row.isEmpty).map (keyRow header)

/-- The comment lines of a dump can be read. -/
def CommentsReadable (text : PyStr) : Prop :=
  ∀ line ∈ PyStr.splitlines text, isComment line → (commentFields line).isOk

/-- A comment line of the dump names the column `marker`. -/
def HasHeader (text marker : PyStr) : Prop :=
  ∃ line ∈ PyStr.splitlines text, isComment line ∧ ∃ toks, commentFields line = .ok toks ∧
    marker ∈ toks

theorem isOk_findHeader (marker : PyStr) : (lines : List PyStr) → (header : Option (List PyStr)) →
    ((findHeader marker header lines).isOk ↔
      ∀ line ∈ lines, isComment line → (commentFields line).isOk)
  | [], header => by simp [findHeader, Except.isOk, Except.toBool]
  | line :: lines, header => by
      rw [findHeader, List.forall_mem_cons]
      split_ifs with hc
      · rw [isOk_bind]
        constructor
        · rintro ⟨toks, htoks, hrest⟩
          exact ⟨fun _ => isOk_iff.mpr ⟨toks, htoks⟩, (isOk_findHeader marker lines _).mp hrest⟩
        · rintro ⟨hline, hrest⟩
          obtain ⟨toks, htoks⟩ := isOk_iff.mp (hline hc)
          exact ⟨toks, htoks, (isOk_findHeader marker lines _).mpr hrest⟩
      · rw [isOk_findHeader marker lines header]
        exact ⟨fun h => ⟨fun h' => absurd h' hc, h⟩, fun h => h.2⟩

theorem isSome_of_findHeader {marker : PyStr} : {lines : List PyStr} →
    {header header' : Option (List PyStr)} → findHeader marker header lines = .ok header' →
      (header'.isSome ↔ header.isSome ∨ ∃ line ∈ lines, isComment line ∧
        ∃ toks, commentFields line = .ok toks ∧ marker ∈ toks)
  | [], header, header', h => by
      rw [findHeader, Except.ok.injEq] at h
      simp [h]
  | line :: lines, header, header', h => by
      rw [findHeader] at h
      rw [List.exists_mem_cons_iff]
      split_ifs at h with hc
      · obtain ⟨toks, htoks, h⟩ := bind_eq_ok.mp h
        rw [isSome_of_findHeader h]
        by_cases hmem : marker ∈ toks
        · simp [hmem, hc, htoks]
        · simp [hmem, hc, htoks]
      · rw [isSome_of_findHeader h]
        simp [hc]

/-- A dump can be read exactly when its comment lines can and, if they hold a header, its data
lines can. -/
theorem isOk_readAbusechCsv (text marker : PyStr) : (readAbusechCsv text marker).isOk ↔
    CommentsReadable text ∧ (HasHeader text marker → (csvReader (dataLines text)).isOk) := by
  rw [readAbusechCsv, isOk_bind]
  constructor
  · rintro ⟨header, hheader, h⟩
    refine ⟨(isOk_findHeader marker _ none).mp (isOk_iff.mpr ⟨header, hheader⟩), fun hhas => ?_⟩
    obtain ⟨cols, rfl⟩ := Option.isSome_iff_exists.mp
      ((isSome_of_findHeader hheader).mpr (.inr hhas))
    exact isOk_bind_pure.mp h
  · rintro ⟨hcomments, hrows⟩
    obtain ⟨header, hheader⟩ := isOk_iff.mp ((isOk_findHeader marker _ none).mpr hcomments)
    refine ⟨header, hheader, ?_⟩
    cases header with
    | none => rfl
    | some cols =>
      refine isOk_bind_pure.mpr (hrows ?_)
      exact ((isSome_of_findHeader hheader).mp rfl).resolve_left nofun

/-! ### Parsers -/

/-- `_split_tags`. -/
def splitTags (raw : PyStr) : List PyStr :=
  (PyStr.split (cp ',') (PyStr.replace (cp ';') (str ",") raw)).filter fun t =>
    !(PyStr.strip t).isEmpty

/-- `a or b` of texts. -/
def orText (a b : PyStr) : PyStr := if a.isEmpty then b else a

section Parsers

variable (rt : Runtime)

/-- The indicator of a row of ThreatFox, if it has one. -/
def threatfoxIoc (r : CsvRow) : Except PyExc (Option Ioc) :=
  match normType rt (r.field "ioc_type") with
  | none => .ok none
  | some t =>
    let value := r.field "ioc_value"
    if value.isEmpty then .ok none
    else (ioc rt .threatfox t value [orText (r.field "malware_printable") (r.field "malware")]
      (splitTags (r.field "tags"))).map some

/-- The indicator of a row of URLhaus, if it has one. -/
def urlhausIoc (r : CsvRow) : Except PyExc (Option Ioc) :=
  let value := r.field "url"
  if value.isEmpty then .ok none
  else (ioc rt .urlhaus .url value [r.field "threat"] (splitTags (r.field "tags"))).map some

/-- `d.get(name, "")` as a text. -/
def textField (d : Dict) (name : String) : PyStr :=
  rt.pyStr ((d.get (key name)).getD (.str []))

/-- The indicator of an item of Feodo Tracker, if it has one; only a mapping has a `get`. -/
def feodoIoc : Obj → Except PyExc (Option Ioc)
  | .map d =>
    let ip := PyStr.strip (textField rt d "ip_address")
    if ip.isEmpty then .ok none
    else (ioc rt .feodo .ip ip [textField rt d "malware"] []).map some
  | _ => .error .attributeError

/-- `parse_threatfox_csv`. -/
def parseThreatfoxCsv (text : PyStr) : Except PyExc (List Ioc) := do
  let rows ← readAbusechCsv text (str "ioc_value")
  let iocs ← rows.mapM (threatfoxIoc rt)
  return iocs.reduceOption

/-- `parse_urlhaus_csv`. -/
def parseUrlhausCsv (text : PyStr) : Except PyExc (List Ioc) := do
  let rows ← readAbusechCsv text (str "url")
  let iocs ← rows.mapM (urlhausIoc rt)
  return iocs.reduceOption

/-- `parse_feodo_json`: what is no JSON, and what is no list, has no items. -/
def parseFeodoJson (text : PyStr) : Except PyExc (List Ioc) :=
  match jsonLoads rt.jsonDepth text with
  | .error e => if e = .valueError || e = .typeError then .ok [] else .error e
  | .ok (.list items) => do
    let iocs ← items.mapM (feodoIoc rt)
    return iocs.reduceOption
  | .ok _ => .ok []

/-- `_PARSERS`. -/
def parseFeed : Source → PyStr → Except PyExc (List Ioc)
  | .threatfox => parseThreatfoxCsv rt
  | .urlhaus => parseUrlhausCsv rt
  | .feodo => parseFeodoJson rt

/-! ### When the parsers return -/

/-- The URL of an indicator can be split, once it is in lower case. -/
def IocUrlReadable (value : PyStr) : Prop := (urlsplit rt.unicode (normValue rt .url value)).isOk

/-- A dump with readable lines in which `url` reads a URL off a row that can be split. -/
structure DumpReadable (marker : String) (url : CsvRow → Option PyStr) (text : PyStr) : Prop where
  comments : CommentsReadable text
  data : HasHeader text (str marker) → (csvReader (dataLines text)).isOk
  urls : ∀ rows, readAbusechCsv text (str marker) = .ok rows → ∀ r ∈ rows, ∀ value,
    url r = some value → IocUrlReadable rt value

/-- The URL of a row of ThreatFox. -/
def threatfoxUrl (r : CsvRow) : Option PyStr :=
  if normType rt (r.field "ioc_type") = some .url then PyStr.orNone (r.field "ioc_value") else none

/-- The URL of a row of URLhaus. -/
def urlhausUrl (r : CsvRow) : Option PyStr := PyStr.orNone (r.field "url")

/-- A JSON text that is not nested too deep and, if it is a list, a list of objects. -/
structure BlocklistReadable (text : PyStr) : Prop where
  depth : ∀ e, jsonLoads rt.jsonDepth text = .error e → e = .valueError ∨ e = .typeError
  items : ∀ items, jsonLoads rt.jsonDepth text = .ok (.list items) →
    ∀ item ∈ items, item.asMap?.isSome

/-- The texts the parser of a feed reads. -/
def FeedReadable : Source → PyStr → Prop
  | .threatfox => DumpReadable rt "ioc_value" (threatfoxUrl rt)
  | .urlhaus => DumpReadable rt "url" urlhausUrl
  | .feodo => BlocklistReadable rt

variable {rt}

theorem isOk_threatfoxIoc (r : CsvRow) :
    (threatfoxIoc rt r).isOk ↔ ∀ value, threatfoxUrl rt r = some value →
      IocUrlReadable rt value := by
  unfold threatfoxIoc threatfoxUrl
  cases normType rt (r.field "ioc_type") with
  | none => simp [Except.isOk, Except.toBool]
  | some t =>
    by_cases hempty : (r.field "ioc_value").isEmpty
    · simp [hempty, PyStr.orNone, Except.isOk, Except.toBool]
    · simp only [hempty, Bool.false_eq_true, if_false, isOk_map, isOk_ioc, Option.some.injEq,
        PyStr.orNone, IocUrlReadable]
      by_cases ht : t = .url <;> simp [ht]

theorem isOk_urlhausIoc (r : CsvRow) :
    (urlhausIoc rt r).isOk ↔ ∀ value, urlhausUrl r = some value → IocUrlReadable rt value := by
  simp only [urlhausIoc, urlhausUrl]
  by_cases hempty : (r.field "url").isEmpty
  · simp [hempty, PyStr.orNone, Except.isOk, Except.toBool]
  · simp [hempty, isOk_map, isOk_ioc, PyStr.orNone, IocUrlReadable]

theorem isOk_feodoIoc (item : Obj) : (feodoIoc rt item).isOk ↔ item.asMap?.isSome := by
  cases item with
  | map d =>
    simp only [feodoIoc, Obj.asMap?, Option.isSome_some, iff_true]
    split_ifs
    · rfl
    · rw [isOk_map, isOk_ioc]
      simp
  | _ => simp [feodoIoc, Obj.asMap?, Except.isOk, Except.toBool]

theorem isOk_parseDump {marker : String} {url : CsvRow → Option PyStr}
    {toIoc : CsvRow → Except PyExc (Option Ioc)}
    (h : ∀ r, (toIoc r).isOk ↔ ∀ value, url r = some value → IocUrlReadable rt value)
    (text : PyStr) :
    (do
      let rows ← readAbusechCsv text (str marker)
      let iocs ← rows.mapM toIoc
      return iocs.reduceOption : Except PyExc (List Ioc)).isOk ↔
        DumpReadable rt marker url text := by
  rw [isOk_bind]
  constructor
  · rintro ⟨rows, hrows, hiocs⟩
    obtain ⟨hcomments, hdata⟩ := (isOk_readAbusechCsv text (str marker)).mp
      (isOk_iff.mpr ⟨rows, hrows⟩)
    refine ⟨hcomments, hdata, fun rows' hrows' r hr => ?_⟩
    rw [hrows, Except.ok.injEq] at hrows'
    exact (h r).mp (isOk_mapM rows |>.mp (isOk_bind_pure.mp hiocs) r (hrows' ▸ hr))
  · intro hread
    obtain ⟨rows, hrows⟩ := isOk_iff.mp
      ((isOk_readAbusechCsv text (str marker)).mpr ⟨hread.comments, hread.data⟩)
    exact ⟨rows, hrows, isOk_bind_pure.mpr ((isOk_mapM rows).mpr fun r hr =>
      (h r).mpr (hread.urls rows hrows r hr))⟩

theorem isOk_parseFeodoJson (text : PyStr) :
    (parseFeodoJson rt text).isOk ↔ BlocklistReadable rt text := by
  unfold parseFeodoJson
  cases hload : jsonLoads rt.jsonDepth text with
  | error e =>
    dsimp only
    constructor
    · intro h
      refine ⟨fun e' he' => ?_, fun items hitems => by simp [hload] at hitems⟩
      rw [hload, Except.error.injEq] at he'
      subst he'
      by_contra hne
      rw [if_neg (by simpa using hne)] at h
      simp [Except.isOk, Except.toBool] at h
    · intro h
      rw [if_pos (by simpa using h.depth e hload)]
      rfl
  | ok v =>
    have hdepth : ∀ e, jsonLoads rt.jsonDepth text = .error e → e = .valueError ∨ e = .typeError :=
      fun e he => by simp [hload] at he
    cases v with
    | list items =>
      dsimp only
      rw [isOk_bind_pure, isOk_mapM]
      constructor
      · intro h
        refine ⟨hdepth, fun items' hitems' item hitem => ?_⟩
        rw [hload, Except.ok.injEq, Obj.list.injEq] at hitems'
        exact (isOk_feodoIoc item).mp (h item (hitems' ▸ hitem))
      · exact fun h item hitem => (isOk_feodoIoc item).mpr (h.items items hload item hitem)
    | _ => exact iff_of_true rfl ⟨hdepth, fun items hitems => by simp [hload] at hitems⟩

/-- **A parser returns exactly on the texts it reads.** -/
theorem isOk_parseFeed (source : Source) (text : PyStr) :
    (parseFeed rt source text).isOk ↔ FeedReadable rt source text := by
  cases source with
  | threatfox => exact isOk_parseDump isOk_threatfoxIoc text
  | urlhaus => exact isOk_parseDump isOk_urlhausIoc text
  | feodo => exact isOk_parseFeodoJson text

/-! ### What the parsers return -/

theorem exists_of_mem_reduceOption {β : Type} {f : β → Except PyExc (Option Ioc)} {xs : List β}
    {ys : List (Option Ioc)} (h : xs.mapM f = .ok ys) {r : Ioc} (hr : r ∈ ys.reduceOption) :
    ∃ x ∈ xs, f x = .ok (some r) := by
  rw [List.reduceOption_mem_iff] at hr
  exact (mem_of_mapM h _).mp hr

/-- Every indicator a parser returns was made by `ioc`, of the feed's name; a feed other than
ThreatFox makes indicators of one type. -/
theorem exists_ioc_of_mem_parseFeed {source : Source} {text : PyStr} {recs : List Ioc} {r : Ioc}
    (h : parseFeed rt source text = .ok recs) (hr : r ∈ recs) :
    ∃ iocType value malware tags, ioc rt source iocType value malware tags = .ok r ∧
      (source = .urlhaus → iocType = .url) ∧ (source = .feodo → iocType = .ip) := by
  cases source with
  | threatfox =>
    obtain ⟨rows, -, h⟩ := bind_eq_ok.mp h
    obtain ⟨iocs, hiocs, h⟩ := bind_eq_ok.mp h
    obtain rfl : iocs.reduceOption = recs := Except.ok.inj h
    obtain ⟨row, -, hrow⟩ := exists_of_mem_reduceOption hiocs hr
    unfold threatfoxIoc at hrow
    split at hrow
    · simp at hrow
    · next t _ =>
      dsimp only at hrow
      split_ifs at hrow
      · simp at hrow
      · obtain ⟨r', hr', hsome⟩ := map_eq_ok.mp hrow
        cases hsome
        exact ⟨_, _, _, _, hr', nofun, nofun⟩
  | urlhaus =>
    obtain ⟨rows, -, h⟩ := bind_eq_ok.mp h
    obtain ⟨iocs, hiocs, h⟩ := bind_eq_ok.mp h
    obtain rfl : iocs.reduceOption = recs := Except.ok.inj h
    obtain ⟨row, -, hrow⟩ := exists_of_mem_reduceOption hiocs hr
    simp only [urlhausIoc] at hrow
    split_ifs at hrow
    · simp at hrow
    · obtain ⟨r', hr', hsome⟩ := map_eq_ok.mp hrow
      cases hsome
      exact ⟨_, _, _, _, hr', fun _ => rfl, nofun⟩
  | feodo =>
    change parseFeodoJson rt text = .ok recs at h
    unfold parseFeodoJson at h
    split at h
    · split_ifs at h
      obtain rfl := Except.ok.inj h
      simp at hr
    · obtain ⟨iocs, hiocs, h⟩ := bind_eq_ok.mp h
      obtain rfl : iocs.reduceOption = recs := Except.ok.inj h
      obtain ⟨item, -, hitem⟩ := exists_of_mem_reduceOption hiocs hr
      cases item with
      | map d =>
        simp only [feodoIoc] at hitem
        split_ifs at hitem
        · simp at hitem
        · obtain ⟨r', hr', hsome⟩ := map_eq_ok.mp hitem
          cases hsome
          exact ⟨_, _, _, _, hr', nofun, fun _ => rfl⟩
      | _ => simp [feodoIoc] at hitem
    · obtain rfl := Except.ok.inj h
      simp at hr

end Parsers

end C2Engine
