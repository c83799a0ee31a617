import C2Engine.Ingest.Delivery
import C2Engine.Pipeline.PassThrough

/-!
# Poison records

A record that makes the handler raise although Elasticsearch takes every document is delivered
again and again. The fallback for records that cannot be processed is itself partial in three
places: the copy it works on is made under the recursion limit, it runs over whatever `files` is,
and the daily index is computed from whatever number stands in the time field. This file says for
exactly which records the handler returns.

## Main definitions

* `FilesIterable`, `TimeInRange`, `TimestampOk`: the conditions on files and time.
* `SessionWritable`: the records a session is written for.
* `sessionWrites`: the session documents accepted in a trace.

## Main results

* `isOk_enrichRecord`: when a record has a session document.
* `isOk_recordTime`: when its time can be read.
* `handleRecord_returns_iff`: the records that are written while Elasticsearch is up.
-/

namespace C2Engine

open Python

/-! ### The conditions -/

/-- The files of a record, if it has an envelope, can be run over. -/
def FilesIterable (record : Dict) : Prop :=
  ∀ hp : Dict, record.get (key "hp_data") = some (.map hp) →
    ∀ v, hp.get (key "files") = some v → ¬ NotIterable v

/-- A value that is no number, or a number that is a timestamp of the years 1 to 9999. -/
def TimestampOk : Obj → Prop
  | .int n => minSecond ≤ n ∧ n < endSecond
  | .float (.finite q) => minSecond * usPerSecond ≤ roundHalfEven (q * usPerSecond) ∧
      roundHalfEven (q * usPerSecond) < endSecond * usPerSecond
  | .float _ => False
  | _ => True

instance : (v : Obj) → Decidable (TimestampOk v)
  | .int n => inferInstanceAs (Decidable (minSecond ≤ n ∧ n < endSecond))
  | .float (.finite _) => inferInstanceAs (Decidable (_ ∧ _))
  | .float (.inf _) | .float .nan => .isFalse id
  | .none | .bool _ | .str _ | .bytes _ | .ext _ _ | .timestamp _ _ | .list _ | .map _ =>
      .isTrue trivial

/-- The first of `end_time`, `@timestamp` and `ts` that counts can be read as a time. -/
def TimeInRange (record : Dict) : Prop := ∀ v, timeField record = some v → TimestampOk v

/-- A record the handler can write a session for: it can be copied under the recursion limit, its
files can be run over, and its time is in range. -/
structure SessionWritable (rt : Runtime) (record : Dict) : Prop where
  copies : (Obj.map record).copies rt.stripCalls
  files : FilesIterable record
  time : TimeInRange record

theorem isOk_ofMicroseconds (us : ℤ) : (ofMicroseconds us).isOk ↔
    minSecond * usPerSecond ≤ us ∧ us < endSecond * usPerSecond := by
  unfold ofMicroseconds
  split_ifs with h
  · exact iff_of_true rfl h
  · exact iff_of_false Bool.false_ne_true h

theorem isOk_fromtimestampInt (n : ℤ) :
    (fromtimestampInt n).isOk ↔ minSecond ≤ n ∧ n < endSecond := by
  unfold fromtimestampInt
  split_ifs with h
  · rw [isOk_ofMicroseconds]
    simp only [minSecond, endSecond, usPerSecond]
    omega
  · refine iff_of_false Bool.false_ne_true fun hn => h ?_
    simp only [minSecond, endSecond] at hn
    omega

theorem isOk_fromtimestampFloat (x : PyFloat) :
    (fromtimestampFloat x).isOk ↔ TimestampOk (.float x) := by
  cases x with
  | finite q =>
    simp only [fromtimestampFloat, TimestampOk]
    generalize roundHalfEven (q * usPerSecond) = us
    split_ifs with h
    · exact isOk_ofMicroseconds us
    · refine iff_of_false Bool.false_ne_true fun hn => h ?_
      simp only [minSecond, endSecond, usPerSecond] at hn ⊢
      omega
  | inf _ => exact iff_of_false Bool.false_ne_true id
  | nan => exact iff_of_false Bool.false_ne_true id

/-- The time of a record can be read exactly when it is in range. -/
theorem isOk_recordTime (rt : Runtime) (record : Dict) :
    (recordTime rt record).isOk ↔ TimeInRange record := by
  unfold recordTime TimeInRange
  cases timeField record with
  | none => exact iff_of_true rfl nofun
  | some v =>
    simp only [Option.some.injEq, forall_eq']
    cases v with
    | int n => exact isOk_fromtimestampInt n
    | float x => exact isOk_fromtimestampFloat x
    | bool b =>
      refine iff_of_true ?_ trivial
      rw [isOk_fromtimestampInt]
      cases b <;> decide
    | _ => exact iff_of_true rfl trivial

/-! ### The session document -/

theorem isOk_stripCopy (record : Dict) : (stripCopy record).isOk ↔ FilesIterable record := by
  unfold stripCopy FilesIterable
  split
  · next hp hget =>
    simp only [hget, Option.some.injEq, Obj.map.injEq, forall_eq']
    exact isOk_bind_pure.trans (isOk_stripFiles hp)
  · next hget => exact iff_of_true rfl fun hp h => absurd h (hget hp)

theorem isOk_stripBytes (rt : Runtime) (record : Dict) : (stripBytes rt record).isOk ↔
    (Obj.map record).copies rt.stripCalls ∧ FilesIterable record := by
  rw [← isOk_stripCopy, isOk_iff, isOk_iff]
  simp only [stripBytes_eq_ok, exists_and_left]

/-- A record has a session document exactly when it can be copied and its files can be run over:
those of a record that is processed are a list. -/
theorem isOk_enrichRecord (rt : Runtime) (geo : Option GeoEnricher) (record : Dict) :
    (enrichRecord rt geo record).isOk ↔
      (Obj.map record).copies rt.stripCalls ∧ FilesIterable record := by
  unfold enrichRecord
  split
  · next enriched hprocess =>
    have hcopies := Obj.copies_mono rt.enrichCalls_le (copies_of_process hprocess)
    refine iff_of_true rfl ⟨hcopies, fun hp hget v hv => ?_⟩
    obtain ⟨session, hvalid, -⟩ := bind_eq_ok.mp hprocess
    obtain ⟨d, hd, hfiles⟩ := files_of_modelValidate hvalid hget
    obtain rfl : hp = d := Obj.map.inj hd
    obtain ⟨xs, rfl⟩ := hfiles v hv
    exact id
  · rw [← isOk_stripBytes]
    cases stripBytes rt record <;> rfl

/-- A document with the time fields of a record. -/
def SameTimes (doc record : Dict) : Prop := timeField doc = timeField record

theorem SameTimes.set {doc record : Dict} (h : SameTimes doc record) {name : String}
    (hname : name ∉ ["end_time", "@timestamp", "ts"]) (v : Obj) :
    SameTimes (doc.set (key name) v) record := by
  simp only [List.mem_cons, List.not_mem_nil, or_false, not_or] at hname
  obtain ⟨h₁, h₂, h₃⟩ := hname
  have hne {other : String} (hother : ¬ name = other) : key other ≠ key name := by
    simpa using fun h => hother h.symm
  simp only [SameTimes, timeField, Dict.get_set_ne _ _ (hne h₁), Dict.get_set_ne _ _ (hne h₂),
    Dict.get_set_ne _ _ (hne h₃)]
  exact h

theorem sameTimes_withTag {doc record : Dict} (h : SameTimes doc record) (tag : PyStr) :
    SameTimes (EsWriter.withTag tag doc) record := by
  unfold EsWriter.withTag
  split_ifs
  · exact h
  · exact h.set (by decide) _

theorem sameTimes_stripBytes {rt : Runtime} {record doc : Dict}
    (h : stripBytes rt record = .ok doc) : SameTimes doc record := by
  obtain ⟨-, h⟩ := stripBytes_eq_ok.mp h
  unfold stripCopy at h
  split at h
  · obtain ⟨hp, -, h⟩ := bind_eq_ok.mp h
    cases h
    exact SameTimes.set rfl (by decide) _
  · cases h
    rfl

/-- The session document of a record has the time fields of the record. -/
theorem sameTimes_enrichRecord {rt : Runtime} {geo : Option GeoEnricher} {record doc : Dict}
    {rows : List Dict} (h : enrichRecord rt geo record = .ok (doc, rows)) :
    SameTimes doc record := by
  rcases enrichRecord_eq_ok h with ⟨e, hprocess, rfl, -⟩ | ⟨hstrip, -⟩
  · obtain ⟨session, ctx, hp, -, -, -, hdoc⟩ := enrichedDoc_of_process hprocess
    rw [hdoc]
    exact ((SameTimes.set rfl (by decide) _).set (by decide) _).set (by decide) _
  · exact sameTimes_stripBytes hstrip

/-! ### JSON documents -/

theorem isJson_stripFiles {hp hp' : Dict} (hhp : (Obj.map hp).isJson)
    (h : stripFiles hp = .ok hp') : (Obj.map hp').isJson := by
  unfold stripFiles at h
  split at h
  · cases h
    exact hhp
  · next files hfiles =>
    have hfile : ∀ f : Obj, f.isJson → (stripFile f).isJson := by
      intro f hf
      unfold stripFile
      split
      · exact Dict.isJson_erase hf _
      · exact hf
    split_ifs at h
    · cases h
      exact hhp
    · cases files with
      | list xs =>
        cases h
        have hxs := (Obj.isJson_list xs).mp (Dict.isJson_get hhp hfiles)
        refine Dict.isJson_set hhp _ ((Obj.isJson_list _).mpr ?_)
        exact List.forall_mem_map.mpr fun f hf => hfile f (hxs f hf)
      | map _ | str _ | bytes _ | ext _ _ =>
        cases h
        exact hhp
      | _ => cases h

theorem isJson_stripBytes {rt : Runtime} {record doc : Dict}
    (hrecord : (Obj.map record).isJson) (h : stripBytes rt record = .ok doc) :
    (Obj.map doc).isJson := by
  obtain ⟨-, h⟩ := stripBytes_eq_ok.mp h
  unfold stripCopy at h
  split at h
  · next hp hget =>
    obtain ⟨hp', hhp', h⟩ := bind_eq_ok.mp h
    cases h
    exact Dict.isJson_set hrecord _ (isJson_stripFiles (Dict.isJson_get hrecord hget) hhp')
  · cases h
    exact hrecord

theorem isJson_hpDataFields (rt : Runtime) (session : SessionIn) (ctx : SessionContext) :
    (Obj.map (hpDataFields rt session ctx)).isJson := by
  have hrefs : (payloadRefs rt session).isJson := by
    refine (Obj.isJson_list _).mpr (List.forall_mem_map.mpr fun f _ => ?_)
    simp [Obj.isJson_cons, Obj.isJson_ofOption]
  have hbanner (b : Option Cpe) : (Obj.map (bannerFields b)).isJson := by
    cases b <;> simp [bannerFields, Obj.isJson_cons, Obj.isJson_ofOption]
  simp [hpDataFields, Obj.isJson_cons, Obj.isJson_ofOption, hrefs, hbanner]

theorem isJson_withTag {doc : Dict} (h : (Obj.map doc).isJson) (tag : PyStr) :
    (Obj.map (EsWriter.withTag tag doc)).isJson := by
  unfold EsWriter.withTag
  split_ifs
  · exact h
  · exact Dict.isJson_set h _ (Obj.isJson_str tag)

/-- A row has a text in its time field, or nothing, and so a daily index. -/
theorem timeInRange_modelDump (rt : Runtime) (o : C2Observation) (tag : PyStr) :
    TimeInRange (EsWriter.withTag tag (o.modelDump rt)) := by
  have hdump : ∀ kv ∈ o.modelDump rt,
      kv.1 = key "end_time" ∨ kv.1 = key "@timestamp" ∨ kv.1 = key "ts" → TimestampOk kv.2 := by
    unfold C2Observation.modelDump
    simp only [List.forall_mem_append, forall_dumpField]
    simp [TimestampOk]
  have htagged : ∀ kv ∈ EsWriter.withTag tag (o.modelDump rt),
      kv.1 = key "end_time" ∨ kv.1 = key "@timestamp" ∨ kv.1 = key "ts" → TimestampOk kv.2 := by
    unfold EsWriter.withTag
    split_ifs
    · exact hdump
    · intro kv hkv
      rcases Dict.mem_set hkv with rfl | hkv
      · simp
      · exact hdump kv hkv
  intro v hv
  rcases Obj.eq_some_of_pyOr hv with hv | hv
  · rcases Obj.eq_some_of_pyOr hv with hv | hv
    · exact htagged _ (Dict.mem_of_get hv) (.inl rfl)
    · exact htagged _ (Dict.mem_of_get hv) (.inr (.inl rfl))
  · exact htagged _ (Dict.mem_of_get hv) (.inr (.inr rfl))

/-- A row that can be written: a JSON document with a readable time. -/
def Writable (tag : PyStr) (row : Dict) : Prop :=
  (Obj.map row).isJson ∧ TimeInRange (EsWriter.withTag tag row)

/-- The session document of a JSON record is a JSON document, and its rows can be written. -/
theorem isJson_enrichRecord {rt : Runtime} {geo : Option GeoEnricher} {record doc : Dict}
    {rows : List Dict} (hrecord : (Obj.map record).isJson)
    (h : enrichRecord rt geo record = .ok (doc, rows)) (tag : PyStr) :
    (Obj.map doc).isJson ∧ ∀ row ∈ rows, Writable tag row := by
  rcases enrichRecord_eq_ok h with ⟨e, hprocess, rfl, rfl⟩ | ⟨hstrip, rfl⟩
  · refine ⟨?_, List.forall_mem_map.mpr fun o _ =>
      ⟨isJson_modelDump rt o, timeInRange_modelDump rt o tag⟩⟩
    obtain ⟨session, ctx, hp, hvalid, -, hstrip, hdoc⟩ := enrichedDoc_of_process hprocess
    have henvelope : (Obj.map (hpDataOf record)).isJson := by
      rw [hpDataOf]
      cases hget : record.get (key "hp_data") with
      | none => exact Obj.isJson_nil
      | some v =>
        obtain ⟨d, rfl, -⟩ := files_of_modelValidate hvalid hget
        exact Dict.isJson_get hrecord hget
    have hhp := Dict.isJson_update (isJson_hpDataFields rt session ctx)
      (isJson_stripFiles henvelope hstrip)
    rw [hdoc]
    exact Dict.isJson_set (Dict.isJson_set (Dict.isJson_set hrecord _ hhp) _ (Obj.isJson_strs _)) _
      (Obj.isJson_str _)
  · exact ⟨isJson_stripBytes hrecord hstrip, List.forall_mem_nil _⟩

/-! ### While Elasticsearch is up -/

/-- The session documents accepted in a trace: those in an index `stingar-...`. -/
def sessionWrites : List Event → List Dict
  | [] => []
  | .request index doc outcome :: evs =>
    if outcome.accepts && (str "stingar-").isPrefixOf index then doc :: sessionWrites evs
    else sessionWrites evs
  | _ :: evs => sessionWrites evs

theorem sessionWrites_append : (evs evs' : List Event) →
    sessionWrites (evs ++ evs') = sessionWrites evs ++ sessionWrites evs'
  | [], _ => rfl
  | .request i _ o :: evs, evs' => by
      by_cases h : (o.accepts && (str "stingar-").isPrefixOf i) = true <;>
        simp [sessionWrites, h, sessionWrites_append evs evs']
  | .frame _ :: evs, evs' | .gaveUp _ :: evs, evs' | .pong :: evs, evs' | .ack _ :: evs, evs' =>
      sessionWrites_append evs evs'

/-- While Elasticsearch is up, a JSON document with a readable time is written once, and does not
make the writer raise. -/
theorem write_of_up {rt : Runtime} {indexPrefix : PyStr} {doc : Dict}
    (hdoc : (Obj.map doc).isJson) (htime : TimeInRange doc) (ds : List Dict) (b : Bool)
    (hb : ∀ rest, (str "stingar-").isPrefixOf (indexPrefix ++ str "-" ++ rest) = b) :
    Prog.Triple (fun w => w.Up ∧ sessionWrites w.trace = ds) (EsWriter.write rt indexPrefix doc)
      (fun _ w => w.Up ∧ sessionWrites w.trace = ds ++ if b then [doc] else [])
      (fun _ _ => False) := by
  obtain ⟨index, hindex⟩ :=
    isOk_iff.mp ((isOk_dailyIndex rt indexPrefix doc).mpr ((isOk_recordTime rt doc).mpr htime))
  obtain ⟨suffix, hsuffix⟩ := prefix_of_dailyIndex hindex
  rintro w ⟨hup, hw⟩
  rw [run_write_of_up hup hdoc hindex]
  refine ⟨fun n => hup (n + 1), ?_⟩
  rw [sessionWrites_append, hw, ← hsuffix]
  simp only [sessionWrites, hup 0, Bool.true_and, hb suffix]

theorem writeSession_of_up {rt : Runtime} {doc : Dict} {tag : PyStr} (hdoc : (Obj.map doc).isJson)
    (htime : TimeInRange (EsWriter.withTag tag doc)) (ds : List Dict) :
    Prog.Triple (fun w => w.Up ∧ sessionWrites w.trace = ds) (EsWriter.writeSession rt doc tag)
      (fun _ w => w.Up ∧ sessionWrites w.trace = ds ++ [EsWriter.withTag tag doc])
      (fun _ _ => False) :=
  write_of_up (isJson_withTag hdoc tag) htime ds true fun _ =>
    List.isPrefixOf_iff_prefix.mpr (List.prefix_append _ _)

theorem writeObservations_of_up {rt : Runtime} {tag : PyStr} (ds : List Dict) :
    {rows : List Dict} → (∀ row ∈ rows, Writable tag row) →
    Prog.Triple (fun w => w.Up ∧ sessionWrites w.trace = ds)
      (EsWriter.writeObservations rt rows tag)
      (fun _ w => w.Up ∧ sessionWrites w.trace = ds) (fun _ _ => False)
  | [], _ => Prog.Triple.pure fun _ hw => hw
  | row :: rows, h => by
      obtain ⟨hjson, htime⟩ := h row List.mem_cons_self
      have hwrite : Prog.Triple _ (EsWriter.write rt c2Prefix (EsWriter.withTag tag row)) _ _ :=
        write_of_up (isJson_withTag hjson tag) htime ds false fun _ => rfl
      simp only [Bool.false_eq_true, if_false, List.append_nil] at hwrite
      exact Prog.Triple.bind hwrite fun _ =>
        writeObservations_of_up ds fun row' hrow' => h row' (List.mem_cons_of_mem _ hrow')

/-- A record that is written: the handler returns, with one session document written. -/
def WrittenOnce (w : Wire) (m : Prog Wire Unit) : Prop :=
  ∃ w', m.run w = (.ok (), w') ∧ (sessionWrites w'.trace).length =
    (sessionWrites w.trace).length + 1

/-- **The records that are written.** While every request is accepted, the handler returns on an
enrichable JSON record and writes one session document exactly when the record can be copied under
the recursion limit, its files can be run over and its time is in range. -/
theorem handleRecord_returns_iff (rt : Runtime) (geo : Option GeoEnricher) {w : Wire} (hup : w.Up)
    {tag : PyStr} (htag : isEnrichable tag = true) {record : Dict}
    (hrecord : (Obj.map record).isJson) :
    WrittenOnce w (handleRecord rt geo tag record) ↔ SessionWritable rt record := by
  simp only [WrittenOnce, handleRecord, htag, Bool.not_true, Bool.false_eq_true, if_false]
  constructor
  · rintro ⟨w', hrun, -⟩
    obtain ⟨⟨doc, rows⟩, w₁, henrich, hrun⟩ := Prog.run_bind_ok hrun
    have henrich' : enrichRecord rt geo record = .ok (doc, rows) := congrArg Prod.fst henrich
    obtain ⟨_, w₂, hwrite, -⟩ := Prog.run_bind_ok hrun
    obtain ⟨index, w₃, hindex, -⟩ := Prog.run_bind_ok hwrite
    have hindex' : dailyIndex rt sessionPrefix (EsWriter.withTag tag doc) = .ok index :=
      congrArg Prod.fst hindex
    have htime := (isOk_recordTime rt _).mp ((isOk_dailyIndex rt sessionPrefix _).mp
      (isOk_iff.mpr ⟨index, hindex'⟩))
    have hsame := sameTimes_withTag (sameTimes_enrichRecord henrich') tag
    obtain ⟨hcopies, hfiles⟩ := (isOk_enrichRecord rt geo record).mp (isOk_iff.mpr ⟨_, henrich'⟩)
    refine ⟨hcopies, hfiles, ?_⟩
    rwa [TimeInRange, hsame] at htime
  · rintro ⟨hcopies, hfiles, htime⟩
    obtain ⟨⟨doc, rows⟩, henrich⟩ :=
      isOk_iff.mp ((isOk_enrichRecord rt geo record).mpr ⟨hcopies, hfiles⟩)
    obtain ⟨hdoc, hrows⟩ := isJson_enrichRecord hrecord henrich tag
    have hsame := sameTimes_withTag (sameTimes_enrichRecord henrich) tag
    have htime' : TimeInRange (EsWriter.withTag tag doc) := by rwa [TimeInRange, hsame]
    have htriple : Prog.Triple (fun w' => w'.Up ∧ sessionWrites w'.trace = sessionWrites w.trace)
        (EsWriter.writeSession rt doc tag >>= fun _ =>
          if rows.isEmpty then pure () else EsWriter.writeObservations rt rows tag)
        (fun _ w' => w'.Up ∧ sessionWrites w'.trace =
          sessionWrites w.trace ++ [EsWriter.withTag tag doc]) (fun _ _ => False) := by
      refine Prog.Triple.bind (writeSession_of_up hdoc htime' _) fun _ => ?_
      split_ifs
      · exact Prog.Triple.pure fun _ hw => hw
      · exact writeObservations_of_up _ hrows
    rw [henrich]
    have h := htriple w ⟨hup, rfl⟩
    change ∃ w', (EsWriter.writeSession rt doc tag >>= fun _ =>
      if rows.isEmpty then pure () else EsWriter.writeObservations rt rows tag).run w =
        (.ok (), w') ∧ _
    rcases hr : (EsWriter.writeSession rt doc tag >>= fun _ =>
        if rows.isEmpty then pure () else EsWriter.writeObservations rt rows tag).run w with
      ⟨e | u, w'⟩
    · rw [hr] at h
      exact h.elim
    · rw [hr] at h
      exact ⟨w', rfl, by rw [h.2, List.length_append, List.length_singleton]⟩

/-- The tag of the inbound records. -/
def tagInbound : PyStr := str "stingar.enrichable.cowrie"

/-- Elasticsearch, taking every document. -/
def upWire : Wire := ⟨fun _ => .status 201, []⟩

theorem up_upWire : upWire.Up := fun _ => rfl

/-- A record with one URL is written. -/
theorem handleRecord_returns_iff_url :
    WrittenOnce upWire (handleRecord .basic none tagInbound
      (hpDataDoc [] [str "http://1.2.3.4/x"])) ↔
    SessionWritable .basic (hpDataDoc [] [str "http://1.2.3.4/x"]) :=
  handleRecord_returns_iff .basic none up_upWire (by decide) (by decide)

/-- A record whose `files` is a number. -/
def numberOfFiles : Dict := [(key "hp_data", .map [(key "files", .int 5)])]

/-- A record whose `files` is a number makes the handler raise, whatever it does with the rest. -/
theorem not_handleRecord_returns : ¬ ∀ (rt : Runtime) (geo : Option GeoEnricher) (w : Wire)
    (tag : PyStr) (record : Dict), w.Up → isEnrichable tag = true → (Obj.map record).isJson →
    WrittenOnce w (handleRecord rt geo tag record) := by
  intro h
  obtain ⟨w', hrun, -⟩ := h .basic none upWire tagInbound numberOfFiles up_upWire (by decide)
    (by decide)
  have hraise :
      ((handleRecord .basic none tagInbound numberOfFiles).run upWire).1.isOk = false := by
    decide +kernel
  rw [hrun] at hraise
  exact Bool.noConfusion hraise

end C2Engine
