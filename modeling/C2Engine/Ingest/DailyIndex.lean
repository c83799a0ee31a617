import C2Engine.Ingest.Poison
import C2Engine.Pipeline.RowShape
import C2Engine.Python.Calendar

/-!
# The day of an index

A session has one time, the end or else the start, and its documents belong to the UTC day of that
time. The name of an index shows another day: that on the clock of the value the name is made
from, which is the value of the record for the session document, and the time of the session,
written out and read back, for a ledger row.

## Main definitions

* `IndexedByDay`: all documents of a session go to the indices of one day.
* `ShowsDay`: the day a value of a record shows.
* `Runtime.ReadsTimes`: what is relied on of the libraries that read and write times.

## Main results

* `recordTime_eq_ok`: the day a record is indexed by.
* `indexedByDay_iff`: when all documents go to the indices of the UTC day of the session.
* `showsDay_text_iff`, `showsDay_seconds`: a text in ISO form, and seconds.
-/

namespace C2Engine

open Python

/-- The time of a session: `session.end_time or session.start_time`. -/
def SessionIn.time (session : SessionIn) : Option Datetime := session.endTime <|> session.startTime

/-- The session document and the rows are written to the indices of the UTC day of a time. -/
structure IndexedByDay (rt : Runtime) (t : Datetime) (tag : PyStr) (doc : Dict) (rows : List Dict) :
    Prop where
  session : dailyIndex rt sessionPrefix (EsWriter.withTag tag doc) =
    .ok (sessionPrefix ++ str "-" ++ t.utc.strftimeDate)
  rows : ∀ row ∈ rows, dailyIndex rt c2Prefix (EsWriter.withTag tag row) =
    .ok (c2Prefix ++ str "-" ++ t.utc.strftimeDate)

/-- A text that reads as a time shows the day written in it, any other one the present day. -/
def textDay (rt : Runtime) (s : PyStr) : ℤ :=
  if s.isEmpty then rt.now.day
  else ((rt.fromisoformat (PyStr.replace (cp 'Z') (str "+00:00") s)).getD rt.now).day

/-- The day a value shows: a number counts seconds, and what is neither number nor text shows the
present day. -/
def ShowsDay (rt : Runtime) (day : ℤ) : Option Obj → Prop
  | some (.int n) => TimestampOk (.int n) ∧ n / 86400 = day
  | some (.bool _) => day = 0
  | some (.float (.finite q)) =>
    TimestampOk (.float (.finite q)) ∧ roundHalfEven (q * usPerSecond) / usPerDay = day
  | some (.float _) => False
  | some (.str s) => textDay rt s = day
  | _ => rt.now.day = day

/-- What is relied on of the libraries: times are in range, and a time written out in JSON mode
reads back with its clock and its offset. -/
structure Runtime.ReadsTimes (rt : Runtime) : Prop where
  now : rt.now.InRange
  iso : ∀ s t, rt.fromisoformat s = some t → t.InRange
  parse : ∀ v t, rt.pydantic.parseDatetime v = some t → t.InRange
  dump : ∀ v t, rt.pydantic.parseDatetime v = some t → rt.pydantic.dumpDatetime t ≠ [] ∧
    ∃ t', rt.fromisoformat
        (PyStr.replace (cp 'Z') (str "+00:00") (rt.pydantic.dumpDatetime t)) = some t' ∧
      t'.wall = t.wall ∧ t'.offset.getD 0 = t.offset.getD 0

section Days

variable {rt : Runtime}

theorem day_textTime {s : PyStr} (h : s.isEmpty = false) : (textTime rt s).day = textDay rt s := by
  rw [textTime, textDay, h, if_neg Bool.false_ne_true]
  cases rt.fromisoformat (PyStr.replace (cp 'Z') (str "+00:00") s) <;> rfl

theorem day_of_ofMicroseconds {us : ℤ} {dt : Datetime} (h : ofMicroseconds us = .ok dt) :
    dt.InRange ∧ dt.day = us / usPerDay := by
  rw [ofMicroseconds] at h
  split_ifs at h with hus
  obtain rfl := Except.ok.inj h
  have hzero : -usPerDay < 0 ∧ 0 < usPerDay := by decide
  exact ⟨⟨hus, hzero⟩, rfl⟩

theorem day_of_fromtimestampInt {n : ℤ} {dt : Datetime} (h : fromtimestampInt n = .ok dt) :
    dt.InRange ∧ dt.day = n / 86400 := by
  rw [fromtimestampInt] at h
  split_ifs at h
  obtain ⟨hrange, hday⟩ := day_of_ofMicroseconds h
  refine ⟨hrange, hday.trans ?_⟩
  simp only [usPerSecond, usPerDay]
  omega

theorem day_of_fromtimestampFloat {q : ℚ} {dt : Datetime}
    (h : fromtimestampFloat (.finite q) = .ok dt) :
    dt.InRange ∧ dt.day = roundHalfEven (q * usPerSecond) / usPerDay := by
  simp only [fromtimestampFloat] at h
  split_ifs at h
  exact day_of_ofMicroseconds h

theorem inRange_textTime (hrt : rt.ReadsTimes) (s : PyStr) : (textTime rt s).InRange := by
  rw [textTime]
  cases hs : rt.fromisoformat (PyStr.replace (cp 'Z') (str "+00:00") s) with
  | none => exact hrt.now
  | some t => exact ⟨(hrt.iso _ _ hs).wall, (hrt.iso _ _ hs).offset⟩

/-- The time of a record is one, and its clock shows the day the value shows. -/
theorem recordTime_eq_ok (hrt : rt.ReadsTimes) {record : Dict} {dt : Datetime}
    (h : recordTime rt record = .ok dt) : dt.InRange ∧ ShowsDay rt dt.day (timeField record) := by
  rw [recordTime] at h
  cases hv : timeField record with
  | none =>
    rw [hv] at h
    obtain rfl := Except.ok.inj h
    exact ⟨hrt.now, rfl⟩
  | some v =>
    rw [hv] at h
    cases v with
    | int n =>
      obtain ⟨hrange, hday⟩ := day_of_fromtimestampInt h
      exact ⟨hrange, (isOk_fromtimestampInt n).mp (isOk_iff.mpr ⟨dt, h⟩), hday.symm⟩
    | bool b =>
      obtain ⟨hrange, hday⟩ := day_of_fromtimestampInt h
      exact ⟨hrange, hday.trans (by cases b <;> rfl)⟩
    | float x =>
      have hok := (isOk_fromtimestampFloat x).mp (isOk_iff.mpr ⟨dt, h⟩)
      cases x with
      | finite q =>
        obtain ⟨hrange, hday⟩ := day_of_fromtimestampFloat h
        exact ⟨hrange, hok, hday.symm⟩
      | inf _ => exact hok.elim
      | nan => exact hok.elim
    | str s =>
      obtain rfl := Except.ok.inj h
      cases hs : s.isEmpty with
      | true => exact ⟨hrt.now, if_pos hs⟩
      | false =>
        rw [if_neg Bool.false_ne_true]
        exact ⟨inRange_textTime hrt s, (day_textTime hs).symm⟩
    | _ =>
      obtain rfl := Except.ok.inj h
      exact ⟨hrt.now, rfl⟩

/-- A value shows one day at most. -/
theorem showsDay_unique {day day' : ℤ} {v : Option Obj} (h : ShowsDay rt day v)
    (h' : ShowsDay rt day' v) : day = day' := by
  cases v with
  | none => exact h.symm.trans h'
  | some v =>
    cases v with
    | int n => exact h.2.symm.trans h'.2
    | bool _ => exact Eq.trans h h'.symm
    | float x =>
      cases x with
      | finite q => exact h.2.symm.trans h'.2
      | inf _ => exact h.elim
      | nan => exact h.elim
    | _ => exact Eq.trans h.symm h'

/-- A value that shows a day can be read. -/
theorem timestampOk_of_showsDay {day : ℤ} {v : Obj} (h : ShowsDay rt day (some v)) :
    TimestampOk v := by
  cases v with
  | int n => exact h.1
  | float x =>
    cases x with
    | finite q => exact h.1
    | inf _ => exact h.elim
    | nan => exact h.elim
  | _ => trivial

/-- **The day a record is indexed by** is the day its value shows. -/
theorem dailyIndex_eq_iff (hrt : rt.ReadsTimes) {t : Datetime} (ht : t.InRange)
    (indexPrefix : PyStr) (record : Dict) :
    dailyIndex rt indexPrefix record = .ok (indexPrefix ++ str "-" ++ t.utc.strftimeDate) ↔
      ShowsDay rt t.utc.day (timeField record) := by
  constructor
  · intro h
    obtain ⟨dt, hdt, hname⟩ := bind_eq_ok.mp h
    obtain ⟨hrange, hday⟩ := recordTime_eq_ok hrt hdt
    have hdate := List.append_cancel_left (Except.ok.inj hname)
    rwa [← (strftimeDate_inj hrange.day.1 ht.day.2).mp hdate]
  · intro h
    have hin : TimeInRange record := fun v hv => timestampOk_of_showsDay (hv ▸ h)
    obtain ⟨dt, hdt⟩ := isOk_iff.mp ((isOk_recordTime rt record).mpr hin)
    obtain ⟨hrange, hday⟩ := recordTime_eq_ok hrt hdt
    rw [dailyIndex, hdt, ← (strftimeDate_inj hrange.day.1 ht.day.2).mpr (showsDay_unique hday h)]
    rfl

/-! ### The time of a session and of its rows -/

/-- A value an optional type accepts as something is one the type accepts. -/
theorem eq_some_of_validateOptional {α : Type} {f : Obj → Option α} {v : Obj} {x : α}
    (h : validateOptional f v = some (some x)) : f v = some x := by
  have hmap : (f v).map some = some (some x) := by
    cases v with
    | none => cases h
    | _ => exact h
  obtain ⟨y, hy, heq⟩ := Option.map_eq_some_iff.mp hmap
  rwa [← Option.some.inj heq]

theorem parse_of_validateTime {d : Dict} {name : String} {t : Datetime}
    (h : field d name none (validateTime rt) = some (some t)) :
    ∃ v, rt.pydantic.parseDatetime v = some t := by
  rw [field] at h
  cases hget : d.get (key name) with
  | none =>
    rw [hget] at h
    cases h
  | some v =>
    rw [hget] at h
    refine ⟨v, ?_⟩
    cases v with
    | str s =>
      cases s with
      | nil => cases h
      | cons c s => exact eq_some_of_validateOptional h
    | _ => exact eq_some_of_validateOptional h

/-- The time of a session was read from a value. -/
theorem exists_parse_of_time {record : Dict} {session : SessionIn} {t : Datetime}
    (hvalid : SessionIn.modelValidate rt record = .ok session) (ht : session.time = some t) :
    ∃ v, rt.pydantic.parseDatetime v = some t := by
  cases hv : SessionIn.validate rt (.map record) with
  | none => simp [SessionIn.modelValidate, hv] at hvalid
  | some s =>
    simp only [SessionIn.modelValidate, hv, Except.ok.injEq] at hvalid
    simp only [SessionIn.validate, Option.bind_eq_bind, Option.bind_eq_some_iff] at hv
    obtain ⟨d, -, hp, -, app, -, sensor, -, protocol, -, start, hstart, stop, hstop, hv⟩ := hv
    obtain ⟨srcIp, -, srcPort, -, dstIp, -, dstPort, -, hv⟩ := hv
    obtain rfl := hvalid
    obtain rfl := Option.some.inj hv
    cases stop with
    | none => exact parse_of_validateTime (hstart.trans (congrArg some ht))
    | some t' => exact parse_of_validateTime (hstop.trans (congrArg some ht))

theorem time_of_locateRow (geo : Option GeoEnricher) (o : C2Observation) :
    (locateRow geo o).ts = o.ts := by
  obtain ⟨_, _, _, _, h⟩ := locateRow_eq geo o
  rw [h]

/-- A row of a session carries its time. -/
theorem ts_of_mem_allObservations {session : SessionIn} {ctx : SessionContext}
    {rows : List C2Observation} (h : allObservations rt session ctx = .ok rows) {o : C2Observation}
    (ho : o ∈ rows) : o.ts = session.time := by
  cases (mem_allObservations h).mp ho with
  | reference => rfl
  | served _ hfile =>
    cases servedAs_of_eq hfile with
    | bare => rfl
    | payload _ _ _ hrow =>
      obtain ⟨magic, hosts, -, -, content, truncated, rfl⟩ := servedPayload_eq_ok hrow rfl
      rfl
  | callback => rfl

/-- The rows of a session carry its time. -/
theorem ts_of_mem_rows {geo : Option GeoEnricher} {record doc row : Dict} {rows : List Dict}
    {session : SessionIn} (hvalid : SessionIn.modelValidate rt record = .ok session)
    (h : enrichRecord rt geo record = .ok (doc, rows)) (hrow : row ∈ rows) :
    ∃ o : C2Observation, row = o.modelDump rt ∧ o.ts = session.time := by
  cases hprocess : process rt record geo with
  | error e =>
    rw [enrichRecord, hprocess] at h
    obtain ⟨doc', -, hdoc⟩ := map_eq_ok.mp h
    obtain ⟨-, rfl⟩ := Prod.mk.inj hdoc
    cases hrow
  | ok enriched =>
    rw [enrichRecord, hprocess] at h
    obtain ⟨-, rfl⟩ := Prod.mk.inj (Except.ok.inj h)
    obtain ⟨o, ho, rfl⟩ := List.mem_map.mp hrow
    obtain ⟨ctx, obs, -, hobs, hrows⟩ := observations_of_process hvalid hprocess
    rw [hrows, locateRows_eq_map] at ho
    obtain ⟨o', ho', rfl⟩ := List.mem_map.mp ho
    exact ⟨_, rfl, (time_of_locateRow geo o').trans (ts_of_mem_allObservations hobs ho')⟩

/-- A row shows the day on the clock of its time. -/
theorem showsDay_row (hrt : rt.ReadsTimes) {o : C2Observation} {v : Obj} {t : Datetime}
    (hparse : rt.pydantic.parseDatetime v = some t) (ht : o.ts = some t) (tag : PyStr) (day : ℤ) :
    ShowsDay rt day (timeField (EsWriter.withTag tag (o.modelDump rt))) ↔ t.day = day := by
  obtain ⟨hne, t', hiso, hwall, -⟩ := hrt.dump v t hparse
  have hfield : timeField (o.modelDump rt) = some (.str (rt.pydantic.dumpDatetime t)) := by
    unfold timeField C2Observation.modelDump
    simp only [Dict.get_append, get_dumpField, String.reduceEq, if_false, if_true, Option.none_or,
      Option.or_none, ht]
    rfl
  have hsame : timeField (EsWriter.withTag tag (o.modelDump rt)) = timeField (o.modelDump rt) :=
    sameTimes_withTag rfl tag
  rw [hsame, hfield]
  have hday : textDay rt (rt.pydantic.dumpDatetime t) = t.day := by
    rw [textDay, if_neg (by simpa using hne), hiso, Option.getD_some, Datetime.day, hwall,
      Datetime.day]
  exact ⟨fun h => hday.symm.trans h, fun h => hday.trans h⟩

/-- **All documents of a session go to the indices of its UTC day** if and only if the value of the
record shows that day and, where there are rows, the clock of the time itself does. -/
theorem indexedByDay_iff (hrt : rt.ReadsTimes) {geo : Option GeoEnricher} {record doc : Dict}
    {rows : List Dict} {session : SessionIn} {t : Datetime}
    (hvalid : SessionIn.modelValidate rt record = .ok session) (ht : session.time = some t)
    (h : enrichRecord rt geo record = .ok (doc, rows)) (tag : PyStr) :
    IndexedByDay rt t tag doc rows ↔
      ShowsDay rt t.utc.day (timeField record) ∧ (rows ≠ [] → t.day = t.utc.day) := by
  obtain ⟨v, hparse⟩ := exists_parse_of_time hvalid ht
  have hrange := hrt.parse v t hparse
  have hsame : timeField (EsWriter.withTag tag doc) = timeField record :=
    sameTimes_withTag (sameTimes_enrichRecord h) tag
  have hrow : ∀ row ∈ rows, dailyIndex rt c2Prefix (EsWriter.withTag tag row) =
      .ok (c2Prefix ++ str "-" ++ t.utc.strftimeDate) ↔ t.day = t.utc.day := by
    intro row hmem
    obtain ⟨o, hdump, hts⟩ := ts_of_mem_rows hvalid h hmem
    rw [dailyIndex_eq_iff hrt hrange, hdump, showsDay_row hrt hparse (hts.trans ht)]
  have hsession := dailyIndex_eq_iff hrt hrange sessionPrefix (EsWriter.withTag tag doc)
  rw [hsame] at hsession
  constructor
  · intro hindexed
    refine ⟨hsession.mp hindexed.session, fun hne => ?_⟩
    obtain ⟨row, hmem⟩ := List.exists_mem_of_ne_nil rows hne
    exact (hrow row hmem).mp (hindexed.rows row hmem)
  · rintro ⟨hshows, hday⟩
    exact ⟨hsession.mpr hshows, fun row hmem =>
      (hrow row hmem).mpr (hday (List.ne_nil_of_mem hmem))⟩

/-- A text that both libraries read alike has its documents together exactly when its offset does
not move it over midnight. -/
theorem showsDay_text_iff {s : PyStr} {t t' : Datetime} (hs : s ≠ [])
    (hiso : rt.fromisoformat (PyStr.replace (cp 'Z') (str "+00:00") s) = some t')
    (hwall : t'.wall = t.wall) : ShowsDay rt t.utc.day (some (.str s)) ↔ t.day = t.utc.day := by
  have hday : textDay rt s = t.day := by
    rw [textDay, if_neg (by simpa using hs), hiso, Option.getD_some, Datetime.day, hwall,
      Datetime.day]
  exact ⟨fun h => hday.symm.trans h, fun h => hday.trans h⟩

/-- A number of seconds shows its UTC day. -/
theorem showsDay_seconds {n : ℤ} (h : minSecond ≤ n ∧ n < endSecond) :
    ShowsDay rt (Datetime.utc ⟨n * usPerSecond, some 0⟩).day (some (.int n)) := by
  refine ⟨h, ?_⟩
  simp only [Datetime.day, Datetime.utc, Option.getD_some, usPerSecond, usPerDay]
  omega

end Days

/-- The first of January 2024, an hour before midnight, five hours behind UTC. -/
def lateEvening : Datetime := ⟨1704150000 * usPerSecond, some (-18000 * usPerSecond)⟩

/-- The text of `lateEvening`. -/
def lateEveningText : PyStr := str "2024-01-01T23:00:00-05:00"

/-- A runtime that reads that text. -/
def eveningRuntime : Runtime :=
  { Runtime.basic with
    fromisoformat := fun s => if s = lateEveningText then some lateEvening else none
    pydantic :=
      { Pydantic.basic with
        parseDatetime := fun
          | .str s => if s = lateEveningText then some lateEvening else none
          | _ => none
        dumpDatetime := fun _ => lateEveningText } }

/-- A record with a URL that ended then. -/
def eveningRecord : Dict :=
  [(key "end_time", .str lateEveningText),
   (key "hp_data", .map [(key "urls", .strs [str "http://192.0.2.1/x"])])]

/-- The session of that record. -/
def eveningSession : SessionIn where
  endTime := some lateEvening
  hpData := { urls := [str "http://192.0.2.1/x"] }

theorem readsTimes_eveningRuntime : eveningRuntime.ReadsTimes := by
  have hrange : lateEvening.InRange := ⟨by decide, by decide⟩
  have hiso : ∀ s t, eveningRuntime.fromisoformat s = some t → t = lateEvening := by
    intro s t h
    have h' : (if s = lateEveningText then some lateEvening else none) = some t := h
    split_ifs at h'
    exact (Option.some.inj h').symm
  have hparse : ∀ v t, eveningRuntime.pydantic.parseDatetime v = some t → t = lateEvening := by
    intro v t h
    cases v with
    | str s => exact hiso s t h
    | _ => cases h
  refine ⟨⟨by decide, by decide⟩, ?_, ?_, ?_⟩
  · rintro s t h
    rwa [hiso s t h]
  · rintro v t h
    rwa [hparse v t h]
  · rintro v t h
    rw [hparse v t h]
    exact ⟨by decide, lateEvening, by decide, rfl, rfl⟩

theorem modelValidate_eveningRecord :
    SessionIn.modelValidate eveningRuntime eveningRecord = .ok eveningSession := rfl

/-- The record has a session document and one row, which go to the indices of the first of
January. -/
theorem enrichRecord_eveningRecord : ∃ doc row,
    enrichRecord eveningRuntime none eveningRecord = .ok (doc, [row]) ∧
    dailyIndex eveningRuntime sessionPrefix doc = .ok (str "stingar-2024-01-01") ∧
    dailyIndex eveningRuntime c2Prefix row = .ok (str "stingarc2-2024-01-01") := by
  have hnames : (enrichRecord eveningRuntime none eveningRecord).toOption.map
      (fun p => (dailyIndex eveningRuntime sessionPrefix p.1,
        p.2.map (dailyIndex eveningRuntime c2Prefix))) =
      some (.ok (str "stingar-2024-01-01"), [.ok (str "stingarc2-2024-01-01")]) := by
    decide +kernel
  obtain ⟨⟨doc, rows⟩, h, hnames⟩ := Option.map_eq_some_iff.mp hnames
  obtain ⟨hdoc, hrows⟩ := Prod.mk.inj hnames
  obtain ⟨row, rfl, hrow⟩ := List.map_eq_singleton_iff.mp hrows
  cases henrich : enrichRecord eveningRuntime none eveningRecord with
  | error e =>
    rw [henrich] at h
    cases h
  | ok p =>
    rw [henrich] at h
    exact ⟨doc, row, congrArg Except.ok (Option.some.inj h), hdoc, hrow⟩

/-- The record is one the result speaks of. -/
theorem indexedByDay_iff_evening : ∃ doc row,
    enrichRecord eveningRuntime none eveningRecord = .ok (doc, [row]) ∧
    (IndexedByDay eveningRuntime lateEvening [] doc [row] ↔
      ShowsDay eveningRuntime lateEvening.utc.day (timeField eveningRecord) ∧
        ([row] ≠ [] → lateEvening.day = lateEvening.utc.day)) := by
  obtain ⟨doc, row, h, -, -⟩ := enrichRecord_eveningRecord
  exact ⟨doc, row, h,
    indexedByDay_iff readsTimes_eveningRuntime modelValidate_eveningRecord rfl h []⟩

/-- Its documents go to the indices of the first of January; it ended on the second. -/
theorem not_indexedByDay_evening : ∃ doc row,
    enrichRecord eveningRuntime none eveningRecord = .ok (doc, [row]) ∧
    SessionIn.modelValidate eveningRuntime eveningRecord = .ok eveningSession ∧
    eveningSession.time = some lateEvening ∧
    dailyIndex eveningRuntime sessionPrefix doc = .ok (str "stingar-2024-01-01") ∧
    dailyIndex eveningRuntime c2Prefix row = .ok (str "stingarc2-2024-01-01") ∧
    lateEvening.utc.strftimeDate = str "2024-01-02" ∧
    ¬ IndexedByDay eveningRuntime lateEvening [] doc [row] := by
  obtain ⟨doc, row, h, hdoc, hrow⟩ := enrichRecord_eveningRecord
  refine ⟨doc, row, h, modelValidate_eveningRecord, rfl, hdoc, hrow, by decide, fun hindexed => ?_⟩
  have hname := Except.ok.inj (hdoc.symm.trans hindexed.session)
  exact absurd hname (by decide)

end C2Engine
