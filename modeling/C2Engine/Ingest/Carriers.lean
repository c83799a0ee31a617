import C2Engine.Ingest.Forward
import C2Engine.Python.Utf8

/-!
# Carrier modes

The same events can be sent as frames of their own, as a list of entries, or as a packed blob,
which is typed as bytes or as text, and may be compressed. All five give the same records with the
same option, as long as the unpacker has room for the entries of a blob.

The frames are those the receiver has unpacked: a blob typed as text has been decoded with
`surrogateescape` on the way.

## Main definitions

* `messageFrame`, `forwardFrame`, `packedFrame`: the carrier modes.
* `eventRecords`: the records of events.
* `CarriersAgree`: the same records in all modes.

## Main results

* `parseFrame_message`, `parseFrame_forward`, `parseFrame_packed`: the records of each mode.
* `carriersAgree_iff`: the modes agree up to the bound of the unpacker.
* `not_carriersAgree_replicate`: more events than it takes.
-/

namespace C2Engine

open Python

/-- A time of the protocol: a number, or one of the extension values. -/
def IsTime : Obj → Prop
  | .int _ | .float _ | .ext _ _ | .timestamp _ _ => True
  | _ => False

/-- The entry `[time, record]` of an event. -/
def eventEntry (event : Obj × Dict) : Obj := .list [event.1, .map event.2]

/-- The option at the end of a frame. -/
def withOption (option : Option Dict) (parts : List Obj) : Obj :=
  .list (parts ++ (option.map Obj.map).toList)

/-- Message mode: one event. -/
def messageFrame (tag : PyStr) (option : Option Dict) (event : Obj × Dict) : Obj :=
  withOption option [.str tag, event.1, .map event.2]

/-- Forward mode: a list of entries. -/
def forwardFrame (tag : PyStr) (option : Option Dict) (events : List (Obj × Dict)) : Obj :=
  withOption option [.str tag, .list (events.map eventEntry)]

/-- PackedForward mode: a blob of entries. -/
def packedFrame (tag : PyStr) (option : Option Dict) (blob : Obj) : Obj :=
  withOption option [.str tag, blob]

/-- The option of a compressed blob. -/
def gzipOption (option : Option Dict) : Dict :=
  (option.getD []).set (key "compressed") (.str (str "gzip"))

/-- The records of events. -/
def eventRecords (tag : PyStr) (events : List (Obj × Dict)) : List (PyStr × Dict) :=
  events.map fun event => (tag, normalizeRecord event.2)

/-- The packed entries of events. -/
def eventBlob (packb : Obj → Bytes) (events : List (Obj × Dict)) : Bytes :=
  (events.map eventEntry).flatMap packb

theorem entryRecords_eventEntry (tag : PyStr) (events : List (Obj × Dict)) :
    entryRecords tag (events.map eventEntry) = eventRecords tag events := by
  rw [entryRecords, List.filterMap_map, eventRecords, ← List.filterMap_eq_map]
  rfl

/-- The option of a frame is what stands behind its other parts. -/
theorem frameOption_toList (option : Option Dict) :
    frameOption (option.map Obj.map).toList = option := by
  cases option <;> rfl

theorem isCompressed_gzipOption (option : Option Dict) :
    isCompressed (some (gzipOption option)) := by
  rw [isCompressed, gzipOption, Option.bind_some, Dict.get_set_self]
  rfl

theorem frameChunk_gzipOption (option : Option Dict) :
    frameChunk (some (gzipOption option)) = frameChunk option := by
  rw [frameChunk, gzipOption, Option.bind_some,
    Dict.get_set_ne _ _ (by rw [ne_eq, key_inj]; decide)]
  cases option <;> rfl

section Modes

variable (codecs : Codecs) (tag : PyStr) (option : Option Dict)

/-- Message mode. -/
theorem parseFrame_message {event : Obj × Dict} (h : IsTime event.1) :
    parseFrame codecs (messageFrame tag option event) = .ok (eventRecords tag [event], option) := by
  obtain ⟨time, record⟩ := event
  have hframe : parseFrame codecs (messageFrame tag option (time, record)) =
      .ok ([(tag, normalizeRecord record)], frameOption (option.map Obj.map).toList) := by
    cases time with
    | int n => rfl
    | float x => rfl
    | ext code data => rfl
    | timestamp s ns => rfl
    | _ => cases h
  rw [hframe, frameOption_toList]
  rfl

/-- Forward mode. -/
theorem parseFrame_forward (events : List (Obj × Dict)) :
    parseFrame codecs (forwardFrame tag option events) =
      .ok (eventRecords tag events, option) := by
  change Except.ok (entryRecords tag (events.map eventEntry),
    frameOption (option.map Obj.map).toList) = _
  rw [entryRecords_eventEntry, frameOption_toList]

variable {codecs}

/-- PackedForward mode, with a blob typed as bytes or as text. -/
theorem parseFrame_packed {events : List (Obj × Dict)} {data stream : Bytes}
    (hpayload : payload codecs (.bytes data) option = .ok stream)
    (hunpack : codecs.unpackAll stream = .ok (events.map eventEntry)) :
    parseFrame codecs (packedFrame tag option (.bytes data)) =
        .ok (eventRecords tag events, option) ∧
      parseFrame codecs (packedFrame tag option (.str (utf8DecodeEscape data))) =
        .ok (eventRecords tag events, option) := by
  have hparse : ∀ blob, asBytes blob = .ok data →
      (packedRecords codecs tag blob (frameOption (option.map Obj.map).toList) >>=
        fun records => pure (records, frameOption (option.map Obj.map).toList)) =
        Except.ok (ε := PyExc) (eventRecords tag events, option) := by
    intro blob hbytes
    have hstream : payload codecs blob option = .ok stream := by
      rw [payload, hbytes]
      exact hpayload
    rw [frameOption_toList, packedRecords_eq, hstream]
    change ((codecs.unpackAll stream).map (entryRecords tag) >>= _) = _
    rw [hunpack, ← entryRecords_eventEntry]
    rfl
  exact ⟨hparse (.bytes data) rfl, hparse (.str _) (utf8EncodeEscape_utf8DecodeEscape data)⟩

end Modes

/-- **The carrier modes agree**: frames for each event, a list of entries, a blob typed as bytes or
as text, and a compressed blob give the same records in the same order, with the same chunk. -/
structure CarriersAgree (codecs : Codecs) (packb : Obj → Bytes) (compress : Bytes → Bytes)
    (tag : PyStr) (option : Option Dict) (events : List (Obj × Dict)) : Prop where
  message : (events.mapM fun event => parseFrame codecs (messageFrame tag option event)) =
    .ok ((eventRecords tag events).map fun record => ([record], option))
  forward : parseFrame codecs (forwardFrame tag option events) =
    .ok (eventRecords tag events, option)
  packed : ∀ blob, blob = .bytes (eventBlob packb events) ∨
      blob = .str (utf8DecodeEscape (eventBlob packb events)) →
    parseFrame codecs (packedFrame tag option blob) = .ok (eventRecords tag events, option)
  compressed : ∀ blob, blob = .bytes (compress (eventBlob packb events)) ∨
      blob = .str (utf8DecodeEscape (compress (eventBlob packb events))) →
    parseFrame codecs (packedFrame tag (some (gzipOption option)) blob) =
      .ok (eventRecords tag events, some (gzipOption option))
  chunk : frameChunk (some (gzipOption option)) = frameChunk option

theorem isOk_unpackWithin {m : Msgpack.Reader} {max : ℕ} {data : Bytes}
    (h : (m.unpackAll data).isOk) : (m.unpackWithin max data).isOk ↔ data.length ≤ max := by
  unfold Msgpack.Reader.unpackWithin
  split_ifs with hlt
  · exact iff_of_false Bool.false_ne_true (by omega)
  · exact iff_of_true h (by omega)

section Events

variable {codecs : Codecs} {packb : Obj → Bytes} {events : List (Obj × Dict)}

/-- Where reading inverts writing, the packed entries of events are read back. -/
theorem unpackAll_eventBlob (hpackb : ∀ event ∈ events, ∀ rest,
      codecs.unpacker.read (packb (eventEntry event) ++ rest) = .value (eventEntry event) rest) :
    codecs.unpacker.unpackAll (eventBlob packb events) = .ok (events.map eventEntry) := by
  have hstream : codecs.unpacker.unpack (eventBlob packb events) =
      .ok (events.map eventEntry, []) := by
    refine Msgpack.Reader.unpack_flatMap fun v hv rest => ?_
    obtain ⟨event, hevent, rfl⟩ := List.mem_map.mp hv
    exact hpackb event hevent rest
  rw [Msgpack.Reader.unpackAll, hstream]
  rfl

/-- A packed frame can be read exactly if its blob can be unpacked. -/
theorem isOk_parseFrame_packed {option : Option Dict} (hplain : isCompressed option = false)
    (tag : PyStr) (blob : Bytes) :
    (parseFrame codecs (packedFrame tag option (.bytes blob))).isOk ↔
      (codecs.unpackAll blob).isOk := by
  have hparse : parseFrame codecs (packedFrame tag option (.bytes blob)) =
      (packedRecords codecs tag (.bytes blob) (frameOption (option.map Obj.map).toList) >>=
        fun records => pure (records, frameOption (option.map Obj.map).toList)) := rfl
  rw [hparse, isOk_bind_pure, frameOption_toList, packedRecords_eq, payload]
  change (Except.bind (if isCompressed option then codecs.gunzip blob else .ok blob) _).isOk ↔ _
  rw [hplain, if_neg Bool.false_ne_true]
  exact isOk_map

/-- A packed frame of events can be read exactly if the unpacker has room for the entries. -/
theorem isOk_parseFrame_events (hpackb : ∀ event ∈ events, ∀ rest,
      codecs.unpacker.read (packb (eventEntry event) ++ rest) = .value (eventEntry event) rest)
    {option : Option Dict} (hplain : isCompressed option = false) (tag : PyStr) :
    (parseFrame codecs (packedFrame tag option (.bytes (eventBlob packb events)))).isOk ↔
      (eventBlob packb events).length ≤ maxBuffer :=
  (isOk_parseFrame_packed hplain tag _).trans
    (isOk_unpackWithin (by rw [unpackAll_eventBlob hpackb]; rfl))

/-- **The carrier modes agree** exactly as long as the packed entries of the events fit the buffer
of the unpacker. Of the codecs it is used that reading inverts writing. -/
theorem carriersAgree_iff {compress : Bytes → Bytes} (hpackb : ∀ event ∈ events, ∀ rest,
      codecs.unpacker.read (packb (eventEntry event) ++ rest) = .value (eventEntry event) rest)
    (hcompress : codecs.gunzip (compress (eventBlob packb events)) = .ok (eventBlob packb events))
    (htimes : ∀ event ∈ events, IsTime event.1) (tag : PyStr) {option : Option Dict}
    (hplain : isCompressed option = false) :
    CarriersAgree codecs packb compress tag option events ↔
      (eventBlob packb events).length ≤ maxBuffer := by
  constructor
  · intro h
    refine (isOk_parseFrame_events hpackb hplain tag).mp ?_
    rw [h.packed _ (.inl rfl)]
    rfl
  · intro hfits
    have hunpack : codecs.unpackAll (eventBlob packb events) = .ok (events.map eventEntry) := by
      rw [Codecs.unpackAll, Msgpack.Reader.unpackWithin, if_neg (by omega),
        unpackAll_eventBlob hpackb]
    have hbare : payload codecs (.bytes (eventBlob packb events)) option =
        .ok (eventBlob packb events) := by
      rw [payload, hplain]
      rfl
    have hgzip : payload codecs (.bytes (compress (eventBlob packb events)))
        (some (gzipOption option)) = .ok (eventBlob packb events) := by
      rw [payload, isCompressed_gzipOption]
      exact hcompress
    obtain ⟨hbin, hstr⟩ := parseFrame_packed tag option hbare hunpack
    obtain ⟨hgzipBin, hgzipStr⟩ := parseFrame_packed tag (some (gzipOption option)) hgzip hunpack
    refine ⟨?_, parseFrame_forward codecs tag option events, ?_, ?_, frameChunk_gzipOption option⟩
    · rw [eventRecords, List.map_map]
      exact mapM_eq_ok_map fun event hevent =>
        parseFrame_message codecs tag option (htimes event hevent)
    · rintro blob (rfl | rfl)
      · exact hbin
      · exact hstr
    · rintro blob (rfl | rfl)
      · exact hgzipBin
      · exact hgzipStr

end Events

/-! ### Short events -/

/-- A session with one URL, and a later one without any. -/
def twoEvents : List (Obj × Dict) :=
  [(.int 1, [(key "hp_data", .map [(key "urls", .list [.str (str "http://192.0.2.1/x")])])]),
   (.int 2, [(key "hp_data", .map [])])]

/-- `gzip.compress` of the blob of the two events. -/
def twoGzip : Bytes :=
  [0x1f, 0x8b, 0x08, 0x00, 0x00, 0x00, 0x00, 0x00, 0x02, 0x03, 0x9b, 0xc4, 0xd8, 0xb8,
   0x3c, 0xa3, 0x20, 0x3e, 0x25, 0xb1, 0x24, 0xb1, 0x71, 0x49, 0x69, 0x51, 0x4e, 0xf1,
   0xc4, 0x4d, 0x19, 0x25, 0x25, 0x05, 0x56, 0xfa, 0xfa, 0x86, 0x96, 0x46, 0x7a, 0x06,
   0x7a, 0x46, 0x7a, 0x86, 0xfa, 0x15, 0x93, 0x98, 0xe0, 0x8a, 0x1a, 0x00, 0x3a, 0xdc,
   0xdd, 0xfa, 0x31, 0x00, 0x00, 0x00]

/-- Codecs that read short values, and of the compressed texts this one. -/
def Codecs.short : Codecs where
  gunzip data :=
    if data = twoGzip then .ok (eventBlob Msgpack.packShort twoEvents)
    else .error .other
  unpacker := .short
  packb _ := .ok []

theorem Codecs.short_unpacker : Codecs.short.unpacker = .short := rfl

/-- The two events in every mode. -/
theorem carriersAgree_iff_two :
    CarriersAgree .short Msgpack.packShort (fun _ => twoGzip)
        (str "stingar.enrichable.cowrie") none twoEvents ↔
      (eventBlob Msgpack.packShort twoEvents).length ≤ maxBuffer := by
  have hshort : ∀ event ∈ twoEvents, Msgpack.isShort (eventEntry event) := by decide +kernel
  have hpackb : ∀ event ∈ twoEvents, ∀ rest, Codecs.short.unpacker.read
      (Msgpack.packShort (eventEntry event) ++ rest) =
        .value (eventEntry event) rest := by
    intro event hevent
    rw [Codecs.short_unpacker]
    exact Msgpack.read_packShort (hshort event hevent)
  have htimes : ∀ event ∈ twoEvents, IsTime event.1 :=
    List.forall_mem_cons.mpr ⟨trivial, List.forall_mem_cons.mpr ⟨trivial, List.forall_mem_nil _⟩⟩
  exact carriersAgree_iff hpackb rfl htimes _ rfl

/-! ### More events than the unpacker takes -/

theorem length_eventBlob_replicate (packb : Obj → Bytes) (n : ℕ) (event : Obj × Dict) :
    (eventBlob packb (List.replicate n event)).length = n * (packb (eventEntry event)).length := by
  rw [eventBlob, List.length_flatMap, List.map_map, List.map_replicate, List.sum_replicate_nat]
  rfl

/-- A session without anything. -/
def bareEvent : Obj × Dict := (.int 2, [(key "hp_data", .map [])])

/-- Codecs that read short values, where compressing leaves the bytes as they are. -/
def Codecs.stored : Codecs := { Codecs.short with gunzip := .ok }

theorem Codecs.stored_unpacker : Codecs.stored.unpacker = .short := rfl

/-- Two to the power of 25 sessions of twelve bytes each are received as single frames and as a list
of entries, and not as a packed blob. -/
theorem not_carriersAgree_replicate :
    (∀ event ∈ List.replicate (2 ^ 25) bareEvent, IsTime event.1 ∧ ∀ rest,
      Codecs.stored.unpacker.read (Msgpack.packShort (eventEntry event) ++ rest) =
        .value (eventEntry event) rest) ∧
    (∀ data, Codecs.stored.gunzip (id data) = .ok data) ∧
    ¬ CarriersAgree .stored Msgpack.packShort id (str "stingar.enrichable.cowrie") none
      (List.replicate (2 ^ 25) bareEvent) := by
  have hpackb : ∀ event ∈ List.replicate (2 ^ 25) bareEvent, IsTime event.1 ∧ ∀ rest,
      Codecs.stored.unpacker.read (Msgpack.packShort (eventEntry event) ++ rest) =
        .value (eventEntry event) rest := by
    intro event hevent
    rw [List.eq_of_mem_replicate hevent, Codecs.stored_unpacker]
    exact ⟨trivial, Msgpack.read_packShort (by decide +kernel)⟩
  refine ⟨hpackb, fun _ => rfl, fun h => ?_⟩
  have hlength : (Msgpack.packShort (eventEntry bareEvent)).length = 12 := by decide +kernel
  have hle := (isOk_parseFrame_events (fun event hevent => (hpackb event hevent).2) rfl _).mp
    (isOk_iff.mpr ⟨_, h.packed _ (.inl rfl)⟩)
  rw [length_eventBlob_replicate, hlength, maxBuffer] at hle
  omega

end C2Engine
