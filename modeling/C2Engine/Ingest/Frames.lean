import C2Engine.Ingest.Carriers
import C2Engine.Ingest.Server

/-!
# Silent loss

The entries of a frame that do not come out of it as records. An entry that is no pair of a time and
a mapping is passed over; a blob that ends within an entry is read up to that entry; and a blob
under a compression that is not known is read as it stands. A frame of this kind is acknowledged
like any other.

## Main definitions

* `Compression`, `compression`: the compression an option names.
* `eventStream`: the entries of a frame, where they can be read to their end.
* `NoSilentLoss`: a frame gives a record for each of its entries, or no acknowledgement.
* `ReadableFrame`: the frames that do.

## Main results

* `forall₂_entryRecords`: when every entry gives a record.
* `noSilentLoss_iff`: a frame loses nothing in silence exactly if it is readable.
* `not_noSilentLoss_truncated`: a blob cut off in its second entry.
-/

namespace C2Engine

open Python

/-! ### The stream of a frame -/

/-- A compression of a blob. -/
inductive Compression where
  | plain
  | gzip
  | unknown
  deriving DecidableEq

/-- The compression an option names; `text` is none. -/
def compression (option : Option Dict) : Compression :=
  match option.bind fun d => d.get (key "compressed") with
  | none | some .none => .plain
  | some (.str s) =>
    if s = str "gzip" then .gzip else if s = str "text" then .plain else .unknown
  | some _ => .unknown

theorem isCompressed_iff (option : Option Dict) :
    isCompressed option = true ↔ compression option = .gzip := by
  rw [isCompressed, compression]
  cases option.bind fun d => d.get (key "compressed") with
  | none => exact iff_of_false Bool.false_ne_true (by decide)
  | some v =>
    cases v with
    | str s =>
      rw [Option.bind_some, Obj.asStr?, beq_iff_eq, Option.some.injEq]
      dsimp only
      split_ifs with h h'
      · exact iff_of_true h rfl
      · exact iff_of_false h (by decide)
      · exact iff_of_false h (by decide)
    | _ => exact iff_of_false Bool.false_ne_true fun h => by cases h

/-- The bytes a blob holds under a compression. -/
def decompress (codecs : Codecs) : Compression → Bytes → Except PyExc Bytes
  | .plain, data => .ok data
  | .gzip, data => codecs.gunzip data
  | .unknown, _ => .error .valueError

/-- The entries of a blob, where it can be read to its end. -/
def blobStream (codecs : Codecs) (blob : Obj) (option : Option Dict) : Option (List Obj) :=
  match (asBytes blob).bind (decompress codecs (compression option)) with
  | .ok data => match codecs.unpacker.unpack data with
    | .ok (entries, []) => some entries
    | _ => none
  | .error _ => none

/-- The entries of a frame's second element, where they can be read to their end. -/
def eventStream (codecs : Codecs) (second : Obj) (option : Option Dict) : Option (List Obj) :=
  match second with
  | .list entries => some entries
  | blob => blobStream codecs blob option

/-- An entry that is a pair of a time and a mapping; what is behind them has no part in it. -/
def IsEvent (entry : Obj) : Prop := ∃ time record more, entry = .list (time :: .map record :: more)

/-- The record of an entry. -/
def IsRecordOf (tag : PyStr) (entry : Obj) (record : PyStr × Dict) : Prop :=
  ∃ time d more, entry = .list (time :: .map d :: more) ∧ record = (tag, normalizeRecord d)

/-- An element that carries entries: a list, or a blob. -/
def CarriesEntries : Obj → Prop
  | .list _ | .bytes _ | .str _ => True
  | _ => False

/-- **Nothing is lost in silence**: a frame that is parsed gives a record for each entry of its
stream, in their order, and one that is not is not acknowledged. -/
structure NoSilentLoss (codecs : Codecs) (tag : PyStr) (second : Obj) (rest : List Obj) :
    Prop where
  complete : ∀ records option, parseFrame codecs (.list (.str tag :: second :: rest)) =
    .ok (records, option) → ∃ entries, eventStream codecs second option = some entries ∧
      List.Forall₂ (IsRecordOf tag) entries records
  refused : ∀ e, parseFrame codecs (.list (.str tag :: second :: rest)) = .error e →
    ∀ handler answers chunk, Event.ack chunk ∉
      ((dispatch codecs handler (.list (.str tag :: second :: rest))).run ⟨answers, []⟩).2.trace

/-- A blob that, if it is read at all, is read to its end, under a compression that is known, and
holds events only. -/
def ReadableBlob (codecs : Codecs) (blob : Obj) (option : Option Dict) : Prop :=
  ∀ data entries left, payload codecs blob option = .ok data → data.length ≤ maxBuffer →
    codecs.unpacker.unpack data = .ok (entries, left) →
      compression option ≠ .unknown ∧ left = [] ∧ ∀ entry ∈ entries, IsEvent entry

/-- A frame of events: a list of them, or a blob that is read to its end. -/
def ReadableFrame (codecs : Codecs) (second : Obj) (option : Option Dict) : Prop :=
  match second with
  | .list entries => ∀ entry ∈ entries, IsEvent entry
  | blob => ReadableBlob codecs blob option

/-! ### When nothing is lost -/

/-- **Every entry gives a record exactly if every entry is an event.** -/
theorem forall₂_entryRecords (tag : PyStr) (entries : List Obj) :
    List.Forall₂ (IsRecordOf tag) entries (entryRecords tag entries) ↔
      ∀ entry ∈ entries, IsEvent entry := by
  constructor
  · intro h
    generalize entryRecords tag entries = records at h
    induction h with
    | nil => exact fun _ hmem => by cases hmem
    | @cons entry record entries records hrecord _ ih =>
      obtain ⟨time, d, more, rfl, -⟩ := hrecord
      exact List.forall_mem_cons.mpr ⟨⟨time, d, more, rfl⟩, ih⟩
  · intro h
    induction entries with
    | nil => exact .nil
    | cons entry entries ih =>
      obtain ⟨time, d, more, rfl⟩ := h entry List.mem_cons_self
      exact .cons ⟨time, d, more, rfl, rfl⟩ (ih fun e he => h e (List.mem_cons_of_mem _ he))

/-- A frame that is not parsed is not acknowledged. -/
theorem ack_notMem_dispatch {codecs : Codecs} {msg : Obj} {e : PyExc}
    (h : parseFrame codecs msg = .error e) (handler : RecordHandler) (answers : ℕ → Outcome)
    (chunk : Obj) :
    Event.ack chunk ∉ ((dispatch codecs handler msg).run ⟨answers, []⟩).2.trace := by
  have hspec : Prog.Triple (fun w : Wire => w.trace = []) (dispatch codecs handler msg)
      (fun _ w => Event.ack chunk ∉ w.trace) (fun _ w => Event.ack chunk ∉ w.trace) := by
    have hparse : ∀ records option, parseFrame codecs msg ≠ .ok (records, option) := by simp [h]
    refine triple_dispatch (R := fun _ _ => False) ?_ ?_ ?_ ?_ ?_
    · exact fun _ w hw => by simp [hw]
    · exact fun w hw => by simp [hw]
    · exact fun records option hok => absurd hok (hparse records option)
    · exact fun records option hok => absurd hok (hparse records option)
    · exact fun records option _ hok => absurd hok (hparse records option)
  have hrun := hspec ⟨answers, []⟩ rfl
  rcases hr : (dispatch codecs handler msg).run ⟨answers, []⟩ with ⟨e' | u, w⟩ <;>
  · rw [hr] at hrun
    exact hrun

/-- The stream of a blob whose compression is known is what is read of it. -/
theorem decompress_eq_payload {codecs : Codecs} {blob : Obj} {option : Option Dict}
    (h : compression option ≠ .unknown) :
    (asBytes blob).bind (decompress codecs (compression option)) = payload codecs blob option := by
  rw [payload]
  cases asBytes blob with
  | error e => rfl
  | ok data =>
    change decompress codecs (compression option) data =
      if isCompressed option then codecs.gunzip data else .ok data
    by_cases hgzip : compression option = .gzip
    · rw [if_pos ((isCompressed_iff option).mpr hgzip), hgzip]
      rfl
    · rw [if_neg fun hc => hgzip ((isCompressed_iff option).mp hc)]
      cases hc : compression option with
      | plain => rfl
      | gzip => exact absurd hc hgzip
      | unknown => exact absurd hc h

/-- What is unpacked of a blob the unpacker has room for. -/
theorem unpackAll_of_unpack {codecs : Codecs} {data left : Bytes} {entries : List Obj}
    (hfits : data.length ≤ maxBuffer) (h : codecs.unpacker.unpack data = .ok (entries, left)) :
    codecs.unpackAll data = .ok entries := by
  rw [Codecs.unpackAll, Msgpack.Reader.unpackWithin, if_neg (by omega), Msgpack.Reader.unpackAll, h]
  rfl

theorem unpack_of_unpackAll {codecs : Codecs} {data : Bytes} {entries : List Obj}
    (h : codecs.unpackAll data = .ok entries) :
    data.length ≤ maxBuffer ∧ ∃ left, codecs.unpacker.unpack data = .ok (entries, left) := by
  unfold Codecs.unpackAll Msgpack.Reader.unpackWithin at h
  split_ifs at h with hlt
  obtain ⟨⟨entries, left⟩, hunpack, rfl⟩ := map_eq_ok.mp h
  exact ⟨by omega, left, hunpack⟩

/-- A blob gives a record for each of its entries exactly if it is readable. -/
theorem complete_blob_iff {codecs : Codecs} (tag : PyStr) (blob : Obj) (option : Option Dict) :
    (∀ records, packedRecords codecs tag blob option = .ok records →
      ∃ entries, blobStream codecs blob option = some entries ∧
        List.Forall₂ (IsRecordOf tag) entries records) ↔ ReadableBlob codecs blob option := by
  constructor
  · intro h data entries left hpayload hfits hunpack
    have hrecords : packedRecords codecs tag blob option = .ok (entryRecords tag entries) := by
      rw [packedRecords_eq, hpayload]
      change (codecs.unpackAll data).map _ = _
      rw [unpackAll_of_unpack hfits hunpack]
      rfl
    obtain ⟨es, hstream, hforall⟩ := h _ hrecords
    rw [blobStream] at hstream
    have hknown : compression option ≠ .unknown := by
      intro hunknown
      rw [hunknown] at hstream
      cases hbytes : asBytes blob with
      | error e =>
        rw [hbytes] at hstream
        cases hstream
      | ok data =>
        rw [hbytes] at hstream
        cases hstream
    rw [decompress_eq_payload hknown, hpayload] at hstream
    dsimp only at hstream
    rw [hunpack] at hstream
    cases left with
    | nil =>
      obtain rfl := Option.some.inj hstream
      exact ⟨hknown, rfl, (forall₂_entryRecords tag _).mp hforall⟩
    | cons b left => cases hstream
  · intro h records hrecords
    rw [packedRecords_eq] at hrecords
    cases hpayload : payload codecs blob option with
    | error e =>
      rw [hpayload] at hrecords
      cases hrecords
    | ok data =>
      rw [hpayload] at hrecords
      obtain ⟨entries, hentries, rfl⟩ := map_eq_ok.mp hrecords
      obtain ⟨hfits, left, hunpack⟩ := unpack_of_unpackAll hentries
      obtain ⟨hknown, rfl, hevents⟩ := h data entries left hpayload hfits hunpack
      refine ⟨entries, ?_, (forall₂_entryRecords tag entries).mpr hevents⟩
      rw [blobStream, decompress_eq_payload hknown, hpayload]
      dsimp only
      rw [hunpack]

/-- **A frame loses nothing in silence exactly if it is readable.** -/
theorem noSilentLoss_iff {codecs : Codecs} (tag : PyStr) {second : Obj}
    (hsecond : CarriesEntries second) (rest : List Obj) :
    NoSilentLoss codecs tag second rest ↔ ReadableFrame codecs second (frameOption rest) := by
  have hrefused : ∀ e, parseFrame codecs (.list (.str tag :: second :: rest)) = .error e →
      ∀ handler answers chunk, Event.ack chunk ∉
        ((dispatch codecs handler (.list (.str tag :: second :: rest))).run
          ⟨answers, []⟩).2.trace :=
    fun e he handler answers chunk => ack_notMem_dispatch he handler answers chunk
  have hiff : (∀ records option, parseFrame codecs (.list (.str tag :: second :: rest)) =
      .ok (records, option) → ∃ entries, eventStream codecs second option = some entries ∧
        List.Forall₂ (IsRecordOf tag) entries records) ↔
      ReadableFrame codecs second (frameOption rest) := by
    -- a blob is parsed into its records
    have hblob : ∀ blob, ((packedRecords codecs tag blob (frameOption rest) >>= fun records =>
        pure (records, frameOption rest)) = parseFrame codecs (.list (.str tag :: blob :: rest))) →
        ((∀ records option, parseFrame codecs (.list (.str tag :: blob :: rest)) =
          .ok (records, option) → ∃ entries, blobStream codecs blob option = some entries ∧
            List.Forall₂ (IsRecordOf tag) entries records) ↔
          ReadableBlob codecs blob (frameOption rest)) := by
      intro blob hparse
      rw [← complete_blob_iff tag, ← hparse]
      constructor
      · intro h records hrecords
        exact h records (frameOption rest) (by rw [hrecords]; rfl)
      · intro h records option hrecords
        obtain ⟨records', hrecords', hret⟩ := bind_eq_ok.mp hrecords
        simp only [pure, Except.pure, Except.ok.injEq, Prod.mk.injEq] at hret
        obtain ⟨rfl, rfl⟩ := hret
        exact h records' hrecords'
    cases second with
    | list entries =>
      refine Iff.trans ?_ (forall₂_entryRecords tag entries)
      constructor
      · intro h
        obtain ⟨es, hes, hforall⟩ := h _ _ rfl
        obtain rfl := Option.some.inj hes
        exact hforall
      · intro h records option hrecords
        obtain ⟨rfl, -⟩ := Prod.mk.inj (Except.ok.inj hrecords)
        exact ⟨entries, rfl, h⟩
    | bytes data => exact hblob (.bytes data) rfl
    | str s => exact hblob (.str s) rfl
    | _ => cases hsecond
  exact ⟨fun h => hiff.mp h.complete, fun h => ⟨hiff.mpr h, hrefused⟩⟩

/-! ### A truncated blob -/

/-- The option of a chunk. -/
def chunkOption : Dict := [(key "chunk", .str (str "c"))]

/-- A whole blob gives a record for each entry. -/
theorem noSilentLoss_two : NoSilentLoss .short (str "stingar.enrichable.cowrie")
    (.bytes (eventBlob Msgpack.packShort twoEvents)) [.map chunkOption] := by
  have hsecond : CarriesEntries (.bytes (eventBlob Msgpack.packShort twoEvents)) := trivial
  refine (noSilentLoss_iff _ hsecond _).mpr fun data entries left hpayload _ hunpack => ?_
  obtain rfl := Except.ok.inj hpayload
  obtain ⟨rfl, rfl⟩ := Prod.mk.inj (Except.ok.inj hunpack)
  refine ⟨by decide, rfl, fun entry hentry => ?_⟩
  rcases List.mem_cons.mp hentry with rfl | hentry
  · exact ⟨_, _, _, rfl⟩
  · obtain rfl := List.mem_singleton.mp hentry
    exact ⟨_, _, _, rfl⟩

/-- The blob of the two events without its last byte: the first one is taken for all. -/
theorem not_noSilentLoss_truncated :
    ¬ NoSilentLoss .short (str "stingar.enrichable.cowrie")
      (.bytes (eventBlob Msgpack.packShort twoEvents).dropLast) [.map chunkOption] := by
  intro h
  have hparse : parseFrame .short (.list [.str (str "stingar.enrichable.cowrie"),
      .bytes (eventBlob Msgpack.packShort twoEvents).dropLast, .map chunkOption]) =
      .ok (eventRecords (str "stingar.enrichable.cowrie") (twoEvents.take 1),
        some chunkOption) := rfl
  obtain ⟨entries, hstream, -⟩ := h.complete _ _ hparse
  cases hstream

end C2Engine
