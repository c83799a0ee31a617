import C2Engine.Ingest.Carriers
import C2Engine.Ingest.Delivery

/-!
# The bytes of a connection

`_ForwardHandler.handle` of `services/ingest/forward.py` reads its connection in pieces of up to
64 KiB, feeds them to an unpacker and handles the frames as they become complete. Where the pieces
end has nothing to do with where the frames end.

## Main definitions

* `recvSize`: the size of a piece.
* `handleStream`: `handle`, over the pieces that arrive.

## Main results

* `atLeastOnce_handleStream`: no bytes, however cut, make an acknowledgement come too early.
* `run_handleStream`: a connection that breaks off anywhere is handled as the frames that arrived
  whole.
* `run_handleStream_packShort`: a short frame.
-/

namespace C2Engine

open Python Python.Msgpack

/-- The size of `recv`. -/
def recvSize : ℕ := 65536

/-- `_ForwardHandler.handle`, over the pieces that `recv` returns. -/
def handleStream (codecs : Codecs) (handler : RecordHandler) (pieces : List Bytes) :
    Prog Wire Unit :=
  codecs.unpacker.receive (handleFrame codecs handler) maxBuffer [] pieces

variable {codecs : Codecs} {handler : RecordHandler}

/-- The frames of a connection are consumed one after the other. -/
theorem handle_eq_consume : (frames : List (Except PyExc Obj)) →
    handle codecs handler frames = consume (handleFrame codecs handler) frames
  | [] => rfl
  | .error _ :: _ => rfl
  | .ok msg :: frames => by
      rw [handle, consume, handle_eq_consume frames]

/-- What every frame keeps its connection keeps. -/
theorem keeps_handle {I : Wire → Prop} : {frames : List (Except PyExc Obj)} →
    (∀ msg, .ok msg ∈ frames → Prog.Keeps I (dispatch codecs handler msg)) →
      Prog.Keeps I (handle codecs handler frames)
  | [], _ => Prog.Keeps.pure ()
  | .error e :: _, _ => Prog.Keeps.raise e
  | .ok msg :: frames, h => by
      have hframe : Prog.Keeps I (handleFrame codecs handler msg) :=
        ((h msg List.mem_cons_self).bind fun _ => Prog.Keeps.pure true).tryExcept fun _ p hp =>
          Option.some.inj hp ▸ Prog.Keeps.pure false
      refine hframe.bind fun goOn => ?_
      cases goOn with
      | true => exact keeps_handle fun msg' hmem => h msg' (List.mem_cons_of_mem _ hmem)
      | false => exact Prog.Keeps.pure ()

/-- **What every frame keeps** a connection keeps, whatever bytes arrive. -/
theorem keeps_handleStream {I : Wire → Prop}
    (h : ∀ msg, Prog.Keeps I (dispatch codecs handler msg)) (pieces : List Bytes) :
    Prog.Keeps I (handleStream codecs handler pieces) := by
  obtain ⟨all, hall⟩ := codecs.unpacker.exists_items (handleFrame codecs handler) maxBuffer []
    pieces
  intro w hw
  rw [handleStream, hall, ← handle_eq_consume]
  exact keeps_handle (fun msg _ => h msg) w hw

/-- The trace of the frames of a connection. -/
theorem connection_run_handle (rt : Runtime) (geo : Option GeoEnricher) (answers : ℕ → Outcome)
    (frames : List (Except PyExc Obj)) : Connection rt geo codecs
      ((handle codecs (handleRecord rt geo) frames).run ⟨answers, []⟩).2.trace := by
  have hhandle := @connection_handle rt geo codecs frames []
  obtain ⟨evs, htrace, hevs⟩ := hhandle.final (s := ⟨answers, []⟩) rfl
  rw [htrace]
  exact hevs

/-- **At-least-once delivery**, whatever bytes arrive and in whatever pieces. -/
theorem atLeastOnce_handleStream (rt : Runtime) (geo : Option GeoEnricher) (answers : ℕ → Outcome)
    (pieces : List Bytes) :
    AtLeastOnce rt geo codecs
      ((handleStream codecs (handleRecord rt geo) pieces).run ⟨answers, []⟩).2.trace := by
  obtain ⟨all, hall⟩ := codecs.unpacker.exists_items (handleFrame codecs (handleRecord rt geo))
    maxBuffer [] pieces
  rw [handleStream, hall, ← handle_eq_consume]
  have hconn := @connection_run_handle codecs rt geo answers all
  exact ⟨hconn.ack_delivered, hconn.ack_notMem_of_gaveUp⟩

/-- **A connection that breaks off anywhere** is handled as the frames that arrived whole, in
whatever pieces they came; what is left over is a part of the next frame. The buffer is taken to
have room for a piece, whatever part of a frame is there. -/
theorem run_handleStream {enc : Obj → Bytes} {frames : List Obj} {pieces : List Bytes}
    (hread : ∀ msg ∈ frames, ∀ rest, codecs.unpacker.read (enc msg ++ rest) = .value msg rest)
    (hroom : ∀ msg ∈ frames, ∀ p, p <+: enc msg → p ≠ enc msg →
      codecs.unpacker.held p + recvSize ≤ maxBuffer)
    (hpieces : ∀ data ∈ pieces, data ≠ [] ∧ data.length ≤ recvSize)
    (hsent : pieces.flatten <+: frames.flatMap enc) :
    ∃ n rest, n ≤ frames.length ∧ pieces.flatten = (frames.take n).flatMap enc ++ rest ∧
      (rest = [] ∨ ∃ msg, frames[n]? = some msg ∧ rest <+: enc msg ∧ rest ≠ enc msg) ∧
      ∀ w, (handleStream codecs handler pieces).run w =
        (handle codecs handler ((frames.take n).map .ok)).run w := by
  obtain ⟨n, rest, hn, hsplit, -, hitems, hrest⟩ := StreamReader.unpack_of_prefix hread hsent
  refine ⟨n, rest, hn, hsplit, hrest, fun w => ?_⟩
  -- what is left in the buffer is never more than a frame
  have hfits : ∀ p data vs left, p ++ data <+: [] ++ pieces.flatten → data.length ≤ recvSize →
      codecs.unpacker.unpack p = .ok (vs, left) →
      codecs.unpacker.held left + data.length ≤ maxBuffer := by
    intro p data vs left hp hdata hunpack
    have hfed : p <+: frames.flatMap enc :=
      ((List.prefix_append p data).trans (List.nil_append _ ▸ hp)).trans hsent
    obtain ⟨k, left', -, -, hunpack', -, hleft⟩ := StreamReader.unpack_of_prefix hread hfed
    obtain ⟨-, rfl⟩ := Prod.mk.inj (Except.ok.inj (hunpack.symm.trans hunpack'))
    rcases hleft with rfl | ⟨msg, hmsg, hpart, hne⟩
    · have hheld := codecs.unpacker.held_le []
      rw [List.length_nil] at hheld
      unfold recvSize at hdata
      unfold maxBuffer
      omega
    · have := hroom msg (List.mem_of_getElem? hmsg) left hpart hne
      omega
  have hempty : codecs.unpacker.unpack [] = .ok ([], []) :=
    Reader.unpack_of_incomplete codecs.unpacker.read_nil
  rw [handleStream, StreamReader.receive_eq hempty hpieces hfits, List.nil_append, hitems,
    handle_eq_consume]

/-! ### Short frames -/

/-- A short frame that comes in one piece. -/
theorem run_handleStream_packShort {msg : Obj} (hshort : isShort msg)
    (hlength : (packShort msg).length ≤ recvSize) (w : Wire) :
    (handleStream .basic handler [packShort msg]).run w =
      (handle .basic handler [.ok msg]).run w := by
  have hread : Codecs.basic.unpacker.read (packShort msg) = .value msg [] := by
    have hvalue := read_packShort hshort []
    rwa [List.append_nil] at hvalue
  have hpiece : ∀ data ∈ [packShort msg], data ≠ [] ∧ data.length ≤ recvSize :=
    List.forall_mem_singleton.mpr
      ⟨List.ne_nil_of_length_pos (length_packShort_pos hshort), hlength⟩
  have hfits : ∀ p data vs rest, p ++ data <+: [] ++ [packShort msg].flatten →
      data.length ≤ recvSize → Codecs.basic.unpacker.unpack p = .ok (vs, rest) →
      Codecs.basic.unpacker.held rest + data.length ≤ maxBuffer := by
    intro p data vs rest hp hdata hunpack
    have hsent : (p ++ data).length ≤ (packShort msg).length := by
      simpa using hp.length_le
    have hheld := Codecs.basic.unpacker.held_le rest
    have hleft := StreamReader.length_le_of_unpack hunpack
    rw [List.length_append] at hsent
    unfold recvSize at hlength
    unfold maxBuffer
    omega
  rw [handleStream, StreamReader.receive_eq (Reader.unpack_of_incomplete
      Codecs.basic.unpacker.read_nil) hpiece hfits, List.nil_append, List.flatten_singleton,
    StreamReader.items_of_value hread,
    StreamReader.items_of_incomplete Codecs.basic.unpacker.read_nil, handle_eq_consume]

/-- An option with a chunk to be acknowledged. -/
def withChunk (chunk : String) : Option Dict := some [(key "chunk", .str (str chunk))]

/-- The first of the two events in a frame of its own. -/
def firstFrame : Obj :=
  messageFrame (str "stingar.enrichable.cowrie") (withChunk "c1")
    (.int 1, [(key "hp_data", .map [(key "urls", .list [.str (str "http://192.0.2.1/x")])])])

/-- Both events in a packed frame. -/
def secondFrame : Obj :=
  packedFrame (str "stingar.enrichable.cowrie") (withChunk "c2")
    (.bytes (eventBlob packShort twoEvents))

/-- The two frames, one after the other. -/
def twoFrames : List Obj := [firstFrame, secondFrame]

/-- What arrives of them: three pieces, the last of which ends within the blob of the second. -/
def twoPieces : List Bytes :=
  let sent := twoFrames.flatMap packShort
  [sent.take 7, (sent.drop 7).take 40, (sent.drop 47).take 80]

/-- The first of the two frames is handled, and nothing of the second. -/
theorem run_handleStream_two :
    (handleStream .basic (handleRecord .basic none) twoPieces).run ⟨fun _ => .status 201, []⟩ =
      (handle .basic (handleRecord .basic none) ((twoFrames.take 1).map .ok)).run
        ⟨fun _ => .status 201, []⟩ := by
  have hshort : ∀ msg ∈ twoFrames, isShort msg := by decide +kernel
  have hread : ∀ msg ∈ twoFrames, ∀ rest,
      Codecs.basic.unpacker.read (packShort msg ++ rest) = .value msg rest := by
    rw [Codecs.basic_unpacker]
    exact fun msg hmsg => read_packShort (hshort msg hmsg)
  have hlength : ∀ msg ∈ twoFrames, (packShort msg).length ≤ 89 := by decide +kernel
  have hroom : ∀ msg ∈ twoFrames, ∀ p, p <+: packShort msg → p ≠ packShort msg →
      Codecs.basic.unpacker.held p + recvSize ≤ maxBuffer := by
    intro msg hmsg p hp _
    have hheld := (Codecs.basic.unpacker.held_le p).trans (hp.length_le.trans (hlength msg hmsg))
    unfold recvSize maxBuffer
    omega
  have hsent : twoPieces.flatten <+: twoFrames.flatMap packShort :=
    List.isPrefixOf_iff_prefix.mp (by decide +kernel)
  obtain ⟨n, rest, hn, hsplit, hrest, hrun⟩ :=
    @run_handleStream .basic (handleRecord .basic none) packShort twoFrames twoPieces hread hroom
      (by decide +kernel) hsent
  have hsplit := congrArg List.length hsplit
  rw [List.length_append, show twoPieces.flatten.length = 127 by decide +kernel] at hsplit
  have hfirst : n ≠ 0 := by
    rintro rfl
    rw [List.take_zero, List.flatMap_nil, List.length_nil] at hsplit
    rcases hrest with rfl | ⟨msg, hmsg, hpart, -⟩
    · rw [List.length_nil] at hsplit
      omega
    · have hle := hpart.length_le.trans (hlength msg (List.mem_of_getElem? hmsg))
      omega
  have hsecond : n ≠ 2 := by
    rintro rfl
    have hall : ((twoFrames.take 2).flatMap packShort).length = 162 := by decide +kernel
    rw [hall] at hsplit
    omega
  have hlast : twoFrames.length = 2 := rfl
  obtain rfl : n = 1 := by omega
  exact hrun ⟨fun _ => .status 201, []⟩

end C2Engine
