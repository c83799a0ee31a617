import C2Engine.Elastic.Client
import C2Engine.Python.MsgpackShort

/-!
# The forward protocol

`services/ingest/forward.py`: the frames of Fluentd's forward protocol in their carrier modes, and
the handler of a connection, which hands the records of each frame to a record handler and
acknowledges the frame's chunk when every record was handled without raising.

`msgpack` and `gzip` are outside the engine and given by `Codecs`. The engine has one kind of
unpacker, `_unpacker()`, for the bytes of a connection and for the entries of a blob.

## Main definitions

* `Codecs`, `Codecs.unpackAll`: the codecs, and the entries of a blob.
* `normalize`: `_normalize`.
* `parseFrame`: the records and the option of a frame.
* `dispatch`, `handle`: one frame, and a connection.
-/

namespace C2Engine

open Python

/-- The codecs of the wire. -/
structure Codecs where
  /-- `gzip.decompress`. -/
  gunzip : Bytes → Except PyExc Bytes
  /-- What an `Unpacker` with the options of `_unpacker()` reads. -/
  unpacker : Msgpack.StreamReader
  /-- `msgpack.packb`. -/
  packb : Obj → Except PyExc Bytes

/-- `_MAX_BUFFER`. -/
def maxBuffer : ℕ := 256 * 1024 * 1024

/-- `up = _unpacker()`, `up.feed(data)` and `for entry in up`. -/
def Codecs.unpackAll (codecs : Codecs) (data : Bytes) : Except PyExc (List Obj) :=
  codecs.unpacker.unpackWithin maxBuffer data

/-- Codecs for closed examples of short frames without a compressed blob. -/
def Codecs.basic : Codecs where
  gunzip _ := .error .other
  unpacker := .short
  packb _ := .ok []

theorem Codecs.basic_unpacker : Codecs.basic.unpacker = .short := rfl

/-! ### Records -/

/-- `_normalize` of a key. -/
def normalizeKey : Key → Key
  | .str s => .str s
  | .bytes b => .str (utf8DecodeEscape b)

mutual

/-- `_normalize`; an extension value is a tuple of its code and its bytes. -/
def normalize : Obj → Obj
  | .map kvs => .map (Dict.update [] (normalizeItems kvs))
  | .list xs => .list (normalizeList xs)
  | .bytes b => .str (utf8DecodeEscape b)
  | .ext code data => .list [.int code, .str (utf8DecodeEscape data)]
  | v => v

/-- `_normalize` of the elements of a list. -/
def normalizeList : List Obj → List Obj
  | [] => []
  | x :: xs => normalize x :: normalizeList xs

/-- `_normalize` of the items of a dictionary. -/
def normalizeItems : List (Key × Obj) → List (Key × Obj)
  | [] => []
  | kv :: kvs => (normalizeKey kv.1, normalize kv.2) :: normalizeItems kvs

end

/-- `_normalize` of a record. -/
def normalizeRecord (d : Dict) : Dict := Dict.update [] (normalizeItems d)

/-- The records of a list of entries `[time, record]`. -/
def entryRecords (tag : PyStr) (entries : List Obj) : List (PyStr × Dict) :=
  entries.filterMap fun entry => match entry with
    | .list (_ :: .map record :: _) => some (tag, normalizeRecord record)
    | _ => none

/-- `_as_bytes`. -/
def asBytes : Obj → Except PyExc Bytes
  | .bytes b => .ok b
  | .str s => utf8EncodeEscape s
  | _ => .error .attributeError

/-- The option behind the other parts of a frame. -/
def frameOption (rest : List Obj) : Option Dict := rest.head?.bind Obj.asMap?

/-- `option and option.get("compressed") == "gzip"`. -/
def isCompressed (option : Option Dict) : Bool :=
  ((option.bind fun d => d.get (key "compressed")).bind Obj.asStr?) == some (str "gzip")

/-- The records of a packed blob. -/
def packedRecords (codecs : Codecs) (tag : PyStr) (blob : Obj) (option : Option Dict) :
    Except PyExc (List (PyStr × Dict)) := do
  let data ← asBytes blob
  let data ← if isCompressed option then codecs.gunzip data else .ok data
  let entries ← codecs.unpackAll data
  return entryRecords tag entries

/-- The bytes of a blob's entries. -/
def payload (codecs : Codecs) (blob : Obj) (option : Option Dict) : Except PyExc Bytes := do
  let data ← asBytes blob
  if isCompressed option then codecs.gunzip data else .ok data

theorem packedRecords_eq (codecs : Codecs) (tag : PyStr) (blob : Obj) (option : Option Dict) :
    packedRecords codecs tag blob option =
      (payload codecs blob option).bind fun data =>
        (codecs.unpackAll data).map (entryRecords tag) := by
  rw [packedRecords, payload]
  cases asBytes blob with
  | error e => rfl
  | ok data =>
    change (if isCompressed option then codecs.gunzip data >>= _ else _) =
      (if isCompressed option then codecs.gunzip data else .ok data).bind _
    split_ifs
    · cases codecs.gunzip data with
      | error e => rfl
      | ok data => cases codecs.unpackAll data <;> rfl
    · cases codecs.unpackAll data <;> rfl

/-- `parse_frame`: the tagged records of a frame and its option. -/
def parseFrame (codecs : Codecs) (msg : Obj) :
    Except PyExc (List (PyStr × Dict) × Option Dict) :=
  match msg with
  | .list (.str tag :: second :: rest) =>
    match second with
    | .list entries => .ok (entryRecords tag entries, frameOption rest)
    | .bytes _ | .str _ => do
      let records ← packedRecords codecs tag second (frameOption rest)
      return (records, frameOption rest)
    | _ => match rest with
      | .map record :: rest => .ok ([(tag, normalizeRecord record)], frameOption rest)
      | _ => .ok ([], none)
  | _ => .ok ([], none)

/-- The chunk a frame asks to have acknowledged. -/
def frameChunk (option : Option Dict) : Option Obj := option.bind fun d => d.get (key "chunk")

/-! ### The handler of a connection -/

/-- `RecordHandler`. -/
abbrev RecordHandler := PyStr → Dict → Prog Wire Unit

/-- A greeting, which is answered and not parsed. -/
def isPing : Obj → Bool
  | .list (.str s :: _) => s = str "PING"
  | _ => false

/-- `_pong_response`: the tag and the time of a greeting are sent back. -/
def pongResponse (codecs : Codecs) : Obj → Except PyExc Bytes
  | .list ping => codecs.packb (.list [.str (str "PONG"), ping.getD 1 (.str []),
      ping.getD 2 (.int 0), .map []])
  | _ => .error .typeError

/-- Send an acknowledgement. -/
def sendAck (codecs : Codecs) (chunk : Obj) : Prog Wire Unit := do
  let _ ← Prog.ofExcept (codecs.packb (.map [(key "ack", chunk)]))
  emit (.ack chunk)

/-- `_dispatch`. -/
def dispatch (codecs : Codecs) (handler : RecordHandler) (msg : Obj) : Prog Wire Unit := do
  emit (.frame msg)
  if isPing msg then
    let _ ← Prog.ofExcept (pongResponse codecs msg)
    emit .pong
  else
    let (records, option) ← Prog.ofExcept (parseFrame codecs msg)
    Prog.forM records fun record => handler record.1 record.2
    match frameChunk option with
    | some chunk => sendAck codecs chunk
    | none => pure ()

/-- The rule of `_dispatch`, with `R` what holds where the records were handled: the frame is not
read and nothing else happens, it is a ping and answered as one, or its records are handled and then
its chunk is acknowledged if it has one. -/
theorem triple_dispatch {codecs : Codecs} {handler : RecordHandler} {msg : Obj} {t : List Event}
    {R : List (PyStr × Dict) → Wire → Prop} {Q : Unit → Wire → Prop} {E : PyExc → Wire → Prop}
    (hraise : ∀ e w, w.trace = t ++ [.frame msg] → E e w)
    (hping : ∀ w, w.trace = t ++ [.frame msg, .pong] → Q () w)
    (hrecords : ∀ records option, parseFrame codecs msg = .ok (records, option) →
      Prog.Triple (fun w => w.trace = t ++ [.frame msg])
        (Prog.forM records fun record => handler record.1 record.2) (fun _ => R records) E)
    (hquiet : ∀ records option, parseFrame codecs msg = .ok (records, option) →
      frameChunk option = none → ∀ w, R records w → Q () w)
    (hchunk : ∀ records option chunk, parseFrame codecs msg = .ok (records, option) →
      frameChunk option = some chunk → ∀ w, R records w →
        (∀ e, E e w) ∧ ∀ w', w'.trace = w.trace ++ [.ack chunk] → Q () w') :
    Prog.Triple (fun w => w.trace = t) (dispatch codecs handler msg) Q E := by
  unfold dispatch
  refine Prog.Triple.bind (Q := fun _ w => w.trace = t ++ [.frame msg])
    (Prog.Triple.modify fun w hw => by rw [hw]) fun _ => ?_
  split_ifs
  · refine Prog.Triple.bind (Q := fun _ w => w.trace = t ++ [.frame msg])
      (Prog.Triple.ofExcept (fun _ _ _ hw => hw) fun e w _ hw => hraise e w hw) fun _ => ?_
    exact Prog.Triple.modify fun w hw => hping _ (by simp [hw])
  · refine Prog.Triple.bind
      (Q := fun out w => parseFrame codecs msg = .ok out ∧ w.trace = t ++ [.frame msg])
      (Prog.Triple.ofExcept (fun _ _ hx hw => ⟨hx, hw⟩) fun e w _ hw => hraise e w hw) ?_
    rintro ⟨records, option⟩ w ⟨hparse, hw⟩
    refine Prog.Triple.bind (hrecords records option hparse) (fun _ => ?_) w hw
    cases hc : frameChunk option with
    | none => exact Prog.Triple.pure (hquiet records option hparse hc)
    | some chunk =>
      have hack := hchunk records option chunk hparse hc
      refine Prog.Triple.bind (Q := fun _ => R records)
        (Prog.Triple.ofExcept (fun _ _ _ hw => hw) fun e w _ hw => (hack w hw).1 e) fun _ => ?_
      exact Prog.Triple.modify fun w hw => (hack w hw).2 _ rfl

/-- One frame of `handle`: whether the connection goes on. An exception is logged and the
connection closed. -/
def handleFrame (codecs : Codecs) (handler : RecordHandler) (msg : Obj) : Prog Wire Bool :=
  Prog.tryExcept (dispatch codecs handler msg >>= fun _ => pure true) fun _ => some (pure false)

/-- `handle`: the frames of a connection in the order in which they are unpacked. A stream that
cannot be unpacked raises out of the loop. -/
def handle (codecs : Codecs) (handler : RecordHandler) : List (Except PyExc Obj) → Prog Wire Unit
  | [] => pure ()
  | .error e :: _ => Prog.raise e
  | .ok msg :: frames => do
    let goOn ← handleFrame codecs handler msg
    if goOn then handle codecs handler frames else pure ()

end C2Engine
