import C2Engine.Machine.Keyed
import C2Engine.Python.Codec
import C2Engine.Python.Prog

/-!
# The session documents of the sensor

`plugins/stingar.py`: the plugin gathers the events of every session in a document of its own and
emits the document when the session closes. All of Cowrie's sessions go through the one `write`, in
whatever order their events come; an event that cannot be handled raises, and the core hands the
next one on all the same.

The model below is `write` on the dictionary of the open sessions. Over it stands the machine with a
cell for each session, whose runs restrict to the events of one session.

## Main definitions

* `Entry`, `Disk`, `Output`: an event, what is on the disk, and the configured plugin.
* `SessionMeta`: the document of an open session.
* `Output.write`, `Output.feed`: one event, and a run of them.
* `Output.machine`: the machine with a cell for each session.
* `SessionMeta.gathered`, `SessionMeta.closed`: the document of a session, by its events.
* `SessionMeta.Gathers`: a document holds what events brought.
* `since`, `Open`: the events of a session from its latest connect on, and whether it is open.
* `Output.SessionsApart`: runs whose sessions are kept apart.

## Main results

* `Output.run_write`: `write` refines the machine.
* `Output.tracks_feed`: the document of an open session is that of its events, and there is none of
  another session.
* `Output.sessions_apart`: the sessions do not mix.
-/

namespace C2Engine.Sensor

open Python Machine

/-! ### Events and the disk -/

/-- An event as the core of Cowrie hands it to the plugins: the session it belongs to, if any, and
its other fields. -/
structure Entry where
  session : Option PyStr
  fields : Dict

namespace Entry

/-- `entry.get(name, default)`. -/
def getD (e : Entry) (name : String) (default : Obj) : Obj :=
  (e.fields.get (key name)).getD default

/-- `entry.get(name)`. -/
def get (e : Entry) (name : String) : Obj := e.getD name .none

/-- `entry[name]`. -/
def item (e : Entry) (name : String) : Except PyExc Obj :=
  match e.fields.get (key name) with
  | some v => .ok v
  | none => .error .keyError

/-- The fields of these names are there. -/
def Has (e : Entry) (names : List String) : Prop := ∀ name ∈ names, (e.item name).isOk

instance (e : Entry) (names : List String) : Decidable (e.Has names) :=
  inferInstanceAs (Decidable (∀ name ∈ names, (e.item name).isOk))

end Entry

/-- What reading a file gives: its bytes, an `OSError`, or another exception. -/
inductive FileRead where
  | content (data : Bytes)
  | osError
  | raised (e : PyExc)

/-- The files of the sensor, by their path. -/
abbrev Disk := Obj → FileRead

/-- The whole content of a file. -/
def Disk.read (disk : Disk) (path : Obj) : Except PyExc Bytes :=
  match disk path with
  | .content data => .ok data
  | .osError => .error .other
  | .raised e => .error e

/-! ### The documents -/

/-- `file_data`, with the bytes inlined at the close of the session. -/
structure FileData where
  url : Obj
  outfile : Obj
  shasum : Obj
  action : PyStr
  status : PyStr
  resolvedIp : Obj
  contentB64 : Option PyStr := none

/-- The file in the document. -/
def FileData.toObj (f : FileData) : Obj :=
  .map ([(key "url", f.url), (key "outfile", f.outfile), (key "shasum", f.shasum),
    (key "action", .str f.action), (key "status", .str f.status),
    (key "resolved_ip", f.resolvedIp)] ++
    (f.contentB64.map fun text => (key "content_b64", Obj.str text)).toList)

/-- A document of `self.meta`. -/
structure SessionMeta where
  protocol : Obj
  startTime : Obj
  endTime : Obj := .str []
  srcIp : Obj
  srcPort : Obj
  dstIp : Obj
  dstPort : Obj
  session : Option PyStr
  credentials : List Obj := []
  commands : List Obj := []
  unknownCommands : List Obj := []
  urls : List Obj := []
  files : List FileData := []
  version : Obj := .none
  ttylog : Obj := .none
  arch : Obj := .none
  clientHeight : Obj := .none
  clientWidth : Obj := .none
  keyFingerprint : Obj := .none
  kex : Obj := .none

/-- `CONTENT_INLINE_MAX`, the bound of `inline_max_bytes` where none is configured. -/
def contentInlineMax : ℕ := 5 * 1024 * 1024

/-- The configured plugin; it is started once it has its sender. -/
structure Output where
  identifier : PyStr
  ipAddr : PyStr
  hostname : PyStr
  asn : PyStr
  tags : Dict
  inlineBytes : Bool
  inlineMax : ℤ
  started : Bool

/-- The document as it is emitted. -/
def SessionMeta.toDict (out : Output) (m : SessionMeta) : Dict :=
  [(key "app", .str (str "cowrie")),
   (key "sensor", .map [(key "uuid", .str out.identifier), (key "hostname", .str out.hostname),
      (key "tags", .map out.tags), (key "asn", .str out.asn)]),
   (key "protocol", m.protocol), (key "start_time", m.startTime), (key "end_time", m.endTime),
   (key "src_ip", m.srcIp), (key "src_port", m.srcPort), (key "dst_ip", m.dstIp),
   (key "dst_port", m.dstPort),
   (key "hp_data", .map [
      (key "con_type", .str (str "accept")), (key "transport", .str (str "tcp")),
      (key "session", .ofOption .str m.session), (key "credentials", .list m.credentials),
      (key "commands", .list m.commands), (key "unknown_commands", .list m.unknownCommands),
      (key "urls", .list m.urls), (key "files", .list (m.files.map FileData.toObj)),
      (key "uploads", .list []), (key "version", m.version), (key "ttylog", m.ttylog),
      (key "arch", m.arch), (key "client_height", m.clientHeight),
      (key "client_width", m.clientWidth), (key "key_fingerprint", m.keyFingerprint),
      (key "kex", m.kex)])]

/-! ### The events -/

/-- `cowrie.session.connect`. -/
def connectId : PyStr := str "cowrie.session.connect"

/-- `cowrie.session.closed`. -/
def closedId : PyStr := str "cowrie.session.closed"

/-- The event ids of files. -/
def fileIds : List PyStr :=
  [str "cowrie.session.file_download", str "cowrie.session.file_download.failed",
   str "cowrie.session.file_upload"]

namespace Entry

/-- The credentials of a login. -/
def credential (e : Entry) (success : Bool) : Except PyExc Obj := do
  let u ← e.item "username"
  let p ← e.item "password"
  return .map [(key "username", u), (key "password", p), (key "success", .bool success)]

/-- `file_data` of a file event. -/
def fileData (e : Entry) (eventid : PyStr) : FileData where
  url := e.getD "url" (.str [])
  outfile := e.getD "outfile" (.str [])
  shasum := e.getD "shasum" (.str [])
  action := if PyStr.hasSub eventid (str "download") then str "download" else str "upload"
  status := if (str ".failed").isSuffixOf eventid then str "failed" else str "successful"
  resolvedIp := e.getD "resolved_ip" (.str [])

/-- `kex` of a key exchange. -/
def kex (e : Entry) : Obj :=
  .map [(key "hassh", e.get "hassh"), (key "hassh_algorithms", e.get "hasshAlgorithms"),
    (key "kex_algorithms", e.get "kexAlgs"), (key "key_algorithms", e.get "keyAlgs"),
    (key "enc_cs", e.get "encCS"), (key "mac_cs", e.get "macCS"), (key "comp_cs", e.get "compCS"),
    (key "lang_cs", e.get "langCS")]

end Entry

namespace Output

variable (out : Output) (disk : Disk)

/-- The document of a session that connects. -/
def newMeta (e : Entry) : Except PyExc SessionMeta := do
  let protocol ← e.item "protocol"
  let startTime ← e.item "timestamp"
  let srcIp ← e.item "src_ip"
  let srcPort ← e.item "src_port"
  let dstIp ← if out.ipAddr.isEmpty then e.item "dst_ip" else pure (.str out.ipAddr)
  let dstPort ← e.item "dst_port"
  return { protocol, startTime, srcIp, srcPort, dstIp, dstPort, session := e.session }

/-- What any other event than a connect or a close writes into the document of its session. -/
def record (disk : Disk) (eventid : PyStr) (e : Entry) (m : SessionMeta) :
    Except PyExc SessionMeta :=
  if eventid = str "cowrie.login.success" then do
    let c ← e.credential true
    return { m with credentials := m.credentials ++ [c] }
  else if eventid = str "cowrie.login.failed" then do
    let c ← e.credential false
    return { m with credentials := m.credentials ++ [c] }
  else if eventid = str "cowrie.command.input" then do
    let input ← e.item "input"
    return { m with commands := m.commands ++ [input] }
  else if eventid = str "cowrie.command.failed" then do
    let input ← e.item "input"
    return { m with unknownCommands := m.unknownCommands ++ [input] }
  else if fileIds.elem eventid then
    let f := e.fileData eventid
    let urls := if f.url.truthy then m.urls ++ [f.url] else m.urls
    return { m with urls := urls, files := m.files ++ [f] }
  else if eventid = str "cowrie.session.params" then return { m with arch := e.get "arch" }
  else if eventid = str "cowrie.client.size" then
    return { m with clientWidth := e.get "width", clientHeight := e.get "height" }
  else if eventid = str "cowrie.client.fingerprint" then
    return { m with keyFingerprint := e.get "fingerprint" }
  else if eventid = str "cowrie.client.kex" then return { m with kex := e.kex }
  else if eventid = str "cowrie.client.version" then return { m with version := e.get "version" }
  else if eventid = str "cowrie.log.closed" then
    let path := e.get "ttylog"
    if path.truthy then do
      let ttylog ← disk.read path
      return { m with ttylog := .str (hexText ttylog) }
    else return m
  else return m

/-- One round of `_inline_download_bytes`. -/
def inlineFile (f : FileData) : Except PyExc FileData :=
  if f.action ≠ str "download" || f.status ≠ str "successful" then return f
  else if !f.outfile.truthy then return f
  else match disk f.outfile with
    | .osError => return f
    | .raised e => .error e
    | .content data =>
      if out.inlineMax < data.length then return f
      else return { f with contentB64 := some (b64encode data) }

/-- `_inline_download_bytes`. -/
def inlineDownloadBytes (files : List FileData) : Except PyExc (List FileData) :=
  files.mapM (out.inlineFile disk)

/-- The document of a session that closes. -/
def closeMeta (e : Entry) (m : SessionMeta) : Except PyExc SessionMeta := do
  let endTime ← e.item "timestamp"
  let files ← if out.inlineBytes then out.inlineDownloadBytes disk m.files else pure m.files
  return { m with endTime, files }

/-- `COWRIE_TOPIC`. -/
def cowrieTopic : PyStr := str "enrichable.cowrie"

/-- `self.meta`, and what was handed to the sender. -/
structure State where
  sessions : Option PyStr → Option SessionMeta := fun _ => none
  emitted : List (PyStr × Dict) := []

/-- `self.meta[session] = m`, and with `none` `self.meta.pop(session, None)`. -/
def assign (session : Option PyStr) (m : Option SessionMeta) : Prog State Unit :=
  Prog.modify fun s => { s with sessions := Function.update s.sessions session m }

/-- `write`. -/
def write (e : Entry) : Prog State Unit := do
  let s ← Prog.get
  match ← Prog.ofExcept (e.item "eventid") with
  | .str eventid =>
    if (e.session.isNone || (s.sessions e.session).isNone) && eventid ≠ connectId then pure ()
    else if eventid = connectId then do
      let m ← Prog.ofExcept (out.newMeta e)
      assign e.session (some m)
    else match s.sessions e.session with
      | some m =>
        if eventid = closedId then do
          assign e.session none
          if out.started then do
            let m ← Prog.ofExcept (out.closeMeta disk e m)
            Prog.modify fun s => { s with
              emitted := s.emitted ++ [(cowrieTopic, m.toDict out)] }
          else pure ()
        else do
          let m ← Prog.ofExcept (record disk eventid e m)
          assign e.session (some m)
      -- an unknown session was left above
      | none => pure ()
  | _ => pure ()

/-- A run: every event is handed to `write`, whether the one before it raised or not. -/
def feed (s : State) (es : List Entry) : State :=
  es.foldl (fun s e => ((out.write disk e).run s).2) s

end Output

/-! ### The machine of the sessions -/

namespace Entry

/-- The event id, where it is a text. -/
def eventid? (e : Entry) : Option PyStr := (e.fields.get (key "eventid")).bind Obj.asStr?

/-- A connect. -/
def isConnect (e : Entry) : Bool := e.eventid? == some connectId

/-- A close. -/
def isClose (e : Entry) : Bool := e.eventid? == some closedId

end Entry

namespace Output

variable (out : Output) (disk : Disk)

/-- The document of a session behind an event that is no connect and no close. -/
def recorded (disk : Disk) (eventid : PyStr) (e : Entry) (m : SessionMeta) : SessionMeta :=
  match record disk eventid e m with
  | .ok m' => m'
  | .error _ => m

/-- What is emitted for a document at the close of its session. -/
def closing (e : Entry) (m : SessionMeta) : List (PyStr × Dict) :=
  if out.started then
    match out.closeMeta disk e m with
    | .ok m' => [(cowrieTopic, m'.toDict out)]
    | .error _ => []
  else []

/-- What an event makes of the cell of its session, the document if the session is open, and what
it emits. Events without a session never find one. -/
def cell (e : Entry) (c : Option SessionMeta) : Option SessionMeta × List (PyStr × Dict) :=
  match e.eventid? with
  | none => (c, [])
  | some eventid =>
    if eventid = connectId then
      match out.newMeta e with
      | .ok m => (some m, [])
      | .error _ => (c, [])
    else match e.session, c with
      | some _, some m =>
        if eventid = closedId then (none, out.closing disk e m)
        else (some (recorded disk eventid e m), [])
      | _, _ => (c, [])

/-- The machine with a cell for each session. -/
def machine : Keyed (Option PyStr) Entry (Option SessionMeta) (PyStr × Dict) where
  key := Entry.session
  step := out.cell disk

/-- What the machine makes of a state, by what an event makes of its cell. -/
theorem next_of_cell {e : Entry} {s : State} (c : Option SessionMeta) (docs : List (PyStr × Dict))
    (h : out.cell disk e (s.sessions e.session) = (c, docs)) :
    ({ sessions := (out.machine disk).next s.sessions e
       emitted := s.emitted ++ (out.cell disk e (s.sessions e.session)).2 } : State) =
      ⟨Function.update s.sessions e.session c, s.emitted ++ docs⟩ := by
  change State.mk (Function.update s.sessions e.session
    (out.cell disk e (s.sessions e.session)).1) _ = _
  rw [h]

/-- An event that leaves its cell as it is leaves the state. -/
theorem next_of_cell_unchanged {e : Entry} {s : State}
    (h : out.cell disk e (s.sessions e.session) = (s.sessions e.session, [])) :
    ({ sessions := (out.machine disk).next s.sessions e
       emitted := s.emitted ++ (out.cell disk e (s.sessions e.session)).2 } : State) = s := by
  rw [out.next_of_cell disk _ _ h, Function.update_eq_self, List.append_nil]

/-- `write` of an event whose session is open. -/
theorem run_write_open {e : Entry} {s : State} {m : SessionMeta} {id eventid : PyStr}
    (hid : e.item "eventid" = .ok (.str eventid)) (hsession : e.session = some id)
    (hopen : s.sessions e.session = some m) (hconnect : eventid ≠ connectId) :
    ((out.write disk e).run s).2 =
      if eventid = closedId then
        ⟨Function.update s.sessions e.session none, s.emitted ++ out.closing disk e m⟩
      else ⟨Function.update s.sessions e.session
        (some (recorded disk eventid e m)), s.emitted⟩ := by
  have hguard : ¬ ((e.session.isNone || (s.sessions e.session).isNone) && eventid ≠ connectId) := by
    rw [hopen, hsession]
    simp
  unfold write
  simp only [Prog.run_bind, Prog.run_get, Prog.run_ofExcept, hid]
  rw [if_neg hguard, if_neg hconnect]
  simp only [hopen]
  split_ifs with hclosed hstarted
  · simp only [Prog.run_bind, assign, Prog.run_modify, Prog.run_ofExcept, closing, hstarted,
      if_true]
    cases out.closeMeta disk e m with
    | ok m' => rfl
    | error err => simp
  · simp [Prog.run_bind, assign, closing, hstarted]
  · simp only [Prog.run_bind, assign, Prog.run_ofExcept, recorded]
    cases record disk eventid e m with
    | ok m' => rfl
    | error err => simp [← hopen]

/-- **`write` refines the machine**: it sets the cell of its session and hands over what the cell
puts out. -/
theorem run_write (e : Entry) (s : State) : ((out.write disk e).run s).2 =
    { sessions := (out.machine disk).next s.sessions e
      emitted := s.emitted ++ (out.cell disk e (s.sessions e.session)).2 } := by
  cases hid : e.item "eventid" with
  | error err =>
    have hcell : e.eventid? = none := by
      rw [Entry.item] at hid
      rw [Entry.eventid?]
      cases hget : e.fields.get (key "eventid") with
      | none => rfl
      | some v => rw [hget] at hid; cases hid
    rw [out.next_of_cell_unchanged disk (by rw [cell, hcell])]
    unfold write
    rw [hid]
    rfl
  | ok v =>
    have hget : e.fields.get (key "eventid") = some v := by
      rw [Entry.item] at hid
      cases hget : e.fields.get (key "eventid") with
      | none => rw [hget] at hid; cases hid
      | some w => rw [hget] at hid; rw [Except.ok.inj hid]
    cases v with
    | str eventid =>
      have hcell : e.eventid? = some eventid := by rw [Entry.eventid?, hget]; rfl
      by_cases hconnect : eventid = connectId
      · have hrun : ((out.write disk e).run s).2 = match out.newMeta e with
            | .ok m => ⟨Function.update s.sessions e.session (some m), s.emitted⟩
            | .error _ => s := by
          unfold write
          simp only [Prog.run_bind, Prog.run_get, Prog.run_ofExcept, hid, hconnect, ne_eq,
            not_true_eq_false, decide_false, Bool.and_false, Bool.false_eq_true, if_false, if_true]
          cases out.newMeta e <;> rfl
        rw [hrun]
        cases hnew : out.newMeta e with
        | ok m =>
          rw [out.next_of_cell disk (some m) [] (by simp [cell, hcell, hconnect, hnew]),
            List.append_nil]
        | error err =>
          rw [out.next_of_cell_unchanged disk (by simp [cell, hcell, hconnect, hnew])]
      · rcases Option.eq_none_or_eq_some e.session with hsession | ⟨id, hsession⟩
        · rw [out.next_of_cell_unchanged disk (by simp [cell, hcell, hconnect, hsession])]
          unfold write
          simp [Prog.run_bind, hid, hsession, hconnect]
        rcases Option.eq_none_or_eq_some (s.sessions e.session) with hopen | ⟨m, hopen⟩
        · rw [out.next_of_cell_unchanged disk (by simp [cell, hcell, hconnect, hopen])]
          unfold write
          simp [Prog.run_bind, hid, hconnect, hopen]
        rw [out.run_write_open disk hid hsession hopen hconnect]
        split_ifs with hclosed
        · rw [out.next_of_cell disk none (out.closing disk e m)
            (by rw [cell, hcell, hopen, hsession]; simp only [if_neg hconnect, if_pos hclosed])]
        · rw [out.next_of_cell disk (some (recorded disk eventid e m)) []
            (by rw [cell, hcell, hopen, hsession]; simp [hconnect, hclosed]), List.append_nil]
    | _ =>
      rw [out.next_of_cell_unchanged disk (by simp [cell, Entry.eventid?, hget, Obj.asStr?])]
      unfold write
      rw [hid]
      rfl

/-- A run is one of the machine. -/
theorem sessions_feed (es : List Entry) :
    (out.feed disk {} es).sessions = (out.machine disk).run (fun _ => none) es := by
  induction es using List.reverseRecOn with
  | nil => rfl
  | append_singleton es e ih =>
    rw [feed, List.foldl_append, Keyed.run_concat, ← ih]
    exact congrArg State.sessions (out.run_write disk e _)

/-- What an event emits behind a run. -/
def emittedBy (es : List Entry) (e : Entry) : List (PyStr × Dict) :=
  (out.feed disk {} (es ++ [e])).emitted.drop (out.feed disk {} es).emitted.length

/-- What the cell of its session puts out comes behind what was emitted. -/
theorem emitted_feed (es : List Entry) (e : Entry) : (out.feed disk {} (es ++ [e])).emitted =
    (out.feed disk {} es).emitted ++
      (out.cell disk e ((out.feed disk {} es).sessions e.session)).2 := by
  rw [feed, List.foldl_append]
  exact congrArg State.emitted (out.run_write disk e _)

theorem emittedBy_eq (es : List Entry) (e : Entry) : out.emittedBy disk es e =
    (out.cell disk e ((out.feed disk {} es).sessions e.session)).2 := by
  rw [emittedBy, emitted_feed, List.drop_left]

/-- What an event emits is what the machine puts out. -/
theorem emittedBy_eq_emits (es : List Entry) (e : Entry) :
    out.emittedBy disk es e = (out.machine disk).emits (fun _ => none) es e := by
  rw [emittedBy_eq, sessions_feed]
  rfl

end Output

/-! ### What the events bring -/

/-- What an event brings for the lists of the document. -/
structure Brought where
  credentials : List Obj := []
  commands : List Obj := []
  unknownCommands : List Obj := []
  files : List FileData := []

/-- What an event of this id brings; nothing if it lacks what it should have. -/
def Entry.broughtBy (eventid : PyStr) (e : Entry) : Brought :=
  if eventid = str "cowrie.login.success" then
    { credentials := (e.credential true).toOption.toList }
  else if eventid = str "cowrie.login.failed" then
    { credentials := (e.credential false).toOption.toList }
  else if eventid = str "cowrie.command.input" then
    { commands := (e.item "input").toOption.toList }
  else if eventid = str "cowrie.command.failed" then
    { unknownCommands := (e.item "input").toOption.toList }
  else if fileIds.elem eventid then { files := [e.fileData eventid] }
  else {}

/-- What an event brings. -/
def Entry.brings (e : Entry) : Brought :=
  match e.eventid? with
  | some eventid => e.broughtBy eventid
  | none => {}

/-- What an event sets of the other fields of the document. -/
structure Settings where
  version : Option Obj := none
  ttylog : Option Obj := none
  arch : Option Obj := none
  clientHeight : Option Obj := none
  clientWidth : Option Obj := none
  keyFingerprint : Option Obj := none
  kex : Option Obj := none

/-- What an event of this id sets; the log of the terminal if it can be read. -/
def Entry.setBy (disk : Disk) (eventid : PyStr) (e : Entry) : Settings :=
  if eventid = str "cowrie.session.params" then { arch := some (e.get "arch") }
  else if eventid = str "cowrie.client.size" then
    { clientWidth := some (e.get "width"), clientHeight := some (e.get "height") }
  else if eventid = str "cowrie.client.fingerprint" then
    { keyFingerprint := some (e.get "fingerprint") }
  else if eventid = str "cowrie.client.kex" then { kex := some e.kex }
  else if eventid = str "cowrie.client.version" then { version := some (e.get "version") }
  else if eventid = str "cowrie.log.closed" ∧ (e.get "ttylog").truthy then
    { ttylog := (disk.read (e.get "ttylog")).toOption.map fun data => .str (hexText data) }
  else {}

/-- What an event sets. -/
def Entry.sets (disk : Disk) (e : Entry) : Settings :=
  match e.eventid? with
  | some eventid => e.setBy disk eventid
  | none => {}

/-- What the latest event that sets a field sets, or `None`. -/
def latest (disk : Disk) (field : Settings → Option Obj) (es : List Entry) : Obj :=
  (es.filterMap fun e => field (e.sets disk)).getLast?.getD .none

theorem latest_concat (disk : Disk) (field : Settings → Option Obj) (es : List Entry) (e : Entry) :
    latest disk field (es ++ [e]) = (field (e.sets disk)).getD (latest disk field es) := by
  rw [latest, latest, List.filterMap_append, List.filterMap_cons]
  cases field (e.sets disk) with
  | none => rw [List.filterMap_nil, List.append_nil, Option.getD_none]
  | some v => rw [List.filterMap_nil, List.getLast?_concat, Option.getD_some, Option.getD_some]

/-- **The document of an open session**, by its connect and the events behind it. -/
def SessionMeta.gathered (out : Output) (disk : Disk) (connect : Entry) (es : List Entry) :
    SessionMeta where
  protocol := connect.get "protocol"
  startTime := connect.get "timestamp"
  srcIp := connect.get "src_ip"
  srcPort := connect.get "src_port"
  dstIp := if out.ipAddr.isEmpty then connect.get "dst_ip" else .str out.ipAddr
  dstPort := connect.get "dst_port"
  session := connect.session
  credentials := es.flatMap fun e => e.brings.credentials
  commands := es.flatMap fun e => e.brings.commands
  unknownCommands := es.flatMap fun e => e.brings.unknownCommands
  urls := es.flatMap fun e => (e.brings.files.map FileData.url).filter Obj.truthy
  files := es.flatMap fun e => e.brings.files
  version := latest disk Settings.version es
  ttylog := latest disk Settings.ttylog es
  arch := latest disk Settings.arch es
  clientHeight := latest disk Settings.clientHeight es
  clientWidth := latest disk Settings.clientWidth es
  keyFingerprint := latest disk Settings.keyFingerprint es
  kex := latest disk Settings.kex es

/-- The bytes the plugin inlines of a file. -/
def Output.inlined? (out : Output) (disk : Disk) (g : FileData) : Option Bytes :=
  if g.action = str "download" ∧ g.status = str "successful" ∧ g.outfile.truthy then
    match disk g.outfile with
    | .content data => if (data.length : ℤ) ≤ out.inlineMax then some data else none
    | _ => none
  else none

/-- A file with the bytes that are inlined. -/
def Output.inlining (out : Output) (disk : Disk) (f : FileData) : FileData :=
  match out.inlined? disk f with
  | some data => { f with contentB64 := some (b64encode data) }
  | none => f

/-- **The document of a session that closes.** -/
def SessionMeta.closed (out : Output) (disk : Disk) (close : Entry) (m : SessionMeta) :
    SessionMeta :=
  { m with
    endTime := close.get "timestamp"
    files := if out.inlineBytes then m.files.map (out.inlining disk) else m.files }

/-- The document with what an event brings and sets. -/
def SessionMeta.taking (m : SessionMeta) (b : Brought) (x : Settings) : SessionMeta :=
  { m with
    credentials := m.credentials ++ b.credentials
    commands := m.commands ++ b.commands
    unknownCommands := m.unknownCommands ++ b.unknownCommands
    urls := m.urls ++ (b.files.map FileData.url).filter Obj.truthy
    files := m.files ++ b.files
    version := x.version.getD m.version
    ttylog := x.ttylog.getD m.ttylog
    arch := x.arch.getD m.arch
    clientHeight := x.clientHeight.getD m.clientHeight
    clientWidth := x.clientWidth.getD m.clientWidth
    keyFingerprint := x.keyFingerprint.getD m.keyFingerprint
    kex := x.kex.getD m.kex }

@[simp] theorem SessionMeta.taking_empty (m : SessionMeta) : m.taking {} {} = m := by
  simp [taking]

/-- One more event. -/
theorem SessionMeta.gathered_concat (out : Output) (disk : Disk) (connect : Entry)
    (es : List Entry) (e : Entry) : gathered out disk connect (es ++ [e]) =
      (gathered out disk connect es).taking e.brings (e.sets disk) := by
  simp only [gathered, taking, latest_concat, List.flatMap_append, List.flatMap_singleton]

/-- The file without its bytes. -/
def FileData.bare (f : FileData) : FileData := { f with contentB64 := none }

/-- The document holds what the events brought, each kind in the order of the events, and the urls
of its files. -/
structure SessionMeta.Gathers (m : SessionMeta) (es : List Entry) : Prop where
  credentials : m.credentials = es.flatMap fun e => e.brings.credentials
  commands : m.commands = es.flatMap fun e => e.brings.commands
  unknownCommands : m.unknownCommands = es.flatMap fun e => e.brings.unknownCommands
  files : m.files.map FileData.bare = es.flatMap fun e => e.brings.files
  urls : m.urls = (m.files.map FileData.url).filter Obj.truthy

/-- The files an event brings come without bytes. -/
theorem Entry.map_bare_brings (e : Entry) :
    e.brings.files.map FileData.bare = e.brings.files := by
  unfold Entry.brings
  cases e.eventid? with
  | none => rfl
  | some eventid =>
    simp only [Entry.broughtBy]
    split_ifs <;> rfl

/-- A document holds what its events brought. -/
theorem SessionMeta.gathers_gathered (out : Output) (disk : Disk) (connect : Entry)
    (es : List Entry) : (gathered out disk connect es).Gathers es where
  credentials := rfl
  commands := rfl
  unknownCommands := rfl
  files := by simp only [gathered, List.map_flatMap, Entry.map_bare_brings]
  urls := by simp only [gathered, List.map_flatMap, List.filter_flatMap]

/-- An event that brings nothing is as good as none. -/
theorem SessionMeta.Gathers.cons {m : SessionMeta} {e : Entry} {es : List Entry}
    (h : m.Gathers es) (he : e.brings = {}) : m.Gathers (e :: es) where
  credentials := by rw [List.flatMap_cons, he, h.credentials, List.nil_append]
  commands := by rw [List.flatMap_cons, he, h.commands, List.nil_append]
  unknownCommands := by rw [List.flatMap_cons, he, h.unknownCommands, List.nil_append]
  files := by rw [List.flatMap_cons, he, h.files, List.nil_append]
  urls := h.urls

/-- A connect brings nothing. -/
theorem Entry.brings_of_isConnect {e : Entry} (h : e.isConnect) : e.brings = {} := by
  rw [Entry.brings, eq_of_beq h]
  rfl

/-- An event that brings something sets nothing. -/
theorem Entry.setBy_eq_empty {eventid : PyStr} (h : eventid = str "cowrie.login.success" ∨
    eventid = str "cowrie.login.failed" ∨ eventid = str "cowrie.command.input" ∨
      eventid = str "cowrie.command.failed" ∨ eventid ∈ fileIds) (disk : Disk) (e : Entry) :
    e.setBy disk eventid = {} := by
  simp only [fileIds, List.mem_cons, List.not_mem_nil, or_false] at h
  rcases h with rfl | rfl | rfl | rfl | rfl | rfl | rfl
  all_goals
    rw [Entry.setBy, if_neg (by decide), if_neg (by decide), if_neg (by decide),
      if_neg (by decide), if_neg (by decide), if_neg (fun h => absurd h.1 (by decide))]

namespace Output

variable (disk : Disk)

/-- **The document takes up what an event brings and sets.** -/
theorem recorded_eq {e : Entry} {eventid : PyStr} (hid : e.eventid? = some eventid)
    (m : SessionMeta) : recorded disk eventid e m = m.taking e.brings (e.sets disk) := by
  have hbrings : e.brings = e.broughtBy eventid := by rw [Entry.brings, hid]
  have hsets : e.sets disk = e.setBy disk eventid := by rw [Entry.sets, hid]
  have hnone := fun h => hsets.trans (Entry.setBy_eq_empty h disk e)
  rw [Entry.broughtBy] at hbrings
  rw [recorded, record]
  by_cases hsuccess : eventid = str "cowrie.login.success"
  · rw [if_pos hsuccess] at hbrings ⊢
    rw [hnone (.inl hsuccess)]
    cases hc : e.credential true <;>
      simp [SessionMeta.taking, hbrings, hc, Except.toOption]
  rw [if_neg hsuccess] at hbrings ⊢
  by_cases hfailed : eventid = str "cowrie.login.failed"
  · rw [if_pos hfailed] at hbrings ⊢
    rw [hnone (.inr (.inl hfailed))]
    cases hc : e.credential false <;>
      simp [SessionMeta.taking, hbrings, hc, Except.toOption]
  rw [if_neg hfailed] at hbrings ⊢
  by_cases hcommand : eventid = str "cowrie.command.input"
  · rw [if_pos hcommand] at hbrings ⊢
    rw [hnone (.inr (.inr (.inl hcommand)))]
    cases hc : e.item "input" <;> simp [SessionMeta.taking, hbrings, hc, Except.toOption]
  rw [if_neg hcommand] at hbrings ⊢
  by_cases hunknown : eventid = str "cowrie.command.failed"
  · rw [if_pos hunknown] at hbrings ⊢
    rw [hnone (.inr (.inr (.inr (.inl hunknown))))]
    cases hc : e.item "input" <;> simp [SessionMeta.taking, hbrings, hc, Except.toOption]
  rw [if_neg hunknown] at hbrings ⊢
  by_cases hfile : fileIds.elem eventid
  · rw [if_pos hfile] at hbrings ⊢
    rw [hnone (.inr (.inr (.inr (.inr (List.elem_iff.mp hfile)))))]
    by_cases hurl : (e.fileData eventid).url.truthy <;>
      simp [SessionMeta.taking, hbrings, hurl, pure, Except.pure]
  rw [if_neg hfile] at hbrings ⊢
  -- the other events bring nothing, and set what they are about
  rw [hbrings, hsets, Entry.setBy]
  by_cases hparams : eventid = str "cowrie.session.params"
  · simp [SessionMeta.taking, hparams, pure, Except.pure]
  rw [if_neg hparams, if_neg hparams]
  by_cases hsize : eventid = str "cowrie.client.size"
  · simp [SessionMeta.taking, hsize, pure, Except.pure]
  rw [if_neg hsize, if_neg hsize]
  by_cases hfingerprint : eventid = str "cowrie.client.fingerprint"
  · simp [SessionMeta.taking, hfingerprint, pure, Except.pure]
  rw [if_neg hfingerprint, if_neg hfingerprint]
  by_cases hkex : eventid = str "cowrie.client.kex"
  · simp [SessionMeta.taking, hkex, pure, Except.pure]
  rw [if_neg hkex, if_neg hkex]
  by_cases hversion : eventid = str "cowrie.client.version"
  · simp [SessionMeta.taking, hversion, pure, Except.pure]
  rw [if_neg hversion, if_neg hversion]
  by_cases hlog : eventid = str "cowrie.log.closed"
  · by_cases hpath : (e.get "ttylog").truthy
    · cases hread : disk.read (e.get "ttylog") <;>
        simp [SessionMeta.taking, hlog, hpath, hread, Except.toOption]
    · simp [hlog, hpath, pure, Except.pure]
  · simp [hlog, pure, Except.pure]

end Output

/-! ### Complete events -/

/-- The fields a connect and a close always come with. -/
structure Entry.Complete (e : Entry) : Prop where
  connect : e.isConnect →
    e.Has ["protocol", "timestamp", "src_ip", "src_port", "dst_ip", "dst_port"]
  close : e.isClose → e.Has ["timestamp"]

instance (e : Entry) : Decidable e.Complete :=
  decidable_of_iff ((e.isConnect →
      e.Has ["protocol", "timestamp", "src_ip", "src_port", "dst_ip", "dst_port"]) ∧
    (e.isClose → e.Has ["timestamp"])) ⟨fun h => ⟨h.1, h.2⟩, fun h => ⟨h.connect, h.close⟩⟩

/-- A field that is there. -/
theorem Entry.item_eq_get {e : Entry} {name : String} (h : (e.item name).isOk) :
    e.item name = .ok (e.get name) := by
  rw [Entry.item] at h ⊢
  rw [Entry.get, Entry.getD]
  cases hget : e.fields.get (key name) with
  | none =>
    rw [hget] at h
    cases h
  | some v => rfl

namespace Output

variable (out : Output) (disk : Disk)

/-- **A complete connect has a document.** -/
theorem newMeta_eq {e : Entry} (h : e.Complete) (hconnect : e.isConnect) :
    out.newMeta e = .ok (.gathered out disk e []) := by
  have hhas := h.connect hconnect
  have hitem : ∀ name ∈ ["protocol", "timestamp", "src_ip", "src_port", "dst_ip", "dst_port"],
      e.item name = .ok (e.get name) := fun name hname => Entry.item_eq_get (hhas name hname)
  rw [newMeta, hitem "protocol" (by decide), hitem "timestamp" (by decide),
    hitem "src_ip" (by decide), hitem "src_port" (by decide), hitem "dst_ip" (by decide),
    hitem "dst_port" (by decide), SessionMeta.gathered]
  cases out.ipAddr.isEmpty <;> rfl

/-- A complete connect sets its cell whatever was in it. -/
theorem resets_of_isConnect {e : Entry} (h : e.Complete) (hconnect : e.isConnect) :
    (out.machine disk).Resets e := by
  have hm := out.newMeta_eq disk h hconnect
  have hid : e.eventid? = some connectId := eq_of_beq hconnect
  intro c c'
  change (out.cell disk e c).1 = (out.cell disk e c').1
  rw [cell, cell, hid]
  simp only [hm, if_true]

/-- A file is inlined or left as it is. -/
theorem inlineFile_eq (hdisk : ∀ path err, disk path ≠ .raised err) (f : FileData) :
    out.inlineFile disk f = .ok (out.inlining disk f) := by
  rw [inlineFile, inlining, inlined?]
  by_cases hkind : f.action = str "download" ∧ f.status = str "successful" ∧ f.outfile.truthy
  · obtain ⟨haction, hstatus, hpath⟩ := hkind
    simp only [haction, hstatus, hpath, ne_eq, not_true_eq_false, decide_false, Bool.or_self,
      Bool.not_true, Bool.false_eq_true, if_false, and_self, if_true]
    cases hread : disk f.outfile with
    | osError => rfl
    | raised err => exact absurd hread (hdisk _ _)
    | content data =>
      by_cases hmax : out.inlineMax < data.length
      · simp only [if_pos hmax, if_neg (not_le.mpr hmax)]
        rfl
      · simp only [if_neg hmax, if_pos (not_lt.mp hmax)]
        rfl
  · rw [if_neg hkind]
    split_ifs with hdownload hpath
    · rfl
    · rfl
    · exact absurd ⟨by_contra fun h => hdownload (by simp [h]),
        by_contra fun h => hdownload (by simp [h]), by simpa using hpath⟩ hkind

theorem bare_inlining (f : FileData) : (out.inlining disk f).bare = f.bare := by
  unfold inlining
  cases out.inlined? disk f <;> rfl

theorem url_inlining (f : FileData) : (out.inlining disk f).url = f.url := by
  unfold inlining
  cases out.inlined? disk f <;> rfl

/-- **A complete close of an open session has a document to emit.** -/
theorem closeMeta_eq {e : Entry} (h : e.Complete) (hclose : e.isClose)
    (hdisk : ∀ path err, disk path ≠ .raised err) (m : SessionMeta) :
    out.closeMeta disk e m = .ok (m.closed out disk e) := by
  have hitem : e.item "timestamp" = .ok (e.get "timestamp") :=
    Entry.item_eq_get (h.close hclose "timestamp" (by decide))
  have hfiles : out.inlineDownloadBytes disk m.files = .ok (m.files.map (out.inlining disk)) :=
    mapM_eq_ok_map fun f _ => out.inlineFile_eq disk hdisk f
  rw [closeMeta, hitem, hfiles, SessionMeta.closed]
  cases out.inlineBytes <;> rfl

/-- The document that is emitted holds what the events brought. -/
theorem gathers_closed {m : SessionMeta} {es : List Entry} (h : m.Gathers es) (e : Entry) :
    (m.closed out disk e).Gathers es := by
  have hfiles : (m.closed out disk e).files.map FileData.bare = m.files.map FileData.bare ∧
      (m.closed out disk e).files.map FileData.url = m.files.map FileData.url := by
    rw [SessionMeta.closed]
    cases out.inlineBytes with
    | false => exact ⟨rfl, rfl⟩
    | true =>
      refine ⟨?_, ?_⟩
      · simp only [if_true, List.map_map, Function.comp_def, bare_inlining]
      · simp only [if_true, List.map_map, Function.comp_def, url_inlining]
  exact ⟨h.credentials, h.commands, h.unknownCommands, hfiles.1.trans h.files,
    hfiles.2 ▸ h.urls⟩

end Output

/-! ### Open sessions -/

/-- The events of a session. -/
def own (s : PyStr) (es : List Entry) : List Entry := es.filter fun e => e.session = some s

/-- The events of a session from its latest connect on. -/
def since (s : PyStr) (es : List Entry) : List Entry := Keyed.since Entry.isConnect (own s es)

/-- A session is open: it has connected, and has not been closed since. -/
def Open (s : PyStr) (es : List Entry) : Prop :=
  ∃ before connect after, own s es = before ++ connect :: after ∧ connect.isConnect ∧
    ∀ e ∈ after, ¬ e.isClose

section Open

variable {s : PyStr} {es : List Entry} {e : Entry}

theorem own_concat (hs : e.session = some s) : own s (es ++ [e]) = own s es ++ [e] := by
  simp [own, hs]

theorem own_concat_of_ne (hs : e.session ≠ some s) : own s (es ++ [e]) = own s es := by
  simp [own, hs]

theorem not_open_nil : ¬ Open s [] := by
  rintro ⟨before, connect, after, heq, -⟩
  simp [own] at heq

theorem open_concat_of_ne (hs : e.session ≠ some s) : Open s (es ++ [e]) ↔ Open s es := by
  rw [Open, own_concat_of_ne hs, Open]

theorem open_concat_of_isConnect (hs : e.session = some s) (hconnect : e.isConnect) :
    Open s (es ++ [e]) :=
  ⟨own s es, e, [], own_concat hs, hconnect, List.forall_mem_nil _⟩

/-- Behind another event than a connect a session is open if it was, and the event is no close. -/
theorem open_concat (hs : e.session = some s) (hconnect : ¬ e.isConnect) :
    Open s (es ++ [e]) ↔ Open s es ∧ ¬ e.isClose := by
  constructor
  · rintro ⟨before, connect, after, heq, hc, hafter⟩
    rw [own_concat hs] at heq
    rcases List.eq_nil_or_concat' after with rfl | ⟨after, last, rfl⟩
    · obtain ⟨-, hlast⟩ := List.append_inj' heq rfl
      exact absurd hc ((List.cons.inj hlast).1 ▸ hconnect)
    · rw [← List.cons_append, ← List.append_assoc] at heq
      obtain ⟨hbefore, hlast⟩ := List.append_inj' heq rfl
      obtain ⟨hrest, hclose⟩ := List.forall_mem_append.mp hafter
      obtain ⟨rfl, -⟩ := List.cons.inj hlast
      exact ⟨⟨before, connect, after, hbefore, hc, hrest⟩, hclose e List.mem_cons_self⟩
  · rintro ⟨⟨before, connect, after, heq, hc, hafter⟩, hclose⟩
    refine ⟨before, connect, after ++ [e], ?_, hc, ?_⟩
    · rw [own_concat hs, heq, List.append_assoc, List.cons_append]
    · exact List.forall_mem_append.mpr ⟨hafter, List.forall_mem_singleton.mpr hclose⟩

end Open

namespace Output

variable (out : Output) (disk : Disk) {s : PyStr} {es : List Entry} {e : Entry}

/-- The cell of a session behind an event of another one. -/
theorem sessions_concat_of_ne (hs : e.session ≠ some s) :
    (out.feed disk {} (es ++ [e])).sessions (some s) = (out.feed disk {} es).sessions (some s) := by
  rw [sessions_feed, sessions_feed, Keyed.run_concat, Keyed.next_ne _ hs]

/-- The cell of a session behind one of its events. -/
theorem sessions_concat (hs : e.session = some s) :
    (out.feed disk {} (es ++ [e])).sessions (some s) =
      (out.cell disk e ((out.feed disk {} es).sessions (some s))).1 := by
  rw [sessions_feed, sessions_feed, Keyed.run_concat, ← hs]
  exact Keyed.next_self _ _ e

theorem cell_of_isConnect {m : SessionMeta} (hconnect : e.isConnect) (hm : out.newMeta e = .ok m)
    (c : Option SessionMeta) : out.cell disk e c = (some m, []) := by
  rw [cell, eq_of_beq hconnect]
  simp only [hm, if_true]

/-- Nothing but a connect does anything to a session that is not open. -/
theorem cell_none (hconnect : ¬ e.isConnect) : out.cell disk e none = (none, []) := by
  rw [cell]
  cases hid : e.eventid? with
  | none => rfl
  | some eventid =>
    have hne : eventid ≠ connectId := by
      rintro rfl
      exact hconnect (beq_iff_eq.mpr hid)
    simp only [if_neg hne]
    cases e.session <;> rfl

theorem cell_of_isClose (hs : e.session = some s) (hclose : e.isClose) (m : SessionMeta) :
    out.cell disk e (some m) = (none, out.closing disk e m) := by
  rw [cell, eq_of_beq hclose, hs]
  simp only [if_neg (by decide : closedId ≠ connectId), if_true]

/-- Any other event leaves a session open, and its document takes up what it brings and sets. -/
theorem cell_of_open (hs : e.session = some s) (hconnect : ¬ e.isConnect) (hclose : ¬ e.isClose)
    (m : SessionMeta) :
    out.cell disk e (some m) = (some (m.taking e.brings (e.sets disk)), []) := by
  rw [cell, hs]
  cases hid : e.eventid? with
  | none => rw [Entry.brings, Entry.sets, hid, SessionMeta.taking_empty]
  | some eventid =>
    have hneConnect : eventid ≠ connectId := by
      rintro rfl
      exact hconnect (beq_iff_eq.mpr hid)
    have hneClose : eventid ≠ closedId := by
      rintro rfl
      exact hclose (beq_iff_eq.mpr hid)
    simp only [if_neg hneConnect, if_neg hneClose, recorded_eq disk hid]

/-- What a run has made of a session: its cell holds a document if it is open, the one of its latest
connect and the events behind it. -/
structure Tracks (s : PyStr) (es : List Entry) (c : Option SessionMeta) : Prop where
  isSome_iff : c.isSome ↔ Open s es
  gathered : ∀ m ∈ c, ∃ connect rest, since s es = connect :: rest ∧ connect.isConnect ∧
    m = .gathered out disk connect rest

/-- An event of the session keeps the cell in step. -/
theorem tracks_cell {c : Option SessionMeta} (hs : e.session = some s) (hcomplete : e.Complete)
    (h : out.Tracks disk s es c) : out.Tracks disk s (es ++ [e]) (out.cell disk e c).1 := by
  have hsince : since s (es ++ [e]) = if e.isConnect then [e] else since s es ++ [e] := by
    rw [since, own_concat hs, Keyed.since_concat]
    rfl
  by_cases hconnect : e.isConnect
  · rw [cell_of_isConnect out disk hconnect (out.newMeta_eq disk hcomplete hconnect)]
    rw [if_pos hconnect] at hsince
    refine ⟨by simp [open_concat_of_isConnect hs hconnect], fun m hm => ?_⟩
    exact ⟨e, [], hsince, hconnect, (Option.mem_some.mp hm).symm⟩
  rw [if_neg hconnect] at hsince
  cases c with
  | none =>
    have hclosed : ¬ Open s es := fun hopen => Bool.false_ne_true (h.isSome_iff.mpr hopen)
    rw [cell_none out disk hconnect]
    exact ⟨by simp [open_concat hs hconnect, hclosed], fun m hm =>
      absurd hm (Option.not_mem_none m)⟩
  | some m =>
    have hopen : Open s es := h.isSome_iff.mp rfl
    by_cases hclose : e.isClose
    · rw [cell_of_isClose out disk hs hclose]
      exact ⟨by simp [open_concat hs hconnect, hclose], fun m hm =>
        absurd hm (Option.not_mem_none m)⟩
    · obtain ⟨connect, rest, hrest, hc, rfl⟩ := h.gathered m rfl
      rw [cell_of_open out disk hs hconnect hclose]
      refine ⟨by simp [open_concat hs hconnect, hclose, hopen], fun m' hm' => ?_⟩
      refine ⟨connect, rest ++ [e], by rw [hsince, hrest, List.cons_append], hc, ?_⟩
      rw [SessionMeta.gathered_concat, ← Option.mem_some.mp hm']

/-- **Every run keeps the cell of every session in step.** -/
theorem tracks_feed (hcomplete : ∀ x ∈ es, x.Complete) :
    out.Tracks disk s es ((out.feed disk {} es).sessions (some s)) := by
  induction es using List.reverseRecOn with
  | nil => exact ⟨by simp [feed, not_open_nil], fun m hm => absurd hm (Option.not_mem_none m)⟩
  | append_singleton es e ih =>
    obtain ⟨hes, he⟩ := List.forall_mem_append.mp hcomplete
    have ih := ih hes
    by_cases hs : e.session = some s
    · rw [sessions_concat out disk hs]
      exact out.tracks_cell disk hs (he e List.mem_cons_self) ih
    · rw [sessions_concat_of_ne out disk hs]
      exact ⟨ih.isSome_iff.trans (open_concat_of_ne hs).symm, by
        rw [since, own_concat_of_ne hs]
        exact ih.gathered⟩

/-- An event behind a run is apart from the other sessions: it emits what it emits behind the events
of its session alone, which is one document if it closes an open session and nothing otherwise; and
it changes nothing if its session is not open. -/
structure EventApart (es : List Entry) (e : Entry) : Prop where
  emitted : (out.feed disk {} (es ++ [e])).emitted =
    (out.feed disk {} es).emitted ++ out.emittedBy disk es e
  apart : ∀ s, e.session = some s → out.emittedBy disk es e = out.emittedBy disk (since s es) e
  document : ∀ s, e.session = some s → e.isClose → Open s es →
    ∃ m : SessionMeta, m.Gathers (since s es) ∧
      out.emittedBy disk es e = [(cowrieTopic, m.toDict out)]
  nothing : (e.isClose → ∀ s, e.session = some s → ¬ Open s es) → out.emittedBy disk es e = []
  unknown : ¬ e.isConnect → (∀ s, e.session = some s → ¬ Open s es) →
    out.feed disk {} (es ++ [e]) = out.feed disk {} es

/-- The events of a run are apart, and no record is left of a session that is not open. -/
structure SessionsApart (es : List Entry) : Prop where
  events : ∀ before e after, es = before ++ e :: after → out.EventApart disk before e
  closed : ∀ s, ¬ Open s es → (out.feed disk {} es).sessions (some s) = none

/-- An event behind the events of its session alone. -/
theorem emittedBy_since (hcomplete : ∀ x ∈ es, x.Complete) (hs : e.session = some s) :
    out.emittedBy disk es e = out.emittedBy disk (since s es) e := by
  rw [emittedBy_eq_emits, emittedBy_eq_emits, since, own, ← hs]
  exact (Keyed.emits_since _
    (fun x hx hconnect => out.resets_of_isConnect disk (hcomplete x hx) hconnect) _).symm

/-- Nothing but a connect does anything where its session is not open. -/
theorem cell_of_not_open (hcomplete : ∀ x ∈ es, x.Complete) (hconnect : ¬ e.isConnect)
    (h : ∀ s, e.session = some s → ¬ Open s es) :
    out.cell disk e ((out.feed disk {} es).sessions e.session) =
      ((out.feed disk {} es).sessions e.session, []) := by
  cases hs : e.session with
  | none =>
    rw [cell, hs]
    cases hid : e.eventid? with
    | none => rfl
    | some eventid =>
      have hne : eventid ≠ connectId := by
        rintro rfl
        exact hconnect (beq_iff_eq.mpr hid)
      simp only [if_neg hne]
  | some s =>
    cases hc : (out.feed disk {} es).sessions (some s) with
    | none => exact out.cell_none disk hconnect
    | some m =>
      have htracks := out.tracks_feed disk hcomplete (s := s)
      exact absurd (htracks.isSome_iff.mp (by rw [hc]; rfl)) (h s hs)

/-- An event that closes nothing emits nothing. -/
theorem emittedBy_eq_nil (hcomplete : ∀ x ∈ es, x.Complete) (he : e.Complete)
    (h : e.isClose → ∀ s, e.session = some s → ¬ Open s es) : out.emittedBy disk es e = [] := by
  rw [emittedBy_eq]
  by_cases hconnect : e.isConnect
  · rw [cell_of_isConnect out disk hconnect (out.newMeta_eq disk he hconnect)]
  by_cases hopen : ∃ s, e.session = some s ∧ Open s es
  · obtain ⟨s, hs, hopen⟩ := hopen
    have htracks := out.tracks_feed disk hcomplete (s := s)
    obtain ⟨m, hm⟩ := Option.isSome_iff_exists.mp (htracks.isSome_iff.mpr hopen)
    rw [hs, hm, cell_of_open out disk hs hconnect fun hclose => h hclose s hs hopen]
  · rw [out.cell_of_not_open disk hcomplete hconnect fun s hs hs' => hopen ⟨s, hs, hs'⟩]

/-- **A close of an open session emits its document**, that of its latest connect, the events behind
it and the close. -/
theorem document_of_close (hstarted : out.started) (hdisk : ∀ path err, disk path ≠ .raised err)
    (hcomplete : ∀ x ∈ es, x.Complete) (he : e.Complete) (hs : e.session = some s)
    (hclose : e.isClose) (hopen : Open s es) : ∃ connect rest, since s es = connect :: rest ∧
      connect.isConnect ∧ out.emittedBy disk es e = [(cowrieTopic,
        ((SessionMeta.gathered out disk connect rest).closed out disk e).toDict out)] := by
  have htracks := out.tracks_feed disk hcomplete (s := s)
  obtain ⟨m, hm⟩ := Option.isSome_iff_exists.mp (htracks.isSome_iff.mpr hopen)
  obtain ⟨connect, rest, hsince, hconnect, rfl⟩ := htracks.gathered m hm
  refine ⟨connect, rest, hsince, hconnect, ?_⟩
  rw [emittedBy_eq, hs, hm, cell_of_isClose out disk hs hclose, closing, if_pos hstarted,
    out.closeMeta_eq disk he hclose hdisk]

/-- The document that is emitted holds what the events brought. -/
theorem exists_document (hstarted : out.started) (hdisk : ∀ path err, disk path ≠ .raised err)
    (hcomplete : ∀ x ∈ es, x.Complete) (he : e.Complete) (hs : e.session = some s)
    (hclose : e.isClose) (hopen : Open s es) : ∃ m : SessionMeta, m.Gathers (since s es) ∧
      out.emittedBy disk es e = [(cowrieTopic, m.toDict out)] := by
  obtain ⟨connect, rest, hsince, hconnect, hemitted⟩ :=
    out.document_of_close disk hstarted hdisk hcomplete he hs hclose hopen
  refine ⟨_, out.gathers_closed disk ?_ e, hemitted⟩
  rw [hsince]
  exact (SessionMeta.gathers_gathered out disk connect rest).cons
    (Entry.brings_of_isConnect hconnect)

/-- An event of a session that is not open changes nothing. -/
theorem feed_concat_of_not_open (hcomplete : ∀ x ∈ es, x.Complete) (hconnect : ¬ e.isConnect)
    (h : ∀ s, e.session = some s → ¬ Open s es) :
    out.feed disk {} (es ++ [e]) = out.feed disk {} es := by
  rw [feed, List.foldl_append]
  exact (out.run_write disk e _).trans
    (out.next_of_cell_unchanged disk (out.cell_of_not_open disk hcomplete hconnect h))

/-- No document of a session is left that is not open. -/
theorem sessions_of_not_open (hcomplete : ∀ x ∈ es, x.Complete) (h : ¬ Open s es) :
    (out.feed disk {} es).sessions (some s) = none :=
  Option.not_isSome_iff_eq_none.mp fun hsome =>
    h ((out.tracks_feed disk hcomplete).isSome_iff.mp hsome)

/-- **The sessions do not mix**: in every run of complete events on a started plugin, whose files
can be read, the sessions are kept apart. -/
theorem sessions_apart (hstarted : out.started) (hdisk : ∀ path err, disk path ≠ .raised err)
    (hcomplete : ∀ x ∈ es, x.Complete) : out.SessionsApart disk es where
  events before e after heq := by
    subst heq
    obtain ⟨hbefore, hrest⟩ := List.forall_mem_append.mp hcomplete
    have he := hrest e List.mem_cons_self
    exact {
      emitted := by rw [emitted_feed, emittedBy_eq]
      apart := fun s hs => out.emittedBy_since disk hbefore hs
      document := fun s hs => out.exists_document disk hstarted hdisk hbefore he hs
      nothing := out.emittedBy_eq_nil disk hbefore he
      unknown := out.feed_concat_of_not_open disk hbefore }
  closed s := out.sessions_of_not_open disk hcomplete

/-- A started plugin on a sensor whose files are empty. -/
def demo : Output where
  identifier := str "0b7c"
  ipAddr := []
  hostname := str "sensor"
  asn := []
  tags := []
  inlineBytes := true
  inlineMax := 100
  started := true

/-- Two sessions at a time, the second of which goes on after its close. -/
def twoSessions : List Entry :=
  let event (id : String) (session : String) (fields : List (String × String)) : Entry :=
    ⟨some (str session), (key "eventid", .str (str id)) :: (key "timestamp", .str (str "12:00")) ::
      fields.map fun f => (key f.1, .str (str f.2))⟩
  let peer := [("protocol", "ssh"), ("src_ip", "192.0.2.7"), ("src_port", "4711"),
    ("dst_ip", "192.0.2.1"), ("dst_port", "22")]
  [event "cowrie.session.connect" "a1" peer,
   event "cowrie.session.connect" "b2" peer,
   event "cowrie.command.input" "b2" [("input", "uname")],
   event "cowrie.command.input" "a1" [("input", "wget http://192.0.2.9/x")],
   event "cowrie.session.closed" "b2" [],
   event "cowrie.command.input" "b2" [("input", "late")],
   event "cowrie.session.file_download" "a1"
    [("url", "http://192.0.2.9/x"), ("outfile", "downloads/x")],
   event "cowrie.session.closed" "a1" []]

theorem sessions_apart_twoSessions :
    (demo.feed (fun _ => .content []) {} twoSessions).emitted.length = 2 ∧
      demo.SessionsApart (fun _ => .content []) twoSessions :=
  ⟨by decide +kernel,
    sessions_apart demo _ rfl (fun _ _ h => FileRead.noConfusion h) (by decide +kernel)⟩

end Output

end C2Engine.Sensor
