import C2Engine.Ingest.JsonSafe
import C2Engine.Model.Session
import C2Engine.Sensor.Stingar
import C2Engine.Sensor.Tags

/-!
# The documents of the sensor as the engine reads them

`plugins/stingar.py` of the honeypot emits a document for each session, and `model/session.py` of
the engine reads it. Neither knows the other: the plugin copies what the events bring, whatever it
is, and the engine refuses a document with a value of another type. The types the events are to come
with are told here for each event, and then every document is accepted, and what the engine reads is
what the events brought.

## Main definitions

* `FieldKind`, `fieldsOf`, `Entry.Typed`: the types of the fields the plugin copies.
* `SessionMeta.Typed`: a document whose values have them.
* `Mirrors`: what the engine reads of a document.

## Main results

* `typed_feed`: every document of a run over typed events is typed.
* `validate_toDict`: a typed document is accepted, as it is.
* `read_of_close`: from the events to what the engine reads.
-/

namespace C2Engine.Sensor

open Python Machine

/-! ### The types of the events -/

/-- What the engine wants of a field that the plugin copies from an event. -/
inductive FieldKind where
  | text
  | optText
  | number
  | time
  deriving DecidableEq

/-- A value is of the kind. -/
def FieldKind.admits (rt : Runtime) : FieldKind → Obj → Bool
  | .text, .str _ => true
  | .optText, .str _ => true
  | .optText, .none => true
  | .number, .int _ => true
  | .number, .none => true
  | .time, .str s => (validateTime rt (.str s)).isSome
  | _, _ => false

/-- The fields the plugin copies from an event: whether it must have them, and their kinds. -/
def fieldsOf (eventid : PyStr) : List (String × Bool × FieldKind) :=
  if eventid = connectId then
    [("protocol", true, .text), ("timestamp", true, .time), ("src_ip", true, .text),
      ("src_port", true, .number), ("dst_ip", true, .text), ("dst_port", true, .number)]
  else if eventid = str "cowrie.login.success" ∨ eventid = str "cowrie.login.failed" then
    [("username", true, .text), ("password", true, .text)]
  else if eventid = str "cowrie.command.input" ∨ eventid = str "cowrie.command.failed" then
    [("input", true, .text)]
  else if fileIds.elem eventid then
    [("url", false, .text), ("outfile", false, .text), ("shasum", false, .text),
      ("resolved_ip", false, .optText)]
  else if eventid = str "cowrie.session.params" then [("arch", false, .optText)]
  else if eventid = str "cowrie.client.size" then
    [("width", false, .number), ("height", false, .number)]
  else if eventid = str "cowrie.client.fingerprint" then [("fingerprint", false, .optText)]
  else if eventid = str "cowrie.client.kex" then [("hassh", false, .optText)]
  else if eventid = str "cowrie.client.version" then [("version", false, .optText)]
  else if eventid = closedId then [("timestamp", true, .time)]
  else []

/-- A field is there if it must be, and of its kind. -/
def Entry.fieldOk (rt : Runtime) (e : Entry) (field : String × Bool × FieldKind) : Bool :=
  match e.fields.get (key field.1) with
  | none => !field.2.1
  | some v => field.2.2.admits rt v

/-- The event has the fields it is to come with. -/
def Entry.Typed (rt : Runtime) (e : Entry) : Prop :=
  ∀ eventid ∈ e.eventid?, (eventid = connectId → e.session.isSome) ∧
    ∀ field ∈ fieldsOf eventid, e.fieldOk rt field

instance (rt : Runtime) (e : Entry) : Decidable (e.Typed rt) := by
  unfold Entry.Typed
  infer_instance

/-! ### Typed documents -/

/-- A file with its texts. -/
structure FileData.Typed (f : FileData) : Prop where
  url : ∃ s, f.url = .str s
  outfile : ∃ s, f.outfile = .str s
  shasum : ∃ s, f.shasum = .str s
  resolvedIp : ∃ o : Option PyStr, f.resolvedIp = .ofOption .str o

/-- A document with the types the engine wants. -/
structure SessionMeta.Typed (rt : Runtime) (m : SessionMeta) : Prop where
  protocol : ∃ s, m.protocol = .str s
  startTime : ∃ s, m.startTime = .str s ∧ (validateTime rt (.str s)).isSome
  endTime : ∃ s, m.endTime = .str s ∧ (validateTime rt (.str s)).isSome
  srcIp : ∃ s, m.srcIp = .str s
  srcPort : ∃ o : Option ℤ, m.srcPort = .ofOption .int o
  dstIp : ∃ s, m.dstIp = .str s
  dstPort : ∃ o : Option ℤ, m.dstPort = .ofOption .int o
  session : m.session.isSome
  credentials : ∀ c ∈ m.credentials, ∃ u p b, c = .map [(key "username", .str u),
    (key "password", .str p), (key "success", .bool b)]
  commands : ∀ c ∈ m.commands, ∃ s, c = .str s
  unknownCommands : ∀ c ∈ m.unknownCommands, ∃ s, c = .str s
  urls : ∀ u ∈ m.urls, ∃ s, u = .str s
  files : ∀ f ∈ m.files, f.Typed
  version : ∃ o : Option PyStr, m.version = .ofOption .str o
  ttylog : ∃ o : Option PyStr, m.ttylog = .ofOption .str o
  arch : ∃ o : Option PyStr, m.arch = .ofOption .str o
  clientHeight : ∃ o : Option ℤ, m.clientHeight = .ofOption .int o
  clientWidth : ∃ o : Option ℤ, m.clientWidth = .ofOption .int o
  keyFingerprint : ∃ o : Option PyStr, m.keyFingerprint = .ofOption .str o
  kex : m.kex = .none ∨ ∃ e : Entry, m.kex = e.kex ∧ ∃ o : Option PyStr,
    e.get "hassh" = .ofOption .str o

variable {rt : Runtime}

theorem exists_text {v : Obj} (h : FieldKind.text.admits rt v) : ∃ s, v = .str s := by
  cases v with
  | str s => exact ⟨s, rfl⟩
  | _ => exact absurd h Bool.false_ne_true

theorem exists_optText {v : Obj} (h : FieldKind.optText.admits rt v) :
    ∃ o : Option PyStr, v = .ofOption .str o := by
  cases v with
  | str s => exact ⟨some s, rfl⟩
  | none => exact ⟨none, rfl⟩
  | _ => exact absurd h Bool.false_ne_true

theorem exists_number {v : Obj} (h : FieldKind.number.admits rt v) :
    ∃ o : Option ℤ, v = .ofOption .int o := by
  cases v with
  | int n => exact ⟨some n, rfl⟩
  | none => exact ⟨none, rfl⟩
  | _ => exact absurd h Bool.false_ne_true

theorem exists_time {v : Obj} (h : FieldKind.time.admits rt v) :
    ∃ s, v = .str s ∧ (validateTime rt (.str s)).isSome := by
  cases v with
  | str s => exact ⟨s, rfl, h⟩
  | _ => exact absurd h Bool.false_ne_true

namespace Entry

variable {e : Entry} {eventid : PyStr}

/-- What a field that must be there holds. -/
theorem Typed.item (h : e.Typed rt) (hid : e.eventid? = some eventid) (name : String)
    (kind : FieldKind) (hfield : (name, true, kind) ∈ fieldsOf eventid) :
    ∃ v, e.item name = .ok v ∧ kind.admits rt v := by
  have hok := (h eventid hid).2 _ hfield
  rw [fieldOk] at hok
  rw [Entry.item]
  cases hget : e.fields.get (key name) with
  | none => simp [hget] at hok
  | some v =>
    rw [hget] at hok
    exact ⟨v, rfl, hok⟩

/-- What a field that may be there holds. -/
theorem Typed.getD (h : e.Typed rt) (hid : e.eventid? = some eventid) (name : String)
    (kind : FieldKind) (hfield : (name, false, kind) ∈ fieldsOf eventid) {default : Obj}
    (hdefault : kind.admits rt default) : kind.admits rt (e.getD name default) := by
  have hok := (h eventid hid).2 _ hfield
  rw [fieldOk] at hok
  rw [Entry.getD]
  cases hget : e.fields.get (key name) with
  | none => exact hdefault
  | some v =>
    rw [hget] at hok
    exact hok

end Entry

/-! ### The documents of a run -/

namespace Output

variable {out : Output} {disk : Disk} {e : Entry} {m m' : SessionMeta} {eventid : PyStr}

theorem fieldsOf_file (h : eventid ∈ fileIds) : fieldsOf eventid =
    [("url", false, .text), ("outfile", false, .text), ("shasum", false, .text),
      ("resolved_ip", false, .optText)] := by
  simp only [fileIds, List.mem_cons, List.not_mem_nil, or_false] at h
  rcases h with rfl | rfl | rfl <;> rfl

/-- The document of a connect. -/
theorem typed_newMeta (h : e.Typed rt) (hconnect : e.isConnect) (hm : out.newMeta e = .ok m) :
    m.Typed rt ∧ m.session = e.session := by
  have hid : e.eventid? = some connectId := eq_of_beq hconnect
  have hsession : e.session.isSome := (h connectId hid).1 rfl
  obtain ⟨protocol, hprotocol, hprotocolOk⟩ := h.item hid "protocol" .text (by decide)
  obtain ⟨startTime, hstartTime, hstartTimeOk⟩ := h.item hid "timestamp" .time (by decide)
  obtain ⟨srcIp, hsrcIp, hsrcIpOk⟩ := h.item hid "src_ip" .text (by decide)
  obtain ⟨srcPort, hsrcPort, hsrcPortOk⟩ := h.item hid "src_port" .number (by decide)
  obtain ⟨dstIp, hdstIp, hdstIpOk⟩ := h.item hid "dst_ip" .text (by decide)
  obtain ⟨dstPort, hdstPort, hdstPortOk⟩ := h.item hid "dst_port" .number (by decide)
  -- the address is configured, or else that of the event
  obtain ⟨dstIp', rfl⟩ : ∃ dstIp' : PyStr, m = SessionMeta.mk protocol startTime (.str []) srcIp
      srcPort (.str dstIp') dstPort e.session [] [] [] [] [] .none .none .none .none .none .none
      .none := by
    obtain ⟨s, rfl⟩ := exists_text hdstIpOk
    rw [newMeta, hprotocol, hstartTime, hsrcIp, hsrcPort, hdstIp, hdstPort] at hm
    cases hip : out.ipAddr.isEmpty with
    | true =>
      rw [hip] at hm
      exact ⟨s, (Except.ok.inj hm).symm⟩
    | false =>
      rw [hip] at hm
      exact ⟨out.ipAddr, (Except.ok.inj hm).symm⟩
  refine ⟨{
    protocol := exists_text hprotocolOk
    startTime := exists_time hstartTimeOk
    endTime := ⟨[], rfl, rfl⟩
    srcIp := exists_text hsrcIpOk
    srcPort := exists_number hsrcPortOk
    dstIp := ⟨dstIp', rfl⟩
    dstPort := exists_number hdstPortOk
    session := hsession
    credentials := List.forall_mem_nil _
    commands := List.forall_mem_nil _
    unknownCommands := List.forall_mem_nil _
    urls := List.forall_mem_nil _
    files := List.forall_mem_nil _
    version := ⟨none, rfl⟩
    ttylog := ⟨none, rfl⟩
    arch := ⟨none, rfl⟩
    clientHeight := ⟨none, rfl⟩
    clientWidth := ⟨none, rfl⟩
    keyFingerprint := ⟨none, rfl⟩
    kex := .inl rfl }, rfl⟩

/-- The credentials of a login. -/
theorem exists_credential (h : e.Typed rt) (hid : e.eventid? = some eventid)
    (hlogin : fieldsOf eventid = [("username", true, .text), ("password", true, .text)])
    (success : Bool) : ∃ u p, e.credential success = .ok (.map [(key "username", .str u),
      (key "password", .str p), (key "success", .bool success)]) := by
  obtain ⟨u, hu, huOk⟩ := h.item hid "username" .text (by rw [hlogin]; decide +kernel)
  obtain ⟨p, hp, hpOk⟩ := h.item hid "password" .text (by rw [hlogin]; decide +kernel)
  obtain ⟨u, rfl⟩ := exists_text huOk
  obtain ⟨p, rfl⟩ := exists_text hpOk
  refine ⟨u, p, ?_⟩
  rw [Entry.credential, hu, hp]
  rfl

/-- The file of an event. -/
theorem typed_fileData (h : e.Typed rt) (hid : e.eventid? = some eventid)
    (hfile : eventid ∈ fileIds) : (e.fileData eventid).Typed := by
  have hfield := fieldsOf_file hfile
  exact {
    url := exists_text (h.getD hid "url" .text (by rw [hfield]; decide +kernel) rfl)
    outfile := exists_text (h.getD hid "outfile" .text (by rw [hfield]; decide +kernel) rfl)
    shasum := exists_text (h.getD hid "shasum" .text (by rw [hfield]; decide +kernel) rfl)
    resolvedIp := exists_optText
      (h.getD hid "resolved_ip" .optText (by rw [hfield]; decide +kernel) rfl) }

/-- What any other event makes of a document. -/
theorem typed_record (h : e.Typed rt) (hid : e.eventid? = some eventid) (hm : m.Typed rt)
    (hr : record disk eventid e m = .ok m') : m'.Typed rt ∧ m'.session = m.session := by
  have happend : ∀ {xs : List Obj} {x : Obj} {P : Obj → Prop}, (∀ y ∈ xs, P y) → P x →
      ∀ y ∈ xs ++ [x], P y := fun hxs hx =>
    List.forall_mem_append.mpr ⟨hxs, List.forall_mem_singleton.mpr hx⟩
  rw [record] at hr
  by_cases hsuccess : eventid = str "cowrie.login.success"
  · obtain ⟨u, p, hc⟩ := exists_credential h hid (by rw [hsuccess]; rfl) true
    rw [if_pos hsuccess, hc] at hr
    obtain rfl := Except.ok.inj hr
    exact ⟨{ hm with credentials := happend hm.credentials ⟨u, p, true, rfl⟩ }, rfl⟩
  rw [if_neg hsuccess] at hr
  by_cases hfailed : eventid = str "cowrie.login.failed"
  · obtain ⟨u, p, hc⟩ := exists_credential h hid (by rw [hfailed]; rfl) false
    rw [if_pos hfailed, hc] at hr
    obtain rfl := Except.ok.inj hr
    exact ⟨{ hm with credentials := happend hm.credentials ⟨u, p, false, rfl⟩ }, rfl⟩
  rw [if_neg hfailed] at hr
  by_cases hcommand : eventid = str "cowrie.command.input"
  · obtain ⟨v, hv, hok⟩ := h.item hid "input" .text (by rw [hcommand]; decide +kernel)
    rw [if_pos hcommand, hv] at hr
    obtain rfl := Except.ok.inj hr
    exact ⟨{ hm with commands := happend hm.commands (exists_text hok) }, rfl⟩
  rw [if_neg hcommand] at hr
  by_cases hunknown : eventid = str "cowrie.command.failed"
  · obtain ⟨v, hv, hok⟩ := h.item hid "input" .text (by rw [hunknown]; decide +kernel)
    rw [if_pos hunknown, hv] at hr
    obtain rfl := Except.ok.inj hr
    exact ⟨{ hm with unknownCommands := happend hm.unknownCommands (exists_text hok) }, rfl⟩
  rw [if_neg hunknown] at hr
  by_cases hfile : fileIds.elem eventid
  · have hf := typed_fileData h hid (List.elem_iff.mp hfile)
    rw [if_pos hfile] at hr
    obtain rfl := Except.ok.inj hr
    refine ⟨{ hm with
      files := List.forall_mem_append.mpr ⟨hm.files, List.forall_mem_singleton.mpr hf⟩
      urls := ?_ }, rfl⟩
    dsimp only
    split_ifs
    · exact happend hm.urls hf.url
    · exact hm.urls
  rw [if_neg hfile] at hr
  by_cases hparams : eventid = str "cowrie.session.params"
  · rw [if_pos hparams] at hr
    obtain rfl := Except.ok.inj hr
    exact ⟨{ hm with
      arch := exists_optText
        (h.getD hid "arch" .optText (by rw [hparams]; decide +kernel) rfl) }, rfl⟩
  rw [if_neg hparams] at hr
  by_cases hsize : eventid = str "cowrie.client.size"
  · rw [if_pos hsize] at hr
    obtain rfl := Except.ok.inj hr
    exact ⟨{ hm with
      clientWidth := exists_number (h.getD hid "width" .number (by rw [hsize]; decide +kernel) rfl)
      clientHeight := exists_number
        (h.getD hid "height" .number (by rw [hsize]; decide +kernel) rfl) }, rfl⟩
  rw [if_neg hsize] at hr
  by_cases hfingerprint : eventid = str "cowrie.client.fingerprint"
  · rw [if_pos hfingerprint] at hr
    obtain rfl := Except.ok.inj hr
    exact ⟨{ hm with
      keyFingerprint := exists_optText
        (h.getD hid "fingerprint" .optText (by rw [hfingerprint]; decide +kernel) rfl) }, rfl⟩
  rw [if_neg hfingerprint] at hr
  by_cases hkex : eventid = str "cowrie.client.kex"
  · rw [if_pos hkex] at hr
    obtain rfl := Except.ok.inj hr
    exact ⟨{ hm with
      kex := .inr ⟨e, rfl, exists_optText
        (h.getD hid "hassh" .optText (by rw [hkex]; decide +kernel) rfl)⟩ }, rfl⟩
  rw [if_neg hkex] at hr
  by_cases hversion : eventid = str "cowrie.client.version"
  · rw [if_pos hversion] at hr
    obtain rfl := Except.ok.inj hr
    exact ⟨{ hm with
      version := exists_optText
        (h.getD hid "version" .optText (by rw [hversion]; decide +kernel) rfl) }, rfl⟩
  rw [if_neg hversion] at hr
  by_cases hclosed : eventid = str "cowrie.log.closed"
  · rw [if_pos hclosed] at hr
    dsimp only at hr
    by_cases hpath : (e.get "ttylog").truthy
    · rw [if_pos hpath] at hr
      obtain ⟨data, -, hdata⟩ := bind_eq_ok.mp hr
      obtain rfl := Except.ok.inj hdata
      exact ⟨{ hm with ttylog := ⟨some (hexText data), rfl⟩ }, rfl⟩
    · rw [if_neg hpath] at hr
      obtain rfl := Except.ok.inj hr
      exact ⟨hm, rfl⟩
  rw [if_neg hclosed] at hr
  obtain rfl := Except.ok.inj hr
  exact ⟨hm, rfl⟩

/-- The bytes that are inlined leave a file with its texts. -/
theorem typed_inlineFile {f f' : FileData} (hf : f.Typed)
    (h : out.inlineFile disk f = .ok f') : f'.Typed := by
  rw [inlineFile] at h
  split_ifs at h
  · exact Except.ok.inj h ▸ hf
  · exact Except.ok.inj h ▸ hf
  · cases hread : disk f.outfile with
    | osError =>
      rw [hread] at h
      exact Except.ok.inj h ▸ hf
    | raised err =>
      rw [hread] at h
      cases h
    | content data =>
      simp only [hread] at h
      split_ifs at h
      · exact Except.ok.inj h ▸ hf
      · obtain rfl := Except.ok.inj h
        exact ⟨hf.url, hf.outfile, hf.shasum, hf.resolvedIp⟩

theorem typed_inlineDownloadBytes : {files files' : List FileData} → (∀ f ∈ files, f.Typed) →
    out.inlineDownloadBytes disk files = .ok files' → ∀ f ∈ files', f.Typed
  | [], files', _, h => by
      obtain rfl := Except.ok.inj h
      exact List.forall_mem_nil _
  | f :: files, files', hfiles, h => by
      obtain ⟨hf, hfiles⟩ := List.forall_mem_cons.mp hfiles
      rw [inlineDownloadBytes, List.mapM_cons] at h
      obtain ⟨f', hf', h⟩ := bind_eq_ok.mp h
      obtain ⟨rest, hrest, h⟩ := bind_eq_ok.mp h
      obtain rfl := Except.ok.inj h
      exact List.forall_mem_cons.mpr ⟨typed_inlineFile hf hf',
        typed_inlineDownloadBytes hfiles hrest⟩

/-- The document of a close. -/
theorem typed_closeMeta (h : e.Typed rt) (hclose : e.isClose) (hm : m.Typed rt)
    (hr : out.closeMeta disk e m = .ok m') : m'.Typed rt ∧ m'.session = m.session := by
  have hid : e.eventid? = some closedId := eq_of_beq hclose
  obtain ⟨endTime, hendTime, hok⟩ := h.item hid "timestamp" .time (by decide)
  rw [closeMeta, hendTime] at hr
  cases hinline : out.inlineBytes with
  | false =>
    rw [hinline] at hr
    obtain rfl := Except.ok.inj hr
    exact ⟨{ hm with endTime := exists_time hok }, rfl⟩
  | true =>
    obtain ⟨endTime', heq, hr⟩ := bind_eq_ok.mp hr
    obtain rfl := Except.ok.inj heq
    rw [hinline] at hr
    obtain ⟨files, hfiles, hr⟩ := bind_eq_ok.mp hr
    obtain rfl := Except.ok.inj hr
    exact ⟨{ hm with
      endTime := exists_time hok
      files := typed_inlineDownloadBytes hm.files hfiles }, rfl⟩

variable (out disk) in
/-- What a typed event makes of the document of its session. -/
theorem typed_cell {c : Option SessionMeta} (h : e.Typed rt)
    (hc : ∀ m ∈ c, m.Typed rt ∧ m.session = e.session) :
    ∀ m ∈ (out.cell disk e c).1, m.Typed rt ∧ m.session = e.session := by
  rw [cell]
  cases hid : e.eventid? with
  | none => exact hc
  | some eventid =>
    dsimp only
    by_cases hconnect : eventid = connectId
    · rw [if_pos hconnect]
      cases hnew : out.newMeta e with
      | error err => exact hc
      | ok m =>
        intro m' hm'
        obtain rfl := Option.some.inj hm'
        exact typed_newMeta h (beq_iff_eq.mpr (hconnect ▸ hid)) hnew
    rw [if_neg hconnect]
    cases hsession : e.session with
    | none =>
      rw [hsession] at hc
      exact hc
    | some s =>
      rw [hsession] at hc
      cases c with
      | none => exact hc
      | some m =>
        obtain ⟨hm, hms⟩ := hc m rfl
        dsimp only
        intro m' hm'
        split_ifs at hm'
        · exact absurd hm' (Option.not_mem_none m')
        · obtain rfl := Option.some.inj hm'
          rw [recorded]
          cases hr : record disk eventid e m with
          | error err => exact ⟨hm, hms⟩
          | ok m' =>
            obtain ⟨hm', hms'⟩ := typed_record h hid hm hr
            exact ⟨hm', hms'.trans hms⟩

variable (out disk) in
/-- **Every document of a run over typed events is typed**, and is that of its session. -/
theorem typed_feed {es : List Entry} (h : ∀ e ∈ es, e.Typed rt) :
    ∀ s, ∀ m ∈ (out.feed disk {} es).sessions s, m.Typed rt ∧ m.session = s := by
  induction es using List.reverseRecOn with
  | nil => exact fun s m hm => absurd hm (Option.not_mem_none m)
  | append_singleton es e ih =>
    obtain ⟨hes, he⟩ := List.forall_mem_append.mp h
    have hsessions := ih hes
    have hcell := out.typed_cell disk (he e List.mem_cons_self) (hsessions e.session)
    have hfeed : out.feed disk {} (es ++ [e]) =
        ((out.write disk e).run (out.feed disk {} es)).2 := List.foldl_concat _ _ _ _
    rw [hfeed, out.run_write disk e]
    intro s m hm
    by_cases hs : e.session = s
    · subst hs
      have hself := Keyed.next_self (out.machine disk) (out.feed disk {} es).sessions e
      exact hcell m (hself ▸ hm)
    · have hother := Keyed.next_ne (out.machine disk) hs (out.feed disk {} es).sessions
      exact hsessions s m (hother ▸ hm)

end Output

/-! ### What the engine reads -/

/-- The conversions of pydantic take whole numbers and truth values as they are. -/
structure ReadsScalars (rt : Runtime) : Prop where
  int : ∀ n, rt.pydantic.parseInt (.int n) = some n
  bool : ∀ b, rt.pydantic.parseBool (.bool b) = some b

/-- What the engine reads of a file is what the plugin wrote. -/
structure FileData.ReadAs (f : FileData) (r : FileRef) : Prop where
  url : f.url = .str r.url
  outfile : f.outfile = .str r.outfile
  shasum : f.shasum = .str r.shasum
  action : f.action = r.action
  status : f.status = r.status
  resolvedIp : f.resolvedIp = .ofOption .str r.resolvedIp
  contentB64 : f.contentB64 = r.contentB64

/-- What the engine reads of a key exchange is its `hassh`. -/
def KexReadAs (v : Obj) : Option Kex → Prop
  | none => v = .none
  | some k => ∃ e : Entry, v = e.kex ∧ e.get "hassh" = .ofOption .str k.hassh

/-- What the engine reads of `hp_data` is what the plugin wrote. -/
structure SessionMeta.ReadAs (m : SessionMeta) (hp : HpData) : Prop where
  conType : hp.conType = str "accept"
  transport : hp.transport = str "tcp"
  uploads : hp.uploads = []
  session : m.session = some hp.session
  credentials : m.credentials = hp.credentials.map fun c =>
    .map [(key "username", .str c.username), (key "password", .str c.password),
      (key "success", .bool c.success)]
  commands : m.commands = hp.commands.map .str
  unknownCommands : m.unknownCommands = hp.unknownCommands.map .str
  urls : m.urls = hp.urls.map .str
  files : List.Forall₂ FileData.ReadAs m.files hp.files
  version : m.version = .ofOption .str hp.version
  ttylog : m.ttylog = .ofOption .str hp.ttylog
  arch : m.arch = .ofOption .str hp.arch
  clientHeight : m.clientHeight = .ofOption .int hp.clientHeight
  clientWidth : m.clientWidth = .ofOption .int hp.clientWidth
  keyFingerprint : m.keyFingerprint = .ofOption .str hp.keyFingerprint
  kex : KexReadAs m.kex hp.kex

/-- **What the engine reads of a document is what the plugin wrote.** -/
structure Mirrors (rt : Runtime) (out : Output) (m : SessionMeta) (s : SessionIn) : Prop where
  app : s.app = str "cowrie"
  uuid : s.sensorUuid = out.identifier
  hostname : s.sensorHostname = out.hostname
  asn : s.sensor.asn = out.asn
  tags : s.sensor.tags = normalizeRecord out.tags
  protocol : m.protocol = .str s.protocol
  startTime : validateTime rt m.startTime = some s.startTime
  endTime : validateTime rt m.endTime = some s.endTime
  srcIp : m.srcIp = .str s.srcIp
  srcPort : m.srcPort = .ofOption .int s.srcPort
  dstIp : m.dstIp = .str s.dstIp
  dstPort : m.dstPort = .ofOption .int s.dstPort
  hpData : m.ReadAs s.hpData

section Validate

variable {α β : Type}

theorem field_of {d : Dict} {name : String} {default y : α} {f : Obj → Option α} {v : Obj}
    (hget : d.get (key name) = some v) (hv : f v = some y) : field d name default f = some y := by
  rw [field, hget]
  exact hv

/-- A dictionary with these names for its keys, each once. -/
structure Named (d : Dict) (names : List String) : Prop where
  keys : d.map Prod.fst = names.map key
  nodup : (names.map key).Nodup

/-- `_normalize` leaves the names. -/
theorem Named.normalizeRecord {d : Dict} {names : List String} (h : Named d names) :
    normalizeRecord d = d.map fun kv => (kv.1, normalize kv.2) := by
  have hitems : ∀ {kvs : List (Key × Obj)}, (∀ kv ∈ kvs, kv.1 ∈ names.map key) →
      normalizeItems kvs = kvs.map fun kv => (kv.1, normalize kv.2) := by
    intro kvs hkvs
    induction kvs with
    | nil => rfl
    | cons kv kvs ih =>
      obtain ⟨hkv, hrest⟩ := List.forall_mem_cons.mp hkvs
      obtain ⟨name, -, hname⟩ := List.mem_map.mp hkv
      rw [normalizeItems, ih hrest, List.map_cons, ← hname]
      rfl
  have heq := hitems fun kv hkv => h.keys ▸ List.mem_map_of_mem hkv
  rw [C2Engine.normalizeRecord, heq]
  refine Dict.update_of_nodup ?_
  rw [List.nil_append, List.map_map]
  exact h.keys ▸ h.nodup

theorem Named.validateModel {d : Dict} {names : List String} (h : Named d names) :
    validateModel (normalize (.map d)) = some (C2Engine.normalizeRecord d) := by
  refine if_pos (List.all_eq_true.mpr fun kv hkv => ?_)
  change kv ∈ C2Engine.normalizeRecord d at hkv
  rw [h.normalizeRecord] at hkv
  obtain ⟨kv', hkv', rfl⟩ := List.mem_map.mp hkv
  have hname := List.mem_map_of_mem (f := Prod.fst) hkv'
  rw [h.keys] at hname
  obtain ⟨name, -, hname⟩ := List.mem_map.mp hname
  dsimp only
  rw [← hname]
  exact decide_eq_true (PyStr.encodable_str name)

/-- A field behind `_normalize`. -/
theorem Named.field {d : Dict} {names : List String} (h : Named d names) {name : String}
    {default y : α} {f : Obj → Option α} {v : Obj} (hget : d.get (key name) = some v)
    (hv : f (normalize v) = some y) :
    field (C2Engine.normalizeRecord d) name default f = some y := by
  refine field_of ?_ hv
  rw [h.normalizeRecord, Dict.get, List.find?_map, Option.map_map]
  obtain ⟨kv, hfind, rfl⟩ := Option.map_eq_some_iff.mp hget
  change Option.map _ (d.find? fun kv => kv.1 = key name) = _
  rw [hfind]
  rfl

theorem bind_of {x : Option α} {g : α → Option β} {y : α} {z : β} (hx : x = some y)
    (hg : g y = some z) : (x >>= g) = some z := by
  rw [hx]
  exact hg

theorem normalize_ofOption_str (o : Option PyStr) :
    normalize (.ofOption .str o) = .ofOption .str o := by
  cases o <;> rfl

theorem normalize_ofOption_int (o : Option ℤ) :
    normalize (.ofOption .int o) = .ofOption .int o := by
  cases o <;> rfl

theorem validateOptional_ofOption {f : Obj → Option α} {g : α → Obj} (hf : ∀ x, f (g x) = some x)
    (hg : ∀ x, g x ≠ .none) (o : Option α) : validateOptional f (.ofOption g o) = some o := by
  cases o with
  | none => rfl
  | some x =>
    change validateOptional f (g x) = _
    have hsome : validateOptional f (g x) = (f (g x)).map some := by
      cases hx : g x with
      | none => exact absurd hx (hg x)
      | _ => rfl
    rw [hsome, hf]
    rfl

/-- A list whose elements are read is read. -/
theorem validateList_of {f : Obj → Option α} {R : Obj → α → Prop} {xs : List Obj}
    (h : ∀ x ∈ xs, ∃ y, f (normalize x) = some y ∧ R x y) :
    ∃ ys, validateList f (normalize (.list xs)) = some ys ∧ List.Forall₂ R xs ys := by
  change ∃ ys, (normalizeList xs).mapM f = some ys ∧ _
  induction xs with
  | nil => exact ⟨[], rfl, .nil⟩
  | cons x xs ih =>
    obtain ⟨hx, hxs⟩ := List.forall_mem_cons.mp h
    obtain ⟨y, hy, hR⟩ := hx
    obtain ⟨ys, hys, hRs⟩ := ih hxs
    refine ⟨y :: ys, ?_, .cons hR hRs⟩
    rw [normalizeList, List.mapM_cons, hy, hys]
    rfl

end Validate

section Documents

variable {out : Output} {m : SessionMeta}

theorem validateStr_str (s : PyStr) : validateStr (.str s) = some s := rfl

theorem validate_credential (h : ReadsScalars rt) (u p : PyStr) (b : Bool) :
    Credential.validate rt (normalize (.map [(key "username", .str u), (key "password", .str p),
      (key "success", .bool b)])) = some ⟨u, p, b⟩ := by
  refine bind_of rfl (bind_of rfl (bind_of rfl (bind_of ?_ rfl)))
  exact h.bool b

/-- A file of a typed document is read. -/
theorem exists_validate_file {f : FileData} (h : f.Typed) :
    ∃ r, FileRef.validate (normalize f.toObj) = some r ∧ f.ReadAs r := by
  obtain ⟨url, outfile, shasum, action, status, resolvedIp, contentB64⟩ := f
  obtain ⟨⟨url, rfl⟩, ⟨outfile, rfl⟩, ⟨shasum, rfl⟩, ⟨resolvedIp, rfl⟩⟩ := h
  refine ⟨⟨url, outfile, shasum, action, status, resolvedIp, contentB64⟩, ?_,
    ⟨rfl, rfl, rfl, rfl, rfl, rfl, rfl⟩⟩
  cases resolvedIp <;> cases contentB64 <;> rfl

/-- The identity of the sensor is read. -/
theorem validate_sensor (out : Output) : Sensor.validate (normalize (.map [
    (key "uuid", .str out.identifier), (key "hostname", .str out.hostname),
    (key "tags", .map out.tags), (key "asn", .str out.asn)])) =
      some ⟨out.identifier, out.hostname, normalizeRecord out.tags, out.asn⟩ := by
  have hkeys : ∀ kvs : List (Key × Obj), Dict.TextKeys (fun _ => True) (normalizeItems kvs) := by
    intro kvs
    induction kvs with
    | nil => exact List.forall_mem_nil _
    | cons kv kvs ih =>
      refine List.forall_mem_cons.mpr ⟨?_, ih⟩
      cases kv.1 with
      | str s => exact ⟨s, rfl, trivial⟩
      | bytes b => exact ⟨_, rfl, trivial⟩
  have htags : validateDict (normalize (.map out.tags)) =
      some (Dict.update [] (normalizeItems out.tags)) := by
    refine if_pos (List.all_eq_true.mpr fun kv hkv => ?_)
    have htext : Dict.TextKeys (fun _ => True) (Dict.update [] (normalizeItems out.tags)) :=
      Dict.TextKeys.update (List.forall_mem_nil _) (hkeys out.tags)
    obtain ⟨s, hs, -⟩ := htext kv hkv
    rw [hs]
    rfl
  exact bind_of rfl (bind_of rfl (bind_of rfl (bind_of (field_of rfl htags) (bind_of rfl rfl))))

/-- `hp_data` of the document. -/
def SessionMeta.hpData (m : SessionMeta) : Dict :=
  [(key "con_type", .str (str "accept")), (key "transport", .str (str "tcp")),
    (key "session", .ofOption .str m.session), (key "credentials", .list m.credentials),
    (key "commands", .list m.commands), (key "unknown_commands", .list m.unknownCommands),
    (key "urls", .list m.urls), (key "files", .list (m.files.map FileData.toObj)),
    (key "uploads", .list []), (key "version", m.version), (key "ttylog", m.ttylog),
    (key "arch", m.arch), (key "client_height", m.clientHeight),
    (key "client_width", m.clientWidth), (key "key_fingerprint", m.keyFingerprint),
    (key "kex", m.kex)]

theorem get_hpData (out : Output) (m : SessionMeta) :
    (m.toDict out).get (key "hp_data") = some (.map m.hpData) :=
  rfl

theorem named_hpData (m : SessionMeta) : Named m.hpData ["con_type", "transport", "session",
    "credentials", "commands", "unknown_commands", "urls", "files", "uploads", "version", "ttylog",
    "arch", "client_height", "client_width", "key_fingerprint", "kex"] :=
  ⟨rfl, by decide +kernel⟩

theorem named_toDict (out : Output) (m : SessionMeta) : Named (m.toDict out) ["app", "sensor",
    "protocol", "start_time", "end_time", "src_ip", "src_port", "dst_ip", "dst_port", "hp_data"] :=
  ⟨rfl, by decide⟩

theorem validateOptional_text {v : Obj} {o : Option PyStr} (h : v = .ofOption .str o) :
    validateOptional validateStr (normalize v) = some o := by
  rw [h, normalize_ofOption_str]
  exact validateOptional_ofOption validateStr_str (fun _ h => by cases h) o

theorem validateOptional_number (hrt : ReadsScalars rt) {v : Obj} {o : Option ℤ}
    (h : v = .ofOption .int o) :
    validateOptional rt.pydantic.parseInt (normalize v) = some o := by
  rw [h, normalize_ofOption_int]
  exact validateOptional_ofOption hrt.int (fun _ h => by cases h) o

/-- The key exchange is read. -/
theorem exists_validate_kex (h : m.Typed rt) :
    ∃ k, validateOptional Kex.validate (normalize m.kex) = some k ∧ KexReadAs m.kex k := by
  rcases h.kex with hkex | ⟨e, hkex, hassh, hhassh⟩
  · rw [hkex]
    exact ⟨none, rfl, rfl⟩
  · have hvalid : Kex.validate (normalize e.kex) = some ⟨hassh⟩ := by
      refine bind_of rfl (bind_of (field_of rfl ?_) rfl)
      exact validateOptional_text hhassh
    refine ⟨some ⟨hassh⟩, ?_, e, hkex, hhassh⟩
    rw [hkex]
    change (Kex.validate (normalize e.kex)).map some = _
    rw [hvalid]
    rfl

theorem eq_map_of_forall₂ {α β : Type} {g : β → α} {xs : List α} {ys : List β}
    (h : List.Forall₂ (fun x y => x = g y) xs ys) : xs = ys.map g := by
  induction h with
  | nil => rfl
  | cons hx _ ih => rw [List.map_cons, ← hx, ← ih]

/-- A list of texts is read. -/
theorem exists_validate_texts {xs : List Obj} (h : ∀ x ∈ xs, ∃ s, x = .str s) :
    ∃ ss, validateList validateStr (normalize (.list xs)) = some ss ∧ xs = ss.map .str := by
  obtain ⟨ss, hss, hR⟩ := validateList_of (R := fun x s => x = .str s) (f := validateStr)
    fun x hx => by
      obtain ⟨s, rfl⟩ := h x hx
      exact ⟨s, rfl, rfl⟩
  exact ⟨ss, hss, eq_map_of_forall₂ hR⟩

/-- The files are read. -/
theorem exists_validate_files : {fs : List FileData} → (∀ f ∈ fs, f.Typed) →
    ∃ rs, validateList FileRef.validate (normalize (.list (fs.map FileData.toObj))) = some rs ∧
      List.Forall₂ FileData.ReadAs fs rs
  | [], _ => ⟨[], rfl, .nil⟩
  | f :: fs, h => by
      obtain ⟨hf, hfs⟩ := List.forall_mem_cons.mp h
      obtain ⟨r, hr, hread⟩ := exists_validate_file hf
      obtain ⟨rs, hrs, hreads⟩ := exists_validate_files hfs
      exact ⟨r :: rs, List.mapM_cons.trans (bind_of hr (bind_of hrs rfl)), .cons hread hreads⟩

theorem validate_str {v : Obj} {s : PyStr} (h : v = .str s) :
    validateStr (normalize v) = some s := by
  rw [h]
  rfl

/-- `hp_data` of a typed document is read, field by field. -/
theorem exists_validate_hpData (hrt : ReadsScalars rt) (h : m.Typed rt) :
    ∃ hp, HpData.validate rt (normalize (.map m.hpData)) = some hp ∧ m.ReadAs hp := by
  obtain ⟨credentials, hcredentials, hR⟩ := validateList_of (f := Credential.validate rt)
    (R := fun x c => x = .map [(key "username", .str c.username),
      (key "password", .str c.password), (key "success", .bool c.success)])
    fun x hx => by
      obtain ⟨u, p, b, rfl⟩ := h.credentials x hx
      exact ⟨⟨u, p, b⟩, validate_credential hrt u p b, rfl⟩
  obtain ⟨commands, hcommands, hcommandsEq⟩ := exists_validate_texts h.commands
  obtain ⟨unknown, hunknown, hunknownEq⟩ := exists_validate_texts h.unknownCommands
  obtain ⟨urls, hurls, hurlsEq⟩ := exists_validate_texts h.urls
  obtain ⟨files, hfiles, hfilesRead⟩ := exists_validate_files h.files
  obtain ⟨kex, hkex, hkexRead⟩ := exists_validate_kex h
  obtain ⟨session, hsession⟩ := Option.isSome_iff_exists.mp h.session
  obtain ⟨version, hversion⟩ := h.version
  obtain ⟨ttylog, httylog⟩ := h.ttylog
  obtain ⟨arch, harch⟩ := h.arch
  obtain ⟨clientHeight, hclientHeight⟩ := h.clientHeight
  obtain ⟨clientWidth, hclientWidth⟩ := h.clientWidth
  obtain ⟨keyFingerprint, hkeyFingerprint⟩ := h.keyFingerprint
  have hsessionText : Obj.ofOption .str m.session = .str session := by
    rw [hsession]
    rfl
  have hd := named_hpData m
  refine ⟨HpData.mk (str "accept") (str "tcp") session credentials commands unknown urls files []
    version ttylog arch clientHeight clientWidth keyFingerprint kex, ?_, {
      conType := rfl
      transport := rfl
      uploads := rfl
      session := hsession
      credentials := eq_map_of_forall₂ hR
      commands := hcommandsEq
      unknownCommands := hunknownEq
      urls := hurlsEq
      files := hfilesRead
      version := hversion
      ttylog := httylog
      arch := harch
      clientHeight := hclientHeight
      clientWidth := hclientWidth
      keyFingerprint := hkeyFingerprint
      kex := hkexRead }⟩
  exact bind_of hd.validateModel <| bind_of (hd.field rfl hfiles) <| bind_of (hd.field rfl rfl) <|
    bind_of (hd.field rfl rfl) <| bind_of (hd.field rfl (validate_str hsessionText)) <|
    bind_of (hd.field rfl hcredentials) <| bind_of (hd.field rfl hcommands) <|
    bind_of (hd.field rfl hunknown) <| bind_of (hd.field rfl hurls) <|
    bind_of (hd.field rfl rfl) <| bind_of (hd.field rfl (validateOptional_text hversion)) <|
    bind_of (hd.field rfl (validateOptional_text httylog)) <|
    bind_of (hd.field rfl (validateOptional_text harch)) <|
    bind_of (hd.field rfl (validateOptional_number hrt hclientHeight)) <|
    bind_of (hd.field rfl (validateOptional_number hrt hclientWidth)) <|
    bind_of (hd.field rfl (validateOptional_text hkeyFingerprint)) <|
    bind_of (hd.field rfl hkex) rfl

theorem modelValidate_of {raw : Dict} {s : SessionIn}
    (h : SessionIn.validate rt (normalize (.map raw)) = some s) :
    SessionIn.modelValidate rt (normalizeRecord raw) = .ok s := by
  have hraw : SessionIn.validate rt (.map (normalizeRecord raw)) = some s := h
  rw [SessionIn.modelValidate, hraw]

/-- **A typed document is accepted**, and read as it was written. -/
theorem validate_toDict (hrt : ReadsScalars rt) (h : m.Typed rt) :
    ∃ s, SessionIn.modelValidate rt (normalizeRecord (m.toDict out)) = .ok s ∧
      Mirrors rt out m s := by
  obtain ⟨hp, hvalidHp, hread⟩ := exists_validate_hpData hrt h
  have hsensor := validate_sensor out
  obtain ⟨protocol, hprotocol⟩ := h.protocol
  obtain ⟨start, hstart, hstartOk⟩ := h.startTime
  obtain ⟨startTime, hstartTime⟩ := Option.isSome_iff_exists.mp hstartOk
  obtain ⟨stop, hstop, hstopOk⟩ := h.endTime
  obtain ⟨endTime, hendTime⟩ := Option.isSome_iff_exists.mp hstopOk
  obtain ⟨srcIp, hsrcIp⟩ := h.srcIp
  obtain ⟨srcPort, hsrcPort⟩ := h.srcPort
  obtain ⟨dstIp, hdstIp⟩ := h.dstIp
  obtain ⟨dstPort, hdstPort⟩ := h.dstPort
  have htime : ∀ {v : Obj} {s : PyStr} {o}, v = .str s → validateTime rt (.str s) = some o →
      validateTime rt (normalize v) = some o := by
    rintro v s o rfl ho
    exact ho
  have hd := named_toDict out m
  have hvalid : SessionIn.validate rt (normalize (.map (m.toDict out))) = some
      (SessionIn.mk (str "cowrie")
        ⟨out.identifier, out.hostname, normalizeRecord out.tags, out.asn⟩ protocol startTime endTime
        srcIp srcPort dstIp dstPort hp) :=
    bind_of hd.validateModel <| bind_of (hd.field (get_hpData out m) hvalidHp) <|
      bind_of (hd.field rfl rfl) <| bind_of (hd.field rfl hsensor) <|
      bind_of (hd.field rfl (validate_str hprotocol)) <|
      bind_of (hd.field rfl (htime hstart hstartTime)) <|
      bind_of (hd.field rfl (htime hstop hendTime)) <|
      bind_of (hd.field rfl (validate_str hsrcIp)) <|
      bind_of (hd.field rfl (validateOptional_number hrt hsrcPort)) <|
      bind_of (hd.field rfl (validate_str hdstIp)) <|
      bind_of (hd.field rfl (validateOptional_number hrt hdstPort)) rfl
  refine ⟨_, modelValidate_of hvalid, {
    app := rfl
    uuid := rfl
    hostname := rfl
    asn := rfl
    tags := rfl
    protocol := hprotocol
    startTime := hstart ▸ hstartTime
    endTime := hstop ▸ hendTime
    srcIp := hsrcIp
    srcPort := hsrcPort
    dstIp := hdstIp
    dstPort := hdstPort
    hpData := hread }⟩

end Documents

/-- A typed event is complete. -/
theorem Entry.Typed.complete {e : Entry} (h : e.Typed rt) : e.Complete where
  connect hconnect name hname := by
    have hid : e.eventid? = some connectId := eq_of_beq hconnect
    obtain ⟨kind, hfield⟩ : ∃ kind, (name, true, kind) ∈ fieldsOf connectId := by
      simp only [List.mem_cons, List.not_mem_nil, or_false] at hname
      rcases hname with rfl | rfl | rfl | rfl | rfl | rfl
      exacts [⟨.text, by decide⟩, ⟨.time, by decide⟩, ⟨.text, by decide⟩, ⟨.number, by decide⟩,
        ⟨.text, by decide⟩, ⟨.number, by decide⟩]
    obtain ⟨v, hv, -⟩ := h.item hid name kind hfield
    rw [hv]
    rfl
  close hclose name hname := by
    obtain rfl := List.mem_singleton.mp hname
    have hid : e.eventid? = some closedId := eq_of_beq hclose
    obtain ⟨v, hv, -⟩ := h.item hid "timestamp" .time (by decide)
    rw [hv]
    rfl

/-- What the engine reads of the document of a session: it is the session, what the plugin wrote,
and what the events brought. -/
structure ReadsSession (rt : Runtime) (out : Output) (disk : Disk) (es : List Entry) (e : Entry)
    (s : PyStr) (m : SessionMeta) (session : SessionIn) : Prop where
  emitted : out.emittedBy disk es e = [(Output.cowrieTopic, m.toDict out)]
  valid : SessionIn.modelValidate rt (normalizeRecord (m.toDict out)) = .ok session
  sessionId : session.sessionId = s
  mirrors : Mirrors rt out m session
  document : ∃ connect rest, since s es = connect :: rest ∧ connect.isConnect ∧
    m = (SessionMeta.gathered out disk connect rest).closed out disk e

/-- The lists of the document are those of the events. -/
theorem ReadsSession.gathers {out : Output} {disk : Disk} {es : List Entry} {e : Entry} {s : PyStr}
    {m : SessionMeta} {session : SessionIn} (h : ReadsSession rt out disk es e s m session) :
    m.Gathers (since s es) := by
  obtain ⟨connect, rest, hsince, hconnect, rfl⟩ := h.document
  rw [hsince]
  exact out.gathers_closed disk ((SessionMeta.gathers_gathered out disk connect rest).cons
    (Entry.brings_of_isConnect hconnect)) e

/-- The document of a session that is closed: the engine reads in it what the events brought. -/
theorem read_of_held {out : Output} {disk : Disk} (hrt : ReadsScalars rt)
    (hstarted : out.started) (hdisk : ∀ path err, disk path ≠ .raised err) {es : List Entry}
    {e : Entry} {s : PyStr} {m : SessionMeta} (hes : ∀ x ∈ es, x.Typed rt) (he : e.Typed rt)
    (hs : e.session = some s) (hclose : e.isClose)
    (hm : (out.feed disk {} es).sessions (some s) = some m) :
    ∃ session, ReadsSession rt out disk es e s (m.closed out disk e) session := by
  have htracks := out.tracks_feed disk (s := s) fun x hx => (hes x hx).complete
  obtain ⟨htyped, hsession⟩ := out.typed_feed disk hes (some s) m hm
  have hm' := out.closeMeta_eq disk he.complete hclose hdisk m
  obtain ⟨htyped', hsession'⟩ := Output.typed_closeMeta he hclose htyped hm'
  obtain ⟨session, hread, hmirrors⟩ := validate_toDict hrt htyped'
  obtain ⟨connect, rest, hsince, hconnect, rfl⟩ := htracks.gathered m hm
  refine ⟨session, ?_, hread, ?_, hmirrors, connect, rest, hsince, hconnect, rfl⟩
  · rw [out.emittedBy_eq disk, hs, hm, out.cell_of_isClose disk hs hclose, Output.closing,
      if_pos hstarted, hm']
  · exact Option.some.inj (hmirrors.hpData.session.symm.trans (hsession'.trans hsession))

/-- An open session has a document. -/
theorem exists_held (out : Output) (disk : Disk) {es : List Entry} {s : PyStr}
    (hes : ∀ x ∈ es, x.Typed rt) (hopen : Open s es) :
    ∃ m, (out.feed disk {} es).sessions (some s) = some m :=
  Option.isSome_iff_exists.mp
    ((out.tracks_feed disk fun x hx => (hes x hx).complete).isSome_iff.mpr hopen)

/-- **From the events to what the engine reads**: the close of an open session, in a run over typed
events, emits a document that the engine accepts behind the wire; it is of this session, and what
the engine reads is what the events since its connect brought. -/
theorem read_of_close {out : Output} {disk : Disk} (hrt : ReadsScalars rt)
    (hstarted : out.started) (hdisk : ∀ path err, disk path ≠ .raised err) {es : List Entry}
    {e : Entry} {s : PyStr} (hes : ∀ x ∈ es, x.Typed rt) (he : e.Typed rt)
    (hs : e.session = some s) (hclose : e.isClose) (hopen : Open s es) :
    ∃ m session, ReadsSession rt out disk es e s m session := by
  obtain ⟨m, hm⟩ := exists_held out disk hes hopen
  obtain ⟨session, hread⟩ := read_of_held hrt hstarted hdisk hes he hs hclose hm
  exact ⟨_, session, hread⟩

/-- A runtime that reads every text as one time. -/
def readingRuntime : Runtime :=
  { Runtime.basic with
    pydantic := { Pydantic.basic with parseDatetime := fun _ => some ⟨0, some 0⟩ } }

/-- An event of a session for closed examples. -/
def typedEvent (id : String) (fields : Dict) : Entry :=
  ⟨some (str "a1"), (key "eventid", .str (str id)) :: (key "timestamp", .str (str "12:00")) ::
    fields⟩

/-- A connect with the ports as numbers. -/
def typedConnect : Entry :=
  typedEvent "cowrie.session.connect" [(key "protocol", .str (str "ssh")),
    (key "src_ip", .str (str "192.0.2.7")), (key "src_port", .int 4711),
    (key "dst_ip", .str (str "192.0.2.1")), (key "dst_port", .int 22)]

/-- A session with two versions of the client, a key exchange, a login, a command and a download. -/
def typedEvents : List Entry :=
  [typedConnect,
    typedEvent "cowrie.client.version" [(key "version", .str (str "SSH-2.0-libssh"))],
    typedEvent "cowrie.client.version" [(key "version", .str (str "SSH-2.0-Go"))],
    typedEvent "cowrie.client.kex" [(key "hassh", .str (str "92674389"))],
    typedEvent "cowrie.login.success"
      [(key "username", .str (str "root")), (key "password", .str (str "x"))],
    typedEvent "cowrie.command.input" [(key "input", .str (str "uname"))],
    typedEvent "cowrie.session.file_download"
      [(key "url", .str (str "http://192.0.2.9/x")), (key "shasum", .str (str "ab"))]]

/-- The engine reads the latest version and the key exchange. -/
theorem read_of_close_demo :
    (∃ m session, ReadsSession readingRuntime Output.demo (fun _ => .content []) typedEvents
      (typedEvent "cowrie.session.closed" []) (str "a1") m session) ∧
    ((Output.demo.emittedBy (fun _ => .content []) typedEvents
        (typedEvent "cowrie.session.closed" [])).map fun doc =>
      (SessionIn.modelValidate readingRuntime (normalizeRecord doc.2)).toOption.map fun session =>
        (session.hpData.version, session.hpData.kex.bind Kex.hassh)) =
      [some (some (str "SSH-2.0-Go"), some (str "92674389"))] := by
  refine ⟨?_, by decide +kernel⟩
  exact read_of_close ⟨fun _ => rfl, fun _ => rfl⟩ rfl (fun _ _ h => FileRead.noConfusion h)
    (by decide) (by decide) rfl (by decide)
    ⟨[], typedConnect, typedEvents.tail, rfl, rfl, by decide⟩

end C2Engine.Sensor
