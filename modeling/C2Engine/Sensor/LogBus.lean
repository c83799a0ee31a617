import C2Engine.Python.Dict
import C2Engine.Python.Regex
import C2Engine.Runtime
import C2Engine.Sensor.Stingar

/-!
# From log lines to sessions

`core/output.py` of the honeypot: every plugin observes the log, and `emit` finds out which session
a line belongs to before it hands it to the `write` of the plugin. A line names its transport, by a
number of its own or by the prefix of the log, or it names its session, as the line of a fetch does
that ended in a thread of its own. Which transport has which session is learnt from the lines of
connects and forgotten with those of closes.

## Main definitions

* `LogEvent`, `convert`: a line of the log, and its texts.
* `Lines`: which transport has which session.
* `emit`: the observer of a plugin.
* `Lines.step`: the entry a line becomes.
* `observe`: a run of the plugin over a log.

## Main results

* `run_emit`: `emit` hands the entry to the plugin.
* `document_of_log`: the document of a session is that of the lines of its transport, and of those
  that name it, from its connect to its close.
-/

namespace C2Engine.Sensor

open Python Machine

/-! ### Lines of the log -/

/-- A line of the log: the number of its transport, its session and the prefix of the log, each
where it has one, and its other fields. -/
structure LogEvent where
  sessionno : Option PyStr := none
  session : Option PyStr := none
  system : Option PyStr := none
  fields : Dict

/-- What the core knows: the configured names of the sensor, the clock and how it is written. -/
structure CoreEnv where
  sensor : PyStr
  uuid : PyStr
  time : Obj
  formatTime : Obj → PyStr

section Convert

variable (rt : Runtime)

/-- The text of bytes: decoded, or as they are written in Python. -/
def convertBytes (b : Bytes) : PyStr := (utf8Decode b).getD (rt.repr (.bytes b))

/-- `convert` of a key. -/
def convertKey : Key → Key
  | .str s => .str s
  | .bytes b => .str (convertBytes rt b)

mutual

/-- `convert`. -/
def convert : Obj → Obj
  | .map kvs => .map (Dict.update [] (convertItems kvs))
  | .list xs => .list (convertList xs)
  | .bytes b => .str (convertBytes rt b)
  | v => v

/-- `convert` of the elements of a list. -/
def convertList : List Obj → List Obj
  | [] => []
  | x :: xs => convert x :: convertList xs

/-- `convert` of the items of a dictionary. -/
def convertItems : List (Key × Obj) → List (Key × Obj)
  | [] => []
  | kv :: kvs => (convertKey rt kv.1, convert kv.2) :: convertItems kvs

end

/-- `convert` of the fields of a line. -/
def convertFields (d : Dict) : Dict := Dict.update [] (convertItems rt d)

/-- The fields of a line as `emit` completes them. -/
def CoreEnv.stamp (env : CoreEnv) (d : Dict) : Dict :=
  let ev := ((convertFields rt d).set (key "sensor") (.str env.sensor)).set (key "uuid")
    (.str env.uuid)
  let ev := ev.erase (key "isError")
  let ev := if (ev.get (key "time")).isSome then ev else ev.set (key "time") env.time
  ev.set (key "timestamp") (.str (env.formatTime ((ev.get (key "time")).getD .none)))

end Convert

/-- `[0-9]`. -/
def digit : Re CodePoint := .set CodePoint.isAsciiDigit

/-- `sshRegex` and `telnetRegex`, by the name of the transport. -/
def reTransport (name : PyStr) : Re CodePoint :=
  .cat [.star true (.set fun c => c != cp '\n'), .lit (name ++ str ","), .group 1 (.plus digit),
    .lit (str ","), .plus (.set fun c => c.isAsciiDigit || c.between 'a' 'f' || c == cp ':' ||
      c == cp '.'), .eos]

/-- The number of the transport in the prefix of the log. -/
def systemNumber (rt : Runtime) (system : PyStr) : Option PyStr :=
  match (Re.match? (Re.text rt.unicode) (reTransport (str "TelnetTransport")) system).bind
      fun m => m.group 1 with
  | some n => some (cp 'T' :: n)
  | none => ((Re.match? (Re.text rt.unicode) (reTransport (str "SSHTransport")) system).bind
      fun m => m.group 1).map (cp 'S' :: ·)

/-- Lines the plugins are not for are passed over. -/
def LogEvent.logged (ev : LogEvent) : Bool :=
  (ev.fields.get (key "printed")).isNone && (ev.fields.get (key "eventid")).isSome &&
    (ev.sessionno.isSome || ev.session.isSome || ev.system.isSome) &&
    ((ev.fields.get (key "message")).isSome || (ev.fields.get (key "format")).isSome)

/-! ### The observer -/

/-- `self.sessions` and `self.ips`, by the number of the transport. -/
structure Lines where
  sessions : Dict := []
  ips : Dict := []

/-- The number of the transport a line belongs to; with none `emit` returns. -/
def Lines.number (rt : Runtime) (l : Lines) (ev : LogEvent) : Option PyStr :=
  match ev.sessionno, ev.session with
  | some no, _ => some no
  | none, some s => (l.sessions.find? fun kv => kv.2.asStr? == some s).bind fun kv =>
      match kv.1 with
      | .str no => some no
      | .bytes _ => none
  | none, none => ev.system.bind (systemNumber rt)

/-- The fields of a line with the address of its transport. -/
def Lines.withIp (l : Lines) (no : PyStr) (fields : Dict) : Dict :=
  match l.ips.get (.str no) with
  | some ip => fields.set (key "src_ip") ip
  | none => fields

/-- The protocol of a transport, by the first letter of its number. -/
def protocol : PyStr → Except PyExc PyStr
  | [] => .error .indexError
  | c :: _ => .ok (if c = cp 'S' then str "ssh" else if c = cp 'T' then str "telnet"
      else str "unknown")

/-- An observer: what it knows of the transports, and the plugin. -/
structure Bus (σ : Type) where
  lines : Lines := {}
  plugin : σ

section Emit

variable {σ : Type}

/-- A change of what is known of the transports. -/
def setLines (f : Lines → Lines) : Prog (Bus σ) Unit :=
  Prog.modify fun b => { b with lines := f b.lines }

/-- The session of a connect is noted, and the address. -/
def noteConnect (no : PyStr) (ev : LogEvent) (fields : Dict) : Prog (Bus σ) PyStr :=
  match ev.session with
  | none => Prog.raise .keyError
  | some s => do
    setLines fun l => { l with sessions := l.sessions.set (.str no) (.str s) }
    match fields.get (key "src_ip") with
    | none => Prog.raise .keyError
    | some ip => do
      setLines fun l => { l with ips := l.ips.set (.str no) ip }
      return s

/-- `self.sessions[sessionno]`. -/
def sessionOf (no : PyStr) : Prog (Bus σ) PyStr := do
  let b ← Prog.get
  match (b.lines.sessions.get (.str no)).bind Obj.asStr? with
  | some s => pure s
  | none => Prog.raise .keyError

/-- What was known of a transport is deleted. -/
def noteClose (no : PyStr) : Prog (Bus σ) Unit := do
  let b ← Prog.get
  if (b.lines.sessions.get (.str no)).isNone then Prog.raise .keyError
  else do
    setLines fun l => { l with sessions := l.sessions.erase (.str no) }
    if (b.lines.ips.get (.str no)).isNone then Prog.raise .keyError
    else setLines fun l => { l with ips := l.ips.erase (.str no) }

/-- `emit`. -/
def emit (rt : Runtime) (env : CoreEnv) (write : Entry → Prog σ Unit) (ev : LogEvent) :
    Prog (Bus σ) Unit :=
  if !ev.logged then pure ()
  else do
    let b ← Prog.get
    match b.lines.number rt ev with
    | none => pure ()
    | some no => do
      let fields := b.lines.withIp no (env.stamp rt ev.fields)
      let s ← if Entry.isConnect ⟨none, fields⟩ then noteConnect no ev fields else sessionOf no
      let proto ← Prog.ofExcept (protocol no)
      let entry : Entry := ⟨some s, fields.set (key "protocol") (.str proto)⟩
      Prog.zoom Bus.plugin (fun p b => { b with plugin := p }) (write entry)
      if entry.isClose then noteClose no else pure ()

/-- A run of the plugin over a log; what an observer raises does not end it. -/
def observe (rt : Runtime) (env : CoreEnv) (write : Entry → Prog σ Unit) (b : Bus σ)
    (log : List LogEvent) : Bus σ :=
  log.foldl (fun b ev => ((emit rt env write ev).run b).2) b

end Emit

/-! ### The entries -/

/-- The session of a transport. -/
def Lines.at? (l : Lines) (no : PyStr) : Option PyStr :=
  (l.sessions.get (.str no)).bind Obj.asStr?

/-- The protocol of a transport, where it has a letter. -/
def protocolName (no : PyStr) : PyStr := (protocol no).toOption.getD []

section Steps

variable (rt : Runtime) (env : CoreEnv)

/-- The entry a line becomes, on a transport and in a session. -/
def Lines.entry (l : Lines) (no s : PyStr) (ev : LogEvent) : Entry :=
  ⟨some s, (l.withIp no (env.stamp rt ev.fields)).set (key "protocol") (.str (protocolName no))⟩

/-- What a complete line makes of what is known of the transports, and the entry it becomes. -/
def Lines.step (l : Lines) (ev : LogEvent) : Lines × Option Entry :=
  if !ev.logged then (l, none)
  else match l.number rt ev with
    | none => (l, none)
    | some no =>
      if (l.entry rt env no [] ev).isConnect then
        match ev.session, (l.withIp no (env.stamp rt ev.fields)).get (key "src_ip") with
        | some s, some ip => (⟨l.sessions.set (.str no) (.str s), l.ips.set (.str no) ip⟩,
            some (l.entry rt env no s ev))
        | _, _ => (l, none)
      else match l.at? no with
        | none => (l, none)
        | some s =>
          (if (l.entry rt env no s ev).isClose then
            ⟨l.sessions.erase (.str no), l.ips.erase (.str no)⟩ else l,
          some (l.entry rt env no s ev))

/-- What is known of the transports behind a log. -/
def Lines.after (l : Lines) (log : List LogEvent) : Lines :=
  log.foldl (fun l ev => (l.step rt env ev).1) l

/-- The entries a log becomes. -/
def Lines.entries (l : Lines) : List LogEvent → List Entry
  | [] => []
  | ev :: log => (l.step rt env ev).2.toList ++ entries (l.step rt env ev).1 log

/-- The fields a line brings itself, as an entry of a session. -/
def LogEvent.bare (s : PyStr) (ev : LogEvent) : Entry := ⟨some s, convertFields rt ev.fields⟩

/-- What a line always comes with: the number of a transport has a letter, and a connect its session
and the addresses. -/
structure LogEvent.Complete (ev : LogEvent) : Prop where
  number : ev.sessionno ≠ some []
  connect : (ev.bare rt []).isConnect → ev.session.isSome ∧
    (ev.bare rt []).Has ["src_ip", "src_port", "dst_ip", "dst_port"]

instance (ev : LogEvent) : Decidable (ev.Complete rt) :=
  decidable_of_iff (ev.sessionno ≠ some [] ∧ ((ev.bare rt []).isConnect → ev.session.isSome ∧
    (ev.bare rt []).Has ["src_ip", "src_port", "dst_ip", "dst_port"]))
    ⟨fun h => ⟨h.1, h.2⟩, fun h => ⟨h.number, h.connect⟩⟩

variable {rt env}

/-- The fields `emit` sets on every line. -/
def stamps : List Key :=
  [key "sensor", key "uuid", key "isError", key "time", key "timestamp"]

theorem get_stamp {d : Dict} {k : Key} (hk : k ∉ stamps) :
    (env.stamp rt d).get k = (convertFields rt d).get k := by
  simp only [stamps, List.mem_cons, List.not_mem_nil, or_false, not_or] at hk
  obtain ⟨hsensor, huuid, hisError, htime, htimestamp⟩ := hk
  unfold CoreEnv.stamp
  dsimp only
  rw [Dict.get_set_ne _ _ htimestamp]
  split_ifs
  · rw [Dict.get_erase_ne hisError, Dict.get_set_ne _ _ huuid, Dict.get_set_ne _ _ hsensor]
  · rw [Dict.get_set_ne _ _ htime, Dict.get_erase_ne hisError, Dict.get_set_ne _ _ huuid,
      Dict.get_set_ne _ _ hsensor]

/-- The other fields of an entry are those of the line. -/
theorem get_entry {l : Lines} {no s : PyStr} {ev : LogEvent} {k : Key}
    (hk : k ∉ key "src_ip" :: key "protocol" :: stamps) :
    (l.entry rt env no s ev).fields.get k = (ev.bare rt s).fields.get k := by
  obtain ⟨hip, hk⟩ := not_or.mp (mt List.mem_cons.mpr hk)
  obtain ⟨hprotocol, hk⟩ := not_or.mp (mt List.mem_cons.mpr hk)
  change ((l.withIp no (env.stamp rt ev.fields)).set _ _).get k = _
  rw [Dict.get_set_ne _ _ hprotocol, Lines.withIp]
  cases l.ips.get (.str no) with
  | none => exact get_stamp hk
  | some ip => exact (Dict.get_set_ne _ _ hip).trans (get_stamp hk)

theorem get_timestamp_entry {l : Lines} {no s : PyStr} {ev : LogEvent} :
    (l.entry rt env no s ev).get "timestamp" =
      Entry.get ⟨some s, env.stamp rt ev.fields⟩ "timestamp" := by
  have hne : key "timestamp" ≠ key "protocol" := by decide
  have hip : key "timestamp" ≠ key "src_ip" := by decide
  rw [Entry.get, Entry.get, Entry.getD, Entry.getD, Lines.entry, Dict.get_set_ne _ _ hne,
    Lines.withIp]
  cases l.ips.get (.str no) with
  | none => rfl
  | some ip => exact congrArg (Option.getD · _) (Dict.get_set_ne _ _ hip)

theorem eventid_entry {l : Lines} {no s : PyStr} {ev : LogEvent} (t : PyStr) :
    (l.entry rt env no s ev).eventid? = (ev.bare rt t).eventid? := by
  rw [Entry.eventid?, get_entry (by decide)]
  rfl

theorem isConnect_entry {l : Lines} {no s : PyStr} {ev : LogEvent} (t : PyStr) :
    (l.entry rt env no s ev).isConnect = (ev.bare rt t).isConnect := by
  rw [Entry.isConnect, eventid_entry t]
  rfl

theorem isClose_entry {l : Lines} {no s : PyStr} {ev : LogEvent} (t : PyStr) :
    (l.entry rt env no s ev).isClose = (ev.bare rt t).isClose := by
  rw [Entry.isClose, eventid_entry t]
  rfl

/-- What an entry does to the document of its session. -/
def Entry.effect (e : Entry) : Brought × (Disk → Settings) := (e.brings, fun disk => e.sets disk)

/-- An entry brings and sets what its line does. -/
theorem effect_entry {l : Lines} {no s : PyStr} {ev : LogEvent} :
    (l.entry rt env no s ev).effect = (ev.bare rt s).effect := by
  have hgetD : ∀ name, key name ∉ key "src_ip" :: key "protocol" :: stamps → ∀ default,
      (l.entry rt env no s ev).getD name default = (ev.bare rt s).getD name default :=
    fun name hname default => by rw [Entry.getD, get_entry hname]; rfl
  have hget : ∀ name, key name ∉ key "src_ip" :: key "protocol" :: stamps →
      (l.entry rt env no s ev).get name = (ev.bare rt s).get name :=
    fun name hname => hgetD name hname .none
  have hitem : ∀ name, key name ∉ key "src_ip" :: key "protocol" :: stamps →
      (l.entry rt env no s ev).item name = (ev.bare rt s).item name :=
    fun name hname => by rw [Entry.item, get_entry hname]; rfl
  have hbrings : (l.entry rt env no s ev).brings = (ev.bare rt s).brings := by
    rw [Entry.brings, eventid_entry s, Entry.brings]
    cases (ev.bare rt s).eventid? with
    | none => rfl
    | some eventid =>
      simp only [Entry.broughtBy, Entry.credential, Entry.fileData, hitem "username" (by decide),
        hitem "password" (by decide), hitem "input" (by decide), hgetD "url" (by decide),
        hgetD "outfile" (by decide), hgetD "shasum" (by decide), hgetD "resolved_ip" (by decide)]
  have hsets : ∀ disk, (l.entry rt env no s ev).sets disk = (ev.bare rt s).sets disk := by
    intro disk
    rw [Entry.sets, eventid_entry s, Entry.sets]
    cases (ev.bare rt s).eventid? with
    | none => rfl
    | some eventid =>
      simp only [Entry.setBy, Entry.kex, hget "arch" (by decide), hget "width" (by decide),
        hget "height" (by decide), hget "fingerprint" (by decide), hget "hassh" (by decide),
        hget "hasshAlgorithms" (by decide), hget "kexAlgs" (by decide), hget "keyAlgs" (by decide),
        hget "encCS" (by decide), hget "macCS" (by decide), hget "compCS" (by decide),
        hget "langCS" (by decide), hget "version" (by decide), hget "ttylog" (by decide)]
  rw [Entry.effect, hbrings, funext hsets, Entry.effect]

/-- What a document gathers is a matter of what its entries do to it. -/
theorem SessionMeta.gathered_congr {out : Output} {disk : Disk} {connect : Entry}
    {es es' : List Entry} (h : es.map Entry.effect = es'.map Entry.effect) :
    gathered out disk connect es = gathered out disk connect es' := by
  have hflat : ∀ {α : Type} (f : Brought → List α),
      (es.flatMap fun e => f e.brings) = es'.flatMap fun e => f e.brings := by
    intro α f
    have heq := congrArg (List.flatMap fun x => f x.1) h
    rwa [List.flatMap_map, List.flatMap_map] at heq
  have hlatest : ∀ field, latest disk field es = latest disk field es' := by
    intro field
    have heq := congrArg (List.filterMap fun x => field (x.2 disk)) h
    rw [List.filterMap_map, List.filterMap_map] at heq
    exact congrArg (fun vs => vs.getLast?.getD Obj.none) heq
  simp only [gathered, hflat Brought.credentials, hflat Brought.commands,
    hflat Brought.unknownCommands, hflat Brought.files,
    hflat fun b => (b.files.map FileData.url).filter Obj.truthy, hlatest]

theorem isOk_item {e : Entry} {name : String} :
    (e.item name).isOk ↔ (e.fields.get (key name)).isSome := by
  rw [Entry.item]
  cases e.fields.get (key name) <;> exact Iff.rfl

theorem isSome_get_set {d : Dict} {k k' : Key} {v : Obj} (h : (d.get k').isSome) :
    ((d.set k v).get k').isSome := by
  by_cases hk : k' = k
  · rw [hk, Dict.get_set_self]
    rfl
  · rwa [Dict.get_set_ne _ _ hk]

/-- The address of the transport is put in the place of that of the line. -/
theorem isSome_get_withIp {l : Lines} {no : PyStr} {d : Dict} {k : Key} (h : (d.get k).isSome) :
    ((l.withIp no d).get k).isSome := by
  rw [Lines.withIp]
  cases l.ips.get (.str no) with
  | none => exact h
  | some ip => exact isSome_get_set h

/-- The entry of a complete line is complete. -/
theorem complete_entry {l : Lines} {no s : PyStr} {ev : LogEvent} (h : ev.Complete rt) :
    (l.entry rt env no s ev).Complete := by
  have hkeep : ∀ {k : Key}, ((env.stamp rt ev.fields).get k).isSome →
      ((l.entry rt env no s ev).fields.get k).isSome := fun hsome =>
    isSome_get_set (isSome_get_withIp hsome)
  have htimestamp : ((l.entry rt env no s ev).item "timestamp").isOk := by
    refine isOk_item.mpr (hkeep ?_)
    rw [CoreEnv.stamp, Dict.get_set_self]
    rfl
  have hprotocol : ((l.entry rt env no s ev).item "protocol").isOk := by
    refine isOk_item.mpr ?_
    rw [Lines.entry, Dict.get_set_self]
    rfl
  constructor
  · intro hconnect
    rw [isConnect_entry []] at hconnect
    have hhas := (h.connect hconnect).2
    have hown : ∀ name, key name ∉ stamps → ((ev.bare rt []).item name).isOk →
        ((l.entry rt env no s ev).item name).isOk := by
      intro name hname hok
      refine isOk_item.mpr (hkeep ?_)
      rw [get_stamp hname]
      exact isOk_item.mp hok
    simp only [Entry.Has, List.forall_mem_cons] at hhas ⊢
    obtain ⟨hsrcIp, hsrcPort, hdstIp, hdstPort, -⟩ := hhas
    exact ⟨hprotocol, htimestamp, hown "src_ip" (by decide) hsrcIp,
      hown "src_port" (by decide) hsrcPort, hown "dst_ip" (by decide) hdstIp,
      hown "dst_port" (by decide) hdstPort, List.forall_mem_nil _⟩
  · exact fun _ => List.forall_mem_singleton.mpr htimestamp

/-! ### The observer by its steps -/

/-- What is known of the transports: each has a letter and one session, a text, and an address. -/
structure Lines.Sound (l : Lines) : Prop where
  nodup : (l.sessions.map Prod.fst).Nodup
  text : ∀ kv ∈ l.sessions, ∃ no s, kv = (.str no, .str s) ∧ no ≠ []
  paired : ∀ no, (l.sessions.get (.str no)).isSome ↔ (l.ips.get (.str no)).isSome

theorem Lines.Sound.empty : Lines.Sound {} where
  nodup := List.nodup_nil
  text _ hkv := by cases hkv
  paired _ := Iff.rfl

/-- A transport is given a session. -/
theorem Lines.Sound.set {l : Lines} (h : l.Sound) {no : PyStr} (hno : no ≠ []) (s : PyStr)
    (ip : Obj) : Lines.Sound ⟨l.sessions.set (.str no) (.str s), l.ips.set (.str no) ip⟩ where
  nodup := Dict.nodup_set h.nodup _ _
  text kv hkv := by
    rcases Dict.mem_set hkv with rfl | hkv
    · exact ⟨no, s, rfl, hno⟩
    · exact h.text kv hkv
  paired no' := by
    by_cases heq : Key.str no' = .str no
    · rw [heq, Dict.get_set_self, Dict.get_set_self]
      exact Iff.rfl
    · rw [Dict.get_set_ne _ _ heq, Dict.get_set_ne _ _ heq]
      exact h.paired no'

/-- A transport is forgotten. -/
theorem Lines.Sound.erase {l : Lines} (h : l.Sound) (no : PyStr) :
    Lines.Sound ⟨l.sessions.erase (.str no), l.ips.erase (.str no)⟩ where
  nodup := Dict.nodup_erase h.nodup _
  text kv hkv := h.text kv (List.mem_of_mem_filter hkv)
  paired no' := by
    by_cases heq : Key.str no' = .str no
    · rw [heq, Dict.get_erase_self, Dict.get_erase_self]
    · rw [Dict.get_erase_ne heq, Dict.get_erase_ne heq]
      exact h.paired no'

theorem Lines.at?_eq_some_iff {l : Lines} (h : l.Sound) {no s : PyStr} :
    l.at? no = some s ↔ l.sessions.get (.str no) = some (.str s) := by
  rw [Lines.at?]
  constructor
  · intro hat
    obtain ⟨v, hv, hs⟩ := Option.bind_eq_some_iff.mp hat
    obtain ⟨no', s', heq, -⟩ := h.text _ (Dict.mem_of_get hv)
    obtain ⟨-, rfl⟩ := Prod.mk.inj heq
    obtain rfl := Option.some.inj hs
    exact hv
  · intro hget
    rw [hget]
    rfl

/-- **The transport of a line that names its session** is one that has it. -/
theorem Lines.number_eq_some {l : Lines} (h : l.Sound) {ev : LogEvent} {no s : PyStr}
    (hsessionno : ev.sessionno = none) (hsession : ev.session = some s)
    (hno : l.number rt ev = some no) : l.at? no = some s ∧ no ≠ [] := by
  rw [Lines.number, hsessionno, hsession] at hno
  obtain ⟨kv, hfind, hkey⟩ := Option.bind_eq_some_iff.mp hno
  have hmem := List.mem_of_find?_eq_some hfind
  obtain ⟨no', s', rfl, hne⟩ := h.text kv hmem
  obtain rfl := Option.some.inj hkey
  have hs := List.find?_some hfind
  obtain rfl := Option.some.inj (eq_of_beq hs)
  exact ⟨(Lines.at?_eq_some_iff h).mpr (Dict.get_of_mem h.nodup hmem), hne⟩

variable (rt) in
/-- A line that names its session has a transport if there is one that has the session. -/
theorem Lines.exists_number {l : Lines} (h : l.Sound) {ev : LogEvent} {no s : PyStr}
    (hsessionno : ev.sessionno = none) (hsession : ev.session = some s) (hat : l.at? no = some s) :
    ∃ no', l.number rt ev = some no' := by
  have hmem := Dict.mem_of_get ((Lines.at?_eq_some_iff h).mp hat)
  rw [Lines.number, hsessionno, hsession]
  cases hfind : l.sessions.find? fun kv => kv.2.asStr? == some s with
  | none => exact absurd (List.find?_eq_none.mp hfind _ hmem) (by simp [Obj.asStr?])
  | some kv =>
    obtain ⟨no', s', rfl, -⟩ := h.text kv (List.mem_of_find?_eq_some hfind)
    exact ⟨no', congrArg (Option.bind · _) hfind⟩

/-- The number of a transport has a letter. -/
theorem Lines.number_ne_nil {l : Lines} (h : l.Sound) {ev : LogEvent} (hev : ev.Complete rt)
    {no : PyStr} (hno : l.number rt ev = some no) : no ≠ [] := by
  cases hsessionno : ev.sessionno with
  | some no' =>
    rw [Lines.number, hsessionno] at hno
    rintro rfl
    exact hev.number (hsessionno.trans hno)
  | none =>
    cases hsession : ev.session with
    | some s => exact (Lines.number_eq_some h hsessionno hsession hno).2
    | none =>
      rw [Lines.number, hsessionno, hsession] at hno
      obtain ⟨system, -, hnumber⟩ := Option.bind_eq_some_iff.mp hno
      rw [systemNumber] at hnumber
      split at hnumber
      · rintro rfl
        cases hnumber
      · rintro rfl
        obtain ⟨n, -, hn⟩ := Option.map_eq_some_iff.mp hnumber
        cases hn

variable (env) in
/-- What a line makes of what is known of the transports. -/
theorem Lines.Sound.step {l : Lines} (h : l.Sound) {ev : LogEvent} (hev : ev.Complete rt) :
    (l.step rt env ev).1.Sound := by
  unfold Lines.step
  split_ifs
  · exact h
  · cases hno : l.number rt ev with
    | none => exact h
    | some no =>
      dsimp only
      split_ifs
      · cases ev.session with
        | none => exact h
        | some s =>
          cases (l.withIp no (env.stamp rt ev.fields)).get (key "src_ip") with
          | none => exact h
          | some ip => exact h.set (Lines.number_ne_nil h hev hno) s ip
      · cases l.at? no with
        | none => exact h
        | some s =>
          dsimp only
          split_ifs
          · exact h.erase no
          · exact h

variable (env) in
theorem Lines.Sound.after {l : Lines} (h : l.Sound) {log : List LogEvent}
    (hlog : ∀ ev ∈ log, ev.Complete rt) : (l.after rt env log).Sound := by
  induction log generalizing l with
  | nil => exact h
  | cons ev log ih =>
    obtain ⟨hev, hlog⟩ := List.forall_mem_cons.mp hlog
    exact ih (h.step env hev) hlog

section Emit

variable {σ : Type} {write : Entry → Prog σ Unit}

theorem protocol_of_ne_nil {no : PyStr} (h : no ≠ []) : protocol no = .ok (protocolName no) := by
  cases no with
  | nil => exact absurd rfl h
  | cons c no => rfl

/-- The end of `emit`: the entry is handed over, and a close is noted. -/
theorem run_hand (hwrite : ∀ e p, e.Complete → e.isClose → ((write e).run p).1.isOk)
    {no s : PyStr} {e : Entry} (he : e.Complete) {b : Bus σ} (hb : b.lines.Sound)
    (hat : b.lines.at? no = some s) :
    ((Prog.zoom Bus.plugin (fun p b => { b with plugin := p }) (write e) >>= fun _ =>
      if e.isClose then noteClose no else pure ()).run b).2 =
      ⟨if e.isClose then ⟨b.lines.sessions.erase (.str no), b.lines.ips.erase (.str no)⟩
        else b.lines, ((write e).run b.plugin).2⟩ := by
  have hsessions : (b.lines.sessions.get (.str no)).isSome := by
    rw [(Lines.at?_eq_some_iff hb).mp hat]
    rfl
  rcases hr : (write e).run b.plugin with ⟨err | ⟨⟩, p⟩
  · -- the plugin raised, and so the event is no close
    have hzoom : (Prog.zoom Bus.plugin (fun p b => { b with plugin := p }) (write e)).run b =
        (.error err, { b with plugin := p }) := by
      rw [Prog.run_zoom, hr]
    rw [Prog.run_bind_of_error hzoom]
    have hclose : e.isClose = false := by
      cases hclose : e.isClose with
      | false => rfl
      | true =>
        have := hwrite e b.plugin he hclose
        rw [hr] at this
        exact absurd this Bool.false_ne_true
    rw [hclose]
    rfl
  · have hzoom : (Prog.zoom Bus.plugin (fun p b => { b with plugin := p }) (write e)).run b =
        (.ok (), { b with plugin := p }) := by
      rw [Prog.run_zoom, hr]
    rw [Prog.run_bind_of_ok hzoom]
    split_ifs with hclose
    · have hips := (hb.paired no).mp hsessions
      unfold noteClose
      simp only [Prog.run_bind, Prog.run_get, Option.isNone_iff_eq_none]
      rw [if_neg (Option.isSome_iff_ne_none.mp hsessions)]
      simp only [Prog.run_bind, setLines, Prog.run_modify]
      rw [if_neg (Option.isSome_iff_ne_none.mp hips)]
      rfl
    · rfl

theorem isClose_of_isConnect {e : Entry} (h : e.isConnect) : e.isClose = false := by
  rw [Entry.isClose, eq_of_beq h]
  rfl

variable (env) in
/-- A complete connect is noted. -/
theorem run_noteConnect {ev : LogEvent} (hev : ev.Complete rt)
    (hconnect : (ev.bare rt []).isConnect) (no : PyStr) (b : Bus σ) : ∃ s ip, ev.session = some s ∧
      (b.lines.withIp no (env.stamp rt ev.fields)).get (key "src_ip") = some ip ∧
      (noteConnect no ev (b.lines.withIp no (env.stamp rt ev.fields))).run b = (.ok s, { b with
        lines := ⟨b.lines.sessions.set (.str no) (.str s), b.lines.ips.set (.str no) ip⟩ }) := by
  obtain ⟨hsession, hhas⟩ := hev.connect hconnect
  obtain ⟨s, hs⟩ := Option.isSome_iff_exists.mp hsession
  have hip : ((env.stamp rt ev.fields).get (key "src_ip")).isSome := by
    rw [get_stamp (by decide)]
    exact isOk_item.mp (hhas "src_ip" (by decide))
  obtain ⟨ip, hip⟩ := Option.isSome_iff_exists.mp (@isSome_get_withIp b.lines no _ _ hip)
  refine ⟨s, ip, hs, hip, ?_⟩
  rw [noteConnect, hs]
  simp only [hip]
  rfl

variable (env) in
/-- **`emit` hands the entry to the plugin**, and takes up what a connect or a close says, where the
plugin returns from a close. -/
theorem run_emit (hwrite : ∀ e p, e.Complete → e.isClose → ((write e).run p).1.isOk)
    {ev : LogEvent} (hev : ev.Complete rt) {b : Bus σ} (hb : b.lines.Sound) :
    ((emit rt env write ev).run b).2 =
      ⟨(b.lines.step rt env ev).1, (b.lines.step rt env ev).2.toList.foldl
        (fun p e => ((write e).run p).2) b.plugin⟩ := by
  unfold emit Lines.step
  split_ifs with hlogged
  · rfl
  simp only [Prog.run_bind, Prog.run_get]
  cases hno : b.lines.number rt ev with
  | none => rfl
  | some no =>
    have hne := Lines.number_ne_nil hb hev hno
    dsimp only
    have hfields : Entry.isConnect ⟨none, b.lines.withIp no (env.stamp rt ev.fields)⟩ =
        (b.lines.entry rt env no [] ev).isConnect := by
      rw [Entry.isConnect, Entry.isConnect, Entry.eventid?, Entry.eventid?, Lines.entry,
        Dict.get_set_ne _ _ (by decide)]
    have hproto := protocol_of_ne_nil hne
    rw [hfields]
    -- what comes behind the session was found
    have hrest : ∀ (s : PyStr) (b' : Bus σ), b'.lines.Sound → b'.lines.at? no = some s →
        ((Prog.ofExcept (protocol no) >>= fun proto =>
          Prog.zoom Bus.plugin (fun p b => { b with plugin := p })
              (write ⟨some s, (b.lines.withIp no (env.stamp rt ev.fields)).set (key "protocol")
                (.str proto)⟩) >>= fun _ =>
            if Entry.isClose ⟨some s, (b.lines.withIp no (env.stamp rt ev.fields)).set
              (key "protocol") (.str proto)⟩ then noteClose no else pure ()).run b').2 =
          ⟨if (b.lines.entry rt env no s ev).isClose then
              ⟨b'.lines.sessions.erase (.str no), b'.lines.ips.erase (.str no)⟩ else b'.lines,
            ((write (b.lines.entry rt env no s ev)).run b'.plugin).2⟩ := by
      intro s b' hb' hat
      have hok : (Prog.ofExcept (protocol no)).run b' = (.ok (protocolName no), b') := by
        rw [Prog.run_ofExcept, hproto]
      rw [Prog.run_bind_of_ok hok]
      exact run_hand hwrite (complete_entry hev) hb' hat
    by_cases hconnect : (b.lines.entry rt env no [] ev).isConnect
    · rw [if_pos hconnect, if_pos hconnect]
      obtain ⟨s, ip, hs, hip, hrun⟩ := run_noteConnect env hev
        (by rwa [isConnect_entry []] at hconnect) no b
      rw [hs, hip]
      refine (congrArg Prod.snd (Prog.run_bind_of_ok hrun)).trans ?_
      have hclose : (b.lines.entry rt env no s ev).isClose = false :=
        isClose_of_isConnect (by rw [isConnect_entry []]; rwa [isConnect_entry []] at hconnect)
      refine (hrest s _ (hb.set hne s ip) ?_).trans ?_
      · rw [Lines.at?, Dict.get_set_self]
        rfl
      · rw [hclose]
        rfl
    · rw [if_neg hconnect, if_neg hconnect]
      cases hat : b.lines.at? no with
      | none =>
        have hrun : (sessionOf no).run b = (.error .keyError, b) := by
          have hget : (b.lines.sessions.get (.str no)).bind Obj.asStr? = none := hat
          simp only [sessionOf, Prog.run_bind, Prog.run_get, hget]
          rfl
        exact congrArg Prod.snd (Prog.run_bind_of_error hrun)
      | some s =>
        have hrun : (sessionOf no).run b = (.ok s, b) := by
          have hget : (b.lines.sessions.get (.str no)).bind Obj.asStr? = some s := hat
          simp only [sessionOf, Prog.run_bind, Prog.run_get, hget]
          rfl
        exact (congrArg Prod.snd (Prog.run_bind_of_ok hrun)).trans (hrest s b hb hat)

/-- **A run over a log** is one of the plugin over the entries. -/
theorem observe_eq (hwrite : ∀ e p, e.Complete → e.isClose → ((write e).run p).1.isOk)
    {log : List LogEvent} (hlog : ∀ ev ∈ log, ev.Complete rt) {b : Bus σ} (hb : b.lines.Sound) :
    observe rt env write b log = ⟨b.lines.after rt env log, (b.lines.entries rt env log).foldl
      (fun p e => ((write e).run p).2) b.plugin⟩ := by
  induction log generalizing b with
  | nil => rfl
  | cons ev log ih =>
    obtain ⟨hev, hlog⟩ := List.forall_mem_cons.mp hlog
    have hstep := run_emit env hwrite hev hb
    change observe rt env write ((emit rt env write ev).run b).2 log = _
    rw [hstep, ih hlog (hb.step env hev), Lines.entries, List.foldl_append]
    rfl

end Emit

/-! ### The lines of a session -/

/-- A line belongs to a session on a transport: it names the transport, or else the session. -/
def LogEvent.belongs (rt : Runtime) (no s : PyStr) (ev : LogEvent) : Bool :=
  ev.logged && match ev.sessionno, ev.session with
    | some no', _ => no' == no
    | none, some s' => s' == s
    | none, none => ev.system.bind (systemNumber rt) == some no

/-- The transport, and no other, has the session. -/
structure Lines.Has (l : Lines) (no s : PyStr) : Prop where
  at? : l.at? no = some s
  only : ∀ no', l.at? no' = some s → no' = no

theorem Lines.at?_set (l : Lines) (ips : Dict) (no s no' : PyStr) :
    Lines.at? ⟨l.sessions.set (.str no) (.str s), ips⟩ no' =
      if no' = no then some s else l.at? no' := by
  rw [Lines.at?]
  split_ifs with h
  · rw [h, Dict.get_set_self]
    rfl
  · rw [Dict.get_set_ne _ _ fun heq => h (Key.str.inj heq)]
    rfl

theorem Lines.at?_erase (l : Lines) (ips : Dict) (no no' : PyStr) :
    Lines.at? ⟨l.sessions.erase (.str no), ips⟩ no' = if no' = no then none else l.at? no' := by
  rw [Lines.at?]
  split_ifs with h
  · rw [h, Dict.get_erase_self]
    rfl
  · rw [Dict.get_erase_ne fun heq => h (Key.str.inj heq)]
    rfl

variable {l : Lines} {no s : PyStr} {ev : LogEvent}

/-- A transport has its session from before, or from a connect. -/
theorem Lines.at?_step (h : (l.step rt env ev).1.at? no = some s) :
    l.at? no = some s ∨ (ev.bare rt []).isConnect ∧ ev.session = some s := by
  unfold Lines.step at h
  split_ifs at h
  · exact .inl h
  · cases hno : l.number rt ev with
    | none => exact .inl (by simpa only [hno] using h)
    | some no' =>
      simp only [hno] at h
      split_ifs at h with hconnect
      · rw [isConnect_entry []] at hconnect
        cases hsession : ev.session with
        | none => exact .inl (by simpa only [hsession] using h)
        | some s' =>
          cases hip : (l.withIp no' (env.stamp rt ev.fields)).get (key "src_ip") with
          | none => exact .inl (by simpa only [hsession, hip] using h)
          | some ip =>
            simp only [hsession, hip, Lines.at?_set] at h
            split_ifs at h
            · exact .inr ⟨hconnect, h⟩
            · exact .inl h
      · cases hat : l.at? no' with
        | none => exact .inl (by simpa only [hat] using h)
        | some s' =>
          simp only [hat] at h
          split_ifs at h
          · rw [Lines.at?_erase] at h
            split_ifs at h
            exact .inl h
          · exact .inl h

/-- A session that no connect brings is with no transport. -/
theorem Lines.at?_after_ne {log : List LogEvent} (h : ∀ no, l.at? no ≠ some s)
    (hfresh : ∀ ev ∈ log, (ev.bare rt []).isConnect → ev.session ≠ some s) :
    ∀ no, (l.after rt env log).at? no ≠ some s := by
  induction log generalizing l with
  | nil => exact h
  | cons ev log ih =>
    obtain ⟨hev, hfresh⟩ := List.forall_mem_cons.mp hfresh
    refine ih (fun no hat => ?_) hfresh
    rcases Lines.at?_step hat with hat | ⟨hconnect, hsession⟩
    · exact h no hat
    · exact hev hconnect hsession

/-- The transport of a line that belongs to a session. -/
theorem Lines.Has.number_of_belongs (h : l.Has no s) (hl : l.Sound)
    (hbelongs : ev.belongs rt no s) : l.number rt ev = some no := by
  rw [LogEvent.belongs, Bool.and_eq_true] at hbelongs
  obtain ⟨-, hbelongs⟩ := hbelongs
  cases hsessionno : ev.sessionno with
  | some no' =>
    rw [hsessionno] at hbelongs
    rw [Lines.number, hsessionno, eq_of_beq hbelongs]
  | none =>
    cases hsession : ev.session with
    | some s' =>
      rw [hsessionno, hsession] at hbelongs
      obtain rfl := eq_of_beq hbelongs
      obtain ⟨no', hno'⟩ := Lines.exists_number rt hl hsessionno hsession h.at?
      rw [hno', h.only no' (Lines.number_eq_some hl hsessionno hsession hno').1]
    | none =>
      rw [hsessionno, hsession] at hbelongs
      rw [Lines.number, hsessionno, hsession]
      exact eq_of_beq hbelongs

/-- Another line is of another transport, if it has one. -/
theorem Lines.Has.number_ne (h : l.Has no s) (hl : l.Sound) (hlogged : ev.logged)
    (hbelongs : ¬ ev.belongs rt no s) {no' : PyStr} (hno' : l.number rt ev = some no') :
    no' ≠ no := by
  rintro rfl
  refine hbelongs (Bool.and_eq_true_iff.mpr ⟨hlogged, ?_⟩)
  cases hsessionno : ev.sessionno with
  | some no =>
    rw [Lines.number, hsessionno] at hno'
    exact beq_iff_eq.mpr (Option.some.inj hno')
  | none =>
    cases hsession : ev.session with
    | some s' =>
      have hat := (Lines.number_eq_some hl hsessionno hsession hno').1
      rw [h.at?] at hat
      exact beq_iff_eq.mpr (Option.some.inj hat).symm
    | none =>
      rw [Lines.number, hsessionno, hsession] at hno'
      exact beq_iff_eq.mpr hno'

variable (env) in
/-- A line that belongs to a session, and is no connect, becomes an entry of it. -/
theorem Lines.Has.step_of_belongs (h : l.Has no s) (hl : l.Sound) (hbelongs : ev.belongs rt no s)
    (hconnect : ¬ (ev.bare rt []).isConnect) : l.step rt env ev =
      (if (ev.bare rt []).isClose then ⟨l.sessions.erase (.str no), l.ips.erase (.str no)⟩ else l,
        some (l.entry rt env no s ev)) := by
  have hlogged : ¬ (!ev.logged) = true := by
    simp [(Bool.and_eq_true_iff.mp hbelongs).1]
  rw [Lines.step, if_neg hlogged, h.number_of_belongs hl hbelongs]
  dsimp only
  rw [if_neg (by rwa [isConnect_entry []]), h.at?]
  simp only [isClose_entry []]

variable (env) in
/-- Another line leaves the session with its transport, and becomes no entry of it. -/
theorem Lines.Has.step_of_not_belongs (h : l.Has no s) (hl : l.Sound)
    (hbelongs : ¬ ev.belongs rt no s)
    (hfresh : (ev.bare rt []).isConnect → ev.session ≠ some s) :
    (l.step rt env ev).1.Has no s ∧ ∀ e ∈ (l.step rt env ev).2, e.session ≠ some s := by
  have honly : ∀ no', (l.step rt env ev).1.at? no' = some s → no' = no := fun no' hat =>
    h.only no' ((Lines.at?_step hat).resolve_right fun hc => hfresh hc.1 hc.2)
  refine (?_ : (l.step rt env ev).1.at? no = some s ∧ _).imp_left fun hat => ⟨hat, honly⟩
  unfold Lines.step
  split_ifs with hlogged
  · exact ⟨h.at?, fun _ he => absurd he (Option.not_mem_none _)⟩
  have hlogged : ev.logged = true := by simpa using hlogged
  cases hno : l.number rt ev with
  | none => exact ⟨h.at?, fun _ he => absurd he (Option.not_mem_none _)⟩
  | some no' =>
    have hne := h.number_ne hl hlogged hbelongs hno
    dsimp only
    split_ifs with hconnect
    · rw [isConnect_entry []] at hconnect
      cases hsession : ev.session with
      | none => exact ⟨h.at?, fun _ he => absurd he (Option.not_mem_none _)⟩
      | some s' =>
        have hs' : s' ≠ s := fun heq => hfresh hconnect (heq ▸ hsession)
        cases (l.withIp no' (env.stamp rt ev.fields)).get (key "src_ip") with
        | none => exact ⟨h.at?, fun _ he => absurd he (Option.not_mem_none _)⟩
        | some ip =>
          refine ⟨?_, fun e he => ?_⟩
          · rw [Lines.at?_set, if_neg hne.symm]
            exact h.at?
          · obtain rfl := Option.some.inj he
            exact fun heq => hs' (Option.some.inj heq)
    · cases hat : l.at? no' with
      | none => exact ⟨h.at?, fun _ he => absurd he (Option.not_mem_none _)⟩
      | some s' =>
        have hs' : s' ≠ s := fun heq => hne (h.only no' (heq ▸ hat))
        refine ⟨?_, fun e he => ?_⟩
        · dsimp only
          split_ifs
          · rw [Lines.at?_erase, if_neg hne.symm]
            exact h.at?
          · exact h.at?
        · obtain rfl := Option.some.inj he
          exact fun heq => hs' (Option.some.inj heq)

variable (env) in
/-- **The entries of a session** while it is open: those of the lines that belong to it. -/
theorem Lines.Has.entries (h : l.Has no s) (hl : l.Sound) {log : List LogEvent}
    (hlog : ∀ ev ∈ log, ev.Complete rt)
    (hfresh : ∀ ev ∈ log, (ev.bare rt []).isConnect → ev.session ≠ some s)
    (hquiet : ∀ ev ∈ log, ev.belongs rt no s →
      ¬ (ev.bare rt []).isConnect ∧ ¬ (ev.bare rt []).isClose) :
    (l.after rt env log).Has no s ∧
      (own s (l.entries rt env log)).map Entry.effect =
        ((log.filter (LogEvent.belongs rt no s)).map (LogEvent.bare rt s)).map Entry.effect ∧
      ∀ e ∈ own s (l.entries rt env log), ¬ e.isConnect ∧ ¬ e.isClose := by
  induction log generalizing l with
  | nil => exact ⟨h, rfl, List.forall_mem_nil _⟩
  | cons ev log ih =>
    obtain ⟨hev, hlog⟩ := List.forall_mem_cons.mp hlog
    obtain ⟨hevFresh, hfresh⟩ := List.forall_mem_cons.mp hfresh
    obtain ⟨hevQuiet, hquiet⟩ := List.forall_mem_cons.mp hquiet
    by_cases hbelongs : ev.belongs rt no s
    · obtain ⟨hconnect, hclose⟩ := hevQuiet hbelongs
      have hstep := h.step_of_belongs env hl hbelongs hconnect
      rw [if_neg hclose] at hstep
      obtain ⟨hhas, heffect, hnone⟩ := ih h hl hlog hfresh hquiet
      have hown : own s (l.entries rt env (ev :: log)) =
          l.entry rt env no s ev :: own s (l.entries rt env log) := by
        rw [Lines.entries, hstep]
        exact List.filter_cons_of_pos (decide_eq_true rfl)
      refine ⟨?_, ?_, ?_⟩
      · change ((l.step rt env ev).1.after rt env log).Has no s
        rw [hstep]
        exact hhas
      · rw [hown, List.filter_cons_of_pos hbelongs, List.map_cons, List.map_cons, List.map_cons,
          heffect, effect_entry]
      · rw [hown]
        refine List.forall_mem_cons.mpr ⟨⟨?_, ?_⟩, hnone⟩
        · rw [isConnect_entry []]
          exact hconnect
        · rw [isClose_entry []]
          exact hclose
    · obtain ⟨hhas, hother⟩ := h.step_of_not_belongs env hl hbelongs hevFresh
      obtain ⟨hafter, heffect, hnone⟩ := ih hhas (hl.step env hev) hlog hfresh hquiet
      have hown : own s (l.entries rt env (ev :: log)) =
          own s ((l.step rt env ev).1.entries rt env log) := by
        rw [Lines.entries, own, List.filter_append]
        have hnil : (l.step rt env ev).2.toList.filter (fun e => e.session = some s) = [] :=
          List.filter_eq_nil_iff.mpr fun e he => by
            simpa using hother e (Option.mem_toList.mp he)
        rw [hnil]
        rfl
      refine ⟨hafter, ?_, ?_⟩
      · rw [hown, List.filter_cons_of_neg hbelongs, heffect]
      · rwa [hown]

variable (env) in
/-- A connect that names its transport gives it a session that no transport has. -/
theorem Lines.has_step_of_connect (h : ∀ no, l.at? no ≠ some s) (hev : ev.Complete rt)
    (hlogged : ev.logged) (hconnect : (ev.bare rt []).isConnect)
    (hsessionno : ev.sessionno = some no) (hsession : ev.session = some s) :
    (l.step rt env ev).1.Has no s ∧
      (l.step rt env ev).2 = some (l.entry rt env no s ev) := by
  have hip : ((l.withIp no (env.stamp rt ev.fields)).get (key "src_ip")).isSome := by
    refine isSome_get_withIp ?_
    rw [get_stamp (by decide)]
    exact isOk_item.mp ((hev.connect hconnect).2 "src_ip" (by decide))
  obtain ⟨ip, hip⟩ := Option.isSome_iff_exists.mp hip
  have hstep : l.step rt env ev = (⟨l.sessions.set (.str no) (.str s), l.ips.set (.str no) ip⟩,
      some (l.entry rt env no s ev)) := by
    have hnumber : l.number rt ev = some no := by rw [Lines.number, hsessionno]
    rw [Lines.step, if_neg (by simp [hlogged]), hnumber]
    dsimp only
    rw [if_pos (by rwa [isConnect_entry []]), hsession, hip]
  rw [hstep]
  refine ⟨⟨?_, fun no' hat => ?_⟩, rfl⟩
  · rw [Lines.at?_set, if_pos rfl]
  · rw [Lines.at?_set] at hat
    split_ifs at hat with heq
    · exact heq
    · exact absurd hat (h no')

theorem Lines.after_append (l : Lines) (log log' : List LogEvent) :
    l.after rt env (log ++ log') = (l.after rt env log).after rt env log' := List.foldl_append

theorem Lines.entries_append (l : Lines) (log log' : List LogEvent) :
    l.entries rt env (log ++ log') =
      l.entries rt env log ++ (l.after rt env log).entries rt env log' := by
  induction log generalizing l with
  | nil => rfl
  | cons ev log ih =>
    rw [List.cons_append, Lines.entries, ih, Lines.entries, List.append_assoc]
    rfl

/-- The entry a line becomes: its session is that of a transport, or that of a connect. -/
theorem Lines.mem_step {e : Entry} (he : e ∈ (l.step rt env ev).2) :
    ∃ no s, e = l.entry rt env no s ev ∧
      (l.at? no = some s ∨ (ev.bare rt []).isConnect ∧ ev.session = some s) := by
  unfold Lines.step at he
  split_ifs at he
  · cases he
  · cases hno : l.number rt ev with
    | none =>
      rw [hno] at he
      cases he
    | some no =>
      simp only [hno] at he
      split_ifs at he with hconnect
      · cases hsession : ev.session with
        | none => simp [hsession] at he
        | some s =>
          cases hip : (l.withIp no (env.stamp rt ev.fields)).get (key "src_ip") with
          | none => simp [hsession, hip] at he
          | some ip =>
            simp only [hsession, hip, Option.mem_some_iff] at he
            exact ⟨no, s, he.symm, .inr ⟨(isConnect_entry []).symm.trans hconnect, rfl⟩⟩
      · cases hat : l.at? no with
        | none => simp [hat] at he
        | some s =>
          simp only [hat, Option.mem_some_iff] at he
          exact ⟨no, s, he.symm, .inl hat⟩

/-- Every entry is complete, and has a session. -/
theorem Lines.complete_entries {log : List LogEvent} (hlog : ∀ ev ∈ log, ev.Complete rt) :
    ∀ e ∈ l.entries rt env log, e.Complete ∧ e.session.isSome := by
  induction log generalizing l with
  | nil => exact List.forall_mem_nil _
  | cons ev log ih =>
    obtain ⟨hev, hlog⟩ := List.forall_mem_cons.mp hlog
    refine List.forall_mem_append.mpr ⟨fun e he => ?_, ih hlog⟩
    obtain ⟨no, s, rfl, -⟩ := Lines.mem_step (Option.mem_toList.mp he)
    exact ⟨complete_entry hev, rfl⟩

/-- A session that no connect brings has no entries. -/
theorem Lines.own_entries_eq_nil {log : List LogEvent} (h : ∀ no, l.at? no ≠ some s)
    (hfresh : ∀ ev ∈ log, (ev.bare rt []).isConnect → ev.session ≠ some s) :
    own s (l.entries rt env log) = [] := by
  induction log generalizing l with
  | nil => rfl
  | cons ev log ih =>
    obtain ⟨hev, hlog⟩ := List.forall_mem_cons.mp hfresh
    have hnext : ∀ no, (l.step rt env ev).1.at? no ≠ some s := by
      intro no hat
      rcases Lines.at?_step hat with hat | ⟨hconnect, hsession⟩
      · exact h no hat
      · exact hev hconnect hsession
    rw [Lines.entries, own, List.filter_append, ← own, ← own, ih hnext hlog, List.append_nil]
    refine List.filter_eq_nil_iff.mpr fun e he => ?_
    obtain ⟨no, s', rfl, hs'⟩ := Lines.mem_step (Option.mem_toList.mp he)
    rw [decide_eq_true_eq]
    intro hs
    obtain rfl : s' = s := Option.some.inj hs
    rcases hs' with hat | ⟨hconnect, hsession⟩
    · exact h no hat
    · exact hev hconnect hsession

/-- A session in a log: it connects on a transport, under a name of its own, and closes there. -/
structure LogSession (rt : Runtime) (before between : List LogEvent) (connect close : LogEvent)
    (no s : PyStr) : Prop where
  complete : ∀ ev ∈ before ++ connect :: between, ev.Complete rt
  completeClose : close.Complete rt
  fresh : ∀ ev ∈ before ++ between, (ev.bare rt []).isConnect → ev.session ≠ some s
  logged : connect.logged
  isConnect : (connect.bare rt []).isConnect
  sessionno : connect.sessionno = some no
  session : connect.session = some s
  quiet : ∀ ev ∈ between, ev.belongs rt no s →
    ¬ (ev.bare rt []).isConnect ∧ ¬ (ev.bare rt []).isClose
  belongs : close.belongs rt no s
  isClose : (close.bare rt []).isClose

namespace LogSession

variable {before between : List LogEvent} {connect close : LogEvent}

variable (env) in
/-- Before its close the session is with its transport, and its entries are those of the connect and
of the lines that belong to it. -/
theorem entries (h : LogSession rt before between connect close no s) :
    Lines.Has (Lines.after rt env {} (before ++ connect :: between)) no s ∧
      ∃ es, own s (Lines.entries rt env {} (before ++ connect :: between)) =
          (Lines.after rt env {} before).entry rt env no s connect :: es ∧
        ((Lines.after rt env {} before).entry rt env no s connect).isConnect ∧
        es.map Entry.effect =
          ((between.filter (LogEvent.belongs rt no s)).map (LogEvent.bare rt s)).map Entry.effect ∧
        ∀ e ∈ es, ¬ e.isConnect ∧ ¬ e.isClose := by
  obtain ⟨hbefore, hrest⟩ := List.forall_mem_append.mp h.complete
  obtain ⟨hfirst, hbetween⟩ := List.forall_mem_cons.mp hrest
  obtain ⟨hfreshBefore, hfreshBetween⟩ := List.forall_mem_append.mp h.fresh
  have hempty : ∀ no, Lines.at? {} no ≠ some s := fun no h => by cases h
  have hnone := @Lines.at?_after_ne rt env {} s before hempty hfreshBefore
  obtain ⟨hhas, hentry⟩ := Lines.has_step_of_connect env hnone hfirst h.logged h.isConnect
    h.sessionno h.session
  have hsound : (Lines.after rt env {} before).Sound := Lines.Sound.empty.after env hbefore
  obtain ⟨hhas', heffect, hkinds⟩ := hhas.entries env (hsound.step env hfirst) hbetween
    hfreshBetween h.quiet
  refine ⟨?_, _, ?_, (isConnect_entry []).trans h.isConnect, heffect, hkinds⟩
  · rw [Lines.after_append]
    exact hhas'
  · have hnoEntry : own s (Lines.entries rt env {} before) = [] :=
      Lines.own_entries_eq_nil hempty hfreshBefore
    rw [Lines.entries_append, own, List.filter_append, ← own, hnoEntry, Lines.entries, hentry,
      List.nil_append]
    refine List.filter_cons_of_pos ?_
    exact decide_eq_true rfl

variable (env) in
/-- The close takes the session from its transport. -/
theorem step_close (h : LogSession rt before between connect close no s) (hl : l.Sound)
    (hhas : l.Has no s) : l.step rt env close =
      (⟨l.sessions.erase (.str no), l.ips.erase (.str no)⟩, some (l.entry rt env no s close)) := by
  refine (hhas.step_of_belongs env hl h.belongs fun hc => ?_).trans (by rw [if_pos h.isClose])
  have hnot : (close.bare rt []).isClose = false := isClose_of_isConnect hc
  exact Bool.false_ne_true (hnot.symm.trans h.isClose)

end LogSession

end Steps

/-! ### The documents of a log -/

namespace Output

variable (out : Output) (disk : Disk)

/-- The plugin returns from a close. -/
theorem isOk_write_of_isClose (hdisk : ∀ path err, disk path ≠ .raised err) (e : Entry) (s : State)
    (he : e.Complete) (hclose : e.isClose) : ((out.write disk e).run s).1.isOk := by
  have hitem : e.item "eventid" = .ok (.str closedId) := by
    obtain ⟨v, hget, hv⟩ := Option.bind_eq_some_iff.mp (eq_of_beq hclose)
    rw [Entry.item, hget]
    cases v <;> cases hv
    rfl
  unfold write
  simp only [Prog.run_bind, Prog.run_get, Prog.run_ofExcept, hitem]
  by_cases hguard : (e.session.isNone || (s.sessions e.session).isNone) && closedId ≠ connectId
  · rw [if_pos hguard]
    rfl
  rw [if_neg hguard, if_neg (by decide)]
  cases hm : s.sessions e.session with
  | none => rfl
  | some m =>
    simp only [if_true, Prog.run_bind, assign, Prog.run_modify]
    split_ifs
    · simp only [Prog.run_bind, Prog.run_ofExcept, out.closeMeta_eq disk he hclose hdisk]
      rfl
    · rfl

variable {rt : Runtime} (env : CoreEnv)

/-- A run of the plugin over a log from its start. -/
theorem observe_write (hdisk : ∀ path err, disk path ≠ .raised err) {log : List LogEvent}
    (hlog : ∀ ev ∈ log, ev.Complete rt) :
    observe rt env (out.write disk) { plugin := {} } log =
      ⟨Lines.after rt env {} log, out.feed disk {} (Lines.entries rt env {} log)⟩ :=
  observe_eq (fun e s he hclose => out.isOk_write_of_isClose disk hdisk e s he hclose) hlog
    Lines.Sound.empty

variable {env}

/-- The document of a session in a log: that of its connect, with the number of the transport and
the address it has, of the lines that belong to it, and of the time of its close. -/
def sessionDocument (rt : Runtime) (env : CoreEnv) (before between : List LogEvent)
    (connect close : LogEvent) (no s : PyStr) : SessionMeta :=
  (SessionMeta.gathered out disk ((Lines.after rt env {} before).entry rt env no s connect)
    ((between.filter (LogEvent.belongs rt no s)).map (LogEvent.bare rt s))).closed out disk
      ⟨some s, env.stamp rt close.fields⟩

theorem gathers_sessionDocument {before between : List LogEvent} {connect close : LogEvent}
    {no s : PyStr} : (out.sessionDocument disk rt env before between connect close no s).Gathers
    ((between.filter (LogEvent.belongs rt no s)).map (LogEvent.bare rt s)) :=
  out.gathers_closed disk (SessionMeta.gathers_gathered out disk _ _) _

variable (env) in
/-- **The document of a session** is emitted at its close. -/
theorem emitted_of_session (hstarted : out.started)
    (hdisk : ∀ path err, disk path ≠ .raised err)
    {before between : List LogEvent} {connect close : LogEvent} {no s : PyStr}
    (h : LogSession rt before between connect close no s) :
    (observe rt env (out.write disk) { plugin := {} }
        (before ++ connect :: between ++ [close])).plugin.emitted =
      (observe rt env (out.write disk) { plugin := {} }
        (before ++ connect :: between)).plugin.emitted ++ [(cowrieTopic,
          (out.sessionDocument disk rt env before between connect close no s).toDict out)] := by
  obtain ⟨hhas, es, hown, hc, heffect, hkinds⟩ := h.entries env
  obtain ⟨W, hW⟩ : ∃ W, W = Lines.entries rt env {} (before ++ connect :: between) := ⟨_, rfl⟩
  obtain ⟨l, hl⟩ : ∃ l, l = Lines.after rt env {} (before ++ connect :: between) := ⟨_, rfl⟩
  rw [← hW] at hown
  rw [← hl] at hhas
  have hsound : l.Sound := hl ▸ Lines.Sound.empty.after env h.complete
  have hstep := h.step_close env hsound hhas
  have hcomplete : ∀ e ∈ W, e.Complete := fun e he =>
    (Lines.complete_entries h.complete e (hW ▸ he)).1
  obtain ⟨c, rest, hsince, -, hemitted⟩ := out.document_of_close disk hstarted hdisk hcomplete
    (@complete_entry rt env l no s _ h.completeClose) rfl
    ((isClose_entry []).trans h.isClose) ⟨[], _, es, hown, hc, fun e he => (hkinds e he).2⟩
  have hsince' : since s W = (Lines.after rt env {} before).entry rt env no s connect :: es := by
    rw [since, hown]
    exact Keyed.since_of_last [] hc fun e he => (hkinds e he).1
  obtain ⟨rfl, rfl⟩ := List.cons.inj (hsince.symm.trans hsince')
  -- of the close the document takes the time only
  have hclosed : ∀ m : SessionMeta, m.closed out disk (l.entry rt env no s close) =
      m.closed out disk ⟨some s, env.stamp rt close.fields⟩ := fun m => by
    rw [SessionMeta.closed, SessionMeta.closed, get_timestamp_entry]
  rw [hclosed, SessionMeta.gathered_congr heffect] at hemitted
  rw [out.observe_write disk env hdisk h.complete, out.observe_write disk env hdisk
      (List.forall_mem_append.mpr ⟨h.complete, List.forall_mem_singleton.mpr h.completeClose⟩),
    Lines.entries_append, ← hl, ← hW]
  have hlast : l.entries rt env [close] = [l.entry rt env no s close] := by
    rw [Lines.entries, hstep]
    rfl
  rw [hlast]
  exact (out.emitted_feed disk W _).trans (congrArg _ ((out.emittedBy_eq disk W _).symm.trans
    hemitted))

/-- Behind the close no transport has the session, until a connect brings its name again. -/
theorem at?_after_close {before between later : List LogEvent} {connect close : LogEvent}
    {no s : PyStr} (h : LogSession rt before between connect close no s)
    (hfresh : ∀ ev ∈ later, (ev.bare rt []).isConnect → ev.session ≠ some s) :
    ∀ no', (Lines.after rt env {} (before ++ connect :: between ++ [close] ++ later)).at? no' ≠
      some s := by
  rw [Lines.after_append, Lines.after_append]
  refine Lines.at?_after_ne (fun no' hat => ?_) hfresh
  have hhas := (h.entries env).1
  have hsound : (Lines.after rt env {} (before ++ connect :: between)).Sound :=
    Lines.Sound.empty.after env h.complete
  have hlines : (Lines.after rt env {} (before ++ connect :: between)).after rt env [close] = _ :=
    congrArg Prod.fst (h.step_close env hsound hhas)
  rw [hlines, Lines.at?_erase] at hat
  split_ifs at hat with hne
  exact hne (hhas.only no' hat)

/-- **From the lines of the log to a document**: a session that connected on a transport, under a
name of its own, is emitted at its close as the document of the lines between that name its
transport or else the session itself, whatever lines of other transports stand between them.
Whatever comes later, a line that names the session is passed over until its name comes with another
connect. -/
theorem document_of_log (hstarted : out.started) (hdisk : ∀ path err, disk path ≠ .raised err)
    {before between : List LogEvent} {connect close : LogEvent} {no s : PyStr}
    (h : LogSession rt before between connect close no s) :
    (observe rt env (out.write disk) { plugin := {} }
        (before ++ connect :: between ++ [close])).plugin.emitted =
      (observe rt env (out.write disk) { plugin := {} }
        (before ++ connect :: between)).plugin.emitted ++ [(cowrieTopic,
          (out.sessionDocument disk rt env before between connect close no s).toDict out)] ∧
      ∀ later : List LogEvent, (∀ ev ∈ later, ev.Complete rt ∧
          ((ev.bare rt []).isConnect → ev.session ≠ some s)) →
        ∀ late : LogEvent, late.sessionno = none → late.session = some s →
          (emit rt env (out.write disk) late).run (observe rt env (out.write disk) { plugin := {} }
              (before ++ connect :: between ++ [close] ++ later)) =
            (.ok (), observe rt env (out.write disk) { plugin := {} }
              (before ++ connect :: between ++ [close] ++ later)) := by
  refine ⟨out.emitted_of_session disk env hstarted hdisk h, fun later hlater late hsessionno
    hsession => ?_⟩
  have hcomplete : ∀ ev ∈ before ++ connect :: between ++ [close] ++ later, ev.Complete rt :=
    List.forall_mem_append.mpr ⟨List.forall_mem_append.mpr ⟨h.complete,
      List.forall_mem_singleton.mpr h.completeClose⟩, fun ev hev => (hlater ev hev).1⟩
  rw [out.observe_write disk env hdisk hcomplete]
  have hsound : (Lines.after rt env {} (before ++ connect :: between ++ [close] ++ later)).Sound :=
    Lines.Sound.empty.after env hcomplete
  have hgone := @at?_after_close rt env _ _ later _ _ _ _ h fun ev hev => (hlater ev hev).2
  have hnone : (Lines.after rt env {}
      (before ++ connect :: between ++ [close] ++ later)).number rt late = none := by
    cases hnumber : (Lines.after rt env {}
        (before ++ connect :: between ++ [close] ++ later)).number rt late with
    | none => rfl
    | some no' =>
      exact absurd (Lines.number_eq_some hsound hsessionno hsession hnumber).1 (hgone no')
  unfold emit
  split_ifs
  · rfl
  · simp only [Prog.run_bind, Prog.run_get, hnone]
    rfl

/-- A line of the log for closed examples. -/
def demoLine (id : String) (fields : List (String × String)) : Dict :=
  (key "eventid", .str (str id)) :: (key "format", .str []) :: fields.map fun f =>
    (key f.1, .str (str f.2))

/-- A connect. -/
def demoConnect (no s : String) : LogEvent where
  sessionno := some (str no)
  session := some (str s)
  fields := demoLine "cowrie.session.connect" [("src_ip", "192.0.2.7"), ("src_port", "4711"),
    ("dst_ip", "192.0.2.1"), ("dst_port", "22")]

/-- The lines of a session, in which another one closes and a fetch ends. -/
def demoBetween : List LogEvent :=
  [{ system := some (str "CowrieSSHTransport,1,192.0.2.7")
     fields := demoLine "cowrie.client.version" [("version", "SSH-2.0-Go")] },
   { system := some (str "CowrieSSHTransport,1,192.0.2.7")
     fields := demoLine "cowrie.command.input" [("input", "uname")] },
   { system := some (str "CowrieTelnetTransport,2,192.0.2.7")
     fields := demoLine "cowrie.session.closed" [] },
   { session := some (str "a1")
     fields := demoLine "cowrie.session.file_download" [("url", "http://192.0.2.9/x")] }]

/-- The close of the session. -/
def demoClose : LogEvent where
  system := some (str "CowrieSSHTransport,1,192.0.2.7")
  fields := demoLine "cowrie.session.closed" []

/-- What the sensor knows, for closed examples. -/
def demoCore : CoreEnv := ⟨str "sensor", str "0b7c", .int 0, fun _ => str "12:00"⟩

/-- The document of the session. -/
def demoDocument : SessionMeta :=
  demo.sessionDocument (fun _ => .content []) .basic demoCore [demoConnect "T2" "b2"]
    demoBetween (demoConnect "S1" "a1") demoClose (str "S1") (str "a1")

/-- A fetch of the session that ends when its transport has another one. -/
def demoLate : LogEvent where
  session := some (str "a1")
  fields := demoLine "cowrie.session.file_download" [("url", "http://192.0.2.9/y")]

theorem document_of_log_demo :
    ([demoDocument.protocol, demoDocument.srcIp, demoDocument.version,
          demoDocument.endTime].map Obj.asStr? =
        [some (str "ssh"), some (str "192.0.2.7"), some (str "SSH-2.0-Go"), some (str "12:00")] ∧
      demoDocument.commands.map Obj.asStr? = [some (str "uname")] ∧
        demoDocument.urls.map Obj.asStr? = [some (str "http://192.0.2.9/x")]) ∧
      (observe .basic demoCore (demo.write fun _ => .content []) { plugin := {} }
          ([demoConnect "T2" "b2"] ++ demoConnect "S1" "a1" :: demoBetween ++
            [demoClose])).plugin.emitted =
        (observe .basic demoCore (demo.write fun _ => .content []) { plugin := {} }
          ([demoConnect "T2" "b2"] ++ demoConnect "S1" "a1" :: demoBetween)).plugin.emitted ++
          [(cowrieTopic, demoDocument.toDict demo)] ∧
      (emit .basic demoCore (demo.write fun _ => .content []) demoLate).run
          (observe .basic demoCore (demo.write fun _ => .content []) { plugin := {} }
            ([demoConnect "T2" "b2"] ++ demoConnect "S1" "a1" :: demoBetween ++ [demoClose] ++
              [demoConnect "S1" "c3"])) =
        (.ok (), observe .basic demoCore (demo.write fun _ => .content []) { plugin := {} }
          ([demoConnect "T2" "b2"] ++ demoConnect "S1" "a1" :: demoBetween ++ [demoClose] ++
            [demoConnect "S1" "c3"])) := by
  have h : LogSession .basic [demoConnect "T2" "b2"] demoBetween (demoConnect "S1" "a1") demoClose
      (str "S1") (str "a1") := by
    constructor <;> decide +kernel
  have hlater : ∀ ev ∈ [demoConnect "S1" "c3"], ev.Complete .basic ∧
      ((ev.bare .basic []).isConnect → ev.session ≠ some (str "a1")) := by
    decide +kernel
  refine ⟨by decide +kernel, ?_⟩
  rw [demoDocument]
  exact (@document_of_log demo (fun _ => .content []) .basic demoCore rfl
    (fun _ _ h => FileRead.noConfusion h) _ _ _ _ _ _ h).imp_right fun hlate =>
      hlate _ hlater demoLate rfl rfl

end Output

end C2Engine.Sensor
