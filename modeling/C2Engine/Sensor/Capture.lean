import C2Engine.Sensor.DownloadStore

/-!
# Whose downloads a document lists

The plugins of the sensor observe one log. The fetcher is handed the entries of its lines, fetches
the URLs of their commands on threads of its own, and has the reactor log a line for each download
that is stored; by then the session may have gone on, or another may have asked for the same URL.
The plugin of the sessions takes such a line as a file of the session it names.

## Main definitions

* `Capture`, `Happening`, `Capture.perform`: the log, the fetcher behind its observer, and the lines
  the reactor has yet to log.
* `Job.file`: a download in a document.

## Main results

* `Capture.follows`: the fetcher is handed what the lines of the log become.
* `downloads_of_document`: the document of a session lists the downloads that name it, and has the
  command each was asked for with.
-/

namespace C2Engine.Sensor.UrlFetcher

open Python Machine

/-- The log, the fetcher behind its observer, and how many of its lines were logged. -/
structure Capture where
  bus : Bus Fetcher
  told : ℕ := 0
  log : List LogEvent := []

/-- What happens next: the honeypot logs a line, a worker makes its next call, or the reactor takes
the next call the workers left it. -/
inductive Happening where
  | line (ev : LogEvent)
  | worker (i : ℕ) (outcome : Option ℕ)
  | tell

section Run

variable (rt : Runtime) (env : CoreEnv) (path : PyStr) (replies : Replies)

/-- The `write` of the fetcher. -/
def Fetcher.observer (e : Entry) : Prog Fetcher Unit :=
  Prog.modify (Fetcher.perform rt path replies (.entry e))

/-- A line is logged. -/
def Capture.logLine (c : Capture) (ev : LogEvent) : Capture :=
  { c with
    bus := ((emit rt env (Fetcher.observer rt path replies) ev).run c.bus).2
    log := c.log ++ [ev] }

/-- What happens next. -/
def Capture.perform : Happening → Capture → Capture
  | .line ev, c => c.logLine rt env path replies ev
  | .worker i outcome, c =>
    { c with bus := { c.bus with plugin := c.bus.plugin.work rt path replies i outcome } }
  | .tell, c =>
    match c.bus.plugin.log[c.told]? with
    | none => c
    | some ev => { c.logLine rt env path replies ev with told := c.told + 1 }

/-- The sensor after a run, from what the fetcher found in its directory. -/
def captureAfter (d : Directory PyStr) (hs : List Happening) : Capture :=
  after (Capture.perform rt env path replies) { bus := { plugin := { disk := d } } } hs

end Run

variable {rt : Runtime} {env : CoreEnv} {path : PyStr} {replies : Replies}
  {d : Directory PyStr} {c : Capture}

/-! ### The lines of downloads -/

theorem logged_line (job : Job) : (job.line rt path replies).logged :=
  rfl

theorem complete_line (job : Job) : (job.line rt path replies).Complete rt where
  number := nofun
  connect h := by
    have hconnect : ((job.line rt path replies).bare rt []).isConnect = false := rfl
    exact absurd (hconnect.symm.trans h) Bool.false_ne_true

/-- The line of a download belongs to the session it names. -/
theorem belongs_line {no s : PyStr} {job : Job} :
    (job.line rt path replies).belongs rt no s ↔ job.session = s := by
  rw [LogEvent.belongs, logged_line, Bool.true_and]
  exact beq_iff_eq

/-- The file a download is in a document. -/
def Job.file (rt : Runtime) (path : PyStr) (replies : Replies) (job : Job) : FileData :=
  ((job.line rt path replies).bare rt job.session).fileData
    (str "cowrie.session.file_download")

theorem brings_line (s : PyStr) (job : Job) :
    ((job.line rt path replies).bare rt s).brings = { files := [Job.file rt path replies job] } :=
  rfl

/-! ### What the fetcher is handed -/

/-- The entry the fetcher is handed. -/
def Act.entry? : Act → Option Entry
  | .entry e => some e
  | .worker _ _ => none

variable (rt env path replies) in
/-- The fetcher has been handed the entries of the lines, between the calls of its workers. -/
structure Capture.Follows (d : Directory PyStr) (as : List Act) (c : Capture) : Prop where
  fetcher : c.bus.plugin = afterActs rt path replies d as
  entries : as.filterMap Act.entry? = Lines.entries rt env {} c.log
  lines : c.bus.lines = Lines.after rt env {} c.log
  complete : ∀ ev ∈ c.log, ev.Complete rt

theorem afterActs_append (as as' : List Act) : afterActs rt path replies d (as ++ as') =
    after (Fetcher.perform rt path replies) (afterActs rt path replies d as) as' :=
  List.foldl_append

/-- What is known of the jobs. -/
theorem Capture.Follows.known (hdistinct : replies.Distinct rt) (hclean : Clean rt replies d)
    {as : List Act} (h : c.Follows rt env path replies d as) :
    c.bus.plugin.Known rt path replies as := by
  rw [h.fetcher]
  exact (inv_afterActs hdistinct hclean as).2

/-- A line is logged, and the fetcher is handed what it becomes. -/
theorem Capture.Follows.logLine {as : List Act} (h : c.Follows rt env path replies d as)
    {ev : LogEvent} (hev : ev.Complete rt) :
    ∃ as', (c.logLine rt env path replies ev).Follows rt env path replies d as' := by
  have hsound : c.bus.lines.Sound := h.lines ▸ Lines.Sound.empty.after env h.complete
  have hok : ∀ e p, e.Complete → e.isClose → ((Fetcher.observer rt path replies e).run p).1.isOk :=
    fun _ _ _ _ => rfl
  have hstep := run_emit env hok hev hsound
  refine ⟨as ++ ((c.bus.lines.step rt env ev).2.toList.map .entry), ?_, ?_, ?_, ?_⟩
  · rw [Capture.logLine, hstep, afterActs_append, ← h.fetcher, after, List.foldl_map]
    rfl
  · rw [List.filterMap_append, h.entries, List.filterMap_map, Capture.logLine,
      Lines.entries_append, ← h.lines, Lines.entries, Lines.entries, List.append_nil]
    exact congrArg _ List.filterMap_some
  · rw [Capture.logLine, hstep, Lines.after_append, ← h.lines]
    rfl
  · exact List.forall_mem_append.mpr ⟨h.complete, List.forall_mem_singleton.mpr hev⟩

/-- **The fetcher follows the log**, whatever its workers do in the meantime. -/
theorem Capture.follows (hdistinct : replies.Distinct rt) (hclean : Clean rt replies d)
    {hs : List Happening} (hhs : ∀ ev, .line ev ∈ hs → ev.Complete rt) :
    ∃ as, (captureAfter rt env path replies d hs).Follows rt env path replies d as := by
  induction hs using List.reverseRecOn with
  | nil => exact ⟨[], rfl, rfl, rfl, List.forall_mem_nil _⟩
  | append_singleton hs a ih =>
    obtain ⟨as, has⟩ := ih fun ev hev => hhs ev (List.mem_append_left _ hev)
    have hstep : captureAfter rt env path replies d (hs ++ [a]) =
        Capture.perform rt env path replies a (captureAfter rt env path replies d hs) :=
      List.foldl_concat _ _ _ _
    rw [hstep]
    cases a with
    | line ev => exact has.logLine (hhs ev (List.mem_append_right _ List.mem_cons_self))
    | worker i outcome =>
      refine ⟨as ++ [.worker i outcome], ?_, ?_, has.lines, has.complete⟩
      · rw [afterActs_append, ← has.fetcher]
        rfl
      · rw [List.filterMap_append, has.entries]
        exact List.append_nil _
    | tell =>
      rw [Capture.perform]
      cases hline : (captureAfter rt env path replies d hs).bus.plugin.log[
          (captureAfter rt env path replies d hs).told]? with
      | none => exact ⟨as, has⟩
      | some ev =>
        -- what the workers left is the line of a job
        have hknown := has.known hdistinct hclean
        obtain ⟨js, hjs, -⟩ := hknown.told
        have hmem := List.mem_of_getElem? hline
        rw [hjs] at hmem
        obtain ⟨job, -, rfl⟩ := List.mem_map.mp hmem
        obtain ⟨as', has'⟩ := has.logLine (complete_line job)
        exact ⟨as', has'.fetcher, has'.entries, has'.lines, has'.complete⟩

/-- A line of the honeypot is in the log. -/
theorem Capture.mem_log {hs : List Happening} {ev : LogEvent} (hev : .line ev ∈ hs) :
    ev ∈ (captureAfter rt env path replies d hs).log := by
  induction hs using List.reverseRecOn with
  | nil => cases hev
  | append_singleton hs a ih =>
    have hstep : captureAfter rt env path replies d (hs ++ [a]) =
        Capture.perform rt env path replies a (captureAfter rt env path replies d hs) :=
      List.foldl_concat _ _ _ _
    rw [hstep]
    have hold : ∀ {c : Capture}, ev ∈ c.log →
        ev ∈ (Capture.perform rt env path replies a c).log := by
      intro c hmem
      cases a with
      | line ev' => exact List.mem_append_left _ hmem
      | worker i outcome => exact hmem
      | tell =>
        rw [Capture.perform]
        split
        · exact hmem
        · exact List.mem_append_left _ hmem
    rcases List.mem_append.mp hev with hev | hev
    · exact hold (ih hev)
    · obtain rfl := List.mem_singleton.mp hev
      exact List.mem_append_right _ List.mem_cons_self

/-! ### The documents -/

/-- A command is brought as it is handed to the fetcher. -/
theorem commands_of_command {e : Entry} {cmd : PyStr} (h : cmd ∈ command e) :
    Obj.str cmd ∈ e.brings.commands := by
  rw [command] at h
  split at h
  · next eventid cmd' heventid hinput =>
    split_ifs at h with hcond
    · obtain rfl := Option.some.inj h
      obtain ⟨rfl, hne⟩ := hcond
      have hid : e.eventid? = some (str "cowrie.command.input") := by
        rw [Entry.get, Entry.getD] at heventid
        rw [Entry.eventid?]
        cases hget : e.fields.get (key "eventid") with
        | none => simp [hget] at heventid
        | some v =>
          obtain rfl : v = _ := by simpa [hget] using heventid
          rfl
      have hitem : e.item "input" = .ok (.str cmd') := by
        rw [Entry.getD] at hinput
        rw [Entry.item]
        cases hget : e.fields.get (key "input") with
        | none => exact absurd (by simpa [hget] using hinput.symm) hne
        | some v =>
          obtain rfl : v = _ := by simpa [hget] using hinput
          rfl
      rw [Entry.brings, hid]
      have hbrought : e.broughtBy (str "cowrie.command.input") =
          { commands := (e.item "input").toOption.toList } := rfl
      change _ ∈ (e.broughtBy _).commands
      rw [hbrought, hitem]
      exact List.mem_singleton_self _
    · cases h
  · cases h

/-- **Whose downloads a document lists**: a session that closes has the downloads that name it and
were logged in its time, however long they took and whoever else asked for the URL; each was asked
for with a command of this document, and no other download has its URL. -/
theorem downloads_of_document {out : Output} {disk : Disk} (hstarted : out.started)
    (hdisk : ∀ path err, disk path ≠ .raised err) (hdistinct : replies.Distinct rt)
    (hclean : Clean rt replies d) {hs : List Happening} {before between : List LogEvent}
    {connect close : LogEvent} {no s : PyStr}
    (hlog : (captureAfter rt env path replies d hs).log = before ++ connect :: between)
    (h : LogSession rt before between connect close no s) :
    ∃ m : SessionMeta,
      (observe rt env (out.write disk) { plugin := {} }
          (before ++ connect :: between ++ [close])).plugin.emitted =
        (observe rt env (out.write disk) { plugin := {} }
          (before ++ connect :: between)).plugin.emitted ++ [(Output.cowrieTopic, m.toDict out)] ∧
      m.Gathers ((between.filter (LogEvent.belongs rt no s)).map (LogEvent.bare rt s)) ∧
      ∀ job, (job, Stage.done true) ∈ (captureAfter rt env path replies d hs).bus.plugin.jobs →
        job.line rt path replies ∈ between →
          ((job.line rt path replies).belongs rt no s ↔ job.session = s) ∧
          (job.session = s → job.file rt path replies ∈ m.files.map FileData.bare ∧
            ∃ cmd, .str cmd ∈ m.commands ∧ job.url ∈ extractUrls rt cmd) ∧
          ∀ job', (job', Stage.done true) ∈
              (captureAfter rt env path replies d hs).bus.plugin.jobs →
            job'.url = job.url → job' = job := by
  have hemitted := out.emitted_of_session disk env hstarted hdisk h
  have hm := @Output.gathers_sessionDocument out disk rt env before between connect close no s
  obtain ⟨as, has⟩ : ∃ as,
      (captureAfter rt env path replies d hs).Follows rt env path replies d as :=
    Capture.follows hdistinct hclean fun ev hev => h.complete ev (hlog ▸ Capture.mem_log hev)
  have hknown := has.known hdistinct hclean
  refine ⟨_, hemitted, hm, fun job hjob hline => ⟨belongs_line, fun hsession => ⟨?_, ?_⟩, ?_⟩⟩
  · rw [hm.files]
    refine List.mem_flatMap.mpr ⟨_, List.mem_map.mpr ⟨_, List.mem_filter.mpr ⟨hline,
      belongs_line.mpr hsession⟩, rfl⟩, ?_⟩
    rw [brings_line]
    exact List.mem_singleton_self _
  · obtain ⟨before', e, rest, rfl, ⟨cmd, hcmd, hurl⟩, hs, -⟩ := hknown.given job _ hjob
    refine ⟨cmd, ?_, hurl⟩
    -- the entry is one of the session
    have hentries := has.entries
    rw [hlog] at hentries
    have he : e ∈ Lines.entries rt env {} (before ++ connect :: between) := by
      rw [← hentries, List.filterMap_append]
      exact List.mem_append_right _ List.mem_cons_self
    have howned : e.session = some s := by
      obtain ⟨s', hs'⟩ := Option.isSome_iff_exists.mp (Lines.complete_entries h.complete e he).2
      rw [hs', Option.getD_some, hsession] at hs
      rw [hs', hs]
    obtain ⟨-, es, hown, hc, heffect, -⟩ := h.entries env
    have hmem : e ∈ own s (Lines.entries rt env {} (before ++ connect :: between)) :=
      List.mem_filter.mpr ⟨he, decide_eq_true howned⟩
    rw [hown] at hmem
    have hcommands := commands_of_command hcmd
    rcases List.mem_cons.mp hmem with rfl | hmem
    · rw [Entry.brings_of_isConnect hc] at hcommands
      exact absurd hcommands List.not_mem_nil
    · have hbrought := List.mem_map_of_mem (f := Entry.effect) hmem
      rw [heffect] at hbrought
      obtain ⟨bare, hbare, heq⟩ := List.mem_map.mp hbrought
      rw [hm.commands]
      refine List.mem_flatMap.mpr ⟨bare, hbare, ?_⟩
      rw [show bare.brings = e.brings from congrArg Prod.fst heq]
      exact hcommands
  · intro job' hjob' hurl
    exact (Prod.mk.inj (List.inj_on_of_nodup_map hknown.once hjob' hjob hurl)).1

/-- A command with a URL. -/
def demoAsk : LogEvent where
  sessionno := some (str "S1")
  fields := Output.demoLine "cowrie.command.input" [("input", "sh -c 'fetch http://8.8.8.8/x'")]

/-- The job it is made into. -/
def demoJob : Job := ⟨str "http://8.8.8.8/x", str "a1"⟩

/-- A session with the command, the calls of the worker and the line it leaves. -/
def demoCapture : List Happening :=
  [.line (Output.demoConnect "S1" "a1"), .line demoAsk] ++
    List.replicate 6 (.worker 0 (some 1)) ++ [.tell]

theorem downloads_of_document_demo : ∃ m : SessionMeta,
    (observe demoRuntime Output.demoCore (Output.demo.write fun _ => .content []) { plugin := {} }
        ([] ++ Output.demoConnect "S1" "a1" :: [demoAsk, demoJob.line demoRuntime [] demoReplies] ++
          [Output.demoClose])).plugin.emitted =
      (observe demoRuntime Output.demoCore (Output.demo.write fun _ => .content []) { plugin := {} }
        ([] ++ Output.demoConnect "S1" "a1" ::
          [demoAsk, demoJob.line demoRuntime [] demoReplies])).plugin.emitted ++
        [(Output.cowrieTopic, m.toDict Output.demo)] ∧
      demoJob.file demoRuntime [] demoReplies ∈ m.files.map FileData.bare ∧
      ∃ cmd, .str cmd ∈ m.commands ∧ demoJob.url ∈ extractUrls demoRuntime cmd := by
  have hlog : (captureAfter demoRuntime Output.demoCore [] demoReplies demoDirectory
      demoCapture).log = [] ++ Output.demoConnect "S1" "a1" ::
        [demoAsk, demoJob.line demoRuntime [] demoReplies] := rfl
  have hjob : (demoJob, Stage.done true) ∈ (captureAfter demoRuntime Output.demoCore [] demoReplies
      demoDirectory demoCapture).bus.plugin.jobs := by
    decide +kernel
  have h : LogSession demoRuntime [] [demoAsk, demoJob.line demoRuntime [] demoReplies]
      (Output.demoConnect "S1" "a1") Output.demoClose (str "S1") (str "a1") := by
    constructor <;> decide +kernel
  obtain ⟨m, hemitted, -, hfiles⟩ := @downloads_of_document demoRuntime Output.demoCore []
    demoReplies demoDirectory Output.demo (fun _ => .content []) rfl
    (fun _ _ h => FileRead.noConfusion h) distinct_demoReplies clean_demoDirectory demoCapture
    [] _ _ _ _ _ hlog h
  obtain ⟨-, hnamed, -⟩ := hfiles demoJob hjob (List.mem_cons_of_mem _ List.mem_cons_self)
  obtain ⟨hfile, hcommand⟩ := hnamed rfl
  exact ⟨m, hemitted, hfile, hcommand⟩

end C2Engine.Sensor.UrlFetcher
