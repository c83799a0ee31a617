import C2Engine.Sensor.Contract
import C2Engine.System.Run

/-!
# From the sensor to the feed

The two ends together. A download that the plugin logged in a session is in the document that the
close of the session emits; the engine reads it there as evidence for the host of its URL. Once the
frame that brings the document is acknowledged, the feed lists the host behind the next pass, with
evidence of rank one.

## Main results

* `Sensor.evidenced_of_download`: what a download in a session is evidence for.
* `lists_of_download`: from the events of a session to the feed.
-/

namespace C2Engine

open Python Python.Msgpack Machine

namespace Sensor

/-- The event of a download that succeeded. -/
def downloadId : PyStr := str "cowrie.session.file_download"

/-- An event announces a download of this URL. -/
structure Entry.Announces (x : Entry) (url : PyStr) : Prop where
  eventid : x.eventid? = some downloadId
  url : x.getD "url" (.str []) = .str url

/-- A download brings its file. -/
theorem Entry.Announces.files {x : Entry} {url : PyStr} (h : x.Announces url) :
    x.brings.files = [x.fileData downloadId] := by
  rw [Entry.brings, h.eventid]
  rfl

/-- What the first list holds has its counterpart in the second. -/
theorem exists_of_forall₂ {α β : Type} {R : α → β → Prop} {xs : List α} {ys : List β}
    (h : List.Forall₂ R xs ys) {x : α} (hx : x ∈ xs) : ∃ y ∈ ys, R x y := by
  induction h with
  | nil => cases hx
  | @cons a b xs ys hab _ ih =>
    rcases List.mem_cons.mp hx with rfl | hx
    · exact ⟨b, List.mem_cons_self, hab⟩
    · obtain ⟨y, hy, hxy⟩ := ih hx
      exact ⟨y, List.mem_cons_of_mem _ hy, hxy⟩

variable {rt : Runtime} {out : Output} {m : SessionMeta} {session : SessionIn}

/-- **A download is evidence for the host of its URL** in the session that the engine reads. -/
theorem evidenced_of_download (hmirrors : Mirrors rt out m session) {es : List Entry}
    (hgathers : m.Gathers es) {x : Entry} (hx : x ∈ es) {url : PyStr} (hurl : x.Announces url)
    {host path : PyStr} {port : Option ℕ} (hsplit : splitUrl rt url = .ok (host, port, path))
    (hne : host ≠ []) : Evidenced rt session host .servedFile := by
  have hmem : x.fileData downloadId ∈ m.files.map FileData.bare := by
    rw [hgathers.files]
    exact List.mem_flatMap.mpr ⟨x, hx, hurl.files ▸ List.mem_singleton.mpr rfl⟩
  obtain ⟨f, hf, hbare⟩ := List.mem_map.mp hmem
  obtain ⟨r, hr, hread⟩ := exists_of_forall₂ hmirrors.hpData.files hf
  have hrurl : r.url = url := by
    have h : f.url = x.getD "url" (.str []) := congrArg FileData.url hbare
    exact Obj.str.inj (hread.url.symm.trans (h.trans hurl.url))
  have haction : r.action = str "download" :=
    hread.action.symm.trans (congrArg FileData.action hbare)
  have hstatus : r.status = str "successful" :=
    hread.status.symm.trans (congrArg FileData.status hbare)
  refine .served r hr ⟨?_, host, port, path, hrurl ▸ hsplit, ?_, hne⟩
  · rw [FileRef.fetched, haction, hstatus]
    rfl
  · rw [servedHost, if_neg (by simpa using hne)]

end Sensor

section

variable {ι : Type} [DecidableEq ι] {rt : Runtime} {geo : Option GeoEnricher} {codecs : Codecs}
  {readDate : PyStr → Option ℤ} {evs : List (ServiceEvent ι)} {w : World}

/-- What the session of an acknowledged record shows is listed. -/
theorem lists_of_shown (hmoment : Moment rt geo codecs evs) (h : EngineRun rt readDate evs w)
    {i : ι} {chunk : Obj} (hack : .connection i (.ack chunk) ∈ evs) :
    ∃ msg records option, .connection i (.frame msg) ∈ evs ∧
      parseFrame codecs msg = .ok (records, option) ∧ frameChunk option = some chunk ∧
      ∀ tag record session, (tag, record) ∈ records → isEnrichable tag = true →
        SessionIn.modelValidate rt record = .ok session → (process rt record geo).isOk →
          ∀ host evidence t ts, Evidenced rt session host evidence → session.time = some t →
            readDate (rt.pydantic.dumpDatetime t) = some ts →
              ListedBehindPass rt w host (evidenceRank evidence) ts := by
  obtain ⟨msg, records, option, hframe, hparse, hchunk, hrows⟩ := exists_row_of_ack hmoment h hack
  refine ⟨msg, records, option, hframe, hparse, hchunk, ?_⟩
  intro tag record session hmem htag hvalid hok host evidence t ts hshows ht hts
  obtain ⟨e, he⟩ := isOk_iff.mp hok
  obtain ⟨o, ho, rfl, rfl⟩ := exists_observation hvalid he hshows
  obtain ⟨-, hrank, htime⟩ := evidenced_of_mem hvalid he ho
  obtain ⟨r, hr, hhost, rfl, hrrank⟩ :=
    hrows tag record hmem htag e he o ho t ts (htime.trans ht) hts
  have hne := hshows.ne_nil
  rw [← hhost] at hne ⊢
  rw [← hrank, ← hrrank]
  exact h.listed_of_row hr hne

/-- **From the sensor to the feed.** The close of an open session, in a run of the plugin over typed
events, emits one document that the engine accepts. At any moment of any run of the engine, with a
chunk acknowledged on some connection: if the frame of the chunk brought the document, and the
pipeline can process it, then the host of each download the session announced is listed behind the
next pass. -/
theorem lists_of_download (hmoment : Moment rt geo codecs evs) (h : EngineRun rt readDate evs w)
    {i : ι} {chunk : Obj} (hack : .connection i (.ack chunk) ∈ evs) {out : Sensor.Output}
    {disk : Sensor.Disk} (hrt : Sensor.ReadsScalars rt) (hstarted : out.started)
    (hdisk : ∀ path err, disk path ≠ .raised err) {es : List Sensor.Entry} {e : Sensor.Entry}
    {s : PyStr} (hes : ∀ x ∈ es, x.Typed rt) (he : e.Typed rt) (hs : e.session = some s)
    (hclose : e.isClose) (hopen : Sensor.Open s es) :
    ∃ doc session msg records option,
      out.emittedBy disk es e = [(Sensor.Output.cowrieTopic, doc)] ∧
      SessionIn.modelValidate rt (normalizeRecord doc) = .ok session ∧ session.sessionId = s ∧
      .connection i (.frame msg) ∈ evs ∧ parseFrame codecs msg = .ok (records, option) ∧
      frameChunk option = some chunk ∧
      ∀ tag, (tag, normalizeRecord doc) ∈ records → isEnrichable tag = true →
        (process rt (normalizeRecord doc) geo).isOk → ∀ t ts, session.time = some t →
          readDate (rt.pydantic.dumpDatetime t) = some ts → ∀ x ∈ Sensor.since s es, ∀ url,
            x.Announces url → ∀ host port path, splitUrl rt url = .ok (host, port, path) →
              host ≠ [] → ListedBehindPass rt w host (evidenceRank .servedFile) ts := by
  obtain ⟨held, hheld⟩ := Sensor.exists_held out disk hes hopen
  obtain ⟨session, hread⟩ := Sensor.read_of_held hrt hstarted hdisk hes he hs hclose hheld
  obtain ⟨msg, records, option, hframe, hparse, hchunk, hlists⟩ := lists_of_shown hmoment h hack
  refine ⟨_, session, msg, records, option, hread.emitted, hread.valid, hread.sessionId, hframe,
    hparse, hchunk, ?_⟩
  intro tag hmem htag hok t ts ht hts x hx url hurl host port path hsplit hne
  have hshows := Sensor.evidenced_of_download hread.mirrors hread.gathers hx hurl hsplit hne
  exact hlists tag _ session hmem htag hread.valid hok host .servedFile t ts hshows ht hts

end

/-- An event of a session for the closed example. -/
def sensedEvent (id : String) (fields : Dict) : Sensor.Entry :=
  ⟨some (str "a1"), (key "eventid", .str (str id)) :: (key "timestamp", .str sessionEndText) ::
    fields⟩

/-- The download in the session. -/
def sensedDownload : Sensor.Entry :=
  sensedEvent "cowrie.session.file_download" [(key "url", .str (str "http://192.0.2.9/x")),
    (key "shasum", .str (str "ab"))]

/-- A session with a download, still open. -/
def sensedEvents : List Sensor.Entry :=
  [sensedEvent "cowrie.session.connect" [(key "protocol", .str (str "ssh")),
      (key "src_ip", .str (str "192.0.2.7")), (key "src_port", .int 47),
      (key "dst_ip", .str (str "192.0.2.1")), (key "dst_port", .int 22)],
    sensedDownload]

/-- Its close. -/
def sensedClose : Sensor.Entry := sensedEvent "cowrie.session.closed" []

/-- The document that the close emits. -/
def sensedDoc : Dict :=
  ((Sensor.Output.demo.emittedBy (fun _ => .content []) sensedEvents sensedClose).map
    Prod.snd).headD []

/-- The frame that carries it. -/
def sensedFrame : Obj :=
  messageFrame (str "stingar.enrichable.cowrie") (withChunk "c1") (.int 1, sensedDoc)

/-- What the service did, from its start to the acknowledgement. -/
def sensedLife : List (ServiceEvent Unit) := wireLife (frameTrace wireRuntime sensedFrame)

/-- The frame is short. Its connection ends with the acknowledgement, and has left the row of the
command and that of the download. -/
theorem sensedLife_leaves : (isShort sensedFrame ∧ (packShort sensedFrame).length ≤ recvSize) ∧
    (frameTrace wireRuntime sensedFrame).getLast?.map Event.acked? = some (some (str "c1")) ∧
      sensedLife.flatMap (ledgerRows wireDate) =
        [{ downloadRow with evidenceRank := 0 }, downloadRow] := by
  decide +kernel

theorem moment_sensedLife : Moment wireRuntime none .basic sensedLife :=
  moment_wireLife sensedLife_leaves.1.1 sensedLife_leaves.1.2

/-- What the reason job finds then. -/
def sensedWorld : World := .ofLedger (sensedLife.flatMap (ledgerRows wireDate))

theorem sensedWorld_eq :
    sensedWorld = .ofLedger [{ downloadRow with evidenceRank := 0 }, downloadRow] := by
  rw [sensedWorld, sensedLife_leaves.2.2]

/-- The engine accepts the document and can process it. -/
theorem process_sensedDoc :
    (SessionIn.modelValidate wireRuntime (normalizeRecord sensedDoc)).toOption.map
        SessionIn.time = some (some sessionEnd) ∧
      (process wireRuntime (normalizeRecord sensedDoc) none).isOk := by
  decide +kernel

theorem parseFrame_sensedFrame : parseFrame .basic sensedFrame =
    .ok ([(str "stingar.enrichable.cowrie", normalizeRecord sensedDoc)], withChunk "c1") :=
  parseFrame_message .basic _ _ trivial

theorem lists_of_download_sensed : ∃ f s,
    (buildFeed wireRuntime.unicode (.basic 1780000005500) 1 week.text 5000).run
        ((runOnce wireRuntime (.basic 1780000005500000)).run sensedWorld).2.entities =
      (.ok f, s) ∧ str "192.0.2.9" ∈ f.ips := by
  have hrun : EngineRun wireRuntime wireDate sensedLife sensedWorld := .ofEvents _ _ _
  have hack : .connection () (.ack (.str (str "c1"))) ∈ sensedLife :=
    ack_mem_wireLife sensedLife_leaves.2.1
  have hes : ∀ x ∈ sensedEvents, x.Typed wireRuntime := by decide
  have hclose : sensedClose.Typed wireRuntime := by decide
  have hdisk : ∀ path err, (fun _ => .content [] : Sensor.Disk) path ≠ .raised err :=
    fun _ _ h => Sensor.FileRead.noConfusion h
  have hopen : Sensor.Open (str "a1") sensedEvents :=
    ⟨[], _, [sensedDownload], rfl, rfl, by decide⟩
  obtain ⟨doc, session, msg, records, option, hemitted, hvalid, -, hframe, hparse, -, hlists⟩ :=
    lists_of_download moment_sensedLife hrun hack ⟨fun _ => rfl, fun _ => rfl⟩
      (show Sensor.Output.demo.started from rfl) hdisk hes hclose rfl (by decide) hopen
  have hdoc : sensedDoc = doc := by rw [sensedDoc, hemitted]; rfl
  subst hdoc
  rw [eq_of_frame_mem_wireLife hframe, parseFrame_sensedFrame] at hparse
  obtain ⟨rfl, -⟩ := Prod.mk.inj (Except.ok.inj hparse)
  have htime := process_sensedDoc.1
  rw [hvalid] at htime
  have hsince : sensedDownload ∈ Sensor.since (str "a1") sensedEvents :=
    List.mem_cons_of_mem _ List.mem_cons_self
  have hasked : AskedAfterPass wireRuntime sensedWorld (.basic 1780000005500000)
      (.basic 1780000005500) 1 week 5000 := by
    rw [sensedWorld_eq]
    exact ⟨by decide +kernel, by decide, by decide, by decide, by decide, by decide +kernel⟩
  obtain ⟨f, hf, -, hip⟩ := hlists _ List.mem_cons_self (by decide) process_sensedDoc.2 sessionEnd
    1780000000000 (Option.some.inj htime) rfl sensedDownload hsince (str "http://192.0.2.9/x")
    ⟨rfl, rfl⟩ (str "192.0.2.9") none (str "/x") rfl (by decide) _ _ 1 _ _ hasked (by decide)
    (by decide)
  exact ⟨f, _, hf, hip (by decide)⟩

end C2Engine
