import C2Engine.Ingest.Server

/-!
# At-least-once delivery

What the acknowledgements of a connection promise. The trace of a connection is a sequence of
*blocks*, one for each frame: the frame, the requests its records led to, and the answer. A block
of a frame that was handled has all of the frame's documents among the accepted requests before
its acknowledgement, and a frame that was not handled ends the connection.

## Main definitions

* `frameDocs`: the documents of a frame.
* `Handled`, `Aborted`, `Connection`: blocks, and the traces of a connection.
* `AtLeastOnce`: the promise.

## Main results

* `connection_handle`: the handler's trace is the trace of a connection.
* `atLeastOnce_handle`: an acknowledgement follows the accepted documents of its frame, and none
  follows a document that was given up.
-/

namespace C2Engine

open Python

/-- The documents of a frame, in the order in which they are written. -/
def frameDocs (rt : Runtime) (geo : Option GeoEnricher) :
    List (PyStr × Dict) → Option (List Dict) :=
  loopDocs fun record => recordDocs rt geo record.1 record.2

section Connection

variable (rt : Runtime) (geo : Option GeoEnricher) (codecs : Codecs)

/-- The events of a frame that was handled. -/
inductive Handled : List Event → Prop
  /-- A greeting is answered. -/
  | ping (msg : Obj) : Handled [.frame msg, .pong]
  /-- The documents of a frame are written. -/
  | quiet {msg : Obj} {records : List (PyStr × Dict)} {option : Option Dict} {evs : List Event}
      {docs : List Dict} (hparse : parseFrame codecs msg = .ok (records, option))
      (hdocs : frameDocs rt geo records = some docs) (hwrites : Writes evs docs) :
      Handled (.frame msg :: evs)
  /-- The documents of a frame are written, and its chunk is acknowledged. -/
  | acked {msg : Obj} {records : List (PyStr × Dict)} {option : Option Dict} {chunk : Obj}
      {evs : List Event} {docs : List Dict}
      (hparse : parseFrame codecs msg = .ok (records, option))
      (hchunk : frameChunk option = some chunk) (hdocs : frameDocs rt geo records = some docs)
      (hwrites : Writes evs docs) :
      Handled (.frame msg :: evs ++ [.ack chunk])

/-- The events of a frame that raised. -/
def Aborted (evs : List Event) : Prop := ∃ msg evs', evs = .frame msg :: evs' ∧ Aborts evs'

/-- The traces of a connection: frames that were handled, and at the end perhaps one that was
not. -/
inductive Connection : List Event → Prop
  | done : Connection []
  | frame {evs t : List Event} (h : Handled rt geo codecs evs) (ht : Connection t) :
      Connection (evs ++ t)
  | aborted {evs : List Event} (h : Aborted evs) : Connection evs

variable {rt geo codecs}

/-- A trace without acknowledgements. -/
theorem Requests.ack_notMem {evs : List Event} (h : Requests evs) (chunk : Obj) :
    Event.ack chunk ∉ evs := by
  intro hmem
  obtain ⟨_, _, _, heq⟩ := h _ hmem
  cases heq

theorem Requests.gaveUp_notMem {evs : List Event} (h : Requests evs) (doc : Dict) :
    Event.gaveUp doc ∉ evs := by
  intro hmem
  obtain ⟨_, _, _, heq⟩ := h _ hmem
  cases heq

/-- One frame: its events are those of a handled frame, or those of one that raised. -/
theorem dispatch_spec (msg : Obj) (t : List Event) :
    Prog.Triple (fun w => w.trace = t) (dispatch codecs (handleRecord rt geo) msg)
      (fun _ w => ∃ evs, w.trace = t ++ evs ∧ Handled rt geo codecs evs)
      (fun _ w => ∃ evs, w.trace = t ++ evs ∧ Aborted evs) := by
  refine triple_dispatch (R := fun records w => ∃ evs docs, w.trace = t ++ .frame msg :: evs ∧
    frameDocs rt geo records = some docs ∧ Writes evs docs) ?_ ?_ ?_ ?_ ?_
  · exact fun _ w hw => ⟨_, hw, msg, [], rfl, [], [], rfl, Requests.nil, .inl rfl⟩
  · exact fun w hw => ⟨_, hw, Handled.ping msg⟩
  · intro records option _
    have hdocs : Delivers (Prog.forM records fun record => handleRecord rt geo record.1 record.2)
        (frameDocs rt geo records) :=
      Delivers.forM records fun record _ => delivers_handleRecord rt geo record.1 record.2
    refine (hdocs (t ++ [.frame msg])).weaken (fun _ h => h) ?_ ?_
    · rintro _ w ⟨evs, docs, htrace, hframe, hwrites⟩
      exact ⟨evs, docs, by simpa using htrace, hframe, hwrites⟩
    · rintro _ w ⟨evs, htrace, haborts⟩
      exact ⟨.frame msg :: evs, by simpa using htrace, msg, evs, rfl, haborts⟩
  · rintro records option hparse - w ⟨evs, docs, htrace, hframe, hwrites⟩
    exact ⟨_, htrace, Handled.quiet hparse hframe hwrites⟩
  · rintro records option chunk hparse hchunk w ⟨evs, docs, htrace, hframe, hwrites⟩
    constructor
    · exact fun _ => ⟨_, htrace, msg, evs, rfl, evs, [], (List.append_nil _).symm,
        hwrites.requests, .inl rfl⟩
    · intro w' hw'
      refine ⟨.frame msg :: evs ++ [.ack chunk], ?_, Handled.acked hparse hchunk hframe hwrites⟩
      simp [hw', htrace]

/-- One frame of the loop: the connection goes on exactly when the frame was handled. -/
theorem handleFrame_spec (msg : Obj) (t : List Event) :
    Prog.Triple (fun w => w.trace = t) (handleFrame codecs (handleRecord rt geo) msg)
      (fun goOn w => ∃ evs, w.trace = t ++ evs ∧
        if goOn then Handled rt geo codecs evs else Aborted evs)
      (fun _ _ => False) := by
  refine Prog.Triple.tryExcept
    (E := fun _ w => ∃ evs, w.trace = t ++ evs ∧ Aborted evs) ?_ ?_ ?_
  · exact Prog.Triple.bind (dispatch_spec msg t) fun _ => Prog.Triple.pure fun _ h => h
  · rintro e h heq
    cases heq
    exact Prog.Triple.pure fun _ h => h
  · exact fun _ _ h => nomatch h

/-- The handler of a connection leaves the trace of a connection, whether it returns or raises. -/
theorem connection_handle : (frames : List (Except PyExc Obj)) → (t : List Event) →
    Prog.Triple (fun w => w.trace = t) (handle codecs (handleRecord rt geo) frames)
      (fun _ w => ∃ evs, w.trace = t ++ evs ∧ Connection rt geo codecs evs)
      (fun _ w => ∃ evs, w.trace = t ++ evs ∧ Connection rt geo codecs evs)
  | [], t => Prog.Triple.pure fun _ hw => ⟨[], by simpa using hw, .done⟩
  | .error e :: _, t => Prog.Triple.raise fun _ hw => ⟨[], by simpa using hw, .done⟩
  | .ok msg :: frames, t => by
      refine Prog.Triple.bind ((handleFrame_spec msg t).weaken (fun _ h => h) (fun _ _ h => h)
        fun _ _ h => h.elim) fun goOn => ?_
      cases goOn with
      | false =>
        refine Prog.Triple.pure ?_
        rintro w ⟨evs, htrace, habort⟩
        exact ⟨evs, htrace, .aborted habort⟩
      | true =>
        rintro w ⟨evs, htrace, hhandled⟩
        have hrest := connection_handle frames (t ++ evs) w htrace
        have hjoin : ∀ w' : Wire,
            (∃ evs', w'.trace = t ++ evs ++ evs' ∧ Connection rt geo codecs evs') →
            ∃ evs', w'.trace = t ++ evs' ∧ Connection rt geo codecs evs' := by
          rintro w' ⟨evs', htrace', hconn⟩
          exact ⟨evs ++ evs', by rw [htrace', List.append_assoc], .frame hhandled hconn⟩
        change Prog.Post _ _ ((handle codecs (handleRecord rt geo) frames).run w)
        rcases hr : (handle codecs (handleRecord rt geo) frames).run w with ⟨e | u, w'⟩
        · exact hjoin w' (by rwa [hr] at hrest)
        · exact hjoin w' (by rwa [hr] at hrest)

/-! ### Acknowledgements -/

/-- What stands before an acknowledgement: the frame that asked for it, and requests by which
exactly the documents of its records were accepted. -/
def AckDelivered (rt : Runtime) (geo : Option GeoEnricher) (codecs : Codecs) (chunk : Obj)
    (before : List Event) : Prop :=
  ∃ earlier msg records option evs docs, before = earlier ++ .frame msg :: evs ∧
    parseFrame codecs msg = .ok (records, option) ∧ frameChunk option = some chunk ∧
    frameDocs rt geo records = some docs ∧ Writes evs docs

theorem AckDelivered.append {chunk : Obj} {before : List Event} (evs : List Event)
    (h : AckDelivered rt geo codecs chunk before) :
    AckDelivered rt geo codecs chunk (evs ++ before) := by
  obtain ⟨earlier, msg, records, option, evs', docs, rfl, h⟩ := h
  exact ⟨evs ++ earlier, msg, records, option, evs', docs, (List.append_assoc _ _ _).symm, h⟩

/-- An acknowledgement in a block is the answer to the block's frame. -/
theorem Handled.ack_delivered {evs before after : List Event} {chunk : Obj}
    (h : Handled rt geo codecs evs) (heq : evs = before ++ .ack chunk :: after) :
    AckDelivered rt geo codecs chunk before := by
  have hmem : Event.ack chunk ∈ evs := by simp [heq]
  cases h with
  | ping msg => simp at hmem
  | quiet hparse hdocs hwrites =>
    exact absurd ((List.mem_cons.mp hmem).resolve_left nofun) (hwrites.requests.ack_notMem chunk)
  | @acked msg records option chunk' evs docs hparse hchunk hdocs hwrites =>
    -- the acknowledgement is no event before the last one, and so it is the last one
    rcases List.append_eq_append_iff.mp heq with ⟨mid, hmid, htail⟩ | ⟨mid, hmid, htail⟩
    · cases mid with
      | nil =>
        simp only [List.nil_append, List.cons.injEq, Event.ack.injEq] at htail
        obtain ⟨rfl, -⟩ := htail
        exact ⟨[], msg, records, option, evs, docs, by simpa using hmid, hparse, hchunk, hdocs,
          hwrites⟩
      | cons ev mid => simp at htail
    · cases mid with
      | nil =>
        simp only [List.nil_append, List.cons.injEq, Event.ack.injEq] at htail
        obtain ⟨rfl, -⟩ := htail
        exact ⟨[], msg, records, option, evs, docs, by simpa using hmid.symm, hparse, hchunk, hdocs,
          hwrites⟩
      | cons ev mid =>
        obtain ⟨rfl, -⟩ := List.cons.inj htail
        have hack : Event.ack chunk ∈ Event.frame msg :: evs := by simp [hmid]
        exact absurd ((List.mem_cons.mp hack).resolve_left nofun)
          (hwrites.requests.ack_notMem chunk)

/-- The writer does not give up in a frame that is handled. -/
theorem Handled.gaveUp_notMem {evs : List Event} (h : Handled rt geo codecs evs) (doc : Dict) :
    Event.gaveUp doc ∉ evs := by
  intro hmem
  cases h with
  | ping msg => simp at hmem
  | quiet hparse hdocs hwrites =>
    exact hwrites.requests.gaveUp_notMem doc ((List.mem_cons.mp hmem).resolve_left nofun)
  | acked hparse hchunk hdocs hwrites =>
    rcases List.mem_append.mp hmem with hmem | hmem
    · exact hwrites.requests.gaveUp_notMem doc ((List.mem_cons.mp hmem).resolve_left nofun)
    · simp at hmem

/-- A frame that raised is not acknowledged. -/
theorem Aborted.ack_notMem {evs : List Event} (h : Aborted evs) (chunk : Obj) :
    Event.ack chunk ∉ evs := by
  obtain ⟨msg, evs', rfl, reqs, tail, rfl, hreqs, htail⟩ := h
  intro hmem
  rcases List.mem_append.mp ((List.mem_cons.mp hmem).resolve_left nofun) with hmem | hmem
  · exact hreqs.ack_notMem chunk hmem
  · obtain rfl | ⟨doc, rfl⟩ := htail <;> simp at hmem

theorem Connection.ack_delivered {t : List Event} (h : Connection rt geo codecs t) :
    ∀ before chunk after, t = before ++ .ack chunk :: after →
      AckDelivered rt geo codecs chunk before := by
  induction h with
  | done => exact fun before _ _ heq => by simp at heq
  | @frame evs t hhandled _ ih =>
    intro before chunk after heq
    rcases List.append_eq_append_iff.mp heq with ⟨mid, rfl, hrest⟩ | ⟨mid, hevs, hrest⟩
    · exact (ih mid chunk after hrest).append evs
    · cases mid with
      | nil =>
        rw [List.append_nil] at hevs
        subst hevs
        simpa using (ih [] chunk after hrest.symm).append evs
      | cons ev mid =>
        obtain ⟨rfl, -⟩ := List.cons.inj hrest
        exact hhandled.ack_delivered hevs
  | aborted haborted =>
    intro before chunk after heq
    exact absurd (by simp [heq]) (haborted.ack_notMem chunk)

theorem Connection.ack_notMem_of_gaveUp {t : List Event} (h : Connection rt geo codecs t) :
    ∀ before doc after, t = before ++ .gaveUp doc :: after → ∀ chunk, Event.ack chunk ∉ after := by
  induction h with
  | done => exact fun before _ _ heq => by simp at heq
  | @frame evs t hhandled _ ih =>
    intro before doc after heq
    rcases List.append_eq_append_iff.mp heq with ⟨mid, rfl, hrest⟩ | ⟨mid, hevs, hrest⟩
    · exact ih mid doc after hrest
    · cases mid with
      | nil => exact ih [] doc after hrest.symm
      | cons ev mid =>
        obtain ⟨rfl, -⟩ := List.cons.inj hrest
        exact absurd (by simp [hevs]) (hhandled.gaveUp_notMem doc)
  | aborted haborted =>
    intro before doc after heq chunk hmem
    exact haborted.ack_notMem chunk (by simp [heq, hmem])

end Connection

/-- Every enrichable record of an acknowledged frame has a session document and rows, and each of
them was accepted. -/
theorem AckDelivered.accepted {rt : Runtime} {geo : Option GeoEnricher} {codecs : Codecs}
    {chunk : Obj} {before : List Event} (h : AckDelivered rt geo codecs chunk before) :
    ∃ msg records option, parseFrame codecs msg = .ok (records, option) ∧
      frameChunk option = some chunk ∧ ∀ tag record, (tag, record) ∈ records → isEnrichable tag →
        ∃ sessionDoc rows, enrichRecord rt geo record = .ok (sessionDoc, rows) ∧
          ∀ doc ∈ sessionDoc :: rows, EsWriter.withTag tag doc ∈ C2Engine.accepted before := by
  obtain ⟨earlier, msg, records, option, evs, docs, rfl, hparse, hchunk, hdocs, hwrites⟩ := h
  refine ⟨msg, records, option, hparse, hchunk, fun tag record hmem htag => ?_⟩
  obtain ⟨ds, hds, hsub⟩ := loopDocs_eq_some hdocs _ hmem
  simp only [recordDocs, htag, Bool.not_true, Bool.false_eq_true, if_false] at hds
  cases henrich : enrichRecord rt geo record with
  | error e => simp [henrich] at hds
  | ok out =>
    obtain ⟨sessionDoc, rows⟩ := out
    simp only [henrich, Option.some.injEq] at hds
    refine ⟨sessionDoc, rows, rfl, fun doc hdoc => ?_⟩
    rw [accepted_append]
    refine List.mem_append_right _ ?_
    change EsWriter.withTag tag doc ∈ C2Engine.accepted evs
    rw [hwrites.accepted_eq]
    exact hsub.subset (hds ▸ List.mem_map_of_mem hdoc)

/-- The promise of the acknowledgements in a trace. -/
structure AtLeastOnce (rt : Runtime) (geo : Option GeoEnricher) (codecs : Codecs)
    (t : List Event) : Prop where
  /-- An acknowledgement stands behind the frame that carries its chunk and behind requests by
  which the frame's documents were accepted. -/
  delivered : ∀ before chunk after, t = before ++ .ack chunk :: after →
    AckDelivered rt geo codecs chunk before
  /-- After the writer gave up on a document nothing is acknowledged. -/
  givenUp : ∀ before doc after, t = before ++ .gaveUp doc :: after →
    ∀ chunk, Event.ack chunk ∉ after

/-- **At-least-once delivery**, whatever frames arrive on a connection and whatever Elasticsearch
answers. -/
theorem atLeastOnce_handle (rt : Runtime) (geo : Option GeoEnricher) (codecs : Codecs)
    (answers : ℕ → Outcome) (frames : List (Except PyExc Obj)) :
    AtLeastOnce rt geo codecs
      ((handle codecs (handleRecord rt geo) frames).run ⟨answers, []⟩).2.trace := by
  have h := (connection_handle frames [] : Prog.Triple _
    (handle codecs (handleRecord rt geo) frames)
    _ _) ⟨answers, []⟩ rfl
  have hconn : Connection rt geo codecs
      ((handle codecs (handleRecord rt geo) frames).run ⟨answers, []⟩).2.trace := by
    rcases hr : (handle codecs (handleRecord rt geo) frames).run ⟨answers, []⟩ with ⟨e | u, w⟩
    all_goals
      rw [hr] at h
      obtain ⟨evs, htrace, hevs⟩ := h
      rw [htrace]
      exact hevs
  exact ⟨hconn.ack_delivered, hconn.ack_notMem_of_gaveUp⟩

end C2Engine
