import C2Engine.Ingest.Routing

/-!
# What is acknowledged is in the ledger

An acknowledgement stands behind the frame that asks for it and behind requests by which every row
of every record of the frame was accepted in an index of the ledger. That the documents were
accepted is not enough for it: the session document of another record can be the same as a row, and
goes to another index.

## Main definitions

* `Accepted`: a document was accepted in an index.
* `RowsStored`, `AckStored`: the rows of a record, and those an acknowledgement stands for.

## Main results

* `triple_handleRecord`: a record that is handled has its rows in the ledger.
* `ackStored_handleStream`: the acknowledgements of a connection.
-/

namespace C2Engine

open Python Python.Msgpack Machine

/-- A document was accepted in an index. -/
def Accepted (index : PyStr) (doc : Dict) (t : List Event) : Prop :=
  ∃ outcome : Outcome, .request index doc outcome ∈ t ∧ outcome.accepts

section Stored

variable (rt : Runtime) (geo : Option GeoEnricher) (codecs : Codecs)

/-- The rows of a record were accepted, each in the index of its day. -/
def RowsStored (t : List Event) (record : PyStr × Dict) : Prop :=
  isEnrichable record.1 = true → ∃ sessionDoc rows,
    enrichRecord rt geo record.2 = .ok (sessionDoc, rows) ∧ ∀ row ∈ rows, ∃ index,
      dailyIndex rt c2Prefix (EsWriter.withTag record.1 row) = .ok index ∧
        Accepted index (EsWriter.withTag record.1 row) t

/-- What stands before an acknowledgement: the frame that asked for it, and requests by which the
rows of its records were accepted. -/
def AckStored (before : List Event) (ev : Event) : Prop :=
  ∀ chunk, ev = .ack chunk → ∃ msg records option, .frame msg ∈ before ∧
    parseFrame codecs msg = .ok (records, option) ∧ frameChunk option = some chunk ∧
    ∀ record ∈ records, RowsStored rt geo before record

/-- Every acknowledgement on a connection is deserved. -/
def Deserved (w : Wire) : Prop := Justified (AckStored rt geo codecs) w.trace

end Stored

variable {rt : Runtime} {geo : Option GeoEnricher} {codecs : Codecs}

theorem Accepted.mono {index : PyStr} {doc : Dict} {t t' : List Event}
    (h : Accepted index doc t) (hsub : t ⊆ t') : Accepted index doc t' := by
  obtain ⟨outcome, hmem, haccepts⟩ := h
  exact ⟨outcome, hsub hmem, haccepts⟩

theorem RowsStored.mono {t t' : List Event} {record : PyStr × Dict}
    (h : RowsStored rt geo t record) (hsub : t ⊆ t') : RowsStored rt geo t' record := by
  intro htag
  obtain ⟨sessionDoc, rows, henrich, hrows⟩ := h htag
  refine ⟨sessionDoc, rows, henrich, fun row hrow => ?_⟩
  obtain ⟨index, hindex, haccepted⟩ := hrows row hrow
  exact ⟨index, hindex, haccepted.mono hsub⟩

/-! ### Programs that deliver -/

section Delivers

variable {α : Type} {m : Prog Wire α} {docs : Option (List Dict)}

/-- A program that delivers adds requests to the trace, and perhaps gives up on a document. -/
theorem Delivers.final (h : Delivers m docs) (w : Wire) :
    ∃ evs, (m.run w).2.trace = w.trace ++ evs ∧ ∀ ev ∈ evs,
      (∃ index doc outcome, ev = .request index doc outcome) ∨ ∃ doc, ev = .gaveUp doc := by
  refine Prog.Triple.final (P := fun w' : Wire => w'.trace = w.trace)
    (R := fun w' : Wire => ∃ evs, w'.trace = w.trace ++ evs ∧ ∀ ev ∈ evs,
      (∃ index doc outcome, ev = .request index doc outcome) ∨ ∃ doc, ev = .gaveUp doc)
    ((h w.trace).weaken (fun _ h => h) ?_ ?_) rfl
  · rintro _ w' ⟨evs, _, htrace, -, hwrites⟩
    exact ⟨evs, htrace, fun ev hev => .inl (hwrites.requests ev hev)⟩
  · rintro _ w' ⟨_, htrace, reqs, tail, rfl, hreqs, htail⟩
    refine ⟨_, htrace, List.forall_mem_append.mpr ⟨fun ev hev => .inl (hreqs ev hev), ?_⟩⟩
    rcases htail with rfl | ⟨doc, rfl⟩
    · exact List.forall_mem_nil _
    · exact List.forall_mem_singleton.mpr (.inr ⟨doc, rfl⟩)

/-- What was recorded stays recorded. -/
theorem Delivers.keeps (h : Delivers m docs) {I : List Event → Prop}
    (hmono : ∀ {t t'}, t ⊆ t' → I t → I t') : Prog.Keeps (fun w => I w.trace) m := by
  intro w hw
  obtain ⟨evs, htrace, -⟩ := h.final w
  rw [htrace]
  exact hmono (List.subset_append_left _ _) hw

/-- No acknowledgement is added. -/
theorem Delivers.keeps_ackStored (h : Delivers m docs) :
    Prog.Keeps (Deserved rt geo codecs) m := by
  intro w hw
  obtain ⟨evs, htrace, hevs⟩ := h.final w
  rw [Deserved, htrace]
  clear htrace
  induction evs using List.reverseRecOn with
  | nil => simpa [Deserved] using hw
  | append_singleton evs ev ih =>
    obtain ⟨hevs, hev⟩ := List.forall_mem_append.mp hevs
    rw [← List.append_assoc]
    refine (ih hevs).concat fun chunk heq => ?_
    subst heq
    rcases List.forall_mem_singleton.mp hev with ⟨_, _, _, h⟩ | ⟨_, h⟩ <;> cases h

end Delivers

/-! ### Records -/

/-- A document that `index` returns for was accepted. -/
theorem triple_index (index : PyStr) (doc : Dict) :
    Prog.Triple (fun _ => True) (EsWriter.index index doc)
      (fun _ w => Accepted index doc w.trace) fun _ _ => True := by
  have hgiveUp : ∀ e, Prog.Triple (fun _ => True) (EsWriter.giveUp doc e)
      (fun _ w => Accepted index doc w.trace) fun _ _ => True := fun e =>
    Prog.Triple.bind (Q := fun _ _ => True) (Prog.Triple.modify fun _ _ => trivial) fun _ =>
      Prog.Triple.raise fun _ _ => trivial
  unfold EsWriter.index
  cases jsonDumps doc with
  | error e => exact hgiveUp e
  | ok _ =>
    refine attempts_rule (P := fun m => Prog.Triple (fun _ => True) m
      (fun _ w => Accepted index doc w.trace) fun _ _ => True) hgiveUp
      (fun f haccept hreject => ?_) 4
    refine Prog.Triple.bind (Q := fun o w => .request index doc o ∈ w.trace)
      (fun w _ => List.mem_append_right _ (List.mem_singleton.mpr rfl)) fun o => ?_
    cases ho : o.accepts with
    | true =>
      rw [haccept o ho]
      exact Prog.Triple.pure fun _ hmem => ⟨o, hmem, ho⟩
    | false => exact (hreject o ho).weaken (fun _ _ => trivial) (fun _ _ h => h) fun _ _ h => h

/-- A row that is written was accepted in the index of its day. -/
theorem triple_write (doc : Dict) :
    Prog.Triple (fun _ => True) (EsWriter.write rt c2Prefix doc)
      (fun _ w => ∃ index, dailyIndex rt c2Prefix doc = .ok index ∧ Accepted index doc w.trace)
      fun _ _ => True := by
  unfold EsWriter.write
  refine Prog.Triple.bind (Q := fun index _ => dailyIndex rt c2Prefix doc = .ok index)
    (Prog.Triple.ofExcept (fun _ _ h _ => h) fun _ _ _ _ => trivial) fun index w hindex => ?_
  exact (triple_index index doc w trivial).imp (fun _ _ h => ⟨index, hindex, h⟩) fun _ _ h => h

/-- **A record that is handled has its rows in the ledger.** -/
theorem triple_handleRecord (tag : PyStr) (record : Dict) :
    Prog.Triple (fun _ => True) (handleRecord rt geo tag record)
      (fun _ w => RowsStored rt geo w.trace (tag, record)) fun _ _ => True := by
  unfold handleRecord
  split_ifs with htag
  · refine Prog.Triple.pure fun _ _ henrichable => ?_
    rw [show isEnrichable tag = true from henrichable] at htag
    cases htag
  · cases henrich : enrichRecord rt geo record with
    | error e => exact Prog.Triple.raise fun _ _ => trivial
    | ok out =>
      obtain ⟨sessionDoc, rows⟩ := out
      let Row (t : List Event) (row : Dict) : Prop := ∃ index,
        dailyIndex rt c2Prefix (EsWriter.withTag tag row) = .ok index ∧
          Accepted index (EsWriter.withTag tag row) t
      have hmono : ∀ {t t' : List Event} {row : Dict}, t ⊆ t' → Row t row → Row t' row := by
        rintro t t' row hsub ⟨index, hindex, haccepted⟩
        exact ⟨index, hindex, haccepted.mono hsub⟩
      suffices h : Prog.Triple (fun _ => True) (EsWriter.writeSession rt sessionDoc tag >>= fun _ =>
          if rows.isEmpty then pure () else EsWriter.writeObservations rt rows tag)
          (fun _ w => ∀ row ∈ rows, Row w.trace row) fun _ _ => True from
        Prog.Triple.weaken h (fun _ h => h)
          (fun _ _ hrows _ => ⟨sessionDoc, rows, henrich, hrows⟩) fun _ _ h => h
      refine Prog.Triple.bind (Q := fun _ _ => True) ?_ fun _ => ?_
      · exact fun w _ => (delivers_writeSession rt sessionDoc tag w.trace w rfl).imp
          (fun _ _ _ => trivial) fun _ _ _ => trivial
      split_ifs with hempty
      · rw [List.isEmpty_iff.mp hempty]
        exact Prog.Triple.pure fun _ _ => List.forall_mem_nil _
      -- the rows written so far stay in the trace
      refine (Prog.Triple.forM (fun done w => ∀ row ∈ done, Row w.trace row) rows ?_).weaken
        (fun _ _ => List.forall_mem_nil _) (fun _ _ h => h) fun _ _ h => h
      intro done row todo _
      have hkeeps := (delivers_write rt c2Prefix (EsWriter.withTag tag row)).keeps
        (I := fun t => ∀ row ∈ done, Row t row) fun hsub h row hrow => hmono hsub (h row hrow)
      exact ((triple_write (EsWriter.withTag tag row)).and_keeps hkeeps).weaken
        (fun _ hdone => ⟨trivial, hdone⟩)
        (fun _ _ ⟨hrow, hdone⟩ => List.forall_mem_append.mpr
          ⟨hdone, List.forall_mem_singleton.mpr hrow⟩) fun _ _ _ => trivial

/-! ### Connections -/

/-- While a frame is handled: every acknowledgement is deserved, the frame is in the trace, and the
records handled so far have their rows in the ledger. -/
structure Handling (rt : Runtime) (geo : Option GeoEnricher) (codecs : Codecs) (msg : Obj)
    (done : List (PyStr × Dict)) (t : List Event) : Prop where
  acks : Justified (AckStored rt geo codecs) t
  frame : .frame msg ∈ t
  rows : ∀ record ∈ done, RowsStored rt geo t record

theorem triple_records (msg : Obj) (records : List (PyStr × Dict)) :
    Prog.Triple (fun w => Handling rt geo codecs msg [] w.trace)
      (Prog.forM records fun record => handleRecord rt geo record.1 record.2)
      (fun _ w => Handling rt geo codecs msg records w.trace)
      fun _ => Deserved rt geo codecs := by
  refine Prog.Triple.forM (fun done (w : Wire) => Handling rt geo codecs msg done w.trace)
    records ?_
  intro done record todo _
  have hdelivers := delivers_handleRecord rt geo record.1 record.2
  have hkeeps := hdelivers.keeps
    (I := fun t => .frame msg ∈ t ∧ ∀ record ∈ done, RowsStored rt geo t record)
    fun hsub h => ⟨hsub h.1, fun record hrecord => (h.2 record hrecord).mono hsub⟩
  have hacks : Prog.Keeps (Deserved rt geo codecs) _ := hdelivers.keeps_ackStored
  refine (((triple_handleRecord record.1 record.2).and_keeps hkeeps).and_keeps hacks).weaken
    (fun w hw => ⟨⟨trivial, hw.frame, hw.rows⟩, hw.acks⟩) ?_ fun _ _ h => h.2
  rintro _ w ⟨⟨hrecord, hframe, hdone⟩, hacks⟩
  exact ⟨hacks, hframe, List.forall_mem_append.mpr ⟨hdone, List.forall_mem_singleton.mpr hrecord⟩⟩

/-- One frame. -/
theorem keeps_ackStored_dispatch (msg : Obj) :
    Prog.Keeps (Deserved rt geo codecs)
      (dispatch codecs (handleRecord rt geo) msg) := by
  intro w hw
  have hframe : Justified (AckStored rt geo codecs) (w.trace ++ [.frame msg]) :=
    hw.concat fun _ => nofun
  have hother : ∀ w' : Wire, w'.trace = w.trace ++ [.frame msg] →
      Justified (AckStored rt geo codecs) w'.trace := fun w' hw' => hw' ▸ hframe
  refine Prog.Triple.final (P := fun w' : Wire => w'.trace = w.trace)
    (R := Deserved rt geo codecs)
    (triple_dispatch (R := fun records (w' : Wire) => Handling rt geo codecs msg records w'.trace)
      (fun _ => hother) ?_ ?_ (fun _ _ _ _ _ h => h.acks) ?_) rfl
  · intro w' hw'
    have hpong := hframe.concat (x := Event.pong) fun _ => nofun
    rw [Deserved, hw']
    simpa using hpong
  · intro records option hparse
    refine (triple_records msg records).weaken (fun w' hw' => ?_) (fun _ _ h => h) fun _ _ h => h
    exact ⟨hother w' hw', hw' ▸ List.mem_append_right _ (List.mem_singleton.mpr rfl),
      List.forall_mem_nil _⟩
  · intro records option chunk hparse hchunk w' hw'
    refine ⟨fun _ => hw'.acks, fun w'' hw'' => ?_⟩
    rw [Deserved, hw'']
    refine hw'.acks.concat fun chunk' heq => ?_
    obtain rfl := Event.ack.inj heq
    exact ⟨msg, records, option, hw'.frame, hparse, hchunk, hw'.rows⟩

/-- **What is acknowledged is in the ledger**, whatever bytes arrive. -/
theorem ackStored_handleStream (answers : ℕ → Outcome) (pieces : List Bytes) :
    Deserved rt geo codecs
      ((handleStream codecs (handleRecord rt geo) pieces).run ⟨answers, []⟩).2 :=
  keeps_handleStream keeps_ackStored_dispatch pieces _ .nil

/-! ### The frames of a connection -/

/-- The frames in a trace are among these. -/
def FramesOf (msgs : List Obj) (w : Wire) : Prop := ∀ msg, Event.frame msg ∈ w.trace → msg ∈ msgs

theorem FramesOf.of_append {msgs : List Obj} {t evs : List Event} {w : Wire}
    (ht : ∀ msg, Event.frame msg ∈ t → msg ∈ msgs) (hw : w.trace = t ++ evs)
    (hevs : ∀ msg, Event.frame msg ∈ evs → msg ∈ msgs) : FramesOf msgs w := by
  intro msg hmem
  rw [hw] at hmem
  exact (List.mem_append.mp hmem).elim (ht msg) (hevs msg)

/-- A frame is handled without another one. -/
theorem keeps_framesOf_dispatch {msgs : List Obj} {msg : Obj} (hmsg : msg ∈ msgs) :
    Prog.Keeps (FramesOf msgs) (dispatch codecs (handleRecord rt geo) msg) := by
  intro w hw
  have hframe : ∀ w' : Wire, w'.trace = w.trace ++ [.frame msg] → FramesOf msgs w' := by
    intro w' hw'
    refine .of_append hw hw' fun msg' hmem => ?_
    obtain rfl := Event.frame.inj (List.mem_singleton.mp hmem)
    exact hmsg
  refine Prog.Triple.final (P := fun w' : Wire => w'.trace = w.trace)
    (triple_dispatch (R := fun _ => FramesOf msgs) (fun _ => hframe) ?_ ?_ (fun _ _ _ _ _ h => h)
      ?_) rfl
  · intro w' hw'
    refine .of_append (hframe ⟨w.answers, _⟩ rfl) (hw'.trans (List.append_cons _ _ _)) ?_
    exact fun _ h => absurd (List.mem_singleton.mp h) nofun
  · intro records option _
    have hkeeps : Prog.Keeps (FramesOf msgs)
        (Prog.forM records fun record => handleRecord rt geo record.1 record.2) :=
      Prog.Keeps.forM fun record _ w' hw' => by
        obtain ⟨evs, htrace, hevs⟩ := (delivers_handleRecord rt geo record.1 record.2).final w'
        refine .of_append hw' htrace fun msg' hmem => ?_
        rcases hevs _ hmem with ⟨_, _, _, h⟩ | ⟨_, h⟩
        · cases h
        · cases h
    exact hkeeps.triple.weaken hframe (fun _ _ h => h) fun _ _ h => h
  · intro records option chunk _ _ w' hw'
    refine ⟨fun _ => hw', fun w'' hw'' => .of_append hw' hw'' ?_⟩
    exact fun _ h => absurd (List.mem_singleton.mp h) nofun

/-- **Only the frames that came are handled.** -/
theorem mem_of_frame_mem_handle {msgs : List Obj} {msg : Obj} {answers : ℕ → Outcome}
    (h : Event.frame msg ∈
      ((handle codecs (handleRecord rt geo) (msgs.map .ok)).run ⟨answers, []⟩).2.trace) :
    msg ∈ msgs := by
  have hkeeps : Prog.Keeps (FramesOf msgs) (handle codecs (handleRecord rt geo) (msgs.map .ok)) :=
    keeps_handle fun msg' hmem => by
      obtain ⟨msg'', hmem, heq⟩ := List.mem_map.mp hmem
      exact keeps_framesOf_dispatch (Except.ok.inj heq ▸ hmem)
  exact hkeeps ⟨answers, []⟩ (fun _ => nofun) msg h

end C2Engine
