import C2Engine.Ingest.Routing

/-!
# The ingest service

`serve` of `services/ingest/server.py`: the templates are installed, and then every connection is
handled in a thread of its own. The threads share nothing that changes but Elasticsearch, so what
the service did up to a moment is what it did to start, and then any interleaving of what the
connections did up to that moment.

## Main definitions

* `ServiceEvent`: an event of the start, or of a connection.
* `own`, `startup`: the parts of a trace.
* `Connected`: the beginning of what the handler of a connection does.
* `Moment`: the traces of the service.
* `Safe`: what holds of them.

## Main results

* `safe_of_moment`: every trace of the service, at every moment and in every interleaving.
-/

namespace C2Engine

open Python Python.Msgpack

variable {ι : Type} [DecidableEq ι]

/-- What happens in the life of the service, on the connections `ι`. -/
inductive ServiceEvent (ι : Type) where
  | startup (ev : StartupEvent)
  | connection (i : ι) (ev : Event)

/-- An event, if it is one of the start. -/
def ServiceEvent.startup? : ServiceEvent ι → Option StartupEvent
  | .startup ev => some ev
  | .connection _ _ => none

/-- An event, if it is one of a connection. -/
def ServiceEvent.on? (i : ι) : ServiceEvent ι → Option Event
  | .startup _ => none
  | .connection j ev => if j = i then some ev else none

/-- What happened to start. -/
def startup (evs : List (ServiceEvent ι)) : List StartupEvent :=
  evs.filterMap ServiceEvent.startup?

/-- What happened on a connection. -/
def own (i : ι) (evs : List (ServiceEvent ι)) : List Event := evs.filterMap (ServiceEvent.on? i)

section Service

variable (rt : Runtime) (geo : Option GeoEnricher) (codecs : Codecs)

/-- The beginning of what the handler of a connection does, on whatever bytes it receives and
whatever Elasticsearch answers it. -/
def Connected (evs : List Event) : Prop :=
  ∃ now answers pieces, evs <+:
    ((handleStream codecs (handleRecord { rt with now := now } geo) pieces).run
      ⟨answers, []⟩).2.trace

/-- **The traces of the service up to a moment**: of its start, or of its start when that was
successful and then of its connections, in any order. -/
inductive Moment : List (ServiceEvent ι) → Prop
  | starting {answers : ℕ → Outcome} {evs : List StartupEvent}
      (h : evs <+: (EsWriter.ensureBootstrap.run ⟨answers, []⟩).2.trace) :
      Moment (evs.map .startup)
  | serving {answers : ℕ → Outcome} {evs : List (ι × Event)}
      (hstart : (EsWriter.ensureBootstrap.run ⟨answers, []⟩).1.isOk)
      (hconnected : ∀ i, Connected rt geo codecs
        (own i (evs.map fun ev => .connection ev.1 ev.2))) :
      Moment ((EsWriter.ensureBootstrap.run ⟨answers, []⟩).2.trace.map .startup ++
        evs.map fun ev => .connection ev.1 ev.2)

/-- What holds of a trace of the service. -/
structure Safe (evs : List (ServiceEvent ι)) : Prop where
  /-- Nothing happens on a connection before everything is installed. -/
  installed : ∀ before i ev after, evs = before ++ .connection i ev :: after →
    installed (startup before) = EsWriter.bootstrapResources
  /-- An acknowledgement stands behind the frame that asks for it and behind requests, on the same
  connection, by which the frame's documents were accepted. -/
  delivered : ∀ before i chunk after, evs = before ++ .connection i (.ack chunk) :: after →
    ∃ now, AckDelivered { rt with now := now } geo codecs chunk (own i before)
  /-- Nothing is acknowledged on a connection on which a document was given up. -/
  givenUp : ∀ before i doc after, evs = before ++ .connection i (.gaveUp doc) :: after →
    ∀ chunk, .connection i (.ack chunk) ∉ after
  /-- A request is for a document of a record that was received before it on its connection. -/
  routed : ∀ before i index doc outcome after,
    evs = before ++ .connection i (.request index doc outcome) :: after →
    ∃ now, Sent { rt with now := now } geo codecs index doc (own i before)
  /-- It goes to an index with the template of the ledger if it is a row, and to one without a
  template if it is a session document. -/
  covered : ∀ before i index doc outcome after,
    evs = before ++ .connection i (.request index doc outcome) :: after →
    ∃ now tag record sessionDoc rows,
      enrichRecord { rt with now := now } geo record = .ok (sessionDoc, rows) ∧
      (doc = EsWriter.withTag tag sessionDoc ∧ (∀ t ∈ templates, ¬ t.Covers index) ∨
        ∃ row ∈ rows, doc = EsWriter.withTag tag row ∧
          ∀ t ∈ templates, t.Covers index ↔ t = indexTemplate)

variable {rt geo codecs}

omit [DecidableEq ι] in
theorem startup_append (evs evs' : List (ServiceEvent ι)) :
    startup (evs ++ evs') = startup evs ++ startup evs' := List.filterMap_append

theorem own_append (i : ι) (evs evs' : List (ServiceEvent ι)) :
    own i (evs ++ evs') = own i evs ++ own i evs' := List.filterMap_append

omit [DecidableEq ι] in
theorem startup_map_startup (evs : List StartupEvent) :
    startup (evs.map (ServiceEvent.startup (ι := ι))) = evs := by
  rw [startup, List.filterMap_map]
  exact List.filterMap_some

theorem own_map_startup (i : ι) (evs : List StartupEvent) : own i (evs.map .startup) = [] := by
  rw [own, List.filterMap_map]
  exact List.filterMap_eq_nil_iff.mpr fun _ _ => rfl

/-- An event of a connection is one of its own. -/
theorem own_append_cons (i : ι) (ev : Event) (before after : List (ServiceEvent ι)) :
    own i (before ++ .connection i ev :: after) = own i before ++ ev :: own i after := by
  rw [own_append]
  simp [own, ServiceEvent.on?]

theorem mem_own {i : ι} {ev : Event} {evs : List (ServiceEvent ι)} :
    ev ∈ own i evs ↔ .connection i ev ∈ evs := by
  rw [own, List.mem_filterMap]
  constructor
  · rintro ⟨x, hx, hon⟩
    cases x with
    | startup ev' => cases hon
    | connection j ev' =>
      rw [ServiceEvent.on?, Option.ite_none_right_eq_some, Option.some.injEq] at hon
      obtain ⟨rfl, rfl⟩ := hon
      exact hx
  · exact fun h => ⟨_, h, if_pos rfl⟩

/-- At every moment of a connection its acknowledgements are deserved and its requests are for what
it received. -/
theorem Connected.atLeastOnce_routed {evs : List Event} (h : Connected rt geo codecs evs) :
    ∃ now, AtLeastOnce { rt with now := now } geo codecs evs ∧
      Routed { rt with now := now } geo codecs evs := by
  obtain ⟨now, answers, pieces, rest, hrest⟩ := h
  have hacks := @atLeastOnce_handleStream codecs { rt with now := now } geo answers pieces
  have hrouted := @routed_handleStream { rt with now := now } geo codecs answers pieces
  rw [← hrest] at hacks hrouted
  refine ⟨now, ⟨?_, ?_⟩, ?_⟩
  · rintro before chunk after rfl
    exact hacks.delivered before chunk (after ++ rest) (by simp)
  · rintro before doc after rfl chunk hmem
    exact hacks.givenUp before doc (after ++ rest) (by simp) chunk (List.mem_append_left _ hmem)
  · rintro before index doc outcome after rfl
    exact hrouted before index doc outcome (after ++ rest) (by simp)

/-- An event of a connection comes behind the whole start. -/
theorem Moment.before_connection {evs before after : List (ServiceEvent ι)} {i : ι} {ev : Event}
    (h : Moment rt geo codecs evs) (heq : evs = before ++ .connection i ev :: after) :
    installed (startup before) = EsWriter.bootstrapResources ∧
      Connected rt geo codecs (own i before ++ ev :: own i after) := by
  cases h with
  | starting h =>
    have hmem : ServiceEvent.connection i ev ∈ before ++ .connection i ev :: after := by simp
    rw [← heq] at hmem
    obtain ⟨_, -, habsurd⟩ := List.mem_map.mp hmem
    cases habsurd
  | @serving answers evs hstart hconnected =>
    have hconn := hconnected i
    rw [← List.nil_append (own i _), ← own_map_startup i
      (EsWriter.ensureBootstrap.run ⟨answers, []⟩).2.trace, ← own_append, heq,
      own_append_cons] at hconn
    refine ⟨?_, hconn⟩
    -- the part before the event begins with the start
    rcases List.append_eq_append_iff.mp heq with ⟨mid, rfl, hmid⟩ | ⟨mid, hmid, htail⟩
    · have hnone : startup mid = [] := by
        refine List.filterMap_eq_nil_iff.mpr fun x hx => ?_
        have hmem : x ∈ mid ++ .connection i ev :: after := List.mem_append_left _ hx
        rw [← hmid] at hmem
        obtain ⟨_, -, rfl⟩ := List.mem_map.mp hmem
        rfl
      rw [startup_append, startup_map_startup, hnone, List.append_nil]
      exact installed_of_isOk hstart
    · cases mid with
      | nil =>
        rw [List.append_nil] at hmid
        rw [← hmid, startup_map_startup]
        exact installed_of_isOk hstart
      | cons x mid =>
        have hmem : ServiceEvent.connection i ev ∈ before ++ x :: mid := by
          rw [(List.cons.inj htail).1]
          simp
        rw [← hmid] at hmem
        obtain ⟨_, -, habsurd⟩ := List.mem_map.mp hmem
        cases habsurd

theorem Moment.routed {evs before after : List (ServiceEvent ι)} {i : ι} {index : PyStr}
    {doc : Dict} {outcome : Outcome} (h : Moment rt geo codecs evs)
    (heq : evs = before ++ .connection i (.request index doc outcome) :: after) :
    ∃ now, Sent { rt with now := now } geo codecs index doc (own i before) := by
  obtain ⟨now, -, hrouted⟩ := (h.before_connection heq).2.atLeastOnce_routed
  exact ⟨now, hrouted _ index doc outcome _ rfl⟩

/-- **The service is safe at every moment and in every interleaving of its connections.** -/
theorem safe_of_moment {evs : List (ServiceEvent ι)} (h : Moment rt geo codecs evs) :
    Safe rt geo codecs evs where
  installed before i ev after heq := (h.before_connection heq).1
  delivered before i chunk after heq := by
    obtain ⟨now, hacks, -⟩ := (h.before_connection heq).2.atLeastOnce_routed
    exact ⟨now, hacks.delivered _ chunk _ rfl⟩
  givenUp before i doc after heq chunk hmem := by
    obtain ⟨now, hacks, -⟩ := (h.before_connection heq).2.atLeastOnce_routed
    exact hacks.givenUp _ doc _ rfl chunk (mem_own.mpr hmem)
  routed before i index doc outcome after heq := h.routed heq
  covered before i index doc outcome after heq := by
    obtain ⟨now, hsent⟩ := h.routed heq
    exact ⟨now, hsent.covers⟩

/-! ### Two connections -/

/-- What happens on a connection that brings one frame, where everything is accepted. -/
def frameTrace (rt : Runtime) (frame : Obj) : List Event :=
  ((handle .basic (handleRecord rt none) [.ok frame]).run ⟨fun _ => .status 201, []⟩).2.trace

theorem connected_frameTrace {frame : Obj} (hshort : isShort frame)
    (hlength : (packShort frame).length ≤ recvSize) :
    Connected rt none .basic (frameTrace rt frame) := by
  refine ⟨rt.now, fun _ => .status 201, [packShort frame], ?_⟩
  rw [run_handleStream_packShort hshort hlength, frameTrace]

/-- A frame arrived on a connection, one with two events was handled on another, and then the first
was. -/
def twoConnections : List (Bool × Event) :=
  ((frameTrace .basic firstFrame).take 1).map (Prod.mk true) ++
    ((frameTrace .basic secondFrame).map (Prod.mk false) ++
      ((frameTrace .basic firstFrame).drop 1).map (Prod.mk true))

/-- What the service did from its start on. -/
def twoLife : List (ServiceEvent Bool) :=
  (EsWriter.ensureBootstrap.run ⟨fun _ => .status 200, []⟩).2.trace.map .startup ++
    twoConnections.map fun ev => .connection ev.1 ev.2

theorem own_map_connection (i j : ι) (evs : List Event) :
    own i ((evs.map (Prod.mk j)).map fun ev => ServiceEvent.connection ev.1 ev.2) =
      if j = i then evs else [] := by
  rw [own, List.map_map, List.filterMap_map]
  split_ifs with h
  · refine (List.filterMap_congr fun ev _ => ?_).trans List.filterMap_some
    exact if_pos h
  · exact List.filterMap_eq_nil_iff.mpr fun _ _ => if_neg h

/-- What happens on each of the two connections. -/
theorem own_twoLife (i : Bool) :
    own i twoLife = frameTrace .basic (if i then firstFrame else secondFrame) := by
  rw [twoLife, own_append, own_map_startup, List.nil_append, twoConnections, List.map_append,
    List.map_append, own_append, own_append, own_map_connection, own_map_connection,
    own_map_connection]
  cases i with
  | true =>
    rw [if_pos rfl, if_neg Bool.false_ne_true, if_pos rfl, List.nil_append, List.take_append_drop,
      if_pos rfl]
  | false =>
    have hother : ¬ true = false := nofun
    rw [if_neg hother, if_neg hother, if_pos rfl, List.nil_append, List.append_nil,
      if_neg Bool.false_ne_true]

/-- A request. -/
def Event.isRequest : Event → Bool
  | .request .. => true
  | _ => false

/-- The text of the chunk that an event acknowledges. -/
def Event.acked? : Event → Option PyStr
  | .ack chunk => chunk.asStr?
  | _ => none

/-- An acknowledgement at the end of a trace. -/
theorem ack_mem_of_getLast {evs : List Event} {chunk : PyStr}
    (h : evs.getLast?.map Event.acked? = some (some chunk)) : Event.ack (.str chunk) ∈ evs := by
  obtain ⟨ev, hev, hchunk⟩ := Option.map_eq_some_iff.mp h
  cases ev with
  | ack chunk => exact Obj.asStr?_eq_some.mp hchunk ▸ List.mem_of_getLast? hev
  | _ => cases hchunk

/-- Both frames lead to requests and are acknowledged, and this is safe. -/
theorem safe_of_moment_two : Safe .basic none .basic twoLife ∧
    (own true twoLife).countP Event.isRequest = 2 ∧
    (own false twoLife).countP Event.isRequest = 3 ∧
    .connection true (.ack (.str (str "c1"))) ∈ twoLife ∧
    .connection false (.ack (.str (str "c2"))) ∈ twoLife := by
  have hmoment : Moment .basic none .basic twoLife := by
    rw [twoLife]
    refine .serving rfl fun i => ?_
    have hown := own_twoLife i
    rw [twoLife, own_append, own_map_startup, List.nil_append] at hown
    rw [hown]
    refine connected_frameTrace ?_ ?_
    · cases i <;> decide +kernel
    · cases i <;> decide +kernel
  have hfirst : (own true twoLife).countP Event.isRequest = 2 ∧
      (own true twoLife).getLast?.map Event.acked? = some (some (str "c1")) := by
    rw [own_twoLife]
    decide +kernel
  have hsecond : (own false twoLife).countP Event.isRequest = 3 ∧
      (own false twoLife).getLast?.map Event.acked? = some (some (str "c2")) := by
    rw [own_twoLife]
    decide +kernel
  exact ⟨safe_of_moment hmoment, hfirst.1, hsecond.1, mem_own.mp (ack_mem_of_getLast hfirst.2),
    mem_own.mp (ack_mem_of_getLast hsecond.2)⟩

end Service

end C2Engine
