import C2Engine.Python.Prog
import C2Engine.Runtime

/-!
# Writing to Elasticsearch

The part of `elastic/client.py` the ingest service uses: the daily index of a document, and
`EsWriter.index`, which sends a document up to five times. The world these writes happen in is a
`Wire`: the outcomes of the requests to come, and the trace of what was sent so far.

The trace has one event that nobody outside sees, `gaveUp`, recorded where `EsWriter.index`
raises for a document.

## Main definitions

* `Outcome`, `Event`, `Wire`: requests and their trace.
* `dailyIndex`: `_daily_index`.
* `EsWriter.index`, `EsWriter.writeSession`, `EsWriter.writeObservations`.
* `Delivers`: the specification of a program that writes documents.

## Main results

* `delivers_index`: `EsWriter.index` returns only when its document was accepted.
* `Delivers.bind`, `Delivers.forM`: the specification composes.
* `run_index_of_up`: while every request is accepted, one request is enough.
-/

namespace C2Engine

open Python

/-! ### The wire -/

/-- The outcome of a request, as `urlopen` reports it. It follows redirects, so the outcome is the
one behind them. -/
inductive Outcome where
  /-- An answer with a status; from 300 on it is an `HTTPError`. -/
  | status (code : ℕ)
  /-- No answer: a `URLError`. -/
  | unreachable
  /-- The connection broke while the answer was read; the exception is not a `URLError`. -/
  | broken
  deriving DecidableEq

/-- Accepted with a status below 300. -/
def Outcome.accepts : Outcome → Bool
  | .status code => code < 300
  | _ => false

/-- What happens on the two sides of the ingest service. -/
inductive Event where
  /-- A frame is taken from the connection. -/
  | frame (msg : Obj)
  /-- A document is sent to an index. -/
  | request (index : PyStr) (doc : Dict) (outcome : Outcome)
  /-- `EsWriter.index` raises for a document. -/
  | gaveUp (doc : Dict)
  /-- A greeting is answered. -/
  | pong
  /-- A chunk is acknowledged. -/
  | ack (chunk : Obj)

/-- The world of the ingest service. -/
structure Wire where
  /-- The outcomes of the requests to come. -/
  answers : ℕ → Outcome
  /-- What happened, the latest last. -/
  trace : List Event

/-- Record an event. -/
def emit (ev : Event) : Prog Wire Unit := Prog.modify fun w => { w with trace := w.trace ++ [ev] }

/-- Send a request. -/
def request (index : PyStr) (doc : Dict) : Prog Wire Outcome := fun w =>
  (.ok (w.answers 0), ⟨fun n => w.answers (n + 1), w.trace ++ [.request index doc (w.answers 0)]⟩)

/-! ### Indices -/

/-- `SESSION_PREFIX`. -/
def sessionPrefix : PyStr := str "stingar"

/-- `C2_PREFIX`. -/
def c2Prefix : PyStr := str "stingarc2"

/-- The value `_daily_index` takes the time from. -/
def timeField (record : Dict) : Option Obj :=
  Obj.pyOr (Obj.pyOr (record.get (key "end_time")) (record.get (key "@timestamp")))
    (record.get (key "ts"))

/-- A text parsed as a time, or else the present; a time without an offset is taken as UTC. -/
def textTime (rt : Runtime) (s : PyStr) : Datetime :=
  match rt.fromisoformat (PyStr.replace (cp 'Z') (str "+00:00") s) with
  | some dt => { dt with offset := some (dt.offset.getD 0) }
  | none => rt.now

/-- The time of a record; a number is a timestamp, and `True` is the number one. -/
def recordTime (rt : Runtime) (record : Dict) : Except PyExc Datetime :=
  match timeField record with
  | some (.int n) => fromtimestampInt n
  | some (.bool b) => fromtimestampInt (if b then 1 else 0)
  | some (.float x) => fromtimestampFloat x
  | some (.str s) => .ok (if s.isEmpty then rt.now else textTime rt s)
  | _ => .ok rt.now

/-- `_daily_index(prefix, record)`. -/
def dailyIndex (rt : Runtime) (indexPrefix : PyStr) (record : Dict) : Except PyExc PyStr := do
  let dt ← recordTime rt record
  return indexPrefix ++ str "-" ++ dt.strftimeDate

theorem isOk_dailyIndex (rt : Runtime) (indexPrefix : PyStr) (record : Dict) :
    (dailyIndex rt indexPrefix record).isOk ↔ (recordTime rt record).isOk := isOk_bind_pure

theorem prefix_of_dailyIndex {rt : Runtime} {indexPrefix index : PyStr} {record : Dict}
    (h : dailyIndex rt indexPrefix record = .ok index) : indexPrefix ++ str "-" <+: index := by
  obtain ⟨dt, -, hret⟩ := bind_eq_ok.mp h
  simp only [pure, Except.pure, Except.ok.injEq] at hret
  exact hret ▸ List.prefix_append _ _

/-! ### The writer -/

/-- `json.dumps(doc)`; the integers of a record have at most 64 bits and so can be written out. -/
def jsonDumps (doc : Dict) : Except PyExc Unit :=
  if (Obj.map doc).isJson then .ok () else .error .typeError

namespace EsWriter

/-- A status that is tried again. -/
def retryable (code : ℕ) : Bool := code = 429 || code = 502 || code = 503 || code = 504

/-- Raise for a document. -/
def giveUp (doc : Dict) (e : PyExc) : Prog Wire Unit := do
  emit (.gaveUp doc)
  Prog.raise e

/-- The attempts of `index` that are left; without one the loop ends and the function returns. -/
def attempts (index : PyStr) (doc : Dict) : ℕ → Prog Wire Unit
  | 0 => pure ()
  | left + 1 => do
    let outcome ← request index doc
    match outcome with
    | .status code =>
      if code < 300 then pure ()
      else if retryable code && 0 < left then attempts index doc left
      else giveUp doc (.httpError code)
    | .unreachable => if 0 < left then attempts index doc left else giveUp doc .urlError
    | .broken => giveUp doc .other

/-- `EsWriter.index`. -/
def index (index : PyStr) (doc : Dict) : Prog Wire Unit :=
  match jsonDumps doc with
  | .ok _ => attempts index doc 5
  | .error e => giveUp doc e

/-- A document with the tag it came with, `{**doc, "fluentd_tag": source_tag}`. -/
def withTag (sourceTag : PyStr) (doc : Dict) : Dict :=
  if sourceTag.isEmpty then doc else doc.set (key "fluentd_tag") (.str sourceTag)

/-- One document into the daily index of a prefix. -/
def write (rt : Runtime) (indexPrefix : PyStr) (doc : Dict) : Prog Wire Unit := do
  let name ← Prog.ofExcept (dailyIndex rt indexPrefix doc)
  index name doc

/-- `write_session`. -/
def writeSession (rt : Runtime) (doc : Dict) (sourceTag : PyStr) : Prog Wire Unit :=
  write rt sessionPrefix (withTag sourceTag doc)

/-- `write_observations`. -/
def writeObservations (rt : Runtime) (rows : List Dict) (sourceTag : PyStr) : Prog Wire Unit :=
  Prog.forM rows fun row => write rt c2Prefix (withTag sourceTag row)

end EsWriter

/-! ### What is delivered -/

/-- The documents accepted in a trace, in their order. -/
def accepted : List Event → List Dict
  | [] => []
  | .request _ doc outcome :: evs => if outcome.accepts then doc :: accepted evs else accepted evs
  | _ :: evs => accepted evs

@[simp] theorem accepted_append : (evs evs' : List Event) →
    accepted (evs ++ evs') = accepted evs ++ accepted evs'
  | [], _ => rfl
  | .request _ _ o :: evs, evs' => by
      by_cases h : o.accepts <;> simp [accepted, h, accepted_append evs evs']
  | .frame _ :: evs, evs' | .gaveUp _ :: evs, evs' | .pong :: evs, evs' | .ack _ :: evs, evs' =>
      accepted_append evs evs'

/-- Events that are requests. -/
def Requests (evs : List Event) : Prop := ∀ ev ∈ evs, ∃ index doc outcome,
  ev = .request index doc outcome

/-- Requests by which exactly the documents `docs` were accepted. -/
structure Writes (evs : List Event) (docs : List Dict) : Prop where
  requests : Requests evs
  accepted_eq : accepted evs = docs

/-- Requests that ended with an exception, the writer giving up on a document or not. -/
def Aborts (evs : List Event) : Prop :=
  ∃ reqs tail, evs = reqs ++ tail ∧ Requests reqs ∧ (tail = [] ∨ ∃ doc, tail = [.gaveUp doc])

theorem Requests.append {evs evs' : List Event} (h : Requests evs) (h' : Requests evs') :
    Requests (evs ++ evs') := List.forall_mem_append.mpr ⟨h, h'⟩

theorem Requests.nil : Requests [] := nofun

theorem Requests.singleton (index : PyStr) (doc : Dict) (outcome : Outcome) :
    Requests [.request index doc outcome] :=
  List.forall_mem_singleton.mpr ⟨index, doc, outcome, rfl⟩

theorem Writes.nil : Writes [] [] := ⟨Requests.nil, rfl⟩

theorem Writes.append {evs evs' : List Event} {docs docs' : List Dict} (h : Writes evs docs)
    (h' : Writes evs' docs') : Writes (evs ++ evs') (docs ++ docs') :=
  ⟨h.requests.append h'.requests, by rw [accepted_append, h.accepted_eq, h'.accepted_eq]⟩

theorem Aborts.of_requests_append {evs evs' : List Event} (h : Requests evs) (h' : Aborts evs') :
    Aborts (evs ++ evs') := by
  obtain ⟨reqs, tail, rfl, hreqs, htail⟩ := h'
  exact ⟨evs ++ reqs, tail, (List.append_assoc _ _ _).symm, h.append hreqs, htail⟩

/-- **A program that delivers documents**: if it returns, it sent requests by which exactly these
documents were accepted, and if it raises, it sent requests and perhaps gave up on a document. A
program without documents, `none`, does not return. -/
def Delivers {α : Type} (m : Prog Wire α) (docs : Option (List Dict)) : Prop :=
  ∀ t, Prog.Triple (fun w => w.trace = t) m
    (fun _ w => ∃ evs ds, w.trace = t ++ evs ∧ docs = some ds ∧ Writes evs ds)
    (fun _ w => ∃ evs, w.trace = t ++ evs ∧ Aborts evs)

/-- The documents of two programs, one after the other. -/
def appendDocs (docs docs' : Option (List Dict)) : Option (List Dict) :=
  docs.bind fun ds => docs'.map fun ds' => ds ++ ds'

/-- The documents of a loop. -/
def loopDocs {β : Type} (docs : β → Option (List Dict)) : List β → Option (List Dict)
  | [] => some []
  | x :: xs => appendDocs (docs x) (loopDocs docs xs)

/-- The documents of a loop are those of its iterations, which all have some. -/
theorem loopDocs_eq_some {β : Type} {docs : β → Option (List Dict)} :
    {xs : List β} → {ds : List Dict} → loopDocs docs xs = some ds →
      ∀ x ∈ xs, ∃ ds', docs x = some ds' ∧ ds'.Sublist ds
  | [], _, _ => nofun
  | x :: xs, ds, h => by
      obtain ⟨ds₁, h₁, h⟩ := Option.bind_eq_some_iff.mp h
      obtain ⟨ds₂, h₂, rfl⟩ := Option.map_eq_some_iff.mp h
      refine List.forall_mem_cons.mpr ⟨⟨ds₁, h₁, List.sublist_append_left _ _⟩, fun y hy => ?_⟩
      obtain ⟨ds', hds', hsub⟩ := loopDocs_eq_some h₂ y hy
      exact ⟨ds', hds', hsub.trans (List.sublist_append_right _ _)⟩

namespace Delivers

variable {α β : Type}

theorem pure (a : α) : Delivers (Pure.pure a) (some []) := fun t =>
  Prog.Triple.pure fun _ hw => ⟨[], [], by simpa using hw, rfl, Writes.nil⟩

theorem ofExcept (x : Except PyExc α) : Delivers (Prog.ofExcept x) (some []) := fun t =>
  Prog.Triple.ofExcept (fun _ _ _ hw => ⟨[], [], by simpa using hw, rfl, Writes.nil⟩)
    fun _ _ _ hw => ⟨[], by simpa using hw, [], [], rfl, Requests.nil, .inl rfl⟩

/-- What raises at once delivers anything. -/
theorem raise (e : PyExc) (docs : Option (List Dict)) :
    Delivers (Prog.raise e : Prog Wire α) docs :=
  fun t => Prog.Triple.raise fun _ hw =>
    ⟨[], by simpa using hw, [], [], rfl, Requests.nil, .inl rfl⟩

theorem bind {m : Prog Wire α} {f : α → Prog Wire β} {docs docs' : Option (List Dict)}
    (hm : Delivers m docs) (hf : ∀ a, Delivers (f a) docs') :
    Delivers (m >>= f) (appendDocs docs docs') := by
  intro t
  refine Prog.Triple.bind (hm t) fun a w hw => ?_
  obtain ⟨evs, ds, htrace, rfl, hwrites⟩ := hw
  refine (hf a (t ++ evs) w htrace).imp ?_ ?_
  · rintro b w' ⟨evs', ds', htrace', rfl, hwrites'⟩
    exact ⟨evs ++ evs', ds ++ ds', by rw [htrace', List.append_assoc], rfl,
      hwrites.append hwrites'⟩
  · rintro e w' ⟨evs', htrace', habort⟩
    exact ⟨evs ++ evs', by rw [htrace', List.append_assoc],
      habort.of_requests_append hwrites.requests⟩

theorem forM {body : β → Prog Wire Unit} {docs : β → Option (List Dict)} :
    (xs : List β) → (∀ x ∈ xs, Delivers (body x) (docs x)) →
      Delivers (Prog.forM xs body) (loopDocs docs xs)
  | [], _ => pure ()
  | x :: xs, h =>
      (h x List.mem_cons_self).bind fun _ => forM xs fun y hy => h y (List.mem_cons_of_mem x hy)

end Delivers

/-- The writer gives up by raising, and so delivers nothing. -/
theorem delivers_giveUp (doc : Dict) (e : PyExc) (docs : Option (List Dict)) :
    Delivers (EsWriter.giveUp doc e) docs := by
  rintro t w rfl
  exact ⟨[.gaveUp doc], rfl, [], [.gaveUp doc], rfl, Requests.nil, .inr ⟨doc, rfl⟩⟩

/-- A request is recorded with its answer. -/
theorem triple_request (index : PyStr) (doc : Dict) (t : List Event)
    {E : PyExc → Wire → Prop} : Prog.Triple (fun w => w.trace = t) (request index doc)
      (fun o w => w.trace = t ++ [.request index doc o]) E := by
  rintro w rfl
  rfl

/-- A request, after which an accepting answer ends the program and another one does not stop it
from delivering the document. -/
theorem delivers_request_bind {index : PyStr} {doc : Dict} {f : Outcome → Prog Wire Unit}
    (haccept : ∀ o : Outcome, o.accepts = true → f o = pure ())
    (hreject : ∀ o : Outcome, o.accepts = false → Delivers (f o) (some [doc])) :
    Delivers (request index doc >>= f) (some [doc]) := by
  intro t
  refine (triple_request index doc t).bind fun o w hw => ?_
  cases ho : o.accepts with
  | true =>
    rw [haccept o ho]
    exact ⟨_, _, hw, rfl, Requests.singleton index doc o, by simp [accepted, ho]⟩
  | false =>
    refine (hreject o ho _ w hw).imp ?_ ?_
    · rintro u w' ⟨evs, ds, htrace, hds, hwrites⟩
      obtain rfl := Option.some.inj hds
      exact ⟨_, _, htrace.trans (List.append_assoc _ _ _), rfl,
        (Requests.singleton index doc o).append hwrites.requests,
        by simpa [accepted, ho] using hwrites.accepted_eq⟩
    · rintro e w' ⟨evs, htrace, habort⟩
      exact ⟨_, htrace.trans (List.append_assoc _ _ _),
        habort.of_requests_append (Requests.singleton index doc o)⟩

/-- The rule of the attempts: what holds of a program that gives up, and passes from the programs
behind a request to the request, holds of the attempts. They do not run out: the last one returns
or raises. -/
theorem attempts_rule {P : Prog Wire Unit → Prop} {index : PyStr} {doc : Dict}
    (hgiveUp : ∀ e, P (EsWriter.giveUp doc e))
    (hrequest : ∀ f : Outcome → Prog Wire Unit, (∀ o : Outcome, o.accepts = true → f o = pure ()) →
      (∀ o : Outcome, o.accepts = false → P (f o)) → P (request index doc >>= f)) :
    (left : ℕ) → P (EsWriter.attempts index doc (left + 1)) := by
  -- an attempt that is not accepted gives up, or leaves the rest to the attempts behind it
  have hstep : ∀ left, (0 < left → P (EsWriter.attempts index doc left)) →
      P (EsWriter.attempts index doc (left + 1)) := by
    intro left hrest
    refine hrequest _ (fun o ho => ?_) fun o ho => ?_
    · cases o with
      | status code =>
        have hcode : code < 300 := by simpa [Outcome.accepts] using ho
        exact if_pos hcode
      | _ => cases ho
    · cases o with
      | status code =>
        have hcode : ¬ code < 300 := by simpa [Outcome.accepts] using ho
        simp only [hcode, if_false]
        split_ifs with hleft
        · exact hrest (of_decide_eq_true (Bool.and_eq_true_iff.mp hleft).2)
        · exact hgiveUp _
      | unreachable =>
        dsimp only
        split_ifs with hleft
        · exact hrest hleft
        · exact hgiveUp _
      | broken => exact hgiveUp _
  intro left
  induction left with
  | zero => exact hstep 0 fun h => absurd h (lt_irrefl 0)
  | succ left ih => exact hstep (left + 1) fun _ => ih

/-- The attempts return only when one was accepted. -/
theorem delivers_attempts (index : PyStr) (doc : Dict) (left : ℕ) :
    Delivers (EsWriter.attempts index doc (left + 1)) (some [doc]) :=
  attempts_rule (P := fun m => Delivers m (some [doc])) (fun e => delivers_giveUp doc e _)
    (fun _ => delivers_request_bind) left

/-- **`EsWriter.index` returns only when its document was accepted.** -/
theorem delivers_index (index : PyStr) (doc : Dict) :
    Delivers (EsWriter.index index doc) (some [doc]) := by
  unfold EsWriter.index
  split
  · exact delivers_attempts index doc 4
  · exact delivers_giveUp doc _ _

theorem delivers_write (rt : Runtime) (indexPrefix : PyStr) (doc : Dict) :
    Delivers (EsWriter.write rt indexPrefix doc) (some [doc]) :=
  (Delivers.ofExcept _).bind fun name => delivers_index name doc

theorem delivers_writeSession (rt : Runtime) (doc : Dict) (sourceTag : PyStr) :
    Delivers (EsWriter.writeSession rt doc sourceTag) (some [EsWriter.withTag sourceTag doc]) :=
  delivers_write rt _ _

theorem delivers_writeObservations (rt : Runtime) (sourceTag : PyStr) : (rows : List Dict) →
    Delivers (EsWriter.writeObservations rt rows sourceTag)
      (some (rows.map (EsWriter.withTag sourceTag)))
  | [] => Delivers.pure ()
  | row :: rows =>
      (delivers_write rt c2Prefix (EsWriter.withTag sourceTag row)).bind fun _ =>
        delivers_writeObservations rt sourceTag rows

/-! ### While Elasticsearch is up -/

/-- Every request is accepted. -/
def Wire.Up (w : Wire) : Prop := ∀ n, (w.answers n).accepts = true

/-- **While every request is accepted, one is enough**, for a document JSON can hold. -/
theorem run_index_of_up {w : Wire} (hw : w.Up) {index : PyStr} {doc : Dict}
    (hdoc : (Obj.map doc).isJson) :
    (EsWriter.index index doc).run w = (.ok (), ⟨fun n => w.answers (n + 1),
      w.trace ++ [.request index doc (w.answers 0)]⟩) := by
  have h0 := hw 0
  have hdumps : jsonDumps doc = .ok () := if_pos hdoc
  rw [EsWriter.index, hdumps]
  change (match w.answers 0 with
    | .status code => if code < 300 then pure () else _
    | .unreachable => _
    | .broken => _ : Prog Wire Unit).run _ = _
  cases ha : w.answers 0 with
  | status code =>
    have hcode : code < 300 := by simpa [Outcome.accepts, ha] using h0
    simp only [hcode, if_true]
    rfl
  | _ => simp [Outcome.accepts, ha] at h0

/-- While every request is accepted, a document with a daily index is sent there. -/
theorem run_write_of_up {w : Wire} (hw : w.Up) {rt : Runtime} {indexPrefix index : PyStr}
    {doc : Dict} (hdoc : (Obj.map doc).isJson)
    (hindex : dailyIndex rt indexPrefix doc = .ok index) :
    (EsWriter.write rt indexPrefix doc).run w = (.ok (), ⟨fun n => w.answers (n + 1),
      w.trace ++ [.request index doc (w.answers 0)]⟩) := by
  have hrun : (EsWriter.write rt indexPrefix doc).run w = (EsWriter.index index doc).run w := by
    unfold EsWriter.write
    rw [hindex]
    rfl
  rw [hrun, run_index_of_up hw hdoc]

end C2Engine
