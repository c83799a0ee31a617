import C2Engine.Pipeline.Pivot

/-!
# The facts of a session

A ledger row states a fact: that a session gave evidence of one kind for a host, with the URL and
the digest of the file where a file is the evidence. The rows of one session state each fact once,
but for a file that the session itself lists twice.

## Main definitions

* `Fact`, `C2Observation.fact`: what tells two rows apart.
* `fileSha256`, `ListsTwice`: the files of a session, and those it lists twice.

## Main results

* `pairwise_facts`: the rows of a session state each fact once.
-/

namespace C2Engine

open Python

/-- The columns of a fact; an absent one is no text. -/
structure Fact where
  sessionId : Option PyStr
  evidence : Option PyStr
  c2Host : Option PyStr
  c2Url : Option PyStr
  sha256 : Option PyStr
  c2ViaSha256 : Option PyStr
  deriving DecidableEq

/-- The fact a row states. -/
def C2Observation.fact (o : C2Observation) : Fact where
  sessionId := some o.sessionId
  evidence := some o.evidence.name
  c2Host := some o.c2Host
  c2Url := o.c2Url
  sha256 := o.sha256
  c2ViaSha256 := o.c2ViaSha256

/-- The digest of a file: the one the sensor gives, or else that of its bytes. -/
def fileSha256 (rt : Runtime) (f : FileRef) : Option PyStr :=
  PyStr.orNone f.shasum <|> (decodeBytes f).map rt.hashlib.sha256

/-- The file of a fact, with its URL and its digest, is listed at least twice. -/
def ListsTwice (rt : Runtime) (session : SessionIn) (fact : Fact) : Prop :=
  fact.evidence = some Evidence.servedFile.name ∧ 2 ≤ session.hpData.files.countP fun f =>
    decide (PyStr.orNone f.url = fact.c2Url ∧ fileSha256 rt f = fact.sha256)

theorem evidenceName_inj {a b : Evidence} : a.name = b.name ↔ a = b := by
  cases a <;> cases b <;> decide

@[simp] theorem fact_locateRow (geo : Option GeoEnricher) (o : C2Observation) :
    (locateRow geo o).fact = o.fact := by
  obtain ⟨_, _, _, _, h⟩ := locateRow_eq geo o
  rw [h]
  rfl

section Rows

variable {rt : Runtime} {session : SessionIn}

/-- The fact of a served file. -/
theorem fact_of_servedFile {f : FileRef} {o : C2Observation}
    (h : servedFile rt session f = .ok (some o)) :
    o.evidence = .servedFile ∧ o.sessionId = session.sessionId ∧
      o.c2Url = PyStr.orNone f.url ∧ o.sha256 = fileSha256 rt f := by
  cases servedAs_of_eq h with
  | bare _ _ hdata =>
    refine ⟨rfl, rfl, rfl, ?_⟩
    rw [fileSha256, hdata]
    change PyStr.orNone f.shasum = (PyStr.orNone f.shasum <|> none)
    cases PyStr.orNone f.shasum <;> rfl
  | payload _ _ hdata hrow =>
    obtain ⟨magic, hosts, -, -, content, truncated, rfl⟩ := servedPayload_eq_ok hrow rfl
    refine ⟨rfl, rfl, rfl, ?_⟩
    rw [fileSha256, hdata]
    rfl

/-- The results of a loop that have the same mark come from elements of that mark, and so there are
two of those. -/
theorem pairwise_reduceOption_mapM {α β κ : Type} [DecidableEq κ] {f : α → Except PyExc (Option β)}
    {mark : α → κ} {markOf : β → κ} (hmark : ∀ x y, f x = .ok (some y) → markOf y = mark x) :
    {xs : List α} → {ys : List (Option β)} → xs.mapM f = .ok ys →
      ys.reduceOption.Pairwise fun y y' => markOf y = markOf y' →
        2 ≤ xs.countP fun x => decide (mark x = markOf y) := by
  intro xs
  induction xs with
  | nil =>
    intro ys h
    cases h
    exact List.Pairwise.nil
  | cons x xs ih =>
    intro ys h
    rw [List.mapM_cons] at h
    obtain ⟨y, hy, h⟩ := bind_eq_ok.mp h
    obtain ⟨ys', hys, hret⟩ := bind_eq_ok.mp h
    simp only [pure, Except.pure, Except.ok.injEq] at hret
    subst hret
    have htail := (ih hys).imp fun {a b} hab heq => (hab heq).trans
      ((List.sublist_cons_self x xs).countP_le (p := fun z => decide (mark z = markOf a)))
    cases y with
    | none => rwa [List.reduceOption_cons_of_none]
    | some y =>
      rw [List.reduceOption_cons_of_some, List.pairwise_cons]
      refine ⟨fun y' hy' heq => ?_, htail⟩
      obtain ⟨x', hx', hfx'⟩ := (mem_of_mapM hys _).mp (List.reduceOption_mem_iff.mp hy')
      have hone : 1 ≤ xs.countP fun z => decide (mark z = markOf y) :=
        List.one_le_countP_iff.mpr ⟨x', hx', decide_eq_true (by rw [heq, hmark x' y' hfx'])⟩
      rw [List.countP_cons, if_pos (decide_eq_true (hmark x y hy).symm)]
      omega

/-- The rows of the served files. -/
theorem pairwise_servedFiles {rows : List C2Observation}
    (h : servedFiles rt session = .ok rows) :
    rows.Pairwise fun o o' => o.fact = o'.fact → ListsTwice rt session o.fact := by
  simp only [servedFiles, bind_eq_ok, pure, Except.pure, Except.ok.injEq] at h
  obtain ⟨os, hos, rfl⟩ := h
  have hmark : ∀ f o, servedFile rt session f = .ok (some o) →
      (o.c2Url, o.sha256) = (PyStr.orNone f.url, fileSha256 rt f) := by
    intro f o hf
    obtain ⟨-, -, hurl, hsha⟩ := fact_of_servedFile hf
    rw [hurl, hsha]
  refine (pairwise_reduceOption_mapM hmark hos).imp_of_mem fun {o o'} ho _ hpair heq => ?_
  obtain ⟨f, -, hf⟩ := (mem_of_mapM hos _).mp (List.reduceOption_mem_iff.mp ho)
  have hcols : (o.c2Url, o.sha256) = (o'.c2Url, o'.sha256) :=
    Prod.ext (congrArg Fact.c2Url heq) (congrArg Fact.sha256 heq)
  refine ⟨congrArg (fun e => some (Evidence.name e)) (fact_of_servedFile hf).1, ?_⟩
  have htwice := hpair hcols
  simp only [Prod.mk.injEq] at htwice
  exact htwice

/-- The rows of the hosts in commands. -/
theorem pairwise_shellReferences (session : SessionIn) (ctx : SessionContext) :
    (shellReferences session ctx).Pairwise fun o o' => o.fact ≠ o'.fact := by
  refine List.pairwise_map.mpr ((nodup_dedupe _ : ctx.iocs.c2Hosts.Nodup).imp ?_)
  exact fun hne heq => hne (Option.some.inj (congrArg Fact.c2Host heq))

/-- The rows of the hosts in files. -/
theorem pairwise_fileCallbacks (session : SessionIn) (served : List C2Observation) :
    (fileCallbacks session served).Pairwise fun o o' => o.fact ≠ o'.fact := by
  refine List.pairwise_map.mpr ((nodup_unseen [] _).imp fun {edge edge'} hne heq => hne ?_)
  exact Prod.ext (Option.some.inj (congrArg Fact.c2Host heq)) (congrArg Fact.c2ViaSha256 heq)

end Rows

section Process

variable {rt : Runtime} {geo : Option GeoEnricher} {raw : Dict} {session : SessionIn} {e : Enriched}

/-- Every row carries the id of its session. -/
theorem sessionId_of_mem (h : SessionIn.modelValidate rt raw = .ok session)
    (he : process rt raw geo = .ok e) {o : C2Observation} (ho : o ∈ e.observations) :
    o.fact.sessionId = some session.sessionId := by
  obtain ⟨ctx, served, -, hserved, hobs, -⟩ := process_eq_ok h he
  rw [hobs] at ho
  obtain ⟨row, hrow, rfl⟩ := List.mem_map.mp ho
  rw [fact_locateRow]
  cases (mem_rows_iff hserved).mp hrow with
  | reference | callback => rfl
  | served _ hfile => exact congrArg some (fact_of_servedFile hfile).2.1

/-- **The rows of a session state each fact once**, but for a file the session lists twice. -/
theorem pairwise_facts (h : SessionIn.modelValidate rt raw = .ok session)
    (he : process rt raw geo = .ok e) :
    e.observations.Pairwise fun o o' => o.fact = o'.fact → ListsTwice rt session o.fact := by
  obtain ⟨ctx, served, -, hserved, hobs, -⟩ := process_eq_ok h he
  -- rows of two producers differ in their evidence
  have hkinds : ∀ {a b : Evidence} {o o' : C2Observation}, o.evidence = a → o'.evidence = b →
      a ≠ b → o.fact ≠ o'.fact := by
    rintro _ _ o o' rfl rfl hne heq
    exact hne (evidenceName_inj.mp (Option.some.inj (congrArg Fact.evidence heq)))
  rw [hobs, List.pairwise_map]
  simp only [fact_locateRow]
  refine List.pairwise_append.mpr ⟨List.pairwise_append.mpr ⟨?_, pairwise_servedFiles hserved, ?_⟩,
    ?_, ?_⟩
  · exact (pairwise_shellReferences session ctx).imp fun hne heq => absurd heq hne
  · intro o ho o' ho' heq
    exact absurd heq (hkinds (evidence_of_mem_shellReferences ho)
      (evidence_of_mem_servedFiles hserved ho') (by decide))
  · exact (pairwise_fileCallbacks session served).imp fun hne heq => absurd heq hne
  · intro o ho o' ho' heq
    rcases List.mem_append.mp ho with ho | ho
    · exact absurd heq (hkinds (evidence_of_mem_shellReferences ho)
        (evidence_of_mem_fileCallbacks ho') (by decide))
    · exact absurd heq (hkinds (evidence_of_mem_servedFiles hserved ho)
        (evidence_of_mem_fileCallbacks ho') (by decide))

end Process

end C2Engine
