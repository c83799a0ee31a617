import C2Engine.Ingest.Redelivery

/-!
# One row for each fact

When a run of deliveries leaves one row for each fact in the ledger. A document is sent without an
id, so nothing absorbs a write that is applied a second time, and the rows are as many as the writes
that were applied. What keeps a fact from a second row is that no write is lost sight of: a row that
Elasticsearch applies is accepted, and its delivery is acknowledged.

## Main results

* `exactlyOnce_iff`: such a run leaves one row for each fact, and once the chunk is acknowledged
  only such a run does.
* `not_exactlyOnce_ackLost`: a chunk whose first acknowledgement is lost leaves two.
-/

namespace C2Engine

open Python

variable {rt : Runtime} {geo : Option GeoEnricher} {codecs : Codecs} {msg chunk : Obj}
  {records : List (PyStr × Dict)} {option : Option Dict}

namespace Delivery

variable (rt geo codecs msg) in
theorem stored_perm (d : Delivery) : (d.stored rt geo codecs msg).Perm
    (d.accepted rt geo codecs msg ++ d.unaccepted rt geo codecs msg) := storedRows_perm _ _

theorem mem_of_mem_stored (hparse : parseFrame codecs msg = .ok (records, option)) {d : Delivery}
    {row : Dict} (h : row ∈ d.stored rt geo codecs msg) : row ∈ chunkRows rt geo records := by
  obtain ⟨s, hs, rfl⟩ := mem_of_mem_storedRows h
  exact (delivered_trace hparse d).sent s hs

/-- All rows of a chunk are accepted in a delivery that is acknowledged. -/
theorem accepted_of_acked (hparse : parseFrame codecs msg = .ok (records, option)) {d : Delivery}
    (h : d.Acked rt geo codecs msg chunk) :
    d.accepted rt geo codecs msg = chunkRows rt geo records :=
  (delivered_trace hparse d).acked chunk h.2

end Delivery

namespace Run

variable {r : Run rt geo codecs msg chunk}

/-- A run that is completed ends with the only delivery that is acknowledged. -/
theorem Completed.deliveries_eq (h : r.Completed) : ∃ before d, r.deliveries = before ++ [d] ∧
    d.Acked rt geo codecs msg chunk ∧ ∀ d' ∈ before, ¬ d'.Acked rt geo codecs msg chunk := by
  obtain ⟨d, hd, hacked⟩ := h
  obtain ⟨before, after, hsplit⟩ := List.append_of_mem hd
  obtain rfl := r.acked_last before d after hsplit hacked
  refine ⟨before, d, hsplit, hacked, fun d' hd' hacked' => ?_⟩
  obtain ⟨front, back, rfl⟩ := List.append_of_mem hd'
  have hback := r.acked_last front d' (back ++ [d]) (by rw [hsplit, List.append_assoc]; rfl) hacked'
  exact List.cons_ne_nil d [] (List.append_eq_nil_iff.mp hback).2

/-- The ledger of a run in which no write is lost sight of holds the rows of the chunk, each at most
once. -/
theorem Clean.written_subperm (hparse : parseFrame codecs msg = .ok (records, option))
    (h : r.Clean) : r.written.Subperm (chunkRows rt geo records) := by
  -- only an acknowledged delivery leaves rows
  have hquiet : ∀ d ∈ r.deliveries, ¬ d.Acked rt geo codecs msg chunk →
      d.stored rt geo codecs msg = [] := by
    intro d hd hacked
    have hperm := d.stored_perm rt geo codecs msg
    rw [(h d hd).1, (h d hd).2 hacked] at hperm
    exact hperm.eq_nil
  by_cases hdone : r.Completed
  · obtain ⟨before, d, hsplit, hacked, hbefore⟩ := hdone.deliveries_eq
    have hd : d ∈ r.deliveries := hsplit ▸ List.mem_append_right _ (List.mem_singleton_self d)
    have hperm := d.stored_perm rt geo codecs msg
    rw [(h d hd).1, List.append_nil, Delivery.accepted_of_acked hparse hacked] at hperm
    have hnil : (before.flatMap fun d => d.stored rt geo codecs msg) = [] :=
      List.flatMap_eq_nil_iff.mpr fun d' hd' =>
        hquiet d' (hsplit ▸ List.mem_append_left _ hd') (hbefore d' hd')
    rw [written, hsplit, List.flatMap_append, hnil, List.nil_append, List.flatMap_singleton]
    exact hperm.subperm
  · have hnil : r.written = [] := List.flatMap_eq_nil_iff.mpr fun d hd =>
      hquiet d hd fun hacked => hdone ⟨d, hd, hacked⟩
    rw [hnil]
    exact List.nil_subperm

/-- In a run that is completed and inflates no host, no write is lost sight of. -/
theorem Completed.clean (hparse : parseFrame codecs msg = .ok (records, option))
    (hdone : r.Completed)
    (h : ∀ host, sightings host r.written ≤ sightings host (chunkRows rt geo records)) :
    r.Clean := by
  obtain ⟨before, d, hsplit, hacked, hbefore⟩ := hdone.deliveries_eq
  set earlier := before.flatMap fun d => d.stored rt geo codecs msg with hearlier
  have hperm : r.written.Perm (earlier ++ (chunkRows rt geo records ++
      d.unaccepted rt geo codecs msg)) := by
    rw [written, hsplit, List.flatMap_append, List.flatMap_singleton,
      ← Delivery.accepted_of_acked hparse hacked]
    exact (d.stored_perm rt geo codecs msg).append_left _
  -- a row besides those of the acknowledgement would be a sighting of its host
  have hnone : ∀ row ∈ chunkRows rt geo records,
      row ∉ earlier ∧ row ∉ d.unaccepted rt geo codecs msg := by
    intro row hrow
    obtain ⟨host, hhost⟩ := exists_host_of_mem hrow
    have hcount := h host
    rw [sightings, sightings, hperm.countP_eq, List.countP_append, List.countP_append] at hcount
    have hzero : ∀ rows : List Dict,
        rows.countP (fun row => decide (rowText row "c2_host" = some host)) = 0 → row ∉ rows :=
      fun rows hrows hmem => List.countP_eq_zero.mp hrows row hmem (decide_eq_true hhost)
    exact ⟨hzero _ (by omega), hzero _ (by omega)⟩
  have hstored : ∀ d' ∈ before, d'.stored rt geo codecs msg = [] := by
    intro d' hd'
    refine List.eq_nil_iff_forall_not_mem.mpr fun row hrow => ?_
    exact (hnone row (Delivery.mem_of_mem_stored hparse hrow)).1
      (List.mem_flatMap.mpr ⟨d', hd', hrow⟩)
  intro d' hd'
  rw [hsplit] at hd'
  rcases List.mem_append.mp hd' with hd' | hd'
  · have hperm' := d'.stored_perm rt geo codecs msg
    rw [hstored d' hd'] at hperm'
    obtain ⟨haccepted, hunaccepted⟩ := List.append_eq_nil_iff.mp hperm'.nil_eq.symm
    exact ⟨hunaccepted, fun _ => haccepted⟩
  · obtain rfl := List.mem_singleton.mp hd'
    refine ⟨List.eq_nil_iff_forall_not_mem.mpr fun row hrow => ?_, fun hnot => absurd hacked hnot⟩
    have hmem : row ∈ d'.stored rt geo codecs msg :=
      (d'.stored_perm rt geo codecs msg).mem_iff.mpr (List.mem_append_right _ hrow)
    exact (hnone row (Delivery.mem_of_mem_stored hparse hmem)).2 hrow

end Run

/-- **When a run leaves one row for each fact**: it does where no write is lost sight of, and once
the chunk is acknowledged only there. -/
theorem exactlyOnce_iff (hparse : parseFrame codecs msg = .ok (records, option))
    (hdistinct : DistinctSessions rt records) (r : Run rt geo codecs msg chunk) :
    (r.Clean → r.ExactlyOnce records) ∧ (r.Completed → r.ExactlyOnce records → r.Clean) := by
  constructor
  · intro hclean rows hrows
    have hsub := hrows.trans (hclean.written_subperm hparse)
    exact ⟨(pairwise_chunkRows hdistinct).subperm hsub, sightings_le_of_subperm hsub⟩
  · intro hdone hexactly
    exact hdone.clean hparse (hexactly r.written (List.Subperm.refl _)).2

/-! ### A lost acknowledgement -/

/-- A session with one URL. -/
def urlRecord : PyStr × Dict :=
  (str "stingar.enrichable.cowrie", [(key "hp_data", .map [
    (key "session", .str (str "s1")), (key "urls", .strs [str "http://192.0.2.1/x"])])])

/-- Its chunk. -/
def urlFrame : Obj :=
  .list [.str urlRecord.1, .int 0, .map urlRecord.2, .map [(key "chunk", .str (str "c"))]]

/-- A delivery in which Elasticsearch accepts every request. -/
def smoothDelivery (arrives : Bool) : Delivery where
  now := ⟨0, some 0⟩
  answers _ := .status 201
  applied _ := false
  arrives := arrives

/-- A delivery in which Elasticsearch refuses every request. -/
def refusedDelivery : Delivery where
  now := ⟨0, some 0⟩
  answers _ := .status 503
  applied _ := false
  arrives := true

/-- The chunk is delivered twice, since the first acknowledgement is lost. -/
def ackLostRun : Run .basic none .basic urlFrame (.str (str "c")) where
  deliveries := [smoothDelivery false, smoothDelivery true]
  acked_last before d after h hacked := by
    rcases before with _ | ⟨d₁, _ | ⟨d₂, before⟩⟩
    · rw [← (List.cons.inj h).1] at hacked
      exact absurd hacked.1 Bool.false_ne_true
    · exact (List.cons.inj (List.cons.inj h).2).2.symm
    · exact absurd (List.cons.inj (List.cons.inj h).2).2.symm (by simp)

/-- The acknowledgement of a chunk with a text as identifier. -/
def isAckOf (chunk : PyStr) : Event → Bool
  | .ack (.str s) => s = chunk
  | _ => false

theorem eq_ack_of_isAckOf {chunk : PyStr} {ev : Event} (h : isAckOf chunk ev) :
    ev = .ack (.str chunk) := by
  unfold isAckOf at h
  split at h
  · rw [of_decide_eq_true h]
  · cases h

theorem unacceptedRows_of_not_applied :
    (sent : List (Dict × Outcome)) → unacceptedRows (fun _ => false) sent = []
  | [] => rfl
  | s :: sent => by
      rw [unacceptedRows, Bool.and_false, if_neg Bool.false_ne_true]
      exact unacceptedRows_of_not_applied sent

/-- A refused delivery leaves nothing and is not acknowledged. -/
theorem refusedDelivery_trace :
    (refusedDelivery.accepted .basic none .basic urlFrame).isEmpty = true ∧
      (refusedDelivery.trace .basic none .basic urlFrame).any (isAckOf (str "c")) = false := by
  decide +kernel

theorem not_acked_refused :
    ¬ refusedDelivery.Acked .basic none .basic urlFrame (.str (str "c")) := fun hacked =>
  Bool.false_ne_true (refusedDelivery_trace.2.symm.trans
    (List.any_eq_true.mpr ⟨_, hacked.2, rfl⟩))

/-- The chunk is delivered again, since Elasticsearch refused its documents. -/
def redeliveredRun : Run .basic none .basic urlFrame (.str (str "c")) where
  deliveries := [refusedDelivery, smoothDelivery true]
  acked_last before d after h hacked := by
    rcases before with _ | ⟨d₁, _ | ⟨d₂, before⟩⟩
    · rw [← (List.cons.inj h).1] at hacked
      exact absurd hacked not_acked_refused
    · exact (List.cons.inj (List.cons.inj h).2).2.symm
    · exact absurd (List.cons.inj (List.cons.inj h).2).2.symm (by simp)

/-- The second delivery leaves one row for each fact. -/
theorem exactlyOnce_redelivered : redeliveredRun.ExactlyOnce [urlRecord] := by
  have hparse : parseFrame .basic urlFrame =
      .ok ([urlRecord], some [(key "chunk", .str (str "c"))]) := rfl
  have hdistinct : DistinctSessions .basic [urlRecord] := List.pairwise_singleton _ _
  refine (exactlyOnce_iff hparse hdistinct redeliveredRun).1 fun d hd => ?_
  rcases List.mem_cons.mp hd with rfl | hd
  · exact ⟨unacceptedRows_of_not_applied _,
      fun _ => List.isEmpty_iff.mp refusedDelivery_trace.1⟩
  obtain rfl := List.mem_singleton.mp hd
  have hack : ((smoothDelivery true).trace .basic none .basic urlFrame).any
    (isAckOf (str "c")) := by
    decide +kernel
  refine ⟨unacceptedRows_of_not_applied _, fun hnot => absurd ⟨rfl, ?_⟩ hnot⟩
  obtain ⟨ev, hev, htest⟩ := List.any_eq_true.mp hack
  exact eq_ack_of_isAckOf htest ▸ hev

/-- Elasticsearch accepts every request, and the ledger holds a row of the commands twice. -/
theorem not_exactlyOnce_ackLost : ¬ ackLostRun.ExactlyOnce [urlRecord] := by
  intro h
  have hfacts : ackLostRun.written.map factOf = List.replicate 2
      { sessionId := some (str "s1"), evidence := some (str "shell_reference"),
        c2Host := some (str "192.0.2.1"), c2Url := none, sha256 := none, c2ViaSha256 := none } := by
    decide +kernel
  have hpair := (h _ (List.Subperm.refl _)).1
  rw [OneRowPerFact, ← List.pairwise_map (f := factOf)
    (R := fun fact fact' => fact = fact' → ChunkListsTwice .basic [urlRecord] fact),
      hfacts] at hpair
  obtain ⟨_, _, _, _, _, hevidence, -⟩ := List.rel_of_pairwise_cons hpair
    (List.mem_singleton_self _) rfl
  exact absurd (Option.some.inj hevidence) (by decide)

end C2Engine
