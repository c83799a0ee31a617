import C2Engine.Reason.Engine

/-!
# The document of an entity

An entity is written as a JSON document: the roll-up, with the overlay merged into it, and the
network and the location where there are any. The template of the index adds a field that is
computed from the document when it is read, the stage by the evidence alone.

Times are written as texts; how is left to a `DateTexts`.

## Main definitions

* `Overlay.dump`, `EntityDoc.dump`: the documents.
* `evidenceStage`: the computed field.

## Main results

* `EntityDoc.get_dump_of_rollup`: the overlay does not touch the roll-up.
* `EntityDoc.get_dump_congr`: outside of `signalKeys` the document depends on the stage and the
  families of the overlay only.
-/

namespace C2Engine

open Python

/-- The name of a stage. -/
def Stage.name : Stage → PyStr
  | .unconfirmed => str "unconfirmed"
  | .stage1Serving => str "stage1_serving"
  | .stage2C2 => str "stage2_c2"

/-- How times are written. -/
structure DateTexts where
  /-- The `value_as_string` of a time in milliseconds. -/
  valueAsString : ℤ → PyStr
  /-- `strftime` of a whole second. -/
  strftime : ℤ → PyStr

/-- An item of a dictionary, if there is a value. -/
def optItem {α : Type} (k : String) (f : α → Obj) (v : Option α) : Dict :=
  (v.map fun x => (key k, f x)).toList

/-- The keys of the overlay besides the stage and the families. -/
def signalKeys : List Key :=
  [key "stage_signals", key "attributed_toolkit", key "max_vt_ratio", key "vt_families",
    key "intel_sources", key "intel_malware"]

namespace Overlay

/-- The items of `compute_overlay`. -/
def base (o : Overlay) : Dict :=
  [(key "stage", .str o.stage.name), (key "stage_signals", .strs o.stageSignals),
    (key "families", .strs o.families)]

/-- The items that are added where there is something to say. -/
def extra (o : Overlay) : Dict :=
  optItem "attributed_toolkit" .strs o.attributedToolkit ++
  optItem "max_vt_ratio" .float o.maxVtRatio ++ optItem "vt_families" .strs o.vtFamilies ++
  optItem "intel_sources" .strs o.intelSources ++ optItem "intel_malware" .strs o.intelMalware

/-- The overlay. -/
def dump (o : Overlay) : Dict := o.base ++ o.extra

theorem mem_optItem {α : Type} {k : String} {f : α → Obj} {v : Option α} {kv : Key × Obj}
    (h : kv ∈ optItem k f v) : kv.1 = key k := by
  simp only [optItem, Option.mem_toList, Option.map_eq_some_iff] at h
  obtain ⟨x, -, rfl⟩ := h
  rfl

theorem mem_extra {o : Overlay} {kv : Key × Obj} (h : kv ∈ o.extra) : kv.1 ∈ signalKeys := by
  simp only [extra, List.mem_append] at h
  rcases h with (((h | h) | h) | h) | h <;>
  · rw [mem_optItem h]
    simp [signalKeys]

end Overlay

namespace EntityDoc

/-- The fields of the latest row that are there. -/
def latestItems (l : Latest) : Dict :=
  optItem "c2_host_kind" .str l.c2HostKind ++ optItem "c2_country" .str l.c2Country ++
    optItem "c2_asn_org" .str l.c2AsnOrg

/-- The items of the roll-up. -/
def rollup (dates : DateTexts) (e : EntityDoc) : Dict :=
  [(key "c2_host", .str e.c2Host),
    (key "first_seen", .str (dates.valueAsString e.firstSeen)),
    (key "last_seen", .str (dates.valueAsString e.lastSeen)),
    (key "sighting_count", .int e.sightingCount),
    (key "sensor_count", .int e.sensorCount),
    (key "src_ip_count", .int e.srcIpCount),
    (key "distinct_files", .int e.distinctFiles),
    (key "max_evidence_rank", .int e.maxEvidenceRank),
    (key "latest", .map (latestItems e.latest)),
    (key "reason_version", .str e.reasonVersion),
    (key "updated_at", .str (dates.strftime e.updatedAt))]

/-- A location. -/
def geoObj (g : GeoPoint) : Obj := .map [(key "lat", .float g.1), (key "lon", .float g.2)]

/-- The items that are set after the merge. -/
def located (e : EntityDoc) : Dict :=
  optItem "c2_asn" .int e.c2Asn ++ optItem "c2_geo" geoObj e.c2Geo

/-- The document that is written. -/
def dump (dates : DateTexts) (e : EntityDoc) : Dict :=
  ((e.rollup dates).update e.overlay.dump).update e.located

variable {dates : DateTexts} {e : EntityDoc}

theorem mem_located {kv : Key × Obj} (h : kv ∈ e.located) :
    kv.1 = key "c2_asn" ∨ kv.1 = key "c2_geo" :=
  (List.mem_append.mp h).imp Overlay.mem_optItem Overlay.mem_optItem

/-- Neither the overlay nor what is set after it touches the roll-up. -/
theorem get_dump_of_rollup {k : Key} (hk : k ∈ (e.rollup dates).map Prod.fst) :
    (e.dump dates).get k = (e.rollup dates).get k := by
  have hnot : k ∉ [key "c2_asn", key "c2_geo", key "stage", key "families"] ++ signalKeys := by
    intro h
    simp only [rollup, List.map_cons, List.map_nil, List.mem_cons, List.not_mem_nil, or_false]
      at hk
    rcases hk with rfl | rfl | rfl | rfl | rfl | rfl | rfl | rfl | rfl | rfl | rfl <;>
      simp [signalKeys] at h
  simp only [List.mem_append, List.mem_cons, List.not_mem_nil, or_false, not_or] at hnot
  obtain ⟨⟨hasn, hgeo, hstage, hfamilies⟩, hsignal⟩ := hnot
  rw [dump, Dict.get_update_of_notMem, Dict.get_update_of_notMem]
  · intro kv hkv heq
    rcases List.mem_append.mp hkv with hkv | hkv
    · simp only [Overlay.base, List.mem_cons, List.not_mem_nil, or_false] at hkv
      rcases hkv with rfl | rfl | rfl
      · exact hstage heq.symm
      · exact hsignal (heq ▸ by simp [signalKeys])
      · exact hfamilies heq.symm
    · exact hsignal (heq ▸ Overlay.mem_extra hkv)
  · intro kv hkv heq
    rcases mem_located hkv with h | h
    · exact hasn (heq ▸ h)
    · exact hgeo (heq ▸ h)

/-- Dictionaries that agree on a key agree on it after the same update. -/
theorem get_update_congr {k : Key} : (e : Dict) → {d d' : Dict} → d.get k = d'.get k →
    (d.update e).get k = (d'.update e).get k
  | [], _, _, h => h
  | kv :: e, d, d', h => by
      refine get_update_congr e ?_
      by_cases hk : kv.1 = k
      · rw [← hk, Dict.get_set_self, Dict.get_set_self]
      · rw [Dict.get_set_ne _ _ (Ne.symm hk), Dict.get_set_ne _ _ (Ne.symm hk), h]

/-- Outside of the signals a document does not depend on the overlay but for its stage and its
families. -/
theorem get_dump_congr {o : Overlay} (hstage : o.stage = e.overlay.stage)
    (hfamilies : o.families = e.overlay.families) {k : Key} (hk : k ∉ signalKeys) :
    (({ e with overlay := o } : EntityDoc).dump dates).get k = (e.dump dates).get k := by
  have hsplit : ∀ (d : Dict) (o : Overlay), (d.update o.dump).get k = (d.update o.base).get k := by
    intro d o
    rw [Overlay.dump, Dict.update, List.foldl_append]
    exact Dict.get_update_of_notMem _ _ fun kv hkv heq => hk (heq ▸ Overlay.mem_extra hkv)
  have hsignals : k ≠ key "stage_signals" := fun h => hk (h ▸ by simp [signalKeys])
  refine get_update_congr _ ?_
  rw [hsplit, hsplit]
  change ((((e.rollup dates).set _ _).set _ _).set _ _).get k =
    ((((e.rollup dates).set _ _).set _ _).set _ _).get k
  rw [hstage, hfamilies]
  by_cases hf : k = key "families"
  · rw [hf, Dict.get_set_self, Dict.get_set_self]
  · rw [Dict.get_set_ne _ _ hf, Dict.get_set_ne _ _ hf, Dict.get_set_ne _ _ hsignals,
      Dict.get_set_ne _ _ hsignals]

end EntityDoc

/-! ### The computed stage -/

/-- The runtime field `evidence_stage` of a document. -/
def evidenceStage (doc : Dict) : Option PyStr :=
  match doc.get (key "max_evidence_rank") with
  | some (.int r) =>
    if 2 ≤ r then some (str "stage2_c2")
    else if r = 1 then some (str "stage1_serving")
    else if r = 0 then some (str "unconfirmed")
    else none
  | _ => none

/-- The computed stage is the stage of the rank, unless the rank is negative. -/
theorem evidenceStage_dump (dates : DateTexts) {e : EntityDoc} (h : 0 ≤ e.maxEvidenceRank) :
    evidenceStage (e.dump dates) = some (rankToStage e.maxEvidenceRank).name := by
  have hrank : (e.dump dates).get (key "max_evidence_rank") = some (.int e.maxEvidenceRank) := by
    rw [EntityDoc.get_dump_of_rollup (by simp [EntityDoc.rollup])]
    simp [EntityDoc.rollup, Dict.get_cons]
  rw [evidenceStage, hrank]
  dsimp only
  unfold rankToStage
  split_ifs <;> first | rfl | omega

/-- The stage in the document. -/
theorem get_stage_dump (dates : DateTexts) (e : EntityDoc) :
    (e.dump dates).get (key "stage") = some (.str e.overlay.stage.name) := by
  rw [EntityDoc.dump, Dict.get_update_of_notMem, Overlay.dump, Dict.update, List.foldl_append]
  · refine (Dict.get_update_of_notMem _ _ fun kv hkv heq => ?_).trans ?_
    · have hmem := Overlay.mem_extra hkv
      rw [heq] at hmem
      simp [signalKeys] at hmem
    · change ((((e.rollup dates).set (key "stage") (.str e.overlay.stage.name)).set
        (key "stage_signals") _).set (key "families") _).get (key "stage") = _
      rw [Dict.get_set_ne _ _ (by simp), Dict.get_set_ne _ _ (by simp), Dict.get_set_self]
  · intro kv hkv heq
    rcases EntityDoc.mem_located hkv with h | h <;>
    · rw [heq] at h
      simp at h

end C2Engine
