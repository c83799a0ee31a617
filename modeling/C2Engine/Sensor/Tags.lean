import C2Engine.Python.Dict
import C2Engine.Python.Join

/-!
# The tags of a sensor

The setting `TAGS` is read twice: by the plugin of the sensor for its session documents, and by the
check-in for the document of the sensor. Either cuts it at commas and a tag at a colon, and puts
what is no pair into a list under the key `misc`; but they differ in where a tag is cut, in whether
a blank tag is one, and neither reckons with a pair whose key is `misc`.

Both are a run over tags that are classified, and the map such a run ends with is told by the last
pair of each key and the list of the others. From this the settings are derived for which the two
agree.

## Main definitions

* `Output.buildTags`, `Checkin.buildTags`: the two readers.
* `TagsAgree`: the readers return one map, in which every tag is represented.
* `PlainTags`: the tags for which they do.
* `Tag`, `Tag.run`, `Tag.mapAt`: classified tags, the run over them, and the map it ends with.

## Main results

* `Tag.run_spec`: when a run raises, and what it returns.
* `tagsAgree_iff`: the readers agree on the settings with plain tags.
* `not_tagsAgree_colons`: a tag with two colons.
-/

namespace C2Engine.Sensor

open Python

/-! ### The readers -/

/-- The reserved key. -/
def miscKey : PyStr := str "misc"

/-- `tags.setdefault("misc", []).append(tag)`; a text under the key has no `append`. -/
def addMisc (tags : Dict) (tag : PyStr) : Except PyExc Dict :=
  match tags.get (.str miscKey) with
  | none => .ok (tags.set (.str miscKey) (.list [.str tag]))
  | some (.list xs) => .ok (tags.set (.str miscKey) (.list (xs ++ [.str tag])))
  | some _ => .error .attributeError

/-- `tags[k.strip()] = v.strip()`. -/
def addPair (tags : Dict) (k v : PyStr) :
    Dict := tags.set (.str (PyStr.strip k)) (.str (PyStr.strip v))

/-- `Output.build_tags` of the plugin: a tag is cut at its first colon, and blank tags are passed
over. -/
def Output.buildTags (tagStr : PyStr) : Except PyExc Dict :=
  (PyStr.split (cp ',') tagStr).foldlM (fun tags tag =>
    let tag := PyStr.strip tag
    if tag.isEmpty then .ok tags
    else match PyStr.partition (cp ':') tag with
      | (k, true, v) => .ok (addPair tags k v)
      | (_, false, _) => addMisc tags tag) []

/-- `build_tags` of the check-in: a tag is a pair if it has one colon. -/
def Checkin.buildTags (tagStr : PyStr) : Except PyExc Dict :=
  (PyStr.split (cp ',') tagStr).foldlM (fun tags tag =>
    match PyStr.split (cp ':') (PyStr.strip tag) with
    | [k, v] => .ok (addPair tags k v)
    | _ => addMisc tags (PyStr.strip tag)) []

/-! ### Maps of tags -/

/-- A tag is in a map, as a pair or in the list under `misc`. -/
def Represented (tags : Dict) (tag : PyStr) : Prop :=
  (∃ k v, tag = k ++ cp ':' :: v ∧
    tags.get (.str (PyStr.strip k)) = some (.str (PyStr.strip v))) ∨
  ∃ xs, tags.get (.str miscKey) = some (.list xs) ∧ .str tag ∈ xs

/-- **Tags mean the same everywhere**: both readers return, their maps are the same, and every tag
that is not blank is in it. -/
def TagsAgree (tagStr : PyStr) : Prop :=
  ∃ d e, Output.buildTags tagStr = .ok d ∧ Checkin.buildTags tagStr = .ok e ∧
    (∀ k, d.get k = e.get k) ∧
    ∀ tag ∈ PyStr.split (cp ',') tagStr, PyStr.strip tag ≠ [] → Represented d (PyStr.strip tag)

/-- A tag with one colon. -/
def IsPair (tag : PyStr) : Prop := tag.count (cp ':') = 1

instance (tag : PyStr) : Decidable (IsPair tag) := inferInstanceAs (Decidable (_ = _))

/-- The key of a pair. -/
def keyOf (tag : PyStr) : PyStr := PyStr.strip (PyStr.partition (cp ':') tag).1

/-- The value of a pair. -/
def valueOf (tag : PyStr) : PyStr := PyStr.strip (PyStr.partition (cp ':') tag).2.2

/-- **Plain tags**: none has two colons, pairs with one key are the same, and the key `misc` is in a
pair only where every other tag is a pair too, and then the tags before that pair may be blank; if
it is in none, no tag is blank. -/
structure PlainTags (tags : List PyStr) : Prop where
  colon : ∀ t ∈ tags, t.count (cp ':') ≤ 1
  consistent : ∀ t ∈ tags, ∀ u ∈ tags, IsPair t → IsPair u → keyOf t = keyOf u →
    valueOf t = valueOf u
  blank : [] ∈ tags → ∃ t ∈ tags, IsPair t ∧ keyOf t = miscKey
  misc : ∀ pre t post, tags = pre ++ t :: post → IsPair t → keyOf t = miscKey →
    [] ∉ post ∧ ∀ u ∈ tags, u ≠ [] → IsPair u

/-! ### Runs over classified tags -/

/-- What a tag is to a reader. -/
inductive Tag where
  | skipped
  | pair (k v : PyStr)
  | misc (tag : PyStr)

namespace Tag

/-- What a reader does with a tag. -/
def apply (tags : Dict) : Tag → Except PyExc Dict
  | skipped => .ok tags
  | pair k v => .ok (tags.set (.str k) (.str v))
  | misc tag => addMisc tags tag

/-- What a reader does with its tags. -/
def run (ts : List Tag) : Except PyExc Dict := ts.foldlM apply []

/-- The value a tag gives to a key. -/
def valueAt (κ : Key) : Tag → Option PyStr
  | pair k v => if .str k = κ then some v else none
  | _ => none

/-- The tag that goes into the list. -/
def misc? : Tag → Option PyStr
  | misc tag => some tag
  | _ => none

/-- The value of the last pair with a key. -/
def lastValue (ts : List Tag) (κ : Key) : Option PyStr := (ts.filterMap (valueAt κ)).getLast?

/-- What is under a key behind the tags. -/
def mapAt (ts : List Tag) (κ : Key) : Option Obj :=
  match lastValue ts κ with
  | some v => some (.str v)
  | none =>
    if κ = .str miscKey ∧ ts.filterMap misc? ≠ [] then
      some (.list ((ts.filterMap misc?).map .str))
    else none

/-- No tag goes into the list behind a pair with the key `misc`. -/
def Fine (ts : List Tag) : Prop :=
  ∀ pre tag, pre ++ [misc tag] <+: ts → lastValue pre (.str miscKey) = none

variable {ts : List Tag} {κ : Key}

theorem lastValue_concat (ts : List Tag) (t : Tag) (κ : Key) :
    lastValue (ts ++ [t]) κ = (valueAt κ t).or (lastValue ts κ) := by
  rw [lastValue, List.filterMap_append, List.getLast?_append]
  cases h : valueAt κ t with
  | none =>
    rw [List.filterMap_cons_none h]
    rfl
  | some v =>
    rw [List.filterMap_cons_some h]
    rfl

theorem lastValue_eq_none_iff :
    lastValue ts κ = none ↔ ∀ k v, pair k v ∈ ts → .str k ≠ κ := by
  rw [lastValue, List.getLast?_eq_none_iff, List.filterMap_eq_nil_iff]
  constructor
  · intro h k v hmem hk
    have hnone := h _ hmem
    rw [valueAt, if_pos hk] at hnone
    cases hnone
  · intro h t ht
    cases t with
    | pair k v => exact if_neg (h k v ht)
    | _ => rfl

theorem exists_pair_of_lastValue {v : PyStr} (h : lastValue ts κ = some v) :
    ∃ k, pair k v ∈ ts ∧ .str k = κ := by
  have hmem : v ∈ ts.filterMap (valueAt κ) := List.mem_of_getLast? h
  obtain ⟨t, ht, hv⟩ := List.mem_filterMap.mp hmem
  cases t with
  | pair k v' =>
    rw [valueAt] at hv
    split_ifs at hv with hk
    obtain rfl := Option.some.inj hv
    exact ⟨k, ht, hk⟩
  | _ => cases hv

theorem mapAt_of_some {v : PyStr} (h : lastValue ts κ = some v) : mapAt ts κ = some (.str v) := by
  rw [mapAt, h]

theorem mapAt_of_none (h : lastValue ts κ = none) : mapAt ts κ =
    if κ = .str miscKey ∧ ts.filterMap misc? ≠ [] then
      some (.list ((ts.filterMap misc?).map .str))
    else none := by
  rw [mapAt, h]

/-- A text is under a key where a pair has put it. -/
theorem mapAt_eq_str_iff {v : PyStr} : mapAt ts κ = some (.str v) ↔ lastValue ts κ = some v := by
  cases h : lastValue ts κ with
  | some w => simp [mapAt_of_some h]
  | none =>
    rw [mapAt_of_none h]
    split_ifs <;> simp

theorem mem_misc? {tag : PyStr} : tag ∈ ts.filterMap misc? ↔ misc tag ∈ ts := by
  rw [List.mem_filterMap]
  constructor
  · rintro ⟨t, ht, h⟩
    cases t with
    | misc tag' => exact Option.some.inj h ▸ ht
    | _ => cases h
  · exact fun h => ⟨_, h, rfl⟩

/-- The tags that a map holds in its list. -/
theorem mem_list_iff {tag : PyStr} :
    (∃ xs, mapAt ts (.str miscKey) = some (.list xs) ∧ .str tag ∈ xs) ↔
      lastValue ts (.str miscKey) = none ∧ misc tag ∈ ts := by
  cases h : lastValue ts (.str miscKey) with
  | some v => simp [mapAt_of_some h]
  | none =>
    rw [mapAt_of_none h, ← mem_misc?]
    refine Iff.trans ?_ (and_iff_right rfl).symm
    constructor
    · rintro ⟨xs, hxs, hmem⟩
      split_ifs at hxs
      obtain rfl := Obj.list.inj (Option.some.inj hxs)
      obtain ⟨u, hu, heq⟩ := List.mem_map.mp hmem
      exact Obj.str.inj heq ▸ hu
    · intro hmem
      exact ⟨_, if_pos ⟨rfl, List.ne_nil_of_mem hmem⟩, List.mem_map_of_mem hmem⟩

theorem fine_concat (ts : List Tag) (t : Tag) :
    Fine (ts ++ [t]) ↔ Fine ts ∧ ∀ tag, t = misc tag → lastValue ts (.str miscKey) = none := by
  unfold Fine
  simp only [List.prefix_concat_iff]
  constructor
  · refine fun h => ⟨fun pre tag hpre => h pre tag (.inr hpre), ?_⟩
    rintro tag rfl
    exact h ts tag (.inl rfl)
  · rintro ⟨hts, ht⟩ pre tag (heq | hpre)
    · obtain ⟨rfl, hlast⟩ := List.append_inj' heq rfl
      exact ht tag (List.singleton_inj.mp hlast).symm
    · exact hts pre tag hpre

theorem fine_iff : Fine ts ↔
    ∀ pre tag post, ts = pre ++ misc tag :: post → lastValue pre (.str miscKey) = none := by
  constructor
  · rintro h pre tag post rfl
    exact h pre tag ⟨post, by rw [List.append_assoc, List.singleton_append]⟩
  · rintro h pre tag ⟨post, rfl⟩
    exact h pre tag post (by rw [List.append_assoc, List.singleton_append])

/-! ### What a run does -/

/-- A pair. -/
theorem get_set_pair {d : Dict} (hd : ∀ κ, d.get κ = mapAt ts κ) (k v : PyStr) (κ : Key) :
    (d.set (.str k) (.str v)).get κ = mapAt (ts ++ [pair k v]) κ := by
  have hlist : (ts ++ [pair k v]).filterMap misc? = ts.filterMap misc? :=
    List.filterMap_append.trans (List.append_nil _)
  rw [mapAt, lastValue_concat, valueAt, hlist]
  by_cases hk : Key.str k = κ
  · rw [if_pos hk, ← hk, Dict.get_set_self]
    rfl
  · rw [if_neg hk, Dict.get_set_ne _ _ (Ne.symm hk), hd, mapAt, Option.none_or]

/-- A tag for the list. -/
theorem get_addMisc {d : Dict} (hd : ∀ κ, d.get κ = mapAt ts κ) (tag : PyStr) :
    ((addMisc d tag).isOk ↔ lastValue ts (.str miscKey) = none) ∧
      ∀ d', addMisc d tag = .ok d' → ∀ κ, d'.get κ = mapAt (ts ++ [misc tag]) κ := by
  have hmisc := hd (.str miscKey)
  -- the list with the tag at its end
  have hset : ∀ xs, lastValue ts (.str miscKey) = none →
      xs = (ts.filterMap misc?).map Obj.str → ∀ κ,
        (d.set (.str miscKey) (.list (xs ++ [.str tag]))).get κ = mapAt (ts ++ [misc tag]) κ := by
    intro xs hlast hxs κ
    have hval : ∀ κ, lastValue (ts ++ [misc tag]) κ = lastValue ts κ := fun κ =>
      (lastValue_concat ts _ κ).trans (Option.none_or)
    rw [mapAt, hval, List.filterMap_append]
    by_cases hκ : κ = .str miscKey
    · subst hκ
      rw [Dict.get_set_self, hlast, hxs]
      simp [misc?]
    · rw [Dict.get_set_ne _ _ hκ, hd, mapAt]
      simp [hκ]
  rw [mapAt] at hmisc
  cases hlast : lastValue ts (.str miscKey) with
  | some v =>
    rw [hlast] at hmisc
    have herror : addMisc d tag = .error .attributeError := by
      rw [addMisc, hmisc]
    rw [herror]
    exact ⟨iff_of_false Bool.false_ne_true (by simp), fun d' h => by cases h⟩
  | none =>
    rw [hlast] at hmisc
    by_cases hempty : ts.filterMap misc? = []
    · have hok : addMisc d tag = .ok (d.set (.str miscKey) (.list ([] ++ [.str tag]))) := by
        rw [addMisc, hmisc]
        simp [hempty]
      rw [hok]
      exact ⟨iff_of_true rfl rfl, fun d' h => Except.ok.inj h ▸ hset [] hlast (by rw [hempty]; rfl)⟩
    · have hok : addMisc d tag = .ok (d.set (.str miscKey)
          (.list ((ts.filterMap misc?).map .str ++ [.str tag]))) := by
        rw [addMisc, hmisc]
        simp [hempty]
      rw [hok]
      exact ⟨iff_of_true rfl rfl, fun d' h => Except.ok.inj h ▸ hset _ hlast rfl⟩

/-- **What a run does**: it raises where a tag goes to the list behind a pair with the key `misc`.
-/
theorem run_spec (ts : List Tag) :
    ((run ts).isOk ↔ Fine ts) ∧ ∀ d, run ts = .ok d → ∀ κ, d.get κ = mapAt ts κ := by
  induction ts using List.reverseRecOn with
  | nil =>
    refine ⟨iff_of_true rfl fun pre tag hpre => ?_, fun d h κ => ?_⟩
    · exact absurd (List.prefix_nil.mp hpre)
        (List.append_ne_nil_of_right_ne_nil _ (List.cons_ne_nil _ _))
    · obtain rfl := Except.ok.inj h
      rw [mapAt]
      simp [lastValue]
  | append_singleton ts t ih =>
    obtain ⟨hok, hget⟩ := ih
    have hrun : run (ts ++ [t]) = run ts >>= fun d => apply d t := by
      rw [run, run, List.foldlM_append]
      refine bind_congr fun d => ?_
      rw [List.foldlM_cons]
      simp
    rw [hrun, fine_concat, ← hok]
    cases hd : run ts with
    | error e =>
      exact ⟨iff_of_false Bool.false_ne_true fun h => Bool.false_ne_true h.1, fun d h => by cases h⟩
    | ok d =>
      have hd' := hget d hd
      change ((apply d t).isOk ↔ _) ∧ ∀ d', apply d t = .ok d' → _
      cases t with
      | skipped =>
        refine ⟨iff_of_true rfl ⟨rfl, nofun⟩, fun d' h κ => ?_⟩
        obtain rfl := Except.ok.inj h
        have hlist : (ts ++ [skipped]).filterMap misc? = ts.filterMap misc? :=
          List.filterMap_append.trans (List.append_nil _)
        rw [hd', mapAt, mapAt, lastValue_concat, hlist]
        rfl
      | pair k v =>
        refine ⟨iff_of_true rfl ⟨rfl, nofun⟩, fun d' h κ => ?_⟩
        obtain rfl := Except.ok.inj h
        exact get_set_pair hd' k v κ
      | misc tag =>
        obtain ⟨hiff, hmap⟩ := get_addMisc hd' tag
        refine ⟨hiff.trans ⟨fun h => ⟨rfl, fun _ _ => h⟩, fun h => h.2 tag rfl⟩, hmap⟩

end Tag

/-! ### What the readers see -/

/-- What a tag is to the plugin. -/
def Output.tagOf (tag : PyStr) : Tag :=
  if tag.isEmpty then .skipped
  else match PyStr.partition (cp ':') tag with
    | (k, true, v) => .pair (PyStr.strip k) (PyStr.strip v)
    | (_, false, _) => .misc tag

/-- What a tag is to the check-in. -/
def Checkin.tagOf (tag : PyStr) : Tag :=
  match PyStr.split (cp ':') tag with
  | [k, v] => .pair (PyStr.strip k) (PyStr.strip v)
  | _ => .misc tag

/-- The tags of a setting. -/
def tagsOf (tagStr : PyStr) : List PyStr := (PyStr.split (cp ',') tagStr).map PyStr.strip

theorem Output.buildTags_eq (tagStr : PyStr) :
    Output.buildTags tagStr = Tag.run ((tagsOf tagStr).map Output.tagOf) := by
  rw [Output.buildTags, Tag.run, tagsOf, List.map_map, List.foldlM_map]
  refine congrArg (fun f => List.foldlM f [] _) (funext₂ fun tags tag => ?_)
  rw [Function.comp_apply, Output.tagOf]
  dsimp only
  split_ifs
  · rfl
  · rcases PyStr.partition (cp ':') (PyStr.strip tag) with ⟨k, _ | _, v⟩ <;> rfl

theorem Checkin.buildTags_eq (tagStr : PyStr) :
    Checkin.buildTags tagStr = Tag.run ((tagsOf tagStr).map Checkin.tagOf) := by
  rw [Checkin.buildTags, Tag.run, tagsOf, List.map_map, List.foldlM_map]
  refine congrArg (fun f => List.foldlM f [] _) (funext₂ fun tags tag => ?_)
  rw [Function.comp_apply, Checkin.tagOf]
  rcases PyStr.split (cp ':') (PyStr.strip tag) with _ | ⟨k, _ | ⟨v, _ | ⟨w, ws⟩⟩⟩ <;> rfl

variable {t u : PyStr}

/-- A tag with a colon, cut at the first. -/
theorem exists_cut (h : cp ':' ∈ t) :
    ∃ k v, t = k ++ cp ':' :: v ∧ cp ':' ∉ k ∧ keyOf t = PyStr.strip k ∧
      valueOf t = PyStr.strip v ∧ PyStr.partition (cp ':') t = (k, true, v) := by
  obtain ⟨k, v, rfl, hk⟩ := List.eq_append_cons_of_mem h
  have hcut := PyStr.partition_append v hk
  exact ⟨k, v, rfl, hk, by rw [keyOf, hcut], by rw [valueOf, hcut], hcut⟩

theorem Output.tagOf_of_mem (h : cp ':' ∈ t) : Output.tagOf t = .pair (keyOf t) (valueOf t) := by
  obtain ⟨k, v, rfl, -, hkey, hvalue, hcut⟩ := exists_cut h
  rw [Output.tagOf, hkey, hvalue, hcut]
  simp

theorem Output.tagOf_of_notMem (h : cp ':' ∉ t) (ht : t ≠ []) : Output.tagOf t = .misc t := by
  rw [Output.tagOf, PyStr.partition_of_notMem h]
  simp [ht]

theorem Checkin.tagOf_of_isPair (h : IsPair t) : Checkin.tagOf t = .pair (keyOf t) (valueOf t) := by
  obtain ⟨k, v, rfl, hk, hkey, hvalue, -⟩ := exists_cut (List.count_pos_iff.mp (h ▸ Nat.one_pos))
  have hv : cp ':' ∉ v := by
    rw [IsPair, List.count_append, List.count_eq_zero.mpr hk, List.count_cons_self] at h
    exact List.count_eq_zero.mp (by omega)
  rw [Checkin.tagOf, hkey, hvalue, PyStr.split_append _ hk, PyStr.split_of_notMem hv]

theorem Checkin.tagOf_of_not_isPair (h : ¬ IsPair t) : Checkin.tagOf t = .misc t := by
  rw [Checkin.tagOf]
  by_cases hmem : cp ':' ∈ t
  · obtain ⟨k, v, rfl, hk, -⟩ := exists_cut hmem
    have hv : cp ':' ∈ v := by
      by_contra hv
      refine h ?_
      rw [IsPair, List.count_append, List.count_cons_self, List.count_eq_zero.mpr hk,
        List.count_eq_zero.mpr hv]
    obtain ⟨a, b, rfl, ha, -⟩ := exists_cut hv
    rw [PyStr.split_append _ hk, PyStr.split_append _ ha]
    obtain ⟨w, ws, hw⟩ := List.exists_cons_of_ne_nil (PyStr.split_ne_nil (cp ':') b)
    rw [hw]
  · rw [PyStr.split_of_notMem hmem]

variable {tags : List PyStr} {k v : PyStr}

theorem Output.mem_pair : .pair k v ∈ tags.map Output.tagOf ↔
    ∃ t ∈ tags, cp ':' ∈ t ∧ keyOf t = k ∧ valueOf t = v := by
  rw [List.mem_map]
  refine exists_congr fun t => and_congr_right fun _ => ?_
  by_cases h : cp ':' ∈ t
  · simp [Output.tagOf_of_mem h, h]
  · by_cases ht : t = []
    · simp [ht, Output.tagOf]
    · simp [Output.tagOf_of_notMem h ht, h]

theorem Output.mem_misc : .misc u ∈ tags.map Output.tagOf ↔ u ∈ tags ∧ u ≠ [] ∧ cp ':' ∉ u := by
  rw [List.mem_map]
  constructor
  · rintro ⟨t, ht, heq⟩
    by_cases h : cp ':' ∈ t
    · simp [Output.tagOf_of_mem h] at heq
    · by_cases hnil : t = []
      · simp [hnil, Output.tagOf] at heq
      · rw [Output.tagOf_of_notMem h hnil] at heq
        exact Tag.misc.inj heq ▸ ⟨ht, hnil, h⟩
  · exact fun ⟨ht, hnil, h⟩ => ⟨u, ht, Output.tagOf_of_notMem h hnil⟩

theorem Checkin.mem_pair : .pair k v ∈ tags.map Checkin.tagOf ↔
    ∃ t ∈ tags, IsPair t ∧ keyOf t = k ∧ valueOf t = v := by
  rw [List.mem_map]
  refine exists_congr fun t => and_congr_right fun _ => ?_
  by_cases h : IsPair t
  · simp [Checkin.tagOf_of_isPair h, h]
  · simp [Checkin.tagOf_of_not_isPair h, h]

theorem Checkin.mem_misc : .misc u ∈ tags.map Checkin.tagOf ↔ u ∈ tags ∧ ¬ IsPair u := by
  rw [List.mem_map]
  constructor
  · rintro ⟨t, ht, heq⟩
    by_cases h : IsPair t
    · simp [Checkin.tagOf_of_isPair h] at heq
    · rw [Checkin.tagOf_of_not_isPair h] at heq
      exact Tag.misc.inj heq ▸ ⟨ht, h⟩
  · exact fun ⟨ht, h⟩ => ⟨u, ht, Checkin.tagOf_of_not_isPair h⟩

/-- The map made of the tags shows a text: as a pair, or in the list. -/
def Tag.Shows (ts : List Tag) (t : PyStr) : Prop :=
  (∃ k v, t = k ++ cp ':' :: v ∧
    Tag.lastValue ts (.str (PyStr.strip k)) = some (PyStr.strip v)) ∨
  Tag.lastValue ts (.str miscKey) = none ∧ .misc t ∈ ts

/-- What is in a map, by the tags it is made of. -/
theorem represented_iff {d : Dict} {ts : List Tag} (hd : ∀ κ, d.get κ = Tag.mapAt ts κ) :
    Represented d t ↔ Tag.Shows ts t := by
  simp only [Represented, Tag.Shows, hd, Tag.mapAt_eq_str_iff, Tag.mem_list_iff]

/-- The readers agree where both runs return, what they return is the same, and every tag is in it.
-/
theorem tagsAgree_iff_mapAt {tagStr : PyStr} (S C : List Tag)
    (hS : S = (tagsOf tagStr).map Output.tagOf) (hC : C = (tagsOf tagStr).map Checkin.tagOf) :
    TagsAgree tagStr ↔ Tag.Fine S ∧ Tag.Fine C ∧ (∀ κ, Tag.mapAt S κ = Tag.mapAt C κ) ∧
      ∀ t ∈ tagsOf tagStr, t ≠ [] → Tag.Shows S t := by
  obtain ⟨hokS, hgetS⟩ := Tag.run_spec S
  obtain ⟨hokC, hgetC⟩ := Tag.run_spec C
  have hrep : ∀ d : Dict, (∀ κ, d.get κ = Tag.mapAt S κ) →
      ((∀ tag ∈ PyStr.split (cp ',') tagStr, PyStr.strip tag ≠ [] →
          Represented d (PyStr.strip tag)) ↔
        ∀ t ∈ tagsOf tagStr, t ≠ [] → Tag.Shows S t) := by
    intro d hd
    rw [tagsOf, List.forall_mem_map]
    exact forall₂_congr fun tag _ => imp_congr_right fun _ => represented_iff hd
  rw [TagsAgree, Output.buildTags_eq, Checkin.buildTags_eq, ← hS, ← hC, ← hokS, ← hokC]
  constructor
  · rintro ⟨d, e, hd, he, hsame, hin⟩
    refine ⟨by rw [hd]; rfl, by rw [he]; rfl, fun κ => ?_, (hrep d (hgetS d hd)).mp hin⟩
    rw [← hgetS d hd, ← hgetC e he, hsame]
  · rintro ⟨hd, he, hsame, hin⟩
    obtain ⟨d, hd⟩ := isOk_iff.mp hd
    obtain ⟨e, he⟩ := isOk_iff.mp he
    refine ⟨d, e, hd, he, fun κ => ?_, (hrep d (hgetS d hd)).mpr hin⟩
    rw [hgetS d hd, hgetC e he, hsame]

/-! ### When the readers agree -/

theorem mem_dropWhile_of {p : CodePoint → Bool} {c : CodePoint} (hc : p c = false) {s : PyStr}
    (h : c ∈ s) : c ∈ s.dropWhile p := by
  rw [← List.takeWhile_append_dropWhile (p := p) (l := s), List.mem_append] at h
  exact h.resolve_left fun h => Bool.eq_false_iff.mp hc (List.mem_takeWhile_imp h)

/-- A colon is not stripped. -/
theorem colon_mem_strip {s : PyStr} (h : cp ':' ∈ s) : cp ':' ∈ PyStr.strip s := by
  have hc : (cp ':').isSpace = false := by decide
  rw [PyStr.strip, PyStr.rstrip, List.rdropWhile, List.mem_reverse]
  exact mem_dropWhile_of hc (List.mem_reverse.mpr (mem_dropWhile_of hc h))

theorem notMem_strip {s : PyStr} {c : CodePoint} (h : c ∉ s) : c ∉ PyStr.strip s := fun hc =>
  h ((List.dropWhile_suffix _).subset ((List.rdropWhile_prefix _ _).subset hc))

/-- A pair has one cut. -/
theorem cut_of_isPair (h : IsPair (k ++ cp ':' :: v)) : cp ':' ∉ k ∧ cp ':' ∉ v := by
  rw [IsPair, List.count_append, List.count_cons_self] at h
  exact ⟨List.count_eq_zero.mp (by omega), List.count_eq_zero.mp (by omega)⟩

theorem keyOf_append (hk : cp ':' ∉ k) : keyOf (k ++ cp ':' :: v) = PyStr.strip k := by
  rw [keyOf, PyStr.partition_append v hk]

theorem valueOf_append (hk : cp ':' ∉ k) : valueOf (k ++ cp ':' :: v) = PyStr.strip v := by
  rw [valueOf, PyStr.partition_append v hk]

theorem IsPair.colon_mem (h : IsPair t) : cp ':' ∈ t := List.count_pos_iff.mp (h ▸ Nat.one_pos)

/-- What the check-in has of a pair is without colons. -/
theorem IsPair.notMem (h : IsPair t) : cp ':' ∉ keyOf t ∧ cp ':' ∉ valueOf t := by
  obtain ⟨k, v, rfl, hk, hkey, hvalue, -⟩ := exists_cut h.colon_mem
  rw [hkey, hvalue]
  exact ⟨notMem_strip hk, notMem_strip (cut_of_isPair h).2⟩

theorem isPair_of_colon_mem (h : cp ':' ∈ t) (hcount : t.count (cp ':') ≤ 1) : IsPair t :=
  hcount.antisymm (List.count_pos_iff.mpr h)

/-- The readers see the same pairs in tags without two colons. -/
theorem lastValue_eq (hcolon : ∀ t ∈ tags, t.count (cp ':') ≤ 1) (κ : Key) :
    Tag.lastValue (tags.map Output.tagOf) κ = Tag.lastValue (tags.map Checkin.tagOf) κ := by
  rw [Tag.lastValue, Tag.lastValue, List.filterMap_map, List.filterMap_map]
  refine congrArg List.getLast? (List.filterMap_congr fun t ht => ?_)
  rw [Function.comp_apply, Function.comp_apply]
  by_cases h : IsPair t
  · rw [Output.tagOf_of_mem h.colon_mem, Checkin.tagOf_of_isPair h]
  · have hmem : cp ':' ∉ t := fun hmem => h (isPair_of_colon_mem hmem (hcolon t ht))
    rw [Checkin.tagOf_of_not_isPair h]
    by_cases hnil : t = []
    · simp [hnil, Output.tagOf, Tag.valueAt]
    · rw [Output.tagOf_of_notMem hmem hnil]

/-- No pair has the key `misc`. -/
theorem lastValue_misc_eq_none_iff :
    Tag.lastValue (tags.map Checkin.tagOf) (.str miscKey) = none ↔
      ∀ t ∈ tags, IsPair t → keyOf t ≠ miscKey := by
  rw [Tag.lastValue_eq_none_iff]
  constructor
  · intro h t ht hpair hkey
    exact h _ _ (Checkin.mem_pair.mpr ⟨t, ht, hpair, rfl, rfl⟩) (congrArg Key.str hkey)
  · rintro h k v hmem heq
    obtain ⟨t, ht, hpair, rfl, rfl⟩ := Checkin.mem_pair.mp hmem
    exact h t ht hpair (Key.str.inj heq)

/-- A text that both readers show has at most one colon: as a pair it is one of the check-in, which
has no colons in it. -/
theorem count_colon_le_one
    (hsame : ∀ κ, Tag.mapAt (tags.map Output.tagOf) κ = Tag.mapAt (tags.map Checkin.tagOf) κ)
    (h : Tag.Shows (tags.map Output.tagOf) t) : t.count (cp ':') ≤ 1 := by
  rcases h with ⟨k, v, rfl, hlast⟩ | ⟨-, hmisc⟩
  · have hlast' := Tag.mapAt_eq_str_iff.mp (hsame _ ▸ Tag.mapAt_eq_str_iff.mpr hlast)
    obtain ⟨k', hpair, hk'⟩ := Tag.exists_pair_of_lastValue hlast'
    obtain ⟨u, -, hu, hkey, hval⟩ := Checkin.mem_pair.mp hpair
    have hk : cp ':' ∉ k := fun hk =>
      hu.notMem.1 (hkey.trans (Key.str.inj hk') ▸ colon_mem_strip hk)
    have hv : cp ':' ∉ v := fun hv => hu.notMem.2 (hval ▸ colon_mem_strip hv)
    rw [List.count_append, List.count_cons_self, List.count_eq_zero.mpr hk,
      List.count_eq_zero.mpr hv]
  · rw [List.count_eq_zero.mpr (Output.mem_misc.mp hmisc).2.2]
    exact Nat.zero_le 1

/-- A pair that is shown is shown with its own value. -/
theorem IsPair.lastValue_eq (hp : IsPair t) (h : Tag.Shows (tags.map Output.tagOf) t) :
    Tag.lastValue (tags.map Output.tagOf) (.str (keyOf t)) = some (valueOf t) := by
  rcases h with ⟨k, v, rfl, hlast⟩ | ⟨-, hmisc⟩
  · rw [keyOf_append (cut_of_isPair hp).1, valueOf_append (cut_of_isPair hp).1, hlast]
  · exact absurd hp.colon_mem (Output.mem_misc.mp hmisc).2.2

/-- What the agreement of the readers says of the tags. -/
theorem TagsAgree.plainTags {tagStr : PyStr} (h : TagsAgree tagStr) :
    PlainTags (tagsOf tagStr) := by
  obtain ⟨-, hfine, hsame, hin⟩ := (tagsAgree_iff_mapAt _ _ rfl rfl).mp h
  generalize tagsOf tagStr = tags at hfine hsame hin ⊢
  have hcolon : ∀ t ∈ tags, t.count (cp ':') ≤ 1 := by
    intro t ht
    by_cases hnil : t = []
    · rw [hnil]
      exact Nat.zero_le 1
    · exact count_colon_le_one hsame (hin t ht hnil)
  have hpair : ∀ t ∈ tags, IsPair t →
      Tag.lastValue (tags.map Output.tagOf) (.str (keyOf t)) = some (valueOf t) :=
    fun t ht hp => hp.lastValue_eq (hin t ht (List.ne_nil_of_mem hp.colon_mem))
  refine ⟨hcolon, fun t ht u hu hpt hpu hkey => ?_, fun hblank => ?_, ?_⟩
  · have hu' := hkey ▸ hpair u hu hpu
    exact Option.some.inj ((hpair t ht hpt).symm.trans hu')
  · -- the check-in has the blank tag in its list
    by_contra hno
    push Not at hno
    have hlist := Tag.mem_list_iff.mpr
      ⟨lastValue_misc_eq_none_iff.mpr hno, Checkin.mem_misc.mpr ⟨hblank, by decide⟩⟩
    rw [← hsame] at hlist
    exact (Output.mem_misc.mp (Tag.mem_list_iff.mp hlist).2).2.1 rfl
  · rintro pre t post rfl hp hkey
    have hlast := hpair t (by simp) hp
    rw [hkey] at hlast
    constructor
    · intro hnil
      obtain ⟨mid, rest, rfl⟩ := List.append_of_mem hnil
      have hnone := Tag.fine_iff.mp hfine ((pre ++ t :: mid).map Checkin.tagOf) []
        (rest.map Checkin.tagOf) (by simp [Checkin.tagOf_of_not_isPair (t := []) (by decide)])
      exact lastValue_misc_eq_none_iff.mp hnone t (by simp) hp hkey
    · intro u hu hne
      rcases hin u hu hne with ⟨k, v, rfl, -⟩ | ⟨hnone, -⟩
      · exact isPair_of_colon_mem (by simp) (hcolon _ hu)
      · rw [hnone] at hlast
        cases hlast

/-- Behind a pair with the key `misc` nothing is for the list. -/
theorem PlainTags.fine (h : PlainTags tags) :
    Tag.Fine (tags.map Output.tagOf) ∧ Tag.Fine (tags.map Checkin.tagOf) := by
  constructor
  · rw [Tag.fine_iff]
    intro pre tag post heq
    obtain ⟨hmem, hne, hcolon⟩ := Output.mem_misc.mp (heq ▸ List.mem_append_cons_self)
    rw [Tag.lastValue_eq_none_iff]
    intro k v hpair hk
    obtain ⟨t, ht, htc, hkey, -⟩ := Output.mem_pair.mp (heq ▸ List.mem_append_left _ hpair)
    obtain ⟨a, b, rfl⟩ := List.append_of_mem ht
    have hp := isPair_of_colon_mem htc (h.colon t ht)
    exact hcolon ((h.misc a t b rfl hp (hkey.trans (Key.str.inj hk))).2 tag hmem hne).colon_mem
  · rw [Tag.fine_iff]
    intro pre tag post heq
    obtain ⟨a, b, rfl, rfl, hb⟩ := List.map_eq_append_iff.mp heq
    obtain ⟨u, post', rfl, hu, -⟩ := List.map_eq_cons_iff.mp hb
    rw [lastValue_misc_eq_none_iff]
    intro t ht hp hkey
    obtain ⟨a, mid, rfl⟩ := List.append_of_mem ht
    obtain ⟨hblank, hpairs⟩ := h.misc a t (mid ++ u :: post') (by simp) hp hkey
    have hne : u ≠ [] := by
      rintro rfl
      exact hblank (by simp)
    rw [Checkin.tagOf_of_isPair (hpairs u (by simp) hne)] at hu
    cases hu

/-- Both readers end with one map. -/
theorem PlainTags.mapAt_eq (h : PlainTags tags) (κ : Key) :
    Tag.mapAt (tags.map Output.tagOf) κ = Tag.mapAt (tags.map Checkin.tagOf) κ := by
  have hlast := lastValue_eq h.colon
  cases hmisc : Tag.lastValue (tags.map Checkin.tagOf) (.str miscKey) with
  | none =>
    -- no tag is blank, and the readers see the same tags
    have hno := lastValue_misc_eq_none_iff.mp hmisc
    refine congrArg (fun ts => Tag.mapAt ts κ) (List.map_congr_left fun t ht => ?_)
    by_cases hp : IsPair t
    · rw [Output.tagOf_of_mem hp.colon_mem, Checkin.tagOf_of_isPair hp]
    · have hne : t ≠ [] := by
        rintro rfl
        obtain ⟨u, hu, hpu, hkey⟩ := h.blank ht
        exact hno u hu hpu hkey
      rw [Checkin.tagOf_of_not_isPair hp,
        Output.tagOf_of_notMem (fun hmem => hp (isPair_of_colon_mem hmem (h.colon t ht))) hne]
  | some w =>
    cases hκ : Tag.lastValue (tags.map Checkin.tagOf) κ with
    | some v => rw [Tag.mapAt_of_some hκ, Tag.mapAt_of_some ((hlast κ).trans hκ)]
    | none =>
      have hne : κ ≠ .str miscKey := by
        rintro rfl
        rw [hmisc] at hκ
        cases hκ
      rw [Tag.mapAt_of_none hκ, Tag.mapAt_of_none ((hlast κ).trans hκ), if_neg fun hc => hne hc.1,
        if_neg fun hc => hne hc.1]

/-- A tag is in the map, a pair with its own value. -/
theorem PlainTags.shown (h : PlainTags tags) (ht : t ∈ tags) (hne : t ≠ []) :
    Tag.Shows (tags.map Output.tagOf) t := by
  by_cases hmem : cp ':' ∈ t
  · obtain ⟨k, v, hcut, -, hkey, hvalue, -⟩ := exists_cut hmem
    refine .inl ⟨k, v, hcut, ?_⟩
    rw [← hkey, ← hvalue]
    have hpair := Output.mem_pair.mpr ⟨t, ht, hmem, rfl, rfl⟩
    cases hlast : Tag.lastValue (tags.map Output.tagOf) (.str (keyOf t)) with
    | none => exact absurd rfl (Tag.lastValue_eq_none_iff.mp hlast _ _ hpair)
    | some w =>
      obtain ⟨k', hpair', hk'⟩ := Tag.exists_pair_of_lastValue hlast
      obtain ⟨u, hu, humem, hukey, rfl⟩ := Output.mem_pair.mp hpair'
      have hval := h.consistent u hu t ht (isPair_of_colon_mem humem (h.colon u hu))
        (isPair_of_colon_mem hmem (h.colon t ht)) (hukey.trans (Key.str.inj hk'))
      rw [hval]
  · refine .inr ⟨?_, Output.mem_misc.mpr ⟨ht, hne, hmem⟩⟩
    rw [lastValue_eq h.colon, lastValue_misc_eq_none_iff]
    intro u hu hp hkey
    obtain ⟨a, b, hab⟩ := List.append_of_mem hu
    exact hmem ((h.misc a u b hab hp hkey).2 t ht hne).colon_mem

/-- **When tags mean the same everywhere**: where they are plain. -/
theorem tagsAgree_iff (tagStr : PyStr) : TagsAgree tagStr ↔ PlainTags (tagsOf tagStr) := by
  refine ⟨TagsAgree.plainTags, fun h => ?_⟩
  rw [tagsAgree_iff_mapAt _ _ rfl rfl]
  exact ⟨h.fine.1, h.fine.2, h.mapAt_eq, fun t ht hne => h.shown ht hne⟩

/-- A tag with two colons is a pair to the plugin, and in the list of the check-in. -/
theorem not_tagsAgree_colons : ¬ TagsAgree (str "rack:a:7") := fun h =>
  absurd (h.plainTags.colon (str "rack:a:7") (by decide)) (by decide)

end C2Engine.Sensor
