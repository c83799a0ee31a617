import C2Engine.Ingest.Forward
import C2Engine.Python.Dict
import Mathlib.Data.List.Forall2

/-!
# Records at the boundary

Behind the wire a record is to be JSON: keys that are text at every depth, and values that
`json.dumps` takes, with nothing of the record left out. `normalize` decodes bytes; it leaves
timestamps as they are, which `json.dumps` does not take, and of two keys that decode to one text
it keeps one.

## Main definitions

* `Obj.textKeys`, `shape`: what is asked of the keys, and what is asked to be kept.
* `JsonSafe`: what is asked of a record.
* `Obj.isPlain`: no timestamps, and no keys that agree once decoded.
* `frameRecords`: the records of a frame as they were unpacked.

## Main results

* `textKeys_normalize`: keys are text, whatever the record.
* `jsonSafe_normalizeRecord_iff`: when a record is safe.
* `jsonSafe_parseFrame_iff`: the statement about frames.
-/

namespace C2Engine

open Python

/-! ### Shapes -/

/-- The shape of a value: where its lists and dictionaries are, and how many elements and items
they have. -/
inductive Shape where
  | leaf
  | list (elements : List Shape)
  | map (items : List Shape)

mutual

/-- The shape of a value; an extension value is a tuple of its code and its bytes. -/
def shape : Obj → Shape
  | .list xs => .list (listShape xs)
  | .map kvs => .map (itemsShape kvs)
  | .ext _ _ => .list [.leaf, .leaf]
  | _ => .leaf

/-- The shapes of the elements of a list. -/
def listShape : List Obj → List Shape
  | [] => []
  | x :: xs => shape x :: listShape xs

/-- The shapes of the values of a dictionary, in the order of the items. -/
def itemsShape : List (Key × Obj) → List Shape
  | [] => []
  | kv :: kvs => shape kv.2 :: itemsShape kvs

end

theorem length_itemsShape : (kvs : List (Key × Obj)) → (itemsShape kvs).length = kvs.length
  | [] => by rw [itemsShape, List.length_nil, List.length_nil]
  | kv :: kvs => by
      rw [itemsShape, List.length_cons, List.length_cons, length_itemsShape kvs]

/-! ### Keys -/

namespace Python.Obj

mutual

/-- Every key at every depth is a text. -/
def textKeys : Obj → Bool
  | .list xs => listTextKeys xs
  | .map kvs => itemsTextKeys kvs
  | _ => true

/-- `textKeys` of every element of a list. -/
def listTextKeys : List Obj → Bool
  | [] => true
  | x :: xs => x.textKeys && listTextKeys xs

/-- `textKeys` of every value of a dictionary, with keys that are text. -/
def itemsTextKeys : List (Key × Obj) → Bool
  | [] => true
  | kv :: kvs => kv.1 matches .str _ && kv.2.textKeys && itemsTextKeys kvs

end

mutual

/-- There is no timestamp at any depth, and no dictionary with two keys that agree once they are
decoded. -/
def isPlain : Obj → Bool
  | .timestamp _ _ => false
  | .list xs => listIsPlain xs
  | .map kvs => decide ((kvs.map fun kv => normalizeKey kv.1).Nodup) && itemsArePlain kvs
  | _ => true

/-- `isPlain` of every element of a list. -/
def listIsPlain : List Obj → Bool
  | [] => true
  | x :: xs => x.isPlain && listIsPlain xs

/-- `isPlain` of every value of a dictionary. -/
def itemsArePlain : List (Key × Obj) → Bool
  | [] => true
  | kv :: kvs => kv.2.isPlain && itemsArePlain kvs

end

theorem itemsTextKeys_iff (d : List (Key × Obj)) : itemsTextKeys d ↔
    ∀ kv ∈ d, (∃ s, kv.1 = .str s) ∧ kv.2.textKeys := by
  induction d with
  | nil => simp [itemsTextKeys]
  | cons kv d ih =>
    obtain ⟨k, v⟩ := kv
    cases k <;> simp [itemsTextKeys, ih]

end Python.Obj

theorem map_fst_normalizeItems : (kvs : List (Key × Obj)) →
    (normalizeItems kvs).map Prod.fst = kvs.map fun kv => normalizeKey kv.1
  | [] => by rw [normalizeItems, List.map_nil, List.map_nil]
  | kv :: kvs => by
      rw [normalizeItems, List.map_cons, List.map_cons, map_fst_normalizeItems kvs]

theorem length_normalizeItems (kvs : List (Key × Obj)) :
    (normalizeItems kvs).length = kvs.length := by
  simpa using congrArg List.length (map_fst_normalizeItems kvs)

theorem exists_normalizeKey (k : Key) : ∃ s, normalizeKey k = .str s := by
  cases k with
  | str s => exact ⟨s, rfl⟩
  | bytes b => exact ⟨_, rfl⟩

/-- An update with items of text keys keeps the keys text. -/
theorem textKeys_update {e : Dict} (he : Obj.itemsTextKeys e) {d : Dict}
    (hd : Obj.itemsTextKeys d) : Obj.itemsTextKeys (d.update e) := by
  induction e generalizing d with
  | nil => exact hd
  | cons kv e ih =>
    rw [Obj.itemsTextKeys_iff] at he hd
    obtain ⟨hkv, he⟩ := List.forall_mem_cons.mp he
    refine ih ((Obj.itemsTextKeys_iff e).mpr he) ((Obj.itemsTextKeys_iff _).mpr fun kv' hkv' => ?_)
    rcases Dict.mem_set hkv' with rfl | hkv'
    · exact hkv
    · exact hd kv' hkv'

mutual

/-- **Keys are text** behind the boundary, at every depth. -/
theorem textKeys_normalize : (v : Obj) → (normalize v).textKeys
  | .map kvs => by
      rw [normalize, Obj.textKeys]
      exact textKeys_update (textKeys_normalizeItems kvs) (by rw [Obj.itemsTextKeys])
  | .list xs => by
      rw [normalize, Obj.textKeys]
      exact textKeys_normalizeList xs
  | .ext code data => by
      rw [normalize]
      simp [Obj.textKeys, Obj.listTextKeys]
  | .bytes b => by
      rw [normalize, Obj.textKeys]
      · nofun
      · nofun
  | .none | .bool _ | .int _ | .float _ | .str _ | .timestamp _ _ => by
      simp [normalize, Obj.textKeys]

theorem textKeys_normalizeList : (xs : List Obj) → Obj.listTextKeys (normalizeList xs)
  | [] => by rw [normalizeList, Obj.listTextKeys]
  | x :: xs => by
      rw [normalizeList, Obj.listTextKeys, textKeys_normalize x, textKeys_normalizeList xs]
      rfl

theorem textKeys_normalizeItems : (kvs : List (Key × Obj)) →
    Obj.itemsTextKeys (normalizeItems kvs)
  | [] => by rw [normalizeItems, Obj.itemsTextKeys]
  | kv :: kvs => by
      obtain ⟨s, hs⟩ := exists_normalizeKey kv.1
      rw [normalizeItems, Obj.itemsTextKeys, textKeys_normalize kv.2, textKeys_normalizeItems kvs,
        hs]
      rfl

end

/-! ### Safe values -/

mutual

/-- A value is JSON of the same shape behind the boundary exactly if it is plain. -/
theorem safe_normalize_iff : (v : Obj) →
    ((normalize v).isJson ∧ shape (normalize v) = shape v ↔ v.isPlain)
  | .map kvs => by
      have ih := safe_normalizeItems_iff kvs
      have hkeys := map_fst_normalizeItems kvs
      rw [normalize, Obj.isPlain, Bool.and_eq_true, decide_eq_true_eq, ← hkeys, ← ih]
      by_cases hnodup : ((normalizeItems kvs).map Prod.fst).Nodup
      · have heq : Dict.update [] (normalizeItems kvs) = normalizeItems kvs :=
          Dict.update_of_nodup (d := []) hnodup
        rw [heq, shape, shape, Obj.isJson, Shape.map.injEq]
        exact (and_iff_right hnodup).symm
      · -- an item is lost
        refine iff_of_false (fun h => hnodup ?_) fun h => hnodup h.1
        have hshape := h.2
        rw [shape, shape, Shape.map.injEq] at hshape
        have hlen := congrArg List.length hshape
        rw [length_itemsShape, length_itemsShape, ← length_normalizeItems kvs] at hlen
        exact (Dict.length_update_eq_iff (d := []) List.nodup_nil).mp
          (hlen.trans (Nat.zero_add _).symm)
  | .list xs => by
      rw [normalize, shape, shape, Obj.isJson, Obj.isPlain, Shape.list.injEq]
      exact safe_normalizeList_iff xs
  | .timestamp s ns => by simp [normalize, Obj.isJson, Obj.isPlain]
  | .ext code data => by simp [normalize, Obj.isJson, Obj.isPlain, Obj.listIsJson, shape, listShape]
  | .none | .bool _ | .int _ | .float _ | .str _ | .bytes _ => by
      simp [normalize, Obj.isJson, Obj.isPlain, shape]

theorem safe_normalizeList_iff : (xs : List Obj) →
    (Obj.listIsJson (normalizeList xs) ∧ listShape (normalizeList xs) = listShape xs ↔
      Obj.listIsPlain xs)
  | [] => by simp [normalizeList, Obj.listIsJson, Obj.listIsPlain]
  | x :: xs => by
      rw [normalizeList, Obj.listIsJson, listShape, listShape, Obj.listIsPlain, Bool.and_eq_true,
        Bool.and_eq_true, List.cons.injEq, and_and_and_comm, safe_normalize_iff x,
        safe_normalizeList_iff xs]

theorem safe_normalizeItems_iff : (kvs : List (Key × Obj)) →
    (Obj.itemsAreJson (normalizeItems kvs) ∧ itemsShape (normalizeItems kvs) = itemsShape kvs ↔
      Obj.itemsArePlain kvs)
  | [] => by simp [normalizeItems, Obj.itemsAreJson, Obj.itemsArePlain]
  | kv :: kvs => by
      obtain ⟨s, hs⟩ := exists_normalizeKey kv.1
      rw [normalizeItems, hs, Obj.itemsAreJson, itemsShape, itemsShape, Obj.itemsArePlain,
        Bool.and_eq_true, Bool.and_eq_true, List.cons.injEq]
      rw [Bool.and_eq_true, ← safe_normalize_iff kv.2, ← safe_normalizeItems_iff kvs]
      simp only [true_and]
      exact and_and_and_comm

end

/-- What is asked of a record that was unpacked as `d` and handed on as `r`. -/
structure JsonSafe (d r : Dict) : Prop where
  textKeys : (Obj.map r).textKeys
  complete : shape (.map r) = shape (.map d)
  serialisable : (Obj.map r).isJson

/-- **A record is safe exactly if it is plain.** -/
theorem jsonSafe_normalizeRecord_iff (d : Dict) :
    JsonSafe d (normalizeRecord d) ↔ (Obj.map d).isPlain := by
  have heq : normalize (.map d) = .map (normalizeRecord d) := by rw [normalize, normalizeRecord]
  have hiff := safe_normalize_iff (.map d)
  rw [heq] at hiff
  constructor
  · exact fun h => hiff.mp ⟨h.serialisable, h.complete⟩
  · intro h
    obtain ⟨hjson, hshape⟩ := hiff.mpr h
    exact ⟨heq ▸ textKeys_normalize (.map d), hshape, hjson⟩

/-! ### Frames -/

/-- The record of an entry as it was unpacked. -/
def entryRecord : Obj → Option Dict
  | .list (_ :: .map record :: _) => some record
  | _ => none

/-- The records in a blob as they were unpacked. -/
def blobRecords (codecs : Codecs) (blob : Obj) (option : Option Dict) : List Dict :=
  match (payload codecs blob option).bind codecs.unpackAll with
  | .ok entries => entries.filterMap entryRecord
  | .error _ => []

/-- The records of a frame as they were unpacked. -/
def frameRecords (codecs : Codecs) (msg : Obj) : List Dict :=
  match msg with
  | .list (.str _ :: second :: rest) =>
    match second with
    | .list entries => entries.filterMap entryRecord
    | .bytes _ | .str _ => blobRecords codecs second (frameOption rest)
    | _ => (rest.head?.bind Obj.asMap?).toList
  | _ => []

theorem entryRecords_eq (tag : PyStr) (entries : List Obj) :
    entryRecords tag entries =
      (entries.filterMap entryRecord).map fun d => (tag, normalizeRecord d) := by
  rw [entryRecords, List.map_filterMap]
  refine List.filterMap_congr fun entry _ => ?_
  cases entry with
  | list xs =>
    rcases xs with _ | ⟨time, _ | ⟨record, more⟩⟩
    · rfl
    · rfl
    · cases record <;> rfl
  | _ => rfl

/-- The records of a blob are those that were unpacked, each normalized. -/
theorem packedRecords_ok {codecs : Codecs} {tag : PyStr} {blob : Obj} {option : Option Dict}
    {records : List (PyStr × Dict)} (h : packedRecords codecs tag blob option = .ok records) :
    records = (blobRecords codecs blob option).map fun d => (tag, normalizeRecord d) := by
  rw [packedRecords_eq] at h
  rw [blobRecords]
  cases hpayload : payload codecs blob option with
  | error e =>
    rw [hpayload] at h
    cases h
  | ok data =>
    rw [hpayload] at h
    obtain ⟨entries, hentries, rfl⟩ := map_eq_ok.mp h
    have hentries' : (Except.ok data).bind codecs.unpackAll = .ok entries := hentries
    rw [hentries']
    exact entryRecords_eq tag entries

/-- **The records of a frame** are those that were unpacked, each normalized. -/
theorem parseFrame_ok {codecs : Codecs} {msg : Obj} {records : List (PyStr × Dict)}
    {option : Option Dict} (h : parseFrame codecs msg = .ok (records, option)) :
    ∃ tag, records = (frameRecords codecs msg).map fun d => (tag, normalizeRecord d) := by
  by_cases hframe : ∃ tag second rest, msg = .list (.str tag :: second :: rest)
  · obtain ⟨tag, second, rest, rfl⟩ := hframe
    refine ⟨tag, ?_⟩
    have hblob : ∀ blob, (packedRecords codecs tag blob (frameOption rest) >>= fun records =>
        pure (records, frameOption rest)) = .ok (records, option) → records =
        (blobRecords codecs blob (frameOption rest)).map fun d => (tag, normalizeRecord d) := by
      intro blob hblob
      obtain ⟨records', hrecords, hret⟩ := bind_eq_ok.mp hblob
      obtain ⟨rfl, -⟩ := Prod.mk.inj (Except.ok.inj hret)
      exact packedRecords_ok hrecords
    cases second with
    | list entries =>
      obtain ⟨rfl, -⟩ := Prod.mk.inj (Except.ok.inj h)
      exact entryRecords_eq tag entries
    | bytes b => exact hblob _ h
    | str s => exact hblob _ h
    | _ =>
      -- an event of its own: a time and the record behind it
      rcases rest with _ | ⟨record, rest⟩
      · obtain ⟨rfl, -⟩ := Prod.mk.inj (Except.ok.inj h)
        rfl
      · cases record <;>
        · obtain ⟨rfl, -⟩ := Prod.mk.inj (Except.ok.inj h)
          rfl
  · have hempty : parseFrame codecs msg = .ok ([], none) ∧ frameRecords codecs msg = [] := by
      cases msg with
      | list xs =>
        rcases xs with _ | ⟨tag, _ | ⟨second, rest⟩⟩
        · exact ⟨rfl, rfl⟩
        · cases tag <;> exact ⟨rfl, rfl⟩
        · cases tag with
          | str tag => exact absurd ⟨tag, second, rest, rfl⟩ hframe
          | _ => exact ⟨rfl, rfl⟩
      | _ => exact ⟨rfl, rfl⟩
    rw [hempty.1] at h
    obtain ⟨rfl, -⟩ := Prod.mk.inj (Except.ok.inj h)
    exact ⟨[], by rw [hempty.2, List.map_nil]⟩

/-- **A record of a frame is safe exactly if it is plain**: it holds no timestamp, and no dictionary
with two keys that agree once they are decoded. -/
theorem jsonSafe_parseFrame_iff {codecs : Codecs} {msg : Obj} {records : List (PyStr × Dict)}
    {option : Option Dict} (h : parseFrame codecs msg = .ok (records, option)) :
    List.Forall₂ (fun d record => JsonSafe d record.2 ↔ (Obj.map d).isPlain)
      (frameRecords codecs msg) records := by
  obtain ⟨tag, rfl⟩ := parseFrame_ok h
  rw [List.forall₂_map_right_iff]
  exact List.forall₂_same.mpr fun d _ => jsonSafe_normalizeRecord_iff d

/-- A frame with a key and a value that are bytes. -/
theorem jsonSafe_bytes :
    JsonSafe [(.bytes [0x61], .bytes [0x62])] [(key "a", .str (str "b"))] := by
  have hparse : parseFrame .basic (.list [.str (str "stingar"), .list [.list [.int 1,
      .map [(.bytes [0x61], .bytes [0x62])]]]]) =
        .ok ([(str "stingar", [(key "a", .str (str "b"))])], none) := by rfl
  obtain _ | ⟨hiff, -⟩ := jsonSafe_parseFrame_iff hparse
  exact hiff.mpr (by decide)

/-- A record with a timestamp, and a record with one key as bytes and as text: neither comes through
as it is to. -/
theorem not_jsonSafe_timestamp :
    let msg (record : Dict) : Obj :=
      .list [.str (str "stingar"), .list [.list [.int 1, .map record]]]
    let fails (record : Dict) : Prop := ∃ r, parseFrame .basic (msg record) =
      .ok ([(str "stingar", r)], none) ∧ ¬ JsonSafe record r
    fails [(key "seen", .timestamp 1780000000 0)] ∧
      fails [(.bytes [0x61], .int 1), (key "a", .int 2)] := by
  intro msg fails
  refine ⟨⟨_, rfl, fun h => ?_⟩, ⟨_, rfl, fun h => ?_⟩⟩
  · exact absurd h.serialisable (by decide)
  · exact absurd ((jsonSafe_normalizeRecord_iff _).mp h) (by decide)

end C2Engine
