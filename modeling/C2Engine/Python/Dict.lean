import C2Engine.Python.Object

/-!
# Updating and projecting dictionaries

How `Dict.set` and `Dict.update` compose with one another and with taking keys away. A document
that was given further keys is, without these keys, the document it was.

## Main definitions

* `Dict.without`: a dictionary without some keys.
* `Dict.modify`: the value of a key changed in its place.

## Main results

* `Dict.update_eq_self`: an update with values that are there changes nothing.
* `Dict.get_update_of_mem`: an update gives each of its keys its value.
* `Dict.without_set`, `Dict.without_update`: an assignment to a key that is taken away is lost.
* `Dict.length_update_eq_iff`: when an update loses an item.
-/

namespace C2Engine.Python.Dict

variable {d e : Dict} {k k' : Key} {v : Obj} {ks : List Key}

/-- `{k: v for k, v in d.items() if k not in ks}`. -/
def without (d : Dict) (ks : List Key) : Dict := d.filter fun kv => kv.1 ∉ ks

/-- The dictionary with the value of `k`, where there is one, changed by `f` in its place. -/
def modify (d : Dict) (k : Key) (f : Obj → Obj) : Dict :=
  match d with
  | [] => []
  | kv :: d => if kv.1 = k then (k, f kv.2) :: d else kv :: modify d k f

/-! ### Assignments that change nothing -/

theorem set_eq_self (h : d.get k = some v) : d.set k v = d := by
  induction d with
  | nil => simp at h
  | cons kv d ih =>
    obtain ⟨k₀, v₀⟩ := kv
    rw [get_cons] at h
    split_ifs at h with hk
    · obtain rfl := Option.some.inj h
      simp [set, hk]
    · simp [set, hk, ih h]

/-- An update with values the dictionary has changes nothing. -/
theorem update_eq_self (h : ∀ kv ∈ e, d.get kv.1 = some kv.2) : d.update e = d := by
  induction e with
  | nil => rfl
  | cons kv e ih =>
    change (d.set kv.1 kv.2).update e = d
    rw [set_eq_self (h kv List.mem_cons_self)]
    exact ih fun kv' hkv' => h kv' (List.mem_cons_of_mem kv hkv')

/-- An update gives each of its keys its value. -/
theorem get_update_of_mem (hnodup : (e.map Prod.fst).Nodup) {kv : Key × Obj} (hkv : kv ∈ e) :
    (d.update e).get kv.1 = some kv.2 := by
  induction e generalizing d with
  | nil => simp at hkv
  | cons kv₀ e ih =>
    change ((d.set kv₀.1 kv₀.2).update e).get kv.1 = some kv.2
    obtain ⟨hfresh, hnodup⟩ := List.nodup_cons.mp hnodup
    rcases List.mem_cons.mp hkv with rfl | hkv
    · have hne : ∀ kv' ∈ e, kv'.1 ≠ kv.1 := fun kv' hkv' heq =>
        hfresh (List.mem_map.mpr ⟨kv', hkv', heq⟩)
      rw [get_update_of_notMem e _ hne, get_set_self]
    · exact ih hnodup hkv

theorem set_eq_modify (f : Obj → Obj) (h : d.get k = some v) : d.set k (f v) = d.modify k f := by
  induction d with
  | nil => simp at h
  | cons kv d ih =>
    obtain ⟨k₀, v₀⟩ := kv
    rw [get_cons] at h
    split_ifs at h with hk
    · obtain rfl := Option.some.inj h
      simp [set, modify, hk]
    · simp [set, modify, hk, ih h]

theorem modify_eq_self {f : Obj → Obj} (h : ∀ v, d.get k = some v → f v = v) :
    d.modify k f = d := by
  induction d with
  | nil => rfl
  | cons kv d ih =>
    obtain ⟨k₀, v₀⟩ := kv
    by_cases hk : k₀ = k
    · have hv := h v₀ (by rw [get_cons, if_pos hk])
      simp [modify, hk, hv]
    · have hd := ih fun v hv => h v (by rwa [get_cons, if_neg hk])
      simp [modify, hk, hd]

theorem get_modify_self (d : Dict) (k : Key) (f : Obj → Obj) :
    (d.modify k f).get k = (d.get k).map f := by
  induction d with
  | nil => rfl
  | cons kv d ih =>
    obtain ⟨k₀, v₀⟩ := kv
    by_cases hk : k₀ = k
    · simp [modify, get_cons, hk]
    · simp [modify, get_cons, hk, ih]

theorem get_modify_ne (d : Dict) (f : Obj → Obj) (h : k' ≠ k) :
    (d.modify k f).get k' = d.get k' := by
  induction d with
  | nil => rfl
  | cons kv d ih =>
    obtain ⟨k₀, v₀⟩ := kv
    by_cases hk : k₀ = k
    · simp [modify, get_cons, hk, h.symm]
    · simp [modify, get_cons, hk, ih]

theorem set_set (d : Dict) (k : Key) (v w : Obj) : (d.set k v).set k w = d.set k w := by
  induction d with
  | nil => simp [set]
  | cons kv d ih =>
    by_cases hk : kv.1 = k
    · simp [set, hk]
    · simp [set, hk, ih]

theorem modify_set (d : Dict) (k : Key) (v : Obj) (f : Obj → Obj) :
    (d.set k v).modify k f = d.set k (f v) := by
  induction d with
  | nil => simp [set, modify]
  | cons kv d ih =>
    by_cases hk : kv.1 = k
    · simp [set, modify, hk]
    · simp [set, modify, hk, ih]

/-! ### Keys taken away -/

theorem without_cons_of_mem {kv : Key × Obj} (h : kv.1 ∈ ks) :
    without (kv :: d) ks = without d ks := by
  simp [without, h]

theorem without_cons_of_notMem {kv : Key × Obj} (h : kv.1 ∉ ks) :
    without (kv :: d) ks = kv :: without d ks := by
  simp [without, h]

theorem without_eq_self (h : ∀ kv ∈ d, kv.1 ∉ ks) : d.without ks = d := by
  refine List.filter_eq_self.mpr fun kv hkv => ?_
  simpa using h kv hkv

theorem get_eq_none_iff : d.get k = none ↔ ∀ kv ∈ d, kv.1 ≠ k := by
  simp [get]

/-- A dictionary that has none of the keys is left as it is. -/
theorem without_of_absent (h : ∀ k ∈ ks, d.get k = none) : d.without ks = d :=
  without_eq_self fun kv hkv hmem => get_eq_none_iff.mp (h kv.1 hmem) kv hkv rfl

/-- An assignment to a key that is taken away is lost. -/
theorem without_set (h : k ∈ ks) : (d.set k v).without ks = d.without ks := by
  induction d with
  | nil => simp [set, without, h]
  | cons kv d ih =>
    by_cases hk : kv.1 = k
    · subst hk
      simp [without, set, h]
    · by_cases hkv : kv.1 ∈ ks
      · rw [set, if_neg hk, without_cons_of_mem hkv, without_cons_of_mem hkv, ih]
      · rw [set, if_neg hk, without_cons_of_notMem hkv, without_cons_of_notMem hkv, ih]

/-- An assignment to another key is kept. -/
theorem without_set_ne (h : k ∉ ks) : (d.set k v).without ks = (d.without ks).set k v := by
  induction d with
  | nil => simp [set, without, h]
  | cons kv d ih =>
    by_cases hk : kv.1 = k
    · subst hk
      simp [without, set, h]
    · by_cases hkv : kv.1 ∈ ks
      · rw [set, if_neg hk, without_cons_of_mem hkv, without_cons_of_mem hkv, ih]
      · rw [set, if_neg hk, without_cons_of_notMem hkv, without_cons_of_notMem hkv, ih, set,
          if_neg hk]

theorem without_update (h : ∀ kv ∈ e, kv.1 ∈ ks) : (d.update e).without ks = d.without ks := by
  induction e generalizing d with
  | nil => rfl
  | cons kv e ih =>
    change ((d.set kv.1 kv.2).update e).without ks = d.without ks
    rw [ih fun kv' hkv' => h kv' (List.mem_cons_of_mem kv hkv'),
      without_set (h kv List.mem_cons_self)]

theorem get_without_ne (h : k ∉ ks) : (d.without ks).get k = d.get k := by
  induction d with
  | nil => rfl
  | cons kv d ih =>
    obtain ⟨k₀, v₀⟩ := kv
    by_cases hks : k₀ ∈ ks
    · have hne : k₀ ≠ k := fun heq => h (heq ▸ hks)
      simpa [without, hks, get_cons, hne] using ih
    · by_cases hk : k₀ = k
      · simp [without, get_cons, hk, h]
      · simpa [without, hks, get_cons, hk] using ih

theorem erase_eq_without (d : Dict) (k : Key) : d.erase k = d.without [k] := by
  simp [erase, without]

theorem get_erase_ne (h : k' ≠ k) : (d.erase k).get k' = d.get k' := by
  rw [erase_eq_without, get_without_ne (by simpa using h)]

@[simp] theorem get_erase_self (d : Dict) (k : Key) : (d.erase k).get k = none := by
  rw [get_eq_none_iff, erase]
  simp

@[simp] theorem erase_erase (d : Dict) (k : Key) : (d.erase k).erase k = d.erase k := by
  simp [erase]

/-! ### Updates with further keys -/

theorem set_of_notMem (h : k ∉ d.map Prod.fst) (v : Obj) : d.set k v = d ++ [(k, v)] := by
  induction d with
  | nil => rfl
  | cons kv d ih =>
    rw [List.map_cons, List.mem_cons, not_or] at h
    rw [set, if_neg (Ne.symm h.1), ih h.2, List.cons_append]

theorem map_fst_set_of_mem (h : k ∈ d.map Prod.fst) (v : Obj) :
    (d.set k v).map Prod.fst = d.map Prod.fst := by
  induction d with
  | nil => cases h
  | cons kv d ih =>
    rw [set]
    split_ifs with hk
    · rw [List.map_cons, List.map_cons, hk]
    · rw [List.map_cons, List.map_cons, ih ((List.mem_cons.mp h).resolve_left (Ne.symm hk))]

theorem length_set_of_mem (h : k ∈ d.map Prod.fst) (v : Obj) : (d.set k v).length = d.length := by
  simpa using congrArg List.length (map_fst_set_of_mem h v)

theorem length_update_le (d e : Dict) : (d.update e).length ≤ d.length + e.length := by
  induction e generalizing d with
  | nil => exact le_rfl
  | cons kv e ih =>
    have hrest : (d.update (kv :: e)).length ≤ (d.set kv.1 kv.2).length + e.length := ih _
    by_cases hk : kv.1 ∈ d.map Prod.fst
    · rw [length_set_of_mem hk] at hrest
      rw [List.length_cons]
      omega
    · rw [set_of_notMem hk, List.length_append, List.length_singleton] at hrest
      rw [List.length_cons]
      omega

/-- An update with further keys only puts their items behind the others. -/
theorem update_of_nodup (h : ((d ++ e).map Prod.fst).Nodup) : d.update e = d ++ e := by
  induction e generalizing d with
  | nil => exact (List.append_nil d).symm
  | cons kv e ih =>
    rw [List.append_cons] at h ⊢
    have hk : kv.1 ∉ d.map Prod.fst := by
      rw [List.map_append, List.map_append] at h
      have hfront := (List.nodup_append.mp h).1
      exact fun hmem => (List.nodup_append.mp hfront).2.2 _ hmem _ List.mem_cons_self rfl
    change (d.set kv.1 kv.2).update e = _
    rw [set_of_notMem hk]
    exact ih h

/-- **An update loses no item exactly if it has further keys only.** -/
theorem length_update_eq_iff (hd : (d.map Prod.fst).Nodup) :
    (d.update e).length = d.length + e.length ↔ ((d ++ e).map Prod.fst).Nodup := by
  constructor
  · intro h
    induction e generalizing d with
    | nil => rwa [List.append_nil]
    | cons kv e ih =>
      have hle : (d.update (kv :: e)).length ≤ (d.set kv.1 kv.2).length + e.length :=
        length_update_le _ e
      have hk : kv.1 ∉ d.map Prod.fst := by
        intro hmem
        rw [length_set_of_mem hmem] at hle
        rw [List.length_cons] at h
        omega
      have hset : d.set kv.1 kv.2 = d ++ [kv] := set_of_notMem hk kv.2
      rw [List.append_cons, ← hset]
      refine ih ?_ ?_
      · rw [hset, List.map_append]
        exact List.nodup_append.mpr ⟨hd, List.pairwise_singleton _ _, fun a ha b hb hab =>
          hk (by rwa [← List.mem_singleton.mp hb, ← hab])⟩
      · rw [hset, List.length_append, List.length_singleton]
        change ((d.set kv.1 kv.2).update e).length = _ at h
        rw [hset, List.length_cons] at h
        omega
  · intro h
    rw [update_of_nodup h, List.length_append]

/-! ### Keys that stand once -/

theorem nodup_set (h : (d.map Prod.fst).Nodup) (k : Key) (v : Obj) :
    ((d.set k v).map Prod.fst).Nodup := by
  by_cases hk : k ∈ d.map Prod.fst
  · rwa [map_fst_set_of_mem hk]
  · rw [set_of_notMem hk, List.map_append]
    refine List.nodup_append.mpr ⟨h, List.pairwise_singleton _ _, fun k' hk' k'' hk'' heq => hk ?_⟩
    obtain rfl : k'' = k := List.mem_singleton.mp hk''
    exact heq ▸ hk'

theorem nodup_erase (h : (d.map Prod.fst).Nodup) (k : Key) : ((d.erase k).map Prod.fst).Nodup :=
  h.sublist (List.filter_sublist.map _)

theorem get_of_mem (h : (d.map Prod.fst).Nodup) {kv : Key × Obj} (hkv : kv ∈ d) :
    d.get kv.1 = some kv.2 := by
  induction d with
  | nil => cases hkv
  | cons kv₀ d ih =>
    obtain ⟨hnotMem, h⟩ := List.nodup_cons.mp h
    rcases List.mem_cons.mp hkv with rfl | hkv
    · exact (get_cons _ _ _ _).trans (if_pos rfl)
    · have hne : kv₀.1 ≠ kv.1 := fun heq => hnotMem (heq ▸ List.mem_map_of_mem hkv)
      exact (get_cons _ _ _ _).trans ((if_neg hne).trans (ih h hkv))

/-! ### Keys that are text -/

section TextKeys

variable {p : PyStr → Prop}

/-- Every key is a text with `p`. -/
def TextKeys (p : PyStr → Prop) (d : Dict) : Prop := ∀ kv ∈ d, ∃ s, kv.1 = .str s ∧ p s

theorem TextKeys.erase (h : TextKeys p d) (k : Key) : TextKeys p (d.erase k) :=
  fun kv hkv => h kv (List.mem_of_mem_filter hkv)

theorem TextKeys.set (h : TextKeys p d) {s : PyStr} (hs : p s) (v : Obj) :
    TextKeys p (d.set (.str s) v) := by
  intro kv hkv
  rcases mem_set hkv with rfl | hkv
  · exact ⟨s, rfl, hs⟩
  · exact h kv hkv

theorem TextKeys.modify (h : TextKeys p d) (k : Key) (f : Obj → Obj) :
    TextKeys p (d.modify k f) := by
  induction d with
  | nil => exact h
  | cons kv d ih =>
    obtain ⟨hkv, hd⟩ := List.forall_mem_cons.mp h
    by_cases hk : kv.1 = k
    · rw [Dict.modify, if_pos hk]
      exact List.forall_mem_cons.mpr ⟨hk ▸ hkv, hd⟩
    · rw [Dict.modify, if_neg hk]
      exact List.forall_mem_cons.mpr ⟨hkv, ih hd⟩

theorem TextKeys.update (h : TextKeys p d) (he : TextKeys p e) : TextKeys p (d.update e) := by
  induction e generalizing d with
  | nil => exact h
  | cons kv e ih =>
    obtain ⟨⟨s, hs, hp⟩, he⟩ := List.forall_mem_cons.mp he
    change TextKeys p ((d.set kv.1 kv.2).update e)
    rw [hs]
    exact ih (h.set hp kv.2) he

end TextKeys

end C2Engine.Python.Dict
