import C2Engine.Python.Join
import C2Engine.Python.UrlRequest
import C2Engine.Python.Utf8
import Mathlib.Data.List.SplitBy

/-!
# Query strings

`urllib.parse.parse_qs` with its default settings: the parameters between ampersands, a blank for
every plus sign, the percent escapes undone. A parameter without a value is left out, and the values
of one name are kept in their order. Escapes that are no UTF-8 become replacement characters, so
that what is read from Latin-1 text can be encoded.

## Main definitions

* `parseQsl`, `parseQs`: the parameters.

## Main results

* `forall_mem_foldl_addValue`: a name has at least one value, and what holds of all values.
* `encodable_parseQs`: the values of a Latin-1 text can be encoded.
-/

namespace C2Engine.Python

/-- A name or a value of a query string. -/
def unquotePlus (s : PyStr) : PyStr := unquote (s.map fun c => if c = cp '+' then cp ' ' else c)

/-- `parse_qsl(qs)`. -/
def parseQsl (qs : PyStr) : List (PyStr × PyStr) :=
  (PyStr.split (cp '&') qs).filterMap fun field =>
    let (name, eq, value) := PyStr.partition (cp '=') field
    if eq && !value.isEmpty then some (unquotePlus name, unquotePlus value) else none

/-- Add a value behind those of its name. -/
def addValue (p : PyStr × PyStr) : List (PyStr × List PyStr) → List (PyStr × List PyStr)
  | [] => [(p.1, [p.2])]
  | q :: qs => if q.1 = p.1 then (q.1, q.2 ++ [p.2]) :: qs else q :: addValue p qs

/-- `parse_qs(qs)`. -/
def parseQs (qs : PyStr) : List (PyStr × List PyStr) :=
  (parseQsl qs).foldl (fun d p => addValue p d) []

/-- What is there after a value was added. -/
theorem mem_addValue {p : PyStr × PyStr} {q : PyStr × List PyStr} :
    {d : List (PyStr × List PyStr)} → q ∈ addValue p d →
      q ∈ d ∨ ∃ vs, q = (p.1, vs ++ [p.2]) ∧ (vs = [] ∨ (p.1, vs) ∈ d)
  | [], h => .inr ⟨[], List.mem_singleton.mp h, .inl rfl⟩
  | q' :: d, h => by
      rw [addValue] at h
      split_ifs at h with hname
      · rcases List.mem_cons.mp h with rfl | h
        · exact .inr ⟨q'.2, by rw [hname], .inr (hname ▸ List.mem_cons_self)⟩
        · exact .inl (List.mem_cons_of_mem _ h)
      · rcases List.mem_cons.mp h with rfl | h
        · exact .inl List.mem_cons_self
        · rcases mem_addValue h with h | ⟨vs, hq, hvs⟩
          · exact .inl (List.mem_cons_of_mem _ h)
          · exact .inr ⟨vs, hq, hvs.imp_right (List.mem_cons_of_mem _)⟩

/-- A property of the values that are added is one of all values. -/
theorem forall_mem_foldl_addValue {P : PyStr → Prop} : (ps : List (PyStr × PyStr)) →
    {d : List (PyStr × List PyStr)} → (∀ p ∈ ps, P p.2) →
      (∀ q ∈ d, q.2 ≠ [] ∧ ∀ v ∈ q.2, P v) →
        ∀ q ∈ ps.foldl (fun d p => addValue p d) d, q.2 ≠ [] ∧ ∀ v ∈ q.2, P v
  | [], _, _, hd => hd
  | p :: ps, d, hps, hd => by
      obtain ⟨hp, hps⟩ := List.forall_mem_cons.mp hps
      refine forall_mem_foldl_addValue ps hps fun q hq => ?_
      rcases mem_addValue hq with hq | ⟨vs, rfl, hvs⟩
      · exact hd q hq
      · refine ⟨by simp, List.forall_mem_append.mpr ⟨?_, List.forall_mem_singleton.mpr hp⟩⟩
        rcases hvs with rfl | hvs
        · exact List.forall_mem_nil _
        · exact (hd _ hvs).2

/-! ### What can be encoded -/

/-- What is decoded with replacement characters can be encoded. -/
theorem encodable_utf8ReplaceGo (data : Bytes) : ∀ skip, (utf8ReplaceGo skip data).Encodable := by
  induction data with
  | nil =>
    intro skip
    rw [utf8ReplaceGo]
    exact PyStr.encodable_nil
  | cons b bs ih =>
    intro skip
    cases skip with
    | succ skip => exact ih skip
    | zero =>
      rw [utf8ReplaceGo]
      cases hfirst : utf8First (b :: bs) with
      | none => exact (PyStr.encodable_cons _ _).mpr ⟨by decide, ih _⟩
      | some cn => exact (PyStr.encodable_cons _ _).mpr ⟨(utf8First_eq_some hfirst).1, ih _⟩

/-- A text without surrogates has none when its escapes are undone. -/
theorem encodable_unquote {s : PyStr} (h : s.Encodable) : (unquote s).Encodable := by
  rw [unquote]
  split_ifs
  · intro c hc
    obtain ⟨run, hrun, hc⟩ := List.mem_flatMap.mp hc
    split_ifs at hc
    · exact encodable_utf8ReplaceGo _ 0 c hc
    · have hmem : c ∈ (s.splitBy fun c d => c.isAscii == d.isAscii).flatten :=
        List.mem_flatten.mpr ⟨run, hrun, hc⟩
      rw [List.flatten_splitBy] at hmem
      exact h c hmem
  · exact h

/-- **The values of a query string** without surrogates can be encoded, and there is at least one
for every name. -/
theorem encodable_parseQs {qs : PyStr} (h : qs.Encodable) :
    ∀ q ∈ parseQs qs, q.2 ≠ [] ∧ ∀ v ∈ q.2, v.Encodable := by
  refine forall_mem_foldl_addValue _ (fun p hp => ?_) (List.forall_mem_nil _)
  obtain ⟨field, hfield, hp⟩ := List.mem_filterMap.mp hp
  dsimp only at hp
  split_ifs at hp
  cases hp
  refine encodable_unquote fun c hc => ?_
  obtain ⟨d, hd, rfl⟩ := List.mem_map.mp hc
  split_ifs
  · decide
  · exact h d (PyStr.mem_of_mem_split hfield ((PyStr.partition_snd_sublist _ _).subset hd))

end C2Engine.Python
