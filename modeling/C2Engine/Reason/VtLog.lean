import C2Engine.Python.Logged
import C2Engine.Reason.Isolation

/-!
# What a resolver asks

A resolver asks VirusTotal about few files, and about each of them once. The requests are not in its
state, so the methods are written again with a log of them; without the log they are the methods of
the resolver.

The calls of one resolver are a sequence with one clock; between them others may write to the
index.

## Main definitions

* `VtEvent`: the requests of a resolver.
* `VtLog.lookup`, `VtLog.resolve`, `VtLog.verdictsFor`: the methods with a log.
* `Resolved`: the states the calls of one resolver reach.
* `Discipline`: what holds of the log.
* `Known`: the verdicts a log tells of.

## Main results

* `forgets_verdictsFor`: the log does not change what the methods do.
* `Resolved.tally`: the invariant of the resolver and its log.
* `discipline_of_resolved`: the discipline of the resolver.
-/

namespace C2Engine

open Python Store

/-- What a resolver asks and writes. -/
inductive VtEvent where
  /-- The index was read, with these verdicts young enough. -/
  | read (fresh : List VtVerdict)
  /-- VirusTotal is asked about a file, and answers. -/
  | asked (sha : PyStr) (answer : VtAnswer)
  /-- The client made a verdict of the answer, or none. -/
  | answered (sha : PyStr) (verdict : Option VtVerdict)
  /-- A verdict is written to the index. -/
  | write (verdict : VtVerdict)

namespace VtLog

variable (rt : Runtime)

/-- `VtClient.lookup`, with a log. -/
def lookup (env : VtEnv) (sha : PyStr) : Prog (VtState × List VtEvent) (Option VtVerdict) := do
  Prog.tell (.asked sha (env.answer sha))
  let v ← Prog.lift (VtClient.lookup rt env sha)
  Prog.tell (.answered sha v)
  return v

/-- The body of the loop of `verdicts_for`, with a log. -/
def resolve (env : VtEnv) (sha : PyStr) : Prog (VtState × List VtEvent) Unit := do
  let r := (← Prog.get).1.resolver
  if (r.mem.lookup sha).isSome then pure ()
  else if !r.enabled || r.budget ≤ 0 then Prog.lift (VtResolver.remember sha none)
  else do
    let v ← lookup rt env sha
    Prog.lift (setResolver fun r => { r with budget := r.budget - 1, lookedUp := r.lookedUp + 1 })
    match v with
    | some v => do
      Prog.tell (.write v)
      Prog.lift (VtResolver.onCache (EsWriter.indexDoc (env.reply (.write sha)) v))
    | none => pure ()
    Prog.lift (VtResolver.remember sha v)

/-- `verdicts_for`, with a log. -/
def verdictsFor (env : VtEnv) (shas : List PyStr) :
    Prog (VtState × List VtEvent) (List VtVerdict) := do
  let mem := (← Prog.get).1.resolver.mem
  let want := (unseen [] shas).filter fun s => !s.isEmpty && (mem.lookup s).isNone
  if want.isEmpty then pure ()
  else do
    let fresh ← Prog.lift (VtResolver.readCache env want)
    Prog.tell (.read fresh)
    Prog.forM fresh fun v => Prog.lift (VtResolver.remember v.sha256 (some v))
    Prog.forM want (resolve rt env)
  let mem := (← Prog.get).1.resolver.mem
  return shas.filterMap fun s => (mem.lookup s).join

end VtLog

/-! ### Without the log -/

variable {rt : Runtime}

theorem forgets_lookup (env : VtEnv) (sha : PyStr) :
    (VtLog.lookup rt env sha).Forgets (VtClient.lookup rt env sha) :=
  .tell_bind _ (.bind_note (.lift _) fun v => .tell_bind _ (.pure v))

theorem forgets_resolve (env : VtEnv) (sha : PyStr) :
    (VtLog.resolve rt env sha).Forgets (VtResolver.resolve rt env sha) := by
  refine .get_bind fun p => ?_
  dsimp only
  split_ifs
  · exact .pure ()
  · exact .lift _
  · refine .bind (forgets_lookup env sha) fun v => .bind (.lift _) fun _ => ?_
    cases v with
    | none => exact .lift _
    | some v => exact .tell_bind _ (.bind (.lift _) fun _ => .lift _)

/-- **Without its log a resolver with a log is the resolver.** -/
theorem forgets_verdictsFor (env : VtEnv) (shas : List PyStr) :
    (VtLog.verdictsFor rt env shas).Forgets (VtResolver.verdictsFor rt env shas) := by
  refine .get_bind fun p => ?_
  dsimp only
  split_ifs
  · exact .get_bind fun p => .pure _
  · refine .bind (.lift _) fun fresh =>
      .tell_bind _ (.bind (.forM (fun v => .lift _) fresh) fun _ => ?_)
    exact .bind (.forM (forgets_resolve env) _) fun _ => .get_bind fun p => .pure _

/-! ### The client -/

/-- A report is on the file that was asked about. -/
theorem sha256_parseVtFile {data : Obj} {sha : PyStr} {checkedAt : ℤ} {v : VtVerdict}
    (h : parseVtFile rt data sha checkedAt = .ok v) : v.sha256 = sha := by
  unfold parseVtFile at h
  cases data with
  | map d =>
    obtain ⟨d, -, h⟩ := bind_eq_ok.mp h
    obtain ⟨file, -, h⟩ := bind_eq_ok.mp h
    obtain ⟨attrs, -, h⟩ := bind_eq_ok.mp h
    obtain ⟨stats, -, h⟩ := bind_eq_ok.mp h
    obtain ⟨mal, -, h⟩ := bind_eq_ok.mp h
    obtain ⟨susp, -, h⟩ := bind_eq_ok.mp h
    obtain ⟨counts, -, h⟩ := bind_eq_ok.mp h
    obtain ⟨ptc, -, h⟩ := bind_eq_ok.mp h
    obtain ⟨names, -, h⟩ := bind_eq_ok.mp h
    split_ifs at h
    all_goals
      obtain ⟨ratio, -, h⟩ := bind_eq_ok.mp h
      obtain ⟨families, -, h⟩ := bind_eq_ok.mp h
      obtain rfl := Except.ok.inj h
      rfl
  | _ => cases h

/-- A look-up changes the flag of the client at most, and a verdict is on the file that was asked
about. -/
theorem lookup_frame (env : VtEnv) (sha : PyStr) (s : VtState) :
    ∃ enabled, ((VtClient.lookup rt env sha).run s).2 =
        { s with resolver := { s.resolver with enabled := enabled } } ∧
      (enabled = true → s.resolver.enabled = true ∧ env.answer sha ≠ .httpError 401) ∧
      ∀ v, ((VtClient.lookup rt env sha).run s).1 = .ok (some v) → v.sha256 = sha := by
  unfold VtClient.lookup
  cases ha : env.answer sha with
  | body data =>
    refine ⟨s.resolver.enabled, ?_⟩
    cases data with
    | none => exact ⟨rfl, fun h => ⟨h, nofun⟩, nofun⟩
    | some data =>
      dsimp only
      cases hparse : parseVtFile rt data sha (stamp env.now) with
      | ok v =>
        refine ⟨rfl, fun h => ⟨h, nofun⟩, fun u hu => ?_⟩
        obtain rfl : v = u := Option.some.inj (Except.ok.inj hu)
        exact sha256_parseVtFile hparse
      | error e =>
        dsimp only
        split_ifs <;> exact ⟨rfl, fun h => ⟨h, nofun⟩, nofun⟩
  | httpError code =>
    dsimp only
    split_ifs with h₁ h₂
    · refine ⟨s.resolver.enabled, rfl, fun h => ⟨h, fun heq => ?_⟩, fun u hu => ?_⟩
      · cases heq
        cases h₁
      · obtain rfl := Option.some.inj (Except.ok.inj hu)
        rfl
    · exact ⟨false, rfl, nofun, nofun⟩
    · refine ⟨s.resolver.enabled, rfl, fun h => ⟨h, fun heq => ?_⟩, nofun⟩
      cases heq
      exact h₂ rfl
  | failed => exact ⟨s.resolver.enabled, rfl, fun h => ⟨h, nofun⟩, nofun⟩
  | broken => exact ⟨s.resolver.enabled, rfl, fun h => ⟨h, nofun⟩, nofun⟩

/-! ### The invariant -/

/-- The event is about a file. -/
def VtEvent.About (sha : PyStr) : VtEvent → Prop
  | .read fresh => ∃ v ∈ fresh, v.sha256 = sha
  | .asked s _ => s = sha
  | .answered s _ => s = sha
  | .write v => v.sha256 = sha

/-- The file of a look-up. -/
def VtEvent.askedFor : VtEvent → Option PyStr
  | .asked sha _ => some sha
  | _ => none

/-- The key was rejected. -/
def VtEvent.Rejected (ev : VtEvent) : Prop := ∃ sha, ev = .asked sha (.httpError 401)

/-- The files VirusTotal was asked about. -/
def askedFiles (log : List VtEvent) : List PyStr := log.filterMap VtEvent.askedFor

/-- No look-up comes behind an event about its file or behind a rejected key. -/
def LeavesAsked (ev later : VtEvent) : Prop :=
  ∀ sha, later.askedFor = some sha → ¬ ev.About sha ∧ ¬ ev.Rejected

/-- A verdict a log tells of: it was read from the index, or made of an answer. -/
def Known (log : List VtEvent) (sha : PyStr) (v : VtVerdict) : Prop :=
  (∃ fresh, .read fresh ∈ log ∧ v ∈ fresh ∧ v.sha256 = sha) ∨ .answered sha (some v) ∈ log

/-- The state of a resolver and its log. -/
structure Tally (hasKey : Bool) (maxPerRun : ℤ) (p : VtState × List VtEvent) : Prop where
  budget : p.1.resolver.budget = maxPerRun - (askedFiles p.2).length
  spent : ((askedFiles p.2).length : ℤ) ≤ max 0 maxPerRun
  enabled : p.1.resolver.enabled = true → hasKey = true ∧ ∀ ev ∈ p.2, ¬ ev.Rejected
  disabled : hasKey = false → askedFiles p.2 = []
  remembered : ∀ ev ∈ p.2, ∀ sha, ev.About sha → (p.1.resolver.mem.lookup sha).isSome
  known : ∀ sha v, p.1.resolver.mem.lookup sha = some (some v) ↔ Known p.2 sha v
  order : p.2.Pairwise LeavesAsked
  writes : ∀ v, .write v ∈ p.2 → .answered v.sha256 (some v) ∈ p.2

theorem askedFiles_append (log log' : List VtEvent) :
    askedFiles (log ++ log') = askedFiles log ++ askedFiles log' := List.filterMap_append

theorem known_append {log log' : List VtEvent} {sha : PyStr} {v : VtVerdict} :
    Known (log ++ log') sha v ↔ Known log sha v ∨ Known log' sha v := by
  simp only [Known, List.mem_append, or_and_right, exists_or]
  exact or_or_or_comm

/-- Nothing was asked yet. -/
theorem tally_new (hasKey : Bool) (maxPerRun : ℤ) (cache : VtCache) :
    Tally hasKey maxPerRun (⟨cache, ⟨hasKey, maxPerRun, 0, ∅⟩⟩, []) where
  budget := by simp [askedFiles]
  spent := by simp [askedFiles]
  enabled h := ⟨h, by simp⟩
  disabled _ := rfl
  remembered := by simp
  known sha v := by simp [Known]
  order := .nil
  writes := by simp

namespace Tally

variable {hasKey : Bool} {maxPerRun : ℤ} {p : VtState × List VtEvent}

/-- The index is none of the resolver's concern. -/
theorem of_cache (h : Tally hasKey maxPerRun p) (cache : VtCache) :
    Tally hasKey maxPerRun ({ p.1 with cache := cache }, p.2) :=
  ⟨h.budget, h.spent, h.enabled, h.disabled, h.remembered, h.known, h.order, h.writes⟩

/-- A file that is not remembered is in no event. -/
theorem not_about (h : Tally hasKey maxPerRun p) {sha : PyStr}
    (hsha : p.1.resolver.mem.lookup sha = none) : ∀ ev ∈ p.2, ¬ ev.About sha := by
  intro ev hev habout
  have hsome := h.remembered ev hev sha habout
  rw [hsha] at hsome
  cases hsome

/-- A file can be put off. -/
theorem put_off (h : Tally hasKey maxPerRun p) {sha : PyStr}
    (hsha : p.1.resolver.mem.lookup sha = none) :
    Tally hasKey maxPerRun
      ({ p.1 with resolver := { p.1.resolver with mem := p.1.resolver.mem.insert sha none } },
        p.2) where
  budget := h.budget
  spent := h.spent
  enabled := h.enabled
  disabled := h.disabled
  remembered ev hev s habout := by
    dsimp only
    by_cases hs : s = sha
    · rw [hs, AList.lookup_insert]
      rfl
    · rw [AList.lookup_insert_ne hs]
      exact h.remembered ev hev s habout
  known s v := by
    dsimp only
    by_cases hs : s = sha
    · rw [hs, AList.lookup_insert, ← h.known, hsha]
      simp
    · rw [AList.lookup_insert_ne hs]
      exact h.known s v
  order := h.order
  writes := h.writes

/-- Events behind a log whose look-ups it leaves. -/
theorem order_append {log log' : List VtEvent} (h : log.Pairwise LeavesAsked)
    (h' : log'.Pairwise LeavesAsked)
    (hasked : ∀ later ∈ log', ∀ sha, later.askedFor = some sha →
      ∀ ev ∈ log, ¬ ev.About sha ∧ ¬ ev.Rejected) : (log ++ log').Pairwise LeavesAsked :=
  List.pairwise_append.mpr ⟨h, h', fun ev hev later hlater sha hsha =>
    hasked later hlater sha hsha ev hev⟩

end Tally

/-- The events of a look-up that returned. -/
def lookedUp (sha : PyStr) (answer : VtAnswer) (v : Option VtVerdict) : List VtEvent :=
  .asked sha answer :: .answered sha v :: (v.map VtEvent.write).toList

theorem mem_lookedUp {sha : PyStr} {answer : VtAnswer} {v : Option VtVerdict} {ev : VtEvent} :
    ev ∈ lookedUp sha answer v ↔
      ev = .asked sha answer ∨ ev = .answered sha v ∨ ∃ u, v = some u ∧ ev = .write u := by
  cases v <;> simp [lookedUp]

theorem askedFiles_lookedUp (sha : PyStr) (answer : VtAnswer) (v : Option VtVerdict) :
    askedFiles (lookedUp sha answer v) = [sha] := by
  cases v <;> rfl

/-- The events of a look-up leave each other. -/
theorem pairwise_lookedUp (sha : PyStr) (answer : VtAnswer) (v : Option VtVerdict) :
    (lookedUp sha answer v).Pairwise LeavesAsked := by
  cases v <;> simp [lookedUp, LeavesAsked, VtEvent.askedFor]

theorem known_lookedUp {sha s : PyStr} {answer : VtAnswer} {v : Option VtVerdict} {u : VtVerdict} :
    Known (lookedUp sha answer v) s u ↔ s = sha ∧ v = some u := by
  simp only [Known, mem_lookedUp]
  constructor
  · rintro (⟨fresh, heq | heq | ⟨_, -, heq⟩, -, -⟩ | heq | heq | ⟨_, -, heq⟩)
    · cases heq
    · cases heq
    · cases heq
    · cases heq
    · exact ⟨(VtEvent.answered.inj heq).1, (VtEvent.answered.inj heq).2.symm⟩
    · cases heq
  · rintro ⟨rfl, rfl⟩
    exact .inr (.inr (.inl rfl))

namespace Tally

variable {hasKey : Bool} {maxPerRun : ℤ} {p : VtState × List VtEvent}

/-- **A file can be looked up** that is not remembered, while the client is enabled and the budget
is not spent. -/
theorem look_up (h : Tally hasKey maxPerRun p) {sha : PyStr} {a : VtAnswer}
    {v : Option VtVerdict} {r : Resolver} {c : VtCache}
    (hsha : p.1.resolver.mem.lookup sha = none) (henabled : p.1.resolver.enabled = true)
    (hbudget : 0 < p.1.resolver.budget) (hv : ∀ u, v = some u → u.sha256 = sha)
    (hflag : r.enabled = true → a ≠ .httpError 401)
    (hspent : r.budget = p.1.resolver.budget - 1)
    (hmem : r.mem = p.1.resolver.mem.insert sha v) :
    Tally hasKey maxPerRun (⟨c, r⟩, p.2 ++ lookedUp sha a v) := by
  obtain ⟨hkey, hrejected⟩ := h.enabled henabled
  have hnew : ∀ ev ∈ lookedUp sha a v, ∀ s, ev.About s → s = sha := by
    intro ev hev s habout
    rcases mem_lookedUp.mp hev with rfl | rfl | ⟨u, hu, rfl⟩
    · exact habout.symm
    · exact habout.symm
    · exact Eq.trans (Eq.symm habout) (hv u hu)
  have hasked : (askedFiles (p.2 ++ lookedUp sha a v)).length = (askedFiles p.2).length + 1 := by
    rw [askedFiles_append, askedFiles_lookedUp, List.length_append, List.length_singleton]
  have hleft := h.budget
  refine ⟨?_, ?_, fun hr => ⟨hkey, ?_⟩, fun hno => absurd hkey (by simp [hno]), ?_, ?_, ?_, ?_⟩
  · rw [hspent, hasked, h.budget]
    omega
  · rw [hasked]
    omega
  · rintro ev hev ⟨s, rfl⟩
    rcases List.mem_append.mp hev with hev | hev
    · exact hrejected _ hev ⟨s, rfl⟩
    · rcases mem_lookedUp.mp hev with heq | heq | ⟨u, -, heq⟩
      · exact hflag hr (VtEvent.asked.inj heq).2.symm
      · cases heq
      · cases heq
  · intro ev hev s habout
    rw [hmem]
    by_cases hs : s = sha
    · rw [hs, AList.lookup_insert]
      rfl
    · rw [AList.lookup_insert_ne hs]
      rcases List.mem_append.mp hev with hev | hev
      · exact h.remembered ev hev s habout
      · exact absurd (hnew ev hev s habout) hs
  · intro s u
    rw [hmem, known_append, known_lookedUp]
    by_cases hs : s = sha
    · have hold : ¬ Known p.2 s u := by
        rw [← h.known, hs, hsha]
        exact nofun
      rw [hs, AList.lookup_insert, or_iff_right (hs ▸ hold)]
      simp
    · rw [AList.lookup_insert_ne hs, h.known]
      simp [hs]
  · refine order_append h.order (pairwise_lookedUp sha a v) ?_
    intro later hlater s hs ev hev
    rcases mem_lookedUp.mp hlater with rfl | rfl | ⟨u, -, rfl⟩
    · obtain rfl := Option.some.inj hs
      exact ⟨h.not_about hsha ev hev, hrejected ev hev⟩
    · cases hs
    · cases hs
  · intro u hu
    rcases List.mem_append.mp hu with hu | hu
    · exact List.mem_append_left _ (h.writes u hu)
    · rcases mem_lookedUp.mp hu with heq | heq | ⟨u', hu', heq⟩
      · cases heq
      · cases heq
      · obtain rfl := VtEvent.write.inj heq
        refine List.mem_append_right _ (mem_lookedUp.mpr (.inr (.inl ?_)))
        rw [hv u hu', hu']

end Tally

/-! ### Reading the index -/

/-- Remember verdicts that were read. -/
def rememberAll (mem : TextDict (Option VtVerdict)) (fresh : List VtVerdict) :
    TextDict (Option VtVerdict) := fresh.foldl (fun mem v => mem.insert v.sha256 (some v)) mem

theorem isSome_lookup_rememberAll {sha : PyStr} : {fresh : List VtVerdict} →
    {mem : TextDict (Option VtVerdict)} → (((rememberAll mem fresh).lookup sha).isSome ↔
      (∃ v ∈ fresh, v.sha256 = sha) ∨ (mem.lookup sha).isSome)
  | [], mem => by simp [rememberAll]
  | v :: fresh, mem => by
      have ih := @isSome_lookup_rememberAll sha fresh (mem.insert v.sha256 (some v))
      rw [rememberAll, List.foldl_cons, ← rememberAll, ih]
      by_cases hv : v.sha256 = sha
      · simp [hv]
      · rw [AList.lookup_insert_ne (Ne.symm hv)]
        simp [hv]

/-- A remembered verdict was read or was remembered before. -/
theorem lookup_rememberAll {sha : PyStr} {u : VtVerdict} : {fresh : List VtVerdict} →
    {mem : TextDict (Option VtVerdict)} → (fresh.map VtVerdict.sha256).Nodup →
    (∀ v ∈ fresh, mem.lookup v.sha256 = none) →
    ((rememberAll mem fresh).lookup sha = some (some u) ↔
      (u ∈ fresh ∧ u.sha256 = sha) ∨ mem.lookup sha = some (some u))
  | [], mem, _, _ => by simp [rememberAll]
  | v :: fresh, mem, hnodup, hnew => by
      obtain ⟨hv, hnodup⟩ := List.nodup_cons.mp hnodup
      obtain ⟨hvnew, hnew⟩ := List.forall_mem_cons.mp hnew
      have hnew' : ∀ w ∈ fresh, (mem.insert v.sha256 (some v)).lookup w.sha256 = none := by
        intro w hw
        have hne : w.sha256 ≠ v.sha256 := fun h => hv (List.mem_map.mpr ⟨w, hw, h⟩)
        rw [AList.lookup_insert_ne hne, hnew w hw]
      rw [rememberAll, List.foldl_cons, ← rememberAll, lookup_rememberAll hnodup hnew']
      by_cases hsha : sha = v.sha256
      · have hout : ¬ (u ∈ fresh ∧ u.sha256 = sha) := by
          rintro ⟨hu, rfl⟩
          exact hv (List.mem_map.mpr ⟨u, hu, hsha⟩)
        rw [hsha] at hout ⊢
        rw [AList.lookup_insert, hvnew, or_iff_right hout]
        constructor
        · intro h
          obtain rfl := Option.some.inj (Option.some.inj h)
          exact .inl ⟨List.mem_cons_self, rfl⟩
        · rintro (⟨hu, heq⟩ | h)
          · rcases List.mem_cons.mp hu with rfl | hu
            · rfl
            · exact absurd ⟨hu, heq⟩ hout
          · cases h
      · rw [AList.lookup_insert_ne hsha]
        have hvu : u = v → u.sha256 ≠ sha := by
          rintro rfl h
          exact hsha h.symm
        simp only [List.mem_cons, or_and_right]
        constructor
        · rintro (h | h)
          · exact .inl (.inr h)
          · exact .inr h
        · rintro ((⟨h, heq⟩ | h) | h)
          · exact absurd heq (hvu h)
          · exact .inl h
          · exact .inr h

theorem run_forM_remember : (fresh : List VtVerdict) → (p : VtState × List VtEvent) →
    (Prog.forM fresh fun v => Prog.lift (VtResolver.remember v.sha256 (some v))).run p =
      (.ok (), ({ p.1 with resolver :=
        { p.1.resolver with mem := rememberAll p.1.resolver.mem fresh } }, p.2))
  | [], p => rfl
  | v :: fresh, p => by
      rw [Prog.forM_cons, Prog.run_bind_of_ok (Prog.run_lift _ p), run_forM_remember fresh]
      rfl

theorem askedFiles_read (log : List VtEvent) (fresh : List VtVerdict) :
    askedFiles (log ++ [.read fresh]) = askedFiles log := by
  rw [askedFiles_append]
  exact List.append_nil _

/-- **Verdicts can be read** on files that are not remembered. -/
theorem Tally.read {hasKey : Bool} {maxPerRun : ℤ} {p : VtState × List VtEvent}
    (h : Tally hasKey maxPerRun p) {fresh : List VtVerdict}
    (hnodup : (fresh.map VtVerdict.sha256).Nodup)
    (hnew : ∀ v ∈ fresh, p.1.resolver.mem.lookup v.sha256 = none) :
    Tally hasKey maxPerRun ({ p.1 with resolver :=
      { p.1.resolver with mem := rememberAll p.1.resolver.mem fresh } }, p.2 ++ [.read fresh]) where
  budget := by
    rw [askedFiles_read]
    exact h.budget
  spent := by
    rw [askedFiles_read]
    exact h.spent
  enabled hr := by
    obtain ⟨hkey, hrejected⟩ := h.enabled hr
    refine ⟨hkey, List.forall_mem_append.mpr ⟨hrejected, ?_⟩⟩
    rintro ev hev ⟨s, rfl⟩
    cases List.mem_singleton.mp hev
  disabled hno := by
    rw [askedFiles_read, h.disabled hno]
  remembered ev hev sha habout := by
    rw [isSome_lookup_rememberAll]
    rcases List.mem_append.mp hev with hev | hev
    · exact .inr (h.remembered ev hev sha habout)
    · obtain rfl := List.mem_singleton.mp hev
      exact .inl habout
  known sha v := by
    rw [lookup_rememberAll hnodup hnew, known_append, h.known]
    simp [Known, or_comm]
  order := by
    refine order_append h.order (List.pairwise_singleton _ _) ?_
    intro later hlater sha hsha
    obtain rfl := List.mem_singleton.mp hlater
    cases hsha
  writes v hv := by
    rcases List.mem_append.mp hv with hv | hv
    · exact List.mem_append_left _ (h.writes v hv)
    · cases List.mem_singleton.mp hv

/-! ### The methods keep the invariant -/

section Keeps

variable {hasKey : Bool} {maxPerRun : ℤ} {env : VtEnv}

/-- A look-up that returns, with its log. -/
theorem run_lookup_ok {sha : PyStr} {p : VtState × List VtEvent}
    {v : Option VtVerdict} {s : VtState}
    (h : (VtClient.lookup rt env sha).run p.1 = (.ok v, s)) :
    (VtLog.lookup rt env sha).run p =
      (.ok v, (s, p.2 ++ [.asked sha (env.answer sha), .answered sha v])) := by
  rw [VtLog.lookup, Prog.run_bind_of_ok (Prog.run_tell _ p)]
  have hlift : (Prog.lift (VtClient.lookup rt env sha)).run
    (p.1, p.2 ++ [.asked sha (env.answer sha)]) =
      (.ok v, (s, p.2 ++ [.asked sha (env.answer sha)])) := by
    rw [Prog.run_lift, h]
  rw [Prog.run_bind_of_ok hlift, Prog.run_bind_of_ok (Prog.run_tell _ _), Prog.run_pure,
    List.append_assoc]
  rfl

/-- A look-up that raises, with its log. -/
theorem run_lookup_error {sha : PyStr} {p : VtState × List VtEvent} {e : PyExc} {s : VtState}
    (h : (VtClient.lookup rt env sha).run p.1 = (.error e, s)) :
    (VtLog.lookup rt env sha).run p = (.error e, (s, p.2 ++ [.asked sha (env.answer sha)])) := by
  rw [VtLog.lookup, Prog.run_bind_of_ok (Prog.run_tell _ p)]
  refine Prog.run_bind_of_error ?_
  rw [Prog.run_lift, h]

/-- The body of the loop keeps the tally. -/
theorem keeps_resolve (hanswers : VtAnswers rt env)
    (hwrites : ∀ sha, (env.reply (.write sha)).accepts) (sha : PyStr) :
    Prog.Keeps (Tally hasKey maxPerRun) (VtLog.resolve rt env sha) := by
  intro p h
  rw [VtLog.resolve, Prog.run_bind, Prog.run_get]
  dsimp only
  split_ifs with hseen hoff
  · exact h
  · exact h.put_off (by simpa using hseen)
  · have hsha : p.1.resolver.mem.lookup sha = none := by simpa using hseen
    obtain ⟨henabled, hbudget⟩ : p.1.resolver.enabled = true ∧ 0 < p.1.resolver.budget := by
      simpa using hoff
    obtain ⟨v, hv⟩ := isOk_iff.mp (total_lookup hanswers sha p.1)
    obtain ⟨flag, hstate, hflag, hfile⟩ := @lookup_frame rt env sha p.1
    have hrun : (VtClient.lookup rt env sha).run p.1 =
        (.ok v, { p.1 with resolver := { p.1.resolver with enabled := flag } }) :=
      Prod.ext hv hstate
    rw [Prog.run_bind_of_ok (run_lookup_ok hrun)]
    have hfile' : ∀ u, v = some u → u.sha256 = sha := by
      rintro u rfl
      exact hfile u hv
    cases v with
    | none =>
      exact h.look_up (c := p.1.cache) hsha henabled hbudget hfile' (fun hr => (hflag hr).2)
        rfl rfl
    | some u =>
      have hwrite (q : VtState × List VtEvent) : (Prog.lift (VtResolver.onCache (EsWriter.indexDoc
          (env.reply (.write sha)) u))).run q = (.ok (), ({ q.1 with cache :=
            ((EsWriter.indexDoc (env.reply (.write sha)) u).run q.1.cache).2 }, q.2)) := by
        rw [Prog.run_lift, VtResolver.onCache, Prog.run_zoom, EsWriter.run_indexDoc,
          Reply.result_of_accepts (hwrites sha)]
      dsimp only
      rw [Prog.run_bind_of_ok (Prog.run_lift _ _), Prog.run_bind_of_ok (Prog.run_tell _ _),
        Prog.run_bind_of_ok (hwrite _)]
      have hlog : p.2 ++ lookedUp sha (env.answer sha) (some u) =
          p.2 ++ [.asked sha (env.answer sha), .answered sha (some u)] ++ [.write u] := by
        rw [List.append_assoc]
        rfl
      have hkept := h.look_up (c := ((EsWriter.indexDoc (env.reply (.write sha)) u).run
        p.1.cache).2) (a := env.answer sha) hsha henabled hbudget hfile'
        (r := ⟨flag, p.1.resolver.budget - 1, p.1.resolver.lookedUp + 1,
          p.1.resolver.mem.insert sha (some u)⟩) (fun hr => (hflag hr).2) rfl rfl
      rw [hlog] at hkept
      exact hkept

/-- What is read from the index: young verdicts on the wanted files, one on each at most. -/
theorem readCache_ok {want : List PyStr} {s s' : VtState} {fresh : List VtVerdict}
    (h : (VtResolver.readCache env want).run s = (.ok fresh, s')) :
    s' = s ∧ (fresh.map VtVerdict.sha256).Nodup ∧
      ∀ v ∈ fresh, v.sha256 ∈ want ∧ VtResolver.isFresh env.now v := by
  rw [VtResolver.readCache, EsWriter.run_searchOr] at h
  obtain ⟨hresult, rfl⟩ := Prod.mk.inj h
  refine ⟨rfl, ?_⟩
  cases hr : (env.reply (.read want)).result with
  | ok u =>
    rw [hr] at hresult
    obtain rfl := Except.ok.inj hresult
    refine ⟨s.cache.nodup.sublist (List.filter_sublist.map _), fun v hv => ?_⟩
    simpa using (List.mem_filter.mp hv).2
  | error e =>
    rw [hr] at hresult
    dsimp only at hresult
    split_ifs at hresult
    obtain rfl := Except.ok.inj hresult
    exact ⟨List.nodup_nil, by simp⟩

/-- **The calls of a resolver keep the tally.** -/
theorem keeps_verdictsFor (hanswers : VtAnswers rt env)
    (hwrites : ∀ sha, (env.reply (.write sha)).accepts) (shas : List PyStr) :
    Prog.Keeps (Tally hasKey maxPerRun) (VtLog.verdictsFor rt env shas) := by
  intro p h
  rw [VtLog.verdictsFor, Prog.run_bind, Prog.run_get]
  dsimp only
  split_ifs
  · exact h
  · rcases hread : (VtResolver.readCache env ((unseen [] shas).filter fun s =>
      !s.isEmpty && (p.1.resolver.mem.lookup s).isNone)).run p.1 with ⟨e | fresh, s'⟩
    · have hstate : ((VtResolver.readCache env ((unseen [] shas).filter fun s =>
          !s.isEmpty && (p.1.resolver.mem.lookup s).isNone)).run p.1).2 = p.1 := by
        rw [VtResolver.readCache, EsWriter.run_searchOr]
      rw [hread] at hstate
      obtain rfl : s' = p.1 := hstate
      have hlift : (Prog.lift (VtResolver.readCache env ((unseen [] shas).filter fun s =>
          !s.isEmpty && (p.1.resolver.mem.lookup s).isNone))).run p = (.error e, p) := by
        rw [Prog.run_lift, hread]
      rw [Prog.run_bind_of_error hlift]
      exact h
    · obtain ⟨rfl, hnodup, hfresh⟩ := readCache_ok hread
      have hlift : (Prog.lift (VtResolver.readCache env ((unseen [] shas).filter fun s =>
          !s.isEmpty && (p.1.resolver.mem.lookup s).isNone))).run p = (.ok fresh, p) := by
        rw [Prog.run_lift, hread]
      have hnew : ∀ v ∈ fresh, p.1.resolver.mem.lookup v.sha256 = none := by
        intro v hv
        have hwanted := (List.mem_filter.mp (hfresh v hv).1).2
        simp only [Bool.and_eq_true, Option.isNone_iff_eq_none] at hwanted
        exact hwanted.2
      rw [Prog.run_bind_of_ok hlift, Prog.run_bind_of_ok (Prog.run_tell _ p),
        Prog.run_bind_of_ok (run_forM_remember fresh _)]
      refine Prog.Keeps.bind (Prog.Keeps.forM fun sha _ => keeps_resolve hanswers hwrites sha)
        (fun _ => ?_) _ (h.read hnodup hnew)
      exact Prog.Keeps.bind Prog.Keeps.get fun _ => Prog.Keeps.pure _

end Keeps

/-! ### The discipline -/

/-- The requests of a resolver: at most as many look-ups as its budget, one for each file, none of
a file a young verdict was read on, none without a key or behind its rejection; and only verdicts
that were made of an answer are written. -/
structure Discipline (hasKey : Bool) (maxPerRun : ℤ) (log : List VtEvent) : Prop where
  budget : ((askedFiles log).length : ℤ) ≤ max 0 maxPerRun
  once : (askedFiles log).Nodup
  unread : ∀ pre post sha answer, log = pre ++ .asked sha answer :: post →
    ∀ fresh, .read fresh ∈ pre → ∀ v ∈ fresh, v.sha256 ≠ sha
  enabled : hasKey = false → askedFiles log = []
  accepted : ∀ pre post sha answer, log = pre ++ .asked sha answer :: post →
    ∀ ev ∈ pre, ¬ ev.Rejected
  writes : ∀ v, .write v ∈ log → .answered v.sha256 (some v) ∈ log

theorem VtEvent.about_of_askedFor {ev : VtEvent} {sha : PyStr} (h : ev.askedFor = some sha) :
    ev.About sha := by
  cases ev with
  | asked s _ => exact Option.some.inj h
  | _ => cases h

theorem Tally.discipline {hasKey : Bool} {maxPerRun : ℤ} {p : VtState × List VtEvent}
    (h : Tally hasKey maxPerRun p) : Discipline hasKey maxPerRun p.2 := by
  have hbehind : ∀ pre post sha answer, p.2 = pre ++ .asked sha answer :: post →
      ∀ ev ∈ pre, ¬ ev.About sha ∧ ¬ ev.Rejected := by
    intro pre post sha answer hlog ev hev
    have horder := h.order
    rw [hlog] at horder
    exact (List.pairwise_append.mp horder).2.2 ev hev _ List.mem_cons_self sha rfl
  refine ⟨h.spent, ?_, ?_, h.disabled, ?_, h.writes⟩
  · refine List.Pairwise.filterMap _ ?_ h.order
    intro ev later hleaves sha hsha sha' hsha' heq
    subst heq
    exact (hleaves sha hsha').1 (VtEvent.about_of_askedFor hsha)
  · intro pre post sha answer hlog fresh hfresh v hv heq
    exact (hbehind pre post sha answer hlog _ hfresh).1 ⟨v, hv, heq⟩
  · exact fun pre post sha answer hlog ev hev => (hbehind pre post sha answer hlog ev hev).2

/-- What a call returns is what is remembered in the end. -/
theorem verdictsFor_ok {env : VtEnv} {shas : List PyStr} {p q : VtState × List VtEvent}
    {vs : List VtVerdict} (h : (VtLog.verdictsFor rt env shas).run p = (.ok vs, q)) :
    vs = shas.filterMap fun s => (q.1.resolver.mem.lookup s).join := by
  have hlast : ∀ p', (Prog.get >>= fun s : VtState × List VtEvent => pure (shas.filterMap fun sha =>
      (s.1.resolver.mem.lookup sha).join) : Prog (VtState × List VtEvent) _).run p' = (.ok vs, q) →
      vs = shas.filterMap fun s => (q.1.resolver.mem.lookup s).join := by
    intro p' hp'
    obtain ⟨hvs, rfl⟩ := Prod.mk.inj hp'
    exact (Except.ok.inj hvs).symm
  rw [VtLog.verdictsFor, Prog.run_bind, Prog.run_get] at h
  dsimp only at h
  split_ifs at h
  · exact hlast p h
  · obtain ⟨fresh, p₁, -, h⟩ := Prog.run_bind_ok h
    obtain ⟨_, p₂, -, h⟩ := Prog.run_bind_ok h
    obtain ⟨_, p₃, -, h⟩ := Prog.run_bind_ok h
    obtain ⟨_, p₄, -, h⟩ := Prog.run_bind_ok h
    exact hlast p₄ h

/-- The states and logs that the calls of one resolver reach, with one clock. The cache writes
succeed, an answer is found, not found, a skip or a rejection, and others may write to the index
between calls. -/
inductive Resolved (rt : Runtime) (now : ℤ) (hasKey : Bool) (maxPerRun : ℤ) :
    VtState × List VtEvent → Prop where
  | new (cache : VtCache) :
      Resolved rt now hasKey maxPerRun (⟨cache, ⟨hasKey, maxPerRun, 0, ∅⟩⟩, [])
  | call {p : VtState × List VtEvent} (h : Resolved rt now hasKey maxPerRun p) (env : VtEnv)
      (shas : List PyStr) (hnow : env.now = now) (hanswers : VtAnswers rt env)
      (hwrites : ∀ sha, (env.reply (.write sha)).accepts) :
      Resolved rt now hasKey maxPerRun ((VtLog.verdictsFor rt env shas).run p).2
  | other {p : VtState × List VtEvent} (h : Resolved rt now hasKey maxPerRun p) (cache : VtCache) :
      Resolved rt now hasKey maxPerRun ({ p.1 with cache := cache }, p.2)

theorem Resolved.tally {now : ℤ} {hasKey : Bool} {maxPerRun : ℤ} {p : VtState × List VtEvent}
    (h : Resolved rt now hasKey maxPerRun p) : Tally hasKey maxPerRun p := by
  induction h with
  | new cache => exact tally_new hasKey maxPerRun cache
  | call h env shas hnow hanswers hwrites ih => exact keeps_verdictsFor hanswers hwrites shas _ ih
  | other h cache ih => exact ih.of_cache cache

/-- **The discipline of a resolver.** Whatever was asked of it, its requests are disciplined, and
the next call, which is a call of `verdicts_for`, returns the verdicts known of its files, in their
order. -/
theorem discipline_of_resolved {now : ℤ} {hasKey : Bool} {maxPerRun : ℤ}
    {p : VtState × List VtEvent} (h : Resolved rt now hasKey maxPerRun p) :
    Discipline hasKey maxPerRun p.2 ∧
    ∀ (env : VtEnv) (shas : List PyStr), env.now = now → VtAnswers rt env →
      (∀ sha, (env.reply (.write sha)).accepts) →
      let q := ((VtLog.verdictsFor rt env shas).run p).2
      ((VtResolver.verdictsFor rt env shas).run p.1).2 = q.1 ∧
      ∀ vs, ((VtResolver.verdictsFor rt env shas).run p.1).1 = .ok vs →
        ∃ known : PyStr → Option VtVerdict,
          (∀ sha v, known sha = some v ↔ Known q.2 sha v) ∧ vs = shas.filterMap known := by
  refine ⟨h.tally.discipline, fun env shas hnow hanswers hwrites => ?_⟩
  obtain ⟨hresult, hstate⟩ := @forgets_verdictsFor rt env shas p
  refine ⟨hstate.symm, fun vs hvs => ?_⟩
  have htally := (h.call env shas hnow hanswers hwrites).tally
  refine ⟨fun s => (((VtLog.verdictsFor rt env shas).run p).2.1.resolver.mem.lookup s).join, ?_,
    verdictsFor_ok (Prod.ext (hresult.trans hvs) rfl)⟩
  intro sha v
  rw [← htally.known, Option.join_eq_some_iff]

/-- Surroundings in which VirusTotal knows no file. -/
def unknownFiles : VtEnv := ⟨0, fun _ => .done, fun _ => .httpError 404⟩

theorem vtAnswers_unknownFiles : VtAnswers .basic unknownFiles := fun _ => ⟨nofun, nofun⟩

/-- Two calls with a budget of one: the second file is put off, and the first one is not looked up
again. -/
theorem discipline_of_resolved_twice :
    let p := ((VtLog.verdictsFor .basic unknownFiles [str "aa", str "bb", str "aa"]).run
      (⟨.empty, ⟨true, 1, 0, ∅⟩⟩, [])).2
    askedFiles p.2 = [str "aa"] ∧ Discipline true 1 p.2 ∧
    let q := ((VtLog.verdictsFor .basic unknownFiles [str "aa"]).run p).2
    ((VtResolver.verdictsFor .basic unknownFiles [str "aa"]).run p.1).2 = q.1 ∧
    ((VtResolver.verdictsFor .basic unknownFiles [str "aa"]).run p.1).1 =
      .ok [notFound (str "aa") 0] ∧
    ∃ known : PyStr → Option VtVerdict, (∀ sha v, known sha = some v ↔ Known q.2 sha v) ∧
      [notFound (str "aa") 0] = [str "aa"].filterMap known := by
  intro p
  have hfirst : Resolved .basic 0 true 1 p :=
    (Resolved.new .empty).call unknownFiles
      [str "aa", str "bb", str "aa"] rfl vtAnswers_unknownFiles
      fun _ => rfl
  obtain ⟨hdiscipline, hcalls⟩ := discipline_of_resolved hfirst
  obtain ⟨hstate, hknown⟩ := hcalls unknownFiles [str "aa"] rfl vtAnswers_unknownFiles fun _ => rfl
  have hresult : ((VtResolver.verdictsFor .basic unknownFiles [str "aa"]).run p.1).1 =
      .ok [notFound (str "aa") 0] := by decide +kernel
  exact ⟨by decide +kernel, hdiscipline, hstate, hresult, hknown _ hresult⟩

end C2Engine
