import C2Engine.Analyze.Session
import C2Engine.Python.Join

/-!
# What the hash of the credentials stands for

The hash is taken of the pairs of a session, a name and its password with `\x01` between them and
the pairs with `\x00`. Names and passwords come from the attacker and can contain both, so the text
that is hashed does not stand for one list of pairs.

## Main definitions

* `hashedText`: the text that is hashed.
* `GroupsExactly`: no other list of pairs has the same text.

## Main results

* `credentialPairs_inj`: without the two separators in names and passwords the text determines the
  pairs.
* `groupsExactly_iff`: which lists have a text of their own.
-/

namespace C2Engine

open Python

/-- The pairs of a list of credentials. -/
def credentialPairs (credentials : List Credential) : List (PyStr × PyStr) :=
  credentials.map fun c => (c.username, c.password)

/-- The text that is hashed into `cred_sequence_hash`, if there is one. -/
def hashedText (credentials : List Credential) : Option PyStr :=
  if credentials.isEmpty then none else some (credentialSequence credentials)

/-- The hash is that of the text. -/
theorem sequenceHash_eq (rt : Runtime) (credentials : List Credential) :
    sequenceHash rt credentials = (hashedText credentials).elim (.ok none) fun text =>
      (utf8Encode text).map fun data => some (rt.hashlib.sha1 data) := by
  unfold sequenceHash hashedText
  split_ifs <;> rfl

/-- The text of a list stands for its pairs: no list of other pairs has it. -/
def GroupsExactly (credentials : List Credential) : Prop :=
  ∀ others, hashedText others = hashedText credentials →
    credentialPairs others = credentialPairs credentials

/-- The separators are neither in the name nor in the password. -/
def Credential.Plain (c : Credential) : Prop :=
  cp '\x00' ∉ c.username ++ c.password ∧ cp '\x01' ∉ c.username ++ c.password

/-- A pair as it is hashed. -/
def pairText (c : Credential) : PyStr := c.username ++ cp '\x01' :: c.password

theorem credentialSequence_eq (credentials : List Credential) :
    credentialSequence credentials = PyStr.join [cp '\x00'] (credentials.map pairText) := rfl

theorem credentialSequence_cons_cons (c d : Credential) (credentials : List Credential) :
    credentialSequence (c :: d :: credentials) =
      c.username ++ cp '\x01' ::
        (c.password ++ cp '\x00' :: credentialSequence (d :: credentials)) := by
  rw [credentialSequence_eq, List.map_cons, List.map_cons, PyStr.join_cons_cons, pairText]
  simp only [List.append_assoc, List.cons_append, List.nil_append]
  rfl

/-- Names without `\x01` in front of the first one determine the pair. -/
theorem pair_inj {u p u' p' : PyStr} (hu : cp '\x01' ∉ u) (hu' : cp '\x01' ∉ u')
    (h : u ++ cp '\x01' :: p = u' ++ cp '\x01' :: p') : (u, p) = (u', p') := by
  have heq := PyStr.partition_append p hu
  rw [h, PyStr.partition_append p' hu', Prod.mk.injEq, Prod.mk.injEq] at heq
  rw [heq.1, heq.2.2]

theorem Credential.Plain.notMem_pairText {c : Credential} (h : c.Plain) :
    cp '\x00' ∉ pairText c := by
  have hnot := h.1
  rw [List.mem_append, not_or] at hnot
  simp only [pairText, List.mem_append, List.mem_cons, not_or]
  exact ⟨hnot.1, by decide, hnot.2⟩

theorem Credential.Plain.notMem_username {c : Credential} (h : c.Plain) :
    cp '\x01' ∉ c.username := fun hmem => h.2 (List.mem_append_left _ hmem)

theorem hashedText_eq_some {credentials : List Credential} {text : PyStr} :
    hashedText credentials = some text ↔
      credentials ≠ [] ∧ credentialSequence credentials = text := by
  cases credentials <;> simp [hashedText]

theorem hashedText_eq_none {credentials : List Credential} :
    hashedText credentials = none ↔ credentials = [] := by
  cases credentials <;> simp [hashedText]

/-- Texts of pairs determine the pairs. -/
theorem credentialPairs_eq_of_map {credentials others : List Credential}
    (h : ∀ c ∈ credentials, c.Plain) (h' : ∀ c ∈ others, c.Plain)
    (heq : others.map pairText = credentials.map pairText) :
    credentialPairs others = credentialPairs credentials := by
  induction others generalizing credentials with
  | nil => rw [List.map_eq_nil_iff.mp heq.symm]
  | cons d others ih =>
    obtain ⟨c, cs, rfl, hc, hcs⟩ := List.map_eq_cons_iff.mp heq.symm
    obtain ⟨hplain, hrest⟩ := List.forall_mem_cons.mp h
    obtain ⟨hplain', hrest'⟩ := List.forall_mem_cons.mp h'
    have hpair := pair_inj hplain'.notMem_username hplain.notMem_username hc.symm
    rw [credentialPairs, credentialPairs, List.map_cons, List.map_cons, hpair]
    exact congrArg _ (ih hrest hrest' hcs.symm)

/-- Without the separators in names and passwords the text determines the pairs. -/
theorem credentialPairs_inj {credentials others : List Credential}
    (h : ∀ c ∈ credentials, c.Plain) (h' : ∀ c ∈ others, c.Plain)
    (heq : hashedText others = hashedText credentials) :
    credentialPairs others = credentialPairs credentials := by
  cases htext : hashedText credentials with
  | none =>
    rw [htext, hashedText_eq_none] at heq
    rw [hashedText_eq_none] at htext
    rw [heq, htext]
  | some text =>
    rw [htext] at heq
    obtain ⟨hne', heq'⟩ := hashedText_eq_some.mp heq
    obtain ⟨hne, rfl⟩ := hashedText_eq_some.mp htext
    rw [credentialSequence_eq, credentialSequence_eq] at heq'
    refine credentialPairs_eq_of_map h h' ?_
    have hsep : ∀ {cs : List Credential}, (∀ c ∈ cs, c.Plain) →
        ∀ text ∈ cs.map pairText, cp '\x00' ∉ text :=
      fun hcs => List.forall_mem_map.mpr fun c hc => (hcs c hc).notMem_pairText
    refine PyStr.join_inj (hsep h') (hsep h) heq' fun hnil => ?_
    rcases PyStr.join_eq_nil hnil with hmap | hmap
    · exact hne' (List.map_eq_nil_iff.mp hmap)
    · obtain ⟨c, -, hc⟩ := List.map_eq_singleton_iff.mp hmap
      simp [pairText] at hc

/-- A text has as many `\x01` as it has pairs, or more. -/
theorem length_le_count : (credentials : List Credential) →
    credentials.length ≤ (credentialSequence credentials).count (cp '\x01')
  | [] => Nat.zero_le _
  | [c] => by
      rw [credentialSequence_eq, List.map_singleton, PyStr.join_singleton, pairText,
        List.count_append, List.count_cons_self, List.length_singleton]
      omega
  | c :: d :: credentials => by
      have ih := length_le_count (d :: credentials)
      rw [credentialSequence_cons_cons, List.count_append, List.count_cons_self, List.count_append,
        List.count_cons_of_ne (by decide), List.length_cons]
      omega

/-- **Which lists have a text of their own**: the empty one, of which no text is hashed, and those
of one pair without `\x01`. -/
theorem groupsExactly_iff_single (credentials : List Credential) : GroupsExactly credentials ↔
    credentials = [] ∨ ∃ u p, credentialPairs credentials = [(u, p)] ∧
      cp '\x01' ∉ u ∧ cp '\x01' ∉ p := by
  constructor
  · intro h
    rcases credentials with _ | ⟨c, _ | ⟨d, credentials⟩⟩
    · exact .inl rfl
    · refine .inr ⟨c.username, c.password, rfl, fun hu => ?_, fun hp => ?_⟩
      · -- the name can be cut at its own separator
        obtain ⟨a, b, hab⟩ := List.append_of_mem hu
        have hpairs := h [{ c with username := a, password := b ++ cp '\x01' :: c.password }]
          (hashedText_eq_some.mpr ⟨List.cons_ne_nil _ _, by
            simp [credentialSequence, hab]⟩)
        have hlen := congrArg List.length (Prod.mk.inj (List.cons.inj hpairs).1).1
        rw [hab] at hlen
        simp at hlen
      · obtain ⟨a, b, hab⟩ := List.append_of_mem hp
        have hpairs := h [{ c with username := c.username ++ cp '\x01' :: a, password := b }]
          (hashedText_eq_some.mpr ⟨List.cons_ne_nil _ _, by
            simp [credentialSequence, hab]⟩)
        have hlen := congrArg List.length (Prod.mk.inj (List.cons.inj hpairs).1).1
        simp at hlen
    · -- two pairs or more read as one, whose password goes on to the end
      have hpairs := h [{ c with
          password := c.password ++ cp '\x00' :: credentialSequence (d :: credentials) }]
        (hashedText_eq_some.mpr ⟨List.cons_ne_nil _ _, by
          rw [credentialSequence_cons_cons]
          simp [credentialSequence]⟩)
      simp [credentialPairs] at hpairs
  · rintro (rfl | ⟨u, p, hpairs, hu, hp⟩) others hothers
    · rw [hashedText_eq_none.mp hothers]
    · obtain ⟨c, rfl, hc⟩ := List.map_eq_singleton_iff.mp hpairs
      obtain ⟨rfl, rfl⟩ := Prod.mk.inj hc
      obtain ⟨hne, heq⟩ := hashedText_eq_some.mp hothers
      have hcount : (credentialSequence [c]).count (cp '\x01') = 1 := by
        rw [credentialSequence_eq, List.map_singleton, PyStr.join_singleton, pairText,
          List.count_append, List.count_cons_self, List.count_eq_zero_of_not_mem hu,
          List.count_eq_zero_of_not_mem hp]
      have hlen := length_le_count others
      rw [heq, hcount] at hlen
      obtain ⟨d, rfl⟩ := List.length_eq_one_iff.mp
        (le_antisymm hlen (List.length_pos_iff.mpr hne))
      have htext : pairText d = pairText c := heq
      have hd : cp '\x01' ∉ d.username := by
        intro hmem
        have hone : (pairText d).count (cp '\x01') = 1 := htext ▸ hcount
        rw [pairText, List.count_append, List.count_cons_self] at hone
        have := List.count_pos_iff.mpr hmem
        omega
      exact congrArg (fun pair => [pair]) (pair_inj hd hu htext)

/-- **What the hash stands for**: a text, if there is one. Of all lists the empty one and those of
one pair without `\x01` have a text of their own; among lists without the separators in names and
passwords every one has. -/
theorem groupsExactly_iff (credentials : List Credential) :
    (∀ rt, sequenceHash rt credentials = (hashedText credentials).elim (.ok none) fun text =>
      (utf8Encode text).map fun data => some (rt.hashlib.sha1 data)) ∧
    (GroupsExactly credentials ↔ credentials = [] ∨ ∃ u p, credentialPairs credentials = [(u, p)] ∧
      cp '\x01' ∉ u ∧ cp '\x01' ∉ p) ∧
    ((∀ c ∈ credentials, c.Plain) → ∀ others : List Credential, (∀ c ∈ others, c.Plain) →
      hashedText others = hashedText credentials →
        credentialPairs others = credentialPairs credentials) :=
  ⟨fun rt => sequenceHash_eq rt credentials, groupsExactly_iff_single credentials,
    fun h _ h' heq => credentialPairs_inj h h' heq⟩

/-- Two attempts are hashed as one, the password of which goes on with the second. -/
theorem not_groupsExactly_two : ¬ GroupsExactly
    [{ username := str "root", password := str "a" },
      { username := str "admin", password := str "b" }] := by
  intro h
  have hpairs := h [{ username := str "root", password := str "a\x00admin\x01b" }] (by decide)
  exact absurd hpairs (by decide)

end C2Engine
