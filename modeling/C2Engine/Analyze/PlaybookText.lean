import C2Engine.Analyze.Playbook

/-!
# What a canonical text determines

`canonicalize_and_hash` puts the canonical commands on lines and marks the unknown commands with
`[unknown] `, so that they canonicalise apart from the others. A command can be written with that
mark itself, and a text has no line more when its only command is blank. The text of a playbook
belongs to that playbook alone exactly if its last command is not written so, its first unknown
command, if any, is blank, and it has a command that is not blank or an unknown one.

## Main definitions

* `DeterminesPlaybook`: no other playbook has the canonical text of this one.
* `Blank`, `SaysUnknown`: commands of white space, and commands that start with the mark.

## Main results

* `canonicalizeCommand_eq_nil`: what the canonical form of a blank command is.
* `saysUnknown_iff`: which canonical commands are the line of an unknown command.
* `determinesPlaybook_iff`: which playbooks their text determines.
-/

namespace C2Engine

open Python

variable {rt : Runtime}

/-- A text of nothing but white space. -/
def Blank (s : PyStr) : Prop := ∀ c ∈ s, c.isSpace

instance (s : PyStr) : Decidable (Blank s) := inferInstanceAs (Decidable (∀ c ∈ s, _))

/-- A command whose first word is the mark of unknown commands, in whatever case, and which has
another word. -/
def SaysUnknown (rt : Runtime) (cmd : PyStr) : Prop :=
  ∃ w ws, PyStr.words cmd = w :: ws ∧ ws ≠ [] ∧ rt.unicode.lower w = str "[unknown]"

/-- Every playbook with the canonical text of this one has its canonical commands. -/
def DeterminesPlaybook (rt : Runtime) (commands unknownCommands : List PyStr) : Prop :=
  ∀ commands' unknownCommands',
    canonicalText rt commands' unknownCommands' = canonicalText rt commands unknownCommands →
      commands'.map (canonicalizeCommand rt) = commands.map (canonicalizeCommand rt) ∧
        unknownCommands'.map (canonicalizeCommand rt) =
          unknownCommands.map (canonicalizeCommand rt)

/-! ### Blank commands -/

theorem canonicalWords_eq_nil (rt : Runtime) {cmd : PyStr} :
    canonicalWords rt cmd = [] ↔ Blank cmd := by
  rw [canonicalWords, List.map_eq_nil_iff, ← List.length_eq_zero_iff, length_keyWords,
    List.length_eq_zero_iff, PyStr.words_eq_nil]
  rfl

theorem canonicalizeCommand_eq_nil {cmd : PyStr} : canonicalizeCommand rt cmd = [] ↔ Blank cmd := by
  rw [← canonicalWords_eq_nil rt, ← words_canonicalizeCommand]
  constructor
  · intro h
    rw [h, PyStr.words_nil]
  · intro h
    rw [canonicalizeCommand_eq_join, ← words_canonicalizeCommand, h, PyStr.join_nil]

/-! ### The mark -/

/-- The characters of a word whose lower case is the mark. -/
theorem fold_of_lower_eq {w : PyStr} (h : rt.unicode.lower w = str "[unknown]") :
    w.map CodePoint.fold = str "[unknown]" := by
  have hascii := rt.unicode.lower_eq_ascii w (by rw [h]; decide)
  rw [h] at hascii
  exact hascii.symm

theorem notMem_of_lower_eq {w : PyStr} (h : rt.unicode.lower w = str "[unknown]") {c : CodePoint}
    (hc : c.fold ∉ str "[unknown]") : c ∉ w := by
  intro hmem
  rw [← fold_of_lower_eq h] at hc
  exact hc (List.mem_map_of_mem hmem)

/-- The words whose canonical form is the mark. -/
theorem wordForm_eq_unknown {w : PyStr} :
    wordForm rt w = str "[unknown]" ↔ rt.unicode.lower w = str "[unknown]" := by
  constructor
  · intro h
    rw [wordForm] at h
    have hnot : cp '<' ∉ wordPass rt w := notMem_of_lower_eq h (by decide)
    rwa [wordPass_eq_self_of_notMem hnot] at h
  · intro h
    have hlen : w.length = 9 := by
      have := congrArg List.length (fold_of_lower_eq h)
      rwa [List.length_map] at this
    have hcolon : w.count (cp ':') = 0 :=
      List.count_eq_zero.mpr (notMem_of_lower_eq h (by decide))
    rw [wordForm, wordPass_eq_self (by omega) (notMem_of_lower_eq h (by decide))
      (notMem_of_lower_eq h (by decide)) (by omega), h]

theorem endsInKeyType_of_lower_eq {w : PyStr} (h : rt.unicode.lower w = str "[unknown]") :
    endsInKeyType w = false := by
  cases hk : endsInKeyType w with
  | false => rfl
  | true =>
    obtain ⟨p, k, hmem, rfl⟩ := endsInKeyType_iff.mp hk
    have hall : keyTypes.all fun k => k.elem (cp 's') := by decide
    have hs : cp 's' ∈ p ++ k :=
      List.mem_append_right p (List.elem_iff.mp (List.all_eq_true.mp hall k hmem))
    exact absurd hs (notMem_of_lower_eq h (by decide))

/-- The words of a command that starts with the mark. -/
theorem canonicalWords_of_unknown {cmd w : PyStr} {ws : List PyStr}
    (hwords : PyStr.words cmd = w :: ws) (hw : rt.unicode.lower w = str "[unknown]") :
    canonicalWords rt cmd = str "[unknown]" :: (keyWords rt false ws).map (wordForm rt) := by
  rw [canonicalWords, hwords, keyWords_cons_of_not fun h => Bool.false_ne_true h.1, List.map_cons,
    wordForm_eq_unknown.mpr hw, endsInKeyType_of_lower_eq hw]

/-- The line of an unknown command that is not blank, by its words. -/
theorem tag_append_canonicalizeCommand {cmd : PyStr} (h : ¬ Blank cmd) :
    str "[unknown] " ++ canonicalizeCommand rt cmd =
      PyStr.join [cp ' '] (str "[unknown]" :: canonicalWords rt cmd) := by
  rw [canonicalizeCommand_eq_join]
  obtain ⟨w, ws, hws⟩ := List.exists_cons_of_ne_nil (mt (canonicalWords_eq_nil rt).mp h)
  rw [hws, PyStr.join_cons_cons]
  rfl

theorem saysUnknown_of_eq {cmd x : PyStr}
    (h : canonicalizeCommand rt cmd = str "[unknown] " ++ canonicalizeCommand rt x) :
    SaysUnknown rt cmd ∧ ¬ Blank x := by
  have hunknown : PyStr.Solid (str "[unknown]") ∧ str "[unknown]" ≠ [] := by
    have hall : (str "[unknown]").all fun c => !c.isSpace := by decide
    exact ⟨fun c hc => by simpa using List.all_eq_true.mp hall c hc, by decide⟩
  have hx : ¬ Blank x := by
    intro hblank
    rw [canonicalizeCommand_eq_nil.mpr hblank, List.append_nil] at h
    have hwords : canonicalWords rt cmd = [str "[unknown]"] := by
      rw [← words_canonicalizeCommand, h]
      decide
    rw [canonicalizeCommand_eq_join, hwords, PyStr.join_singleton] at h
    exact absurd h (by decide)
  refine ⟨?_, hx⟩
  have hwords : canonicalWords rt cmd = str "[unknown]" :: canonicalWords rt x := by
    rw [← words_canonicalizeCommand, h, tag_append_canonicalizeCommand hx,
      PyStr.words_join (by decide) (List.forall_mem_cons.mpr ⟨hunknown, solid_canonicalWords x⟩)]
  cases hcmd : PyStr.words cmd with
  | nil => simp [canonicalWords, hcmd, keyWords] at hwords
  | cons w ws =>
    rw [canonicalWords, hcmd, keyWords_cons_of_not fun h => Bool.false_ne_true h.1,
      List.map_cons] at hwords
    obtain ⟨hw, hrest⟩ := List.cons.inj hwords
    refine ⟨w, ws, hcmd, ?_, wordForm_eq_unknown.mp hw⟩
    rintro rfl
    exact mt (canonicalWords_eq_nil rt).mp hx hrest.symm

/-- **Which commands look like an unknown one**: those that start with the mark. -/
theorem saysUnknown_iff {cmd : PyStr} : SaysUnknown rt cmd ↔
    ∃ x, canonicalizeCommand rt cmd = str "[unknown] " ++ canonicalizeCommand rt x := by
  constructor
  · rintro ⟨w, ws, hwords, hne, hw⟩
    have hsolid : ∀ v ∈ ws, PyStr.Solid v ∧ v ≠ [] := fun v hv =>
      PyStr.solid_of_mem_words (s := cmd) (by rw [hwords]; exact List.mem_cons_of_mem w hv)
    have hx : PyStr.words (PyStr.join [cp ' '] ws) = ws := PyStr.words_join (by decide) hsolid
    refine ⟨PyStr.join [cp ' '] ws, ?_⟩
    rw [tag_append_canonicalizeCommand (by rwa [Blank, ← PyStr.words_eq_nil, hx]),
      canonicalizeCommand_eq_join, canonicalWords_of_unknown hwords hw, canonicalWords, hx]
  · rintro ⟨x, hx⟩
    exact (saysUnknown_of_eq hx).1

/-- The mark in front of a command that is not blank makes such a command. -/
theorem canonicalizeCommand_tag {x : PyStr} (hx : ¬ Blank x) :
    canonicalizeCommand rt (str "[unknown] " ++ x) =
      str "[unknown] " ++ canonicalizeCommand rt x := by
  have hwords : PyStr.words (str "[unknown] " ++ x) = str "[unknown]" :: PyStr.words x := by
    have hsplit : str "[unknown] " ++ x = str "[unknown]" ++ cp ' ' :: x := rfl
    rw [hsplit, PyStr.words_append_cons (by decide)]
    rfl
  have hlower : rt.unicode.lower (str "[unknown]") = str "[unknown]" := by
    rw [rt.unicode.lower_ascii _ (by decide)]
    decide
  rw [tag_append_canonicalizeCommand hx, canonicalizeCommand_eq_join,
    canonicalWords_of_unknown hwords hlower]
  rfl

/-! ### Texts and playbooks -/

/-- An empty text has no unknown command, and no command but a blank one. -/
theorem canonicalText_eq_nil {commands unknownCommands : List PyStr}
    (h : canonicalText rt commands unknownCommands = []) :
    unknownCommands = [] ∧ (commands = [] ∨ ∃ c, commands = [c] ∧ Blank c) := by
  have hmark : ∀ x : PyStr, str "[unknown] " ++ x ≠ [] := fun x => by simp [str_eq]
  have hlines : canonicalLines rt commands unknownCommands = [] ∨
      canonicalLines rt commands unknownCommands = [[]] := PyStr.join_eq_nil h
  rw [canonicalLines] at hlines
  have hunknown : unknownCommands = [] := by
    refine List.eq_nil_iff_forall_not_mem.mpr fun x hx => ?_
    have hmem : str "[unknown] " ++ canonicalizeCommand rt x ∈
        commands.map (canonicalizeCommand rt) ++
          unknownCommands.map fun c => str "[unknown] " ++ canonicalizeCommand rt c :=
      List.mem_append_right _ (List.mem_map_of_mem hx)
    rcases hlines with hlines | hlines
    · rw [hlines] at hmem
      cases hmem
    · rw [hlines] at hmem
      exact hmark _ (List.mem_singleton.mp hmem)
  refine ⟨hunknown, ?_⟩
  rw [hunknown, List.map_nil, List.append_nil] at hlines
  rcases hlines with hlines | hlines
  · exact .inl (List.map_eq_nil_iff.mp hlines)
  · obtain ⟨c, rest, rfl, hc, hrest⟩ := List.map_eq_cons_iff.mp hlines
    obtain rfl := List.map_eq_nil_iff.mp hrest
    exact .inr ⟨c, rfl, canonicalizeCommand_eq_nil.mp hc⟩

/-- Two playbooks with one list of lines, of which the second cannot be read in two ways. -/
theorem map_eq_of_canonicalLines_eq
    {commands unknownCommands commands' unknownCommands' : List PyStr}
    (hlast : ∀ x ∈ commands.getLast?, ¬ SaysUnknown rt x)
    (hfirst : ∀ x ∈ unknownCommands.head?, Blank x)
    (h : canonicalLines rt commands' unknownCommands' =
      canonicalLines rt commands unknownCommands) :
    commands'.map (canonicalizeCommand rt) = commands.map (canonicalizeCommand rt) ∧
      unknownCommands'.map (canonicalizeCommand rt) =
        unknownCommands.map (canonicalizeCommand rt) := by
  rcases List.append_eq_append_iff.mp h with ⟨a, hcommands, hunknown⟩ | ⟨a, hcommands, hunknown⟩
  · -- some lines of unknown commands of the first are commands of the second
    rcases List.eq_nil_or_concat a with rfl | ⟨front, l, rfl⟩
    · rw [List.append_nil] at hcommands
      exact ⟨hcommands.symm, map_eq_of_map_tag hunknown⟩
    · exfalso
      have hl : l ∈ unknownCommands'.map fun c => str "[unknown] " ++ canonicalizeCommand rt c := by
        rw [hunknown]
        simp
      obtain ⟨x, -, rfl⟩ := List.mem_map.mp hl
      have hget := congrArg List.getLast? hcommands
      rw [List.getLast?_map, List.concat_eq_append, ← List.append_assoc,
        List.getLast?_concat] at hget
      obtain ⟨c, hc, heq⟩ := Option.map_eq_some_iff.mp hget
      exact hlast c hc (saysUnknown_iff.mpr ⟨x, heq⟩)
  · -- some lines of unknown commands of the second are commands of the first
    cases a with
    | nil =>
      rw [List.append_nil] at hcommands
      exact ⟨hcommands, (map_eq_of_map_tag hunknown).symm⟩
    | cons l a =>
      exfalso
      obtain ⟨x, us, rfl, rfl, -⟩ := List.map_eq_cons_iff.mp hunknown
      have hmem : str "[unknown] " ++ canonicalizeCommand rt x ∈
          commands'.map (canonicalizeCommand rt) := by
        rw [hcommands]
        exact List.mem_append_right _ List.mem_cons_self
      obtain ⟨c, -, hc⟩ := List.mem_map.mp hmem
      exact (saysUnknown_of_eq hc).2 (hfirst x rfl)

/-- **Which playbooks their text determines.** -/
theorem determinesPlaybook_iff (rt : Runtime) (commands unknownCommands : List PyStr) :
    DeterminesPlaybook rt commands unknownCommands ↔
      (unknownCommands = [] → commands ≠ [] ∧ ∀ c, commands = [c] → ¬ Blank c) ∧
        (∀ x ∈ commands.getLast?, ¬ SaysUnknown rt x) ∧
          ∀ x ∈ unknownCommands.head?, Blank x := by
  constructor
  · intro h
    refine ⟨?_, ?_, ?_⟩
    · rintro rfl
      refine ⟨?_, ?_⟩
      · rintro rfl
        exact absurd (congrArg List.length (h [[]] [] (by
          change canonicalizeCommand rt [] = []
          exact canonicalizeCommand_eq_nil.mpr nofun)).1) (by simp)
      · rintro c rfl hblank
        exact absurd (congrArg List.length (h [] [] (by
          change [] = canonicalizeCommand rt c
          exact (canonicalizeCommand_eq_nil.mpr hblank).symm)).1) (by simp)
    · -- a last command with the mark can be moved to the unknown ones
      intro x hx hsays
      obtain ⟨front, rfl⟩ := List.getLast?_eq_some_iff.mp hx
      obtain ⟨y, hy⟩ := saysUnknown_iff.mp hsays
      have htext : canonicalText rt front (y :: unknownCommands) =
          canonicalText rt (front ++ [x]) unknownCommands := by
        rw [canonicalText, canonicalText, canonicalLines, canonicalLines, List.map_append,
          List.append_assoc, List.map_cons, List.map_singleton, hy]
        rfl
      have hlen := congrArg List.length (h _ _ htext).1
      rw [List.length_map, List.length_map, List.length_append] at hlen
      exact absurd hlen (by simp)
    · -- a first unknown command can be moved to the others, with its mark
      intro x hx
      by_contra hblank
      obtain ⟨us, rfl⟩ := List.head?_eq_some_iff.mp hx
      have htext : canonicalText rt (commands ++ [str "[unknown] " ++ x]) us =
          canonicalText rt commands (x :: us) := by
        rw [canonicalText, canonicalText, canonicalLines, canonicalLines, List.map_append,
          List.append_assoc, List.map_singleton, List.map_cons, canonicalizeCommand_tag hblank]
        rfl
      have hlen := congrArg List.length (h _ _ htext).1
      rw [List.length_map, List.length_map, List.length_append] at hlen
      exact absurd hlen (by simp)
  · rintro ⟨hnone, hlast, hfirst⟩ commands' unknownCommands' htext
    have hne : canonicalText rt commands' unknownCommands' ≠ [] := by
      intro hnil
      obtain ⟨hunknown, hcommands⟩ := canonicalText_eq_nil (htext ▸ hnil)
      obtain ⟨hsome, hblank⟩ := hnone hunknown
      rcases hcommands with hcommands | ⟨c, hcommands, hc⟩
      · exact hsome hcommands
      · exact hblank c hcommands hc
    exact map_eq_of_canonicalLines_eq hlast hfirst
      (PyStr.join_inj newline_notMem_canonicalLines newline_notMem_canonicalLines htext hne)

/-- A command written with the mark and an unknown command have one text. -/
theorem not_determinesPlaybook_unknown :
    canonicalText Runtime.basic [str "[unknown] ls"] [] =
        canonicalText Runtime.basic [] [str "ls"] ∧
      ¬ DeterminesPlaybook Runtime.basic [] [str "ls"] := by
  have htext : canonicalText Runtime.basic [str "[unknown] ls"] [] =
      canonicalText Runtime.basic [] [str "ls"] := by decide +kernel
  refine ⟨htext, fun h => ?_⟩
  have hlen := congrArg List.length (h _ _ htext).1
  cases hlen

end C2Engine
