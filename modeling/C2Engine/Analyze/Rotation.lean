import C2Engine.Analyze.Playbook
import Mathlib.Data.List.Forall2

/-!
# What a playbook keeps when an attacker rotates

The canonical text is to stay when the attacker changes addresses, names of temporary files and
SSH keys. Addresses all have one form. The names of temporary files have one form as long as they
are letters and digits, but a name may hold an address, which is replaced before the name is read;
and a key leaves twelve digits of its SHA-1 in the text. So a list of commands keeps its text under
every rotation exactly if it has no temporary file and no key whose hash another key has not.

## Main definitions

* `RotatedWords`, `Rotated`: words, and commands, that differ by a rotation.
* `SurvivesRotation`: every rotation of a playbook has its canonical text.

## Main results

* `wordForm_address`, `wordForm_path`: the form of an address and of a temporary file.
* `map_keyWords_of_rotated`: a rotation within plain names and equal hashes keeps all forms.
* `survivesRotation_iff`: which playbooks survive every rotation.
-/

namespace C2Engine

open Python

variable {rt : Runtime}

/-! ### What is rotated -/

/-- A dotted quad, with or without a port. -/
structure IsAddress (w : PyStr) : Prop where
  parts : ∃ a b c d port, w = a ++ cp '.' :: (b ++ cp '.' :: (c ++ cp '.' :: (d ++ port))) ∧
    (∀ o ∈ [a, b, c, d], IsOctet o) ∧
      (port = [] ∨ ∃ digits, port = cp ':' :: digits ∧ digits ≠ [] ∧ digits.length ≤ 5 ∧
        ∀ x ∈ digits, x.isAsciiDigit)

/-- The directories of temporary files. -/
def tmpDirs : List PyStr := [str "/tmp", str "/var/tmp", str "/dev/shm"]

/-- A character of the name of a temporary file. -/
def isNameChar (c : CodePoint) : Bool := c.isAsciiAlnum || PyStr.oneOf (str "_.-") c

/-- A file name of at least six characters. -/
def IsRandomName (name : PyStr) : Prop := 6 ≤ name.length ∧ ∀ c ∈ name, isNameChar c

instance (name : PyStr) : Decidable (IsRandomName name) :=
  decidable_of_iff (6 ≤ name.length ∧ name.all isNameChar) (by simp [IsRandomName])

/-- A word that ends in the type of a key, which nothing of a key body stands before. -/
def IsKeyTypeWord (w : PyStr) : Prop :=
  ∃ p, ∃ k ∈ keyTypes, w = p ++ k ∧ ∀ c ∈ p.getLast?, isBase64Char c = false

/-- The body of a key. -/
def IsKeyBody (w : PyStr) : Prop := 64 ≤ w.length ∧ ∀ c ∈ w, isBase64Char c

/-- Two lists of words that differ by a rotation of addresses, of the names of temporary files and
of the bodies of keys; `name` and `body` say which names and which bodies. -/
inductive RotatedWords (name : PyStr → Prop) (body : PyStr → PyStr → Prop) :
    List PyStr → List PyStr → Prop
  | nil : RotatedWords name body [] []
  | same {ws ws' : List PyStr} (w : PyStr) (h : RotatedWords name body ws ws') :
      RotatedWords name body (w :: ws) (w :: ws')
  | address {a a' : PyStr} {ws ws' : List PyStr} (ha : IsAddress a) (ha' : IsAddress a')
      (h : RotatedWords name body ws ws') : RotatedWords name body (a :: ws) (a' :: ws')
  | path {dir n n' : PyStr} {ws ws' : List PyStr} (hdir : dir ∈ tmpDirs) (hn : name n)
      (hn' : name n') (h : RotatedWords name body ws ws') :
      RotatedWords name body ((dir ++ cp '/' :: n) :: ws) ((dir ++ cp '/' :: n') :: ws')
  | key {t b b' : PyStr} {ws ws' : List PyStr} (ht : IsKeyTypeWord t) (hb : body b b')
      (h : RotatedWords name body ws ws') :
      RotatedWords name body (t :: b :: ws) (t :: b' :: ws')

/-- The white space of a text, and where words stand between it. -/
def layout (s : PyStr) : PyStr × List Bool :=
  (s.filter CodePoint.isSpace, (s.splitOnP CodePoint.isSpace).map List.isEmpty)

/-- Two commands that differ by a rotation. -/
def Rotated (cmd cmd' : PyStr) : Prop :=
  layout cmd' = layout cmd ∧ RotatedWords IsRandomName (fun b b' => IsKeyBody b ∧ IsKeyBody b')
    (PyStr.words cmd) (PyStr.words cmd')

/-- Every rotation of a playbook has its canonical text and its hash. -/
def SurvivesRotation (rt : Runtime) (commands unknownCommands : List PyStr) : Prop :=
  ∀ commands' unknownCommands', List.Forall₂ Rotated commands commands' →
    List.Forall₂ Rotated unknownCommands unknownCommands' →
      canonicalText rt commands' unknownCommands' = canonicalText rt commands unknownCommands ∧
        canonicalizeAndHash rt commands' unknownCommands' =
          canonicalizeAndHash rt commands unknownCommands

/-! ### The form of an address -/

theorem IsAddress.notMem {w : PyStr} (h : IsAddress w) {c : CodePoint}
    (hdigit : c.isAsciiDigit = false)
    (hdot : c ≠ cp '.') (hcolon : c ≠ cp ':') : c ∉ w := by
  obtain ⟨a, b, e, d, port, rfl, ho, hport⟩ := h.parts
  have hrun : ∀ {o : PyStr}, (∀ x ∈ o, x.isAsciiDigit) → c ∉ o := by
    intro o ho hc
    rw [ho c hc] at hdigit
    cases hdigit
  simp only [List.forall_mem_cons, List.not_mem_nil, false_implies, implies_true, and_true] at ho
  simp only [List.mem_append, List.mem_cons, not_or]
  refine ⟨hrun ho.1.digits, hdot, hrun ho.2.1.digits, hdot, hrun ho.2.2.1.digits, hdot,
    hrun ho.2.2.2.digits, ?_⟩
  rcases hport with rfl | ⟨digits, rfl, -, -, hdigits⟩
  · exact List.not_mem_nil
  · rw [List.mem_cons, not_or]
    exact ⟨hcolon, hrun hdigits⟩

/-- An address is one match of the pattern for addresses. -/
theorem prefers_reIpv4 (rt : Runtime) {w : PyStr} (h : IsAddress w) : ∃ d,
    Re.Prefers (Re.text rt.unicode) (reIpv4 rt.unicode) ⟨false, w, []⟩ d ∧ d.rest = [] := by
  obtain ⟨a, b, c, d, port, rfl, ho, hport⟩ := h.parts
  have hword : ∀ {x : CodePoint}, x.isAsciiDigit → (Re.text rt.unicode).isWord x := fun hx =>
    rt.unicode.isDigit_isWord _ (isDigit_of_isAsciiDigit rt.unicode hx)
  have hstop : ∀ {x : CodePoint}, x.isAscii → x.isAsciiDigit = false → ∀ {s : PyStr},
      ∀ y ∈ (x :: s).head?, rt.unicode.isDigit y = false := by
    rintro x hx hdigit s y ⟨⟩
    exact isDigit_eq_false hx hdigit
  -- an octet and the dot behind it
  have hoctet : ∀ {o : PyStr}, IsOctet o → ∀ (prevWord : Bool) (rest : PyStr),
      Re.Prefers (Re.text rt.unicode)
        (.seq (.between (.set rt.unicode.isDigit) 1 3) (.char (cp '.')))
        ⟨prevWord, o ++ cp '.' :: rest, []⟩ ⟨(Re.text rt.unicode).isWord (cp '.'), rest, []⟩ :=
    fun ho prevWord rest => .seq
      (.between_set (n := 2) ho.ne_nil ho.length_le
        (fun x hx => isDigit_of_isAsciiDigit rt.unicode (ho.digits x hx))
        (hstop (by decide) (by decide)) prevWord [])
      (.set (beq_self_eq_true _))
  simp only [List.forall_mem_cons, List.not_mem_nil, false_implies, implies_true, and_true] at ho
  obtain ⟨ha, hb, hc, hd⟩ := ho
  -- the word boundary before the first octet
  have hstart : Re.Prefers (Re.text rt.unicode) .wordB
      ⟨false, a ++ cp '.' :: (b ++ cp '.' :: (c ++ cp '.' :: (d ++ port))), []⟩
      ⟨false, a ++ cp '.' :: (b ++ cp '.' :: (c ++ cp '.' :: (d ++ port))), []⟩ := by
    refine .wordB ?_
    obtain ⟨x, a, rfl⟩ := List.exists_cons_of_ne_nil ha.ne_nil
    change false ≠ (Re.text rt.unicode).isWord x
    rw [hword (ha.digits x List.mem_cons_self)]
    exact Bool.false_ne_true
  have hthree := (hoctet ha false _).seq
    ((hoctet hb _ (c ++ cp '.' :: (d ++ port))).seq (hoctet hc _ (d ++ port)))
  have hlast : ∀ (prevWord : Bool), (∀ y ∈ port.head?, rt.unicode.isDigit y = false) →
      Re.Prefers (Re.text rt.unicode) (.between (.set rt.unicode.isDigit) 1 3)
        ⟨prevWord, d ++ port, []⟩ ⟨true, port, []⟩ := by
    intro prevWord hrest
    have hend := Re.wordAfter_of_forall (A := Re.text rt.unicode) hd.ne_nil
      (fun x hx => hword (hd.digits x hx)) prevWord
    have h := Re.Prefers.between_set (A := Re.text rt.unicode) (n := 2) hd.ne_nil hd.length_le
      (fun x hx => isDigit_of_isAsciiDigit rt.unicode (hd.digits x hx)) hrest prevWord []
    rwa [hend] at h
  have hend : Re.Prefers (Re.text rt.unicode) .wordB ⟨true, [], []⟩ ⟨true, [], []⟩ :=
    .wordB (by simp)
  rcases hport with rfl | ⟨digits, rfl, hne, hlen, hdigits⟩
  · have hnone : Re.run (Re.text rt.unicode)
        (.seq (.char (cp ':')) (.between (.set rt.unicode.isDigit) 1 5)) ⟨true, [], []⟩ = [] := rfl
    exact ⟨_, hstart.seq (hthree.seq ((hlast _ nofun).seq ((Re.Prefers.right hnone (.eps _)).seq
      hend))), rfl⟩
  · have hnone : ∀ x ∈ ([] : PyStr).head?, rt.unicode.isDigit x = false := fun x hx => by
      cases hx
    have hport := Re.Prefers.between_set (A := Re.text rt.unicode) (n := 4) hne hlen
      (fun x hx => isDigit_of_isAsciiDigit rt.unicode (hdigits x hx)) hnone
      ((Re.text rt.unicode).isWord (cp ':')) []
    rw [Re.wordAfter_of_forall hne (fun x hx => hword (hdigits x hx)), List.append_nil] at hport
    have hcolon : Re.Prefers (Re.text rt.unicode)
        (.seq (.char (cp ':')) (.between (.set rt.unicode.isDigit) 1 5))
        ⟨true, cp ':' :: digits, []⟩ ⟨true, [], []⟩ := .seq (.set (beq_self_eq_true _)) hport
    exact ⟨_, hstart.seq (hthree.seq ((hlast _ (hstop (by decide) (by decide))).seq
      ((Re.Prefers.left hcolon).seq hend))), rfl⟩

theorem IsAddress.ne_nil {w : PyStr} (h : IsAddress w) : w ≠ [] := by
  obtain ⟨a, b, c, d, port, rfl, -⟩ := h.parts
  simp

theorem sub_reIpv4_of_isAddress {w : PyStr} (h : IsAddress w) :
    Re.sub (Re.text rt.unicode) (reIpv4 rt.unicode) (fun _ => str "<IP>") w = str "<IP>" := by
  obtain ⟨x, xs, rfl⟩ := List.exists_cons_of_ne_nil h.ne_nil
  obtain ⟨d, hd, hrest⟩ := prefers_reIpv4 rt h
  exact Re.sub_of_prefers hd hrest

theorem IsAddress.count_colon {w : PyStr} (h : IsAddress w) : w.count (cp ':') ≤ 1 := by
  obtain ⟨a, b, c, d, port, rfl, ho, hport⟩ := h.parts
  have hrun : ∀ {o : PyStr}, (∀ x ∈ o, x.isAsciiDigit) → o.count (cp ':') = 0 := by
    intro o ho
    refine List.count_eq_zero.mpr fun hmem => ?_
    exact absurd (ho _ hmem) (by decide)
  have hdot : (cp '.' == cp ':') = false := by decide
  have hport : port.count (cp ':') ≤ 1 := by
    rcases hport with rfl | ⟨digits, rfl, -, -, hdigits⟩
    · exact Nat.zero_le 1
    · rw [List.count_cons_self, hrun hdigits]
  simp only [List.forall_mem_cons, List.not_mem_nil, false_implies, implies_true, and_true] at ho
  simp only [List.count_append, List.count_cons, hdot, hrun ho.1.digits, hrun ho.2.1.digits,
    hrun ho.2.2.1.digits, hrun ho.2.2.2.digits]
  simpa using hport

/-- **The form of an address.** -/
theorem wordForm_address {w : PyStr} (h : IsAddress w) : wordForm rt w = str "<ip>" := by
  have hslash : cp '/' ∉ w := h.notMem (by decide) (by decide) (by decide)
  have hpass : wordPass rt w = str "<IP>" := by
    simp only [wordPass]
    rw [Re.sub_eq_self_of_notMem (demands_reCanonUrl (.inr rfl)) hslash,
      sub_reCanonIpv6_of_count h.count_colon, sub_reIpv4_of_isAddress h,
      Re.sub_eq_self_of_notMem demands_reTmpRand (by decide),
      sub_reB64Blob_of_length (by decide)]
  rw [wordForm, hpass, rt.unicode.lower_ascii _ (by decide)]
  decide

/-! ### The form of a temporary file -/

/-- A name of six to fifty letters and digits. -/
structure IsPlainName (name : PyStr) : Prop where
  six_le : 6 ≤ name.length
  le_fifty : name.length ≤ 50
  alnum : ∀ c ∈ name, c.isAsciiAlnum

instance (name : PyStr) : Decidable (IsPlainName name) :=
  decidable_of_iff (6 ≤ name.length ∧ name.length ≤ 50 ∧ name.all CodePoint.isAsciiAlnum)
    ⟨fun ⟨h₁, h₂, h₃⟩ => ⟨h₁, h₂, List.all_eq_true.mp h₃⟩,
      fun ⟨h₁, h₂, h₃⟩ => ⟨h₁, h₂, List.all_eq_true.mpr h₃⟩⟩

theorem IsPlainName.notMem {name : PyStr} (h : IsPlainName name) {c : CodePoint}
    (hc : c.isAsciiAlnum = false) : c ∉ name := by
  intro hmem
  rw [h.alnum c hmem] at hc
  cases hc

theorem tmpDirs_spec {dir : PyStr} (h : dir ∈ tmpDirs) : dir.length ≤ 8 ∧ cp ':' ∉ dir ∧
    cp '.' ∉ dir ∧ cp '-' ∉ dir ∧ dir.all CodePoint.isAscii ∧
      dir.map CodePoint.asciiLower = dir := by
  simp only [tmpDirs, List.mem_cons, List.not_mem_nil, or_false] at h
  rcases h with rfl | rfl | rfl <;> decide

theorem lower_path {dir s : PyStr} (hdir : dir ∈ tmpDirs) (hs : s.all CodePoint.isAscii) :
    rt.unicode.lower (dir ++ s) = dir ++ s.map CodePoint.asciiLower := by
  obtain ⟨-, -, -, -, hascii, hlower⟩ := tmpDirs_spec hdir
  rw [rt.unicode.lower_ascii _ (by rw [List.all_append, hascii, hs]; rfl), List.map_append, hlower]

/-- A plain path is one match of the pattern for temporary files. -/
theorem sub_reTmpRand_of_plain {dir name : PyStr} (hdir : dir ∈ tmpDirs)
    (hname : IsPlainName name) :
    Re.sub (Re.text rt.unicode) reTmpRand tmpRepl (dir ++ cp '/' :: name) =
      dir ++ str "/<RAND>" := by
  -- the directory
  have hoptions : ∃ b, Re.Prefers (Re.text rt.unicode)
      (.oneOf [.lit (str "/tmp"), .lit (str "/var/tmp"), .lit (str "/dev/shm")])
      ⟨false, dir ++ cp '/' :: name, []⟩ ⟨b, cp '/' :: name, []⟩ := by
    simp only [tmpDirs, List.mem_cons, List.not_mem_nil, or_false] at hdir
    rcases hdir with rfl | rfl | rfl
    · refine ⟨Re.wordAfter (Re.text rt.unicode) false (str "/tmp"), .left ?_⟩
      rw [Re.Prefers, Re.run_lit]
      rfl
    · refine ⟨Re.wordAfter (Re.text rt.unicode) false (str "/var/tmp"), .right ?_ (.left ?_)⟩
      · rw [Re.run_lit]
        rfl
      · rw [Re.Prefers, Re.run_lit]
        rfl
    · refine ⟨Re.wordAfter (Re.text rt.unicode) false (str "/dev/shm"), .right ?_ (.right ?_ ?_)⟩
      · rw [Re.run_lit]
        rfl
      · rw [Re.run_lit]
        rfl
      · change Re.Prefers _ (.lit (str "/dev/shm")) _ _
        rw [Re.Prefers, Re.run_lit]
        rfl
  obtain ⟨b, hfront⟩ := hoptions
  -- no dot in front of the name
  have hdot : Re.run (Re.text rt.unicode) (.char (cp '.'))
      ⟨(Re.text rt.unicode).isWord (cp '/'), name, []⟩ = [] := by
    obtain ⟨x, name, rfl⟩ := List.exists_cons_of_ne_nil
      (List.ne_nil_of_length_pos (Nat.lt_of_lt_of_le (by omega) hname.six_le))
    have hx : (x == cp '.') = false := by
      rw [beq_eq_false_iff_ne]
      rintro rfl
      exact absurd (hname.alnum _ List.mem_cons_self) (by decide)
    simp [Re.char, Re.run, hx]
  have hchars : ∀ c ∈ name, isNameChar c := fun c hc => by
    rw [isNameChar, hname.alnum c hc, Bool.true_or]
  have hstop : ∀ c ∈ ([] : PyStr).head?, isNameChar c = false := fun c hc => by cases hc
  obtain ⟨e, hend⟩ := Re.Prefers.atLeast_set (A := Re.text rt.unicode) hname.six_le hchars hstop
    ((Re.text rt.unicode).isWord (cp '/')) []
  rw [List.append_nil] at hend
  have hall : Re.Prefers (Re.text rt.unicode) reTmpRand ⟨false, dir ++ cp '/' :: name, []⟩
      ⟨e, [], []⟩ :=
    hfront.seq ((Re.Prefers.set (beq_self_eq_true _)).seq
      ((Re.Prefers.right hdot (.eps _)).seq hend))
  obtain ⟨x, xs, hcons⟩ := List.exists_cons_of_ne_nil
    (show dir ++ cp '/' :: name ≠ [] by simp)
  rw [hcons] at hall ⊢
  rw [Re.sub_of_prefers hall rfl, tmpRepl, ← hcons,
    PyStr.rpartition_append_cons dir (hname.notMem (by decide))]

/-- **The form of a temporary file** with a plain name. -/
theorem wordForm_path {dir name : PyStr} (hdir : dir ∈ tmpDirs) (hname : IsPlainName name) :
    wordForm rt (dir ++ cp '/' :: name) = dir ++ str "/<rand>" := by
  obtain ⟨hlen, hcolon, hdot, -⟩ := tmpDirs_spec hdir
  have hnot : ∀ {c : CodePoint}, c ∉ dir → c ≠ cp '/' → c.isAsciiAlnum = false →
      c ∉ dir ++ cp '/' :: name := by
    intro c hd hs hc
    rw [List.mem_append, List.mem_cons, not_or, not_or]
    exact ⟨hd, hs, hname.notMem hc⟩
  have hcolon' := hnot hcolon (by decide) (by decide)
  have hpass : wordPass rt (dir ++ cp '/' :: name) = dir ++ str "/<RAND>" := by
    simp only [wordPass]
    rw [Re.sub_eq_self_of_notMem (demands_reCanonUrl (.inl rfl)) hcolon',
      sub_reCanonIpv6_of_count (by rw [List.count_eq_zero.mpr hcolon']; omega),
      sub_reIpv4_of_notMem (hnot hdot (by decide) (by decide)),
      sub_reTmpRand_of_plain hdir hname, sub_reB64Blob_of_length (by
        have hback : (str "/<RAND>").length = 7 := by decide
        rw [List.length_append]
        omega)]
  rw [wordForm, hpass, lower_path hdir (by decide)]
  rfl

/-- The form of a temporary file whose name is an address. -/
theorem wordForm_path_address {dir : PyStr} (hdir : dir ∈ tmpDirs) :
    wordForm rt (dir ++ cp '/' :: str "1.2.3.4") = dir ++ str "/<ip>" := by
  obtain ⟨hlen, hcolon, hdot, -⟩ := tmpDirs_spec hdir
  have haddress : IsAddress (str "1.2.3.4") :=
    ⟨str "1", str "2", str "3", str "4", [], rfl, by decide, .inl rfl⟩
  have hcolon' : cp ':' ∉ dir ++ cp '/' :: str "1.2.3.4" := by
    rw [List.mem_append, not_or]
    exact ⟨hcolon, by decide⟩
  have hslash : (reIpv4 rt.unicode).Local (cp '/') := by
    have hdigit : rt.unicode.isDigit (cp '/') = false := isDigit_eq_false (by decide) (by decide)
    have hne : (cp '/' == cp '.') = false ∧ (cp '/' == cp ':') = false := by decide
    simp [reIpv4, Re.cat, Re.opt, Re.between, Re.times, Re.upTo, Re.char, Re.Local, hdigit, hne]
  have hword : (Re.text rt.unicode).isWord (cp '/') = false :=
    rt.unicode.isWord_ascii (cp '/') (by decide)
  have htmp : Re.sub (Re.text rt.unicode) reTmpRand tmpRepl (dir ++ cp '/' :: str "<IP>") =
      dir ++ cp '/' :: str "<IP>" := by
    have hplain : reTmpRand.Plain := by
      simp [reTmpRand, Re.cat, Re.oneOf, Re.opt, Re.atLeast, Re.times, Re.char, Re.Plain,
        Re.plain_lit]
    rw [Re.sub, Re.subGo_plain (B := Re.text .basic) hplain _ _ false false]
    simp only [tmpDirs, List.mem_cons, List.not_mem_nil, or_false] at hdir
    rcases hdir with rfl | rfl | rfl <;> decide +kernel
  have hpass : wordPass rt (dir ++ cp '/' :: str "1.2.3.4") = dir ++ cp '/' :: str "<IP>" := by
    simp only [wordPass]
    rw [Re.sub_eq_self_of_notMem (demands_reCanonUrl (.inl rfl)) hcolon',
      sub_reCanonIpv6_of_count (by rw [List.count_eq_zero.mpr hcolon']; omega),
      Re.sub_append hword hslash (by rw [minLen_reIpv4]; omega), sub_reIpv4_of_notMem hdot,
      sub_reIpv4_of_isAddress haddress, htmp, sub_reB64Blob_of_length (by
        have hback : (cp '/' :: str "<IP>").length = 5 := by decide
        rw [List.length_append]
        omega)]
  rw [wordForm, hpass, lower_path hdir (by decide)]
  rfl

/-! ### The form of a key -/

/-- A key body is replaced by its hash. -/
theorem hashKeyBody_of_isKeyBody {b : PyStr} (hb : IsKeyBody b) :
    hashKeyBody rt b = str "<SSH_KEY:" ++ hashShort rt b ++ str ">" := by
  have htake : b.takeWhile isBase64Char = b := List.takeWhile_eq_self_iff.mpr hb.2
  have hdrop : b.dropWhile isBase64Char = [] := List.dropWhile_eq_nil_iff.mpr hb.2
  rw [hashKeyBody, htake, hdrop, List.append_nil]

/-- The form of the hash of a key. -/
theorem wordForm_keyHash (text : PyStr) :
    wordForm rt (str "<SSH_KEY:" ++ hashShort rt text ++ str ">") =
      str "<ssh_key:" ++ hashShort rt text ++ str ">" := by
  have hnot : ∀ {c : CodePoint}, ¬ ((48 ≤ c.val ∧ c.val ≤ 57) ∨ (97 ≤ c.val ∧ c.val ≤ 102)) →
      c ∉ hashShort rt text := fun hc hmem => hc (hex_of_mem_hashShort hmem)
  have hlen : (hashShort rt text).length = 12 := by
    rw [hashShort, List.length_take, rt.hashlib.length_sha1]
    rfl
  have hcount : (str "<SSH_KEY:" ++ hashShort rt text ++ str ">").count (cp ':') ≤ 1 := by
    rw [List.count_append, List.count_append, List.count_eq_zero.mpr (hnot (by decide))]
    decide
  have hpass : wordPass rt (str "<SSH_KEY:" ++ hashShort rt text ++ str ">") =
      str "<SSH_KEY:" ++ hashShort rt text ++ str ">" := by
    refine wordPass_eq_self hcount ?_ ?_ ?_
    · simp only [List.mem_append, not_or]
      exact ⟨⟨by decide, hnot (by decide)⟩, by decide⟩
    · simp only [List.mem_append, not_or]
      exact ⟨⟨by decide, hnot (by decide)⟩, by decide⟩
    · have hfront : (str "<SSH_KEY:").length = 9 := by decide
      have hback : (str ">").length = 1 := by decide
      rw [List.length_append, List.length_append, hlen]
      omega
  have hascii : (hashShort rt text).all CodePoint.isAscii := by
    refine List.all_eq_true.mpr fun c hc => decide_eq_true (show c.val < 128 from ?_)
    rcases hex_of_mem_hashShort hc with h | h <;> omega
  have hlower : (hashShort rt text).map CodePoint.asciiLower = hashShort rt text := by
    conv_rhs => rw [← List.map_id (hashShort rt text)]
    refine List.map_congr_left fun c hc => ?_
    have hup : ¬ c.between 'A' 'Z' = true := by
      intro hup
      have hrange : 65 ≤ c.val ∧ c.val ≤ 90 := by simpa [CodePoint.between] using hup
      rcases hex_of_mem_hashShort hc with h | h <;> omega
    rw [CodePoint.asciiLower, dif_neg hup]
    rfl
  rw [wordForm, hpass, rt.unicode.lower_ascii _ (by
    rw [List.all_append, List.all_append, hascii]
    decide), List.map_append, List.map_append, hlower]
  rfl

/-! ### Rotations that keep the text -/

theorem endsInKeyType_of_notMem {w : PyStr} {c : CodePoint} (hc : c = cp 's' ∨ c = cp '-')
    (h : c ∉ w) : endsInKeyType w = false := by
  cases hk : endsInKeyType w with
  | false => rfl
  | true =>
    obtain ⟨p, k, hmem, rfl⟩ := endsInKeyType_iff.mp hk
    have hall : keyTypes.all fun k => k.elem (cp 's') && k.elem (cp '-') := by decide
    have hboth := List.all_eq_true.mp hall k hmem
    rw [Bool.and_eq_true, List.elem_iff, List.elem_iff] at hboth
    refine absurd (List.mem_append_right p ?_) h
    rcases hc with rfl | rfl
    · exact hboth.1
    · exact hboth.2

theorem not_startsKeyBody_of_length {w : PyStr} (h : w.length < 64) : ¬ startsKeyBody w := by
  intro hw
  have hlen : 64 ≤ (w.takeWhile isBase64Char).length := of_decide_eq_true hw
  have hle := (List.takeWhile_sublist isBase64Char (l := w)).length_le
  omega

theorem IsAddress.length_lt {w : PyStr} (h : IsAddress w) : w.length < 64 := by
  obtain ⟨a, b, c, d, port, rfl, ho, hport⟩ := h.parts
  simp only [List.forall_mem_cons, List.not_mem_nil, false_implies, implies_true, and_true] at ho
  have hport : port.length ≤ 6 := by
    rcases hport with rfl | ⟨digits, rfl, -, hlen, -⟩
    · exact Nat.zero_le 6
    · exact Nat.succ_le_succ hlen
  have ha := ho.1.length_le
  have hb := ho.2.1.length_le
  have hc := ho.2.2.1.length_le
  have hd := ho.2.2.2.length_le
  simp only [List.length_append, List.length_cons]
  omega

/-- The flag behind a word for the type of a key. -/
theorem IsKeyTypeWord.keyWords_cons {t : PyStr} (h : IsKeyTypeWord t) (rt : Runtime)
    (pending : Bool) :
    ∃ t', ∀ ws, keyWords rt pending (t :: ws) = t' :: keyWords rt true ws := by
  obtain ⟨p, k, hk, rfl, hp⟩ := h
  have hends : endsInKeyType (p ++ k) := endsInKeyType_iff.mpr ⟨p, k, hk, rfl⟩
  by_cases hkey : pending ∧ startsKeyBody (p ++ k)
  · refine ⟨hashKeyBody rt (p ++ k), fun ws => ?_⟩
    have hdrop : endsInKeyType ((p ++ k).dropWhile isBase64Char) := by
      rcases List.eq_nil_or_concat p with rfl | ⟨front, x, rfl⟩
      · have hall : keyTypes.all fun k => decide (k.length < 64) := by decide
        have hlen : k.length < 64 := of_decide_eq_true (List.all_eq_true.mp hall k hk)
        exact absurd hkey.2 (not_startsKeyBody_of_length hlen)
      · have hx : isBase64Char x = false := hp x (by simp)
        have hne : ¬ ((front.concat x).dropWhile isBase64Char).isEmpty := by
          rw [List.isEmpty_iff, List.dropWhile_eq_nil_iff]
          intro hall
          have := hall x (by simp)
          rw [hx] at this
          cases this
        rw [List.dropWhile_append, if_neg hne]
        exact endsInKeyType_iff.mpr ⟨_, k, hk, rfl⟩
    rw [keyWords_cons_of hkey.1 hkey.2, hdrop]
  · exact ⟨p ++ k, fun ws => by rw [keyWords_cons_of_not hkey, hends]⟩

theorem IsKeyBody.startsKeyBody {b : PyStr} (hb : IsKeyBody b) : startsKeyBody b := by
  have htake : b.takeWhile isBase64Char = b := List.takeWhile_eq_self_iff.mpr hb.2
  exact decide_eq_true (by rw [htake]; exact hb.1)

/-- The words from the body of a key on. -/
theorem IsKeyBody.keyWords_cons {b : PyStr} (hb : IsKeyBody b) (ws : List PyStr) :
    keyWords rt true (b :: ws) =
      (str "<SSH_KEY:" ++ hashShort rt b ++ str ">") :: keyWords rt false ws := by
  have hdrop : b.dropWhile isBase64Char = [] := List.dropWhile_eq_nil_iff.mpr hb.2
  rw [keyWords_cons_of rfl hb.startsKeyBody, hashKeyBody_of_isKeyBody hb, hdrop,
    endsInKeyType_nil]

/-- **A rotation that keeps the forms.** Addresses, plain names and key bodies with one hash can be
changed. -/
theorem map_keyWords_of_rotated {ws ws' : List PyStr}
    (h : RotatedWords IsPlainName
      (fun b b' => IsKeyBody b ∧ IsKeyBody b' ∧ hashShort rt b = hashShort rt b') ws ws')
    (pending : Bool) :
    (keyWords rt pending ws).map (wordForm rt) = (keyWords rt pending ws').map (wordForm rt) := by
  induction h generalizing pending with
  | nil => rfl
  | same w _ ih =>
    rw [keyWords, keyWords]
    split_ifs
    · rw [List.map_cons, List.map_cons, ih]
    · rw [List.map_cons, List.map_cons, ih]
  | address ha ha' _ ih =>
    have hs : ∀ {a : PyStr}, IsAddress a → endsInKeyType a = false := fun ha =>
      endsInKeyType_of_notMem (.inl rfl) (ha.notMem (by decide) (by decide) (by decide))
    rw [keyWords_cons_of_not fun h => not_startsKeyBody_of_length ha.length_lt h.2,
      keyWords_cons_of_not fun h => not_startsKeyBody_of_length ha'.length_lt h.2, hs ha, hs ha',
      List.map_cons, List.map_cons, ih, wordForm_address ha, wordForm_address ha']
  | @path dir n n' ws ws' hdir hn hn' _ ih =>
    obtain ⟨hlen, -, -, hdash, -⟩ := tmpDirs_spec hdir
    have hshort : ∀ {n : PyStr}, IsPlainName n → (dir ++ cp '/' :: n).length < 64 := by
      intro n hn
      have := hn.le_fifty
      rw [List.length_append, List.length_cons]
      omega
    have hs : ∀ {n : PyStr}, IsPlainName n → endsInKeyType (dir ++ cp '/' :: n) = false := by
      intro n hn
      refine endsInKeyType_of_notMem (.inr rfl) ?_
      rw [List.mem_append, List.mem_cons, not_or, not_or]
      exact ⟨hdash, by decide, hn.notMem (by decide)⟩
    rw [keyWords_cons_of_not fun h => not_startsKeyBody_of_length (hshort hn) h.2,
      keyWords_cons_of_not fun h => not_startsKeyBody_of_length (hshort hn') h.2, hs hn, hs hn',
      List.map_cons, List.map_cons, ih, wordForm_path hdir hn, wordForm_path hdir hn']
  | @key t b b' ws ws' ht hb _ ih =>
    obtain ⟨t', ht'⟩ := ht.keyWords_cons rt pending
    rw [ht', ht', hb.1.keyWords_cons, hb.2.1.keyWords_cons, hb.2.2, List.map_cons, List.map_cons,
      List.map_cons, List.map_cons, ih]

/-! ### Rotations that change the text -/

/-- A command of which no rotation shows: it has no file in a directory of temporary files, and
every key body has the hash of each of its keys. -/
structure OnlyAddresses (rt : Runtime) (cmd : PyStr) : Prop where
  noPath : ∀ dir ∈ tmpDirs, ∀ name, IsRandomName name → dir ++ cp '/' :: name ∉ PyStr.words cmd
  oneHash : ∀ t b, [t, b] <:+: PyStr.words cmd → IsKeyTypeWord t → IsKeyBody b →
    ∀ b', IsKeyBody b' → hashShort rt b = hashShort rt b'

/-- A rotation within such a command keeps the forms. -/
theorem RotatedWords.plain {ws ws' : List PyStr}
    (h : RotatedWords IsRandomName (fun b b' => IsKeyBody b ∧ IsKeyBody b') ws ws')
    (hpath : ∀ dir ∈ tmpDirs, ∀ name, IsRandomName name → dir ++ cp '/' :: name ∉ ws)
    (hhash : ∀ t b, [t, b] <:+: ws → IsKeyTypeWord t → IsKeyBody b →
      ∀ b', IsKeyBody b' → hashShort rt b = hashShort rt b') :
    RotatedWords IsPlainName
      (fun b b' => IsKeyBody b ∧ IsKeyBody b' ∧ hashShort rt b = hashShort rt b') ws ws' := by
  induction h with
  | nil => exact .nil
  | same w _ ih =>
    exact .same w (ih (fun dir hdir name hname hmem =>
        hpath dir hdir name hname (List.mem_cons_of_mem w hmem))
      fun t b htb => hhash t b (htb.trans (List.suffix_cons w _).isInfix))
  | @address a a' ws ws' ha ha' _ ih =>
    exact .address ha ha' (ih (fun dir hdir name hname hmem =>
        hpath dir hdir name hname (List.mem_cons_of_mem a hmem))
      fun t b htb => hhash t b (htb.trans (List.suffix_cons a _).isInfix))
  | path hdir hn _ _ _ => exact absurd List.mem_cons_self (hpath _ hdir _ hn)
  | @key t b b' ws ws' ht hb _ ih =>
    exact .key ht ⟨hb.1, hb.2, hhash t b (List.prefix_append [t, b] ws).isInfix ht hb.1 b' hb.2⟩
      (ih (fun dir hdir name hname hmem =>
          hpath dir hdir name hname (List.mem_cons_of_mem t (List.mem_cons_of_mem b hmem)))
        fun t' b' htb => hhash t' b' (htb.trans (List.suffix_append [t, b] ws).isInfix))

theorem RotatedWords.refl {name : PyStr → Prop} {body : PyStr → PyStr → Prop} :
    (ws : List PyStr) → RotatedWords name body ws ws
  | [] => .nil
  | w :: ws => .same w (refl ws)

theorem RotatedWords.append {name : PyStr → Prop} {body : PyStr → PyStr → Prop}
    {ws ws' : List PyStr} (h : RotatedWords name body ws ws') :
    (front : List PyStr) → RotatedWords name body (front ++ ws) (front ++ ws')
  | [] => h
  | w :: front => .same w (append h front)

theorem Rotated.refl (cmd : PyStr) : Rotated cmd cmd := ⟨rfl, .refl _⟩

theorem layout_append_cons {w : PyStr} (hw : PyStr.Solid w) {c : CodePoint} (hc : c.isSpace)
    (t : PyStr) : layout (w ++ c :: t) = (c :: (layout t).1, w.isEmpty :: (layout t).2) := by
  have hfilter : w.filter CodePoint.isSpace = [] :=
    List.filter_eq_nil_iff.mpr fun x hx => by rw [hw x hx]; exact Bool.false_ne_true
  rw [layout, List.filter_append, hfilter, List.splitOnP_append_cons w t hc,
    List.splitOnP_eq_singleton hw, List.nil_append, List.filter_cons_of_pos hc]
  rfl

theorem layout_solid {w : PyStr} (hw : PyStr.Solid w) : layout w = ([], [w.isEmpty]) := by
  have hfilter : w.filter CodePoint.isSpace = [] :=
    List.filter_eq_nil_iff.mpr fun x hx => by rw [hw x hx]; exact Bool.false_ne_true
  rw [layout, hfilter, List.splitOnP_eq_singleton hw]
  rfl

/-- A word can be put in the place of another. -/
theorem exists_layout_eq {cmd : PyStr} {front back : List PyStr} {w v : PyStr}
    (h : PyStr.words cmd = front ++ w :: back) (hv : PyStr.Solid v) (hne : v ≠ []) :
    ∃ cmd', layout cmd' = layout cmd ∧ PyStr.words cmd' = front ++ v :: back := by
  generalize hn : cmd.length = n
  induction n using Nat.strong_induction_on generalizing cmd front with
  | _ n ih =>
    rcases PyStr.solid_or_split cmd with hs | ⟨u, c, t, rfl, hu, hc⟩
    · rcases eq_or_ne cmd [] with rfl | hcmd
      · simp at h
      · rw [PyStr.words_solid hs hcmd] at h
        obtain ⟨rfl, hrest⟩ : front = [] ∧ cmd = w ∧ back = [] := by
          cases front with
          | nil =>
            obtain ⟨hw, hback⟩ := List.cons.inj h
            exact ⟨rfl, hw, hback.symm⟩
          | cons x front => simp at h
        refine ⟨v, ?_, ?_⟩
        · rw [layout_solid hv, layout_solid hs, List.isEmpty_eq_false_iff.mpr hne,
            List.isEmpty_eq_false_iff.mpr hcmd]
        · rw [PyStr.words_solid hv hne, hrest.2, List.nil_append]
    · have hlt : t.length < n := by
        rw [← hn, List.length_append, List.length_cons]
        omega
      rcases eq_or_ne u [] with rfl | hune
      · rw [List.nil_append, PyStr.words_cons hc] at h
        obtain ⟨t', hlayout, hwords⟩ := ih _ hlt h rfl
        refine ⟨[] ++ c :: t', ?_, ?_⟩
        · rw [layout_append_cons hu hc, layout_append_cons hu hc, hlayout]
        · rw [List.nil_append, PyStr.words_cons hc, hwords]
      · rw [PyStr.words_solid_append_cons hu hune hc] at h
        cases front with
        | nil =>
          obtain ⟨rfl, hback⟩ := List.cons.inj h
          refine ⟨v ++ c :: t, ?_, ?_⟩
          · rw [layout_append_cons hv hc, layout_append_cons hu hc,
              List.isEmpty_eq_false_iff.mpr hne, List.isEmpty_eq_false_iff.mpr hune]
          · rw [PyStr.words_solid_append_cons hv hne hc, hback, List.nil_append]
        | cons x front =>
          obtain ⟨rfl, hrest⟩ := List.cons.inj h
          obtain ⟨t', hlayout, hwords⟩ := ih _ hlt hrest rfl
          refine ⟨u ++ c :: t', ?_, ?_⟩
          · rw [layout_append_cons hu hc, layout_append_cons hu hc, hlayout]
          · rw [PyStr.words_solid_append_cons hu hune hc, hwords, List.cons_append]

/-- The words in front of a place, and the flag that is set there. -/
theorem exists_keyWords_append (rt : Runtime) (pending : Bool) (front : List PyStr) :
    ∃ (front' : List PyStr) (flag : Bool), ∀ back : List PyStr,
      keyWords rt pending (front ++ back) = front' ++ keyWords rt flag back := by
  induction front generalizing pending with
  | nil => exact ⟨[], pending, fun back => rfl⟩
  | cons w front ih =>
    by_cases hkey : pending ∧ startsKeyBody w
    · obtain ⟨front', flag, h⟩ := ih (endsInKeyType (w.dropWhile isBase64Char))
      exact ⟨hashKeyBody rt w :: front', flag, fun back => by
        rw [List.cons_append, keyWords_cons_of hkey.1 hkey.2, h, List.cons_append]⟩
    · obtain ⟨front', flag, h⟩ := ih (endsInKeyType w)
      exact ⟨w :: front', flag, fun back => by
        rw [List.cons_append, keyWords_cons_of_not hkey, h, List.cons_append]⟩

/-- Every command with the name of a temporary file has a rotation with another canonical form. -/
theorem exists_rotated_of_path (rt : Runtime) {cmd dir name : PyStr} (hdir : dir ∈ tmpDirs)
    (hname : IsRandomName name) (hmem : dir ++ cp '/' :: name ∈ PyStr.words cmd) :
    ∃ cmd', Rotated cmd cmd' ∧ canonicalizeCommand rt cmd' ≠ canonicalizeCommand rt cmd := by
  obtain ⟨front, back, hwords⟩ := List.mem_iff_append.mp hmem
  obtain ⟨front', flag, hsplit⟩ := exists_keyWords_append rt false front
  -- a name of letters, and one that is an address
  have hput : ∀ {n : PyStr}, IsRandomName n → PyStr.Solid n → n.length < 50 →
      ∃ cmd', Rotated cmd cmd' ∧ ∃ ws, canonicalWords rt cmd' =
        front'.map (wordForm rt) ++ wordForm rt (dir ++ cp '/' :: n) :: ws := by
    intro n hn hsolid hlen
    obtain ⟨hdirlen, -⟩ := tmpDirs_spec hdir
    have hdirsolid : PyStr.Solid dir := by
      simp only [tmpDirs, List.mem_cons, List.not_mem_nil, or_false] at hdir
      rcases hdir with rfl | rfl | rfl <;> decide
    have hpathsolid : PyStr.Solid (dir ++ cp '/' :: n) :=
      hdirsolid.append (List.forall_mem_cons.mpr ⟨by decide, hsolid⟩)
    obtain ⟨cmd', hlayout, hcmd'⟩ := exists_layout_eq hwords hpathsolid (by simp)
    refine ⟨cmd', ⟨hlayout, ?_⟩, ?_⟩
    · rw [hwords, hcmd']
      exact (RotatedWords.path hdir hname hn (.refl back)).append front
    · have hshort : ¬ (flag ∧ startsKeyBody (dir ++ cp '/' :: n)) := fun h =>
        not_startsKeyBody_of_length (by
          rw [List.length_append, List.length_cons]
          omega) h.2
      rw [canonicalWords, hcmd', hsplit, keyWords_cons_of_not hshort, List.map_append,
        List.map_cons]
      exact ⟨_, rfl⟩
  obtain ⟨cmd₁, hrot₁, ws₁, hcmd₁⟩ := hput (n := str "abcdef") (by decide) (by decide) (by decide)
  obtain ⟨cmd₂, hrot₂, ws₂, hcmd₂⟩ := hput (n := str "1.2.3.4") (by decide) (by decide) (by decide)
  have hplain : IsPlainName (str "abcdef") := by decide
  rw [wordForm_path hdir hplain] at hcmd₁
  rw [wordForm_path_address hdir] at hcmd₂
  by_cases h : canonicalizeCommand rt cmd₁ = canonicalizeCommand rt cmd
  · refine ⟨cmd₂, hrot₂, fun h₂ => ?_⟩
    have heq : canonicalWords rt cmd₁ = canonicalWords rt cmd₂ :=
      canonicalizeCommand_inj.mp (h.trans h₂.symm)
    rw [hcmd₁, hcmd₂] at heq
    have hform := (List.cons.inj (List.append_cancel_left heq)).1
    exact absurd (List.append_cancel_left hform) (by decide)
  · exact ⟨cmd₁, hrot₁, h⟩

/-- So has every command with a key whose hash another key has not. -/
theorem exists_rotated_of_key {cmd t b b' : PyStr} (htb : [t, b] <:+: PyStr.words cmd)
    (ht : IsKeyTypeWord t) (hb : IsKeyBody b) (hb' : IsKeyBody b')
    (hne : hashShort rt b ≠ hashShort rt b') :
    ∃ cmd', Rotated cmd cmd' ∧ canonicalizeCommand rt cmd' ≠ canonicalizeCommand rt cmd := by
  obtain ⟨front, back, hwords⟩ := htb
  have hwords : PyStr.words cmd = (front ++ [t]) ++ b :: back := by
    rw [← hwords]
    simp
  have hsolid : PyStr.Solid b' := fun c hc => isSpace_of_isBase64Char (hb'.2 c hc)
  obtain ⟨cmd', hlayout, hcmd'⟩ := exists_layout_eq hwords hsolid
    (List.ne_nil_of_length_pos (Nat.lt_of_lt_of_le (by omega) hb'.1))
  rw [List.append_assoc, List.singleton_append] at hwords hcmd'
  refine ⟨cmd', ⟨hlayout, ?_⟩, fun heq => ?_⟩
  · rw [hwords, hcmd']
    exact (RotatedWords.key ht ⟨hb, hb'⟩ (.refl back)).append front
  · obtain ⟨front', flag, hsplit⟩ := exists_keyWords_append rt false front
    obtain ⟨t', ht'⟩ := ht.keyWords_cons rt flag
    have hlist := canonicalizeCommand_inj.mp heq
    rw [canonicalWords, canonicalWords, hwords, hcmd', hsplit, hsplit, ht', ht', hb.keyWords_cons,
      hb'.keyWords_cons, List.map_append, List.map_append] at hlist
    have hkey := (List.cons.inj (List.cons.inj (List.append_cancel_left hlist)).2).1
    rw [wordForm_keyHash, wordForm_keyHash] at hkey
    exact hne (List.append_cancel_left (List.append_cancel_right hkey)).symm

/-! ### Playbooks -/

theorem onlyAddresses_iff {cmd : PyStr} : OnlyAddresses rt cmd ↔
    ∀ cmd', Rotated cmd cmd' → canonicalizeCommand rt cmd' = canonicalizeCommand rt cmd := by
  constructor
  · rintro ⟨hpath, hhash⟩ cmd' ⟨-, hrot⟩
    exact canonicalizeCommand_inj.mpr
      (map_keyWords_of_rotated (hrot.plain hpath hhash) false).symm
  · intro h
    refine ⟨fun dir hdir name hname hmem => ?_, fun t b htb ht hb b' hb' => ?_⟩
    · obtain ⟨cmd', hrot, hne⟩ := exists_rotated_of_path rt hdir hname hmem
      exact hne (h cmd' hrot)
    · by_contra hne
      obtain ⟨cmd', hrot, hdiff⟩ := exists_rotated_of_key htb ht hb hb' hne
      exact hdiff (h cmd' hrot)

theorem forall₂_rotated_refl : (cmds : List PyStr) → List.Forall₂ Rotated cmds cmds
  | [] => .nil
  | cmd :: cmds => .cons (.refl cmd) (forall₂_rotated_refl cmds)

theorem map_eq_of_forall₂ {cmds cmds' : List PyStr} (h : ∀ cmd ∈ cmds, OnlyAddresses rt cmd)
    (hrot : List.Forall₂ Rotated cmds cmds') :
    cmds'.map (canonicalizeCommand rt) = cmds.map (canonicalizeCommand rt) := by
  induction hrot with
  | nil => rfl
  | cons hcmd _ ih =>
    obtain ⟨hhead, htail⟩ := List.forall_mem_cons.mp h
    rw [List.map_cons, List.map_cons, onlyAddresses_iff.mp hhead _ hcmd, ih htail]

/-- Commands all rotations of which have their canonical forms. -/
theorem onlyAddresses_of_map_eq {cmds : List PyStr}
    (h : ∀ cmds', List.Forall₂ Rotated cmds cmds' →
      cmds'.map (canonicalizeCommand rt) = cmds.map (canonicalizeCommand rt)) :
    ∀ cmd ∈ cmds, OnlyAddresses rt cmd := by
  induction cmds with
  | nil => nofun
  | cons cmd cmds ih =>
    refine List.forall_mem_cons.mpr ⟨onlyAddresses_iff.mpr fun cmd' hrot => ?_,
      ih fun cmds' hrot => ?_⟩
    · exact (List.cons.inj (h _ (.cons hrot (forall₂_rotated_refl cmds)))).1
    · exact (List.cons.inj (h _ (.cons (.refl cmd) hrot))).2

/-- **Which playbooks survive every rotation**: those whose commands have no file in a directory of
temporary files and no key whose hash another key has not. -/
theorem survivesRotation_iff (rt : Runtime) (commands unknownCommands : List PyStr) :
    SurvivesRotation rt commands unknownCommands ↔
      ∀ cmd ∈ commands ++ unknownCommands, OnlyAddresses rt cmd := by
  have htext : ∀ {commands' unknownCommands'}, List.Forall₂ Rotated commands commands' →
      List.Forall₂ Rotated unknownCommands unknownCommands' →
        (canonicalText rt commands' unknownCommands' = canonicalText rt commands unknownCommands ↔
          commands'.map (canonicalizeCommand rt) = commands.map (canonicalizeCommand rt) ∧
            unknownCommands'.map (canonicalizeCommand rt) =
              unknownCommands.map (canonicalizeCommand rt)) :=
    fun hrot hrot' => canonicalText_eq_iff hrot.length_eq.symm hrot'.length_eq.symm
  rw [List.forall_mem_append]
  constructor
  · intro h
    refine ⟨onlyAddresses_of_map_eq fun cmds' hrot => ?_,
      onlyAddresses_of_map_eq fun cmds' hrot => ?_⟩
    · have hrefl := forall₂_rotated_refl unknownCommands
      exact ((htext hrot hrefl).mp (h _ _ hrot hrefl).1).1
    · have hrefl := forall₂_rotated_refl commands
      exact ((htext hrefl hrot).mp (h _ _ hrefl hrot).1).2
  · rintro ⟨hcommands, hunknown⟩ commands' unknownCommands' hrot hrot'
    have heq := (htext hrot hrot').mpr
      ⟨map_eq_of_forall₂ hcommands hrot, map_eq_of_forall₂ hunknown hrot'⟩
    exact ⟨heq, by rw [canonicalizeAndHash, canonicalizeAndHash, heq]⟩

/-- The runtime with the digests of two key bodies. -/
def twoKeys : Runtime :=
  { Runtime.basic with
    hashlib :=
      { Hashlib.empty with
        sha1 := fun data =>
          if data = asciiBytes (List.replicate 64 (cp 'A')) then
            str "30b86e44e6001403827a62c58b08893e77cf121f"
          else str "84951fc23a4dafd10020ac349da1f5530fa65949"
        length_sha1 := fun data => by split_ifs <;> rfl
        sha1_hex := fun data => by
          have hall : ∀ s ∈ [str "30b86e44e6001403827a62c58b08893e77cf121f",
              str "84951fc23a4dafd10020ac349da1f5530fa65949"],
              s.all fun c => c.isAsciiDigit || c.between 'a' 'f' := by decide
          split_ifs
          · exact List.all_eq_true.mp (hall _ (by simp))
          · exact List.all_eq_true.mp (hall _ (by simp)) } }

/-- A rotated key, and a file in a directory of temporary files that gets the name of an address. -/
theorem not_survivesRotation :
    ¬ SurvivesRotation twoKeys [str "ssh-rsa " ++ List.replicate 64 (cp 'A')] [] ∧
      ¬ SurvivesRotation twoKeys [str "sh /tmp/abcdef"] [] := by
  refine ⟨fun h => ?_, fun h => ?_⟩
  · have hbody : ∀ c : CodePoint, isBase64Char c → IsKeyBody (List.replicate 64 c) := by
      intro c hc
      refine ⟨by rw [List.length_replicate], fun d hd => ?_⟩
      rwa [List.eq_of_mem_replicate hd]
    have hwords : ∀ c : CodePoint, isBase64Char c →
        PyStr.words (str "ssh-rsa " ++ List.replicate 64 c) =
          [str "ssh-rsa", List.replicate 64 c] := by
      intro c hc
      have hsolid : PyStr.Solid (List.replicate 64 c) := fun d hd =>
        isSpace_of_isBase64Char ((hbody c hc).2 d hd)
      have hsplit : str "ssh-rsa " ++ List.replicate 64 c =
          str "ssh-rsa" ++ cp ' ' :: List.replicate 64 c := rfl
      rw [hsplit, PyStr.words_solid_append_cons (by decide) (by decide) (by decide),
        PyStr.words_solid hsolid (by simp)]
    have hrot : Rotated (str "ssh-rsa " ++ List.replicate 64 (cp 'A'))
        (str "ssh-rsa " ++ List.replicate 64 (cp 'B')) := by
      refine ⟨by decide +kernel, ?_⟩
      rw [hwords _ (by decide), hwords _ (by decide)]
      exact .key ⟨[], str "ssh-rsa", by decide, rfl, nofun⟩
        ⟨hbody _ (by decide), hbody _ (by decide)⟩ .nil
    exact absurd (h _ _ (.cons hrot .nil) .nil).1 (by decide +kernel)
  · have hrot : Rotated (str "sh /tmp/abcdef") (str "sh /tmp/1.2.3.4") := by
      refine ⟨by decide +kernel, ?_⟩
      have hpath : RotatedWords IsRandomName (fun b b' => IsKeyBody b ∧ IsKeyBody b')
          [str "/tmp" ++ cp '/' :: str "abcdef"] [str "/tmp" ++ cp '/' :: str "1.2.3.4"] :=
        .path (by decide) (by decide) (by decide) .nil
      exact .same (str "sh") hpath
    exact absurd (h _ _ (.cons hrot .nil) .nil).1 (by decide +kernel)

end C2Engine
