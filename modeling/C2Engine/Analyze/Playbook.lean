import C2Engine.Analyze.Canonical
import C2Engine.Analyze.Tokens
import C2Engine.Python.Words

/-!
# Canonical commands word by word

A command is canonicalised word by word but for SSH keys, which are a word for the type of the key
and a word that starts with its body. `keyWords` reads the keys of a list of words, with a flag for
a type that has just been read; `wordForm` does the rest to one word. The canonical command is the
forms of the words, joined with spaces.

## Main definitions

* `keyPass`, `wordPass`: the substitution of keys and those after it.
* `keyWords`: the words with the keys in them replaced.
* `wordForm`: the canonical form of one word.

## Main results

* `words_keyPass`: the words of a command with its keys replaced.
* `canonicalizeCommand_eq_join`: a canonical command is the forms of its words.
-/

namespace C2Engine

open Python

variable (rt : Runtime)

/-! ### The passes -/

/-- What a key is replaced by. -/
def keyRepl (m : Re.Match CodePoint) : PyStr :=
  (m.group 1).getD [] ++ str " <SSH_KEY:" ++ hashShort rt ((m.group 2).getD []) ++ str ">"

/-- The substitution of SSH keys. -/
def keyPass (cmd : PyStr) : PyStr :=
  Re.sub (Re.text rt.unicode) reCanonSshKey (keyRepl rt) cmd

/-- What a path to a temporary file is replaced by. -/
def tmpRepl (m : Re.Match CodePoint) : PyStr :=
  (PyStr.rpartition (cp '/') m.text).1 ++ str "/<RAND>"

/-- The substitutions after that of SSH keys, up to that of white space. -/
def wordPass (out : PyStr) : PyStr :=
  let re := Re.text rt.unicode
  let out := Re.sub re reCanonUrl (fun _ => str "<URL>") out
  let out := Re.sub re reCanonIpv6 (fun _ => str "<IP>") out
  let out := Re.sub re (reIpv4 rt.unicode) (fun _ => str "<IP>") out
  let out := Re.sub re reTmpRand tmpRepl out
  Re.sub re reB64Blob (fun m => str "<B64:" ++ hashShort rt m.text ++ str ">") out

/-- The canonical form of a word. -/
def wordForm (w : PyStr) : PyStr := rt.unicode.lower (wordPass rt w)

/-! ### Words apart -/

variable {rt}

theorem isWord_space {c : CodePoint} (hc : c.isSpace) :
    (Re.text rt.unicode).isWord c = false := by
  change rt.unicode.isWord c = false
  cases h : rt.unicode.isWord c with
  | false => rfl
  | true =>
    rw [rt.unicode.isWord_not_isSpace c h] at hc
    cases hc

/-- A hash is written in digits and the letters from `a` to `f`. -/
theorem hex_of_mem_hashShort {text : PyStr} {c : CodePoint} (hc : c ∈ hashShort rt text) :
    (48 ≤ c.val ∧ c.val ≤ 57) ∨ (97 ≤ c.val ∧ c.val ≤ 102) := by
  have hhex := rt.hashlib.sha1_hex _ c (List.mem_of_mem_take hc)
  simp only [CodePoint.isAsciiDigit, CodePoint.between, Bool.or_eq_true, Bool.and_eq_true,
    decide_eq_true_eq] at hhex
  exact hhex

theorem solid_hashShort (text : PyStr) : PyStr.Solid (hashShort rt text) := by
  intro c hc
  have hrange := hex_of_mem_hashShort hc
  simp only [CodePoint.isSpace, Bool.or_eq_false_iff, Bool.and_eq_false_iff,
    decide_eq_false_iff_not, beq_eq_false_iff_ne, ne_eq]
  omega

/-- The white space characters. -/
def spaces : PyStr :=
  str "\t\n\x0b\x0c\r\x1c\x1d\x1e\x1f \u0085\u00a0\u1680\u2000\u2001\u2002\u2003\u2004\u2005" ++
    str "\u2006\u2007\u2008\u2009\u200a\u2028\u2029\u202f\u205f\u3000"

theorem mem_spaces {c : CodePoint} (hc : c.isSpace) : c ∈ spaces := by
  simp only [CodePoint.isSpace, Bool.or_eq_true, Bool.and_eq_true, decide_eq_true_eq,
    beq_iff_eq] at hc
  have hval : c.val ∈ spaces.map Fin.val := by
    have hvals : spaces.map Fin.val = [0x09, 0x0A, 0x0B, 0x0C, 0x0D, 0x1C, 0x1D, 0x1E, 0x1F, 0x20,
        0x85, 0xA0, 0x1680, 0x2000, 0x2001, 0x2002, 0x2003, 0x2004, 0x2005, 0x2006, 0x2007, 0x2008,
        0x2009, 0x200A, 0x2028, 0x2029, 0x202F, 0x205F, 0x3000] := by decide
    rw [hvals]
    simp only [List.mem_cons, List.not_mem_nil, or_false]
    omega
  obtain ⟨d, hd, heq⟩ := List.mem_map.mp hval
  rwa [← Fin.ext heq]

/-- A pattern that reads none of the white space characters. -/
theorem local_of_spaces {r : Re CodePoint} (h : spaces.all fun c => decide (r.Local c))
    {c : CodePoint} (hc : c.isSpace) : r.Local c :=
  of_decide_eq_true (List.all_eq_true.mp h c (mem_spaces hc))

theorem local_reIpv4_space {uni : Unicode} {c : CodePoint} (hc : c.isSpace) :
    (reIpv4 uni).Local c := by
  have hdigit : uni.isDigit c = false := by
    cases hd : uni.isDigit c with
    | false => rfl
    | true =>
      rw [uni.isDigit_not_isSpace c hd] at hc
      cases hc
  have hdot : (c == cp '.') = false := local_of_spaces (r := .char (cp '.')) (by decide) hc
  have hcolon : (c == cp ':') = false := local_of_spaces (r := .char (cp ':')) (by decide) hc
  simp [reIpv4, Re.cat, Re.opt, Re.between, Re.times, Re.upTo, Re.char, Re.Local, hdigit, hdot,
    hcolon]

theorem minLen_reIpv4 (uni : Unicode) : (reIpv4 uni).minLen = 7 := by
  simp [reIpv4, Re.cat, Re.opt, Re.between, Re.times, Re.upTo, Re.char, Re.minLen]

/-- A hash between brackets has no white space. -/
theorem solid_placeholder {front text back : PyStr}
    (hfront : front.all fun c => !c.isSpace) (hback : back.all fun c => !c.isSpace) :
    PyStr.Solid (front ++ hashShort rt text ++ back) := by
  have hlit : ∀ {s : PyStr}, (s.all fun c => !c.isSpace) → PyStr.Solid s :=
    fun hs c hc => by simpa using List.all_eq_true.mp hs c hc
  exact ((hlit hfront).append (solid_hashShort text)).append (hlit hback)

theorem keepsSolid_const {r : Re CodePoint} {s : PyStr} (hs : s.all fun c => !c.isSpace)
    (hne : s ≠ []) : Re.KeepsSolid r fun _ => s :=
  fun _ _ _ => ⟨fun c hc => by simpa using List.all_eq_true.mp hs c hc, hne⟩

theorem keepsSolid_tmpRepl : Re.KeepsSolid reTmpRand tmpRepl := by
  intro m _ hm
  have hsub : (PyStr.rpartition (cp '/') m.text).1.Sublist m.text := by
    have hpart := PyStr.partition_eq (cp '/') m.text.reverse
    simp only [PyStr.rpartition]
    split_ifs with hfound
    · rw [hfound, if_pos rfl] at hpart
      have hrev := congrArg List.reverse hpart
      rw [List.reverse_reverse, List.reverse_append, List.reverse_cons, List.append_assoc] at hrev
      conv_rhs => rw [hrev]
      exact List.sublist_append_left _ _
    · exact List.nil_sublist _
  have hlit : (str "/<RAND>").all fun c => !c.isSpace := by decide
  refine ⟨(hm.sublist hsub).append fun c hc => by simpa using List.all_eq_true.mp hlit c hc, ?_⟩
  simp [tmpRepl, str_eq]

/-- The substitutions after that of SSH keys work on each word apart. -/
theorem words_wordPass (rt : Runtime) (s : PyStr) :
    PyStr.words (wordPass rt s) = (PyStr.words s).map (wordPass rt) := by
  have hstep : ∀ (r : Re CodePoint) (repl : Re.Match CodePoint → PyStr),
      (∀ c : CodePoint, c.isSpace → r.Local c) → 0 < r.minLen → Re.KeepsSolid r repl → ∀ s : PyStr,
        PyStr.words (Re.sub (Re.text rt.unicode) r repl s) =
          (PyStr.words s).map (Re.sub (Re.text rt.unicode) r repl) :=
    fun r repl hr hmin h s => Re.words_sub (fun c hc => isWord_space hc) hr hmin h s
  have hurl := hstep reCanonUrl (fun _ => str "<URL>")
    (fun c hc => local_of_spaces (by decide +kernel) hc) (by decide)
    (keepsSolid_const (by decide) (by decide))
  have hip6 := hstep reCanonIpv6 (fun _ => str "<IP>")
    (fun c hc => local_of_spaces (by decide +kernel) hc) (by decide)
    (keepsSolid_const (by decide) (by decide))
  have hip4 := hstep (reIpv4 rt.unicode) (fun _ => str "<IP>")
    (fun c hc => local_reIpv4_space hc) (by rw [minLen_reIpv4]; omega)
    (keepsSolid_const (by decide) (by decide))
  have htmp := hstep reTmpRand tmpRepl
    (fun c hc => local_of_spaces (by decide +kernel) hc) (by decide) keepsSolid_tmpRepl
  have hblob := hstep reB64Blob
    (fun m => str "<B64:" ++ hashShort rt m.text ++ str ">")
    (fun c hc => local_of_spaces (by decide +kernel) hc) (by decide)
    (fun m _ _ => ⟨solid_placeholder (by decide) (by decide), by simp [str_eq]⟩)
  simp only [wordPass, hurl, hip6, hip4, htmp, hblob, List.map_map]
  rfl

/-- A canonical command is the forms of its words. -/
theorem canonicalizeCommand_eq_words (cmd : PyStr) : canonicalizeCommand rt cmd =
    PyStr.join [cp ' '] ((PyStr.words (keyPass rt cmd)).map (wordForm rt)) := by
  change rt.unicode.lower (PyStr.strip (Re.sub _ _ (fun _ => str " ")
    (wordPass rt (keyPass rt cmd)))) = _
  have hstr : str " " = [cp ' '] := rfl
  rw [hstr, strip_sub_space, words_wordPass]
  cases hws : PyStr.words (keyPass rt cmd) with
  | nil => exact rt.unicode.lower_nil
  | cons w ws =>
    have hlower := PyStr.lower_join rt.unicode (c := cp ' ') (by decide)
      ((w :: ws).map (wordPass rt)) (List.cons_ne_nil _ _)
    rw [hlower, List.map_map]
    rfl

/-! ### Words that are kept -/

theorem eq_of_foldsTo {x y : CodePoint} (hx : x.isAsciiAlpha = false) (h : Re.foldsTo x y) :
    y = x := by
  have hne : ∀ d : CodePoint, d.isAsciiAlpha → (x == d) = false := by
    rintro d hd
    rw [beq_eq_false_iff_ne]
    rintro rfl
    rw [hd] at hx
    cases hx
  have hlower : y.asciiLower = x := by
    rw [Re.foldsTo, hne (cp 's') (by decide), hne (cp 'k') (by decide),
      hne (cp 'i') (by decide)] at h
    simpa using h
  rw [CodePoint.asciiLower] at hlower
  split_ifs at hlower with hup
  · have hrange : 65 ≤ y.val ∧ y.val ≤ 90 := by simpa [CodePoint.between] using hup
    have hval : y.val + 32 = x.val := congrArg Fin.val hlower
    have halpha : x.isAsciiAlpha := by
      simp only [CodePoint.isAsciiAlpha, CodePoint.between, Bool.or_eq_true, Bool.and_eq_true,
        decide_eq_true_eq]
      exact .inl ⟨show 97 ≤ x.val by omega, show x.val ≤ 122 by omega⟩
    rw [halpha] at hx
    cases hx
  · exact hlower

/-- A URL has the characters behind its scheme. -/
theorem demands_reCanonUrl {c : CodePoint} (hc : c = cp ':' ∨ c = cp '/') :
    reCanonUrl.Demands c := by
  refine .inr (.inr (.inl ?_))
  rcases hc with rfl | rfl
  · exact .inl fun y => eq_of_foldsTo (by decide)
  · exact .inr (.inl fun y => eq_of_foldsTo (by decide))

theorem demands_reIpv4 (uni : Unicode) : (reIpv4 uni).Demands (cp '.') := by
  simp [reIpv4, Re.cat, Re.times, Re.Demands, Re.char]

theorem demands_reTmpRand : reTmpRand.Demands (cp '/') := by
  simp [reTmpRand, Re.cat, Re.Demands, Re.char]

theorem minLen_reB64Blob : reB64Blob.minLen = 32 := by decide

theorem sub_reIpv4_of_notMem {repl : Re.Match CodePoint → PyStr} {w : PyStr} (h : cp '.' ∉ w) :
    Re.sub (Re.text rt.unicode) (reIpv4 rt.unicode) repl w = w :=
  Re.sub_eq_self_of_notMem (demands_reIpv4 _) h

/-- A text with at most one colon has no IPv6 address. -/
theorem sub_reCanonIpv6_of_count {repl : Re.Match CodePoint → PyStr} {w : PyStr}
    (h : w.count (cp ':') ≤ 1) : Re.sub (Re.text rt.unicode) reCanonIpv6 repl w = w := by
  refine Re.sub_eq_self fun u hu hlang => ?_
  obtain ⟨_, u₁, rfl, -, hlang⟩ := Re.lang_seq.mp hlang
  obtain ⟨two, u₂, rfl, htwo, -⟩ := Re.lang_seq.mp hlang
  obtain ⟨two, more, rfl, htwo, -⟩ := Re.lang_seq.mp htwo
  obtain ⟨x, y, rfl, hx, hy⟩ := Re.lang_seq.mp htwo
  have hcolon : ∀ {z : PyStr}, Re.Lang (.seq (.between hexRe 1 4) (.char (cp ':'))) z →
      1 ≤ z.count (cp ':') := by
    intro z hz
    obtain ⟨run, colon, rfl, -, hcolon⟩ := Re.lang_seq.mp hz
    obtain ⟨c, rfl, hc⟩ := Re.lang_set.mp hcolon
    obtain rfl := beq_iff_eq.mp hc
    simp
  have hle := hu.sublist.count_le (cp ':')
  have hx := hcolon hx
  have hy := hcolon hy
  simp only [List.count_append] at hle
  omega

theorem sub_reB64Blob_of_length {repl : Re.Match CodePoint → PyStr} {w : PyStr}
    (h : w.length < 32) : Re.sub (Re.text rt.unicode) reB64Blob repl w = w :=
  Re.sub_eq_self_of_length (by rwa [minLen_reB64Blob])

/-- A short word with at most one colon and no dot and no slash is kept. -/
theorem wordPass_eq_self {w : PyStr} (hcolon : w.count (cp ':') ≤ 1) (hdot : cp '.' ∉ w)
    (hslash : cp '/' ∉ w) (hlen : w.length < 32) : wordPass rt w = w := by
  simp only [wordPass]
  rw [Re.sub_eq_self_of_notMem (demands_reCanonUrl (.inr rfl)) hslash,
    sub_reCanonIpv6_of_count hcolon, sub_reIpv4_of_notMem hdot,
    Re.sub_eq_self_of_notMem demands_reTmpRand hslash, sub_reB64Blob_of_length hlen]

/-- A word that becomes one without a bracket is kept. -/
theorem wordPass_eq_self_of_notMem {w : PyStr} (h : cp '<' ∉ wordPass rt w) :
    wordPass rt w = w := by
  have hstep : ∀ {r : Re CodePoint} {repl : Re.Match CodePoint → PyStr} {s : PyStr},
      0 < r.minLen → (∀ m, cp '<' ∈ repl m) →
        cp '<' ∉ Re.sub (Re.text rt.unicode) r repl s →
          Re.sub (Re.text rt.unicode) r repl s = s := by
    intro r repl s hmin hrepl hnot
    rcases Re.sub_eq_self_or (Re.text rt.unicode) repl hmin s with
      heq | ⟨m, -, -, hin⟩
    · exact heq
    · exact absurd (hin.subset (hrepl m)) hnot
  simp only [wordPass] at h ⊢
  have hblob := hstep (by decide) (fun m => by simp [str_eq, cp]) h
  rw [hblob] at h ⊢
  have htmp := hstep (by decide) (fun m => by simp [tmpRepl, str_eq, cp]) h
  rw [htmp] at h ⊢
  have hip4 := hstep (by rw [minLen_reIpv4]; omega) (fun m => by decide) h
  rw [hip4] at h ⊢
  have hip6 := hstep (by decide) (fun m => by decide) h
  rw [hip6] at h ⊢
  exact hstep (by decide) (fun m => by decide) h

/-! ### Keys -/

/-- The types of SSH keys. -/
def keyTypes : List PyStr :=
  [str "ssh-rsa", str "ssh-ed25519", str "ssh-dss", str "ecdsa-sha2-nistp256",
    str "ecdsa-sha2-nistp384", str "ecdsa-sha2-nistp521"]

theorem run_sshKeyType (A : Alphabet CodePoint) {k : PyStr} (hk : k ∈ keyTypes) (prevWord : Bool)
    (rest : PyStr) (caps : List (ℕ × PyStr)) :
    Re.run A sshKeyType ⟨prevWord, k ++ rest, caps⟩ =
      [⟨Re.wordAfter A prevWord k, rest, caps⟩] := by
  have hssh : ∀ {b : PyStr}, (b = str "rsa" ∨ b = str "ed25519" ∨ b = str "dss") →
      Re.run A sshKeyType ⟨prevWord, (str "ssh-" ++ b) ++ rest, caps⟩ =
        [⟨Re.wordAfter A prevWord (str "ssh-" ++ b), rest, caps⟩] := by
    intro b hb
    simp only [sshKeyType, Re.oneOf, Re.run, Re.run_lit]
    rcases hb with rfl | rfl | rfl <;> rfl
  have hecdsa : ∀ {b : PyStr}, (b = str "256" ∨ b = str "384" ∨ b = str "521") →
      Re.run A sshKeyType ⟨prevWord, (str "ecdsa-sha2-nistp" ++ b) ++ rest, caps⟩ =
        [⟨Re.wordAfter A prevWord (str "ecdsa-sha2-nistp" ++ b), rest, caps⟩] := by
    intro b hb
    simp only [sshKeyType, Re.oneOf, Re.run, Re.run_lit]
    rcases hb with rfl | rfl | rfl <;> rfl
  simp only [keyTypes, List.mem_cons, List.not_mem_nil, or_false] at hk
  rcases hk with rfl | rfl | rfl | rfl | rfl | rfl
  · exact hssh (.inl rfl)
  · exact hssh (.inr (.inl rfl))
  · exact hssh (.inr (.inr rfl))
  · exact hecdsa (.inl rfl)
  · exact hecdsa (.inr (.inl rfl))
  · exact hecdsa (.inr (.inr rfl))

/-- The texts of the pattern for key types. -/
theorem mem_keyTypes_of_lang {k : PyStr} (h : Re.Lang sshKeyType k) : k ∈ keyTypes := by
  simp only [sshKeyType, Re.oneOf, Re.lang_alt, Re.lang_seq, Re.lang_lit] at h
  rcases h with ⟨_, _, rfl, rfl, rfl | rfl | rfl⟩ | ⟨_, _, rfl, rfl, rfl | rfl | rfl⟩ <;> decide

/-- What stands behind a key type begins with white space and a key body. -/
def KeyAhead (t : PyStr) : Prop :=
  (∃ c ∈ t.head?, c.isSpace) ∧
    64 ≤ ((t.dropWhile CodePoint.isSpace).takeWhile isBase64Char).length

theorem isAsciiAlnum_eq_false_of_isSpace {c : CodePoint} (h : c.isSpace) :
    c.isAsciiAlnum = false := by
  cases hc : c.isAsciiAlnum with
  | false => rfl
  | true =>
    have hword : Unicode.basic.isWord c := by
      change (c.isAsciiAlnum || c == cp '_') = true
      rw [hc, Bool.true_or]
    rw [Unicode.basic.isWord_not_isSpace c hword] at h
    cases h

theorem isSpace_of_isBase64Char {c : CodePoint} (h : isBase64Char c) : c.isSpace = false := by
  cases hc : c.isSpace with
  | false => rfl
  | true =>
    rw [isBase64Char, Bool.or_eq_true] at h
    rcases h with h | h
    · rw [isAsciiAlnum_eq_false_of_isSpace hc] at h
      cases h
    · have hall : (str "+/=").all fun d => !d.isSpace := by decide
      have hd := List.all_eq_true.mp hall c (List.elem_iff.mp h)
      rw [hc] at hd
      cases hd

theorem isBase64Char_eq_false_of_isSpace {c : CodePoint} (h : c.isSpace) :
    isBase64Char c = false := by
  cases hb : isBase64Char c with
  | false => rfl
  | true =>
    rw [isSpace_of_isBase64Char hb] at h
    cases h

/-- The body of a key starts with a character that is no white space. -/
theorem isSpace_head?_append {b t : PyStr} (hb : ∀ c ∈ b, isBase64Char c) (hne : b ≠ []) :
    ∀ c ∈ (b ++ t).head?, c.isSpace = false := by
  obtain ⟨y, b, rfl⟩ := List.exists_cons_of_ne_nil hne
  intro c hc
  obtain rfl : y = c := Option.some.inj hc
  exact isSpace_of_isBase64Char (hb y List.mem_cons_self)

theorem solid_of_mem_keyTypes {k : PyStr} (h : k ∈ keyTypes) : PyStr.Solid k ∧ k ≠ [] := by
  have hall : keyTypes.all fun k => k.all (fun c => !c.isSpace) && !k.isEmpty := by decide
  have hk := List.all_eq_true.mp hall k h
  rw [Bool.and_eq_true, List.all_eq_true] at hk
  exact ⟨fun c hc => by simpa using hk.1 c hc, by simpa using hk.2⟩

/-- A key is read at the end of a word only. -/
theorem key_of_matchAt {A : Alphabet CodePoint} {prevWord : Bool} {v t : PyStr}
    {m : Re.Match CodePoint} (hv : PyStr.Solid v) (ht : ∀ c ∈ t.head?, c.isSpace)
    (h : Re.matchAt A reCanonSshKey prevWord (v ++ t) = some m) : v ∈ keyTypes ∧ KeyAhead t := by
  obtain ⟨hlang, rest, hrest⟩ := Re.lang_of_matchAt h
  obtain ⟨k, _, hm, hk, hlang⟩ := Re.lang_seq.mp hlang
  obtain ⟨r, b, rfl, hr, hb⟩ := Re.lang_seq.mp hlang
  have hk := mem_keyTypes_of_lang (Re.lang_group.mp hk)
  obtain ⟨hrne, hr⟩ := Re.lang_plus_set hr
  obtain ⟨hlen, hb⟩ := Re.lang_atLeast_set (Re.lang_group.mp hb)
  rw [hm, List.append_assoc] at hrest
  have hhead : ∀ c ∈ (r ++ b ++ rest).head?, c.isSpace := by
    rintro c hc
    obtain ⟨x, r, rfl⟩ := List.exists_cons_of_ne_nil hrne
    obtain rfl : x = c := Option.some.inj hc
    exact hr x List.mem_cons_self
  obtain ⟨rfl, rfl⟩ := PyStr.Solid.append_inj hv (solid_of_mem_keyTypes hk).1 ht hhead hrest.symm
  refine ⟨hk, ?_, ?_⟩
  · obtain ⟨x, r, rfl⟩ := List.exists_cons_of_ne_nil hrne
    exact ⟨x, rfl, hr x List.mem_cons_self⟩
  · have hne : b ≠ [] := List.ne_nil_of_length_pos (by omega)
    rw [List.append_assoc, dropWhile_space_append hr (isSpace_head?_append hb hne),
      List.takeWhile_append_of_pos hb, List.length_append]
    omega

/-- The match of a key. -/
theorem matchAt_key (A : Alphabet CodePoint) (prevWord : Bool) {k r b t : PyStr}
    (hk : k ∈ keyTypes) (hr : ∀ c ∈ r, c.isSpace) (hrne : r ≠ []) (hb : ∀ c ∈ b, isBase64Char c)
    (hlen : 64 ≤ b.length) (ht : ∀ c ∈ t.head?, isBase64Char c = false) :
    Re.matchAt A reCanonSshKey prevWord (k ++ (r ++ (b ++ t))) =
      some ⟨k ++ (r ++ b), [(1, k), (2, b)]⟩ := by
  obtain ⟨x, r, rfl⟩ := List.exists_cons_of_ne_nil hrne
  obtain ⟨hx, hr⟩ := List.forall_mem_cons.mp hr
  -- the type of the key
  have htype : Re.Prefers A sshKeyType ⟨prevWord, k ++ ((x :: r) ++ (b ++ t)), []⟩
      ⟨Re.wordAfter A prevWord k, (x :: r) ++ (b ++ t), []⟩ := by
    rw [Re.Prefers, run_sshKeyType A hk]
    rfl
  have hgroup := htype.group (n := 1)
  rw [Re.consumed_of_append (u := k) rfl] at hgroup
  -- the white space behind it, all of it
  have hbody : b ≠ [] := List.ne_nil_of_length_pos (by omega)
  have hdrop : (r ++ (b ++ t)).dropWhile CodePoint.isSpace = b ++ t :=
    dropWhile_space_append hr (isSpace_head?_append hb hbody)
  obtain ⟨e, he, herest, hecaps⟩ := Re.Prefers.star_set A CodePoint.isSpace
    ⟨A.isWord x, r ++ (b ++ t), [] ++ [(1, k)]⟩
  rw [hdrop] at herest
  have hspace : Re.Prefers A (.plus .space)
      ⟨Re.wordAfter A prevWord k, x :: (r ++ (b ++ t)), [] ++ [(1, k)]⟩ e := .seq (.set hx) he
  obtain ⟨eword, erest, ecaps⟩ := e
  obtain rfl : erest = b ++ t := herest
  obtain rfl : ecaps = [(1, k)] := hecaps
  -- the body, as far as its characters go
  obtain ⟨gword, hkey⟩ := Re.Prefers.atLeast_set (A := A) hlen hb ht eword [(1, k)]
  have hgroup2 := hkey.group (n := 2)
  rw [Re.consumed_of_append (u := b) rfl] at hgroup2
  have hall : Re.Prefers A reCanonSshKey ⟨prevWord, k ++ ((x :: r) ++ (b ++ t)), []⟩
      ⟨gword, t, [(1, k), (2, b)]⟩ := .seq hgroup (.seq hspace hgroup2)
  rw [Re.matchAt, hall, Option.map_some,
    Re.consumed_of_append (u := k ++ ((x :: r) ++ b)) (by simp)]

/-! ### The scan for keys -/

/-- The scan for keys from some place on. -/
def keyScan (rt : Runtime) (prevWord : Bool) (s : PyStr) : PyStr :=
  Re.subGo (Re.text rt.unicode) reCanonSshKey (keyRepl rt) 0 prevWord s

/-- The word ends in the type of a key. -/
def endsInKeyType (w : PyStr) : Bool := keyTypes.any fun k => k.isSuffixOf w

/-- The word starts with the body of a key. -/
def startsKeyBody (w : PyStr) : Bool := 64 ≤ (w.takeWhile isBase64Char).length

/-- The word with the key body in front replaced by its hash. -/
def hashKeyBody (rt : Runtime) (w : PyStr) : PyStr :=
  str "<SSH_KEY:" ++ hashShort rt (w.takeWhile isBase64Char) ++ str ">" ++
    w.dropWhile isBase64Char

/-- The words with the keys in them replaced; the flag says that a key type was read just before. -/
def keyWords (rt : Runtime) : Bool → List PyStr → List PyStr
  | _, [] => []
  | pending, w :: ws =>
    if pending && startsKeyBody w then
      hashKeyBody rt w :: keyWords rt (endsInKeyType (w.dropWhile isBase64Char)) ws
    else w :: keyWords rt (endsInKeyType w) ws

theorem endsInKeyType_iff {w : PyStr} : endsInKeyType w ↔ ∃ p, ∃ k ∈ keyTypes, w = p ++ k := by
  simp only [endsInKeyType, List.any_eq_true, List.isSuffixOf_iff_suffix]
  constructor
  · rintro ⟨k, hk, p, rfl⟩
    exact ⟨p, k, hk, rfl⟩
  · rintro ⟨p, k, hk, rfl⟩
    exact ⟨k, hk, p, rfl⟩

theorem endsInKeyType_nil : endsInKeyType [] = false := by decide

theorem endsInKeyType_append {v : PyStr} (p : PyStr) (h : endsInKeyType v) :
    endsInKeyType (p ++ v) := by
  obtain ⟨q, k, hk, rfl⟩ := endsInKeyType_iff.mp h
  exact endsInKeyType_iff.mpr ⟨p ++ q, k, hk, (List.append_assoc p q k).symm⟩

/-- No key type ends in another. -/
theorem eq_nil_of_append_mem_keyTypes {p k : PyStr} (hk : k ∈ keyTypes) (h : p ++ k ∈ keyTypes) :
    p = [] := by
  have hall : keyTypes.all fun k => keyTypes.all fun l => !k.isSuffixOf l || k == l := by decide
  have hkl := List.all_eq_true.mp (List.all_eq_true.mp hall k hk) (p ++ k) h
  have hsuffix : k.isSuffixOf (p ++ k) :=
    List.isSuffixOf_iff_suffix.mpr (List.suffix_append p k)
  rw [hsuffix, Bool.not_true, Bool.false_or, beq_iff_eq] at hkl
  exact List.append_left_eq_self.mp hkl.symm

/-- A word without a key at its end is kept. -/
theorem keyScan_append (rt : Runtime) {v : PyStr} (hv : PyStr.Solid v) {t : PyStr}
    (ht : ∀ c ∈ t.head?, c.isSpace) (hno : ¬ (endsInKeyType v ∧ KeyAhead t)) (prevWord : Bool) :
    ∃ b, keyScan rt prevWord (v ++ t) = v ++ keyScan rt b t := by
  induction v generalizing prevWord with
  | nil => exact ⟨prevWord, rfl⟩
  | cons x v ih =>
    have hnone : Re.matchAt (Re.text rt.unicode) reCanonSshKey prevWord (x :: (v ++ t)) = none := by
      cases hm : Re.matchAt (Re.text rt.unicode) reCanonSshKey prevWord (x :: (v ++ t)) with
      | none => rfl
      | some m =>
        obtain ⟨hk, hahead⟩ := key_of_matchAt (v := x :: v) hv ht hm
        exact absurd ⟨endsInKeyType_iff.mpr ⟨[], x :: v, hk, rfl⟩, hahead⟩ hno
    obtain ⟨b, hb⟩ := ih (List.forall_mem_cons.mp hv).2
      (fun h => hno ⟨endsInKeyType_append [x] h.1, h.2⟩) ((Re.text rt.unicode).isWord x)
    refine ⟨b, ?_⟩
    rw [keyScan, List.cons_append, Re.subGo, hnone]
    exact congrArg (x :: ·) hb

/-- A key at the end of a word is replaced. -/
theorem keyScan_key (rt : Runtime) {p k r b : PyStr} (hp : PyStr.Solid p) (hk : k ∈ keyTypes)
    (hr : ∀ c ∈ r, c.isSpace) (hrne : r ≠ []) (hb : ∀ c ∈ b, isBase64Char c)
    (hlen : 64 ≤ b.length) {t : PyStr} (ht : ∀ c ∈ t.head?, isBase64Char c = false)
    (prevWord : Bool) : ∃ w, keyScan rt prevWord (p ++ k ++ (r ++ (b ++ t))) =
      p ++ k ++ str " <SSH_KEY:" ++ hashShort rt b ++ str ">" ++ keyScan rt w t := by
  induction p generalizing prevWord with
  | nil =>
    obtain ⟨x, k', rfl⟩ := List.exists_cons_of_ne_nil (solid_of_mem_keyTypes hk).2
    have hmatch := matchAt_key (Re.text rt.unicode) prevWord hk hr hrne hb hlen ht
    have hskip := Re.subGo_drop (Re.text rt.unicode) reCanonSshKey (keyRepl rt) t
      (k' ++ (r ++ b)) ((Re.text rt.unicode).isWord x)
    refine ⟨Re.wordAfter (Re.text rt.unicode) ((Re.text rt.unicode).isWord x) (k' ++ (r ++ b)), ?_⟩
    rw [keyScan, List.nil_append, List.cons_append, Re.subGo, ← List.cons_append, hmatch]
    simp only [List.append_assoc] at hskip
    simp only [List.cons_append, List.length_cons, Nat.add_sub_cancel, hskip]
    simp [keyRepl, Re.Match.group, keyScan]
  | cons x p ih =>
    have hsolid := (solid_of_mem_keyTypes hk).1
    have hhead : ∀ c ∈ (r ++ (b ++ t)).head?, c.isSpace := by
      obtain ⟨y, r, rfl⟩ := List.exists_cons_of_ne_nil hrne
      rintro c ⟨⟩
      exact hr y List.mem_cons_self
    have hnone : Re.matchAt (Re.text rt.unicode) reCanonSshKey prevWord
        (x :: (p ++ k ++ (r ++ (b ++ t)))) = none := by
      cases hm : Re.matchAt (Re.text rt.unicode) reCanonSshKey prevWord
          (x :: (p ++ k ++ (r ++ (b ++ t)))) with
      | none => rfl
      | some m =>
        have hmem := (key_of_matchAt (v := x :: p ++ k) (hp.append hsolid) hhead hm).1
        exact absurd (eq_nil_of_append_mem_keyTypes hk hmem) (List.cons_ne_nil x p)
    obtain ⟨w, hw⟩ := ih (List.forall_mem_cons.mp hp).2 ((Re.text rt.unicode).isWord x)
    refine ⟨w, ?_⟩
    rw [keyScan, List.cons_append, List.cons_append, Re.subGo, hnone]
    exact congrArg (x :: ·) hw

/-- A key type begins with one of two letters. -/
theorem reads_key {c : CodePoint} (hs : c ≠ cp 's') (he : c ≠ cp 'e') :
    reCanonSshKey.reads c = false := by
  have hstr : str "ssh-" = [cp 's', cp 's', cp 'h', cp '-'] := rfl
  have hecdsa : ∃ t, str "ecdsa-sha2-nistp" = cp 'e' :: cp 'c' :: t := ⟨_, rfl⟩
  obtain ⟨t, ht⟩ := hecdsa
  simp [reCanonSshKey, Re.cat, Re.reads, sshKeyType, Re.oneOf, hstr, ht, Re.lit, Re.char,
    Re.minLen, hs, he]

theorem reads_key_space {c : CodePoint} (hc : c.isSpace) : reCanonSshKey.reads c = false := by
  refine reads_key ?_ ?_ <;>
  · rintro rfl
    exact absurd hc (by decide)

/-- White space is kept. -/
theorem keyScan_space (rt : Runtime) {r : PyStr} (hr : ∀ c ∈ r, c.isSpace) (t : PyStr)
    (prevWord : Bool) :
    ∃ b, keyScan rt prevWord (r ++ t) = r ++ keyScan rt b t :=
  ⟨_, Re.subGo_append_of_reads (by decide) (keyRepl rt) t r (fun c hc => reads_key_space (hr c hc))
    prevWord⟩

theorem solid_keyHash (rt : Runtime) (text : PyStr) :
    PyStr.Solid (str "<SSH_KEY:" ++ hashShort rt text ++ str ">") :=
  solid_placeholder (by decide) (by decide)

theorem solid_hashKeyBody {w : PyStr} (hw : PyStr.Solid w) : PyStr.Solid (hashKeyBody rt w) :=
  (solid_keyHash rt _).append (hw.sublist (List.dropWhile_sublist _))

theorem hashKeyBody_ne_nil (w : PyStr) : hashKeyBody rt w ≠ [] := by
  simp [hashKeyBody, str_eq]

theorem keyWords_cons_of_not {pending : Bool} {w : PyStr} {ws : List PyStr}
    (h : ¬ (pending ∧ startsKeyBody w)) :
    keyWords rt pending (w :: ws) = w :: keyWords rt (endsInKeyType w) ws := by
  rw [keyWords, if_neg (by rwa [Bool.and_eq_true])]

theorem keyWords_cons_of {pending : Bool} {w : PyStr} {ws : List PyStr} (hp : pending)
    (hw : startsKeyBody w) : keyWords rt pending (w :: ws) =
      hashKeyBody rt w :: keyWords rt (endsInKeyType (w.dropWhile isBase64Char)) ws := by
  rw [keyWords, if_pos (by rw [Bool.and_eq_true]; exact ⟨hp, hw⟩)]

/-- White space ends the body of a key. -/
theorem takeWhile_isBase64Char_append {v t : PyStr} (ht : ∀ c ∈ t.head?, c.isSpace) :
    (v ++ t).takeWhile isBase64Char = v.takeWhile isBase64Char := by
  have hstop : t.takeWhile isBase64Char = [] := by
    cases t with
    | nil => rfl
    | cons c t =>
      have hc := isBase64Char_eq_false_of_isSpace (ht c rfl)
      rw [List.takeWhile_cons_of_neg (by rw [hc]; exact Bool.false_ne_true)]
  rw [List.takeWhile_append, hstop, List.append_nil]
  split_ifs with hlen
  · exact ((List.takeWhile_sublist isBase64Char).eq_of_length hlen).symm
  · rfl

/-- What is behind the body of a key in its word, or behind the word, does not go on with it. -/
theorem isBase64Char_head?_dropWhile_append (w : PyStr) {t : PyStr}
    (ht : ∀ c ∈ t.head?, c.isSpace) :
    ∀ c ∈ (w.dropWhile isBase64Char ++ t).head?, isBase64Char c = false := by
  intro c hc
  have hdrop := List.head?_dropWhile_not isBase64Char w
  cases hw : w.dropWhile isBase64Char with
  | nil =>
    rw [hw, List.nil_append] at hc
    exact isBase64Char_eq_false_of_isSpace (ht c hc)
  | cons y w' =>
    rw [hw] at hc hdrop
    obtain rfl : y = c := Option.some.inj hc
    exact hdrop

/-- What is ahead of a word: the body of a key is read within the next word. -/
theorem startsKeyBody_of_keyAhead {r v t : PyStr} (hr : ∀ c ∈ r, c.isSpace)
    (hu : ∀ c ∈ (v ++ t).head?, c.isSpace = false) (ht : ∀ c ∈ t.head?, c.isSpace)
    (h : KeyAhead (r ++ (v ++ t))) : startsKeyBody v := by
  have hlen := h.2
  rw [dropWhile_space_append hr hu, takeWhile_isBase64Char_append ht] at hlen
  exact decide_eq_true hlen

/-- **The words of a scan for keys**, from within a word that has the text `g` in front. -/
theorem words_keyScan (rt : Runtime) (n : ℕ) :
    ∀ (g v t : PyStr) (prevWord : Bool), (v ++ t).length = n →
    PyStr.Solid g → PyStr.Solid v → (∀ c ∈ t.head?, c.isSpace) →
      PyStr.words (g ++ keyScan rt prevWord (v ++ t)) =
        PyStr.words (g ++ v) ++ keyWords rt (endsInKeyType v) (PyStr.words t) := by
  induction n using Nat.strong_induction_on with
  | _ n ih =>
    intro g v t prevWord hn hg hv ht
    cases t with
    | nil =>
      obtain ⟨b, hb⟩ := keyScan_append rt hv ht (fun h => by
        obtain ⟨c, hc, -⟩ := h.2.1
        cases hc) prevWord
      rw [hb, PyStr.words_nil, keyWords, List.append_nil]
      exact congrArg (fun s => PyStr.words (g ++ s)) (List.append_nil v)
    | cons c t =>
      have hc : c.isSpace := ht c rfl
      -- the white space, the next word and what is behind it
      obtain ⟨r, u, rfl, hr, hu⟩ : ∃ r u, t = r ++ u ∧ (∀ c ∈ r, c.isSpace) ∧
          ∀ c ∈ u.head?, c.isSpace = false :=
        ⟨_, _, (List.takeWhile_append_dropWhile (p := CodePoint.isSpace) (l := t)).symm,
          fun c hc => List.mem_takeWhile_imp hc, head?_dropWhile_space t⟩
      obtain ⟨w, t', rfl, hw, ht'⟩ := PyStr.exists_solid_append u
      have hcr : ∀ d ∈ c :: r, d.isSpace := List.forall_mem_cons.mpr ⟨hc, hr⟩
      have hwords : PyStr.words (c :: (r ++ (w ++ t'))) = PyStr.words w ++ PyStr.words t' := by
        rw [← List.cons_append, PyStr.words_space_append hcr, PyStr.words_append ht']
      have hlen : (w ++ t').length < n := by
        simp only [← hn, List.length_append, List.length_cons]
        omega
      by_cases hkey : endsInKeyType v ∧ startsKeyBody w
      · obtain ⟨p, k, hk, rfl⟩ := endsInKeyType_iff.mp hkey.1
        have hbody : 64 ≤ (w.takeWhile isBase64Char).length := by
          simpa [startsKeyBody] using hkey.2
        have hstop := isBase64Char_head?_dropWhile_append w ht'
        have hrestlen : (w.dropWhile isBase64Char ++ t').length < n := by
          have := (List.dropWhile_suffix isBase64Char (l := w)).length_le
          rw [List.length_append] at hlen ⊢
          omega
        obtain ⟨b, hb⟩ := keyScan_key rt (p := p) (hv.sublist (List.sublist_append_left p k))
          hk hcr (List.cons_ne_nil c r) (fun d hd => List.mem_takeWhile_imp hd) hbody hstop prevWord
        rw [← List.append_assoc (w.takeWhile isBase64Char), List.takeWhile_append_dropWhile,
          List.cons_append] at hb
        have hrest := ih _ hrestlen _ (w.dropWhile isBase64Char) t' b rfl
          (solid_keyHash rt (w.takeWhile isBase64Char))
          (hw.sublist (List.dropWhile_sublist _)) ht'
        have hfront : str " <SSH_KEY:" = cp ' ' :: str "<SSH_KEY:" := rfl
        have hbodyne : w ≠ [] := by
          rintro rfl
          simp at hbody
        rw [hb, hfront, hwords, PyStr.words_solid hw hbodyne, List.singleton_append,
          keyWords_cons_of hkey.1 hkey.2]
        have hassoc : ∀ x y z u : PyStr, g ++ (p ++ k ++ (cp ' ' :: x) ++ y ++ z ++ u) =
            g ++ (p ++ k) ++ cp ' ' :: (x ++ y ++ z ++ u) := by
          intro x y z u
          simp only [List.append_assoc, List.cons_append]
        rw [hassoc, PyStr.words_append_cons (by decide), hrest]
        congr 1
        rw [← hashKeyBody, PyStr.words_solid (solid_hashKeyBody hw) (hashKeyBody_ne_nil w)]
        rfl
      · obtain ⟨b, hb⟩ := keyScan_append rt hv ht (fun h =>
          hkey ⟨h.1, startsKeyBody_of_keyAhead (r := c :: r) hcr hu ht' h.2⟩) prevWord
        obtain ⟨b', hb'⟩ := keyScan_space rt hcr (w ++ t') b
        rw [List.cons_append] at hb'
        have hrest := ih _ hlen [] w t' b' rfl PyStr.solid_nil hw ht'
        rw [List.nil_append, List.nil_append] at hrest
        rw [hb, hb', ← List.append_assoc, List.cons_append, PyStr.words_append_cons hc,
          PyStr.words_space_append hr, hrest, hwords]
        rcases eq_or_ne w [] with rfl | hne
        · obtain rfl : t' = [] := by
            cases t' with
            | nil => rfl
            | cons x t' =>
              have hx := hu x rfl
              rw [ht' x rfl] at hx
              cases hx
          rfl
        · rw [PyStr.words_solid hw hne, List.singleton_append, List.singleton_append,
            keyWords_cons_of_not hkey]

/-- **The words of a command with its keys replaced.** -/
theorem words_keyPass (cmd : PyStr) :
    PyStr.words (keyPass rt cmd) = keyWords rt false (PyStr.words cmd) := by
  obtain ⟨v, t, rfl, hv, ht⟩ := PyStr.exists_solid_append cmd
  have h := words_keyScan rt _ [] v t false rfl PyStr.solid_nil hv ht
  rw [List.nil_append, List.nil_append] at h
  change PyStr.words (keyScan rt false (v ++ t)) = _
  rw [h, PyStr.words_append ht]
  rcases eq_or_ne v [] with rfl | hne
  · rfl
  · rw [PyStr.words_solid hv hne, List.singleton_append, List.singleton_append,
      keyWords_cons_of_not (fun h => Bool.false_ne_true h.1)]

/-! ### Canonical commands -/

/-- The words of a canonical command. -/
def canonicalWords (rt : Runtime) (cmd : PyStr) : List PyStr :=
  (keyWords rt false (PyStr.words cmd)).map (wordForm rt)

theorem solid_keyWords (rt : Runtime) {ws : List PyStr} (h : ∀ w ∈ ws, PyStr.Solid w ∧ w ≠ [])
    (pending : Bool) :
    ∀ w ∈ keyWords rt pending ws, PyStr.Solid w ∧ w ≠ [] := by
  induction ws generalizing pending with
  | nil => nofun
  | cons v ws ih =>
    obtain ⟨hv, hws⟩ := List.forall_mem_cons.mp h
    by_cases hkey : pending ∧ startsKeyBody v
    · rw [keyWords_cons_of hkey.1 hkey.2]
      exact List.forall_mem_cons.mpr
        ⟨⟨solid_hashKeyBody hv.1, hashKeyBody_ne_nil v⟩, ih hws _⟩
    · rw [keyWords_cons_of_not hkey]
      exact List.forall_mem_cons.mpr ⟨hv, ih hws _⟩

theorem length_keyWords (pending : Bool) (ws : List PyStr) :
    (keyWords rt pending ws).length = ws.length := by
  induction ws generalizing pending with
  | nil => rfl
  | cons v ws ih =>
    rw [keyWords]
    split_ifs <;> rw [List.length_cons, List.length_cons, ih]

theorem solid_wordForm {w : PyStr} (hw : PyStr.Solid w) (hne : w ≠ []) :
    PyStr.Solid (wordForm rt w) ∧ wordForm rt w ≠ [] := by
  have hpass := words_wordPass rt w
  rw [PyStr.words_solid hw hne] at hpass
  have hmem : wordPass rt w ∈ PyStr.words (wordPass rt w) := by
    rw [hpass]
    exact List.mem_singleton_self _
  obtain ⟨hsolid, hne'⟩ := PyStr.solid_of_mem_words hmem
  exact ⟨rt.unicode.isSpace_lower _ hsolid, rt.unicode.lower_ne_nil hne'⟩

theorem solid_canonicalWords (cmd : PyStr) :
    ∀ w ∈ canonicalWords rt cmd, PyStr.Solid w ∧ w ≠ [] := by
  intro w hw
  obtain ⟨v, hv, rfl⟩ := List.mem_map.mp hw
  obtain ⟨hsolid, hne⟩ := solid_keyWords rt
    (fun w hw => PyStr.solid_of_mem_words (s := cmd) hw) false v hv
  exact solid_wordForm hsolid hne

/-- **A canonical command is the forms of its words**, joined with spaces. -/
theorem canonicalizeCommand_eq_join (cmd : PyStr) :
    canonicalizeCommand rt cmd = PyStr.join [cp ' '] (canonicalWords rt cmd) := by
  rw [canonicalizeCommand_eq_words, words_keyPass]
  rfl

/-- A canonical command determines its words. -/
theorem words_canonicalizeCommand (cmd : PyStr) :
    PyStr.words (canonicalizeCommand rt cmd) = canonicalWords rt cmd := by
  rw [canonicalizeCommand_eq_join, PyStr.words_join (by decide) (solid_canonicalWords cmd)]

theorem canonicalizeCommand_inj {cmd cmd' : PyStr} :
    canonicalizeCommand rt cmd = canonicalizeCommand rt cmd' ↔
      canonicalWords rt cmd = canonicalWords rt cmd' := by
  constructor
  · intro h
    rw [← words_canonicalizeCommand, h, words_canonicalizeCommand]
  · intro h
    rw [canonicalizeCommand_eq_join, h, ← canonicalizeCommand_eq_join]

/-- A canonical command is one line. -/
theorem newline_notMem_canonicalizeCommand (cmd : PyStr) :
    cp '\n' ∉ canonicalizeCommand rt cmd := by
  rw [canonicalizeCommand_eq_join]
  intro hmem
  rcases PyStr.mem_join hmem with h | ⟨w, hw, h⟩
  · exact absurd h (by decide)
  · exact absurd ((solid_canonicalWords cmd w hw).1 _ h) (by decide)

/-! ### Lines -/

theorem newline_notMem_canonicalLines {commands unknownCommands : List PyStr} :
    ∀ l ∈ canonicalLines rt commands unknownCommands, cp '\n' ∉ l := by
  intro l hl
  rcases List.mem_append.mp hl with hl | hl
  · obtain ⟨c, -, rfl⟩ := List.mem_map.mp hl
    exact newline_notMem_canonicalizeCommand c
  · obtain ⟨c, -, rfl⟩ := List.mem_map.mp hl
    rw [List.mem_append, not_or]
    exact ⟨by decide, newline_notMem_canonicalizeCommand c⟩

/-- The lines of unknown commands determine their canonical forms. -/
theorem map_eq_of_map_tag {us vs : List PyStr}
    (h : us.map (fun c => str "[unknown] " ++ canonicalizeCommand rt c) =
      vs.map fun c => str "[unknown] " ++ canonicalizeCommand rt c) :
    us.map (canonicalizeCommand rt) = vs.map (canonicalizeCommand rt) := by
  have hdrop := congrArg (List.map fun l : PyStr => l.drop (str "[unknown] ").length) h
  simpa only [List.map_map, Function.comp_def, List.drop_left] using hdrop

/-- Two texts of equally many commands are equal exactly if their canonical commands are. -/
theorem canonicalText_eq_iff {commands unknownCommands commands' unknownCommands' : List PyStr}
    (hlen : commands'.length = commands.length)
    (hlen' : unknownCommands'.length = unknownCommands.length) :
    canonicalText rt commands' unknownCommands' = canonicalText rt commands unknownCommands ↔
      commands'.map (canonicalizeCommand rt) = commands.map (canonicalizeCommand rt) ∧
        unknownCommands'.map (canonicalizeCommand rt) =
          unknownCommands.map (canonicalizeCommand rt) := by
  constructor
  · intro h
    have hlines : canonicalLines rt commands' unknownCommands' =
        canonicalLines rt commands unknownCommands :=
      PyStr.join_inj_of_length newline_notMem_canonicalLines newline_notMem_canonicalLines h
        (by simp [canonicalLines, hlen, hlen'])
    obtain ⟨hcommands, hunknown⟩ := List.append_inj hlines (by simp [hlen])
    exact ⟨hcommands, map_eq_of_map_tag hunknown⟩
  · rintro ⟨hcommands, hunknown⟩
    have htag : ∀ us : List PyStr, us.map (fun c => str "[unknown] " ++ canonicalizeCommand rt c) =
        (us.map (canonicalizeCommand rt)).map fun l => str "[unknown] " ++ l := by
      intro us
      rw [List.map_map]
      rfl
    rw [canonicalText, canonicalText, canonicalLines, canonicalLines, htag, htag, hcommands,
      hunknown]

end C2Engine
