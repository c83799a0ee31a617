import C2Engine.Python.Url
import Mathlib.Data.List.Infix

/-!
# URLs that differ in case

Strings of ASCII characters and Kelvin signs fold to lower case character by character, and no
delimiter of a URL comes from or goes to another character. So the authority of such a URL can be
read off before or after the folding, and URLs that are one text in lower case have one host in
lower case.

## Main definitions

* `rawHost`: the host as it is written in an authority.

## Main results

* `partition_map`, `rpartition_map`: a partition of a string that is mapped.
* `lower_hostname_of_lower_eq`: the host name of a URL that is an ASCII text in lower case.
-/

namespace C2Engine.Python

namespace CodePoint

/-- A folded character is an upper case letter that was folded, the Kelvin sign, or as it was. -/
theorem fold_cases (c : CodePoint) :
    (c.val = 0x212A ∧ c.fold = cp 'k') ∨
    (c.between 'A' 'Z' ∧ (c.fold).val = c.val + 32) ∨
    (c.val ≠ 0x212A ∧ c.between 'A' 'Z' = false ∧ c.fold = c) := by
  by_cases hk : c.val = 0x212A
  · exact .inl ⟨hk, by simp [fold, hk]⟩
  · by_cases hu : c.between 'A' 'Z'
    · exact .inr (.inl ⟨hu, by simp [fold, hk, asciiLower, hu]⟩)
    · exact .inr (.inr ⟨hk, by simpa using hu, by simp [fold, hk, asciiLower, hu]⟩)

/-- A character that is no lower case letter is folded from itself only. -/
theorem fold_eq_iff {sep : CodePoint} (hsep : sep.between 'a' 'z' = false)
    (hfix : sep.fold = sep) (c : CodePoint) : c.fold = sep ↔ c = sep := by
  constructor
  · intro h
    rcases fold_cases c with ⟨-, hk⟩ | ⟨hu, hv⟩ | ⟨-, -, heq⟩
    · rw [← h, hk] at hsep
      exact absurd hsep (by decide)
    · have hrange : 65 ≤ c.val ∧ c.val ≤ 90 := by simpa [between] using hu
      rw [h] at hv
      have hlow : sep.between 'a' 'z' = true := by
        simp only [between, Bool.and_eq_true, decide_eq_true_eq]
        change 97 ≤ sep.val ∧ sep.val ≤ 122
        omega
      rw [hlow] at hsep
      exact absurd hsep nofun
    · exact heq.symm.trans h
  · rintro rfl
    exact hfix

/-- Delimiters, none of which is a letter or the Kelvin sign. -/
def areFixed (seps : PyStr) : Bool := seps.all fun d => !d.between 'a' 'z' && d.fold = d

theorem fold_eq_iff_of_mem {seps : PyStr} (h : areFixed seps) {sep : CodePoint}
    (hsep : sep ∈ seps) (c : CodePoint) : c.fold = sep ↔ c = sep := by
  have hfix := List.all_eq_true.mp h sep hsep
  rw [Bool.and_eq_true, Bool.not_eq_true', decide_eq_true_eq] at hfix
  exact fold_eq_iff hfix.1 hfix.2 c

/-- A folded character is ASCII exactly if it was ASCII or the Kelvin sign. -/
theorem isAscii_fold (c : CodePoint) : c.fold.isAscii = c.isFoldable := by
  rcases fold_cases c with ⟨hk, heq⟩ | ⟨hu, hv⟩ | ⟨hk, -, heq⟩
  · have hletter : (cp 'k').isAscii = true := by decide
    rw [heq, isFoldable, hk, hletter, beq_self_eq_true, Bool.or_true]
  · have hrange : 65 ≤ c.val ∧ c.val ≤ 90 := by simpa [between] using hu
    have h₁ : c.fold.isAscii = true := decide_eq_true (by omega)
    have h₂ : c.isAscii = true := decide_eq_true (by omega)
    rw [h₁, isFoldable, h₂, Bool.true_or]
  · rw [heq, isFoldable, beq_false_of_ne hk, Bool.or_false]

theorem fold_fold (c : CodePoint) : c.fold.fold = c.fold := by
  rcases fold_cases c with ⟨-, heq⟩ | ⟨hu, hv⟩ | ⟨-, -, heq⟩
  · rw [heq]
    decide
  · have hrange : 65 ≤ c.val ∧ c.val ≤ 90 := by simpa [between] using hu
    have hup : c.fold.between 'A' 'Z' = false := by
      simp only [between, Bool.and_eq_false_iff, decide_eq_false_iff_not]
      exact .inr (show ¬ c.fold.val ≤ 90 by omega)
    rw [fold, if_neg (by omega), asciiLower, dif_neg (by simp [hup])]
  · rw [heq, heq]

end CodePoint

namespace PyStr

variable {f : CodePoint → CodePoint} {sep : CodePoint}

/-- The partition of a mapped string, where the separator is mapped to from itself only. -/
theorem partition_map (h : ∀ c, f c = sep ↔ c = sep) : (s : PyStr) → partition sep (s.map f) =
    ((partition sep s).1.map f, (partition sep s).2.1, (partition sep s).2.2.map f)
  | [] => rfl
  | c :: s => by
      by_cases hc : c = sep
      · simp [partition, hc, (h sep).mpr rfl]
      · simp [partition, hc, mt (h c).mp hc, partition_map h s]

theorem rpartition_map (h : ∀ c, f c = sep ↔ c = sep) (s : PyStr) : rpartition sep (s.map f) =
    ((rpartition sep s).1.map f, (rpartition sep s).2.1, (rpartition sep s).2.2.map f) := by
  rw [rpartition, rpartition, ← List.map_reverse, partition_map h]
  by_cases hfound : (partition sep s.reverse).2.1
  · simp [hfound]
  · simp [hfound]

end PyStr

/-! ### Authorities -/

/-- The host as it is written in an authority, with a zone. -/
def rawHost (netloc : PyStr) : PyStr := (SplitResult.hostinfo ⟨[], netloc, [], [], []⟩).1

theorem hostinfo_fst (r : SplitResult) : r.hostinfo.1 = rawHost r.netloc := rfl

/-- The host of an authority that is mapped. -/
theorem rawHost_map {f : CodePoint → CodePoint}
    (h : ∀ sep ∈ str "@[]:", ∀ c, f c = sep ↔ c = sep) (netloc : PyStr) :
    rawHost (netloc.map f) = (rawHost netloc).map f := by
  have hat := h (cp '@') (by decide)
  have hopen := h (cp '[') (by decide)
  have hclose := h (cp ']') (by decide)
  have hcolon := h (cp ':') (by decide)
  simp only [rawHost, SplitResult.hostinfo, PyStr.rpartition_map hat, PyStr.partition_map hopen,
    PyStr.partition_map hclose, PyStr.partition_map hcolon]
  split_ifs <;> rfl

theorem partition_fst_isPrefix (sep : CodePoint) (s : PyStr) : (PyStr.partition sep s).1 <+: s :=
  ⟨_, (PyStr.partition_eq sep s).symm⟩

theorem partition_snd_isSuffix (sep : CodePoint) (s : PyStr) :
    (PyStr.partition sep s).2.2 <:+ s := by
  cases hb : (PyStr.partition sep s).2.1 with
  | false =>
    rw [PyStr.partition_snd_eq_nil sep s hb]
    exact List.nil_suffix
  | true =>
    refine ⟨(PyStr.partition sep s).1 ++ [sep], ?_⟩
    conv_rhs => rw [PyStr.partition_eq sep s, hb, if_pos rfl]
    rw [List.append_assoc, List.singleton_append]

theorem rpartition_snd_isSuffix (sep : CodePoint) (s : PyStr) :
    (PyStr.rpartition sep s).2.2 <:+ s := by
  simp only [PyStr.rpartition]
  split_ifs
  · have h := List.reverse_suffix.mpr (partition_fst_isPrefix sep s.reverse)
    rwa [List.reverse_reverse] at h
  · exact List.suffix_rfl

/-- The host is a run of the authority. -/
theorem rawHost_isInfix (netloc : PyStr) : rawHost netloc <:+: netloc := by
  have hinfo := (rpartition_snd_isSuffix (cp '@') netloc).isInfix
  simp only [rawHost, SplitResult.hostinfo]
  split_ifs
  · exact ((partition_fst_isPrefix _ _).isInfix.trans
      (partition_snd_isSuffix _ _).isInfix).trans hinfo
  · exact (partition_fst_isPrefix _ _).isInfix.trans hinfo

/-- The host is a part of the authority. -/
theorem rawHost_sublist (netloc : PyStr) : (rawHost netloc).Sublist netloc :=
  (rawHost_isInfix netloc).sublist

/-- The authority is a run of what is read of the URL. -/
theorem netloc_isInfix {uni : Unicode} {url : PyStr} {r : SplitResult}
    (h : urlsplit uni url = .ok r) : r.netloc <:+: cleanUrl url := by
  have hscheme : (splitScheme uni (cleanUrl url)).2 <:+ cleanUrl url := by
    simp only [splitScheme]
    split_ifs
    · exact partition_snd_isSuffix _ _
    · exact List.suffix_rfl
  simp only [urlsplit] at h
  split_ifs at h
  · obtain ⟨-, -, h⟩ := bind_eq_ok.mp h
    cases h
    exact ((List.takeWhile_prefix _).isInfix.trans (List.drop_suffix _ _).isInfix).trans
      hscheme.isInfix
  · cases h
    exact List.nil_infix

/-- The host name of a URL in lower case, where characters fold one by one. -/
theorem lower_hostname {uni : Unicode} {r : SplitResult}
    (h : r.netloc.all CodePoint.isFoldable) :
    uni.lower (r.hostname uni) = (rawHost r.netloc).map CodePoint.fold := by
  have hall : ∀ s : PyStr, s.Sublist r.netloc → uni.lower s = s.map CodePoint.fold := fun s hs =>
    uni.lower_foldable s (List.all_eq_true.mpr fun c hc =>
      List.all_eq_true.mp h c (hs.subset hc))
  have hraw := rawHost_sublist r.netloc
  have hpart := PyStr.partition_eq (cp '%') (rawHost r.netloc)
  rw [SplitResult.hostname, hostinfo_fst]
  dsimp only
  set p := PyStr.partition (cp '%') (rawHost r.netloc) with hp
  have hfst : p.1.Sublist r.netloc := (PyStr.partition_fst_sublist _ _).trans hraw
  have hsnd : p.2.2.Sublist r.netloc := (PyStr.partition_snd_sublist _ _).trans hraw
  have hfold : ∀ s : PyStr, (s.map CodePoint.fold).map CodePoint.fold = s.map CodePoint.fold := by
    intro s
    rw [List.map_map]
    exact List.map_congr_left fun c _ => CodePoint.fold_fold c
  have hfoldable : ∀ s : PyStr, s.Sublist r.netloc →
      (s.map CodePoint.fold).all CodePoint.isFoldable := by
    intro s hs
    rw [List.all_map]
    refine List.all_eq_true.mpr fun c hc => ?_
    have hascii : c.fold.isAscii = true :=
      (CodePoint.isAscii_fold c).trans (List.all_eq_true.mp h c (hs.subset hc))
    simp [CodePoint.isFoldable, hascii]
  rw [hall _ hfst]
  split_ifs with hpercent
  · rw [hpercent, if_pos rfl] at hpart
    have hzone : p.2.2.all CodePoint.isFoldable := List.all_eq_true.mpr fun c hc =>
      List.all_eq_true.mp h c (hsnd.subset hc)
    have hpercentFold : (cp '%').isFoldable = true := by decide
    rw [uni.lower_foldable, List.map_append, hfold]
    · conv_rhs => rw [hpart, List.map_append]
    · rw [List.all_append, hfoldable _ hfst, List.all_cons, hpercentFold, hzone]
      rfl
  · rw [Bool.not_eq_true] at hpercent
    rw [hpercent, if_neg Bool.false_ne_true, List.append_nil] at hpart
    rw [uni.lower_foldable _ (hfoldable _ hfst), hfold, ← hpart]

/-! ### URLs -/

/-- A URL without blanks and control characters is read as it is. -/
theorem cleanUrl_of_visible {url : PyStr} (h : ∀ c ∈ url, 0x20 < c.val) : cleanUrl url = url := by
  have hstrip : PyStr.lstrip (fun c => decide (c.val ≤ 0x20)) url = url := by
    cases url with
    | nil => rfl
    | cons c s =>
      have hc := h c List.mem_cons_self
      exact List.dropWhile_cons_of_neg (by simpa using hc)
  rw [cleanUrl, hstrip, List.filter_eq_self]
  intro c hc
  have hlt := h c hc
  have hnot : c ∉ str "\t\r\n" := by
    intro hmem
    have hle : (str "\t\r\n").all (fun d => d.val ≤ 0x20) := by decide
    have hc := List.all_eq_true.mp hle c hmem
    exact absurd (of_decide_eq_true hc) (by omega)
  simpa [PyStr.oneOf] using hnot

/-- What a scheme is made of. -/
structure IsScheme (s : PyStr) : Prop where
  head : s.head?.any CodePoint.isAsciiAlpha
  chars : s.all isSchemeChar

/-- The authority of a URL with a scheme. -/
theorem netloc_of_scheme {uni : Unicode} {scheme rest : PyStr} {r : SplitResult}
    (hscheme : IsScheme scheme) (hvisible : ∀ c ∈ scheme ++ str "://" ++ rest, 0x20 < c.val)
    (h : urlsplit uni (scheme ++ str "://" ++ rest) = .ok r) :
    r.netloc = rest.takeWhile fun c => !isNetlocEnd c := by
  have hcolon : cp ':' ∉ scheme := by
    intro hmem
    have hchar := List.all_eq_true.mp hscheme.chars _ hmem
    exact absurd hchar (by decide)
  have hsplit : splitScheme uni (scheme ++ str "://" ++ rest) =
      (uni.lower scheme, str "//" ++ rest) := by
    have hpart := PyStr.partition_append (str "//" ++ rest) hcolon
    have heq : scheme ++ str "://" ++ rest = scheme ++ cp ':' :: (str "//" ++ rest) := by
      rw [List.append_assoc]
      rfl
    rw [splitScheme, heq, hpart]
    simp [hscheme.head, hscheme.chars]
  rw [urlsplit, cleanUrl_of_visible hvisible, hsplit] at h
  dsimp only at h
  have hslashes : (str "//").isPrefixOf (str "//" ++ rest) = true := by simp
  rw [if_pos hslashes] at h
  obtain ⟨-, -, h⟩ := bind_eq_ok.mp h
  cases h
  rfl

/-- The schemes of URLs that are fetched, in lower case. -/
def fetchSchemes : List PyStr := [str "http", str "https", str "ftp", str "tftp"]

theorem isScheme_of_mem {scheme : PyStr} (h : scheme ∈ fetchSchemes) : IsScheme scheme := by
  simp only [fetchSchemes, List.mem_cons, List.not_mem_nil, or_false] at h
  rcases h with rfl | rfl | rfl | rfl <;> exact ⟨by decide, by decide⟩

/-- What folds to a letter other than `k` is a letter. -/
theorem isAsciiAlpha_of_fold {c : CodePoint} (h : c.fold.between 'a' 'z') (hk : c.fold ≠ cp 'k') :
    c.isAsciiAlpha := by
  rcases CodePoint.fold_cases c with ⟨-, heq⟩ | ⟨hu, -⟩ | ⟨-, -, heq⟩
  · exact absurd heq hk
  · simp [CodePoint.isAsciiAlpha, hu]
  · rw [heq] at h
    simp [CodePoint.isAsciiAlpha, h]

/-- What folds to the scheme of a URL is a scheme. -/
theorem isScheme_of_fold {scheme s : PyStr} (h : scheme ∈ fetchSchemes)
    (hfold : s.map CodePoint.fold = scheme) : IsScheme s := by
  have hall : fetchSchemes.all fun scheme => scheme ≠ [] ∧
      scheme.all (fun c => c.between 'a' 'z' ∧ c ≠ cp 'k') := by
    decide
  obtain ⟨hne, hletters⟩ := of_decide_eq_true (List.all_eq_true.mp hall scheme h)
  replace hletters : ∀ c ∈ scheme, c.between 'a' 'z' ∧ c ≠ cp 'k' := fun c hc =>
    of_decide_eq_true (List.all_eq_true.mp hletters c hc)
  have halpha : ∀ c ∈ s, c.isAsciiAlpha := by
    intro c hc
    have hmem : c.fold ∈ scheme := hfold ▸ List.mem_map_of_mem hc
    exact isAsciiAlpha_of_fold (hletters _ hmem).1 (hletters _ hmem).2
  constructor
  · cases s with
    | nil => exact absurd hfold.symm hne
    | cons c s => exact halpha c List.mem_cons_self
  · refine List.all_eq_true.mpr fun c hc => ?_
    simp [isSchemeChar, CodePoint.isAsciiAlnum, halpha c hc]

/-- A URL with a scheme, of visible ASCII characters. -/
structure IsVisibleUrl (url : PyStr) : Prop where
  visible : ∀ c ∈ url, 0x20 < c.val ∧ c.isAscii
  scheme : ∃ scheme ∈ fetchSchemes, ∃ rest, url = scheme ++ str "://" ++ rest

/-- **The host of a URL that is an ASCII text in lower case**: it is the host of that text. -/
theorem lower_hostname_of_lower_eq {uni : Unicode} {url url' : PyStr} {r r' : SplitResult}
    (hurl' : IsVisibleUrl url') (hlower : uni.lower url = url')
    (h : urlsplit uni url = .ok r) (h' : urlsplit uni url' = .ok r') :
    uni.lower (r.hostname uni) = uni.lower (r'.hostname uni) := by
  have hfold : url.map CodePoint.fold = url' := by
    rw [← hlower]
    refine (uni.lower_eq_ascii url ?_).symm
    rw [hlower]
    exact List.all_eq_true.mpr fun c hc => (hurl'.visible c hc).2
  have hfoldable : ∀ c ∈ url, c.isFoldable := by
    intro c hc
    rw [← CodePoint.isAscii_fold]
    exact (hurl'.visible _ (hfold ▸ List.mem_map_of_mem hc)).2
  obtain ⟨scheme, hscheme, rest', heq'⟩ := hurl'.scheme
  -- the parts of the text come from parts of the URL
  rw [heq'] at hfold
  obtain ⟨front, rest, rfl, hfront, hrest⟩ := List.map_eq_append_iff.mp hfold
  obtain ⟨s, sep, rfl, hs, hsep⟩ := List.map_eq_append_iff.mp hfront
  have hsepEq : sep = str "://" := by
    have hmap : ∀ {t : PyStr}, t ⊆ str "://" → ∀ {x : PyStr}, x.map CodePoint.fold = t → x = t := by
      intro t ht
      induction t with
      | nil => exact fun hx => List.map_eq_nil_iff.mp hx
      | cons d t ih =>
        intro x hx
        obtain ⟨c, x', rfl, hc, hx'⟩ := List.map_eq_cons_iff.mp hx
        obtain ⟨hd, ht'⟩ := List.cons_subset.mp ht
        have hfixed : CodePoint.areFixed (str "://") := by decide
        rw [(CodePoint.fold_eq_iff_of_mem hfixed hd c).mp hc, ih ht' hx']
    exact hmap (List.Subset.refl _) hsep
  subst hsepEq
  have hvisible : ∀ c ∈ s ++ str "://" ++ rest, 0x20 < c.val := by
    intro c hc
    have hmem : c.fold ∈ url' := heq' ▸ hfold ▸ List.mem_map_of_mem hc
    have hlt := (hurl'.visible _ hmem).1
    rcases CodePoint.fold_cases c with ⟨hk, -⟩ | ⟨hu, -⟩ | ⟨-, -, hsame⟩
    · omega
    · have hrange : 65 ≤ c.val ∧ c.val ≤ 90 := by simpa [CodePoint.between] using hu
      omega
    · rwa [hsame] at hlt
  have hnetloc := netloc_of_scheme (isScheme_of_fold hscheme hs) hvisible h
  have hnetloc' : r'.netloc = rest'.takeWhile fun c => !isNetlocEnd c := by
    refine netloc_of_scheme (isScheme_of_mem hscheme) (fun c hc => ?_) (heq' ▸ h')
    exact (hurl'.visible c (heq' ▸ hc)).1
  have hends : ∀ c : CodePoint, isNetlocEnd c.fold = isNetlocEnd c := by
    intro c
    have hfixed : CodePoint.areFixed (str "/?#") := by decide
    rw [Bool.eq_iff_iff, isNetlocEnd, isNetlocEnd, PyStr.oneOf, PyStr.oneOf, List.elem_iff,
      List.elem_iff]
    constructor
    · intro hmem
      have heq : c = c.fold := (CodePoint.fold_eq_iff_of_mem hfixed hmem c).mp rfl
      rwa [← heq] at hmem
    · intro hmem
      rwa [(CodePoint.fold_eq_iff_of_mem hfixed hmem c).mpr rfl]
  have hmap : r'.netloc = r.netloc.map CodePoint.fold := by
    rw [hnetloc, hnetloc', ← hrest, List.takeWhile_map]
    congr 2
    funext c
    simp [hends]
  have hall : r.netloc.all CodePoint.isFoldable := by
    refine List.all_eq_true.mpr fun c hc => hfoldable c ?_
    rw [hnetloc] at hc
    exact List.mem_append_right _ ((List.takeWhile_sublist _).subset hc)
  have hall' : r'.netloc.all CodePoint.isFoldable := by
    rw [hmap, List.all_map]
    refine List.all_eq_true.mpr fun c hc => ?_
    have hascii : c.fold.isAscii = true :=
      (CodePoint.isAscii_fold c).trans (List.all_eq_true.mp hall c hc)
    simp [CodePoint.isFoldable, hascii]
  have hfixed : CodePoint.areFixed (str "@[]:") := by decide
  have hdelimiters : ∀ sep ∈ str "@[]:", ∀ c : CodePoint, c.fold = sep ↔ c = sep := fun sep hmem =>
    CodePoint.fold_eq_iff_of_mem hfixed hmem
  rw [lower_hostname hall, lower_hostname hall', hmap, rawHost_map hdelimiters, List.map_map]
  exact List.map_congr_left fun c _ => (CodePoint.fold_fold c).symm

end C2Engine.Python
