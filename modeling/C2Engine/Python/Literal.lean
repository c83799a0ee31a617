import C2Engine.Python.IpAddress
import C2Engine.Python.Join

/-!
# The spelling of IP literals

An IPv4 literal is four numbers up to 255 without leading zeros, so an IPv4 address has one literal.
An IPv6 literal without a zone is made of hexadecimal digits, colons and dots; an IPv6 address has
many literals.

## Main results

* `parseIpv4_inj`: an IPv4 address has one literal.
* `isIpv4Char_of_parseIpv4`, `isIpv6Char_of_ipv6Value`: the characters of literals.
* `isIpLiteral_iff_octets`, `isIpLiteral_iff_hextets`: which runs of digits between dots, and which
  runs of hexadecimal digits between colons, are literals.
-/

namespace C2Engine.Python

/-! ### Loops over parts -/

/-- A loop that fails nowhere gives the results of its items. -/
theorem mapM_eq_some_iff {α β : Type} {f : α → Option β} : {xs : List α} → {ys : List β} →
    (xs.mapM f = some ys ↔ xs.map f = ys.map some)
  | [], ys => by
      cases ys <;> simp
  | x :: xs, ys => by
      rw [List.mapM_cons]
      cases hx : f x with
      | none =>
        cases ys <;> simp [hx]
      | some y =>
        cases hxs : xs.mapM f with
        | none =>
          have hnone : ∀ zs : List β, xs.map f ≠ zs.map some := fun zs h => by
            rw [← mapM_eq_some_iff, hxs] at h
            cases h
          cases ys with
          | nil => simp
          | cons z zs => simp [hx, hnone zs]
        | some ys' =>
          rw [mapM_eq_some_iff] at hxs
          cases ys with
          | nil => simp
          | cons z zs =>
            simp only [Option.bind_eq_bind, Option.bind_some, Option.pure_def, Option.some.injEq,
              List.cons.injEq, List.map_cons, hx, hxs]
            rw [(List.map_injective_iff.mpr (Option.some_injective β)).eq_iff]

theorem isSome_mapM {α β : Type} {f : α → Option β} {xs : List α} :
    (xs.mapM f).isSome ↔ ∀ x ∈ xs, (f x).isSome := by
  constructor
  · intro h x hx
    obtain ⟨ys, hys⟩ := Option.isSome_iff_exists.mp h
    rw [mapM_eq_some_iff] at hys
    have hmem : f x ∈ ys.map some := hys ▸ List.mem_map_of_mem hx
    obtain ⟨y, -, hy⟩ := List.mem_map.mp hmem
    exact Option.isSome_iff_exists.mpr ⟨y, hy.symm⟩
  · intro h
    have hys : xs.mapM f = some (xs.filterMap f) := by
      rw [mapM_eq_some_iff]
      induction xs with
      | nil => rfl
      | cons x xs ih =>
        obtain ⟨y, hy⟩ := Option.isSome_iff_exists.mp (h x List.mem_cons_self)
        rw [List.map_cons, List.filterMap_cons_some hy, List.map_cons, hy,
          ih fun x' hx' => h x' (List.mem_cons_of_mem x hx')]
    exact Option.isSome_iff_exists.mpr ⟨_, hys⟩

/-! ### IPv4 -/

/-- The number of an octet: up to three digits, up to 255, with no zero in front. -/
structure IsOctet (s : PyStr) : Prop where
  ne_nil : s ≠ []
  digits : ∀ c ∈ s, c.isAsciiDigit
  length_le : s.length ≤ 3
  no_zero : s = str "0" ∨ s.head? ≠ some (cp '0')
  le : digitsValue 10 decValue s ≤ 255

instance (s : PyStr) : Decidable (IsOctet s) :=
  decidable_of_iff (s ≠ [] ∧ s.all CodePoint.isAsciiDigit ∧ s.length ≤ 3 ∧
    (s = str "0" ∨ s.head? ≠ some (cp '0')) ∧ digitsValue 10 decValue s ≤ 255)
    ⟨fun ⟨h₁, h₂, h₃, h₄, h₅⟩ => ⟨h₁, List.all_eq_true.mp h₂, h₃, h₄, h₅⟩,
      fun ⟨h₁, h₂, h₃, h₄, h₅⟩ => ⟨h₁, List.all_eq_true.mpr h₂, h₃, h₄, h₅⟩⟩

theorem parseOctet_eq_some {s : PyStr} {n : ℕ} :
    parseOctet s = some n ↔ IsOctet s ∧ digitsValue 10 decValue s = n := by
  constructor
  · intro h
    rw [parseOctet] at h
    dsimp only at h
    split_ifs at h with h₁ h₂ h₃
    simp only [Bool.or_eq_true, Bool.not_eq_true', decide_eq_true_eq, not_or, Bool.not_eq_false,
      List.isEmpty_iff, List.all_eq_true, not_lt] at h₁
    obtain ⟨⟨hne, hdigits⟩, hlen⟩ := h₁
    refine ⟨⟨hne, hdigits, hlen, ?_, not_lt.mp h₃⟩, Option.some.inj h⟩
    simp only [Bool.and_eq_true, bne_iff_ne, ne_eq, beq_iff_eq, not_and_or, not_not] at h₂
    exact h₂
  · rintro ⟨⟨hne, hdigits, hlen, hzero, hle⟩, rfl⟩
    have h₁ : ¬ (s.isEmpty || !s.all CodePoint.isAsciiDigit || decide (3 < s.length)) = true := by
      simp only [Bool.or_eq_true, Bool.not_eq_true', decide_eq_true_eq, not_or, Bool.not_eq_false,
        List.isEmpty_iff, List.all_eq_true, not_lt]
      exact ⟨⟨hne, hdigits⟩, hlen⟩
    have h₂ : ¬ (s != str "0" && s.head? == some (cp '0')) = true := by
      simp only [Bool.and_eq_true, bne_iff_ne, ne_eq, beq_iff_eq, not_and_or, not_not]
      exact hzero
    rw [parseOctet, if_neg h₁, if_neg h₂]
    exact if_neg (not_lt.mpr hle)

theorem isSome_parseOctet {s : PyStr} : (parseOctet s).isSome ↔ IsOctet s := by
  rw [Option.isSome_iff_exists]
  exact ⟨fun ⟨n, h⟩ => (parseOctet_eq_some.mp h).1, fun h => ⟨_, parseOctet_eq_some.mpr ⟨h, rfl⟩⟩⟩

theorem val_of_isAsciiDigit {c : CodePoint} (h : c.isAsciiDigit) : 48 ≤ c.val ∧ c.val ≤ 57 := by
  simpa [CodePoint.isAsciiDigit, CodePoint.between] using h

/-- An octet has one spelling. -/
theorem isOctet_inj {s t : PyStr} (hs : IsOctet s) (ht : IsOctet t)
    (h : digitsValue 10 decValue s = digitsValue 10 decValue t) : s = t := by
  -- a spelling by its digits
  have hform : ∀ {s : PyStr}, IsOctet s →
      (∃ a : CodePoint, s = [a] ∧ 48 ≤ a.val ∧ a.val ≤ 57) ∨
      (∃ a b : CodePoint, s = [a, b] ∧ 49 ≤ a.val ∧ a.val ≤ 57 ∧ 48 ≤ b.val ∧ b.val ≤ 57) ∨
      (∃ a b c : CodePoint, s = [a, b, c] ∧ 49 ≤ a.val ∧ a.val ≤ 57 ∧ 48 ≤ b.val ∧
        b.val ≤ 57 ∧ 48 ≤ c.val ∧ c.val ≤ 57) := by
    intro s hs
    have hdigit : ∀ c ∈ s, 48 ≤ c.val ∧ c.val ≤ 57 := fun c hc =>
      val_of_isAsciiDigit (hs.digits c hc)
    have hhead : ∀ {a b : CodePoint} {t : PyStr}, s = a :: b :: t → 49 ≤ a.val := by
      rintro a b t rfl
      have ha := (hdigit a List.mem_cons_self).1
      have hne : a ≠ cp '0' := by
        rintro rfl
        rcases hs.no_zero with h | h
        · exact absurd (congrArg List.length h) (by simp [str_eq])
        · exact h rfl
      have hval : a.val ≠ 48 := fun hval => hne (Fin.ext hval)
      omega
    rcases s with _ | ⟨a, _ | ⟨b, _ | ⟨c, _ | ⟨d, t⟩⟩⟩⟩
    · exact absurd rfl hs.ne_nil
    · exact .inl ⟨a, rfl, hdigit a (by simp)⟩
    · have hb := hdigit b (by simp)
      exact .inr (.inl ⟨a, b, rfl, hhead rfl, (hdigit a (by simp)).2, hb⟩)
    · have hb := hdigit b (by simp)
      have hc := hdigit c (by simp)
      exact .inr (.inr ⟨a, b, c, rfl, hhead rfl, (hdigit a (by simp)).2, hb.1, hb.2, hc⟩)
    · have hlen := hs.length_le
      simp only [List.length_cons] at hlen
      omega
  have hcons : ∀ {x y : CodePoint} {u v : PyStr}, x.val = y.val → u = v → x :: u = y :: v := by
    rintro x y u _ hxy rfl
    rw [Fin.ext hxy]
  rcases hform hs with ⟨a, rfl, ha⟩ | ⟨a, b, rfl, ha⟩ | ⟨a, b, c, rfl, ha⟩ <;>
    rcases hform ht with ⟨x, rfl, hx⟩ | ⟨x, y, rfl, hx⟩ | ⟨x, y, z, rfl, hx⟩ <;>
    simp only [digitsValue, decValue, List.foldl_cons, List.foldl_nil] at h
  · exact hcons (by omega) rfl
  · omega
  · omega
  · omega
  · exact hcons (by omega) (hcons (by omega) rfl)
  · omega
  · omega
  · omega
  · exact hcons (by omega) (hcons (by omega) (hcons (by omega) rfl))

/-- The numbers of an IPv4 literal. -/
theorem parseIpv4_eq_some {s : PyStr} {n : ℕ} : parseIpv4 s = some n ↔
    cp '/' ∉ s ∧ ∃ a b c d, (PyStr.split (cp '.') s).map parseOctet =
      [some a, some b, some c, some d] ∧ ((a * 256 + b) * 256 + c) * 256 + d = n := by
  rw [parseIpv4]
  split_ifs with hslash
  · exact iff_of_false nofun fun h => h.1 (List.elem_iff.mp hslash)
  · have hnot : cp '/' ∉ s := fun h => hslash (List.elem_iff.mpr h)
    cases hm : (PyStr.split (cp '.') s).mapM parseOctet with
    | none =>
      refine iff_of_false nofun ?_
      rintro ⟨-, a, b, c, d, hmap, -⟩
      have hsome : (PyStr.split (cp '.') s).mapM parseOctet = some [a, b, c, d] :=
        mapM_eq_some_iff.mpr hmap
      rw [hm] at hsome
      cases hsome
    | some ns =>
      have hmap := mapM_eq_some_iff.mp hm
      rw [hmap]
      match ns with
      | [a, b, c, d] =>
        simp [hnot]
      | [] | [_] | [_, _] | [_, _, _] | _ :: _ :: _ :: _ :: _ :: _ => simp

theorem lt_of_parseOctet {s : PyStr} {n : ℕ} (h : parseOctet s = some n) : n < 256 := by
  obtain ⟨hoctet, rfl⟩ := parseOctet_eq_some.mp h
  exact Nat.lt_succ_of_le hoctet.le

/-- **An IPv4 address has one literal.** -/
theorem parseIpv4_inj {s t : PyStr} {n : ℕ} (hs : parseIpv4 s = some n)
    (ht : parseIpv4 t = some n) : s = t := by
  obtain ⟨-, a, b, c, d, hs, hn⟩ := parseIpv4_eq_some.mp hs
  obtain ⟨-, a', b', c', d', ht, hn'⟩ := parseIpv4_eq_some.mp ht
  have hlt : ∀ {s : PyStr} {ns : List (Option ℕ)} {m : ℕ},
      (PyStr.split (cp '.') s).map parseOctet = ns → some m ∈ ns → m < 256 := by
    rintro s _ m rfl hm
    obtain ⟨p, -, hp⟩ := List.mem_map.mp hm
    exact lt_of_parseOctet hp
  have ha := hlt hs (m := a) (by simp)
  have hb := hlt hs (m := b) (by simp)
  have hc := hlt hs (m := c) (by simp)
  have hd := hlt hs (m := d) (by simp)
  have ha' := hlt ht (m := a') (by simp)
  have hb' := hlt ht (m := b') (by simp)
  have hc' := hlt ht (m := c') (by simp)
  have hd' := hlt ht (m := d') (by simp)
  obtain ⟨rfl, rfl, rfl, rfl⟩ : a = a' ∧ b = b' ∧ c = c' ∧ d = d' := by omega
  have hparts : PyStr.split (cp '.') s = PyStr.split (cp '.') t := by
    have heq : ∀ {xs ys : List PyStr}, (∀ x ∈ xs, (parseOctet x).isSome) →
        xs.map parseOctet = ys.map parseOctet → xs = ys := by
      intro xs
      induction xs with
      | nil => exact fun _ h => (List.map_eq_nil_iff.mp h.symm).symm
      | cons x xs ih =>
        intro ys hsome h
        obtain ⟨y, ys, rfl, hy, hys⟩ := List.map_eq_cons_iff.mp h.symm
        obtain ⟨k, hk⟩ := Option.isSome_iff_exists.mp (hsome x List.mem_cons_self)
        obtain ⟨hx, hxk⟩ := parseOctet_eq_some.mp hk
        obtain ⟨hy, hyk⟩ := parseOctet_eq_some.mp (hy.trans hk)
        rw [isOctet_inj hx hy (hxk.trans hyk.symm),
          ih (fun x' hx' => hsome x' (List.mem_cons_of_mem x hx')) hys.symm]
    refine heq (fun x hx => ?_) (hs.trans ht.symm)
    have hmem : parseOctet x ∈ [some a, some b, some c, some d] := hs ▸ List.mem_map_of_mem hx
    simp only [List.mem_cons, List.not_mem_nil, or_false] at hmem
    rcases hmem with h | h | h | h <;> rw [h] <;> rfl
  rw [← PyStr.join_split (cp '.') s, hparts, PyStr.join_split]

/-- The parts of an IPv4 literal are octets. -/
theorem isOctet_of_parseIpv4 {s p : PyStr} {n : ℕ} (h : parseIpv4 s = some n)
    (hp : p ∈ PyStr.split (cp '.') s) : IsOctet p := by
  obtain ⟨-, a, b, c, d, hs, -⟩ := parseIpv4_eq_some.mp h
  have hmem : parseOctet p ∈ [some a, some b, some c, some d] := hs ▸ List.mem_map_of_mem hp
  refine isSome_parseOctet.mp ?_
  simp only [List.mem_cons, List.not_mem_nil, or_false] at hmem
  rcases hmem with h | h | h | h <;> rw [h] <;> rfl

/-- An IPv4 literal is made of digits and dots. -/
theorem isIpv4Char_of_parseIpv4 {s : PyStr} {n : ℕ} (h : parseIpv4 s = some n) {c : CodePoint}
    (hc : c ∈ s) : c.isAsciiDigit ∨ c = cp '.' := by
  by_cases hdot : c = cp '.'
  · exact .inr hdot
  · obtain ⟨p, hp, hcp⟩ := PyStr.exists_mem_split hc hdot
    exact .inl ((isOctet_of_parseIpv4 h hp).digits c hcp)

/-! ### IPv6 -/

/-- The parts of a list are hexadecimal. -/
def AllHex (parts : List PyStr) : Prop := ∀ p ∈ parts, ∀ c ∈ p, c.isHexDigit

theorem allHex_of_hextetsValue {acc m : ℕ} {parts : List PyStr}
    (h : hextetsValue acc parts = some m) : AllHex parts := by
  intro p hp c hc
  rw [hextetsValue, Option.map_eq_some_iff] at h
  obtain ⟨ns, hns, -⟩ := h
  have hsome := isSome_mapM.mp (Option.isSome_iff_exists.mpr ⟨ns, hns⟩) p hp
  rw [parseHextet] at hsome
  split_ifs at hsome with hbad
  · cases hsome
  · simp only [Bool.or_eq_true, Bool.not_eq_true', not_or, Bool.not_eq_false,
      List.all_eq_true] at hbad
    exact hbad.1.2 c hc

/-- One side of `::`, which is left out where it is one empty part. -/
def ipv6Side (outer : Option PyStr) (side : List PyStr) : Option (List PyStr) :=
  if outer.any List.isEmpty then (if side.length = 1 then some [] else none) else some side

/-- The value of the parts on both sides of `::`. -/
def ipv6Sides (suffix : Option (ℕ × ℕ)) (tailValue : ℕ → ℕ) (hi lo : List PyStr) : Option ℕ :=
  let known := hi.length + lo.length + (if suffix.isSome then 2 else 0)
  if 8 ≤ known then none
  else (hextetsValue 0 hi).bind fun top =>
    (hextetsValue (top * 0x10000 ^ (8 - known)) lo).map tailValue

theorem ipv6Value_cases {s : PyStr} {n : ℕ} (h : ipv6Value s = some n) :
    ∃ heads suffix tailValue inner, ipv6Parts s = some (heads, suffix) ∧
      inner = (if suffix.isSome then heads.tail else heads.tail.dropLast) ∧
      ((inner.filter List.isEmpty = [] ∧ heads.length + (if suffix.isSome then 2 else 0) = 8 ∧
          ∃ m, hextetsValue 0 heads = some m) ∨
        ∃ p hi lo, inner.filter List.isEmpty = [p] ∧
          ipv6Side (heads.take (1 + inner.findIdx List.isEmpty)).head?
            (heads.take (1 + inner.findIdx List.isEmpty)) = some hi ∧
          ipv6Side (if suffix.isNone then
              (heads.drop (1 + inner.findIdx List.isEmpty + 1)).getLast? else none)
            (heads.drop (1 + inner.findIdx List.isEmpty + 1)) = some lo ∧
          ipv6Sides suffix tailValue hi lo = some n) := by
  rw [ipv6Value] at h
  by_cases hnil : s.isEmpty
  · rw [if_pos hnil] at h
    cases h
  rw [if_neg hnil] at h
  obtain ⟨⟨heads, suffix⟩, hparts, h⟩ := Option.bind_eq_some_iff.mp h
  dsimp only at h
  by_cases hnine : 9 < heads.length + if suffix.isSome then 2 else 0
  · rw [if_pos hnine] at h
    cases h
  rw [if_neg hnine] at h
  refine ⟨heads, suffix, fun acc =>
    (suffix.map fun p => (acc * 0x10000 + p.1) * 0x10000 + p.2).getD acc, _, hparts, rfl, ?_⟩
  split at h
  · next hfilter =>
    by_cases height : heads.length + (if suffix.isSome then 2 else 0) ≠ 8
    · rw [if_pos height] at h
      cases h
    · rw [if_neg height] at h
      obtain ⟨m, hm, -⟩ := Option.map_eq_some_iff.mp h
      exact .inl ⟨hfilter, not_not.mp height, m, hm⟩
  · next p hfilter =>
    refine .inr ⟨p, ?_⟩
    generalize 1 + List.findIdx List.isEmpty _ = skip at h ⊢
    -- the two sides, each with its outer end looked at
    have hside : ∀ {outer : Option PyStr} {side : List PyStr} {f : List PyStr → Option ℕ},
        (if outer.any List.isEmpty = true then
          (if side.length = 1 then some [] else none) >>= f else some side >>= f) = some n →
        ∃ side', ipv6Side outer side = some side' ∧ f side' = some n := by
      intro outer side f h
      rw [ipv6Side]
      split_ifs at h ⊢
      · exact ⟨_, rfl, h⟩
      · cases h
      · exact ⟨_, rfl, h⟩
    obtain ⟨hi, hhi, h⟩ := hside h
    have houter : (suffix.isNone && Option.any List.isEmpty (heads.drop (skip + 1)).getLast?) =
        Option.any List.isEmpty
          (if suffix.isNone then (heads.drop (skip + 1)).getLast? else none) := by
      cases suffix <;> rfl
    rw [houter] at h
    obtain ⟨lo, hlo, h⟩ := hside h
    exact ⟨hi, lo, hfilter, hhi, hlo, h⟩
  · cases h

/-- A side of `::` whose outer end is empty is that end alone. -/
theorem allHex_of_ipv6Side {side side' : List PyStr} {outer : Option PyStr}
    (houter : ∀ p, outer = some p → side.length = 1 → side = [p])
    (h : ipv6Side outer side = some side') (hhex : AllHex side') : AllHex side := by
  rw [ipv6Side] at h
  split_ifs at h with hany hlen
  · obtain ⟨p, hp, hempty⟩ := Option.any_eq_true _ _ |>.mp hany
    rw [houter p hp hlen, List.isEmpty_iff.mp hempty]
    intro q hq c hc
    obtain rfl := List.mem_singleton.mp hq
    cases hc
  · obtain rfl := Option.some.inj h
    exact hhex

theorem allHex_of_ipv6Sides {suffix : Option (ℕ × ℕ)} {tailValue : ℕ → ℕ} {hi lo : List PyStr}
    {n : ℕ} (h : ipv6Sides suffix tailValue hi lo = some n) : AllHex hi ∧ AllHex lo := by
  rw [ipv6Sides] at h
  by_cases hknown : 8 ≤ hi.length + lo.length + (if suffix.isSome then 2 else 0)
  · rw [if_pos hknown] at h
    cases h
  rw [if_neg hknown] at h
  obtain ⟨top, htop, h⟩ := Option.bind_eq_some_iff.mp h
  obtain ⟨m, hm, -⟩ := Option.map_eq_some_iff.mp h
  exact ⟨allHex_of_hextetsValue htop, allHex_of_hextetsValue hm⟩

/-- The parts of an IPv6 literal between its colons are hexadecimal. -/
theorem allHex_of_ipv6Value {s : PyStr} {n : ℕ} (h : ipv6Value s = some n) :
    ∃ heads suffix, ipv6Parts s = some (heads, suffix) ∧ AllHex heads := by
  obtain ⟨heads, suffix, tailValue, inner, hparts, hinner, hcases⟩ := ipv6Value_cases h
  refine ⟨heads, suffix, hparts, ?_⟩
  have hfront : inner <+: heads.tail := by
    rw [hinner]
    split_ifs
    · exact List.prefix_rfl
    · exact List.dropLast_prefix _
  rcases hcases with ⟨-, -, m, hm⟩ | ⟨q, hi, lo, hfilter, hhi, hlo, hsides⟩
  · exact allHex_of_hextetsValue hm
  · set skip := 1 + inner.findIdx List.isEmpty with hskip
    -- the part at the place of `::` is empty
    have hgap : heads[skip]? = some [] := by
      have hmem : q ∈ inner.filter List.isEmpty := hfilter ▸ List.mem_singleton_self q
      obtain ⟨hq, hempty⟩ := List.mem_filter.mp hmem
      have hlt : inner.findIdx List.isEmpty < inner.length :=
        List.findIdx_lt_length_of_exists ⟨q, hq, hempty⟩
      have hat : (inner[inner.findIdx List.isEmpty]).isEmpty := List.findIdx_getElem
      have hget := hfront.getElem hlt
      rw [hskip, Nat.add_comm, ← List.getElem?_tail, List.getElem?_eq_getElem
        (hlt.trans_le hfront.length_le), ← hget, List.isEmpty_iff.mp hat]
    obtain ⟨hhiHex, hloHex⟩ := allHex_of_ipv6Sides hsides
    have hhi' : AllHex (heads.take skip) := by
      refine allHex_of_ipv6Side (fun p hp hlen => ?_) hhi hhiHex
      obtain ⟨t, ht⟩ := List.head?_eq_some_iff.mp hp
      rw [ht, List.length_cons, Nat.add_eq_right, List.length_eq_zero_iff] at hlen
      rw [ht, hlen]
    have hlo' : AllHex (heads.drop (skip + 1)) := by
      refine allHex_of_ipv6Side (fun p hp hlen => ?_) hlo hloHex
      obtain ⟨x, hx⟩ := List.length_eq_one_iff.mp hlen
      rw [hx] at hp ⊢
      split_ifs at hp
      rw [List.getLast?_singleton, Option.some.injEq] at hp
      rw [hp]
    obtain ⟨hlt, hget⟩ := List.getElem?_eq_some_iff.mp hgap
    intro p hp
    rw [← List.take_append_drop skip heads, List.drop_eq_getElem_cons hlt, hget] at hp
    rcases List.mem_append.mp hp with hp | hp
    · exact hhi' p hp
    · rcases List.mem_cons.mp hp with rfl | hp
      · exact fun c hc => by cases hc
      · exact hlo' p hp

/-- **The characters of an IPv6 literal without a zone.** -/
theorem isIpv6Char_of_ipv6Value {s : PyStr} {n : ℕ} (h : ipv6Value s = some n) {c : CodePoint}
    (hc : c ∈ s) : c.isHexDigit ∨ c = cp ':' ∨ c = cp '.' := by
  by_cases hcolon : c = cp ':'
  · exact .inr (.inl hcolon)
  obtain ⟨heads, suffix, hparts, hhex⟩ := allHex_of_ipv6Value h
  obtain ⟨p, hp, hcp⟩ := PyStr.exists_mem_split hc hcolon
  rw [ipv6Parts] at hparts
  split_ifs at hparts
  cases hlast : (PyStr.split (cp ':') s).getLast? with
  | none =>
    rw [hlast] at hparts
    cases hparts
  | some last =>
    rw [hlast] at hparts
    dsimp only at hparts
    split_ifs at hparts with hdot
    · obtain ⟨m, hm, heq⟩ := Option.map_eq_some_iff.mp hparts
      obtain ⟨rfl, -⟩ := Prod.mk.inj heq
      obtain ⟨front, hfront⟩ := List.getLast?_eq_some_iff.mp hlast
      rw [hfront, List.dropLast_concat] at hhex
      rw [hfront, List.mem_append, List.mem_singleton] at hp
      rcases hp with hp | rfl
      · exact .inl (hhex p hp c hcp)
      · rcases isIpv4Char_of_parseIpv4 hm hcp with hdigit | hc
        · exact .inl (by simp [CodePoint.isHexDigit, hdigit])
        · exact .inr (.inr hc)
    · obtain ⟨rfl, -⟩ := Prod.mk.inj (Option.some.inj hparts)
      exact .inl (hhex p hp c hcp)

/-- An IPv6 literal has a colon. -/
theorem colon_mem_of_ipv6Value {s : PyStr} {n : ℕ} (h : ipv6Value s = some n) : cp ':' ∈ s := by
  obtain ⟨heads, suffix, hparts, -⟩ := allHex_of_ipv6Value h
  by_contra hnot
  rw [ipv6Parts, PyStr.split_of_notMem hnot] at hparts
  exact absurd hparts (by simp)

/-- A literal is one of IPv4, or of IPv6 with or without a zone. -/
theorem ipAddress_cases {s : PyStr} {a : IpAddress} (h : ipAddress s = some a) :
    (∃ n, parseIpv4 s = some n ∧ a = .v4 n) ∨
    ∃ n zone, parseIpv4 s = none ∧ parseIpv6 s = some (n, zone) ∧ a = .v6 n zone := by
  rw [ipAddress] at h
  cases h4 : parseIpv4 s with
  | some n =>
    rw [h4] at h
    exact .inl ⟨n, rfl, (Option.some.inj h).symm⟩
  | none =>
    rw [h4] at h
    obtain ⟨⟨n, zone⟩, h6, rfl⟩ := Option.map_eq_some_iff.mp h
    exact .inr ⟨n, zone, rfl, h6, rfl⟩

/-- An IPv6 literal: the address before its zone. -/
theorem parseIpv6_eq_some {s : PyStr} {n : ℕ} {zone : Option PyStr}
    (h : parseIpv6 s = some (n, zone)) :
    ipv6Value (PyStr.partition (cp '%') s).1 = some n ∧
      (zone = none → s = (PyStr.partition (cp '%') s).1) ∧
      ∀ z, zone = some z → s = (PyStr.partition (cp '%') s).1 ++ cp '%' :: z := by
  have hs := PyStr.partition_eq (cp '%') s
  rw [parseIpv6] at h
  dsimp only at h
  split_ifs at h with hslash hsep hzone
  · obtain ⟨m, hm, heq⟩ := Option.map_eq_some_iff.mp h
    obtain ⟨rfl, rfl⟩ := Prod.mk.inj heq
    rw [Bool.not_eq_true'] at hsep
    rw [hsep, if_neg Bool.false_ne_true, List.append_nil] at hs
    exact ⟨hm, fun _ => hs, nofun⟩
  · obtain ⟨m, hm, heq⟩ := Option.map_eq_some_iff.mp h
    obtain ⟨rfl, rfl⟩ := Prod.mk.inj heq
    rw [Bool.not_eq_true', Bool.not_eq_false] at hsep
    rw [hsep, if_pos rfl] at hs
    exact ⟨hm, nofun, fun z hz => by rw [← Option.some.inj hz, ← hs]⟩

/-- A literal without a colon is one of IPv4. -/
theorem parseIpv4_of_notMem_colon {s : PyStr} (hlit : IsIpLiteral s) (h : cp ':' ∉ s) :
    ∃ n, parseIpv4 s = some n := by
  obtain ⟨a, ha⟩ := Option.isSome_iff_exists.mp hlit
  rcases ipAddress_cases ha with ⟨n, hn, -⟩ | ⟨n, zone, -, h6, -⟩
  · exact ⟨n, hn⟩
  · have hmem := colon_mem_of_ipv6Value (parseIpv6_eq_some h6).1
    exact absurd ((PyStr.partition_fst_sublist _ _).subset hmem) h

/-- **Four runs of characters between dots** are a literal exactly if each is an octet. -/
theorem isIpLiteral_iff_octets {s : PyStr} (hcolon : cp ':' ∉ s)
    (hfour : (PyStr.split (cp '.') s).length = 4) :
    IsIpLiteral s ↔ ∀ p ∈ PyStr.split (cp '.') s, IsOctet p := by
  constructor
  · intro h p hp
    obtain ⟨n, hn⟩ := parseIpv4_of_notMem_colon h hcolon
    exact isOctet_of_parseIpv4 hn hp
  · intro h
    have hslash : cp '/' ∉ s := by
      intro hmem
      obtain ⟨p, hp, hc⟩ := PyStr.exists_mem_split hmem (show cp '/' ≠ cp '.' by decide)
      exact absurd ((h p hp).digits _ hc) (by decide)
    obtain ⟨a, b, c, d, habcd⟩ := List.length_eq_four.mp hfour
    obtain ⟨na, ha⟩ := Option.isSome_iff_exists.mp (isSome_parseOctet.mpr (h a (by simp [habcd])))
    obtain ⟨nb, hb⟩ := Option.isSome_iff_exists.mp (isSome_parseOctet.mpr (h b (by simp [habcd])))
    obtain ⟨nc, hc⟩ := Option.isSome_iff_exists.mp (isSome_parseOctet.mpr (h c (by simp [habcd])))
    obtain ⟨nd, hd⟩ := Option.isSome_iff_exists.mp (isSome_parseOctet.mpr (h d (by simp [habcd])))
    have hparse : parseIpv4 s = some _ :=
      parseIpv4_eq_some.mpr ⟨hslash, na, nb, nc, nd, by simp [habcd, ha, hb, hc, hd], rfl⟩
    rw [IsIpLiteral, ipAddress, hparse]
    rfl

/-- A hextet: up to four hexadecimal digits. -/
structure IsHextet (s : PyStr) : Prop where
  ne_nil : s ≠ []
  digits : ∀ c ∈ s, c.isHexDigit
  length_le : s.length ≤ 4

theorem isSome_parseHextet {s : PyStr} (h : IsHextet s) : (parseHextet s).isSome := by
  have hgood : ¬ (s.isEmpty || !s.all CodePoint.isHexDigit || decide (4 < s.length)) = true := by
    simp only [Bool.or_eq_true, Bool.not_eq_true', decide_eq_true_eq, not_or, Bool.not_eq_false,
      List.isEmpty_iff, List.all_eq_true, not_lt]
    exact ⟨⟨h.ne_nil, h.digits⟩, h.length_le⟩
  rw [parseHextet, if_neg hgood]
  rfl

/-- **Runs of hexadecimal digits between colons** are a literal exactly if there are eight. -/
theorem isIpLiteral_iff_hextets {s : PyStr} (hthree : 3 ≤ (PyStr.split (cp ':') s).length)
    (h : ∀ p ∈ PyStr.split (cp ':') s, IsHextet p) :
    IsIpLiteral s ↔ (PyStr.split (cp ':') s).length = 8 := by
  have hchar : ∀ c ∈ s, c ≠ cp ':' → c.isHexDigit := by
    intro c hc hne
    obtain ⟨p, hp, hcp⟩ := PyStr.exists_mem_split hc hne
    exact (h p hp).digits c hcp
  have hcolon : cp ':' ∈ s := by
    by_contra hnot
    rw [PyStr.split_of_notMem hnot, List.length_singleton] at hthree
    omega
  have hnot : ∀ c : CodePoint, c ≠ cp ':' → c.isHexDigit = false → c ∉ s := fun c hne hfalse hmem =>
    Bool.false_ne_true (hfalse.symm.trans (hchar c hmem hne))
  have h4 : parseIpv4 s = none := by
    cases h4 : parseIpv4 s with
    | none => rfl
    | some n => exact absurd (isIpv4Char_of_parseIpv4 h4 hcolon) (by decide)
  have hparts : ipv6Parts s = some (PyStr.split (cp ':') s, none) := by
    rw [ipv6Parts, if_neg (not_lt.mpr hthree)]
    cases hlast : (PyStr.split (cp ':') s).getLast? with
    | none =>
      rw [List.getLast?_eq_none_iff.mp hlast] at hthree
      exact absurd hthree (by decide)
    | some last =>
      have hdot : ¬ last.elem (cp '.') = true := by
        rw [List.elem_iff]
        intro hmem
        exact absurd ((h last (List.mem_of_getLast? hlast)).digits _ hmem) (by decide)
      dsimp only
      rw [if_neg hdot]
  have hfilter : ∀ {inner : List PyStr}, inner.Sublist (PyStr.split (cp ':') s) →
      inner.filter List.isEmpty = [] := by
    intro inner hsub
    rw [List.filter_eq_nil_iff]
    intro p hp hempty
    exact (h p (hsub.subset hp)).ne_nil (List.isEmpty_iff.mp hempty)
  have h6 : parseIpv6 s = (ipv6Value s).map fun n => (n, none) := by
    have hpercent : cp '%' ∉ s := hnot _ (by decide) (by decide)
    have hslash : ¬ s.elem (cp '/') = true := by
      rw [List.elem_iff]
      exact hnot _ (by decide) (by decide)
    rw [parseIpv6, if_neg hslash, PyStr.partition_of_notMem hpercent]
    rfl
  have hlit : IsIpLiteral s ↔ (ipv6Value s).isSome := by
    rw [IsIpLiteral, ipAddress, h4, h6]
    simp
  rw [hlit]
  constructor
  · intro hsome
    obtain ⟨n, hn⟩ := Option.isSome_iff_exists.mp hsome
    obtain ⟨heads, suffix, tailValue, inner, hparts', hinner, hcases⟩ := ipv6Value_cases hn
    rw [hparts, Option.some.injEq, Prod.mk.injEq] at hparts'
    obtain ⟨rfl, rfl⟩ := hparts'
    rcases hcases with ⟨-, height, -⟩ | ⟨q, hi, lo, hq, -⟩
    · simpa using height
    · have hsub : inner.Sublist (PyStr.split (cp ':') s) := by
        rw [hinner]
        exact (List.dropLast_sublist _).trans (List.tail_sublist _)
      rw [hfilter hsub] at hq
      cases hq
  · intro height
    have hne : ¬ List.isEmpty s = true := by
      intro hempty
      rw [List.isEmpty_iff.mp hempty] at hcolon
      cases hcolon
    have hvalue : (hextetsValue 0 (PyStr.split (cp ':') s)).isSome := by
      rw [hextetsValue, Option.isSome_map]
      exact isSome_mapM.mpr fun p hp => isSome_parseHextet (h p hp)
    rw [ipv6Value, if_neg hne]
    change ((ipv6Parts s).bind _).isSome
    rw [hparts, Option.bind_some]
    dsimp only
    simp only [Option.isSome_none, Bool.false_eq_true, if_false, height]
    rw [if_neg (by decide), hfilter ((List.dropLast_sublist _).trans (List.tail_sublist _))]
    dsimp only
    rw [if_neg (by decide), Option.isSome_map]
    exact hvalue

end C2Engine.Python
