import C2Engine.Feed.Server
import C2Engine.Python.Lines
import C2Engine.Python.Literal

/-!
# The form of the blocklist

What a request can make of the search and of the text that is sent back. The pattern of a window
lets digits of any script and a line feed behind the unit through, and the zone of an IPv6 literal
can have any characters, line breaks among them. Apart from these the expression sent is a window,
and the lines of the text are comments and the IP literals of the hits, each once.

## Main definitions

* `blocklist`: the search of a request, and its answer in text.
* `WellFormed`: what is asked of both.
* `LooseWindow`: the windows that get through and are none.

## Main results

* `feedWindow_iff`: when the window that is sent is one.
* `mem_ips_iff`: the hosts in a feed.
* `wellFormed_iff`: the statement about requests.
-/

namespace C2Engine

open Python

/-- The search a request sends, and what is sent back if the search returns `hits`. -/
def blocklist (rt : Runtime) (qs : QueryString) (hits : List Dict) :
    Except PyExc (FeedQuery × PyStr) := do
  let p ← feedParams rt qs
  let feed ← feedOf rt.unicode p.minStage p.window p.limit hits
  return (feedQuery rt.unicode p.minStage p.window p.limit, renderBlocklist feed)

/-- A host of a hit that is an IP literal. -/
def IsReturnedIp (hits : List Dict) (host : PyStr) : Prop :=
  IsIpLiteral host ∧ ∃ src ∈ hits, src.get (key "c2_host") = some (.str host)

/-- A line that is a comment. -/
def isCommentLine (line : PyStr) : Bool := line.head? = some (cp '#')

/-- What is asked of a search and of the text sent back, for the window `asked` and the hits. -/
structure WellFormed (R : LineReader) (asked : PyStr) (hits : List Dict) (q : FeedQuery)
    (text : PyStr) : Prop where
  /-- The expression is a window before the present: the one asked for, or the default if that is
  none. -/
  window : ∃ w : Window, q.gte = str "now-" ++ w.text ∧
    (w.text = asked ∨ w.text = defaultWindow ∧ ∀ w' : Window, w'.text ≠ asked)
  size : 1 ≤ q.size ∧ q.size ≤ maxLimit
  line : ∀ line ∈ R.lines text, isCommentLine line ∨ IsReturnedIp hits line
  /-- No address is listed twice. -/
  nodup : ((R.lines text).filter fun line => !isCommentLine line).Nodup

theorem isLineBreak_of_isAsciiDigit {c : CodePoint} (h : c.isAsciiDigit) :
    c.isLineBreak = false := by
  have hval : 48 ≤ c.val ∧ c.val ≤ 57 := by
    simpa [CodePoint.isAsciiDigit, CodePoint.between] using h
  simp only [CodePoint.isLineBreak, Bool.or_eq_false_iff, Bool.and_eq_false_iff,
    decide_eq_false_iff_not, beq_eq_false_iff_ne]
  omega

/-! ### Windows -/

/-- Digits and a unit with a digit that is not ASCII, or with a line feed behind them. -/
def LooseWindow (uni : Unicode) (window : PyStr) : Prop :=
  ∃ (digits : PyStr) (unit : TimeUnit) (stop : PyStr),
    window = digits ++ unit.symbol :: stop ∧ digits ≠ [] ∧ (∀ c ∈ digits, uni.isDigit c) ∧
      (stop = [] ∨ stop = [cp '\n']) ∧ ¬ (digits.all CodePoint.isAsciiDigit ∧ stop = [])

/-- The text of a window has no line break. -/
theorem isLineBreak_text (w : Window) : ∀ c ∈ w.text, c.isLineBreak = false := by
  refine List.forall_mem_append.mpr ⟨fun c hc => ?_, List.forall_mem_singleton.mpr ?_⟩
  · exact isLineBreak_of_isAsciiDigit (List.all_eq_true.mp w.isDigit_digits c hc)
  · cases w.unit <;> decide

/-- The text of a window is not loose. -/
theorem not_looseWindow_text {uni : Unicode} (w : Window) : ¬ LooseWindow uni w.text := by
  rintro ⟨digits, unit, stop, htext, -, -, hstop, hloose⟩
  rcases hstop with rfl | rfl
  · obtain ⟨hdigits, -⟩ := List.append_inj' htext rfl
    exact hloose ⟨hdigits ▸ w.isDigit_digits, rfl⟩
  · rw [Window.text, List.append_cons digits] at htext
    obtain ⟨-, hlast⟩ := List.append_inj' htext rfl
    have hsymbol : w.unit.symbol = cp '\n' := List.singleton_inj.mp hlast
    revert hsymbol
    cases w.unit <;> decide

/-- **The window that is sent is one** exactly if the text is not loose. -/
theorem feedWindow_iff (uni : Unicode) (asked : PyStr) :
    (∃ w : Window, feedWindow uni asked = w.text ∧
      (w.text = asked ∨ w.text = defaultWindow ∧ ∀ w' : Window, w'.text ≠ asked)) ↔
      ¬ LooseWindow uni asked := by
  by_cases hmatch : (Re.match? (Re.text uni) (windowRe uni) asked).isSome
  · have heq : feedWindow uni asked = asked := if_pos hmatch
    obtain ⟨digits, unit, stop, hasked, hne, hall, hstop⟩ :=
      (isSome_match_windowRe_iff uni asked).mp hmatch
    rw [heq]
    constructor
    · rintro ⟨w, rfl, -⟩
      exact not_looseWindow_text w
    · intro h
      by_cases hplain : digits.all CodePoint.isAsciiDigit ∧ stop = []
      · obtain ⟨hascii, rfl⟩ := hplain
        exact ⟨⟨digits, unit, hne, hascii⟩, hasked, .inl hasked.symm⟩
      · exact absurd ⟨digits, unit, stop, hasked, hne, hall, hstop, hplain⟩ h
  · have heq : feedWindow uni asked = defaultWindow := if_neg hmatch
    have hloose : ¬ LooseWindow uni asked := by
      rintro ⟨digits, unit, stop, hasked, hne, hall, hstop, -⟩
      exact hmatch ((isSome_match_windowRe_iff uni asked).mpr
        ⟨digits, unit, stop, hasked, hne, hall, hstop⟩)
    refine iff_of_true ⟨⟨str "7", .days, by decide, by decide⟩, heq, .inr ⟨rfl, ?_⟩⟩ hloose
    rintro w rfl
    have htext := feedWindow_text uni w
    refine hmatch ((isSome_match_windowRe_iff uni _).mpr ⟨w.digits, w.unit, [], rfl,
      w.digits_ne_nil, fun c hc => ?_, .inl rfl⟩)
    exact isDigit_of_isAsciiDigit uni (List.all_eq_true.mp w.isDigit_digits c hc)

/-! ### The hosts of a feed -/

theorem feedHit_of_host {src : Dict} {host : PyStr}
    (h : src.get (key "c2_host") = some (.str host)) (hne : host ≠ []) :
    feedHit src = (latestOf src).map fun latest => some (host, summary src latest host) := by
  rw [feedHit, h]
  exact if_neg (by simpa using hne)

theorem host_of_feedHit {src : Dict} {host : PyStr} {s : Dict}
    (h : feedHit src = .ok (some (host, s))) : src.get (key "c2_host") = some (.str host) := by
  rw [feedHit] at h
  cases hget : src.get (key "c2_host") with
  | none =>
    rw [hget] at h
    cases h
  | some v =>
    rw [hget] at h
    cases v with
    | str t =>
      dsimp only [Option.bind_some, Obj.asStr?] at h
      split_ifs at h
      · cases h
      · obtain ⟨latest, -, heq⟩ := map_eq_ok.mp h
        obtain ⟨rfl, -⟩ := Prod.mk.inj (Option.some.inj heq)
        rfl
    | _ => cases h

section Feed

variable {uni : Unicode} {minStage limit : ℤ} {window : PyStr} {hits : List Dict} {feed : Feed}

/-- **The hosts of a feed** are the IP literals among the hosts of the hits, each once. -/
theorem mem_ips_iff (h : feedOf uni minStage window limit hits = .ok feed) :
    (∀ host, host ∈ feed.ips ↔ IsReturnedIp hits host) ∧ feed.ips.Nodup := by
  obtain ⟨found, hfound, rfl⟩ := map_eq_ok.mp h
  refine ⟨fun host => ?_, nodup_unseen _ _⟩
  have hmem : host ∈ found.reduceOption.map Prod.fst ↔ ∃ s, some (host, s) ∈ found := by
    simp [List.reduceOption_mem_iff]
  rw [mem_unseen, List.mem_filter, hmem, and_iff_left (List.not_mem_nil), and_comm]
  refine and_congr_right fun hip => ?_
  constructor
  · rintro ⟨s, hs⟩
    obtain ⟨src, hsrc, hhit⟩ := (mem_of_mapM hfound _).mp hs
    exact ⟨src, hsrc, host_of_feedHit hhit⟩
  · rintro ⟨src, hsrc, hget⟩
    have hhit := feedHit_of_host hget (IsIpLiteral.ne_nil hip)
    have hok : (feedHit src).isOk := (isOk_mapM hits).mp (isOk_iff.mpr ⟨found, hfound⟩) src hsrc
    obtain ⟨y, hy⟩ := isOk_iff.mp hok
    rw [hhit] at hy
    obtain ⟨latest, hlatest, rfl⟩ := map_eq_ok.mp hy
    exact ⟨_, (mem_of_mapM hfound _).mpr ⟨src, hsrc, by rw [hhit, hlatest]; rfl⟩⟩

/-- The first lines have no line break if the window has none. -/
theorem isLineBreak_head (h : feedOf uni minStage window limit hits = .ok feed)
    (hwindow : ∀ c ∈ feedWindow uni window, c.isLineBreak = false) :
    ∀ p ∈ feed.head, p.all fun c => !c.isLineBreak := by
  obtain ⟨found, -, rfl⟩ := map_eq_ok.mp h
  have hall {p : PyStr} (hp : ∀ c ∈ p, c.isLineBreak = false) : p.all fun c => !c.isLineBreak :=
    List.all_eq_true.mpr fun c hc => by rw [hp c hc]; rfl
  have hstage : (stageOrder.getD (feedStage minStage).toNat []).all fun c => !c.isLineBreak := by
    have hnames : ∀ name ∈ stageOrder, name.all fun c => !c.isLineBreak := by decide
    rw [List.getD_eq_getElem?_getD]
    cases hget : stageOrder[(feedStage minStage).toNat]? with
    | none => rfl
    | some name => exact hnames name (List.mem_of_getElem? hget)
  have hnat (n : ℕ) : (PyStr.ofNat n).all fun c => !c.isLineBreak := hall fun c hc =>
    isLineBreak_of_isAsciiDigit (List.all_eq_true.mp (PyStr.isAsciiDigit_ofNat n) c hc)
  refine List.forall_mem_cons.mpr ⟨by decide, List.forall_mem_cons.mpr ⟨?_,
    List.forall_mem_singleton.mpr (by decide)⟩⟩
  have htexts : ∀ p ∈ [str "# stage>=", str "  window=last ", str "  ips=", str "  entities="],
      p.all fun c => !c.isLineBreak := by decide
  simp only [List.forall_mem_cons] at htexts
  obtain ⟨h₁, h₂, h₃, h₄, -⟩ := htexts
  rw [List.all_append, List.all_append, List.all_append, List.all_append, List.all_append,
    List.all_append, List.all_append, h₁, hstage, h₂, hall hwindow, h₃, hnat, h₄, hnat]
  rfl

theorem isCommentLine_head (feed : Feed) : ∀ p ∈ feed.head, isCommentLine p := by
  simp only [Feed.head, List.forall_mem_cons]
  exact ⟨rfl, rfl, rfl, by simp⟩

end Feed

/-- An IP literal is no comment. -/
theorem isCommentLine_of_isIpLiteral {host : PyStr} (h : IsIpLiteral host) :
    isCommentLine host = false := by
  obtain ⟨a, ha⟩ := Option.isSome_iff_exists.mp h
  refine decide_eq_false fun hhead => ?_
  obtain ⟨t, rfl⟩ := List.head?_eq_some_iff.mp hhead
  rcases ipAddress_cases ha with ⟨n, h4, -⟩ | ⟨n, zone, -, h6, -⟩
  · exact absurd (isIpv4Char_of_parseIpv4 h4 List.mem_cons_self) (by decide)
  · have hmem : cp '#' ∈ (PyStr.partition (cp '%') (cp '#' :: t)).1 := by
      rw [PyStr.partition, if_neg (by decide)]
      exact List.mem_cons_self
    exact absurd (isIpv6Char_of_ipv6Value (parseIpv6_eq_some h6).1 hmem) (by decide)

/-- Nor is the beginning of one. -/
theorem isCommentLine_firstLine {R : LineReader} {host : PyStr} (h : IsIpLiteral host) :
    isCommentLine (R.firstLine host) = false := by
  have hhost := of_decide_eq_false (isCommentLine_of_isIpLiteral h)
  refine decide_eq_false fun hhead => hhost ?_
  rw [LineReader.firstLine, List.head?_takeWhile] at hhead
  exact (Option.filter_eq_some_iff.mp hhead).1

/-! ### Requests -/

/-- What a request comes to. -/
theorem blocklist_ok {rt : Runtime} {qs : QueryString} {hits : List Dict} {q : FeedQuery}
    {text asked : PyStr} (hasked : qs.first (str "window") defaultWindow = .ok asked)
    (h : blocklist rt qs hits = .ok (q, text)) :
    ∃ minStage limit feed, feedOf rt.unicode minStage asked limit hits = .ok feed ∧
      q = feedQuery rt.unicode minStage asked limit ∧ text = renderBlocklist feed := by
  obtain ⟨p, hp, h⟩ := bind_eq_ok.mp h
  obtain ⟨feed, hfeed, h⟩ := bind_eq_ok.mp h
  rw [feedParams, hasked] at hp
  obtain rfl := Except.ok.inj hp
  obtain ⟨rfl, rfl⟩ := Prod.mk.inj (Except.ok.inj h)
  exact ⟨_, _, feed, hfeed, rfl, rfl⟩

/-- **A search and its answer are well formed** exactly if the window asked for is not loose and no
IP literal of the hits has a line break. -/
theorem wellFormed_iff {rt : Runtime} (R : LineReader) {qs : QueryString} {hits : List Dict}
    {q : FeedQuery} {text asked : PyStr}
    (hasked : qs.first (str "window") defaultWindow = .ok asked)
    (h : blocklist rt qs hits = .ok (q, text)) :
    WellFormed R asked hits q text ↔ ¬ LooseWindow rt.unicode asked ∧
      ∀ host, IsReturnedIp hits host → ∀ c ∈ host, R.breaks c = false := by
  obtain ⟨minStage, limit, feed, hfeed, rfl, rfl⟩ := blocklist_ok hasked h
  obtain ⟨hips, hnodup⟩ := mem_ips_iff hfeed
  have htext : renderBlocklist feed = (feed.head ++ feed.ips).flatMap fun p => p ++ [cp '\n'] :=
    LineReader.join_lineFeed (List.cons_ne_nil _ _)
  constructor
  · intro hform
    refine ⟨(feedWindow_iff _ asked).mp ?_, fun host hhost c hc => ?_⟩
    · obtain ⟨w, hgte, hw⟩ := hform.window
      exact ⟨w, List.append_cancel_left hgte, hw⟩
    · -- the beginning of the host is a line, so it is a host in its own right
      have hsub : (feed.ips.map R.firstLine).Sublist (R.lines (renderBlocklist feed)) := by
        have hall := LineReader.sublist_lines_flatMap (R := R) (feed.head ++ feed.ips)
        rw [← htext, List.map_append] at hall
        exact (List.sublist_append_right _ _).trans hall
      have hplain : ∀ l ∈ feed.ips.map R.firstLine, isCommentLine l = false := by
        intro l hl
        obtain ⟨ip, hip, rfl⟩ := List.mem_map.mp hl
        exact isCommentLine_firstLine ((hips ip).mp hip).1
      have hone : (feed.ips.map R.firstLine).Nodup := by
        refine hform.nodup.sublist ?_
        have hfilter := hsub.filter fun line => !isCommentLine line
        rwa [List.filter_eq_self.mpr fun l hl => by simp [hplain l hl]] at hfilter
      have hmem : R.firstLine host ∈ feed.ips.map R.firstLine :=
        List.mem_map_of_mem ((hips host).mpr hhost)
      have hreturned : IsReturnedIp hits (R.firstLine host) := by
        refine (hform.line _ (hsub.subset hmem)).resolve_left ?_
        simp [hplain _ hmem]
      have hsame : R.firstLine host = host :=
        List.inj_on_of_nodup_map hone ((hips _).mpr hreturned) ((hips host).mpr hhost)
          (LineReader.firstLine_eq_self LineReader.breaks_firstLine)
      exact LineReader.breaks_firstLine c (hsame.symm ▸ hc)
  · rintro ⟨hloose, hbreaks⟩
    obtain ⟨w, hw, hasked⟩ := (feedWindow_iff _ asked).mpr hloose
    have hhead : ∀ p ∈ feed.head, ∀ c ∈ p, R.breaks c = false := by
      intro p hp c hc
      have hline := List.all_eq_true.mp (isLineBreak_head hfeed (hw ▸ isLineBreak_text w) p hp) c hc
      exact Bool.eq_false_iff.mpr fun hbreak => by
        rw [R.isLineBreak_of_breaks c hbreak] at hline
        cases hline
    have hlines : R.lines (renderBlocklist feed) = feed.head ++ feed.ips := by
      rw [htext]
      exact LineReader.lines_flatMap _ (List.forall_mem_append.mpr
        ⟨hhead, fun ip hip => hbreaks ip ((hips ip).mp hip)⟩)
    refine ⟨⟨w, congrArg (str "now-" ++ ·) hw, hasked⟩, ?_, ?_, ?_⟩
    · have hmax : (1 : ℤ) ≤ maxLimit := by decide
      exact ⟨le_max_left _ _, max_le hmax (min_le_right _ _)⟩
    · rw [hlines]
      exact List.forall_mem_append.mpr ⟨fun l hl => .inl (isCommentLine_head feed l hl),
        fun l hl => .inr ((hips l).mp hl)⟩
    · rw [hlines, List.filter_append, List.filter_eq_nil_iff.mpr fun l hl => by
        simp [isCommentLine_head feed l hl], List.nil_append]
      exact hnodup.filter _

/-- A request for half an hour and one hit. -/
theorem wellFormed_halfHour :
    let hits : List Dict := [[(key "c2_host", .str (str "192.0.2.1"))]]
    ∃ q text, blocklist .basic [(str "window", [str "30m"])] hits = .ok (q, text) ∧
      WellFormed .splitlines (str "30m") hits q text := by
  intro hits
  have hasked : QueryString.first [(str "window", [str "30m"])] (str "window") defaultWindow =
      .ok (str "30m") := rfl
  obtain ⟨q, text, h⟩ : ∃ q text,
      blocklist .basic [(str "window", [str "30m"])] hits = .ok (q, text) := ⟨_, _, rfl⟩
  refine ⟨q, text, h, (wellFormed_iff .splitlines hasked h).mpr ⟨?_, ?_⟩⟩
  · exact not_looseWindow_text ⟨str "30", .minutes, by decide, by decide⟩
  · rintro host ⟨-, src, hsrc, hhost⟩
    obtain rfl := List.mem_singleton.mp hsrc
    obtain rfl := Obj.str.inj (Option.some.inj hhost)
    have hplain : (str "192.0.2.1").all fun c => !c.isLineBreak := by decide
    exact fun c hc => Bool.not_eq_true' _ ▸ List.all_eq_true.mp hplain c hc

/-- A window with a line feed behind it is sent as it is; and the zone of an IPv6 literal makes a
line of its own. -/
theorem not_wellFormed_lineFeed :
    let hits : List Dict := [[(key "c2_host", .str (str "fe80::1%eth0\nexample.com"))]]
    (∃ q text, blocklist .basic [(str "window", [str "7d\n"])] [] = .ok (q, text) ∧
      ¬ WellFormed .lineFeeds (str "7d\n") [] q text) ∧
    ∃ q text, blocklist .basic [] hits = .ok (q, text) ∧
      ¬ WellFormed .lineFeeds defaultWindow hits q text := by
  intro hits
  refine ⟨⟨_, _, rfl, fun h => ?_⟩, ⟨_, _, rfl, fun h => ?_⟩⟩
  · obtain ⟨w, hgte, hw⟩ := h.window
    have hasked : feedWindow Runtime.basic.unicode (str "7d\n") = w.text :=
      List.append_cancel_left hgte
    refine (feedWindow_iff _ _).mp ⟨w, hasked, hw⟩ ⟨str "7", .days, str "\n", ?_⟩
    exact ⟨rfl, by decide, List.all_eq_true.mp (by decide), .inr rfl, by decide⟩
  · have hline := h.line (str "example.com") (by decide +kernel)
    rcases hline with hline | hline
    · exact absurd hline (by decide)
    · exact absurd hline.1 (by decide)

end C2Engine
