import Mustache.Proofs.Token.LogicalLine

/-! # The tokens between two tags

How the tokens between the two tags of a section are settled depends on the lines that the tags stand
on: the line of the opening tag goes with its break if that tag stands alone, and the blanks before the
closing tag go if that one does. The lines in between are settled by themselves.
-/
namespace Mustache

def lineAfter (line : List Token) : List Token → List Token
  | [] => line
  | t :: ts => if t.kind = .newline then lineAfter [] ts else lineAfter (line ++ [t]) ts

def settledBefore (line : List Token) : List Token → List Token
  | [] => []
  | t :: ts =>
    if t.kind = .newline then settleLine line (some t) ++ settledBefore [] ts
    else settledBefore (line ++ [t]) ts

/-- The tokens between the tags of a section, settled: whether its opening tag stands alone, and
whether its closing tag does, after some blanks. -/
def settledBody (opened closed : Bool) (body : List Token) : List Token :=
  match body.dropWhile (·.kind != .newline) with
  | [] => body
  | newline :: rest =>
    (if opened then [] else body.takeWhile (·.kind != .newline) ++ [newline]) ++
      (settledBefore [] rest ++ if closed then [] else lineAfter [] rest)

variable {line ts us : List Token} {nl t o c : Token}

theorem settleLines_append (line ts us : List Token) :
    settleLines line (ts ++ us) = settledBefore line ts ++ settleLines (lineAfter line ts) us := by
  induction ts generalizing line with
  | nil => rfl
  | cons t ts ih =>
    rw [List.cons_append, settleLines, settledBefore, lineAfter]
    split
    · rw [ih, List.append_assoc]
    · exact ih _

theorem lineAfter_append (line ts us : List Token) :
    lineAfter line (ts ++ us) = lineAfter (lineAfter line ts) us := by
  induction ts generalizing line with
  | nil => rfl
  | cons t ts ih =>
    rw [List.cons_append, lineAfter, lineAfter]
    split
    · exact ih []
    · exact ih _

theorem lineAfter_of_no_newline (hts : ∀ u ∈ ts, u.kind ≠ .newline) :
    lineAfter line ts = line ++ ts := by
  induction ts generalizing line with
  | nil => rw [lineAfter, List.append_nil]
  | cons t ts ih =>
    rw [lineAfter, if_neg (hts t List.mem_cons_self), ih fun u hu => hts u (List.mem_cons_of_mem t hu)]
    simp

theorem lineAfter_newline (hnl : nl.kind = .newline) (line ts us : List Token) :
    lineAfter line (ts ++ nl :: us) = lineAfter [] us := by
  rw [lineAfter_append, lineAfter, if_pos hnl]

theorem lineAfter_spec (hline : ∀ u ∈ line, u.kind ≠ .newline) (ts : List Token) :
    ∃ before, line ++ ts = before ++ lineAfter line ts ∧
      (before = [] ∨ ∃ xs nl, before = xs ++ [nl] ∧ nl.kind = .newline) ∧
      ∀ u ∈ lineAfter line ts, u.kind ≠ .newline := by
  induction ts generalizing line with
  | nil => exact ⟨[], by rw [lineAfter, List.append_nil, List.nil_append], Or.inl rfl, hline⟩
  | cons t ts ih =>
    rw [lineAfter]
    split
    · rename_i hk
      obtain ⟨before, heq, hends, hno⟩ := @ih [] nofun
      rw [List.nil_append] at heq
      refine ⟨line ++ t :: before, ?_, Or.inr ?_, hno⟩
      · rw [List.append_assoc, List.cons_append, ← heq]
      · rcases hends with rfl | ⟨xs, nl, rfl, hnl⟩
        · exact ⟨line, t, rfl, hk⟩
        · exact ⟨line ++ t :: xs, nl, by simp, hnl⟩
    · rename_i hk
      have hline' : ∀ u ∈ line ++ [t], u.kind ≠ .newline := by
        intro u hu
        rcases List.mem_append.mp hu with hu | hu
        · exact hline u hu
        · rw [List.mem_singleton.mp hu]
          exact hk
      obtain ⟨before, heq, hrest⟩ := ih hline'
      refine ⟨before, ?_, hrest⟩
      rw [← heq, List.append_assoc, List.singleton_append]

theorem settledBody_of_no_newline (hts : ∀ u ∈ ts, u.kind ≠ .newline) (opened closed : Bool) :
    settledBody opened closed ts = ts := by
  have hpos : ∀ u ∈ ts, (u.kind != .newline) = true := by
    intro u hu
    simpa using hts u hu
  have hdrop : ts.dropWhile (fun u : Token => u.kind != .newline) = [] := by
    have happ := @List.dropWhile_append_of_pos _ (fun u : Token => u.kind != .newline) ts [] hpos
    rw [List.append_nil] at happ
    exact happ
  rw [settledBody, hdrop]

theorem settledBody_newline (hts : ∀ u ∈ ts, u.kind ≠ .newline) (hnl : nl.kind = .newline)
    (opened closed : Bool) (us : List Token) : settledBody opened closed (ts ++ nl :: us) =
      (if opened then [] else ts ++ [nl]) ++
        (settledBefore [] us ++ if closed then [] else lineAfter [] us) := by
  have hpos : ∀ u ∈ ts, (u.kind != .newline) = true := by
    intro u hu
    simpa using hts u hu
  have hdrop : (ts ++ nl :: us).dropWhile (·.kind != .newline) = nl :: us := by
    rw [List.dropWhile_append_of_pos hpos, List.dropWhile_cons_of_neg (by simp [hnl])]
  have htake : (ts ++ nl :: us).takeWhile (·.kind != .newline) = ts := by
    rw [List.takeWhile_append_of_pos hpos, List.takeWhile_cons_of_neg (by simp [hnl]), List.append_nil]
  rw [settledBody, hdrop]
  simp only [htake]

theorem TokenKind.ne_newline_of_isTag {k : TokenKind} (h : k.isTag = true) : k ≠ .newline := by
  rintro rfl
  cases h

theorem settleLines_tag {xs : List Token} {newline : Option Token} {qs : List Token}
    (ho : o.kind.isTag = true) (h : LineEnds qs xs newline us) (ps : List Token) :
    settleLines [] (ps ++ o :: qs) = settledBefore [] ps ++
      (settleLine (lineAfter [] ps ++ o :: xs) newline ++ settleLines [] us) := by
  have hstart : lineAfter [] ps ++ [o] ++ xs = lineAfter [] ps ++ o :: xs := by simp
  rw [settleLines_append, settleLines, if_neg (TokenKind.ne_newline_of_isTag ho), h.settleLines_eq, hstart]

theorem eq_of_standaloneTag? (h : standaloneTag? line = some t) (ho : o ∈ line)
    (htag : o.kind.isTag = true) (hpartial : o.kind ≠ .partialTag) : t = o := by
  obtain ⟨before, tag, after, rfl, halone, htext, rfl⟩ := standaloneTag?_eq_some_iff.mp h
  have hotag : o = tag := by
    rcases List.mem_append.mp ho with ho | ho
    · rw [(htext o (List.mem_append_left _ ho)).1] at htag
      cases htag
    · rcases List.mem_cons.mp ho with ho | ho
      · exact ho
      · rw [(htext o (List.mem_append_right _ ho)).1] at htag
        cases htag
  rw [← hotag, Token.settledAfter_of_ne hpartial]

theorem settleLine_of_mem {newline : Option Token} (ho : o ∈ line) (htag : o.kind.isTag = true)
    (hpartial : o.kind ≠ .partialTag) :
    settleLine line newline = if (standaloneTag? line).isSome then [o] else line ++ newline.toList := by
  unfold settleLine
  cases h : standaloneTag? line with
  | none => rfl
  | some t =>
    rw [eq_of_standaloneTag? h ho htag hpartial]
    rfl

theorem TokenKind.bne_text_of_isTag {k : TokenKind} (h : k.isTag = true) : (k != .text) = true := by
  cases k <;> first | rfl | cases h

theorem text_of_standaloneTag? {xs : List Token} (h : standaloneTag? (xs ++ o :: us) = some t)
    (ho : o.kind.isTag = true) : ∀ u ∈ xs ++ us, u.kind = .text := by
  unfold standaloneTag? at h
  split at h
  · rename_i tag hone
    rw [List.filter_append,
      List.filter_cons_of_pos (p := fun u : Token => u.kind != .text) (TokenKind.bne_text_of_isTag ho)]
      at hone
    have hlen := congrArg List.length hone
    simp only [List.length_append, List.length_cons, List.length_nil] at hlen
    have hxs : xs.filter (·.kind != .text) = [] := List.length_eq_zero_iff.mp (by omega)
    have hus : us.filter (·.kind != .text) = [] := List.length_eq_zero_iff.mp (by omega)
    intro u hu
    rcases List.mem_append.mp hu with hu | hu
    · simpa using List.filter_eq_nil_iff.mp hxs u hu
    · simpa using List.filter_eq_nil_iff.mp hus u hu
  · cases h

theorem standaloneTag?_of_two_tags {xs : List Token} (ho : o.kind.isTag = true)
    (hc : c.kind.isTag = true) : standaloneTag? (xs ++ o :: (ts ++ c :: us)) = none := by
  cases h : standaloneTag? (xs ++ o :: (ts ++ c :: us)) with
  | none => rfl
  | some t =>
    have htext := text_of_standaloneTag? h ho c (by simp)
    rw [htext] at hc
    cases hc

def AloneFrom (source : List Char) (tokens : List Token) (first : Nat) (t : Token) : Prop :=
  ∃ last, IsLine source tokens first last ∧ StandsAlone source tokens first last t

def OpensAlone (source : List Char) (tokens : List Token) (stop : Int) : Prop :=
  ∃ first t, AloneFrom source tokens first t ∧ (t.stop : Int) = stop

/-- The tag that starts at a place stands alone on its line, after some blanks. -/
def ClosesIndented (source : List Char) (tokens : List Token) (start : Int) : Prop :=
  ∃ first t, AloneFrom source tokens first t ∧ (t.start : Int) = start ∧ first < t.start

namespace Settled

variable {source : List Char} {raw tokens ps body qs xs us : List Token} {newline : Option Token}

theorem isSome_standaloneTag?_iff (hs : Settled source raw tokens) (hraw : raw = ps ++ o :: qs)
    (hends : LineEnds qs xs newline us) (htag : o.kind.isTag = true) (hpartial : o.kind ≠ .partialTag) :
    ((standaloneTag? (lineAfter [] ps ++ o :: xs)).isSome = true ↔
      ∃ first, AloneFrom source tokens first o) ∧
      ∀ first, AloneFrom source tokens first o → Tiles first (lineAfter [] ps) o.start := by
  obtain ⟨before, hps, hbefore, hno⟩ := @lineAfter_spec [] nofun ps
  rw [List.nil_append] at hps
  have hsplit : raw = before ++ ((lineAfter [] ps ++ o :: xs) ++ (newline.toList ++ us)) := by
    have hfront : ps ++ o :: (xs ++ (newline.toList ++ us)) =
        before ++ (lineAfter [] ps ++ o :: (xs ++ (newline.toList ++ us))) := by
      rw [← List.append_assoc before, ← hps]
    rw [hraw, hends.eq, hfront]
    simp
  have hunbroken : ∀ u ∈ lineAfter [] ps ++ o :: xs, u.kind ≠ .newline := by
    intro u hu
    rcases List.mem_append.mp hu with hu | hu
    · exact hno u hu
    · rcases List.mem_cons.mp hu with rfl | hu
      · exact TokenKind.ne_newline_of_isTag htag
      · exact hends.unbroken u hu
  have ho : o ∈ lineAfter [] ps ++ o :: xs := by simp
  have htiles := hs.tiles
  rw [hsplit] at htiles
  obtain ⟨first, hfirst, hrest⟩ := Tiles.append_iff.mp htiles
  obtain ⟨last, hl, hline, hiff⟩ :=
    hs.exists_isLine_of_split hsplit hfirst hbefore hends.rest hunbroken
  have hsame : ∀ first', AloneFrom source tokens first' o →
      first' = first ∧ StandsAlone source tokens first last o := by
    rintro first' ⟨last', hl', halone⟩
    have hb := hline.bounds ho
    have h1 := halone.first_le
    have h2 := halone.le_last
    obtain ⟨rfl, rfl⟩ := hl.unique hl' (i := o.start) ⟨by omega, by omega⟩ ⟨by omega, by omega⟩
    exact ⟨rfl, halone⟩
  refine ⟨⟨fun h => ?_, ?_⟩, fun first' h => ?_⟩
  · obtain ⟨t, ht⟩ := Option.isSome_iff_exists.mp h
    rw [eq_of_standaloneTag? ht ho htag hpartial] at ht
    exact ⟨first, last, hl, (hiff o).mp ht⟩
  · rintro ⟨first', h⟩
    rw [(hiff o).mpr (hsame first' h).2]
    rfl
  · obtain ⟨b, hblank, hstart, -⟩ := Tiles.append_iff.mp hline
    rw [(hsame first' h).1, hstart]
    exact hblank

theorem indented_iff (hs : Settled source raw tokens) (hraw : raw = ps ++ o :: qs)
    (hends : LineEnds qs xs newline us) (htag : o.kind.isTag = true) (hpartial : o.kind ≠ .partialTag) :
    ((standaloneTag? (lineAfter [] ps ++ o :: xs)).isSome && !(lineAfter [] ps).isEmpty) = true ↔
      ∃ first, AloneFrom source tokens first o ∧ first < o.start := by
  obtain ⟨hiff, hblank⟩ := hs.isSome_standaloneTag?_iff hraw hends htag hpartial
  have hwhere : ∀ first, AloneFrom source tokens first o →
      (first < o.start ↔ (!(lineAfter [] ps).isEmpty) = true) := by
    intro first halone
    have htiles := hblank first halone
    cases hline : lineAfter [] ps with
    | nil =>
      rw [hline] at htiles
      have heq : first = o.start := htiles
      simp [heq]
    | cons u us =>
      rw [hline] at htiles
      have hle := htiles.2.2.le
      have hlt := htiles.2.1
      have hu := htiles.1
      simp only [List.isEmpty_cons, Bool.not_false, iff_true]
      omega
  rw [Bool.and_eq_true, hiff]
  constructor
  · rintro ⟨⟨first, halone⟩, hne⟩
    exact ⟨first, halone, (hwhere first halone).mpr hne⟩
  · rintro ⟨first, halone, hlt⟩
    exact ⟨⟨first, halone⟩, (hwhere first halone).mp hlt⟩

theorem opensAlone_iff (hs : Settled source raw tokens) (ho : o ∈ tokens) :
    OpensAlone source tokens o.stop ↔ ∃ first, AloneFrom source tokens first o := by
  constructor
  · rintro ⟨first, t, ⟨last, hl, halone⟩, hstop⟩
    have ht := hs.start_lt_stop halone.mem
    have ho' := hs.start_lt_stop ho
    have heq : t = o := eq_of_pairwise_le hs.pairwise_le halone.mem ho (i := o.stop - 1)
      ⟨by omega, by omega⟩ ⟨by omega, by omega⟩
    exact ⟨first, last, hl, heq ▸ halone⟩
  · rintro ⟨first, halone⟩
    exact ⟨first, o, halone, rfl⟩

theorem closesIndented_iff (hs : Settled source raw tokens) (hc : c ∈ tokens) :
    ClosesIndented source tokens c.start ↔
      ∃ first, AloneFrom source tokens first c ∧ first < c.start := by
  constructor
  · rintro ⟨first, t, ⟨last, hl, halone⟩, hstart, hlt⟩
    have ht := hs.start_lt_stop halone.mem
    have hc' := hs.start_lt_stop hc
    have heq : t = c := eq_of_pairwise_le hs.pairwise_le halone.mem hc (i := c.start)
      ⟨by omega, by omega⟩ ⟨by omega, by omega⟩
    exact ⟨first, ⟨last, hl, heq ▸ halone⟩, heq ▸ hlt⟩
  · rintro ⟨first, halone, hlt⟩
    exact ⟨first, c, halone, rfl, hlt⟩

end Settled

/-- A flag drops something: a line with the opening tag has a break, and before the closing tag there
is a text. -/
structure Drops (opened closed : Bool) (body : List Token) : Prop where
  opened_spec : opened = true → ∃ ts nl us, body = ts ++ nl :: us ∧ nl.kind = .newline ∧
    ∀ u ∈ ts, u.kind = .text
  closed_spec : closed = true → ∃ ts nl us, body = ts ++ nl :: us ∧ nl.kind = .newline ∧
    (∀ u ∈ ts, u.kind ≠ .newline) ∧ lineAfter [] us ≠ [] ∧ ∀ u ∈ lineAfter [] us, u.kind = .text

namespace Drops

variable {opened closed : Bool} {xs : List Token}

theorem eq_false (h : Drops opened closed ts) (hts : ∀ u ∈ ts, u.kind ≠ .newline) :
    opened = false ∧ closed = false := by
  constructor
  · rw [Bool.eq_false_iff]
    intro ho
    obtain ⟨xs, nl, us, rfl, hnl, -⟩ := h.opened_spec ho
    exact hts nl (by simp) hnl
  · rw [Bool.eq_false_iff]
    intro hc
    obtain ⟨xs, nl, us, rfl, hnl, -⟩ := h.closed_spec hc
    exact hts nl (by simp) hnl

theorem text_of_opened (h : Drops opened closed (xs ++ nl :: us)) (hnl : nl.kind = .newline)
    (hxs : ∀ u ∈ xs, u.kind ≠ .newline) (ho : opened = true) : ∀ u ∈ xs, u.kind = .text := by
  obtain ⟨ys, nl', vs, hsplit, hnl', htext⟩ := h.opened_spec ho
  have hys : ∀ u ∈ ys, u.kind ≠ .newline := by
    intro u hu
    rw [htext u hu]
    decide
  rw [(Text.append_cons_inj_of_first hsplit hnl hnl' hxs hys).1]
  exact htext

theorem text_of_closed (h : Drops opened closed (xs ++ nl :: us)) (hnl : nl.kind = .newline)
    (hxs : ∀ u ∈ xs, u.kind ≠ .newline) (hc : closed = true) :
    lineAfter [] us ≠ [] ∧ ∀ u ∈ lineAfter [] us, u.kind = .text := by
  obtain ⟨ys, nl', vs, hsplit, hnl', hys, hne, htext⟩ := h.closed_spec hc
  rw [(Text.append_cons_inj_of_first hsplit hnl hnl' hxs hys).2]
  exact ⟨hne, htext⟩

end Drops

theorem exists_settleLine_opening (ho : o.kind.isTag = true) (hpartial : o.kind ≠ .partialTag)
    (before line ts : List Token) (nl : Token) :
    ∃ pre, before ++ settleLine (line ++ o :: ts) (some nl) =
      pre ++ o :: (if (standaloneTag? (line ++ o :: ts)).isSome then [] else ts ++ [nl]) := by
  have hmem : o ∈ line ++ o :: ts := by simp
  rw [settleLine_of_mem hmem ho hpartial]
  by_cases h : (standaloneTag? (line ++ o :: ts)).isSome = true
  · rw [if_pos h, if_pos h]
    exact ⟨before, rfl⟩
  · rw [if_neg h, if_neg h]
    exact ⟨before ++ line, by simp⟩

theorem exists_settleLine_closing (hc : c.kind.isTag = true) (hpartial : c.kind ≠ .partialTag)
    (line ts after : List Token) (newline : Option Token) :
    ∃ post, settleLine (line ++ c :: ts) newline ++ after =
      (if (standaloneTag? (line ++ c :: ts)).isSome && !line.isEmpty then [] else line) ++ c :: post := by
  have hmem : c ∈ line ++ c :: ts := by simp
  rw [settleLine_of_mem hmem hc hpartial]
  by_cases h : (standaloneTag? (line ++ c :: ts)).isSome = true
  · rw [if_pos h, h, Bool.true_and]
    refine ⟨after, ?_⟩
    cases line with
    | nil => rfl
    | cons u us => rfl
  · rw [if_neg h, Bool.eq_false_iff.mpr h, Bool.false_and]
    exact ⟨ts ++ (newline.toList ++ after), by simp⟩

namespace Settled

variable {source : List Char} {raw tokens ps body qs : List Token}

theorem exists_settledBody_sameLine (hs : Settled source raw tokens)
    (hraw : raw = ps ++ o :: (body ++ c :: qs)) (ho : o.kind = .sectionStart)
    (hc : c.kind = .sectionEnd) (hbody : ∀ u ∈ body, u.kind ≠ .newline) :
    ∃ pre post, tokens = pre ++ o :: (body ++ c :: post) ∧ ¬ OpensAlone source tokens o.stop ∧
      ¬ ClosesIndented source tokens c.start := by
  have hotag : o.kind.isTag = true := by rw [ho]; rfl
  have hctag : c.kind.isTag = true := by rw [hc]; rfl
  obtain ⟨xs, newline, us, hends⟩ := exists_lineEnds qs
  have hc' : ∀ u ∈ [c], u.kind ≠ .newline := by
    intro u hu
    rw [List.mem_singleton.mp hu]
    exact TokenKind.ne_newline_of_isTag hctag
  have hendsOpen : LineEnds (body ++ c :: qs) (body ++ c :: xs) newline us :=
    (hends.append hc').append hbody
  have hnone : standaloneTag? (lineAfter [] ps ++ o :: (body ++ c :: xs)) = none :=
    standaloneTag?_of_two_tags hotag hctag
  have hopen := (hs.isSome_standaloneTag?_iff hraw hendsOpen hotag (by rw [ho]; decide)).1
  have hrawClose : raw = (ps ++ o :: body) ++ c :: qs := by
    rw [hraw]
    simp
  have hclose := (hs.isSome_standaloneTag?_iff hrawClose hends hctag (by rw [hc]; decide)).1
  have hline : lineAfter [] (ps ++ o :: body) ++ c :: xs =
      lineAfter [] ps ++ o :: (body ++ c :: xs) := by
    rw [lineAfter_append, lineAfter, if_neg (TokenKind.ne_newline_of_isTag hotag),
      lineAfter_of_no_newline hbody]
    simp
  rw [hnone] at hopen
  rw [hline, hnone] at hclose
  have htokens : tokens = (settledBefore [] ps ++ lineAfter [] ps) ++
      o :: (body ++ c :: (xs ++ (newline.toList ++ settleLines [] us))) := by
    rw [hs.tokens_eq, hraw, settleLines_tag hotag hendsOpen, settleLine, hnone]
    simp
  refine ⟨_, _, htokens, fun h => ?_, fun h => ?_⟩
  · have halone := (hs.opensAlone_iff (by rw [htokens]; simp)).mp h
    exact Bool.false_ne_true (hopen.mpr halone)
  · obtain ⟨first, halone, -⟩ := (hs.closesIndented_iff (by rw [htokens]; simp)).mp h
    exact Bool.false_ne_true (hclose.mpr ⟨first, halone⟩)

/-- With the tags on different lines each of these is settled by itself, and so are those in between. -/
theorem exists_settledBody_otherLine {ts rs : List Token} (hs : Settled source raw tokens)
    (hraw : raw = ps ++ o :: (ts ++ nl :: (rs ++ c :: qs))) (ho : o.kind = .sectionStart)
    (hc : c.kind = .sectionEnd) (hts : ∀ u ∈ ts, u.kind ≠ .newline) (hk : nl.kind = .newline) :
    ∃ pre post opened closed,
      tokens = pre ++ o :: (settledBody opened closed (ts ++ nl :: rs) ++ c :: post) ∧
      (opened = true ↔ OpensAlone source tokens o.stop) ∧
      (closed = true ↔ ClosesIndented source tokens c.start) ∧ Drops opened closed (ts ++ nl :: rs) := by
  have hotag : o.kind.isTag = true := by rw [ho]; rfl
  have hctag : c.kind.isTag = true := by rw [hc]; rfl
  have hopartial : o.kind ≠ .partialTag := by rw [ho]; decide
  have hcpartial : c.kind ≠ .partialTag := by rw [hc]; decide
  have hendsOpen : LineEnds (ts ++ nl :: (rs ++ c :: qs)) ts (some nl) (rs ++ c :: qs) :=
    ⟨rfl, hts, fun nl' h => Option.some.inj h ▸ hk, nofun⟩
  obtain ⟨xs, newline, us, hendsClose⟩ := exists_lineEnds qs
  have hrawClose : raw = (ps ++ o :: (ts ++ nl :: rs)) ++ c :: qs := by
    rw [hraw]
    simp
  have hline : lineAfter [] (ps ++ o :: (ts ++ nl :: rs)) = lineAfter [] rs := by
    rw [← List.cons_append, ← List.append_assoc]
    exact lineAfter_newline hk [] _ rs
  have hopen := (hs.isSome_standaloneTag?_iff hraw hendsOpen hotag hopartial).1
  have hclose := hs.indented_iff hrawClose hendsClose hctag hcpartial
  rw [hline] at hclose
  obtain ⟨pre, hpre⟩ := exists_settleLine_opening hotag hopartial (settledBefore [] ps)
    (lineAfter [] ps) ts nl
  obtain ⟨post, hpost⟩ := exists_settleLine_closing hctag hcpartial (lineAfter [] rs) xs
    (settleLines [] us) newline
  have htokens : tokens = pre ++ o :: (settledBody (standaloneTag? (lineAfter [] ps ++ o :: ts)).isSome
      ((standaloneTag? (lineAfter [] rs ++ c :: xs)).isSome && !(lineAfter [] rs).isEmpty)
      (ts ++ nl :: rs) ++ c :: post) := by
    rw [hs.tokens_eq, hraw, settleLines_tag hotag hendsOpen, settleLines_tag hctag hendsClose, hpost,
      ← List.append_assoc, hpre, settledBody_newline hts hk]
    simp
  refine ⟨pre, post, _, _, htokens, ?_, ?_, fun h => ?_, fun h => ?_⟩
  · rw [hs.opensAlone_iff (by rw [htokens]; simp)]
    exact hopen
  · rw [hs.closesIndented_iff (by rw [htokens]; simp)]
    exact hclose
  · obtain ⟨t, ht⟩ := Option.isSome_iff_exists.mp h
    exact ⟨ts, nl, rs, rfl, hk, fun u hu =>
      text_of_standaloneTag? ht hotag u (List.mem_append_right _ hu)⟩
  · rw [Bool.and_eq_true] at h
    obtain ⟨t, ht⟩ := Option.isSome_iff_exists.mp h.1
    refine ⟨ts, nl, rs, rfl, hk, hts, fun hnil => ?_, fun u hu =>
      text_of_standaloneTag? ht hctag u (List.mem_append_left _ hu)⟩
    rw [hnil] at h
    exact Bool.false_ne_true h.2

theorem exists_settledBody (hs : Settled source raw tokens)
    (hraw : raw = ps ++ o :: (body ++ c :: qs)) (ho : o.kind = .sectionStart)
    (hc : c.kind = .sectionEnd) :
    ∃ pre post opened closed, tokens = pre ++ o :: (settledBody opened closed body ++ c :: post) ∧
      (opened = true ↔ OpensAlone source tokens o.stop) ∧
      (closed = true ↔ ClosesIndented source tokens c.start) ∧ Drops opened closed body := by
  rcases exists_first_newline body with hno | ⟨ts, nl, rs, rfl, hk, hts⟩
  · obtain ⟨pre, post, htokens, hopen, hclose⟩ := hs.exists_settledBody_sameLine hraw ho hc hno
    refine ⟨pre, post, false, false, ?_, ?_, ?_, nofun, nofun⟩
    · rw [settledBody_of_no_newline hno]
      exact htokens
    · simp [hopen]
    · simp [hclose]
  · rw [List.append_assoc, List.cons_append] at hraw
    exact hs.exists_settledBody_otherLine hraw ho hc hts hk

end Settled
end Mustache
