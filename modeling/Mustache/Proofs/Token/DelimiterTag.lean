import Mustache.Proofs.Token.Move

/-! # Delimiter tags

The tag that sets a pair of delimiters tells the pair, and reading it sets the pair again. A line that
holds nothing else leaves no more than the tag, so the text after it is read as if it stood alone under
these delimiters, further on and one line down.
-/
namespace Mustache

namespace Text

variable {w cs : List Char}

theorem headAndWords_append (hw : ∀ c ∈ w, isBlank c = false) (cs : List Char) :
    headAndWords (w ++ cs) = (w ++ (headAndWords cs).1, (headAndWords cs).2) := by
  induction w with
  | nil => rfl
  | cons c w ih =>
    have hrest := ih fun x hx => hw x (List.mem_cons_of_mem c hx)
    simp [headAndWords, hw c List.mem_cons_self, hrest]

theorem words_append_space {v : List Char} (hw : ∀ c ∈ w, isBlank c = false) (hwne : w ≠ [])
    (hv : ∀ c ∈ v, isBlank c = false) (hvne : v ≠ []) : words (w ++ ' ' :: v) = [w, v] := by
  have hlast : headAndWords v = (v, []) := by simpa [headAndWords] using headAndWords_append hv []
  have hspace : headAndWords (' ' :: v) = ([], [v]) := by
    simp [headAndWords, hlast, consWord, hvne, isBlank]
  simp [words, headAndWords_append hw, hspace, consWord, hwne]

theorem dropWhile_append_of_head {p : Char → Bool} {a : List Char} (ha : ∀ c ∈ a, p c = true)
    (hcs : ∀ c ∈ cs.head?, p c = false) : (a ++ cs).dropWhile p = cs := by
  rw [List.dropWhile_append_of_pos ha]
  cases cs with
  | nil => rfl
  | cons c cs => simp [List.dropWhile, hcs c rfl]

theorem strip_append {p : Char → Bool} {a b : List Char} (ha : ∀ c ∈ a, p c = true)
    (hb : ∀ c ∈ b, p c = true) (hne : cs ≠ []) (hfirst : ∀ c ∈ cs.head?, p c = false)
    (hlast : ∀ c ∈ cs.getLast?, p c = false) : strip p (a ++ (cs ++ b)) = cs := by
  have hfront : (a ++ (cs ++ b)).dropWhile p = cs ++ b := by
    apply dropWhile_append_of_head ha
    intro c hc
    apply hfirst
    obtain ⟨x, xs, rfl⟩ := List.exists_cons_of_ne_nil hne
    exact hc
  have hback : (b.reverse ++ cs.reverse).dropWhile p = cs.reverse := by
    apply dropWhile_append_of_head
    · intro c hc
      exact hb c (List.mem_reverse.mp hc)
    · intro c hc
      rw [List.head?_reverse] at hc
      exact hlast c hc
  rw [strip, hfront, stripRight, List.reverse_append, hback, List.reverse_reverse]

end Text

namespace Delimiters

variable {d d' : Delimiters}

theorem not_blank_mem {s : String} (h : IsDelimiter s) {c : Char} (hc : Text.isBlank c = true) :
    c ∉ s.toList := by
  intro hmem
  rw [(h.2 c hmem).1] at hc
  cases hc

theorem tag_of_ne (h : d ≠ standard) :
    (d.tag.getD "").toList =
      "\x7b\x7b= ".toList ++ (d.opening.toList ++ ' ' :: (d.closing.toList ++ " =\x7d\x7d".toList)) := by
  rw [tag, if_neg h, Option.getD_some]
  simp

theorem newline_not_mem_tag (hwf : d.WellFormed) : '\n' ∉ (d.tag.getD "").toList := by
  by_cases h : d = standard
  · rw [tag, if_pos h]
    decide
  · have hopening := not_blank_mem hwf.1 (c := '\n') (by decide)
    have hclosing := not_blank_mem hwf.2 (c := '\n') (by decide)
    rw [tag_of_ne h]
    simp [hopening, hclosing]

theorem tag_inj (hwf : d.WellFormed) (hwf' : d'.WellFormed) (h : d.tag.getD "" = d'.tag.getD "") :
    d = d' := by
  have hempty : ∀ e : Delimiters, e ≠ standard → e.tag.getD "" ≠ "" := by
    intro e he heq
    have hlist := congrArg String.toList heq
    rw [tag_of_ne he] at hlist
    simp at hlist
  by_cases hs : d = standard
  · by_cases hs' : d' = standard
    · rw [hs, hs']
    · rw [tag, if_pos hs] at h
      exact absurd h.symm (hempty d' hs')
  · by_cases hs' : d' = standard
    · rw [show d'.tag = none from if_pos hs'] at h
      exact absurd h (hempty d hs)
    · have hlist := congrArg String.toList h
      rw [tag_of_ne hs, tag_of_ne hs'] at hlist
      have hrest := List.append_cancel_left hlist
      have hno : ∀ e : Delimiters, e.WellFormed → ∀ c ∈ e.opening.toList, ¬ c = ' ' := by
        intro e he c hc hspace
        rw [hspace] at hc
        exact not_blank_mem he.1 (by decide) hc
      obtain ⟨hopening, hclosing⟩ := Text.append_cons_inj_of_first (p := (· = ' ')) hrest rfl rfl
        (hno d hwf) (hno d' hwf')
      have ho : d.opening = d'.opening := String.toList_inj.mp hopening
      have hc : d.closing = d'.closing := String.toList_inj.mp (List.append_cancel_right hclosing)
      cases d
      cases d'
      cases ho
      cases hc
      rfl

def line (d : Delimiters) : String :=
  d.tag.getD "" ++ "\n"

theorem toList_line (d : Delimiters) : d.line.toList = (d.tag.getD "").toList ++ ['\n'] := by
  simp [line]

def spelled (d : Delimiters) : List Char :=
  d.opening.toList ++ ' ' :: d.closing.toList

theorem read?_spelled (hwf : d.WellFormed) : read? d.spelled = some d := by
  have hwords := Text.words_append_space (fun c hc => (hwf.1.2 c hc).1) hwf.1.1
    (fun c hc => (hwf.2.2 c hc).1) hwf.2.1
  have ho : '=' ∉ d.opening.toList := fun h => (hwf.1.2 _ h).2 rfl
  have hc : '=' ∉ d.closing.toList := fun h => (hwf.2.2 _ h).2 rfl
  simp [read?, spelled, hwords, ho, hc]

theorem equals_not_mem_spelled (hwf : d.WellFormed) : '=' ∉ d.spelled := by
  have ho : '=' ∉ d.opening.toList := fun h => (hwf.1.2 _ h).2 rfl
  have hc : '=' ∉ d.closing.toList := fun h => (hwf.2.2 _ h).2 rfl
  simp [spelled, ho, hc]

theorem strip_spelled (hwf : d.WellFormed) :
    Text.strip Text.isBlank (' ' :: (d.spelled ++ [' '])) = d.spelled := by
  have hne : d.spelled ≠ [] := by simp [spelled]
  have hblank : ∀ c ∈ [' '], Text.isBlank c = true := by
    intro c hc
    rw [List.mem_singleton.mp hc]
    rfl
  refine @Text.strip_append d.spelled Text.isBlank [' '] [' '] hblank hblank hne ?_ ?_
  · obtain ⟨o, os, ho⟩ := List.exists_cons_of_ne_nil hwf.1.1
    intro c hc
    apply (hwf.1.2 c _).1
    simpa [spelled, ho, eq_comm] using Or.inl hc
  · obtain ⟨cs, c, hcs⟩ := (List.eq_nil_or_concat d.closing.toList).resolve_left hwf.2.1
    intro x hx
    apply (hwf.2.2 x _).1
    simp only [spelled, hcs, List.concat_eq_append, List.getLast?_append, List.getLast?_cons] at hx
    simp_all

end Delimiters

namespace Cursor

def startUnder (d : Delimiters) (text : List Char) : Cursor :=
  ⟨d, 0, 1, text⟩

variable {d : Delimiters}

theorem step_delimiterTag (hwf : d.WellFormed) (hd : d ≠ .standard) (text : List Char) :
    ∃ t, t.kind = .delimiterTag ∧ (start ((d.tag.getD "").toList ++ text)).step =
      some (.ok (t, ⟨d, (d.tag.getD "").toList.length, 1, text⟩)) := by
  obtain ⟨tag, htag⟩ : ∃ tag, (d.tag.getD "").toList = tag := ⟨_, rfl⟩
  have hnl := Delimiters.newline_not_mem_tag hwf
  have hopening := Delimiters.tag_of_ne hd
  rw [htag] at hnl hopening
  -- The equals sign before the closing delimiter is the first one after the spelled pair.
  obtain ⟨body, hcut, hsource⟩ : ∃ body, Text.cutAt ('=' :: Delimiters.standard.closing.toList) body =
        some (' ' :: (d.spelled ++ [' ']), text) ∧
      tag ++ text = Delimiters.standard.opening.toList ++ '=' :: body := by
    refine ⟨_, Text.cutAt_of_not_mem ?_ text, ?_⟩
    · simp [Delimiters.equals_not_mem_spelled hwf]
    · rw [hopening]
      simp [Delimiters.spelled, Delimiters.standard]
  have hlines : Text.newlines tag = 0 := List.count_eq_zero.mpr hnl
  have hne : d.spelled ≠ [] := by simp [Delimiters.spelled]
  refine ⟨{ (start (tag ++ text)).token .delimiterTag d.spelled tag with delimiters := .standard },
    rfl, ?_⟩
  rw [htag, step_of_opening (s := start (tag ++ text)) Delimiters.wellFormed_standard hsource]
  simp [readTag, tagForm, start, hcut, Delimiters.strip_spelled hwf, Delimiters.read?_spelled hwf, hne,
    token, advance, hlines]

theorem step_newline (hwf : d.WellFormed) (offset line : Nat) (text : List Char) :
    ∃ t, t.kind = .newline ∧ step ⟨d, offset, line, '\n' :: text⟩ =
      some (.ok (t, ⟨d, offset + 1, line + 1, text⟩)) := by
  obtain ⟨o, os, ho⟩ := List.exists_cons_of_ne_nil hwf.1.1
  have hnl : '\n' ∉ d.opening.toList := Delimiters.not_blank_mem hwf.1 (by decide)
  rw [ho] at hnl
  have hprefix : d.opening.toList.isPrefixOf ('\n' :: text) = false := by
    have hne : o ≠ '\n' := fun h => hnl (by simp [h])
    simp [ho, List.isPrefixOf, hne]
  refine ⟨token ⟨d, offset, line, '\n' :: text⟩ .newline ['\n'] ['\n'], rfl, ?_⟩
  simp [step, hprefix, advance, Text.newlines]

/-- Of the line that sets delimiters the tag is left alone, and what comes after it is read under these
delimiters. -/
theorem scan_delimiterLine (hwf : d.WellFormed) (hd : d ≠ .standard) (text : List Char) :
    ∃ t, t.kind = .delimiterTag ∧ (start (d.line.toList ++ text)).scan =
      (t :: ·) <$> ((startUnder d text).moved d.line.length 1).scan := by
  obtain ⟨t, ht, hstep⟩ := step_delimiterTag hwf hd ('\n' :: text)
  obtain ⟨nl, hnl, hstep'⟩ := step_newline hwf (d.tag.getD "").toList.length 1 text
  have hmoved : (startUnder d text).moved d.line.length 1 =
      ⟨d, (d.tag.getD "").toList.length + 1, 1 + 1, text⟩ := by
    simp [startUnder, moved, ← String.length_toList, Delimiters.toList_line]
  have hsource : d.line.toList ++ text = (d.tag.getD "").toList ++ '\n' :: text := by
    simp [Delimiters.toList_line]
  refine ⟨t, ht, ?_⟩
  rw [hsource, scan, scan, tokens_of_step hstep, tokens_of_step hstep', hmoved]
  cases tokens ⟨d, (d.tag.getD "").toList.length + 1, 1 + 1, text⟩ with
  | error e => rfl
  | ok ts =>
    have halone : standaloneTag? [t] = some t := by
      simpa [ht, TokenKind.standsAlone, Token.settledAfter] using
        @standaloneTag?_append [] [] t (by simp) (by simp [ht])
    have hsettle : settleLines [] (t :: nl :: ts) = t :: settleLines [] ts := by
      simp [settleLines, ht, hnl, settleLine, halone]
    exact congrArg Except.ok hsettle

end Cursor
end Mustache
