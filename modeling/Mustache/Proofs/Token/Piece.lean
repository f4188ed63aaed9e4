import Mustache.Proofs.Token.Alike

/-! # Raw bodies read by themselves

The tokens between the tags of a section are those read from its raw body alone, moved to where the body
stands, and settled as the two tags stand on their lines. Nothing else of the text around the body matters.
-/
namespace Mustache

def ClosesAlone (source : List Char) (tokens : List Token) (start : Int) : Prop :=
  ∃ first t, AloneFrom source tokens first t ∧ (t.start : Int) = start

def Cursor.ofPiece (d : Delimiters) (piece : List Char) : Cursor :=
  ⟨d, 0, 0, piece⟩

theorem Cursor.Reads.exists_moved {s s' : Cursor} {ts : List Token} {piece : List Char}
    (h : s.Reads ts s') (hwf : s.delimiters.WellFormed) (hpiece : s.rest = piece ++ s'.rest) :
    ∃ us, (Cursor.ofPiece s.delimiters piece).tokens = .ok us ∧
      ts = us.map (Token.moved s.offset s.line) := by
  have hcut := tokens_of_reads (h.truncate hwf hpiece) rfl
  have hmoved : { s with rest := piece } = (ofPiece s.delimiters piece).moved s.offset s.line := by
    simp [ofPiece, moved]
  rw [hmoved, tokens_moved] at hcut
  cases hus : (ofPiece s.delimiters piece).tokens with
  | error e =>
    rw [hus] at hcut
    cases hcut
  | ok us =>
    rw [hus] at hcut
    exact ⟨us, rfl, (Except.ok.inj hcut).symm⟩

theorem StandsAlone.isLineBlank {source : List Char} {tokens : List Token} {first last i : Nat} {t : Token}
    {ch : Char} (h : StandsAlone source tokens first last t) (hfirst : first ≤ i) (hlast : i < last)
    (hout : ¬ (t.start ≤ i ∧ i < t.stop)) (hch : source[i]? = some ch) : Text.isLineBlank ch = true := by
  obtain ⟨c, hc, hblank⟩ := h.blank i hfirst hlast hout
  rw [hch] at hc
  cases hc
  exact hblank

namespace Settled

variable {source : List Char} {raw tokens ps qs ts pre body post : List Token} {o c : Token}

section Tags

variable {stop start : Nat} {ch : Char}

theorem not_opensAlone (hs : Settled source raw tokens) (hch : source[stop]? = some ch) (hnl : ch ≠ '\n')
    (hblank : Text.isLineBlank ch = false) : ¬ OpensAlone source tokens stop := by
  rintro ⟨first, t, ⟨last, hline, halone⟩, hstop⟩
  have hlt := (List.getElem?_eq_some_iff.mp hch).1
  have hle := halone.le_last
  have hfirst := halone.first_le
  have ht := hs.start_lt_stop halone.mem
  have hne : last ≠ stop := by
    rintro rfl
    rcases hline.ends with hend | ⟨hbreak, -⟩
    · omega
    · rw [hch] at hbreak
      exact hnl (Option.some.inj hbreak)
  have hisblank := halone.isLineBlank (by omega) (by omega) (by omega) hch
  rw [hblank] at hisblank
  cases hisblank

theorem not_closesAlone (hs : Settled source raw tokens) (hch : source[start]? = some ch)
    (hnl : ch ≠ '\n') (hblank : Text.isLineBlank ch = false) :
    ¬ ClosesAlone source tokens (start + 1 : Nat) := by
  rintro ⟨first, t, ⟨last, hline, halone⟩, hstart⟩
  have hle := halone.le_last
  have hfirst := halone.first_le
  have ht := hs.start_lt_stop halone.mem
  have hne : first ≠ start + 1 := by
    rintro rfl
    rcases hline.starts with hzero | ⟨i, hi, hbreak, -⟩
    · omega
    · obtain rfl : start = i := by omega
      rw [hch] at hbreak
      exact hnl (Option.some.inj hbreak)
  have hisblank := halone.isLineBlank (by omega) (by omega) (by omega) hch
  rw [hblank] at hisblank
  cases hisblank

end Tags

theorem closesAlone_iff (hs : Settled source raw tokens) (hc : c ∈ tokens) :
    ClosesAlone source tokens c.start ↔ ∃ first, AloneFrom source tokens first c := by
  constructor
  · rintro ⟨first, t, ⟨last, hl, halone⟩, hstart⟩
    have ht := hs.start_lt_stop halone.mem
    have hc' := hs.start_lt_stop hc
    have heq : t = c := eq_of_pairwise_le hs.pairwise_le halone.mem hc (i := c.start)
      ⟨by omega, by omega⟩ ⟨by omega, by omega⟩
    exact ⟨first, last, hl, heq ▸ halone⟩
  · rintro ⟨first, halone⟩
    exact ⟨first, c, halone, rfl⟩

/-- A closing tag stands alone after blanks if it stands alone and its line starts in the body. -/
theorem closesIndented_iff_closesAlone (hs : Settled source raw tokens)
    (hraw : raw = ps ++ o :: (ts ++ c :: qs)) (ho : o.kind = .sectionStart) (hc : c.kind = .sectionEnd)
    (hmem : c ∈ tokens) : ClosesIndented source tokens c.start ↔
      ClosesAlone source tokens c.start ∧ lineAfter [] ts ≠ [] := by
  have hotag : o.kind.isTag = true := by rw [ho]; rfl
  have hctag : c.kind.isTag = true := by rw [hc]; rfl
  have hcpartial : c.kind ≠ .partialTag := by rw [hc]; decide
  obtain ⟨xs, newline, us, hends⟩ := exists_lineEnds qs
  have hrawClose : raw = (ps ++ o :: ts) ++ c :: qs := by simp [hraw]
  have halone := (hs.isSome_standaloneTag?_iff hrawClose hends hctag hcpartial).1
  have hindented := hs.indented_iff hrawClose hends hctag hcpartial
  rw [hs.closesIndented_iff hmem, hs.closesAlone_iff hmem, ← hindented, ← halone]
  rcases exists_first_newline ts with hno | ⟨ys, nl, vs, rfl, hnl, -⟩
  · have hnone : standaloneTag? (lineAfter [] (ps ++ o :: ts) ++ c :: xs) = none := by
      rw [lineAfter_append, lineAfter, if_neg (TokenKind.ne_newline_of_isTag hotag),
        lineAfter_of_no_newline hno, List.append_assoc, List.append_assoc]
      exact standaloneTag?_of_two_tags hotag hctag
    simp [hnone]
  · have hline : lineAfter [] (ps ++ o :: (ys ++ nl :: vs)) = lineAfter [] (ys ++ nl :: vs) := by
      rw [← List.cons_append, ← List.append_assoc, lineAfter_newline hnl, lineAfter_newline hnl]
    rw [hline, Bool.and_eq_true]
    simp

/-- What is left between the tags of a section: what is read from its raw body alone, settled as the tags
stand on their lines, and moved to its place. -/
theorem exists_body_moved (hs : Settled source raw tokens)
    (hread : (Cursor.start source).tokens = .ok raw)
    (htokens : tokens = pre ++ o :: (body ++ c :: post)) (ho : o.kind = .sectionStart)
    (hc : c.kind = .sectionEnd) :
    ∃ us l opened closed,
      (Cursor.ofPiece o.delimiters (Text.slice source o.stop c.start)).tokens = .ok us ∧
      body = (settledBody opened closed us).map (Token.moved o.stop l) ∧
      (opened = true ↔ OpensAlone source tokens o.stop) ∧
      (closed = true ↔ ClosesAlone source tokens c.start ∧ lineAfter [] us ≠ []) := by
  obtain ⟨ps, ts, qs, opened, closed, hraw, rfl, hopen, hclose, -⟩ := hs.exists_body htokens ho hc
  obtain ⟨s, s', hreads, hd, hwf, hoffset, hrest⟩ := Cursor.exists_reads_body hread hraw ho
  obtain ⟨us, hus, rfl⟩ := hreads.exists_moved hwf hrest
  have hmoves := Token.moves_moved o.stop s.line
  have hline := hmoves.lineAfter_map [] us
  rw [hs.closesIndented_iff_closesAlone hraw ho hc (by rw [htokens]; simp), hoffset] at hclose
  rw [List.map_nil] at hline
  rw [hline, ne_eq, List.map_eq_nil_iff] at hclose
  rw [hd] at hus
  rw [hoffset]
  exact ⟨us, s.line, opened, closed, hus, hmoves.settledBody_map opened closed us, hopen, hclose⟩

end Settled
end Mustache
