import Mathlib.Control.Monad.Basic
import Mustache.Proofs.Token.DelimiterTag
import Mustache.Proofs.Token.LineNumber

/-! # Reading on after a line

A text that ends with a line break can be followed by any other text: no delimiter and no run of text
reaches over the break, and the line before it is settled there. So the tokens of the longer text are
those of the first one and those of the second, read under the delimiters that the first one leaves.
-/
namespace Mustache

namespace Cursor

variable {s s' : Cursor} {t : Token} {ts : List Token} {inner raw rest : List Char}

def followedBy (s : Cursor) (more : List Char) : Cursor :=
  { s with rest := s.rest ++ more }

@[simp] theorem delimiters_followedBy (s : Cursor) (more : List Char) :
    (s.followedBy more).delimiters = s.delimiters := rfl

@[simp] theorem rest_followedBy (s : Cursor) (more : List Char) :
    (s.followedBy more).rest = s.rest ++ more := rfl

theorem readTag_followedBy (hwf : s.delimiters.WellFormed)
    (hrest : s.rest = s.delimiters.opening.toList ++ inner) (h : s.readTag inner = .ok (t, s'))
    (more : List Char) : (s.followedBy more).readTag (inner ++ more) = .ok (t, s'.followedBy more) := by
  obtain ⟨kind, before, body, between, rest, hform, hcut, -, -, -⟩ := readTag_spec h
  obtain ⟨raw, hraw⟩ := exists_raw_of_cutAt hrest hform hcut
  have hne : inner ≠ [] := by
    rintro rfl
    obtain ⟨-, rfl, rfl⟩ : TokenKind.escaped = kind ∧ [] = before ∧ [] = body := by
      simpa [tagForm] using hform
    simp [Text.cutAt, hwf.2.1] at hcut
  have hform' := tagForm_append_right hne hform more
  have hcut' := Text.cutAt_append_right more hcut
  have htake : (s.rest ++ more).take ((s.rest ++ more).length - (rest ++ more).length) = raw :=
    take_of_append (s := s.followedBy more) (by simp [hraw])
  unfold readTag at h ⊢
  simp only [delimiters_followedBy, rest_followedBy, hform, hform', hcut, hcut', htake,
    take_of_append hraw] at h ⊢
  split at h
  · cases h
  · rename_i hempty
    rw [if_neg hempty]
    split at h
    · rename_i hk
      rw [if_pos hk]
      split at h
      · cases h
      · cases h
        rfl
    · rename_i hk
      cases h
      rw [if_neg hk]
      rfl

theorem prefix_of_prefix_append {opening cs more : List Char} (ho : '\n' ∉ opening) (hcs : '\n' ∈ cs)
    (h : opening <+: cs ++ more) : opening <+: cs := by
  rcases List.prefix_or_prefix_of_prefix h (List.prefix_append cs more) with hpre | hpre
  · exact hpre
  · exact absurd (hpre.subset hcs) ho

theorem endsText_of_append {opening cs more : List Char} (ho : '\n' ∉ opening) (hcs : '\n' ∈ cs)
    (h : endsText opening (cs ++ more) = true) : endsText opening cs = true := by
  obtain ⟨c, cs, rfl⟩ := List.exists_cons_of_ne_nil (List.ne_nil_of_mem hcs)
  rw [List.cons_append, endsText, Bool.or_eq_true, ← List.cons_append, List.isPrefixOf_iff_prefix] at h
  rcases h with h | h
  · simp [endsText, h]
  · exact endsText_of_prefix (prefix_of_prefix_append ho hcs h)

/-- A step on a line that ends does not look beyond the end of the line. -/
theorem step_followedBy (hwf : s.delimiters.WellFormed) (hline : '\n' ∈ s.rest)
    (h : s.step = some (.ok (t, s'))) (more : List Char) :
    (s.followedBy more).step = some (.ok (t, s'.followedBy more)) := by
  have ho : '\n' ∉ s.delimiters.opening.toList := Delimiters.not_blank_mem hwf.1 (by decide)
  rcases step_cases hwf h with ⟨inner, hrest, htag⟩ | ⟨hpre, rest, hrest, rfl, rfl⟩ |
    ⟨hpre, c, run, rest, hrest, hc, hrun, rfl, rfl⟩
  · have hrest' : (s.followedBy more).rest = s.delimiters.opening.toList ++ (inner ++ more) := by
      simp [hrest]
    rw [step_of_opening (s := s.followedBy more) hwf hrest', readTag_followedBy hwf hrest htag]
  · have hpre' : ¬ s.delimiters.opening.toList <+: s.rest ++ more :=
      fun hp => hpre (prefix_of_prefix_append ho hline hp)
    exact step_of_newline (s := s.followedBy more) hpre' (by simp [hrest, advance])
  · have hpre' : ¬ s.delimiters.opening.toList <+: s.rest ++ more :=
      fun hp => hpre (prefix_of_prefix_append ho hline hp)
    have hfree : '\n' ∉ c :: run := (run_free hwf.1.1 hc (hrest ▸ hpre) hrun).1
    have hin : '\n' ∈ rest := by
      rw [hrest, ← List.cons_append, List.mem_append] at hline
      exact hline.resolve_left hfree
    have hends : endsText s.delimiters.opening.toList rest = true := by
      have hstop := Text.stop_of_runBefore (endsText s.delimiters.opening.toList) (run ++ rest)
      rw [hrun] at hstop
      exact hstop.resolve_left (List.ne_nil_of_mem hin)
    have hrun' : Text.runBefore (endsText s.delimiters.opening.toList) (run ++ (rest ++ more)) =
        (run, rest ++ more) := by
      apply Text.runBefore_eq (Or.inr (endsText_append more (List.ne_nil_of_mem hin) hends))
      intro a b hab hb
      have hstop := @Text.not_stop_of_runBefore (endsText s.delimiters.opening.toList) (run ++ rest) a b
      rw [hrun] at hstop
      rw [Bool.eq_false_iff, ← List.append_assoc]
      intro hmore
      have hshort := endsText_of_append ho (List.mem_append_right b hin) hmore
      rw [hstop hab hb] at hshort
      cases hshort
    exact step_of_text (s := s.followedBy more) hpre' hc (by simp [hrest, advance]) hrun'

def EndsLine (cs : List Char) : Prop :=
  ∀ c ∈ cs.getLast?, c = '\n'

theorem EndsLine.mem (h : EndsLine raw) (hne : raw ≠ []) : '\n' ∈ raw := by
  have hlast : raw.getLast hne = '\n' := h _ (List.getLast?_eq_some_getLast hne)
  exact hlast ▸ List.getLast_mem hne

theorem EndsLine.right (h : EndsLine (raw ++ rest)) : EndsLine rest := by
  intro c hc
  apply h
  rw [List.getLast?_append]
  simp_all

theorem Reads.followedBy (h : s.Reads ts s') (hwf : s.delimiters.WellFormed) (hline : EndsLine s.rest)
    (more : List Char) : (s.followedBy more).Reads ts (s'.followedBy more) := by
  induction h with
  | done s => exact .done _
  | @step s s₁ s₂ t ts hstep _ ih =>
    obtain ⟨raw, hr⟩ := reading_of_step hwf hstep
    have hne : s.rest ≠ [] := by
      intro hnil
      rw [step_eq_none_iff.mpr hnil] at hstep
      cases hstep
    exact .step (step_followedBy hwf (hline.mem hne) hstep more)
      (ih hr.wellFormed (hr.rest_eq ▸ hline).right)

theorem Reading.kind_of_endsLine (h : s.Reading raw t s') (hwf : s.delimiters.WellFormed)
    (hline : EndsLine raw) : t.kind = .newline := by
  by_cases htag : t.kind.isTag = true
  · obtain ⟨front, hfront⟩ := (h.tag_spec htag).2.2
    rw [← hfront] at hline
    exact absurd (hline.right.mem hwf.2.1) (Delimiters.not_blank_mem hwf.2 (by decide))
  · have hmem := hline.mem h.raw_ne_nil
    by_cases hk : t.kind = .newline
    · exact hk
    · exact absurd hmem (h.text_spec (TokenKind.eq_text (by simpa using htag) hk)).2.1

theorem Reads.exists_last (h : s.Reads ts s') (hwf : s.delimiters.WellFormed) (hline : EndsLine s.rest)
    (hnil : s'.rest = []) (hne : ts ≠ []) : ∃ us nl, ts = us ++ [nl] ∧ nl.kind = .newline := by
  induction h with
  | done s => exact absurd rfl hne
  | @step s s₁ s₂ t ts hstep hreads ih =>
    obtain ⟨raw, hr⟩ := reading_of_step hwf hstep
    rw [hr.rest_eq] at hline
    cases hreads with
    | done _ =>
      rw [hnil, List.append_nil] at hline
      exact ⟨[], t, rfl, hr.kind_of_endsLine hwf hline⟩
    | step _ _ =>
      obtain ⟨us, nl, hus, hnl⟩ := ih hr.wellFormed hline.right hnil (by simp)
      exact ⟨t :: us, nl, by rw [hus]; rfl, hnl⟩

theorem Reads.delimiters_eq (h : s.Reads ts s') (hwf : s.delimiters.WellFormed) :
    s'.delimiters = ts.foldl Token.setDelimiters s.delimiters := by
  induction h with
  | done s => rfl
  | step hstep _ ih =>
    obtain ⟨raw, hr⟩ := reading_of_step hwf hstep
    rw [ih hr.wellFormed, List.foldl_cons, hr.delimiters_eq]

theorem Counts.at_end {source : List Char} (hs : s.Counts source) (hnil : s.rest = []) :
    s.offset = source.length ∧ s.line = 1 + Text.newlines source := by
  have hlen := congrArg List.length hs.rest_eq
  have hle := hs.offset_le
  rw [hnil, List.length_drop, List.length_nil] at hlen
  have hoff : s.offset = source.length := by omega
  rw [hs.line_eq, Text.lineAt, hoff, List.take_length]
  exact ⟨rfl, rfl⟩

end Cursor

open Cursor

variable {a : String} {tokens : List Token}

theorem length_toList_line (a : String) : (a ++ "\n").toList.length = a.length + 1 := by
  rw [String.length_toList, String.length_append]
  rfl

theorem Settled.delimitersAt_end {source : List Char} {raw : List Token}
    (hs : Settled source raw tokens) :
    delimitersAt tokens source.length = raw.foldl Token.setDelimiters .standard := by
  have hall : raw.filter (fun t => t.stop ≤ source.length) = raw :=
    List.filter_eq_self.mpr fun t ht => decide_eq_true (hs.tiles.bounds ht).2.2
  rw [delimitersAt_congr source.length hs.tags_eq, delimitersAt, hall]

theorem wellFormed_delimitersAt_end {source : String} (h : scan source = .ok tokens) :
    (delimitersAt tokens source.toList.length).WellFormed := by
  obtain ⟨raw, hraw, hs⟩ := settled_of_scan h
  obtain ⟨s, hreads, -⟩ := reads_of_tokens hraw
  have hwf : (start source.toList).delimiters.WellFormed := Delimiters.wellFormed_standard
  have hend : s.delimiters = _ := hreads.delimiters_eq hwf
  rw [hs.delimitersAt_end]
  exact hend ▸ hreads.wellFormed hwf

/-- Behind a line the scan goes on as if it began there, under the delimiters in force. -/
theorem scan_line_append (h : scan (a ++ "\n") = .ok tokens) (b : String) :
    scan (a ++ "\n" ++ b) = (tokens ++ ·) <$>
      ((startUnder (delimitersAt tokens (a.length + 1)) b.toList).moved (a.length + 1)
        (Text.newlines (a ++ "\n").toList)).scan := by
  obtain ⟨raw, hraw, hs⟩ := settled_of_scan h
  obtain ⟨s, hreads, hnil⟩ := reads_of_tokens hraw
  have hwf : (start (a ++ "\n").toList).delimiters.WellFormed := Delimiters.wellFormed_standard
  have hline : EndsLine (start (a ++ "\n").toList).rest := by simp [start, EndsLine]
  have hlen := length_toList_line a
  have hcursor : s.followedBy b.toList =
      (startUnder (delimitersAt tokens (a.length + 1)) b.toList).moved (a.length + 1)
        (Text.newlines (a ++ "\n").toList) := by
    obtain ⟨hoffset, hcount⟩ := (hreads.counts hwf (.start _)).at_end hnil
    rw [← hlen, hs.delimitersAt_end]
    simp [followedBy, startUnder, moved, hnil, hoffset, hcount, hreads.delimiters_eq hwf, start]
  have hne : raw ≠ [] := by
    rintro rfl
    have hempty : 0 = (a ++ "\n").toList.length := hs.tiles
    omega
  obtain ⟨us, nl, rfl, hnl⟩ := hreads.exists_last hwf hline hnil hne
  have htokens := (hreads.followedBy hwf hline b.toList).tokens_eq
  have hstart : start (a ++ "\n" ++ b).toList = (start (a ++ "\n").toList).followedBy b.toList := by
    simp [start, followedBy]
  rw [scan, Cursor.scan, hstart, htokens, hcursor, Cursor.scan]
  cases Cursor.tokens _ with
  | error e => rfl
  | ok ts =>
    have hsettle : settleLines [] (us ++ nl :: ts) = tokens ++ settleLines [] ts := by
      rw [settleLines_append_of_newline hnl, ← hs.tokens_eq]
    exact congrArg Except.ok (by simpa using hsettle)

/-- The error of an unreadable tag shows no other line than its own. -/
theorem Cursor.Unreadable.lowered {s : Cursor} {fault : SyntaxFault} (h : s.Unreadable fault)
    (line : Int) (l : Nat) : SyntaxError.lowered l ⟨fault, some line⟩ = ⟨fault, some (line + l)⟩ := by
  cases h <;> rfl

/-- Scanning is compositional at the ends of lines. If a text that ends with a line break can be scanned,
any text behind it is scanned as it would be on its own under the delimiters in force there: its tokens
follow those of the first text, further on and further down, and if it fails the whole fails with the same
fault further down. -/
theorem scan_compositional (h : scan (a ++ "\n") = .ok tokens) (b : String) :
    (∀ ts, (startUnder (delimitersAt tokens (a.length + 1)) b.toList).scan = .ok ts →
      scan (a ++ "\n" ++ b) =
        .ok (tokens ++ ts.map (Token.moved (a.length + 1) (Text.newlines (a ++ "\n").toList)))) ∧
    ∀ e, scan (a ++ "\n" ++ b) = .error e ↔
      ∃ fault line, (startUnder (delimitersAt tokens (a.length + 1)) b.toList).scan =
          .error ⟨fault, some line⟩ ∧
        e = ⟨fault, some (line + Text.newlines (a ++ "\n").toList)⟩ := by
  have hwf := wellFormed_delimitersAt_end h
  rw [length_toList_line] at hwf
  have hscan := scan_line_append h b
  rw [scan_moved] at hscan
  constructor
  · intro ts hts
    rw [hscan, hts]
    rfl
  intro e
  constructor
  · intro he
    cases hb : (startUnder (delimitersAt tokens (a.length + 1)) b.toList).scan with
    | ok ts =>
      rw [hscan, hb] at he
      cases he
    | error e' =>
      obtain ⟨_, s, fault, -, hfault, rfl⟩ := (scan_eq_error_iff hwf).mp hb
      rw [hscan, hb] at he
      cases he
      exact ⟨fault, s.line, rfl, hfault.lowered _ _⟩
  · rintro ⟨fault, line, hb, rfl⟩
    obtain ⟨_, s, _, -, hfault, hsame⟩ := (scan_eq_error_iff hwf).mp hb
    cases hsame
    rw [hscan, hb, ← hfault.lowered]
    rfl

theorem scan_compositional_new_delimiters :
    scan ("{{=| |=}}" ++ "\n") = .ok [⟨.delimiterTag, "| |", 1, 0, 9, .standard, ""⟩] ∧
    scan ("{{=| |=}}" ++ "\n" ++ "\x7b\x7b|x|") =
      .ok ([⟨.delimiterTag, "| |", 1, 0, 9, .standard, ""⟩] ++
        [⟨.text, "\x7b\x7b", 2, 10, 12, .standard, ""⟩, ⟨.escaped, "x", 2, 12, 15, ⟨"|", "|"⟩, ""⟩]) ∧
    scan ("{{=| |=}}" ++ "\n" ++ "a\n|x") = .error ⟨.unclosedTag "|" "x", some 3⟩ := by
  have h : scan ("{{=| |=}}" ++ "\n") =
      .ok [⟨.delimiterTag, "| |", 1, 0, 9, .standard, ""⟩] := by
    decide +kernel
  have htag : (startUnder ⟨"|", "|"⟩ "\x7b\x7b|x|".toList).scan =
      .ok [⟨.text, "\x7b\x7b", 1, 0, 2, .standard, ""⟩, ⟨.escaped, "x", 1, 2, 5, ⟨"|", "|"⟩, ""⟩] := by
    decide +kernel
  have hopen : (startUnder ⟨"|", "|"⟩ "a\n|x".toList).scan = .error ⟨.unclosedTag "|" "x", some 2⟩ := by
    decide +kernel
  exact ⟨h, (scan_compositional h _).1 _ htag, ((scan_compositional h _).2 _).mpr ⟨_, 2, hopen, rfl⟩⟩

end Mustache
