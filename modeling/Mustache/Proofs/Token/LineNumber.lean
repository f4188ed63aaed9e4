import Mustache.Proofs.Token.LogicalLine

/-! # Line numbers

A cursor counts the line breaks that it passes, inside tags and between them, so its line is the line of
its place in the text. Tokens have the line of the cursor they are read at, and so has the error of a tag
that cannot be read. Settling drops tokens and changes no line.
-/
namespace Mustache

def Text.lineAt (source : List Char) (place : Nat) : Nat :=
  1 + newlines (source.take place)

theorem Text.newlines_append (cs ds : List Char) : newlines (cs ++ ds) = newlines cs + newlines ds :=
  List.count_append

namespace Cursor

variable {source raw inner : List Char} {s s' : Cursor} {t : Token} {ts : List Token} {e : SyntaxError}

theorem take_of_append {rest : List Char} (h : s.rest = raw ++ rest) :
    s.rest.take (s.rest.length - rest.length) = raw := by
  simp [h]

theorem Reading.line_after (h : s.Reading raw t s') (hwf : s.delimiters.WellFormed)
    (hstep : s.step = some (.ok (t, s'))) : s'.line = s.line + Text.newlines raw := by
  have hrest := h.rest_eq
  rcases step_cases hwf hstep with ⟨inner, -, htag⟩ | ⟨-, rest, hnl, -, rfl⟩ |
    ⟨-, c, run, rest, htext, -, -, -, rfl⟩
  · obtain ⟨kind, before, body, between, rest, -, -, -, rfl, -⟩ := readTag_spec htag
    have hraw : s.rest.take (s.rest.length - rest.length) = raw := take_of_append hrest
    simp [advance, hraw]
  · have hraw : ['\n'] = raw := List.append_cancel_right (hnl.symm.trans hrest)
    simp [advance, hraw]
  · have hraw : c :: run = raw := List.append_cancel_right (htext.symm.trans hrest)
    simp [advance, hraw]

structure Counts (source : List Char) (s : Cursor) : Prop extends s.IsAt source where
  line_eq : s.line = Text.lineAt source s.offset

theorem Counts.start (source : List Char) : (Cursor.start source).Counts source where
  toIsAt := IsAt.start source
  line_eq := rfl

theorem Counts.step (hs : s.Counts source) (hwf : s.delimiters.WellFormed)
    (h : s.step = some (.ok (t, s'))) : s'.Counts source := by
  obtain ⟨raw, hr⟩ := reading_of_step hwf h
  refine ⟨hr.isAt hs.toIsAt, ?_⟩
  have hdrop : source.drop s.offset = raw ++ s'.rest := hs.rest_eq.symm.trans hr.rest_eq
  have htake : source.take s'.offset = source.take s.offset ++ raw := by
    rw [hr.offset_eq, hr.stop_eq, List.take_add, hdrop, List.take_left]
  rw [hr.line_after hwf h, hs.line_eq, Text.lineAt, Text.lineAt, htake, Text.newlines_append]
  omega

theorem Reads.counts (h : s.Reads ts s') (hwf : s.delimiters.WellFormed) (hs : s.Counts source) :
    s'.Counts source := by
  induction h with
  | done s => exact hs
  | step hstep _ ih =>
    obtain ⟨raw, hr⟩ := reading_of_step hwf hstep
    exact ih hr.wellFormed (hs.step hwf hstep)

theorem Reads.line_of_mem (h : s.Reads ts s') (hwf : s.delimiters.WellFormed) (hs : s.Counts source)
    (ht : t ∈ ts) : t.line = Text.lineAt source t.start := by
  induction h with
  | done s => cases ht
  | step hstep _ ih =>
    obtain ⟨raw, hr⟩ := reading_of_step hwf hstep
    rcases List.mem_cons.mp ht with rfl | ht
    · rw [hr.line_eq, hr.start_eq]
      exact hs.line_eq
    · exact ih hr.wellFormed (hs.step hwf hstep) ht

/-- What is wrong with the tag at a cursor: it has no closing delimiter, nothing in it, or no pair of
delimiters in it where it should set them. -/
inductive Unreadable (s : Cursor) : SyntaxFault → Prop
  | unclosed {inner before body : List Char} {kind : TokenKind} :
      s.rest = s.delimiters.opening.toList ++ inner → tagForm inner = (kind, before, body) →
      ¬ before ++ s.delimiters.closing.toList <:+: body →
      Unreadable s (.unclosedTag s.delimiters.opening (String.ofList (inner.take 1)))
  | empty {raw inner before body between rest : List Char} {kind : TokenKind} :
      s.rest = s.delimiters.opening.toList ++ inner → tagForm inner = (kind, before, body) →
      Text.cutAt (before ++ s.delimiters.closing.toList) body = some (between, rest) →
      kind ≠ .comment → Text.strip Text.isBlank between = [] → s.rest = raw ++ rest →
      Unreadable s (.emptyTag (String.ofList raw))
  | invalid {inner before body between rest value : List Char} :
      s.rest = s.delimiters.opening.toList ++ inner → tagForm inner = (.delimiterTag, before, body) →
      Text.cutAt (before ++ s.delimiters.closing.toList) body = some (between, rest) →
      value = Text.strip Text.isBlank between → value ≠ [] → Delimiters.read? value = none →
      Unreadable s (.invalidDelimiters (String.ofList value))

theorem exists_raw_of_cutAt {before body between rest : List Char} {kind : TokenKind}
    (hrest : s.rest = s.delimiters.opening.toList ++ inner)
    (hform : tagForm inner = (kind, before, body))
    (hcut : Text.cutAt (before ++ s.delimiters.closing.toList) body = some (between, rest)) :
    ∃ raw, s.rest = raw ++ rest := by
  obtain ⟨sigil, hinner, -⟩ := tagForm_append inner
  have hbody := Text.append_cutAt hcut
  rw [hform] at hinner
  refine ⟨s.delimiters.opening.toList ++ (sigil ++ (between ++ (before ++ s.delimiters.closing.toList))), ?_⟩
  simp [hrest, hinner, ← hbody]

theorem readTag_eq_error_iff (hrest : s.rest = s.delimiters.opening.toList ++ inner) :
    s.readTag inner = .error e ↔ ∃ fault, s.Unreadable fault ∧ e = ⟨fault, some (s.line : Int)⟩ := by
  constructor
  · intro h
    rcases hform : tagForm inner with ⟨kind, before, body⟩
    unfold readTag at h
    simp only [hform] at h
    split at h
    · rename_i hcut
      cases h
      exact ⟨_, .unclosed hrest hform (Text.cutAt_eq_none_iff.mp hcut), rfl⟩
    · rename_i between rest hcut
      obtain ⟨raw, hraw⟩ := exists_raw_of_cutAt hrest hform hcut
      rw [take_of_append hraw] at h
      split at h
      · rename_i hempty
        simp only [Bool.and_eq_true, List.isEmpty_iff, bne_iff_ne] at hempty
        cases h
        exact ⟨_, .empty hrest hform hcut hempty.2 hempty.1 hraw, rfl⟩
      · rename_i hempty
        split at h
        · rename_i hk
          subst hk
          split at h
          · rename_i hread
            cases h
            exact ⟨_, .invalid hrest hform hcut rfl (by simpa using hempty) hread, rfl⟩
          · cases h
        · cases h
  · rintro ⟨fault, hfault, rfl⟩
    have hsame : ∀ {cs}, s.rest = s.delimiters.opening.toList ++ cs → cs = inner :=
      fun h => List.append_cancel_left (h.symm.trans hrest)
    cases hfault with
    | unclosed hrest' hform hin =>
      obtain rfl := hsame hrest'
      simp [readTag, hform, Text.cutAt_eq_none_iff.mpr hin]
    | empty hrest' hform hcut hk hvalue hraw =>
      obtain rfl := hsame hrest'
      simp [readTag, hform, hcut, hvalue, hk, take_of_append hraw]
    | invalid hrest' hform hcut hvalue hne hread =>
      obtain rfl := hsame hrest'
      rw [hvalue] at hne hread
      simp [readTag, hform, hcut, hne, hread, hvalue, token]

theorem exists_inner_of_error (h : s.step = some (.error e)) :
    ∃ inner, s.rest = s.delimiters.opening.toList ++ inner := by
  unfold step at h
  simp only at h
  split at h
  · cases h
  · rename_i c cs hrest
    split at h
    · rename_i hp
      obtain ⟨inner, hinner⟩ := List.isPrefixOf_iff_prefix.mp hp
      exact ⟨inner, hrest.trans hinner.symm⟩
    · split at h <;> cases h

theorem step_eq_error_iff (hwf : s.delimiters.WellFormed) : s.step = some (.error e) ↔
    ∃ fault, s.Unreadable fault ∧ e = ⟨fault, some (s.line : Int)⟩ := by
  constructor
  · intro h
    obtain ⟨inner, hrest⟩ := exists_inner_of_error h
    rw [step_of_opening hwf hrest] at h
    exact (readTag_eq_error_iff hrest).mp (Option.some.inj h)
  · rintro ⟨fault, hfault, rfl⟩
    obtain ⟨inner, hrest⟩ : ∃ inner, s.rest = s.delimiters.opening.toList ++ inner := by
      cases hfault with
      | unclosed hrest | empty hrest | invalid hrest => exact ⟨_, hrest⟩
    rw [step_of_opening hwf hrest, (readTag_eq_error_iff hrest).mpr ⟨fault, hfault, rfl⟩]

/-- A text fails to be read exactly if the steps from its start come to an unreadable tag. -/
theorem tokens_eq_error_iff (hwf : s.delimiters.WellFormed) : s.tokens = .error e ↔
    ∃ ts s' fault, s.Reads ts s' ∧ s'.Unreadable fault ∧ e = ⟨fault, some (s'.line : Int)⟩ := by
  constructor
  · intro h
    induction s using Cursor.tokens.induct with
    | case1 s hstep =>
      rw [tokens_of_none hstep] at h
      cases h
    | case2 s e' hstep =>
      rw [tokens_of_error hstep] at h
      cases h
      obtain ⟨fault, hfault, he⟩ := (step_eq_error_iff hwf).mp hstep
      exact ⟨[], s, fault, .done s, hfault, he⟩
    | case3 s t s' hstep ih =>
      rw [tokens_of_step hstep] at h
      obtain ⟨raw, hr⟩ := reading_of_step hwf hstep
      cases hts : s'.tokens with
      | ok ts =>
        rw [hts] at h
        cases h
      | error e' =>
        rw [hts] at h
        cases h
        obtain ⟨ts, u, fault, hreads, hfault⟩ := ih hr.wellFormed hts
        exact ⟨t :: ts, u, fault, .step hstep hreads, hfault⟩
  · rintro ⟨ts, s', fault, hreads, hfault, rfl⟩
    have hstep := (step_eq_error_iff (hreads.wellFormed hwf)).mpr ⟨fault, hfault, rfl⟩
    rw [hreads.tokens_eq, tokens_of_error hstep]
    rfl

theorem scan_eq_error_iff (hwf : s.delimiters.WellFormed) : s.scan = .error e ↔
    ∃ ts s' fault, s.Reads ts s' ∧ s'.Unreadable fault ∧ e = ⟨fault, some (s'.line : Int)⟩ := by
  rw [← tokens_eq_error_iff hwf, scan]
  cases s.tokens <;> simp [Functor.map, Except.map]

end Cursor
end Mustache
