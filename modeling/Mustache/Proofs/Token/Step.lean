import Mustache.Proofs.Text.Search
import Mustache.Token.Scan

/-! # What one step reads

A step of the lexer takes a piece `raw` off the text that remains and makes one token of it. `Reading`
collects what holds of every such step: where the token stands, what its value is and which delimiters
are in force after it. A list of tokens is *read* between two cursors when the steps from the one to
the other give these tokens; all facts about whole templates are inductions on that.
-/
namespace Mustache

def TokenKind.isTag : TokenKind → Bool
  | .text | .newline => false
  | _ => true

theorem TokenKind.eq_text {k : TokenKind} (htag : k.isTag = false) (hnl : k ≠ .newline) :
    k = .text := by
  cases k with
  | text => rfl
  | newline => exact absurd rfl hnl
  | _ => cases htag

def Token.setDelimiters (d : Delimiters) (t : Token) : Delimiters :=
  if t.kind = .delimiterTag then (Delimiters.read? t.value.toList).getD d else d

namespace Cursor

/-- A step takes `raw` off the text at the cursor `s` for the token `t` and goes on at `s'`. -/
structure Reading (s : Cursor) (raw : List Char) (t : Token) (s' : Cursor) : Prop where
  rest_eq : s.rest = raw ++ s'.rest
  raw_ne_nil : raw ≠ []
  start_eq : t.start = s.offset
  stop_eq : t.stop = s.offset + raw.length
  line_eq : t.line = s.line
  offset_eq : s'.offset = t.stop
  indent_eq : t.indent = ""
  delimiters_eq : s'.delimiters = t.setDelimiters s.delimiters
  wellFormed : s'.delimiters.WellFormed
  text_spec : t.kind = .text → t.value.toList = raw ∧ '\n' ∉ raw ∧
    ¬ s.delimiters.opening.toList <:+: raw
  newline_spec : t.kind = .newline → t.value.toList = raw ∧ raw = ['\n']
  tag_spec : t.kind.isTag = true → t.delimiters = s.delimiters ∧
    s.delimiters.opening.toList <+: raw ∧ s.delimiters.closing.toList <:+ raw

theorem tagForm_append (inner : List Char) :
    ∃ sigil, inner = sigil ++ (tagForm inner).2.2 ∧ (tagForm inner).1.isTag = true := by
  unfold tagForm
  split
  all_goals first | exact ⟨[_], rfl, rfl⟩ | exact ⟨[], rfl, rfl⟩

/-- What a tag is made of: the kind, the text before the closing delimiter and the body come from the
text after the opening delimiter, and the value ends at the first closing text. -/
theorem readTag_spec {s s' : Cursor} {inner : List Char} {t : Token}
    (h : s.readTag inner = .ok (t, s')) :
    ∃ kind before body between rest,
      tagForm inner = (kind, before, body) ∧
      Text.cutAt (before ++ s.delimiters.closing.toList) body = some (between, rest) ∧
      t = { s.token kind (Text.strip Text.isBlank between)
              (s.rest.take (s.rest.length - rest.length)) with delimiters := s.delimiters } ∧
      s' = { s.advance (s.rest.take (s.rest.length - rest.length)) rest with
              delimiters := t.setDelimiters s.delimiters } ∧
      (kind = .delimiterTag → ∃ d, Delimiters.read? t.value.toList = some d) := by
  unfold readTag at h
  rcases hf : tagForm inner with ⟨kind, before, body⟩
  simp only [hf] at h
  split at h
  · cases h
  · rename_i between rest hcut
    refine ⟨kind, before, body, between, rest, rfl, hcut, ?_⟩
    split at h
    · cases h
    · split at h
      · rename_i hk
        split at h
        · cases h
        · rename_i d hd
          cases h
          have hset : Token.setDelimiters s.delimiters
              { s.token kind (Text.strip Text.isBlank between)
                (s.rest.take (s.rest.length - rest.length)) with delimiters := s.delimiters } = d := by
            simp [Token.setDelimiters, Cursor.token, hk, hd]
          exact ⟨rfl, by rw [hset], fun _ => ⟨d, by simpa [Cursor.token] using hd⟩⟩
      · rename_i hk
        cases h
        refine ⟨rfl, ?_, fun hk' => absurd hk' hk⟩
        simp [Token.setDelimiters, Cursor.token, hk, advance]

theorem isTag_of_readTag {s s' : Cursor} {inner : List Char} {t : Token}
    (h : s.readTag inner = .ok (t, s')) : t.kind.isTag = true := by
  obtain ⟨kind, before, body, between, rest, hform, -, ht, -, -⟩ := readTag_spec h
  obtain ⟨sigil, -, htag⟩ := tagForm_append inner
  rw [hform] at htag
  rw [ht]
  exact htag

theorem step_eq_none_iff {s : Cursor} : s.step = none ↔ s.rest = [] := by
  unfold step
  cases h : s.rest with
  | nil => simp
  | cons c cs =>
    simp only [reduceCtorEq, iff_false]
    split
    · simp
    · split <;> simp

theorem step_of_opening {s : Cursor} {inner : List Char} (hwf : s.delimiters.WellFormed)
    (hrest : s.rest = s.delimiters.opening.toList ++ inner) : s.step = some (s.readTag inner) := by
  obtain ⟨o, os, ho⟩ := List.exists_cons_of_ne_nil hwf.1.1
  have hcons : s.rest = o :: (os ++ inner) := by rw [hrest, ho, List.cons_append]
  have hprefix : s.delimiters.opening.toList.isPrefixOf (o :: (os ++ inner)) = true := by
    rw [List.isPrefixOf_iff_prefix, ho, ← List.cons_append]
    exact List.prefix_append _ _
  have hdrop : (os ++ inner).drop (s.delimiters.opening.toList.length - 1) = inner := by
    rw [ho, List.length_cons, Nat.add_sub_cancel, List.drop_left]
  unfold step
  simp only [hcons, hprefix, if_true, hdrop]

theorem step_of_newline {s : Cursor} {rest : List Char} (h : ¬ s.delimiters.opening.toList <+: s.rest)
    (hrest : s.rest = '\n' :: rest) :
    s.step = some (.ok (s.token .newline ['\n'] ['\n'], s.advance ['\n'] rest)) := by
  rw [hrest, ← List.isPrefixOf_iff_prefix, Bool.not_eq_true] at h
  simp [step, hrest, h]

theorem step_of_text {s : Cursor} {c : Char} {run rest : List Char}
    (h : ¬ s.delimiters.opening.toList <+: s.rest) (hc : c ≠ '\n') (hrest : s.rest = c :: (run ++ rest))
    (hrun : Text.runBefore (endsText s.delimiters.opening.toList) (run ++ rest) = (run, rest)) :
    s.step = some (.ok (s.token .text (c :: run) (c :: run), s.advance (c :: run) rest)) := by
  rw [hrest, ← List.isPrefixOf_iff_prefix, Bool.not_eq_true] at h
  simp [step, hrest, h, hc, hrun]

/-- The three ways a step can go: a tag where the opening delimiter stands, a line break, or a text up
to the next of these. -/
theorem step_cases {s s' : Cursor} {t : Token} (hwf : s.delimiters.WellFormed)
    (h : s.step = some (.ok (t, s'))) :
    (∃ inner, s.rest = s.delimiters.opening.toList ++ inner ∧ s.readTag inner = .ok (t, s')) ∨
    (¬ s.delimiters.opening.toList <+: s.rest ∧ ∃ rest, s.rest = '\n' :: rest ∧
      t = s.token .newline ['\n'] ['\n'] ∧ s' = s.advance ['\n'] rest) ∨
    (¬ s.delimiters.opening.toList <+: s.rest ∧ ∃ c run rest, s.rest = c :: (run ++ rest) ∧
      c ≠ '\n' ∧ Text.runBefore (endsText s.delimiters.opening.toList) (run ++ rest) = (run, rest) ∧
      t = s.token .text (c :: run) (c :: run) ∧ s' = s.advance (c :: run) rest) := by
  unfold step at h
  simp only at h
  split at h
  · cases h
  · rename_i c cs hrest
    rw [hrest]
    split at h
    · rename_i hp
      left
      obtain ⟨inner, hinner⟩ := List.isPrefixOf_iff_prefix.mp hp
      obtain ⟨o, os, ho⟩ := List.exists_cons_of_ne_nil hwf.1.1
      refine ⟨inner, hinner.symm, ?_⟩
      rw [ho, List.cons_append] at hinner
      have hcs : cs.drop (s.delimiters.opening.toList.length - 1) = inner := by
        rw [← (List.cons.inj hinner).2, ho]
        simp
      rw [hcs] at h
      exact Option.some.inj h
    · rename_i hp
      have hp' : ¬ s.delimiters.opening.toList <+: c :: cs :=
        fun hpre => hp (List.isPrefixOf_iff_prefix.mpr hpre)
      right
      split at h
      · rename_i hc
        subst hc
        left
        cases h
        exact ⟨hp', cs, rfl, rfl, rfl⟩
      · rename_i hc
        right
        have happ := Text.append_runBefore (endsText s.delimiters.opening.toList) cs
        cases h
        refine ⟨hp', c, _, _, by rw [happ], hc, ?_, rfl, rfl⟩
        rw [happ]

theorem endsText_of_prefix {opening cs : List Char} (h : opening <+: cs) :
    endsText opening cs = true := by
  cases cs with
  | nil => rfl
  | cons c cs =>
    rw [endsText, List.isPrefixOf_iff_prefix.mpr h, Bool.or_true]

theorem run_free {opening rest run : List Char} {c : Char} (ho : opening ≠ []) (hc : c ≠ '\n')
    (hpre : ¬ opening <+: c :: (run ++ rest))
    (hrun : Text.runBefore (endsText opening) (run ++ rest) = (run, rest)) :
    '\n' ∉ c :: run ∧ ¬ opening <:+: c :: run := by
  have hstop : ∀ a b, run = a ++ b → b ≠ [] → endsText opening (b ++ rest) = false := by
    intro a b hab hb
    have h := @Text.not_stop_of_runBefore (endsText opening) (run ++ rest) a b
    rw [hrun] at h
    exact h hab hb
  constructor
  · intro hmem
    rcases List.mem_cons.mp hmem with h | h
    · exact hc h.symm
    · obtain ⟨a, b, hab⟩ := List.append_of_mem h
      have hs := hstop a ('\n' :: b) hab (by simp)
      simp [endsText] at hs
  · rintro ⟨a, b, hab⟩
    cases a with
    | nil =>
      apply hpre
      refine ⟨b ++ rest, ?_⟩
      rw [← List.cons_append, ← hab]
      simp
    | cons x a =>
      simp only [List.cons_append, List.append_assoc, List.cons.injEq] at hab
      have hs := hstop a (opening ++ b) hab.2.symm (by simp [ho])
      rw [List.append_assoc, endsText_of_prefix (List.prefix_append opening _)] at hs
      cases hs

theorem setDelimiters_of_ne {d : Delimiters} {t : Token} (h : t.kind ≠ .delimiterTag) :
    t.setDelimiters d = d := by
  rw [Token.setDelimiters, if_neg h]

theorem reading_of_readTag {s s' : Cursor} {inner : List Char} {t : Token}
    (hwf : s.delimiters.WellFormed) (hrest : s.rest = s.delimiters.opening.toList ++ inner)
    (h : s.readTag inner = .ok (t, s')) : ∃ raw, s.Reading raw t s' := by
  have htag := isTag_of_readTag h
  obtain ⟨kind, before, body, between, rest, hform, hcut, ht, hs', hd⟩ := readTag_spec h
  obtain ⟨sigil, hinner, -⟩ := tagForm_append inner
  have hbody := Text.append_cutAt hcut
  rw [hform] at hinner
  simp only at hinner
  have hraw : s.rest = (s.delimiters.opening.toList ++ (sigil ++ between ++ before) ++
      s.delimiters.closing.toList) ++ rest := by
    rw [hrest, hinner, ← hbody]
    simp only [List.append_assoc]
  have htake : s.rest.take (s.rest.length - rest.length) = s.delimiters.opening.toList ++
      (sigil ++ between ++ before) ++ s.delimiters.closing.toList := by
    rw [hraw, List.length_append, Nat.add_sub_cancel, List.take_left]
  rw [htake] at ht hs'
  have hkind : t.kind = kind := by rw [ht]; rfl
  have hnotText : t.kind ≠ .text := by
    intro hk
    rw [hk] at htag
    cases htag
  have hnotNewline : t.kind ≠ .newline := by
    intro hk
    rw [hk] at htag
    cases htag
  have hwf' : (t.setDelimiters s.delimiters).WellFormed := by
    by_cases hk : kind = .delimiterTag
    · obtain ⟨d, hread⟩ := hd hk
      have hset : t.setDelimiters s.delimiters = d := by
        rw [Token.setDelimiters, if_pos (hkind.trans hk), hread, Option.getD_some]
      rw [hset]
      exact Delimiters.wellFormed_of_read? hread
    · rw [setDelimiters_of_ne fun h => hk (hkind ▸ h)]
      exact hwf
  have hne : s.delimiters.opening.toList ++ (sigil ++ between ++ before) ++
      s.delimiters.closing.toList ≠ [] := by
    intro hnil
    rw [List.append_assoc] at hnil
    exact hwf.1.1 (List.append_eq_nil_iff.mp hnil).1
  refine ⟨_, {
    rest_eq := by rw [hs']; exact hraw
    raw_ne_nil := hne
    start_eq := by rw [ht]; rfl
    stop_eq := by rw [ht]; rfl
    line_eq := by rw [ht]; rfl
    offset_eq := by rw [hs', ht]; rfl
    indent_eq := by rw [ht]; rfl
    delimiters_eq := by rw [hs']
    wellFormed := by rw [hs']; exact hwf'
    text_spec := fun hk => absurd hk hnotText
    newline_spec := fun hk => absurd hk hnotNewline
    tag_spec := fun _ => ⟨by rw [ht], ?_, List.suffix_append _ _⟩ }⟩
  rw [List.append_assoc]
  exact List.prefix_append _ _

theorem reading_of_step {s s' : Cursor} {t : Token} (hwf : s.delimiters.WellFormed)
    (h : s.step = some (.ok (t, s'))) : ∃ raw, s.Reading raw t s' := by
  rcases step_cases hwf h with ⟨inner, hrest, htag⟩ | ⟨hpre, rest, hrest, ht, hs'⟩ |
    ⟨hpre, c, run, rest, hrest, hc, hrun, ht, hs'⟩
  · exact reading_of_readTag hwf hrest htag
  · refine ⟨['\n'], ?_⟩
    subst ht hs'
    exact {
      rest_eq := hrest
      raw_ne_nil := by simp
      start_eq := rfl
      stop_eq := rfl
      line_eq := rfl
      offset_eq := rfl
      indent_eq := rfl
      delimiters_eq := rfl
      wellFormed := hwf
      text_spec := nofun
      newline_spec := fun _ => ⟨String.toList_ofList, rfl⟩
      tag_spec := nofun }
  · refine ⟨c :: run, ?_⟩
    rw [hrest] at hpre
    have hfree := run_free hwf.1.1 hc hpre hrun
    subst ht hs'
    exact {
      rest_eq := hrest
      raw_ne_nil := by simp
      start_eq := rfl
      stop_eq := rfl
      line_eq := rfl
      offset_eq := rfl
      indent_eq := rfl
      delimiters_eq := rfl
      wellFormed := hwf
      text_spec := fun _ => ⟨String.toList_ofList, hfree⟩
      newline_spec := nofun
      tag_spec := nofun }

inductive Reads : Cursor → List Token → Cursor → Prop
  | done (s : Cursor) : Reads s [] s
  | step {s s' s'' : Cursor} {t : Token} {ts : List Token} :
      s.step = some (.ok (t, s')) → Reads s' ts s'' → Reads s (t :: ts) s''

section Tokens

variable {s s' : Cursor} {t : Token} {ts : List Token} {e : SyntaxError}

theorem tokens_of_none (h : s.step = none) : s.tokens = .ok [] := by
  rw [tokens]
  split <;> simp_all

theorem tokens_of_error (h : s.step = some (.error e)) : s.tokens = .error e := by
  rw [tokens]
  split <;> simp_all

theorem tokens_of_step (h : s.step = some (.ok (t, s'))) : s.tokens = (t :: ·) <$> s'.tokens := by
  rw [tokens]
  split <;> simp_all

theorem reads_of_tokens (h : s.tokens = .ok ts) : ∃ s', s.Reads ts s' ∧ s'.rest = [] := by
  induction s using Cursor.tokens.induct generalizing ts with
  | case1 s hstep =>
    rw [tokens_of_none hstep] at h
    cases h
    exact ⟨s, .done s, step_eq_none_iff.mp hstep⟩
  | case2 s e hstep =>
    rw [tokens_of_error hstep] at h
    cases h
  | case3 s t s' hstep ih =>
    rw [tokens_of_step hstep] at h
    cases hts : s'.tokens with
    | error e =>
      rw [hts] at h
      cases h
    | ok us =>
      rw [hts] at h
      cases h
      obtain ⟨s'', hread, hnil⟩ := ih hts
      exact ⟨s'', .step hstep hread, hnil⟩

theorem Reads.tokens_eq (h : s.Reads ts s') : s.tokens = (ts ++ ·) <$> s'.tokens := by
  induction h with
  | done s => simp
  | step hstep _ ih =>
    rw [tokens_of_step hstep, ih]
    simp

theorem tokens_of_reads (h : s.Reads ts s') (hnil : s'.rest = []) : s.tokens = .ok ts := by
  rw [h.tokens_eq, tokens_of_none (step_eq_none_iff.mpr hnil)]
  exact congrArg Except.ok (List.append_nil ts)

end Tokens

end Cursor
end Mustache
