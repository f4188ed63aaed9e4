import Mustache.Proofs.Token.Span

/-! # The tokens of a piece of a text

The tokens read from a piece of a text are the same wherever the piece stands, as long as a token ends
where it ends and the delimiters at its start are the same: nothing that follows the piece and nothing
before it matters. Only the places of the tokens differ.
-/
namespace Mustache

def Token.unplaced (t : Token) : Token :=
  { t with line := 0, start := 0, stop := 0 }

namespace Cursor

variable {s s' u : Cursor} {t : Token} {ts us : List Token}

theorem endsText_append {opening cs : List Char} (more : List Char) (hcs : cs ≠ [])
    (h : endsText opening cs = true) : endsText opening (cs ++ more) = true := by
  obtain ⟨c, cs, rfl⟩ := List.exists_cons_of_ne_nil hcs
  rw [endsText, Bool.or_eq_true] at h
  rw [List.cons_append, endsText, Bool.or_eq_true]
  rcases h with h | h
  · exact Or.inl h
  · refine Or.inr (List.isPrefixOf_iff_prefix.mpr ?_)
    exact (List.isPrefixOf_iff_prefix.mp h).trans (List.prefix_append (c :: cs) more)

theorem tagForm_cons (c : Char) : ∃ kind before, ∃ whole : Bool,
    ∀ cs, tagForm (c :: cs) = (kind, before, if whole then c :: cs else cs) := by
  by_cases h : c ∈ ['\x7b', '=', '#', '^', '/', '>', '!', '&']
  · simp only [List.mem_cons, List.not_mem_nil, or_false] at h
    rcases h with rfl | rfl | rfl | rfl | rfl | rfl | rfl | rfl
    all_goals exact ⟨_, _, false, fun _ => rfl⟩
  · simp only [List.mem_cons, List.not_mem_nil, or_false, not_or] at h
    obtain ⟨h1, h2, h3, h4, h5, h6, h7, h8⟩ := h
    refine ⟨.escaped, [], true, fun cs => ?_⟩
    unfold tagForm
    split
    all_goals first | rfl | simp_all

theorem tagForm_of_append {inner more body before : List Char} {kind : TokenKind}
    (hne : inner ≠ []) (h : tagForm (inner ++ more) = (kind, before, body)) :
    ∃ body', tagForm inner = (kind, before, body') ∧ body = body' ++ more := by
  obtain ⟨c, cs, rfl⟩ := List.exists_cons_of_ne_nil hne
  obtain ⟨kind', before', whole, hform⟩ := tagForm_cons c
  rw [List.cons_append, hform] at h
  rw [hform]
  cases whole with
  | true =>
    simp only [if_true, Prod.mk.injEq] at h ⊢
    exact ⟨c :: cs, ⟨h.1, h.2.1, rfl⟩, h.2.2.symm⟩
  | false =>
    simp only [Bool.false_eq_true, if_false, Prod.mk.injEq] at h ⊢
    exact ⟨cs, ⟨h.1, h.2.1, rfl⟩, h.2.2.symm⟩

theorem tagForm_append_right {inner body before : List Char} {kind : TokenKind} (hne : inner ≠ [])
    (h : tagForm inner = (kind, before, body)) (more : List Char) :
    tagForm (inner ++ more) = (kind, before, body ++ more) := by
  rcases hform : tagForm (inner ++ more) with ⟨kind', before', body'⟩
  obtain ⟨body'', h'', rfl⟩ := tagForm_of_append hne hform
  rw [h] at h''
  simp only [Prod.mk.injEq] at h''
  obtain ⟨rfl, rfl, rfl⟩ := h''
  rfl

theorem readTag_truncate {inner piece piece' more : List Char} (hwf : s.delimiters.WellFormed)
    (hrest : s.rest = s.delimiters.opening.toList ++ inner) (hpiece : s.rest = piece ++ more)
    (hpiece' : s'.rest = piece' ++ more) (h : s.readTag inner = .ok (t, s')) :
    ∃ inner', piece = s.delimiters.opening.toList ++ inner' ∧
      { s with rest := piece }.readTag inner' = .ok (t, { s' with rest := piece' }) := by
  obtain ⟨kind, before, body, between, rest, hform, hcut, -, hs', -⟩ := readTag_spec h
  obtain ⟨sigil, hinner, -⟩ := tagForm_append inner
  rw [hform] at hinner
  have hbody := Text.append_cutAt hcut
  have hrest' : rest = piece' ++ more := by
    rw [← hpiece', hs']
    rfl
  rw [hrest'] at hcut hbody
  have hinner' : inner = sigil ++ (between ++ (before ++ s.delimiters.closing.toList) ++ piece') ++ more := by
    rw [hinner, ← hbody]
    simp only [List.append_assoc]
  have hpieceEq : piece = s.delimiters.opening.toList ++
      (sigil ++ (between ++ (before ++ s.delimiters.closing.toList) ++ piece')) := by
    rw [hpiece, hinner', ← List.append_assoc] at hrest
    exact List.append_cancel_right hrest
  refine ⟨_, hpieceEq, ?_⟩
  have hne : sigil ++ (between ++ (before ++ s.delimiters.closing.toList) ++ piece') ≠ [] := by
    intro hnil
    simp only [List.append_eq_nil_iff] at hnil
    exact hwf.2.1 hnil.2.1.2.2
  rw [hinner'] at hform
  obtain ⟨body', hform', hbody'⟩ := tagForm_of_append hne hform
  rw [hbody'] at hcut
  have hcut' := Text.cutAt_of_append hcut
  have htake : piece.take (piece.length - piece'.length) =
      s.rest.take (s.rest.length - (piece' ++ more).length) := by
    have hlen : s.rest.length - (piece' ++ more).length = piece.length - piece'.length := by
      rw [hpiece, List.length_append, List.length_append]
      omega
    rw [hlen, hpiece, List.take_append_of_le_length (Nat.sub_le _ _)]
  rw [← hinner'] at hform
  unfold readTag at h ⊢
  simp only [hform, hform', hcut', hbody', hcut, htake] at h ⊢
  split at h
  · cases h
  · rename_i hempty
    rw [if_neg hempty]
    split at h
    · rename_i hkind
      rw [if_pos hkind]
      split at h
      · cases h
      · cases h
        rfl
    · rename_i hkind
      cases h
      rw [if_neg hkind]
      rfl

/-- A step whose token ends inside a piece reads the same from the piece alone. A text has to end there
too, so that it does not run on. -/
theorem step_truncate {piece piece' more : List Char} (hwf : s.delimiters.WellFormed)
    (hpiece : s.rest = piece ++ more) (hpiece' : s'.rest = piece' ++ more)
    (hends : t.kind = .text → piece' = [] ∨ endsText s.delimiters.opening.toList piece' = true)
    (h : s.step = some (.ok (t, s'))) :
    { s with rest := piece }.step = some (.ok (t, { s' with rest := piece' })) := by
  have hlonger : s.delimiters.opening.toList <+: piece → s.delimiters.opening.toList <+: s.rest := by
    intro hp
    rw [hpiece]
    exact hp.trans (List.prefix_append _ _)
  rcases step_cases hwf h with ⟨inner, hrest, htag⟩ | ⟨hpre, rest, hrest, rfl, rfl⟩ |
    ⟨hpre, c, run, rest, hrest, hc, hrun, rfl, rfl⟩
  · obtain ⟨inner', hpieceEq, hread⟩ := readTag_truncate hwf hrest hpiece hpiece' htag
    have hstep := @step_of_opening { s with rest := piece } inner' hwf hpieceEq
    rw [hstep, hread]
  · have hrest' : rest = piece' ++ more := hpiece'
    have hpieceEq : piece = '\n' :: piece' := by
      rw [hpiece, hrest', ← List.cons_append] at hrest
      exact List.append_cancel_right hrest
    have hnot : s.delimiters.opening.toList.isPrefixOf ('\n' :: piece') = false := by
      rw [← Bool.not_eq_true, List.isPrefixOf_iff_prefix, ← hpieceEq]
      exact fun hp => hpre (hlonger hp)
    rw [hpieceEq]
    unfold step
    simp only [hnot, Bool.false_eq_true, if_false, if_true]
    rfl
  · have hrest' : rest = piece' ++ more := hpiece'
    have hpieceEq : piece = c :: (run ++ piece') := by
      rw [hpiece, hrest', ← List.append_assoc, ← List.cons_append] at hrest
      exact List.append_cancel_right hrest
    have hnot : s.delimiters.opening.toList.isPrefixOf (c :: (run ++ piece')) = false := by
      rw [← Bool.not_eq_true, List.isPrefixOf_iff_prefix, ← hpieceEq]
      exact fun hp => hpre (hlonger hp)
    have hrun' : Text.runBefore (endsText s.delimiters.opening.toList) (run ++ piece') = (run, piece') := by
      refine Text.runBefore_eq (hends rfl) fun a b hab hb => ?_
      have hstop := @Text.not_stop_of_runBefore (endsText s.delimiters.opening.toList) (run ++ rest) a b
      rw [hrun, hrest'] at hstop
      cases hcut : endsText s.delimiters.opening.toList (b ++ piece') with
      | false => rfl
      | true =>
        have happ := endsText_append more (by simp [hb]) hcut
        rw [List.append_assoc, hstop hab hb] at happ
        cases happ
    rw [hpieceEq]
    unfold step
    simp only [hnot, Bool.false_eq_true, if_false, hc, hrun']
    rfl

theorem Reads.append_iff : s.Reads (ts ++ us) u ↔ ∃ s', s.Reads ts s' ∧ s'.Reads us u := by
  constructor
  · intro h
    induction ts generalizing s with
    | nil => exact ⟨s, .done s, h⟩
    | cons t ts ih =>
      cases h with
      | step hstep hreads =>
        obtain ⟨s', hts, hus⟩ := ih hreads
        exact ⟨s', .step hstep hts, hus⟩
  · rintro ⟨s', hts, hus⟩
    induction hts with
    | done s => exact hus
    | step hstep _ ih => exact .step hstep (ih hus)

theorem Reads.exists_piece (h : s.Reads ts s') (hwf : s.delimiters.WellFormed) :
    ∃ piece, s.rest = piece ++ s'.rest := by
  induction h with
  | done s => exact ⟨[], rfl⟩
  | step hstep _ ih =>
    obtain ⟨raw, hr⟩ := reading_of_step hwf hstep
    obtain ⟨piece, hpiece⟩ := ih hr.wellFormed
    exact ⟨raw ++ piece, by rw [hr.rest_eq, hpiece, List.append_assoc]⟩

/-- Where a text ends before a piece that is read to its end, it ends before the piece alone: an opening
delimiter there belongs to a tag inside the piece. -/
theorem Reads.endsText_piece {piece : List Char} (h : s.Reads ts s') (hwf : s.delimiters.WellFormed)
    (hpiece : s.rest = piece ++ s'.rest)
    (hends : endsText s.delimiters.opening.toList s.rest = true) :
    piece = [] ∨ endsText s.delimiters.opening.toList piece = true := by
  cases piece with
  | nil => exact Or.inl rfl
  | cons c cs =>
    right
    rw [hpiece, List.cons_append, endsText, Bool.or_eq_true] at hends
    rw [endsText, Bool.or_eq_true]
    rcases hends with hnl | hpre
    · exact Or.inl hnl
    · right
      rw [← List.cons_append, ← hpiece, List.isPrefixOf_iff_prefix] at hpre
      cases h with
      | done _ =>
        have hlen := congrArg List.length hpiece
        rw [List.length_append, List.length_cons] at hlen
        omega
      | @step _ s1 _ t us hstep hreads =>
        rcases step_cases hwf hstep with ⟨inner, hrest, htag⟩ | ⟨hnot, -⟩ | ⟨hnot, -⟩
        · obtain ⟨raw, hr⟩ := reading_of_readTag hwf hrest htag
          obtain ⟨after, hafter⟩ := hreads.exists_piece hr.wellFormed
          have hraw : c :: cs = raw ++ after := by
            have hall := hr.rest_eq
            rw [hpiece, hafter, ← List.append_assoc] at hall
            exact List.append_cancel_right hall
          rw [List.isPrefixOf_iff_prefix, hraw]
          exact (hr.tag_spec (isTag_of_readTag htag)).2.1.trans (List.prefix_append raw after)
        · exact absurd hpre hnot
        · exact absurd hpre hnot

theorem endsText_of_text (hwf : s.delimiters.WellFormed) (h : s.step = some (.ok (t, s')))
    (hk : t.kind = .text) : endsText s.delimiters.opening.toList s'.rest = true := by
  rcases step_cases hwf h with ⟨inner, hrest, htag⟩ | ⟨-, rest, -, rfl, -⟩ |
    ⟨-, c, run, rest, -, -, hrun, -, rfl⟩
  · have hkind := isTag_of_readTag htag
    rw [hk] at hkind
    cases hkind
  · cases hk
  · have hor := Text.stop_of_runBefore (endsText s.delimiters.opening.toList) (run ++ rest)
    rw [hrun] at hor
    rcases hor with hnil | hstop
    · rw [show (s.advance (c :: run) rest).rest = [] from hnil]
      rfl
    · exact hstop

theorem Reads.truncate {piece : List Char} (h : s.Reads ts s') (hwf : s.delimiters.WellFormed)
    (hpiece : s.rest = piece ++ s'.rest) :
    Reads { s with rest := piece } ts { s' with rest := [] } := by
  induction h generalizing piece with
  | done s =>
    have hnil : piece = [] := by
      have hlen := congrArg List.length hpiece
      rw [List.length_append] at hlen
      exact List.length_eq_zero_iff.mp (by omega)
    rw [hnil]
    exact .done _
  | @step s s1 s2 t ts hstep hreads ih =>
    obtain ⟨raw, hr⟩ := reading_of_step hwf hstep
    obtain ⟨piece', hpiece'⟩ := hreads.exists_piece hr.wellFormed
    refine .step (step_truncate hwf hpiece hpiece' (fun hk => ?_) hstep) (ih hr.wellFormed hpiece')
    have hends := endsText_of_text hwf hstep hk
    rw [← setDelimiters_of_ne (d := s.delimiters) (by rw [hk]; decide), ← hr.delimiters_eq] at hends ⊢
    exact hreads.endsText_piece hr.wellFormed hpiece' hends

theorem readTag_of_eq {s₁ : Cursor} {inner : List Char} (hrest : s₁.rest = s.rest)
    (hd : s₁.delimiters = s.delimiters) (h : s.readTag inner = .ok (t, s')) : ∃ t₁ s₁',
      s₁.readTag inner = .ok (t₁, s₁') ∧ t₁.unplaced = t.unplaced ∧ s₁'.rest = s'.rest ∧
        s₁'.delimiters = s'.delimiters := by
  obtain ⟨kind, before, body, between, rest, hform, hcut, -⟩ := readTag_spec h
  rw [← hd] at hcut
  unfold readTag at h ⊢
  simp only [hform, ← hd, hcut] at h ⊢
  split at h
  · cases h
  · rename_i hempty
    rw [hrest, if_neg hempty]
    split at h
    · rename_i hkind
      rw [if_pos hkind]
      split at h
      · cases h
      · cases h
        exact ⟨_, _, rfl, rfl, rfl, rfl⟩
    · rename_i hkind
      cases h
      rw [if_neg hkind]
      exact ⟨_, _, rfl, rfl, rfl, hd⟩

theorem step_of_eq {s₁ : Cursor} (hrest : s₁.rest = s.rest) (hd : s₁.delimiters = s.delimiters)
    (h : s.step = some (.ok (t, s'))) : ∃ t₁ s₁',
      s₁.step = some (.ok (t₁, s₁')) ∧ t₁.unplaced = t.unplaced ∧ s₁'.rest = s'.rest ∧
        s₁'.delimiters = s'.delimiters := by
  unfold step at h ⊢
  rw [hrest, hd]
  simp only at h ⊢
  split at h
  · cases h
  · split at h
    · rename_i hp
      obtain ⟨t₁, s₁', hread, hrest'⟩ := readTag_of_eq hrest hd (Option.some.inj h)
      rw [if_pos hp, hread]
      exact ⟨t₁, s₁', rfl, hrest'⟩
    · rename_i hp
      rw [if_neg hp]
      split at h
      · rename_i hc
        cases h
        rw [if_pos hc]
        exact ⟨_, _, rfl, rfl, rfl, hd⟩
      · rename_i hc
        cases h
        rw [if_neg hc]
        exact ⟨_, _, rfl, rfl, rfl, hd⟩

theorem Reads.of_eq {s₁ : Cursor} (hrest : s₁.rest = s.rest) (hd : s₁.delimiters = s.delimiters)
    (h : s.Reads ts s') : ∃ ts₁ s₁', s₁.Reads ts₁ s₁' ∧
      ts₁.map Token.unplaced = ts.map Token.unplaced ∧ s₁'.rest = s'.rest := by
  induction h generalizing s₁ with
  | done s => exact ⟨[], s₁, .done s₁, rfl, hrest⟩
  | step hstep _ ih =>
    obtain ⟨t₁, s₂, hstep₁, ht, hrest₁, hd₁⟩ := step_of_eq hrest hd hstep
    obtain ⟨ts₁, s₃, hreads, hts, hrest₂⟩ := ih hrest₁ hd₁
    exact ⟨t₁ :: ts₁, s₃, .step hstep₁ hreads, by rw [List.map_cons, List.map_cons, ht, hts], hrest₂⟩

/-- Two readings of the same piece under the same delimiters give the same tokens, at their places. -/
theorem Reads.unplaced_eq {s₁ s₁' : Cursor} {ts₁ : List Token} {piece : List Char}
    (h : s.Reads ts s') (h₁ : s₁.Reads ts₁ s₁') (hwf : s.delimiters.WellFormed)
    (hd : s₁.delimiters = s.delimiters) (hpiece : s.rest = piece ++ s'.rest)
    (hpiece₁ : s₁.rest = piece ++ s₁'.rest) :
    ts₁.map Token.unplaced = ts.map Token.unplaced := by
  have hwf₁ : s₁.delimiters.WellFormed := by
    rw [hd]
    exact hwf
  have hcut := h.truncate hwf hpiece
  have hcut₁ := h₁.truncate hwf₁ hpiece₁
  have hsame : { s₁ with rest := piece }.rest = { s with rest := piece }.rest := rfl
  obtain ⟨ts₂, s₂, hreads, hts, hrest⟩ := Reads.of_eq hsame hd hcut
  have heq := (tokens_of_reads hreads hrest).symm.trans (tokens_of_reads hcut₁ rfl)
  rw [← hts, Except.ok.inj heq]

end Cursor
end Mustache
