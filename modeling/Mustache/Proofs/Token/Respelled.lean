import Mustache.Proofs.Token.DelimiterTag
import Mustache.Proofs.Token.LogicalLine

/-! # Other delimiters

A template without delimiter tags can be written with any other delimiters that share no character with
it: each tag keeps what stands between its delimiters. Read under these delimiters it gives the same tokens
at other places. The two readings go in lock-step: where the one finds a delimiter the other finds its own,
and nowhere else, because what is left of the template has none of their characters.
-/
namespace Mustache

def Token.unspelled (t : Token) : Token :=
  { t with start := 0, stop := 0, delimiters := .standard }

theorem Token.moves_unspelled : Token.Moves Token.unspelled :=
  ⟨fun _ => rfl, fun _ => rfl, fun _ _ => rfl⟩

namespace Delimiters

variable {d : Delimiters} {cs ds : List Char}

def around (d : Delimiters) (cs : List Char) : List Char :=
  d.opening.toList ++ (cs ++ d.closing.toList)

def Fresh (d : Delimiters) (cs : List Char) : Prop :=
  ∀ c ∈ cs, c ∉ d.opening.toList ∧ c ∉ d.closing.toList

instance (d : Delimiters) (cs : List Char) : Decidable (d.Fresh cs) :=
  List.decidableBAll (fun c => c ∉ d.opening.toList ∧ c ∉ d.closing.toList) cs

theorem Fresh.mono (h : d.Fresh cs) (hsub : ds ⊆ cs) : d.Fresh ds :=
  fun c hc => h c (hsub hc)

theorem subset_around (d : Delimiters) (cs : List Char) : cs ⊆ d.around cs :=
  fun _ hc => List.mem_append_right _ (List.mem_append_left _ hc)

theorem newlines_around (hwf : d.WellFormed) (cs : List Char) :
    Text.newlines (d.around cs) = Text.newlines cs := by
  have hopening : d.opening.toList.count '\n' = 0 :=
    List.count_eq_zero.mpr (not_blank_mem hwf.1 (by decide))
  have hclosing : d.closing.toList.count '\n' = 0 :=
    List.count_eq_zero.mpr (not_blank_mem hwf.2 (by decide))
  simp [around, Text.newlines, hopening, hclosing]

theorem Fresh.not_opens (h : d.Fresh cs) (hwf : d.WellFormed) (hcs : cs ≠ []) (more : List Char) :
    ¬ d.opening.toList <+: cs ++ more := by
  obtain ⟨o, os, ho⟩ := List.exists_cons_of_ne_nil hwf.1.1
  obtain ⟨c, cs, rfl⟩ := List.exists_cons_of_ne_nil hcs
  rintro ⟨rest, hrest⟩
  apply (h c List.mem_cons_self).1
  rw [ho, List.cons_append, List.cons_append] at hrest
  rw [ho, (List.cons.inj hrest).1]
  exact List.mem_cons_self

end Delimiters

def Token.respelled (source : List Char) (d : Delimiters) (t : Token) : List Char :=
  if t.kind.isTag then
    d.around (Text.slice source (t.start + t.delimiters.opening.toList.length)
      (t.stop - t.delimiters.closing.toList.length))
  else Text.slice source t.start t.stop

def respelled (source : String) (d : Delimiters) : String :=
  match (Cursor.start source.toList).tokens with
  | .ok tokens => String.ofList (tokens.flatMap (Token.respelled source.toList d))
  | .error _ => source

namespace Cursor

variable {s s' u : Cursor} {d : Delimiters} {t : Token} {ts : List Token} {kind : TokenKind}
  {source raw core value more : List Char}

/-- What stands between the delimiters of a tag tells its kind and its value. It ends with what belongs
before the closing delimiter. -/
def Tells (core : List Char) (kind : TokenKind) (value : List Char) : Prop :=
  core ≠ [] ∧ ∃ before between, tagForm core = (kind, before, between ++ before) ∧
    value = Text.strip Text.isBlank between ∧ (value.isEmpty && kind != .comment) = false

theorem tagForm_comment {inner before body : List Char} (h : tagForm inner = (.comment, before, body)) :
    inner = '!' :: body := by
  unfold tagForm at h
  split at h
  all_goals simp_all

theorem readTag_of_cut {inner before body between rest : List Char}
    (hform : tagForm inner = (kind, before, body))
    (hcut : Text.cutAt (before ++ s.delimiters.closing.toList) body = some (between, rest))
    (hk : kind ≠ .delimiterTag) :
    s.readTag inner =
      if (Text.strip Text.isBlank between).isEmpty && kind != .comment then
        .error ⟨.emptyTag (String.ofList (s.rest.take (s.rest.length - rest.length))), some s.line⟩
      else .ok ({ s.token kind (Text.strip Text.isBlank between)
          (s.rest.take (s.rest.length - rest.length)) with delimiters := s.delimiters },
        s.advance (s.rest.take (s.rest.length - rest.length)) rest) := by
  unfold readTag
  simp only [hform, hcut, if_neg hk]

theorem take_around {rest : List Char} (h : s.rest = d.around core ++ rest) :
    s.rest.take (s.rest.length - rest.length) = d.around core := by
  rw [h, List.length_append, Nat.add_sub_cancel, List.take_left]

theorem exists_core {inner : List Char} (hrest : s.rest = s.delimiters.opening.toList ++ inner)
    (h : s.readTag inner = .ok (t, s')) (hk : t.kind ≠ .delimiterTag) :
    ∃ core value, Tells core t.kind value ∧ s.rest = s.delimiters.around core ++ s'.rest ∧
      t = { s.token t.kind value (s.delimiters.around core) with delimiters := s.delimiters } ∧
      s' = s.advance (s.delimiters.around core) s'.rest := by
  obtain ⟨kind, before, body, between, rest, hform, hcut, ht, -, -⟩ := readTag_spec h
  have hkind : t.kind = kind := by rw [ht]; rfl
  rw [hkind] at hk ⊢
  rw [readTag_of_cut hform hcut hk] at h
  split at h
  · cases h
  · rename_i hempty
    obtain ⟨-, hs'⟩ := Prod.mk.inj (Except.ok.inj h)
    obtain ⟨sigil, hinner, -⟩ := tagForm_append inner
    have hbody := Text.append_cutAt hcut
    rw [hform] at hinner
    have hcore : inner = (sigil ++ (between ++ before)) ++ (s.delimiters.closing.toList ++ rest) := by
      rw [hinner, ← hbody]
      simp only [List.append_assoc]
    -- only a comment may have no value, and its sign stands between the delimiters
    have hne : sigil ++ (between ++ before) ≠ [] := by
      intro hnil
      simp only [List.append_eq_nil_iff] at hnil
      obtain ⟨rfl, rfl, -⟩ := hnil
      obtain rfl : kind = .comment := by simpa [Text.strip, Text.stripRight] using hempty
      have hcomment := congrArg List.length (hinner.symm.trans (tagForm_comment hform))
      simp at hcomment
    rw [hcore] at hform
    obtain ⟨body', hform', hbody'⟩ := tagForm_of_append hne hform
    have hbetween : body' ++ (s.delimiters.closing.toList ++ rest) =
        (between ++ before) ++ (s.delimiters.closing.toList ++ rest) := by
      rw [← hbody', ← hbody]
      simp only [List.append_assoc]
    rw [List.append_cancel_right hbetween] at hform'
    have hrest' : s.rest = s.delimiters.around (sigil ++ (between ++ before)) ++ rest := by
      rw [hrest, hcore, Delimiters.around]
      simp only [List.append_assoc]
    rw [take_around hrest'] at ht hs'
    have hs'rest : s'.rest = rest := by rw [← hs']; rfl
    refine ⟨_, _, ⟨hne, before, between, hform', rfl, by simpa using hempty⟩, ?_, ht, ?_⟩
    · rw [hs'rest, hrest']
    · rw [hs'rest, hs']

/-- A tag is read alike between all delimiters that share no character with it. -/
theorem Tells.step_eq (h : Tells core kind value) (hk : kind ≠ .delimiterTag)
    (hwf : s.delimiters.WellFormed) (hfresh : s.delimiters.Fresh core)
    (hrest : s.rest = s.delimiters.around core ++ more) :
    s.step = some (.ok (
      { s.token kind value (s.delimiters.around core) with delimiters := s.delimiters },
      s.advance (s.delimiters.around core) more)) := by
  obtain ⟨hne, before, between, hform, rfl, hvalue⟩ := h
  obtain ⟨x, xs, hx⟩ := List.exists_cons_of_ne_nil hwf.2.1
  obtain ⟨sigil, hcore, -⟩ := tagForm_append core
  rw [hform] at hcore
  -- the first character of the closing delimiter is not in the core, so the core is not cut short
  have hnot : ∀ c ∈ between ++ before, c ≠ x := by
    rintro c hc rfl
    apply (hfresh c _).2
    · rw [hx]
      exact List.mem_cons_self
    · rw [hcore]
      exact List.mem_append_right _ hc
  have hcut : Text.cutAt (before ++ s.delimiters.closing.toList)
      (between ++ before ++ (s.delimiters.closing.toList ++ more)) = some (between, more) := by
    have hbetween : x ∉ between := fun h => hnot x (List.mem_append_left _ h) rfl
    have hbefore : x ∉ before := fun h => hnot x (List.mem_append_right _ h) rfl
    rw [hx]
    simpa using @Text.cutAt_append_of_not_mem x before xs between hbefore hbetween more
  have hopening : s.rest = s.delimiters.opening.toList ++
      (core ++ (s.delimiters.closing.toList ++ more)) := by
    rw [hrest, Delimiters.around]
    simp only [List.append_assoc]
  rw [step_of_opening hwf hopening, readTag_of_cut (tagForm_append_right hne hform _) hcut hk,
    take_around hrest, if_neg (by simp [hvalue])]

theorem IsAt.slice_eq {pre cs : List Char} (hs : s.IsAt source) (hrest : s.rest = pre ++ (cs ++ more)) :
    Text.slice source ((s.offset + pre.length : Nat) : Int)
      ((s.offset + pre.length + cs.length : Nat) : Int) = cs := by
  have hdrop : source.drop (s.offset + pre.length) = cs ++ more := by
    rw [← List.drop_drop, ← hs.rest_eq, hrest, List.drop_left]
  rw [Text.slice_natCast, List.drop_take, hdrop, Nat.add_sub_cancel_left, List.take_left]

theorem respelled_tag (hs : s.IsAt source) (hrest : s.rest = s.delimiters.around core ++ more)
    (htag : kind.isTag = true) :
    Token.respelled source d
      { s.token kind value (s.delimiters.around core) with delimiters := s.delimiters } =
        d.around core := by
  have hstop : ((s.offset + (s.delimiters.around core).length : Nat) : Int) -
      (s.delimiters.closing.toList.length : Int) =
      ((s.offset + s.delimiters.opening.toList.length + core.length : Nat) : Int) := by
    simp only [Delimiters.around, List.length_append]
    omega
  have hcore : s.rest = s.delimiters.opening.toList ++
      (core ++ (s.delimiters.closing.toList ++ more)) := by
    rw [hrest, Delimiters.around]
    simp only [List.append_assoc]
  have hslice := hs.slice_eq hcore
  rw [Token.respelled, if_pos (by exact htag)]
  simp only [token]
  rw [hstop, ← Int.natCast_add, hslice]

theorem respelled_not_tag (hs : s.IsAt source) (hrest : s.rest = raw ++ more)
    (htag : kind.isTag = false) : Token.respelled source d (s.token kind value raw) = raw := by
  have hnot : ¬ (s.token kind value raw).kind.isTag = true := by
    rw [token, htag]
    exact Bool.false_ne_true
  rw [Token.respelled, if_neg hnot]
  exact @IsAt.slice_eq s source more [] raw hs hrest

theorem runBefore_of_fresh {run : List Char} (hwf : d.WellFormed) (hfresh : d.Fresh run)
    (hnl : '\n' ∉ run) (hmore : endsText d.opening.toList more = true) :
    Text.runBefore (endsText d.opening.toList) (run ++ more) = (run, more) := by
  apply Text.runBefore_eq (Or.inr hmore)
  rintro a b rfl hb
  have hpre := (hfresh.mono (List.subset_append_right a b)).not_opens hwf hb more
  obtain ⟨x, b, rfl⟩ := List.exists_cons_of_ne_nil hb
  have hx : x ≠ '\n' := by
    rintro rfl
    exact hnl (by simp)
  rw [← List.isPrefixOf_iff_prefix, Bool.not_eq_true] at hpre
  simpa [endsText, hx] using hpre

/-- A step reads the same token in both spellings, and leaves the rest of each. -/
theorem step_respelled (hwf : s.delimiters.WellFormed) (hs : s.IsAt source)
    (h : s.step = some (.ok (t, s'))) (hk : t.kind ≠ .delimiterTag) (hwf' : u.delimiters.WellFormed)
    (hfresh : u.delimiters.Fresh s.rest) (hline : u.line = s.line)
    (hrest : u.rest = t.respelled source u.delimiters ++ more)
    (hmore : t.kind = .text → endsText u.delimiters.opening.toList more = true) :
    ∃ t' u', u.step = some (.ok (t', u')) ∧ t'.unspelled = t.unspelled ∧
      u'.delimiters = u.delimiters ∧ u'.line = s'.line ∧ u'.rest = more := by
  rcases step_cases hwf h with ⟨inner, hopening, hread⟩ | ⟨-, rest, hnl, rfl, rfl⟩ |
    ⟨hpre, c, run, rest, htext, hc, hrun, rfl, rfl⟩
  · -- a tag: both spellings have the same core
    obtain ⟨core, value, htells, hcore, ht, hs'⟩ := exists_core hopening hread hk
    have htag := isTag_of_readTag hread
    rw [ht] at hrest hk ⊢
    rw [respelled_tag hs hcore htag] at hrest
    have hsub : core ⊆ s.rest := by
      rw [hcore]
      exact List.Subset.trans (s.delimiters.subset_around core) (List.subset_append_left _ _)
    refine ⟨_, _, htells.step_eq hk hwf' (hfresh.mono hsub) hrest, ?_, rfl, ?_, rfl⟩
    · simp only [Token.unspelled, token, hline]
    · rw [hs']
      simp only [advance, hline, Delimiters.newlines_around hwf, Delimiters.newlines_around hwf']
  · rw [respelled_not_tag hs hnl rfl] at hrest
    have hnot : ¬ u.delimiters.opening.toList <+: u.rest := by
      rw [hrest]
      exact (hfresh.mono (by simp [hnl])).not_opens hwf' (by simp) more
    refine ⟨_, _, step_of_newline hnot hrest, ?_, rfl, ?_, rfl⟩
    · simp only [Token.unspelled, token, hline]
    · simp only [advance, hline]
  · -- a text: it has to end at the same character, where a tag or the next line begins
    have htext' : s.rest = c :: run ++ rest := htext
    rw [respelled_not_tag hs htext' rfl] at hrest
    rw [htext] at hpre
    obtain ⟨hnl, -⟩ := run_free hwf.1.1 hc hpre hrun
    have hfresh' : u.delimiters.Fresh (c :: run) := hfresh.mono (by simp [htext'])
    have hnot : ¬ u.delimiters.opening.toList <+: u.rest := by
      rw [hrest]
      exact hfresh'.not_opens hwf' (by simp) more
    have hrun' := runBefore_of_fresh hwf' (hfresh'.mono (List.subset_cons_self c run))
      (fun h => hnl (List.mem_cons_of_mem c h)) (hmore rfl)
    refine ⟨_, _, step_of_text hnot hc hrest hrun', ?_, rfl, ?_, rfl⟩
    · simp only [Token.unspelled, token, hline]
    · simp only [advance, hline]

theorem Reads.endsText_respelled (h : s.Reads ts s') (hwf : s.delimiters.WellFormed)
    (hs : s.IsAt source) (hends : endsText s.delimiters.opening.toList s.rest = true) :
    endsText d.opening.toList (ts.flatMap (Token.respelled source d)) = true := by
  cases h with
  | done _ => rfl
  | @step _ s1 _ t us hstep hreads =>
    rw [List.flatMap_cons]
    rcases step_cases hwf hstep with ⟨inner, -, htag⟩ | ⟨-, rest, hrest, rfl, -⟩ |
      ⟨hpre, c, run, rest, hrest, hc, -⟩
    · rw [Token.respelled, if_pos (isTag_of_readTag htag), Delimiters.around, List.append_assoc]
      exact endsText_of_prefix (List.prefix_append _ _)
    · rw [respelled_not_tag hs hrest rfl]
      rfl
    · rw [hrest, ← List.isPrefixOf_iff_prefix, Bool.not_eq_true] at hpre
      simp [hrest, endsText, hc, hpre] at hends

theorem Reads.tokens_respelled (h : s.Reads ts s') (hwf : s.delimiters.WellFormed) (hs : s.IsAt source)
    (hk : ∀ t ∈ ts, t.kind ≠ .delimiterTag) (hwf' : u.delimiters.WellFormed)
    (hfresh : u.delimiters.Fresh s.rest) (hline : u.line = s.line)
    (hrest : u.rest = ts.flatMap (Token.respelled source u.delimiters)) :
    ∃ us, u.tokens = .ok us ∧ us.map Token.unspelled = ts.map Token.unspelled := by
  induction h generalizing u with
  | done s => exact ⟨[], tokens_of_none (step_eq_none_iff.mpr hrest), rfl⟩
  | @step s s1 s2 t ts hstep hreads ih =>
    obtain ⟨raw, hr⟩ := reading_of_step hwf hstep
    have hd : s1.delimiters = s.delimiters := by
      rw [hr.delimiters_eq, setDelimiters_of_ne (hk t List.mem_cons_self)]
    have hmore : t.kind = .text → endsText u.delimiters.opening.toList
        (ts.flatMap (Token.respelled source u.delimiters)) = true := fun htext =>
      hreads.endsText_respelled hr.wellFormed (hr.isAt hs) (hd ▸ endsText_of_text hwf hstep htext)
    obtain ⟨t', u', hstep', ht', hd', hline', hrest'⟩ :=
      step_respelled hwf hs hstep (hk t List.mem_cons_self) hwf' hfresh hline hrest hmore
    rw [← hd'] at hwf' hfresh hrest'
    have hsub : s1.rest ⊆ s.rest := by
      rw [hr.rest_eq]
      exact List.subset_append_right raw s1.rest
    obtain ⟨us, hus, heq⟩ := ih hr.wellFormed (hr.isAt hs)
      (fun t ht => hk t (List.mem_cons_of_mem _ ht)) hwf' (hfresh.mono hsub) hline' hrest'
    refine ⟨t' :: us, ?_, by rw [List.map_cons, List.map_cons, ht', heq]⟩
    rw [tokens_of_step hstep', hus]
    rfl

end Cursor

theorem exists_raw_without_delimiterTag {source : String} {tokens : List Token}
    (h : scan source = .ok tokens) (hk : ∀ t ∈ tokens, t.kind ≠ .delimiterTag) :
    ∃ raw s', (Cursor.start source.toList).tokens = .ok raw ∧ tokens = settleLines [] raw ∧
      (Cursor.start source.toList).Reads raw s' ∧ s'.rest = [] ∧ ∀ t ∈ raw, t.kind ≠ .delimiterTag := by
  obtain ⟨raw, hraw, hs⟩ := settled_of_scan h
  obtain ⟨s', hreads, hnil⟩ := Cursor.reads_of_tokens hraw
  refine ⟨raw, s', hraw, hs.tokens_eq, hreads, hnil, ?_⟩
  intro t ht hkind
  obtain ⟨u, hu, hb⟩ := hs.exists_tag ht (by rw [hkind]; rfl)
  exact hk u hu ((Token.bare_congr hb).1.trans hkind)

/-- A template without delimiter tags has the same tokens in every spelling, but for their places and the
delimiters of the tags. -/
theorem scan_respelled {source : String} {tokens : List Token} {d : Delimiters}
    (h : scan source = .ok tokens) (hk : ∀ t ∈ tokens, t.kind ≠ .delimiterTag) (hwf : d.WellFormed)
    (hfresh : d.Fresh source.toList) :
    ∃ tokens', (Cursor.startUnder d (respelled source d).toList).scan = .ok tokens' ∧
      tokens'.map Token.unspelled = tokens.map Token.unspelled := by
  obtain ⟨raw, s', hraw, rfl, hreads, -, htags⟩ := exists_raw_without_delimiterTag h hk
  have hrest : (Cursor.startUnder d (respelled source d).toList).rest =
      raw.flatMap (Token.respelled source.toList d) := by
    rw [respelled, hraw]
    exact String.toList_ofList
  have hline : (Cursor.startUnder d (respelled source d).toList).line =
      (Cursor.start source.toList).line := rfl
  obtain ⟨us, hus, heq⟩ := hreads.tokens_respelled Delimiters.wellFormed_standard
    (Cursor.IsAt.start source.toList) htags hwf hfresh hline hrest
  refine ⟨settleLines [] us, by rw [Cursor.scan, hus]; rfl, ?_⟩
  have hsettle := Token.moves_unspelled.settleLines_map []
  rw [← hsettle us, ← hsettle raw, heq]

end Mustache
