import Mathlib.Data.List.Basic
import Mustache.Proofs.Token.Body
import Mustache.Proofs.Token.Coverage
import Mustache.Proofs.Token.Move

/-! # Sections with the same raw body

Where two sections have the same raw body under the same delimiters, the same tokens are read between
their tags, at other places. So what is left between the tags when the lines are settled is the same
if the tags *sit alike*: the opening tags both stand alone or both do not, and so do the closing tags.
-/
namespace Mustache

variable {line ts : List Token} {o c o' c' u : Token}

namespace Token.Moves

variable {f : Token → Token}

theorem lineAfter_map (hf : Token.Moves f) (line ts : List Token) :
    lineAfter (line.map f) (ts.map f) = (lineAfter line ts).map f := by
  induction ts generalizing line with
  | nil => rfl
  | cons t ts ih =>
    have hnil := ih []
    have hcons := ih (line ++ [t])
    rw [List.map_append, List.map_singleton] at hcons
    rw [List.map_cons, lineAfter, lineAfter, hf.kind_eq]
    split
    · exact hnil
    · exact hcons

theorem settledBefore_map (hf : Token.Moves f) (line ts : List Token) :
    settledBefore (line.map f) (ts.map f) = (settledBefore line ts).map f := by
  induction ts generalizing line with
  | nil => rfl
  | cons t ts ih =>
    have hnil := ih []
    have hcons := ih (line ++ [t])
    have hline := hf.settleLine_map line (some t)
    rw [List.map_append, List.map_singleton] at hcons
    rw [List.map_nil] at hnil
    rw [Option.map_some] at hline
    rw [List.map_cons, settledBefore, settledBefore, hf.kind_eq]
    split
    · rw [hline, hnil, List.map_append]
    · exact hcons

theorem settledBody_map (hf : Token.Moves f) (opened closed : Bool) (ts : List Token) :
    settledBody opened closed (ts.map f) = (settledBody opened closed ts).map f := by
  have hkind : ∀ us : List Token, (∀ u ∈ us, u.kind ≠ .newline) →
      ∀ u ∈ us.map f, u.kind ≠ .newline := by
    intro us hus u hu
    obtain ⟨v, hv, rfl⟩ := List.mem_map.mp hu
    rw [hf.kind_eq]
    exact hus v hv
  rcases exists_first_newline ts with hno | ⟨xs, nl, us, rfl, hnl, hno⟩
  · rw [settledBody_of_no_newline hno, settledBody_of_no_newline (hkind ts hno)]
  · have hbefore := hf.settledBefore_map [] us
    have hafter := hf.lineAfter_map [] us
    rw [List.map_nil] at hbefore hafter
    have hnl' : (f nl).kind = .newline := (hf.kind_eq nl).trans hnl
    rw [List.map_append, List.map_cons, settledBody_newline hno hnl,
      settledBody_newline (hkind xs hno) hnl', hbefore, hafter]
    cases opened with
    | true => cases closed <;> simp
    | false => cases closed <;> simp

end Token.Moves

theorem Drops.map_unplaced {opened closed : Bool} (h : Drops opened closed ts) :
    Drops opened closed (ts.map Token.unplaced) where
  opened_spec hopened := by
    obtain ⟨xs, nl, us, rfl, hnl, htext⟩ := h.opened_spec hopened
    refine ⟨xs.map Token.unplaced, nl.unplaced, us.map Token.unplaced, by simp, hnl, fun u hu => ?_⟩
    obtain ⟨v, hv, rfl⟩ := List.mem_map.mp hu
    exact htext v hv
  closed_spec hclosed := by
    obtain ⟨xs, nl, us, rfl, hnl, hno, hne, htext⟩ := h.closed_spec hclosed
    have hafter := Token.moves_unplaced.lineAfter_map [] us
    rw [List.map_nil] at hafter
    refine ⟨xs.map Token.unplaced, nl.unplaced, us.map Token.unplaced, by simp, hnl, ?_, ?_, ?_⟩
    · intro u hu
      obtain ⟨v, hv, rfl⟩ := List.mem_map.mp hu
      exact hno v hv
    · rw [hafter]
      exact fun hnil => hne (List.map_eq_nil_iff.mp hnil)
    · intro u hu
      rw [hafter] at hu
      obtain ⟨v, hv, rfl⟩ := List.mem_map.mp hu
      exact htext v hv

/-- How the tags of two sections stand on their lines, as far as it matters to what is between them. -/
structure SitAlike (source : List Char) (tokens : List Token) (start stop start' stop' : Int) :
    Prop where
  opening : OpensAlone source tokens start ↔ OpensAlone source tokens start'
  closing : ClosesIndented source tokens stop ↔ ClosesIndented source tokens stop'

namespace Cursor

variable {source : List Char} {raw ps body qs : List Token}

/-- The tokens between two tags are read from the text between them, under the delimiters of the first. -/
theorem exists_reads_body (h : (Cursor.start source).tokens = .ok raw)
    (hraw : raw = ps ++ o :: (body ++ c :: qs)) (ho : o.kind = .sectionStart) :
    ∃ s s' : Cursor, s.Reads body s' ∧ s.delimiters = o.delimiters ∧ s.delimiters.WellFormed ∧
      s.offset = o.stop ∧ s.rest = Text.slice source o.stop c.start ++ s'.rest := by
  obtain ⟨last, hreads, -⟩ := reads_of_tokens h
  rw [hraw] at hreads
  obtain ⟨s₁, hps, hrest⟩ := Reads.append_iff.mp hreads
  have hwf : (Cursor.start source).delimiters.WellFormed := Delimiters.wellFormed_standard
  have hwf₁ := hps.wellFormed hwf
  have hat₁ := hps.isAt hwf (IsAt.start source)
  cases hrest with
  | @step _ s _ _ _ hstep hrest =>
    obtain ⟨piece, hr⟩ := reading_of_step hwf₁ hstep
    obtain ⟨s', hbody, hafter⟩ := Reads.append_iff.mp hrest
    have hat := hr.isAt hat₁
    have hat' := hbody.isAt hr.wellFormed hat
    have hd : s.delimiters = o.delimiters := by
      have hkind : o.kind ≠ .delimiterTag := by
        rw [ho]
        decide
      rw [hr.delimiters_eq, setDelimiters_of_ne hkind, (hr.tag_spec (by rw [ho]; rfl)).1]
    have hstart : c.start = s'.offset := by
      cases hafter with
      | step hstep' _ =>
        obtain ⟨piece', hr'⟩ := reading_of_step (hbody.wellFormed hr.wellFormed) hstep'
        exact hr'.start_eq
    have hle : o.stop ≤ c.start := by
      rw [hstart, ← hr.offset_eq]
      exact (hbody.tiles hr.wellFormed).le
    refine ⟨s, s', hbody, hd, hr.wellFormed, hr.offset_eq, ?_⟩
    have hlen : o.stop ≤ (source.take c.start).length := by
      have hle' := hat'.offset_le
      rw [List.length_take]
      omega
    rw [hat.rest_eq, hat'.rest_eq, hr.offset_eq, ← hstart, Text.slice_natCast,
      ← List.drop_append_of_le_length hlen, List.take_append_drop]

end Cursor

namespace Settled

variable {source : List Char} {raw tokens pre body post pre' body' post' : List Token}

theorem mem_raw (hs : Settled source raw tokens) (hu : u ∈ tokens) (hk : u.kind ≠ .partialTag) :
    u ∈ raw := by
  obtain ⟨t, ht, hb⟩ := hs.exists_raw hu
  have hindent : u.indent = "" := by
    rcases Decidable.em (u.indent = "") with h | h
    · exact h
    · exact absurd (hs.alone_of_indent hu h).1 hk
  have hbare : ∀ v : Token, v.indent = "" → v.bare = v := by
    intro v hv
    rw [Token.bare, ← hv]
  rw [hbare u hindent, hbare t (hs.written t ht).1] at hb
  rw [hb]
  exact ht

theorem exists_raw_split (hs : Settled source raw tokens)
    (htokens : tokens = pre ++ o :: (body ++ c :: post)) (ho : o.kind = .sectionStart)
    (hc : c.kind = .sectionEnd) : ∃ ps ts qs, raw = ps ++ o :: (ts ++ c :: qs) := by
  have ho' : o ∈ tokens := by
    rw [htokens]
    simp
  have hc' : c ∈ tokens := by
    rw [htokens]
    simp
  have hle : o.stop ≤ c.start := by
    have hp := hs.pairwise_le
    rw [htokens] at hp
    exact (List.pairwise_cons.mp (List.pairwise_append.mp hp).2.1).1 c (by simp)
  have hlt := hs.start_lt_stop ho'
  have hlt' := hs.start_lt_stop hc'
  obtain ⟨ps, rest, hraw⟩ := List.append_of_mem (hs.mem_raw ho' (by rw [ho]; decide))
  have hc'' := hs.mem_raw hc' (by rw [hc]; decide)
  rw [hraw] at hc''
  rcases List.mem_append.mp hc'' with hin | hin
  · have hp := hs.tiles.pairwise
    rw [hraw] at hp
    have hle' := (List.pairwise_append.mp hp).2.2 c hin o List.mem_cons_self
    omega
  · rcases List.mem_cons.mp hin with rfl | hin
    · omega
    · obtain ⟨ts, qs, rfl⟩ := List.append_of_mem hin
      exact ⟨ps, ts, qs, hraw⟩

theorem split_unique (hs : Settled source raw tokens) (h : tokens = pre ++ o :: post)
    (h' : tokens = pre' ++ o :: post') : pre = pre' ∧ post = post' := by
  have hlt := hs.start_lt_stop (u := o) (by rw [h]; simp)
  have hp := hs.pairwise_le
  rw [h] at hp
  have hp' := List.pairwise_append.mp hp
  have hbefore : o ∉ pre := by
    intro hmem
    have hle := hp'.2.2 o hmem o List.mem_cons_self
    omega
  have hafter : o ∉ post := by
    intro hmem
    have hle := (List.pairwise_cons.mp hp'.2.1).1 o hmem
    omega
  obtain ⟨hpre, -, hpost⟩ := (List.append_cons_inj_of_notMem hbefore hafter).mp (h.symm.trans h')
  exact ⟨hpre, hpost⟩

theorem exists_body (hs : Settled source raw tokens)
    (htokens : tokens = pre ++ o :: (body ++ c :: post)) (ho : o.kind = .sectionStart)
    (hc : c.kind = .sectionEnd) :
    ∃ ps ts qs opened closed, raw = ps ++ o :: (ts ++ c :: qs) ∧
      body = settledBody opened closed ts ∧ (opened = true ↔ OpensAlone source tokens o.stop) ∧
      (closed = true ↔ ClosesIndented source tokens c.start) ∧ Drops opened closed ts := by
  obtain ⟨ps, ts, qs, hraw⟩ := hs.exists_raw_split htokens ho hc
  obtain ⟨pre', post', opened, closed, htokens', hopen, hclose, hdrops⟩ :=
    hs.exists_settledBody hraw ho hc
  refine ⟨ps, ts, qs, opened, closed, hraw, ?_, hopen, hclose, hdrops⟩
  have hbody := (hs.split_unique htokens htokens').2
  have hsplit : tokens = (pre ++ o :: body) ++ c :: post := by
    rw [htokens]
    simp
  have hsplit' : tokens = (pre' ++ o :: settledBody opened closed ts) ++ c :: post' := by
    rw [htokens']
    simp
  have hfront := (hs.split_unique hsplit hsplit').1
  rw [(hs.split_unique htokens htokens').1] at hfront
  exact (List.cons.inj (List.append_cancel_left hfront)).2

end Settled

structure Token.Spelled (t : Token) : Prop where
  text_spec : t.kind = .text → t.value.toList ≠ [] ∧ '\n' ∉ t.value.toList
  newline_spec : t.kind = .newline → t.value.toList = ['\n']

theorem Token.WrittenIn.spelled {source : List Char} {d : Delimiters} (h : u.WrittenIn source d) :
    u.Spelled where
  text_spec hk := by
    obtain ⟨hvalue, hno, -⟩ := h.text_spec hk
    refine ⟨fun hnil => ?_, hno⟩
    have hlen := congrArg List.length hvalue
    rw [hnil, Text.length_slice source h.inside, List.length_nil] at hlen
    have hlt := h.nonempty
    omega
  newline_spec hk := (h.newline_spec hk).2

/-- What two sections with the same raw body under the same delimiters have between their tags: the same
tokens `ts` and `ts'` up to their places, of which the lines of the tags take away what they stand for. -/
theorem exists_same_body {source : String} {tokens pre body post pre' body' post' : List Token}
    (hscan : scan source = .ok tokens) (htokens : tokens = pre ++ o :: (body ++ c :: post))
    (htokens' : tokens = pre' ++ o' :: (body' ++ c' :: post')) (ho : o.kind = .sectionStart)
    (hc : c.kind = .sectionEnd) (ho' : o'.kind = .sectionStart) (hc' : c'.kind = .sectionEnd)
    (hd : o.delimiters = o'.delimiters) (hslice : Text.slice source.toList o.stop c.start =
      Text.slice source.toList o'.stop c'.start) :
    ∃ ts ts' opened closed opened' closed', body = settledBody opened closed ts ∧
      body' = settledBody opened' closed' ts' ∧ ts.map Token.unplaced = ts'.map Token.unplaced ∧
      (∀ u ∈ ts, u.Spelled) ∧ Drops opened closed ts ∧ Drops opened' closed' ts' ∧
      (SitAlike source.toList tokens o.stop c.start o'.stop c'.start ↔
        opened = opened' ∧ closed = closed') := by
  obtain ⟨raw, hraw, hs⟩ := settled_of_scan hscan
  obtain ⟨ps, ts, qs, opened, closed, hsplit, hbody, hopen, hclose, hdrops⟩ := hs.exists_body htokens ho hc
  obtain ⟨ps', ts', qs', opened', closed', hsplit', hbody', hopen', hclose', hdrops'⟩ :=
    hs.exists_body htokens' ho' hc'
  obtain ⟨s, s₁, hreads, hds, hwf, -, hrest⟩ := Cursor.exists_reads_body hraw hsplit ho
  obtain ⟨s', s₁', hreads', hds', -, -, hrest'⟩ := Cursor.exists_reads_body hraw hsplit' ho'
  refine ⟨ts, ts', opened, closed, opened', closed', hbody, hbody', ?_, ?_, hdrops, hdrops', ?_⟩
  · have hsame : s.delimiters = s'.delimiters := by rw [hds, hds', hd]
    rw [hslice] at hrest
    have hwf' : s'.delimiters.WellFormed := by
      rw [← hsame]
      exact hwf
    exact hreads'.unplaced_eq hreads hwf' hsame hrest' hrest
  · intro u hu
    have hmem : u ∈ raw := by
      rw [hsplit]
      simp [hu]
    exact (hs.written u hmem).2.spelled
  · constructor
    · rintro ⟨hopening, hclosing⟩
      rw [← hopen, ← hopen'] at hopening
      rw [← hclose, ← hclose'] at hclosing
      exact ⟨Bool.eq_iff_iff.mpr hopening, Bool.eq_iff_iff.mpr hclosing⟩
    · rintro ⟨rfl, rfl⟩
      exact ⟨hopen.symm.trans hopen', hclose.symm.trans hclose'⟩

end Mustache
