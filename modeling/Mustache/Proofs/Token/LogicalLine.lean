import Mustache.Proofs.Token.Line

/-! # Logical lines

The breaks of a template are its line breaks outside all tags, and its logical lines are what stands
between them. The tokens read from a template fall into these lines, and settling acts on one logical
line at a time, so what a line contributes are the tokens that start in it.
-/
namespace Mustache

def IsBreak (source : List Char) (tokens : List Token) (i : Nat) : Prop :=
  source[i]? = some '\n' ∧ ∀ t ∈ tokens, t.kind.isTag = true → ¬ (t.start ≤ i ∧ i < t.stop)

/-- A logical line, from its first place up to, not including, its break or the end of the text. -/
structure IsLine (source : List Char) (tokens : List Token) (first last : Nat) : Prop where
  first_le : first ≤ last
  starts : first = 0 ∨ ∃ i, first = i + 1 ∧ IsBreak source tokens i
  ends : last = source.length ∨ IsBreak source tokens last
  unbroken : ∀ i, first ≤ i → i < last → ¬ IsBreak source tokens i

/-- The only tag of a line, of a kind that stands alone, with nothing but blanks around it. -/
structure StandsAlone (source : List Char) (tokens : List Token) (first last : Nat) (t : Token) :
    Prop where
  mem : t ∈ tokens
  first_le : first ≤ t.start
  le_last : t.stop ≤ last
  kind_spec : t.kind.standsAlone = true
  only : ∀ u ∈ tokens, u.kind.isTag = true → first ≤ u.start → u.start < last → u = t
  blank : ∀ i, first ≤ i → i < last → ¬ (t.start ≤ i ∧ i < t.stop) →
    ∃ c, source[i]? = some c ∧ Text.isLineBlank c = true

/-- `raw` are all tokens of a text, and `tokens` what is left of them when the lines are settled. -/
structure Settled (source : List Char) (raw tokens : List Token) : Prop where
  tiles : Tiles 0 raw source.length
  written : ∀ t ∈ raw, t.indent = "" ∧ t.WrittenIn source (delimitersAt raw t.start)
  tokens_eq : tokens = settleLines [] raw

theorem settled_of_scan {source : String} {tokens : List Token} (h : scan source = .ok tokens) :
    ∃ raw, (Cursor.start source.toList).tokens = .ok raw ∧ Settled source.toList raw tokens := by
  unfold scan Cursor.scan at h
  cases hraw : (Cursor.start source.toList).tokens with
  | error e =>
    rw [hraw] at h
    cases h
  | ok raw =>
    rw [hraw] at h
    cases h
    obtain ⟨htiles, hwritten⟩ := Cursor.tokens_start_spec hraw
    exact ⟨raw, rfl, htiles, hwritten, rfl⟩

namespace Settled

variable {source : List Char} {raw tokens : List Token} {first last : Nat} {t u : Token}

theorem exists_raw (hs : Settled source raw tokens) (hu : u ∈ tokens) :
    ∃ t ∈ raw, u.bare = t.bare := by
  rw [hs.tokens_eq] at hu
  exact mem_of_mem_settleLines hu

theorem wellFormed_of_scan {source : String} (h : scan source = .ok tokens) (ht : t ∈ tokens)
    (htag : t.kind.isTag = true) : t.delimiters.WellFormed := by
  obtain ⟨raw, hraw, hs⟩ := settled_of_scan h
  obtain ⟨s', hreads, -⟩ := Cursor.reads_of_tokens hraw
  obtain ⟨u, hu, hb⟩ := hs.exists_raw ht
  obtain ⟨hk, -, -, -, hd⟩ := Token.bare_congr hb
  rw [hk] at htag
  rw [hd]
  exact hreads.wellFormed_of_mem Delimiters.wellFormed_standard hu htag

theorem tags_eq (hs : Settled source raw tokens) :
    (tokens.filter (·.kind.isTag)).map Token.bare = (raw.filter (·.kind.isTag)).map Token.bare := by
  rw [hs.tokens_eq]
  exact settleLines_tags [] raw

theorem exists_tag (hs : Settled source raw tokens) (ht : t ∈ raw) (htag : t.kind.isTag = true) :
    ∃ u ∈ tokens, u.bare = t.bare := by
  have hmem : t.bare ∈ (raw.filter (·.kind.isTag)).map Token.bare :=
    List.mem_map_of_mem (List.mem_filter.mpr ⟨ht, htag⟩)
  rw [← hs.tags_eq] at hmem
  obtain ⟨u, hu, hb⟩ := List.mem_map.mp hmem
  exact ⟨u, (List.mem_filter.mp hu).1, hb⟩

theorem pairwise_le (hs : Settled source raw tokens) :
    tokens.Pairwise fun t u => t.stop ≤ u.start := by
  have hraw : (raw.map Token.bare).Pairwise fun t u => t.stop ≤ u.start :=
    List.pairwise_map.mpr hs.tiles.pairwise
  have hsub : (tokens.map Token.bare).Sublist (raw.map Token.bare) := by
    rw [hs.tokens_eq]
    exact settleLines_sublist [] raw
  exact List.pairwise_map.mp (hraw.sublist hsub)

theorem start_lt_stop (hs : Settled source raw tokens) (hu : u ∈ tokens) : u.start < u.stop := by
  obtain ⟨t, ht, hb⟩ := hs.exists_raw hu
  obtain ⟨-, -, hstart, hstop, -⟩ := Token.bare_congr hb
  rw [hstart, hstop]
  exact (hs.tiles.bounds ht).2.1

theorem newline_spec (hs : Settled source raw tokens) (ht : t ∈ raw) (hk : t.kind = .newline) :
    t.stop = t.start + 1 ∧ source[t.start]? = some '\n' := by
  have hw := (hs.written t ht).2
  obtain ⟨hvalue, hnl⟩ := hw.newline_spec hk
  rw [hnl] at hvalue
  have hlen := congrArg List.length hvalue
  rw [Text.length_slice source hw.inside, List.length_singleton] at hlen
  have hlt := hw.nonempty
  refine ⟨by omega, ?_⟩
  rw [← Text.getElem?_slice source (Nat.le_refl t.start) hlt, ← hvalue, Nat.sub_self]
  rfl

theorem isBreak_iff (hs : Settled source raw tokens) {i : Nat} :
    IsBreak source tokens i ↔ ∃ nl ∈ raw, nl.kind = .newline ∧ nl.start = i := by
  constructor
  · rintro ⟨hchar, hout⟩
    have hlt : i < source.length := (List.getElem?_eq_some_iff.mp hchar).1
    obtain ⟨t, ht, hspan⟩ := hs.tiles.exists_mem (Nat.zero_le i) hlt
    have hw := (hs.written t ht).2
    have hmem : '\n' ∈ Text.slice source t.start t.stop := by
      rw [← Text.getElem?_slice source hspan.1 hspan.2] at hchar
      exact List.mem_of_getElem? hchar
    cases hk : t.kind with
    | newline =>
      have hstop := (hs.newline_spec ht hk).1
      exact ⟨t, ht, hk, by omega⟩
    | text =>
      obtain ⟨hvalue, hfree, -⟩ := hw.text_spec hk
      rw [← hvalue] at hmem
      exact absurd hmem hfree
    | _ =>
      have htag : t.kind.isTag = true := by rw [hk]; rfl
      obtain ⟨u, hu, hb⟩ := hs.exists_tag ht htag
      obtain ⟨huk, -, hstart, hstop, -⟩ := Token.bare_congr hb
      rw [← huk] at htag
      rw [← hstart, ← hstop] at hspan
      exact absurd hspan (hout u hu htag)
  · rintro ⟨nl, hnl, hk, rfl⟩
    obtain ⟨hstop, hchar⟩ := hs.newline_spec hnl hk
    refine ⟨hchar, fun u hu htag hspan => ?_⟩
    obtain ⟨t, ht, hb⟩ := hs.exists_raw hu
    obtain ⟨huk, -, hstart, hstop', -⟩ := Token.bare_congr hb
    rw [hstart, hstop'] at hspan
    have heq := hs.tiles.eq_of_overlap ht hnl hspan ⟨Nat.le_refl _, by omega⟩
    rw [huk, heq, hk] at htag
    cases htag

/-- A logical line is a run of the tokens between two line breaks; it is settled by itself, after all
before it and before all after it. -/
theorem exists_line (hs : Settled source raw tokens) (hl : IsLine source tokens first last) :
    ∃ before rest line newline after, raw = before ++ rest ∧ LineEnds rest line newline after ∧
      Tiles 0 before first ∧ Tiles first line last ∧
      Tiles last (newline.toList ++ after) source.length ∧
      tokens = settleLines [] before ++ (settleLine line newline ++ settleLines [] after) := by
  have hstarts : ∃ before rest, raw = before ++ rest ∧ Tiles 0 before first ∧
      Tiles first rest source.length ∧
      settleLines [] raw = settleLines [] before ++ settleLines [] rest := by
    rcases hl.starts with h0 | ⟨i, hi, hb⟩
    · refine ⟨[], raw, rfl, h0.symm, ?_, rfl⟩
      rw [h0]
      exact hs.tiles
    · obtain ⟨nl, hnl, hk, hstart⟩ := hs.isBreak_iff.mp hb
      have hstop := (hs.newline_spec hnl hk).1
      obtain ⟨xs, rest, rfl⟩ := List.append_of_mem hnl
      have htiles := hs.tiles
      rw [← List.singleton_append, ← List.append_assoc] at htiles
      obtain ⟨b, hxs, hrest⟩ := Tiles.append_iff.mp htiles
      obtain ⟨c, -, -, -, hcb⟩ := Tiles.append_iff.mp hxs
      have hbfirst : b = first := by
        have hcb' : nl.stop = b := hcb
        omega
      rw [hbfirst] at hxs hrest
      exact ⟨xs ++ [nl], rest, by simp, hxs, hrest, settleLines_append_of_newline hk rest⟩
  obtain ⟨before, rest, rfl, hbefore, hrest, hsettle⟩ := hstarts
  rcases hl.ends with hend | hb
  · have hno : ∀ u ∈ rest, u.kind ≠ .newline := by
      intro u hu hk
      have hbounds := hrest.bounds hu
      apply hl.unbroken u.start hbounds.1 (by omega)
      exact hs.isBreak_iff.mpr ⟨u, List.mem_append_right _ hu, hk, rfl⟩
    have hends : LineEnds rest rest none [] := ⟨by simp, hno, nofun, fun _ => rfl⟩
    refine ⟨before, rest, rest, none, [], rfl, hends, hbefore, ?_, hend, ?_⟩
    · rw [hend]
      exact hrest
    · rw [hs.tokens_eq, hsettle, hends.settleLines_eq, List.nil_append]
  · obtain ⟨nl, hnl, hk, hstart⟩ := hs.isBreak_iff.mp hb
    have hnl' : nl ∈ rest := by
      rcases List.mem_append.mp hnl with h | h
      · have hbounds := hbefore.bounds h
        have hle := hl.first_le
        omega
      · exact h
    obtain ⟨line, after, rfl⟩ := List.append_of_mem hnl'
    obtain ⟨b, hline, hnlb, hlt, hafter⟩ := Tiles.append_iff.mp hrest
    have hblast : b = last := hnlb.symm.trans hstart
    rw [hblast] at hline
    have hno : ∀ u ∈ line, u.kind ≠ .newline := by
      intro u hu huk
      have hbounds := hline.bounds hu
      apply hl.unbroken u.start hbounds.1 (by omega)
      exact hs.isBreak_iff.mpr
        ⟨u, List.mem_append_right _ (List.mem_append_left _ hu), huk, rfl⟩
    have hends : LineEnds (line ++ nl :: after) line (some nl) after :=
      ⟨rfl, hno, fun nl' h => Option.some.inj h ▸ hk, nofun⟩
    refine ⟨before, _, line, some nl, after, rfl, hends, hbefore, hline, ⟨hstart, hlt, hafter⟩, ?_⟩
    rw [hs.tokens_eq, hsettle, hends.settleLines_eq, List.nil_append]

theorem filter_line {before rest line after : List Token} {newline : Option Token}
    (hends : LineEnds rest line newline after) (hbefore : Tiles 0 before first)
    (hline : Tiles first line last) (hafter : Tiles last (newline.toList ++ after) source.length)
    (heq : tokens = settleLines [] before ++ (settleLine line newline ++ settleLines [] after)) :
    tokens.filter (fun u => decide (first ≤ u.start ∧ u.start ≤ last)) = settleLine line newline := by
  have h1 : (settleLines [] before).filter (fun u => decide (first ≤ u.start ∧ u.start ≤ last)) = [] := by
    rw [List.filter_eq_nil_iff]
    intro u hu
    obtain ⟨t, ht, hb⟩ := mem_of_mem_settleLines hu
    obtain ⟨-, -, hstart, -, -⟩ := Token.bare_congr hb
    have hbounds := hbefore.bounds (by simpa using ht)
    simp only [decide_eq_true_eq]
    omega
  have h2 : (settleLine line newline).filter (fun u => decide (first ≤ u.start ∧ u.start ≤ last)) =
      settleLine line newline := by
    rw [List.filter_eq_self]
    intro u hu
    obtain ⟨t, ht, hb⟩ := mem_of_mem_settleLine hu
    obtain ⟨-, -, hstart, -, -⟩ := Token.bare_congr hb
    have hle := hline.le
    have hin : first ≤ t.start ∧ t.start ≤ last := by
      rcases List.mem_append.mp ht with ht | ht
      · have hbounds := hline.bounds ht
        omega
      · cases newline with
        | none => cases ht
        | some nl =>
          rw [List.mem_singleton.mp ht]
          have hnlstart : nl.start = last := hafter.1
          omega
    rw [hstart]
    exact decide_eq_true hin
  have h3 : (settleLines [] after).filter (fun u => decide (first ≤ u.start ∧ u.start ≤ last)) = [] := by
    rw [List.filter_eq_nil_iff]
    intro u hu
    obtain ⟨t, ht, hb⟩ := mem_of_mem_settleLines hu
    obtain ⟨-, -, hstart, -, -⟩ := Token.bare_congr hb
    cases newline with
    | none =>
      rw [hends.rest_spec rfl] at ht
      cases ht
    | some nl =>
      obtain ⟨hnlstart, hlt, htiles⟩ := hafter
      have hbounds := Tiles.bounds htiles (by simpa using ht)
      simp only [decide_eq_true_eq]
      omega
  rw [heq, List.filter_append, List.filter_append, h1, h2, h3, List.nil_append, List.append_nil]

section Alone

variable {line : List Token} {newline : Option Token}

theorem standsAlone_of_standaloneTag? (hs : Settled source raw tokens) (hsub : line ⊆ raw)
    (hline : Tiles first line last)
    (hfilter : tokens.filter (fun u => decide (first ≤ u.start ∧ u.start ≤ last)) =
      settleLine line newline)
    (h : standaloneTag? line = some t) : StandsAlone source tokens first last t := by
  rw [settleLine, h] at hfilter
  obtain ⟨before, tag, after, rfl, halone, htext, rfl⟩ := standaloneTag?_eq_some_iff.mp h
  have htag : tag ∈ before ++ tag :: after := by simp
  obtain ⟨-, -, hstart, hstop, -⟩ := Token.bare_congr (Token.bare_settledAfter before tag)
  have hbounds := hline.bounds htag
  refine ⟨?_, by rw [hstart]; exact hbounds.1, by rw [hstop]; exact hbounds.2.2, ?_, ?_, ?_⟩
  · have hin : tag.settledAfter before ∈ tokens.filter
        (fun u => decide (first ≤ u.start ∧ u.start ≤ last)) := by
      rw [hfilter]
      exact List.mem_singleton_self _
    exact (List.mem_filter.mp hin).1
  · rw [Token.kind_settledAfter]
    exact halone
  · intro u hu _ h1 h2
    have hin : u ∈ tokens.filter (fun u => decide (first ≤ u.start ∧ u.start ≤ last)) :=
      List.mem_filter.mpr ⟨hu, decide_eq_true ⟨h1, by omega⟩⟩
    rw [hfilter] at hin
    exact List.mem_singleton.mp hin
  · intro i h1 h2 hout
    obtain ⟨v, hv, hspan⟩ := hline.exists_mem h1 h2
    have hne : v ≠ tag := by
      intro heq
      apply hout
      rw [hstart, hstop, ← heq]
      exact hspan
    have hv' : v ∈ before ++ after := by
      rcases List.mem_append.mp hv with hv | hv
      · exact List.mem_append_left _ hv
      · exact List.mem_append_right _ ((List.mem_cons.mp hv).resolve_left hne)
    obtain ⟨hk, hblank⟩ := htext v hv'
    obtain ⟨hvalue, -, -⟩ := (hs.written v (hsub hv)).2.text_spec hk
    have hlen := (hs.written v (hsub hv)).2.inside
    have hi : i < source.length := by omega
    refine ⟨source[i], List.getElem?_eq_getElem hi, ?_⟩
    have hchar : (Text.slice source v.start v.stop)[i - v.start]? = some source[i] := by
      rw [Text.getElem?_slice source hspan.1 hspan.2, List.getElem?_eq_getElem hi]
    rw [← hvalue] at hchar
    exact List.all_eq_true.mp hblank _ (List.mem_of_getElem? hchar)

theorem blank_of_standsAlone (hs : Settled source raw tokens) (hsub : line ⊆ raw)
    (hline : Tiles first line last) (h : StandsAlone source tokens first last t) (ht : t ∈ line)
    (hu : u ∈ line) (hutokens : u ∈ tokens) (hnl : u.kind ≠ .newline)
    (hout : ¬ (t.start ≤ u.start ∧ u.start < t.stop)) :
    u.kind = .text ∧ u.value.toList.all Text.isLineBlank = true := by
  have hb := hline.bounds hu
  have hlt := (hline.bounds ht).2.1
  have hnotTag : u.kind.isTag = false := by
    cases hutag : u.kind.isTag with
    | false => rfl
    | true =>
      have heq := h.only u hutokens hutag hb.1 (by omega)
      rw [heq] at hout
      exact absurd ⟨Nat.le_refl _, hlt⟩ hout
  have hk : u.kind = .text := TokenKind.eq_text hnotTag hnl
  refine ⟨hk, List.all_eq_true.mpr fun c hc => ?_⟩
  have hw := (hs.written u (hsub hu)).2
  obtain ⟨hvalue, -, -⟩ := hw.text_spec hk
  rw [hvalue] at hc
  obtain ⟨j, hj⟩ := List.getElem?_of_mem hc
  have hjlt := (List.getElem?_eq_some_iff.mp hj).1
  rw [Text.length_slice source hw.inside] at hjlt
  have hsrc : source[u.start + j]? = some c := by
    rw [← Text.getElem?_slice source (Nat.le_add_right _ j) (b := u.stop) (by omega),
      Nat.add_sub_cancel_left]
    exact hj
  have hout' : ¬ (t.start ≤ u.start + j ∧ u.start + j < t.stop) := by
    intro hspan
    have hjspan : u.start ≤ u.start + j ∧ u.start + j < u.stop := by omega
    have heq := hline.eq_of_overlap ht hu hspan hjspan
    rw [← heq] at hout
    exact hout ⟨Nat.le_refl _, hlt⟩
  obtain ⟨c', hc', hblank⟩ := h.blank (u.start + j) (by omega) (by omega) hout'
  rw [hsrc] at hc'
  rw [Option.some.inj hc']
  exact hblank

theorem standaloneTag?_of_standsAlone (hs : Settled source raw tokens) (hsub : line ⊆ raw)
    (hline : Tiles first line last) {rest after : List Token} (hends : LineEnds rest line newline after)
    (hfilter : tokens.filter (fun u => decide (first ≤ u.start ∧ u.start ≤ last)) =
      settleLine line newline)
    (h : StandsAlone source tokens first last t) : standaloneTag? line = some t := by
  have hle := h.le_last
  have htag := TokenKind.isTag_of_standsAlone h.kind_spec
  have hlt := hs.start_lt_stop h.mem
  have hin : t ∈ tokens.filter (fun u => decide (first ≤ u.start ∧ u.start ≤ last)) :=
    List.mem_filter.mpr ⟨h.mem, decide_eq_true ⟨h.first_le, by omega⟩⟩
  rw [hfilter, settleLine] at hin
  cases hst : standaloneTag? line with
  | some t' =>
    rw [hst] at hin
    rw [List.mem_singleton.mp hin]
  | none =>
    exfalso
    rw [settleLine, hst] at hfilter
    rw [hst] at hin
    have ht : t ∈ line := by
      rcases List.mem_append.mp hin with h | h
      · exact h
      · have hk := hends.newline_spec t (Option.mem_toList.mp h)
        rw [hk] at htag
        cases htag
    have htokens : line ⊆ tokens := by
      intro u hu
      have hin : u ∈ tokens.filter (fun u => decide (first ≤ u.start ∧ u.start ≤ last)) := by
        rw [hfilter]
        exact List.mem_append_left _ hu
      exact (List.mem_filter.mp hin).1
    obtain ⟨before, after, rfl⟩ := List.append_of_mem ht
    have htext : ∀ u ∈ before ++ after, u.kind = .text ∧ u.value.toList.all Text.isLineBlank = true := by
      intro u hu
      have hp := List.pairwise_append.mp hline.pairwise
      rcases List.mem_append.mp hu with hu | hu
      · have hul : u ∈ before ++ t :: after := List.mem_append_left _ hu
        have hle := hp.2.2 u hu t List.mem_cons_self
        have hb := hline.bounds hul
        exact hs.blank_of_standsAlone hsub hline h ht hul (htokens hul) (hends.unbroken u hul) (by omega)
      · have hul : u ∈ before ++ t :: after := List.mem_append_right _ (List.mem_cons_of_mem t hu)
        have hle := (List.pairwise_cons.mp hp.2.1).1 u hu
        exact hs.blank_of_standsAlone hsub hline h ht hul (htokens hul) (hends.unbroken u hul) (by omega)
    have hsome := standaloneTag?_eq_some_iff.mpr ⟨before, t, after, rfl, h.kind_spec, htext, rfl⟩
    rw [hst] at hsome
    cases hsome

end Alone

theorem line_spec (hs : Settled source raw tokens) (hl : IsLine source tokens first last) :
    ∃ line newline, line ++ Option.toList newline ⊆ raw ∧ Tiles first line last ∧
      raw.filter (fun u => decide (first ≤ u.start ∧ u.start < last)) = line ∧
      (∀ nl, newline = some nl → nl.kind = .newline ∧ nl.start = last) ∧
      (newline = none → last = source.length) ∧
      tokens.filter (fun u => decide (first ≤ u.start ∧ u.start ≤ last)) = settleLine line newline ∧
      ∀ t, standaloneTag? line = some t ↔ StandsAlone source tokens first last t := by
  obtain ⟨before, rest, line, newline, after, hraw, hends, hbefore, hline, hafter, htokens⟩ :=
    hs.exists_line hl
  rw [hends.eq] at hraw
  have hfilter := filter_line hends hbefore hline hafter htokens
  have hsub : line ++ newline.toList ⊆ raw := by
    intro u hu
    rw [hraw]
    apply List.mem_append_right
    rw [← List.append_assoc]
    exact List.mem_append_left _ hu
  have hrange : raw.filter (fun u => decide (first ≤ u.start ∧ u.start < last)) = line := by
    rw [hraw]
    exact Tiles.filter_eq hbefore hline hafter
  have hsubLine : line ⊆ raw := fun u hu => hsub (List.mem_append_left _ hu)
  refine ⟨line, newline, hsub, hline, hrange, ?_, ?_, hfilter, fun t =>
    ⟨hs.standsAlone_of_standaloneTag? hsubLine hline hfilter,
      hs.standaloneTag?_of_standsAlone hsubLine hline hends hfilter⟩⟩
  · intro nl h
    rw [h] at hafter
    exact ⟨hends.newline_spec nl h, hafter.1⟩
  · intro h
    rw [h, hends.rest_spec h] at hafter
    exact hafter

theorem join_values (hs : Settled source raw tokens) {before : List Token} (hsub : before ⊆ raw)
    (hbefore : Tiles first before last) (htext : ∀ u ∈ before, u.kind = .text) :
    (String.join (before.map (·.value))).toList = Text.slice source first last := by
  have hjoin : (String.join (before.map (·.value))).toList =
      before.flatMap (·.value.toList) := by
    rw [String.toList_join]
    simp [List.flatMap_map]
  rw [hjoin]
  clear hjoin
  induction before generalizing first with
  | nil =>
    have hfirst : first = last := hbefore
    rw [hfirst, Text.slice_natCast, List.drop_eq_nil_of_le (List.length_take_le _ _)]
    rfl
  | cons u us ih =>
    obtain ⟨hstart, hlt, hus⟩ := hbefore
    obtain ⟨hvalue, -, -⟩ := (hs.written u (hsub List.mem_cons_self)).2.text_spec
      (htext u List.mem_cons_self)
    have hi := ih (fun v hv => hsub (List.mem_cons_of_mem u hv)) hus
      (fun v hv => htext v (List.mem_cons_of_mem u hv))
    have hle := hus.le
    rw [List.flatMap_cons, hi, hvalue, hstart, Text.slice_append_slice source (by omega) hle]

end Settled

theorem exists_lineStart (p : Nat → Prop) (i : Nat) : ∃ first, first ≤ i ∧
    (first = 0 ∨ ∃ j, first = j + 1 ∧ p j) ∧ ∀ j, first ≤ j → j < i → ¬ p j := by
  induction i with
  | zero => exact ⟨0, Nat.le_refl 0, Or.inl rfl, by omega⟩
  | succ i ih =>
    by_cases hp : p i
    · exact ⟨i + 1, Nat.le_refl _, Or.inr ⟨i, rfl, hp⟩, by omega⟩
    · obtain ⟨first, hle, hstart, hno⟩ := ih
      refine ⟨first, by omega, hstart, fun j h1 h2 => ?_⟩
      by_cases hj : j = i
      · rw [hj]
        exact hp
      · exact hno j h1 (by omega)

theorem exists_lineEnd (p : Nat → Prop) (n k : Nat) : ∃ last, n ≤ last ∧ last ≤ n + k ∧
    (last = n + k ∨ p last) ∧ ∀ j, n ≤ j → j < last → ¬ p j := by
  induction k generalizing n with
  | zero => exact ⟨n, Nat.le_refl n, Nat.le_refl n, Or.inl rfl, by omega⟩
  | succ k ih =>
    by_cases hp : p n
    · exact ⟨n, Nat.le_refl n, by omega, Or.inr hp, by omega⟩
    · obtain ⟨last, hle, hle', hend, hno⟩ := ih (n + 1)
      refine ⟨last, by omega, by omega, ?_, fun j h1 h2 => ?_⟩
      · rcases hend with h | h
        · exact Or.inl (by omega)
        · exact Or.inr h
      · by_cases hj : j = n
        · rw [hj]
          exact hp
        · exact hno j (by omega) h2

theorem exists_isLine (source : List Char) (tokens : List Token) {i : Nat} (hi : i ≤ source.length) :
    ∃ first last, IsLine source tokens first last ∧ first ≤ i ∧ i ≤ last := by
  obtain ⟨first, hfirst, hstart, hno⟩ := exists_lineStart (IsBreak source tokens) i
  obtain ⟨last, hlast, -, hend, hno'⟩ := exists_lineEnd (IsBreak source tokens) i (source.length - i)
  rw [Nat.add_sub_cancel' hi] at hend
  refine ⟨first, last, ⟨by omega, hstart, hend, fun j h1 h2 => ?_⟩, hfirst, hlast⟩
  by_cases hj : j < i
  · exact hno j h1 hj
  · exact hno' j (by omega) h2

theorem IsLine.le_of_mem {source : List Char} {tokens : List Token} {first last first' last' i : Nat}
    (h : IsLine source tokens first last) (h' : IsLine source tokens first' last')
    (hi : first ≤ i ∧ i ≤ last) (hi' : first' ≤ i ∧ i ≤ last') : first' ≤ first ∧ last ≤ last' := by
  constructor
  · rcases h'.starts with h0 | ⟨j, hj, hb⟩
    · omega
    · rcases Nat.lt_or_ge first first' with hlt | hge
      · exact absurd hb (h.unbroken j (by omega) (by omega))
      · exact hge
  · rcases h'.ends with hend | hb
    · rcases h.ends with hend' | hb'
      · omega
      · have hlt := (List.getElem?_eq_some_iff.mp hb'.1).1
        omega
    · rcases Nat.lt_or_ge last' last with hlt | hge
      · exact absurd hb (h.unbroken last' (by omega) hlt)
      · exact hge

theorem IsLine.unique {source : List Char} {tokens : List Token} {first last first' last' i : Nat}
    (h : IsLine source tokens first last) (h' : IsLine source tokens first' last')
    (hi : first ≤ i ∧ i ≤ last) (hi' : first' ≤ i ∧ i ≤ last') : first' = first ∧ last' = last := by
  have h1 := h.le_of_mem h' hi hi'
  have h2 := h'.le_of_mem h hi' hi
  omega

namespace Settled

variable {source : List Char} {raw tokens xs line ys : List Token} {first : Nat}

theorem exists_isLine_of_split (hs : Settled source raw tokens) (hraw : raw = xs ++ (line ++ ys))
    (hbefore : Tiles 0 xs first) (hxs : xs = [] ∨ ∃ xs' nl, xs = xs' ++ [nl] ∧ nl.kind = .newline)
    (hys : ys = [] ∨ ∃ nl ys', ys = nl :: ys' ∧ nl.kind = .newline)
    (hno : ∀ u ∈ line, u.kind ≠ .newline) :
    ∃ last, IsLine source tokens first last ∧ Tiles first line last ∧
      ∀ t, standaloneTag? line = some t ↔ StandsAlone source tokens first last t := by
  have htiles := hs.tiles
  rw [hraw] at htiles
  obtain ⟨first', hbefore', hrest⟩ := Tiles.append_iff.mp htiles
  rw [hbefore'.unique hbefore] at hrest
  obtain ⟨last, hline, hafter⟩ := Tiles.append_iff.mp hrest
  have hbreak : ∀ nl ∈ raw, nl.kind = .newline → IsBreak source tokens nl.start :=
    fun nl hnl hk => hs.isBreak_iff.mpr ⟨nl, hnl, hk, rfl⟩
  have hl : IsLine source tokens first last := by
    refine ⟨hline.le, ?_, ?_, ?_⟩
    · rcases hxs with rfl | ⟨xs', nl, rfl, hk⟩
      · exact Or.inl hbefore.symm
      · have hnl : nl ∈ raw := by
          rw [hraw]
          simp
        obtain ⟨d, -, -, -, hstop⟩ := Tiles.append_iff.mp hbefore
        have hstop' : nl.stop = first := hstop
        refine Or.inr ⟨nl.start, ?_, hbreak nl hnl hk⟩
        rw [← hstop', (hs.newline_spec hnl hk).1]
    · rcases hys with rfl | ⟨nl, ys', rfl, hk⟩
      · exact Or.inl hafter
      · have hnl : nl ∈ raw := by
          rw [hraw]
          simp
        right
        rw [← hafter.1]
        exact hbreak nl hnl hk
    · intro i h1 h2 hb
      obtain ⟨nl, hnl, hk, hstart⟩ := hs.isBreak_iff.mp hb
      obtain ⟨u, hu, hspan⟩ := hline.exists_mem h1 h2
      have hlt := (hs.tiles.bounds hnl).2.1
      have huraw : u ∈ raw := by
        rw [hraw]
        exact List.mem_append_right _ (List.mem_append_left _ hu)
      have heq := hs.tiles.eq_of_overlap huraw hnl hspan ⟨by omega, by omega⟩
      exact hno u hu (heq ▸ hk)
  refine ⟨last, hl, hline, ?_⟩
  obtain ⟨line', newline, -, -, hrange, -, -, -, hiff⟩ := hs.line_spec hl
  have hsame : line' = line := by
    rw [← hrange, hraw]
    exact Tiles.filter_eq hbefore hline hafter
  rw [hsame] at hiff
  exact hiff

end Settled
end Mustache
