import Mathlib.Control.Monad.Basic
import Mustache.Proofs.Token.LogicalLine

/-! # What the tokens of a template cover

Every line of a template that exists for one tag alone comes down to that tag, and every other line is
covered by its tokens from its first place to its break.
-/
namespace Mustache

/-- The tokens lose nothing of a template but the lines that exist for a tag alone. -/
structure Covers (source : List Char) (tokens : List Token) : Prop where
  increasing : tokens.Pairwise fun t u => t.stop ≤ u.start
  written : ∀ t ∈ tokens, t.WrittenIn source (delimitersAt tokens t.start)
  inLine : ∀ t ∈ tokens, ∃ first last, IsLine source tokens first last ∧
    first ≤ t.start ∧ t.start ≤ last ∧ t.stop ≤ last + 1
  /-- A line that exists for a tag contributes that tag; a partial's keeps the text before it. -/
  alone : ∀ first last t, IsLine source tokens first last → StandsAlone source tokens first last t →
    tokens.filter (fun u => decide (first ≤ u.start ∧ u.start ≤ last)) = [t] ∧
      (t.kind = .partialTag → t.indent.toList = Text.slice source first t.start)
  /-- Any other line is covered by its tokens, and so is its break. -/
  covered : ∀ first last, IsLine source tokens first last →
    (¬ ∃ t, StandsAlone source tokens first last t) →
    ∀ i, first ≤ i → i ≤ last → i < source.length →
      ∃ t ∈ tokens, first ≤ t.start ∧ t.start ≤ i ∧ i < t.stop ∧ t.stop ≤ last + 1
  indent : ∀ t ∈ tokens, t.indent ≠ "" → t.kind = .partialTag ∧
    ∃ first last, IsLine source tokens first last ∧ StandsAlone source tokens first last t

namespace Settled

variable {source : List Char} {raw tokens : List Token} {first last : Nat} {t : Token}

theorem writtenIn (hs : Settled source raw tokens) (ht : t ∈ tokens) :
    t.WrittenIn source (delimitersAt tokens t.start) := by
  obtain ⟨u, hu, hb⟩ := hs.exists_raw ht
  obtain ⟨-, -, hstart, -, -⟩ := Token.bare_congr hb
  rw [delimitersAt_congr t.start hs.tags_eq, hstart]
  exact (hs.written u hu).2.congr hb

theorem exists_isLine_of_mem (hs : Settled source raw tokens) (ht : t ∈ tokens) :
    ∃ first last, IsLine source tokens first last ∧ first ≤ t.start ∧ t.start ≤ last := by
  obtain ⟨u, hu, hb⟩ := hs.exists_raw ht
  obtain ⟨-, -, hstart, -, -⟩ := Token.bare_congr hb
  have hbounds := hs.tiles.bounds hu
  exact exists_isLine source tokens (by omega)

theorem stop_le (hs : Settled source raw tokens) (hl : IsLine source tokens first last)
    (ht : t ∈ tokens) (h1 : first ≤ t.start) (h2 : t.start ≤ last) : t.stop ≤ last + 1 := by
  obtain ⟨line, newline, hsub, htiles, -, hnl, -, hfilter, -⟩ := hs.line_spec hl
  have hmem : t ∈ tokens.filter (fun u => decide (first ≤ u.start ∧ u.start ≤ last)) :=
    List.mem_filter.mpr ⟨ht, decide_eq_true ⟨h1, h2⟩⟩
  rw [hfilter] at hmem
  obtain ⟨u, hu, hb⟩ := mem_of_mem_settleLine hmem
  obtain ⟨-, -, -, hstop, -⟩ := Token.bare_congr hb
  rcases List.mem_append.mp hu with hu' | hu'
  · have hbounds := htiles.bounds hu'
    omega
  · obtain ⟨hk, hstart⟩ := hnl u (Option.mem_toList.mp hu')
    have hone := (hs.newline_spec (hsub hu) hk).1
    omega

theorem alone_spec (hs : Settled source raw tokens) (hl : IsLine source tokens first last)
    (ht : StandsAlone source tokens first last t) :
    tokens.filter (fun u => decide (first ≤ u.start ∧ u.start ≤ last)) = [t] ∧
      (t.kind = .partialTag → t.indent.toList = Text.slice source first t.start) := by
  obtain ⟨line, newline, hsub, htiles, -, -, -, hfilter, hiff⟩ := hs.line_spec hl
  have hst := (hiff t).mpr ht
  refine ⟨by rw [hfilter, settleLine, hst], fun hk => ?_⟩
  obtain ⟨before, tag, after, rfl, -, htext, rfl⟩ := standaloneTag?_eq_some_iff.mp hst
  obtain ⟨b, hbefore, hstart, -⟩ := Tiles.append_iff.mp htiles
  rw [Token.kind_settledAfter] at hk
  have hvalues := hs.join_values
    (fun u hu => hsub (List.mem_append_left _ (List.mem_append_left _ hu))) hbefore
    (fun u hu => (htext u (List.mem_append_left _ hu)).1)
  rw [Token.settledAfter, if_pos hk, hstart]
  exact hvalues

theorem exists_span (hs : Settled source raw tokens) (hl : IsLine source tokens first last)
    (hnot : ¬ ∃ t, StandsAlone source tokens first last t) {i : Nat} (h1 : first ≤ i)
    (h2 : i ≤ last) (hi : i < source.length) :
    ∃ t ∈ tokens, first ≤ t.start ∧ t.start ≤ i ∧ i < t.stop ∧ t.stop ≤ last + 1 := by
  obtain ⟨line, newline, hsub, htiles, -, hnl, hend, hfilter, hiff⟩ := hs.line_spec hl
  have hsettle : settleLine line newline = line ++ newline.toList := by
    cases hst : standaloneTag? line with
    | some t => exact absurd ⟨t, (hiff t).mp hst⟩ hnot
    | none => rw [settleLine, hst]
  rw [hsettle] at hfilter
  have hmem : ∀ u ∈ line ++ newline.toList, u ∈ tokens := by
    intro u hu
    rw [← hfilter] at hu
    exact (List.mem_filter.mp hu).1
  by_cases hlt : i < last
  · obtain ⟨t, ht, hspan⟩ := htiles.exists_mem h1 hlt
    have hbounds := htiles.bounds ht
    exact ⟨t, hmem t (List.mem_append_left _ ht), hbounds.1, hspan.1, hspan.2, by omega⟩
  · cases newline with
    | none =>
      have hlast := hend rfl
      omega
    | some nl =>
      obtain ⟨hk, hstart⟩ := hnl nl rfl
      have hin : nl ∈ line ++ (some nl).toList := by simp
      have hone := (hs.newline_spec (hsub hin) hk).1
      exact ⟨nl, hmem nl hin, by omega, by omega, by omega, by omega⟩

theorem alone_of_indent (hs : Settled source raw tokens) (ht : t ∈ tokens) (hindent : t.indent ≠ "") :
    t.kind = .partialTag ∧
      ∃ first last, IsLine source tokens first last ∧ StandsAlone source tokens first last t := by
  obtain ⟨first, last, hl, h1, h2⟩ := hs.exists_isLine_of_mem ht
  obtain ⟨line, newline, hsub, -, -, -, -, hfilter, hiff⟩ := hs.line_spec hl
  have hmem : t ∈ tokens.filter (fun u => decide (first ≤ u.start ∧ u.start ≤ last)) :=
    List.mem_filter.mpr ⟨ht, decide_eq_true ⟨h1, h2⟩⟩
  rw [hfilter, settleLine] at hmem
  cases hst : standaloneTag? line with
  | none =>
    rw [hst] at hmem
    exact absurd (hs.written t (hsub hmem)).1 hindent
  | some tag =>
    rw [hst] at hmem
    have htag : t = tag := List.mem_singleton.mp hmem
    rw [← htag] at hst
    refine ⟨?_, first, last, hl, (hiff t).mp hst⟩
    obtain ⟨before, u, after, rfl, -, -, rfl⟩ := standaloneTag?_eq_some_iff.mp hst
    have hu : u ∈ (before ++ u :: after) ++ newline.toList := by simp
    rw [Token.kind_settledAfter]
    by_cases hk : u.kind = .partialTag
    · exact hk
    · rw [Token.settledAfter_of_ne hk] at hindent
      exact absurd (hs.written u (hsub hu)).1 hindent

end Settled

theorem scan_covers {source : String} {tokens : List Token} (h : scan source = .ok tokens) :
    Covers source.toList tokens := by
  obtain ⟨raw, -, hs⟩ := settled_of_scan h
  constructor
  · exact hs.pairwise_le
  · exact fun t ht => hs.writtenIn ht
  · intro t ht
    obtain ⟨first, last, hl, h1, h2⟩ := hs.exists_isLine_of_mem ht
    exact ⟨first, last, hl, h1, h2, hs.stop_le hl ht h1 h2⟩
  · exact fun first last t hl ht => hs.alone_spec hl ht
  · exact fun first last hl hnot i h1 h2 hi => hs.exists_span hl hnot h1 h2 hi
  · exact fun t ht hindent => hs.alone_of_indent ht hindent

theorem scan_covers_partial_line :
    Covers "a\n {{> p}}\r\nb".toList [⟨.text, "a", 1, 0, 1, .standard, ""⟩,
      ⟨.newline, "\n", 1, 1, 2, .standard, ""⟩, ⟨.partialTag, "p", 2, 3, 10, .standard, " "⟩,
      ⟨.text, "b", 3, 12, 13, .standard, ""⟩] :=
  scan_covers (by decide +kernel)

end Mustache
