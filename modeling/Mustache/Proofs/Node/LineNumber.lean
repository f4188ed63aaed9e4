import Mustache.Proofs.Node.Balanced
import Mustache.Proofs.Token.LineNumber

/-! # Lines of tokens and errors

The line of a token and the line of an error are those of a place in the template: of the start of the
token, and of the tag at fault. `FaultAt` finds that tag without the builder: it is the first one that
cannot be read, else the first closing tag that is misplaced, else the innermost section left open.
-/
namespace Mustache

/-- The tag at a place of a template is at fault. -/
inductive FaultAt (source : String) : Nat → SyntaxFault → Prop
  | unreadable {ts : List Token} {s : Cursor} {fault : SyntaxFault} :
      (Cursor.start source.toList).Reads ts s → s.Unreadable fault → FaultAt source s.offset fault
  | unexpected {before after : List Token} {c : Token} :
      scan source = .ok (before ++ c :: after) → WellPlaced before → c.kind = .sectionEnd →
      Balanced before → FaultAt source c.start (.unexpectedClose c.value)
  | mismatched {before after : List Token} {o c : Token} :
      scan source = .ok (before ++ c :: after) → WellPlaced before → c.kind = .sectionEnd →
      InnermostOpen before o → o.value ≠ c.value →
      FaultAt source c.start (.mismatchedClose o.value (Text.lineAt source.toList o.start) c.value)
  | unclosed {tokens : List Token} {o : Token} :
      scan source = .ok tokens → WellPlaced tokens → InnermostOpen tokens o →
      FaultAt source o.start (.unclosedSection o.value)

variable {source : String} {tokens : List Token} {t : Token} {e : SyntaxError} {place : Nat}
  {fault : SyntaxFault}

theorem InnermostOpen.mem {o : Token} (h : InnermostOpen tokens o) : o ∈ tokens := by
  obtain ⟨before, after, rfl, -, -⟩ := h
  simp

theorem line_of_scan (h : scan source = .ok tokens) (ht : t ∈ tokens) :
    t.line = Text.lineAt source.toList t.start := by
  obtain ⟨raw, hraw, hs⟩ := settled_of_scan h
  obtain ⟨s', hreads, -⟩ := Cursor.reads_of_tokens hraw
  obtain ⟨u, hu, hb⟩ := hs.exists_raw ht
  have hline : t.bare.line = u.bare.line := by rw [hb]
  have hstart : t.bare.start = u.bare.start := by rw [hb]
  have hraw_line := hreads.line_of_mem Delimiters.wellFormed_standard (.start source.toList) hu
  exact hline.trans (hraw_line.trans (congrArg (Text.lineAt source.toList) hstart.symm))

theorem scan_eq_error_iff : scan source = .error e ↔ ∃ ts s fault,
    (Cursor.start source.toList).Reads ts s ∧ s.Unreadable fault ∧
      e = ⟨fault, some (Text.lineAt source.toList s.offset : Int)⟩ := by
  have hwf : (Cursor.start source.toList).delimiters.WellFormed := Delimiters.wellFormed_standard
  rw [scan, Cursor.scan_eq_error_iff hwf]
  constructor
  · rintro ⟨ts, s, fault, hreads, hfault, rfl⟩
    exact ⟨ts, s, fault, hreads, hfault, by rw [(hreads.counts hwf (.start _)).line_eq]⟩
  · rintro ⟨ts, s, fault, hreads, hfault, rfl⟩
    exact ⟨ts, s, fault, hreads, hfault, by rw [(hreads.counts hwf (.start _)).line_eq]⟩

theorem parse_of_scan (h : scan source = .ok tokens) : parse source = Node.ofTokens tokens := by
  rw [parse, h]
  rfl

theorem FaultAt.parse_eq_error (h : FaultAt source place fault) :
    parse source = .error ⟨fault, some (Text.lineAt source.toList place : Int)⟩ := by
  cases h with
  | unreadable hreads hfault =>
    rw [parse, scan_eq_error_iff.mpr ⟨_, _, _, hreads, hfault, rfl⟩]
    rfl
  | @unexpected before after c hscan hplaced hend hbal =>
    have hline : c.line = _ := line_of_scan hscan (by simp)
    rw [parse_of_scan hscan, ofTokens_eq_error_iff, ← hline]
    exact .misplaced rfl hplaced (.unexpected hend hbal)
  | @mismatched before after o c hscan hplaced hend ho hv =>
    have hline : c.line = _ := line_of_scan hscan (by simp)
    have hopened := line_of_scan hscan (List.mem_append_left _ ho.mem)
    rw [parse_of_scan hscan, ofTokens_eq_error_iff, ← hline, ← hopened]
    exact .misplaced rfl hplaced (.mismatched hend ho hv)
  | @unclosed tokens o hscan hplaced ho =>
    rw [parse_of_scan hscan, ofTokens_eq_error_iff, ← line_of_scan hscan ho.mem]
    exact .unclosed hplaced ho

theorem exists_faultAt (h : parse source = .error e) :
    ∃ place, FaultAt source place e.fault ∧ e.line = some (Text.lineAt source.toList place : Int) := by
  cases hscan : scan source with
  | error e' =>
    rw [parse, hscan] at h
    cases h
    obtain ⟨ts, s, fault, hreads, hfault, rfl⟩ := scan_eq_error_iff.mp hscan
    exact ⟨s.offset, .unreadable hreads hfault, rfl⟩
  | ok tokens =>
    rw [parse_of_scan hscan, ofTokens_eq_error_iff] at h
    cases h with
    | unclosed hplaced ho =>
      exact ⟨_, .unclosed hscan hplaced ho, by rw [line_of_scan hscan ho.mem]⟩
    | @misplaced before after c _ hts hplaced hc =>
      subst hts
      have hline : c.line = _ := line_of_scan hscan (by simp)
      cases hc with
      | unexpected hend hbal =>
        exact ⟨_, .unexpected hscan hplaced hend hbal, by rw [hline]⟩
      | mismatched hend ho hv =>
        rw [line_of_scan hscan (List.mem_append_left _ ho.mem)]
        exact ⟨_, .mismatched hscan hplaced hend ho hv, by rw [hline]⟩

/-- Line numbers are exact. A token is on the line of its first character, and a template is refused
exactly if a tag in it is at fault; the error is on the line of that tag. -/
theorem lines_exact (source : String) :
    (∀ tokens, scan source = .ok tokens → ∀ t ∈ tokens, t.line = Text.lineAt source.toList t.start) ∧
    ∀ e, parse source = .error e ↔
      ∃ place, FaultAt source place e.fault ∧ e.line = some (Text.lineAt source.toList place : Int) := by
  constructor
  · intro tokens h t ht
    exact line_of_scan h ht
  intro e
  constructor
  · exact exists_faultAt
  · rintro ⟨place, hfault, hline⟩
    rw [hfault.parse_eq_error, ← hline]

theorem lines_exact_after_comment : ∃ source, (∃ tokens, scan source = .ok tokens ∧
      tokens.map (fun t => Text.lineAt source.toList t.start) = [1, 3, 4]) ∧
    ∃ place, FaultAt source place (.mismatchedClose "b" 3 "c") ∧ Text.lineAt source.toList place = 4 := by
  let source := "\x7b\x7b!\n\x7d\x7d\n\x7b\x7b#b\x7d\x7d\n\x7b\x7b/c\x7d\x7d"
  let tokens : List Token := [⟨.comment, "", 1, 0, 6, .standard, ""⟩,
    ⟨.sectionStart, "b", 3, 7, 13, .standard, ""⟩, ⟨.sectionEnd, "c", 4, 14, 20, .standard, ""⟩]
  have hscan : scan source = .ok tokens := by decide +kernel
  obtain ⟨htokens, herrors⟩ := lines_exact source
  have hlines : tokens.map (fun t => Text.lineAt source.toList t.start) = tokens.map Token.line :=
    List.map_congr_left fun t ht => (htokens tokens hscan t ht).symm
  have hparse : parse source = .error ⟨.mismatchedClose "b" 3 "c", some 4⟩ := by
    rw [parse_of_scan hscan]
    rfl
  obtain ⟨place, hfault, hline⟩ := (herrors _).mp hparse
  have hfour : (4 : Int) = Text.lineAt source.toList place := Option.some.inj hline
  exact ⟨source, ⟨tokens, hscan, hlines⟩, place, hfault, by omega⟩

end Mustache
