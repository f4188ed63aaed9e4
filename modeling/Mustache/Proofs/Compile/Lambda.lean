import Mustache.Proofs.Compile.Moved
import Mustache.Proofs.Compile.Unnested

/-! # The text of a lambda

What a lambda gives is read below the line that sets the delimiters of its section. That is as good as
reading it under these delimiters from the start: the tree is moved by the length of the line and the
program is the same.
-/
namespace Mustache

namespace Engine

variable {d : Delimiters}

theorem lambdaSource_tag (hd : d ≠ .standard) (text : String) :
    lambdaSource text d.tag = d.line ++ text := by
  have hne : ¬ (d.tag.getD "").isEmpty = true := by
    intro hempty
    have hlist := congrArg String.toList (String.isEmpty_iff.mp hempty)
    simp [Delimiters.tag_of_ne hd] at hlist
  cases htag : d.tag with
  | none => simp [htag] at hne
  | some tag =>
    rw [htag, Option.getD_some] at hne
    rw [lambdaSource, if_neg hne, Delimiters.line, htag, Option.getD_some]

def lambdaName (text : String) (delimiters : Option String) : String :=
  "lambda:" ++ shortDigest (lambdaSource text delimiters)

/-- The program of a lambda's text is that of its tree under the delimiters of the section; an error in
the text is on a line further down. -/
theorem loadLambda_eq (hwf : d.WellFormed) (hd : d ≠ .standard) (text : String) :
    loadLambda text d.tag = match parseUnder d text with
      | .error e => ([], .error (.malformed (e.lowered 1)))
      | .ok tree => match compile text tree (lambdaName text d.tag) with
        | .error e => ([], .error (.uncompilable e))
        | .ok (program, events) => (events, .ok program) := by
  have hname : lambdaName text d.tag ≠ "" := by simp [lambdaName]
  have hload : loadLambda text d.tag =
      compileText (d.line ++ text) (some (lambdaName text d.tag)) := by
    rw [← lambdaSource_tag hd]
    rfl
  have hparse := parse_delimiterLine hwf hd text
  rw [hload, compileText_named _ hname]
  cases hunder : parseUnder d text with
  | error e =>
    rw [hunder] at hparse
    have herror : parse (d.line ++ text) = .error (e.lowered 1) := hparse
    simp only [herror]
  | ok tree =>
    rw [hunder] at hparse
    have htree : parse (d.line ++ text) = .ok (Node.moved d.line.length tree) := hparse
    have hmoved := compile_moved d.line text (lambdaName text d.tag) (placed_of_parseUnder hunder)
    cases hc : compile text tree (lambdaName text d.tag) with
    | error e => simp only [htree, hmoved, hc]
    | ok found => simp only [htree, hmoved, hc]

theorem loadLambda_eq_ok_iff (hwf : d.WellFormed) (hd : d ≠ .standard) (text : String)
    (events : List Event) (p : Program) : loadLambda text d.tag = (events, .ok p) ↔
      ∃ tree, parseUnder d text = .ok tree ∧
        compile text tree (lambdaName text d.tag) = .ok (p, events) := by
  rw [loadLambda_eq hwf hd]
  cases hunder : parseUnder d text with
  | error e => simp
  | ok tree =>
    cases hcompile : compile text tree (lambdaName text d.tag) with
    | error e => simp [hcompile]
    | ok found =>
      obtain ⟨p', events'⟩ := found
      simp [hcompile, and_comm, eq_comm]

theorem exists_loadLambda (hwf : d.WellFormed) (hd : d ≠ .standard) {text : String} {tree : List Node}
    (htree : parseUnder d text = .ok tree) (hdigests : DigestsApart text.toList tree) :
    ∃ events p, loadLambda text d.tag = (events, .ok p) := by
  have hplaced := placed_of_parseUnder htree
  have hparse := parse_delimiterLine hwf hd text
  rw [htree] at hparse
  have hdigests' := @DigestsApart.moved d.line.toList text.toList tree hplaced hdigests
  rw [← String.toList_append, String.length_toList] at hdigests'
  obtain ⟨p, events, hcompile⟩ := exists_compile_of_parse (lambdaName text d.tag) hparse hdigests'
  rw [compile_moved _ _ _ hplaced] at hcompile
  exact ⟨events, p, (loadLambda_eq_ok_iff hwf hd text events p).mpr ⟨tree, htree, hcompile⟩⟩

/-- A lambda's text is read under the delimiters of its section and nothing else changes. Let the
delimiters be those of a tag of some template, other than the standard ones. -/
theorem loadLambda_exact {source : String} {tokens : List Token} {t : Token}
    (hscan : scan source = .ok tokens) (ht : t ∈ tokens) (htag : t.kind.isTag = true)
    (hd : t.delimiters ≠ .standard) (text : String) :
    (∀ events p, loadLambda text t.delimiters.tag = (events, .ok p) ↔
      ∃ tree, parseUnder t.delimiters text = .ok tree ∧
        compile text tree (lambdaName text t.delimiters.tag) = .ok (p, events)) ∧
    ∀ tree, parseUnder t.delimiters text = .ok tree →
      parse (lambdaSource text t.delimiters.tag) = .ok (Node.moved t.delimiters.line.length tree) ∧
      (DigestsApart text.toList tree →
        ∃ events p, loadLambda text t.delimiters.tag = (events, .ok p)) := by
  have hwf := Settled.wellFormed_of_scan hscan ht htag
  refine ⟨loadLambda_eq_ok_iff hwf hd text, fun tree htree => ⟨?_, exists_loadLambda hwf hd htree⟩⟩
  rw [lambdaSource_tag hd, parse_delimiterLine hwf hd, htree]
  rfl

theorem loadLambda_exact_section : ∃ events p,
    loadLambda "<%#b%>y<%/b%>" (Delimiters.tag ⟨"<%", "%>"⟩) = (events, .ok p) ∧
    parse (lambdaSource "<%#b%>y<%/b%>" (Delimiters.tag ⟨"<%", "%>"⟩)) =
      .ok [.sectionBlock "b" 20 21 ⟨"<%", "%>"⟩ [.text "y"]] := by
  have hscan : scan "{{=<% %>=}}<%#a%>x<%/a%>" =
      .ok [⟨.delimiterTag, "<% %>", 1, 0, 11, .standard, ""⟩,
        ⟨.sectionStart, "a", 1, 11, 17, ⟨"<%", "%>"⟩, ""⟩, ⟨.text, "x", 1, 17, 18, .standard, ""⟩,
        ⟨.sectionEnd, "a", 1, 18, 24, ⟨"<%", "%>"⟩, ""⟩] := by
    decide +kernel
  have htree : parseUnder ⟨"<%", "%>"⟩ "<%#b%>y<%/b%>" =
      .ok [.sectionBlock "b" 6 7 ⟨"<%", "%>"⟩ [.text "y"]] := by
    have hunder : (Cursor.startUnder ⟨"<%", "%>"⟩ "<%#b%>y<%/b%>".toList).scan =
        .ok [⟨.sectionStart, "b", 1, 0, 6, ⟨"<%", "%>"⟩, ""⟩, ⟨.text, "y", 1, 6, 7, .standard, ""⟩,
          ⟨.sectionEnd, "b", 1, 7, 13, ⟨"<%", "%>"⟩, ""⟩] := by
      decide +kernel
    rw [parseUnder, hunder]
    rfl
  have hdigests : DigestsApart "<%#b%>y<%/b%>".toList
      [.sectionBlock "b" 6 7 ⟨"<%", "%>"⟩ [.text "y"]] := by
    intro name start stop delimiters children name' start' stop' delimiters' children' h h' _
    simp only [Node.subnodes, Node.subnodesOne, List.cons_append, List.nil_append, List.mem_cons,
      Node.sectionBlock.injEq, List.not_mem_nil, reduceCtorEq, or_false] at h h'
    obtain ⟨-, rfl, rfl, rfl, -⟩ := h
    obtain ⟨-, rfl, rfl, rfl, -⟩ := h'
    rfl
  obtain ⟨-, hparsed⟩ := loadLambda_exact (t := ⟨.sectionStart, "a", 1, 11, 17, ⟨"<%", "%>"⟩, ""⟩) hscan
    (by simp) rfl (by decide) "<%#b%>y<%/b%>"
  obtain ⟨hparse, hload⟩ := hparsed _ htree
  obtain ⟨events, p, hp⟩ := hload hdigests
  exact ⟨events, p, hp, hparse⟩

end Engine
end Mustache
