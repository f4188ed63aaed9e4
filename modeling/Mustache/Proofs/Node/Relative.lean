import Mustache.Proofs.Node.Moved
import Mustache.Proofs.Token.Piece

/-! # Children by their raw body

The children of a section are those that its raw body has under the section's delimiters, moved to where
the body stands. So sections of any texts with the same raw body under the same delimiters have the same
children, relative to where their bodies start, if their tags stand alone or not alike.
-/
namespace Mustache

namespace Node

mutual

/-- A node with the offsets of its sections taken from a place. -/
def relativeOne (base : Int) : Node → Node
  | text s => text s
  | interpolation name escape => interpolation name escape
  | sectionBlock name start stop delimiters children =>
    sectionBlock name (start - base) (stop - base) delimiters (relativeTo base children)
  | invertedBlock name children => invertedBlock name (relativeTo base children)
  | partialTag name indent => partialTag name indent
  | comment => comment
  | foreign kind shown => foreign kind shown

def relativeTo (base : Int) : List Node → List Node
  | [] => []
  | n :: ns => relativeOne base n :: relativeTo base ns

end

mutual

theorem relativeOne_movedOne (k : Nat) : ∀ n : Node, relativeOne k (movedOne k n) = n
  | text _ | interpolation _ _ | partialTag _ _ | comment | foreign _ _ => rfl
  | sectionBlock name start stop delimiters children => by
    rw [movedOne, relativeOne, relativeTo_moved k children, Int.add_sub_cancel, Int.add_sub_cancel]
  | invertedBlock name children => by
    rw [movedOne, relativeOne, relativeTo_moved k children]

theorem relativeTo_moved (k : Nat) : ∀ ns : List Node, relativeTo k (moved k ns) = ns
  | [] => rfl
  | n :: ns => by
    rw [moved, relativeTo, relativeOne_movedOne k n, relativeTo_moved k ns]

end

end Node

theorem Forest.exists_of_map_moved {k l : Nat} {ts : List Token} {ns : List Node}
    (h : Forest (ts.map (Token.moved k l)) ns) : ∃ ms, Forest ts ms ∧ ns = Node.moved k ms := by
  have hmoved := ofTokens_eq_ok_iff.mpr h
  rw [Node.ofTokens_moved] at hmoved
  cases hts : Node.ofTokens ts with
  | error e =>
    rw [hts] at hmoved
    cases hmoved
  | ok ms =>
    rw [hts] at hmoved
    exact ⟨ms, ofTokens_eq_ok_iff.mp hts, (Except.ok.inj hmoved).symm⟩

section Sections

variable {source source' : String} {tokens tokens' : List Token} {tree tree' : List Node}
  {name name' : String} {start stop start' stop' : Int} {delimiters : Delimiters}
  {children children' : List Node}

/-- The children of a section relative to its body, from its raw body alone. -/
theorem exists_relative_forest (hscan : scan source = .ok tokens) (htree : Node.ofTokens tokens = .ok tree)
    (hmem : Node.sectionBlock name start stop delimiters children ∈ Node.subnodes tree) :
    ∃ us opened closed,
      (Cursor.ofPiece delimiters (Text.slice source.toList start stop)).tokens = .ok us ∧
      Forest (settledBody opened closed us) (Node.relativeTo start children) ∧
      (opened = true ↔ OpensAlone source.toList tokens start) ∧
      (closed = true ↔ ClosesAlone source.toList tokens stop ∧ lineAfter [] us ≠ []) := by
  obtain ⟨raw, hread, hs⟩ := settled_of_scan hscan
  obtain ⟨pre, o, body, c, post, htokens, ho, hc, rfl, rfl, rfl, hbody⟩ :=
    (ofTokens_eq_ok_iff.mp htree).exists_section hmem
  obtain ⟨us, l, opened, closed, hus, rfl, hopen, hclose⟩ := hs.exists_body_moved hread htokens ho hc
  obtain ⟨ms, hms, rfl⟩ := hbody.exists_of_map_moved
  rw [Node.relativeTo_moved]
  exact ⟨us, opened, closed, hus, hms, hopen, hclose⟩

/-- Sections with the same delimiters and the same raw body, in one text or in two, have the same children
relative to their bodies, if both opening tags stand alone or neither does, and so for the closing tags. -/
theorem relative_children_eq (hscan : scan source = .ok tokens) (htree : Node.ofTokens tokens = .ok tree)
    (hscan' : scan source' = .ok tokens') (htree' : Node.ofTokens tokens' = .ok tree')
    (hmem : Node.sectionBlock name start stop delimiters children ∈ Node.subnodes tree)
    (hmem' : Node.sectionBlock name' start' stop' delimiters children' ∈ Node.subnodes tree')
    (hslice : Text.slice source.toList start stop = Text.slice source'.toList start' stop')
    (hopening : OpensAlone source.toList tokens start ↔ OpensAlone source'.toList tokens' start')
    (hclosing : ClosesAlone source.toList tokens stop ↔ ClosesAlone source'.toList tokens' stop') :
    Node.relativeTo start children = Node.relativeTo start' children' := by
  obtain ⟨us, opened, closed, hus, hforest, hopen, hclose⟩ := exists_relative_forest hscan htree hmem
  obtain ⟨us', opened', closed', hus', hforest', hopen', hclose'⟩ :=
    exists_relative_forest hscan' htree' hmem'
  rw [hslice, hus'] at hus
  cases hus
  have hsame : opened = opened' := by
    rw [Bool.eq_iff_iff, hopen, hopen', hopening]
  have hsame' : closed = closed' := by
    rw [Bool.eq_iff_iff, hclose, hclose', hclosing]
  rw [hsame, hsame'] at hforest
  exact hforest.unique hforest'

def nestedFirst : String := "{{#a}}{{#b}}x{{/b}}{{/a}}"

def nestedLater : String := "yy{{#c}}{{#b}}x{{/b}}{{/c}}"

theorem relative_children_eq_two_texts : ∃ children children',
    parse nestedFirst = .ok [.sectionBlock "a" 6 19 .standard children] ∧
    parse nestedLater = .ok [.text "yy", .sectionBlock "c" 8 21 .standard children'] ∧
    children ≠ children' ∧ Node.relativeTo 6 children = Node.relativeTo 8 children' := by
  have hscan : scan nestedFirst =
      .ok [⟨.sectionStart, "a", 1, 0, 6, .standard, ""⟩, ⟨.sectionStart, "b", 1, 6, 12, .standard, ""⟩,
        ⟨.text, "x", 1, 12, 13, .standard, ""⟩, ⟨.sectionEnd, "b", 1, 13, 19, .standard, ""⟩,
        ⟨.sectionEnd, "a", 1, 19, 25, .standard, ""⟩] := by
    decide +kernel
  have hscan' : scan nestedLater =
      .ok [⟨.text, "yy", 1, 0, 2, .standard, ""⟩, ⟨.sectionStart, "c", 1, 2, 8, .standard, ""⟩,
        ⟨.sectionStart, "b", 1, 8, 14, .standard, ""⟩, ⟨.text, "x", 1, 14, 15, .standard, ""⟩,
        ⟨.sectionEnd, "b", 1, 15, 21, .standard, ""⟩, ⟨.sectionEnd, "c", 1, 21, 27, .standard, ""⟩] := by
    decide +kernel
  obtain ⟨raw, -, hs⟩ := settled_of_scan hscan
  obtain ⟨raw', -, hs'⟩ := settled_of_scan hscan'
  have hopening := hs.not_opensAlone (show _[6]? = some '\x7b' by decide +kernel) (by decide) (by decide)
  have hopening' := hs'.not_opensAlone (show _[8]? = some '\x7b' by decide +kernel) (by decide) (by decide)
  have hclosing := hs.not_closesAlone (show _[18]? = some '\x7d' by decide +kernel) (by decide) (by decide)
  have hclosing' := hs'.not_closesAlone (show _[20]? = some '\x7d' by decide +kernel) (by decide) (by decide)
  refine ⟨[.sectionBlock "b" 12 13 .standard [.text "x"]], [.sectionBlock "b" 14 15 .standard [.text "x"]],
    ?_, ?_, by simp, ?_⟩
  · rw [parse, hscan]
    rfl
  · rw [parse, hscan']
    rfl
  · exact relative_children_eq hscan rfl hscan' rfl (.head _) (.tail _ (.head _)) (by decide +kernel)
      (iff_of_false hopening hopening') (iff_of_false hclosing hclosing')

end Sections
end Mustache
