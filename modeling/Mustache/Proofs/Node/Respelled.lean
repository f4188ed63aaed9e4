import Mathlib.Control.Monad.Basic
import Mustache.Proofs.Node.Moved
import Mustache.Proofs.Token.Respelled

/-! # The tree of a template in other delimiters

A template without delimiter tags has the same tree in every spelling, but for the offsets of its sections
and the delimiters of their tags.
-/
namespace Mustache

namespace Node

mutual

/-- A node without the offsets of its sections and the delimiters of their tags. -/
def unspelledOne : Node → Node
  | text s => text s
  | interpolation name escape => interpolation name escape
  | sectionBlock name _ _ _ children => sectionBlock name 0 0 .standard (unspelled children)
  | invertedBlock name children => invertedBlock name (unspelled children)
  | partialTag name indent => partialTag name indent
  | comment => comment
  | foreign kind shown => foreign kind shown

def unspelled : List Node → List Node
  | [] => []
  | n :: ns => unspelledOne n :: unspelled ns

end

theorem unspelled_eq_map (ns : List Node) : unspelled ns = ns.map unspelledOne := by
  induction ns with
  | nil => rfl
  | cons n ns ih => rw [unspelled, ih, List.map_cons]

end Node

theorem TreeBuilder.carries_unspelled : Carries Token.unspelled Node.unspelledOne 0 where
  kind_eq _ := rfl
  value_eq _ := rfl
  line_eq _ := rfl
  leaf?_eq t := by
    have hkind : t.unspelled.kind = t.kind := rfl
    unfold Token.leaf?
    rw [hkind]
    cases t.kind <;> rfl
  closeSection_eq s t := by
    rw [← Node.unspelled_eq_map]
    by_cases h : s.tag.kind = .invertedStart
    · simp [closeSection, Token.unspelled, h, Node.unspelledOne]
    · simp [closeSection, Token.unspelled, h, Node.unspelledOne]

theorem Node.ofTokens_unspelled (ts : List Token) :
    Node.ofTokens (ts.map Token.unspelled) = (Node.ofTokens ts).map Node.unspelled := by
  have hunspelled : Node.unspelled = List.map Node.unspelledOne := funext Node.unspelled_eq_map
  rw [hunspelled, TreeBuilder.carries_unspelled.ofTokens]
  cases Node.ofTokens ts with
  | error e => simp [Except.map, Except.mapError]
  | ok ns => rfl

/-- Templates do not depend on the delimiters they are written with. A template without delimiter tags,
written with other delimiters that share no character with it and read under these, has the same tokens but
for their places, and the same tree but for the offsets of its sections and the delimiters of their tags. -/
theorem parse_respelled {source : String} {tokens : List Token} {d : Delimiters}
    (h : scan source = .ok tokens) (hk : ∀ t ∈ tokens, t.kind ≠ .delimiterTag) (hwf : d.WellFormed)
    (hfresh : d.Fresh source.toList) :
    (∃ tokens', (Cursor.startUnder d (respelled source d).toList).scan = .ok tokens' ∧
      tokens'.map Token.unspelled = tokens.map Token.unspelled) ∧
    (parseUnder d (respelled source d)).map Node.unspelled = (parse source).map Node.unspelled := by
  obtain ⟨tokens', hscan, halike⟩ := scan_respelled h hk hwf hfresh
  refine ⟨⟨tokens', hscan, halike⟩, ?_⟩
  have htree : (Node.ofTokens tokens').map Node.unspelled = (Node.ofTokens tokens).map Node.unspelled := by
    rw [← Node.ofTokens_unspelled, ← Node.ofTokens_unspelled, halike]
  rw [parseUnder, hscan, parse, h]
  exact htree

def braced : String := "\x7b\x7b# a \x7d\x7d\n\x7b\x7b\x7bb\x7d\x7d\x7d\x7d<\x7b\x7b!\x7d\x7d\n\x7b\x7b/a\x7d\x7d"

def barred : String := "|# a |\n|\x7bb\x7d|\x7d<|!|\n|/a|"

/-- The same bar on both sides of each tag, with a brace where a tag ends. -/
theorem parse_respelled_bars :
    respelled braced ⟨"|", "|"⟩ = barred ∧
    (∃ tokens', (Cursor.startUnder ⟨"|", "|"⟩ barred.toList).scan = .ok tokens' ∧
      tokens'.map Token.unspelled = [⟨.sectionStart, "a", 1, 0, 0, .standard, ""⟩,
        ⟨.unescaped, "b", 2, 0, 0, .standard, ""⟩, ⟨.text, "\x7d<", 2, 0, 0, .standard, ""⟩,
        ⟨.comment, "", 2, 0, 0, .standard, ""⟩, ⟨.newline, "\n", 2, 0, 0, .standard, ""⟩,
        ⟨.sectionEnd, "a", 3, 0, 0, .standard, ""⟩]) ∧
    (parseUnder ⟨"|", "|"⟩ barred).map Node.unspelled =
      .ok [.sectionBlock "a" 0 0 .standard
        [.interpolation "b" false, .text "\x7d<", .comment, .text "\n"]] := by
  have hscan : scan braced =
      .ok [⟨.sectionStart, "a", 1, 0, 8, .standard, ""⟩, ⟨.unescaped, "b", 2, 9, 16, .standard, ""⟩,
        ⟨.text, "\x7d<", 2, 16, 18, .standard, ""⟩, ⟨.comment, "", 2, 18, 23, .standard, ""⟩,
        ⟨.newline, "\n", 2, 23, 24, .standard, ""⟩, ⟨.sectionEnd, "a", 3, 24, 30, .standard, ""⟩] := by
    decide +kernel
  have hspelled : respelled braced ⟨"|", "|"⟩ = barred := by
    decide +kernel
  obtain ⟨htokens, htree⟩ := @parse_respelled _ _ ⟨"|", "|"⟩ hscan (by decide)
    (by simp [Delimiters.WellFormed, Delimiters.IsDelimiter, Text.isBlank]) (by decide +kernel)
  rw [hspelled] at htokens htree
  refine ⟨hspelled, htokens, ?_⟩
  rw [htree, parse, hscan]
  rfl

end Mustache
