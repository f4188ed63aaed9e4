import Mathlib.Data.List.DropRight
import Mathlib.Data.List.Forall2
import Mustache.Proofs.Compile.Pruned
import Mustache.Proofs.Compile.Source

/-! # Which instructions start a line

The compiler marks what takes the indent of its line while it walks over a tree. It does not walk over the
children of a section whose routine it has already, so a mark tells whether its place starts a line among
the nodes that are walked. `places` lists the places outside section bodies with both what stands before
them in the text and what of it is walked: the marks are those of the text exactly where the two agree.
-/
namespace Mustache

namespace Node

def isBreak : Node → Bool
  | text s => s = "\n"
  | interpolation _ _ | sectionBlock _ _ _ _ _ | invertedBlock _ _ | partialTag _ _ | comment
  | foreign _ _ => false

def isEmission : Node → Bool
  | text s => s ≠ "\n" ∧ s ≠ ""
  | interpolation _ _ => true
  | sectionBlock _ _ _ _ _ | invertedBlock _ _ | partialTag _ _ | comment | foreign _ _ => false

/-- Whether a line starts after some nodes: nothing has been put on it since the last line break. -/
def startsLine (before : List Node) : Bool :=
  (before.rtakeWhile fun n => !n.isBreak).all fun n => !n.isEmission

/-- Where a node stands: the nodes before it at all depths, and those of them that are walked. -/
structure Place where
  before : List Node
  walked : List Node
  node : Node

mutual

def placesOne (source : List Char) (keys : List String) (before walked : List Node) : Node → List Place
  | text s => if s = "" then [] else [⟨before, walked, text s⟩]
  | invertedBlock name children =>
    ⟨before, walked, invertedBlock name children⟩ ::
      places source keys (before ++ [invertedBlock name children])
        (walked ++ [invertedBlock name (pruned source keys children).1]) children
  | comment => []
  | interpolation name escape => [⟨before, walked, interpolation name escape⟩]
  | sectionBlock name start stop delimiters children =>
    [⟨before, walked, sectionBlock name start stop delimiters children⟩]
  | partialTag name indent => [⟨before, walked, partialTag name indent⟩]
  | foreign kind shown => [⟨before, walked, foreign kind shown⟩]

def places (source : List Char) (keys : List String) (before walked : List Node) : List Node → List Place
  | [] => []
  | n :: ns =>
    placesOne source keys before walked n ++
      places source (prunedOne source keys n).2 (before ++ subnodesOne n)
        (walked ++ subnodesOne (prunedOne source keys n).1) ns

end

theorem startsLine_concat (before : List Node) (n : Node) :
    startsLine (before ++ [n]) = (n.isBreak || (startsLine before && !n.isEmission)) := by
  rw [startsLine, List.rtakeWhile_concat]
  by_cases hbreak : n.isBreak = true
  · rw [if_neg (by simp [hbreak]), hbreak]
    rfl
  · rw [if_pos (by simp [hbreak]), List.all_append]
    simp [hbreak, startsLine]

theorem startsLine_concat_break (before : List Node) : startsLine (before ++ [text "\n"]) = true :=
  startsLine_concat before _

theorem startsLine_concat_emission (before : List Node) {n : Node} (h : n.isEmission = true) :
    startsLine (before ++ [n]) = false := by
  have hbreak : n.isBreak = false := by
    cases n with
    | text s =>
      rw [isEmission, decide_eq_true_iff] at h
      exact decide_eq_false h.1
    | _ => rfl
  simp [startsLine_concat, hbreak, h]

theorem startsLine_concat_still (before : List Node) {n : Node} (hbreak : n.isBreak = false)
    (hemission : n.isEmission = false) : startsLine before = startsLine (before ++ [n]) := by
  simp [startsLine_concat, hbreak, hemission]

end Node

namespace Instruction

mutual

def outsideOne : Instruction → List Instruction
  | callInverted lookup name body => callInverted lookup name body :: outside body
  | literal text indent => [literal text indent]
  | interpolate lookup name escape indent => [interpolate lookup name escape indent]
  | callSection routine lookup name inline => [callSection routine lookup name inline]
  | callPartial name indent inline => [callPartial name indent inline]

def outside : List Instruction → List Instruction
  | [] => []
  | i :: is => outsideOne i ++ outside is

end

inductive Marked (starts : Bool) : Node → Instruction → Prop
  | newline : Marked starts (.text "\n") (.literal "\n" false)
  | text {s : String} : s ≠ "\n" → s ≠ "" → Marked starts (.text s) (.literal s starts)
  | interpolation {name : String} {escape : Bool} :
      Marked starts (.interpolation name escape) (.interpolate (.ofName name) name escape starts)
  | sectionBlock {name : String} {start stop : Int} {delimiters : Delimiters} {children : List Node}
      {r : Routine Instruction} : Marked starts (.sectionBlock name start stop delimiters children)
        (.callSection r (.ofName name) name !starts)
  | invertedBlock {name : String} {children : List Node} {body : List Instruction} :
      Marked starts (.invertedBlock name children) (.callInverted (.ofName name) name body)
  | partialTag {name indent : String} :
      Marked starts (.partialTag name indent) (.callPartial name indent !starts)

end Instruction

def Node.isMarked : Node → Bool
  | text s => s ≠ "\n"
  | interpolation _ _ | sectionBlock _ _ _ _ _ | partialTag _ _ => true
  | invertedBlock _ _ | comment | foreign _ _ => false

theorem Instruction.Marked.iff {starts starts' : Bool} {n : Node} {i : Instruction}
    (h : Marked starts n i) : Marked starts' n i ↔ (n.isMarked = true → starts' = starts) := by
  constructor
  · intro h' hmarked
    cases h with
    | newline => simp [Node.isMarked] at hmarked
    | text hnl _ =>
      cases h' with
      | newline => exact absurd rfl hnl
      | text _ _ => rfl
    | interpolation =>
      cases h'
      rfl
    | sectionBlock =>
      generalize hinline : (!starts) = inline at h'
      cases h'
      exact Bool.not_inj hinline.symm
    | invertedBlock => cases hmarked
    | partialTag =>
      generalize hinline : (!starts) = inline at h'
      cases h'
      exact Bool.not_inj hinline.symm
  · intro hsame
    cases h with
    | newline => exact .newline
    | text hnl hne =>
      rw [hsame (by simp [Node.isMarked, hnl])]
      exact .text hnl hne
    | interpolation =>
      rw [hsame rfl]
      exact .interpolation
    | sectionBlock =>
      rw [hsame rfl]
      exact .sectionBlock
    | invertedBlock => exact .invertedBlock
    | partialTag =>
      rw [hsame rfl]
      exact .partialTag

theorem Instruction.forall₂_marked_iff {places : List Node.Place} {is : List Instruction}
    (h : List.Forall₂ (fun x i => Marked (Node.startsLine x.walked) x.node i) places is) :
    List.Forall₂ (fun x i => Marked (Node.startsLine x.before) x.node i) places is ↔
      ∀ x ∈ places, x.node.isMarked = true → Node.startsLine x.before = Node.startsLine x.walked := by
  induction h with
  | nil => simp
  | cons hx _ ih => rw [List.forall₂_cons, ih, hx.iff, List.forall_mem_cons]

section Walks

open Instruction

variable {source : List Char} {ns : List Node} {a b : Progress} {is : List Instruction}

/-- The state of the line after a walk is told by the nodes walked up to there. -/
theorem Walks.line_eq (h : Walks source ns a is b) : ∀ walked : List Node,
    a.line.isPending = Node.startsLine walked →
      b.line.isPending = Node.startsLine (walked ++ Node.subnodes (Node.pruned source a.keys ns).1) := by
  induction h with
  | nil a =>
    intro walked hline
    simpa [Node.pruned, Node.subnodes] using hline
  | @newline ns a b is _ ih =>
    intro walked _
    rw [Node.pruned, Node.subnodes, ← List.append_assoc]
    exact ih _ (Node.startsLine_concat_break walked).symm
  | empty _ ih | partialTag _ ih | comment _ ih =>
    intro walked hline
    rw [Node.pruned, Node.subnodes, ← List.append_assoc]
    exact ih _ (hline.trans (Node.startsLine_concat_still walked rfl rfl))
  | @text s ns a b is hnl hne _ ih =>
    intro walked _
    rw [Node.pruned, Node.subnodes, ← List.append_assoc]
    exact ih _ (Node.startsLine_concat_emission walked (by simp [Node.isEmission, hnl, hne])).symm
  | @interpolation name escape ns a b is _ ih =>
    intro walked _
    rw [Node.pruned, Node.subnodes, ← List.append_assoc]
    exact ih _ (Node.startsLine_concat_emission walked rfl).symm
  | @reused name start stop delimiters children ns a b is r hr _ ih =>
    intro walked hline
    rw [Node.pruned, Node.prunedOne_reused (Progress.mem_keys_of_find? hr).2.2, Node.subnodes,
      ← List.append_assoc]
    exact ih _ (hline.trans (Node.startsLine_concat_still walked rfl rfl))
  | @fresh name start stop delimiters children ns a b c body is hnone hbody _ _ ihbody ih =>
    intro walked hline
    have hinside := ihbody (walked ++ [.sectionBlock name start stop delimiters
      (Node.pruned source a.keys children).1])
      (hline.trans (Node.startsLine_concat_still walked rfl rfl))
    -- The section's key comes in after those of its children, so the walk goes on with all of them.
    rw [Progress.keys_register] at ih
    rw [Node.pruned, Node.prunedOne_fresh (Progress.not_mem_keys_of_find? hnone), hbody.keys_pruned,
      Node.subnodes, ← List.append_assoc]
    apply ih
    rw [Node.subnodesOne, List.append_cons]
    exact hinside
  | @inverted name children ns a b c body is hbody _ ihbody ih =>
    intro walked hline
    have hinside := ihbody (walked ++ [.invertedBlock name (Node.pruned source a.keys children).1])
      (hline.trans (Node.startsLine_concat_still walked rfl rfl))
    rw [Node.pruned, Node.prunedOne_inverted, hbody.keys_pruned, Node.subnodes, ← List.append_assoc]
    apply ih
    rw [Node.subnodesOne, List.append_cons]
    exact hinside

theorem Walks.marked (h : Walks source ns a is b) : ∀ before walked : List Node,
    a.line.isPending = Node.startsLine walked →
      List.Forall₂ (fun x i => Marked (Node.startsLine x.walked) x.node i)
        (Node.places source a.keys before walked ns) (outside is) := by
  induction h with
  | nil a => exact fun _ _ _ => .nil
  | newline _ ih =>
    intro before walked _
    exact .cons .newline (ih _ _ (Node.startsLine_concat_break walked).symm)
  | empty _ ih | comment _ ih =>
    intro before walked hline
    exact ih _ _ (hline.trans (Node.startsLine_concat_still walked rfl rfl))
  | text hnl hne _ ih =>
    intro before walked hline
    rw [Node.places, Node.placesOne, if_neg hne, hline]
    exact .cons (.text hnl hne)
      (ih _ _ (Node.startsLine_concat_emission walked (by simp [Node.isEmission, hnl, hne])).symm)
  | interpolation _ ih =>
    intro before walked hline
    rw [hline]
    exact .cons .interpolation (ih _ _ (Node.startsLine_concat_emission walked rfl).symm)
  | @reused name start stop delimiters children ns a b is r hr _ ih =>
    intro before walked hline
    rw [Node.places, Node.placesOne, Node.prunedOne_reused (Progress.mem_keys_of_find? hr).2.2, hline]
    exact .cons .sectionBlock
      (ih _ _ (hline.trans (Node.startsLine_concat_still walked rfl rfl)))
  | @fresh name start stop delimiters children ns a b c body is hnone hbody _ _ _ ih =>
    intro before walked hline
    have hinside := hbody.line_eq (walked ++ [.sectionBlock name start stop delimiters
      (Node.pruned source a.keys children).1])
      (hline.trans (Node.startsLine_concat_still walked rfl rfl))
    rw [Progress.keys_register] at ih
    rw [Node.places, Node.placesOne, Node.prunedOne_fresh (Progress.not_mem_keys_of_find? hnone),
      hbody.keys_pruned, hline]
    refine .cons .sectionBlock (ih _ _ ?_)
    rw [Node.subnodesOne, List.append_cons]
    exact hinside
  | @inverted name children ns a b c body is hbody _ ihbody ih =>
    intro before walked hline
    have hstill := hline.trans (Node.startsLine_concat_still walked
      (n := .invertedBlock name (Node.pruned source a.keys children).1) rfl rfl)
    have hinside := hbody.line_eq _ hstill
    rw [Node.places, Node.placesOne, Node.prunedOne_inverted, hbody.keys_pruned]
    apply List.rel_append (.cons .invertedBlock (ihbody _ _ hstill))
    apply ih
    rw [Node.subnodesOne, List.append_cons]
    exact hinside
  | partialTag _ ih =>
    intro before walked hline
    rw [hline]
    exact .cons .partialTag (ih _ _ (hline.trans (Node.startsLine_concat_still walked rfl rfl)))

end Walks

theorem exists_marked_of_compileText {source : String} {label : Option String} {events : List Event}
    {p : Program} (hcompile : compileText source label = (events, .ok p)) :
    ∃ tree, parse source = .ok tree ∧
      List.Forall₂ (fun x i => Instruction.Marked (Node.startsLine x.walked) x.node i)
        (Node.places source.toList [] [] [] tree) (Instruction.outside p.instructions) := by
  obtain ⟨tree, name, hparse, hprogram⟩ := exists_compile_of_compileText hcompile
  obtain ⟨-, b, hwalk⟩ := walks_of_compile hprogram
  exact ⟨tree, hparse, hwalk.marked [] [] rfl⟩

/-- Instructions outside section bodies are marked as the nodes that are walked before them say. They are
marked as the text says exactly if, wherever an instruction takes a mark, a line starts there in the text
exactly if one starts there among the nodes that are walked. -/
theorem marks_exact {source : String} {label : Option String} {events : List Event} {p : Program}
    (hcompile : compileText source label = (events, .ok p)) :
    ∃ tree, parse source = .ok tree ∧
      List.Forall₂ (fun x i => Instruction.Marked (Node.startsLine x.walked) x.node i)
        (Node.places source.toList [] [] [] tree) (Instruction.outside p.instructions) ∧
      (List.Forall₂ (fun x i => Instruction.Marked (Node.startsLine x.before) x.node i)
          (Node.places source.toList [] [] [] tree) (Instruction.outside p.instructions) ↔
        ∀ x ∈ Node.places source.toList [] [] [] tree, x.node.isMarked = true →
          Node.startsLine x.before = Node.startsLine x.walked) := by
  obtain ⟨tree, hparse, hmarked⟩ := exists_marked_of_compileText hcompile
  exact ⟨tree, hparse, hmarked, Instruction.forall₂_marked_iff hmarked⟩

def wholeLines : String := "{{#a}}x\n{{/a}}{{#b}}x\n{{/b}}y{{c}}"

theorem marks_exact_whole_lines : ∃ events p tree,
    compileText wholeLines (some "t") = (events, .ok p) ∧
    parse wholeLines = .ok tree ∧
    List.Forall₂ (fun x i => Instruction.Marked (Node.startsLine x.before) x.node i)
      (Node.places wholeLines.toList [] [] [] tree) (Instruction.outside p.instructions) := by
  have hscan : scan wholeLines =
      .ok [⟨.sectionStart, "a", 1, 0, 6, .standard, ""⟩, ⟨.text, "x", 1, 6, 7, .standard, ""⟩,
        ⟨.newline, "\n", 1, 7, 8, .standard, ""⟩, ⟨.sectionEnd, "a", 2, 8, 14, .standard, ""⟩,
        ⟨.sectionStart, "b", 2, 14, 20, .standard, ""⟩, ⟨.text, "x", 2, 20, 21, .standard, ""⟩,
        ⟨.newline, "\n", 2, 21, 22, .standard, ""⟩, ⟨.sectionEnd, "b", 3, 22, 28, .standard, ""⟩,
        ⟨.text, "y", 3, 28, 29, .standard, ""⟩, ⟨.escaped, "c", 3, 29, 34, .standard, ""⟩] := by
    decide +kernel
  have hagree : ∀ x ∈ Node.places wholeLines.toList [] [] []
      [.sectionBlock "a" 6 8 .standard [.text "x", .text "\n"],
        .sectionBlock "b" 20 22 .standard [.text "x", .text "\n"], .text "y", .interpolation "c" true],
      x.node.isMarked = true → Node.startsLine x.before = Node.startsLine x.walked := by
    decide +kernel
  have hok : (compileText wholeLines (some "t")).2.isOk = true := by
    decide +kernel
  obtain ⟨events, found, hcompile⟩ : ∃ events found,
      compileText wholeLines (some "t") = (events, found) := ⟨_, _, rfl⟩
  rw [hcompile] at hok
  cases found with
  | error e => cases hok
  | ok p =>
    obtain ⟨tree, hparse, -, hiff⟩ := marks_exact hcompile
    refine ⟨events, p, tree, hcompile, hparse, hiff.mpr ?_⟩
    rw [parse, hscan] at hparse
    cases hparse
    exact hagree

def startedLines : String := "{{#a}}x{{/a}}\n{{#a}}x{{/a}}y"

/-- A section that calls the routine of another is taken to leave the line as it is. -/
theorem line_marked_twice : ∃ events p tree,
    compileText startedLines (some "t") = (events, .ok p) ∧
    parse startedLines = .ok tree ∧
    ¬ List.Forall₂ (fun x i => Instruction.Marked (Node.startsLine x.before) x.node i)
      (Node.places startedLines.toList [] [] [] tree) (Instruction.outside p.instructions) ∧
    ((Engine.render ⟨.standard, 100, false, .nowhere⟩ p "> " false).run
      (.onData (.map [(.text "a", .bool true)]))).1 = .ok "> x\n> x> y" := by
  have hscan : scan startedLines =
      .ok [⟨.sectionStart, "a", 1, 0, 6, .standard, ""⟩, ⟨.text, "x", 1, 6, 7, .standard, ""⟩,
        ⟨.sectionEnd, "a", 1, 7, 13, .standard, ""⟩, ⟨.newline, "\n", 1, 13, 14, .standard, ""⟩,
        ⟨.sectionStart, "a", 2, 14, 20, .standard, ""⟩, ⟨.text, "x", 2, 20, 21, .standard, ""⟩,
        ⟨.sectionEnd, "a", 2, 21, 27, .standard, ""⟩, ⟨.text, "y", 2, 27, 28, .standard, ""⟩] := by
    decide +kernel
  have hdiffer : ¬ ∀ x ∈ Node.places startedLines.toList [] [] []
      [.sectionBlock "a" 6 7 .standard [.text "x"], .text "\n",
        .sectionBlock "a" 20 21 .standard [.text "x"], .text "y"],
      x.node.isMarked = true → Node.startsLine x.before = Node.startsLine x.walked := by
    decide +kernel
  have hrender : (compileText startedLines (some "t")).2.map
      (fun p => ((Engine.render ⟨.standard, 100, false, .nowhere⟩ p "> " false).run
        (.onData (.map [(.text "a", .bool true)]))).1) = .ok (.ok "> x\n> x> y") := by
    decide +kernel
  obtain ⟨events, found, hcompile⟩ : ∃ events found,
      compileText startedLines (some "t") = (events, found) := ⟨_, _, rfl⟩
  rw [hcompile] at hrender
  cases found with
  | error e => cases hrender
  | ok p =>
    obtain ⟨tree, hparse, hmarked⟩ := exists_marked_of_compileText hcompile
    refine ⟨events, p, tree, hcompile, hparse, fun hmarks => ?_, Except.ok.inj hrender⟩
    have hagree := (Instruction.forall₂_marked_iff hmarked).mp hmarks
    rw [parse, hscan] at hparse
    cases hparse
    exact hdiffer hagree

end Mustache
