import Mustache.Delimiters
import Mustache.Text.Margin
import Mustache.Text.Quoted

/-! # The tree of a template

A template is a list of nodes. A section keeps the offsets of its raw body in the source and the
delimiters of its opening tag: both identify its body among others. `outline` shows a tree line by
line.
-/
namespace Mustache

/-- A part of a template. A node is `foreign` if it is of no kind of template part; it carries the name
of its own kind and its text. -/
inductive Node where
  | text (text : String)
  | interpolation (name : String) (escape : Bool)
  | sectionBlock (name : String) (start stop : Int) (delimiters : Delimiters)
      (children : List Node)
  | invertedBlock (name : String) (children : List Node)
  | partialTag (name indent : String)
  | comment
  | foreign (kind text : String)

instance : Inhabited Node := ⟨.comment⟩

namespace Node

def flagText (b : Bool) : String := if b then "True" else "False"

mutual

/-- The lines that show a node: a section's head is followed by its children, one level deeper. Levels
below zero have no margin. -/
def outlineOne (level : Int) : Node → List String
  | text s => [Text.margin level.toNat ++ "TextNode(text=" ++ Text.quoted s ++ ")"]
  | interpolation name escape =>
    [Text.margin level.toNat ++ "VariableNode(name=" ++ Text.quoted name ++ ", escape=" ++
      flagText escape ++ ")"]
  | sectionBlock name _ _ _ children =>
    (Text.margin level.toNat ++ "SectionNode(" ++ Text.quoted name ++ ")") ::
      outlineLines (level + 1) children
  | invertedBlock name children =>
    (Text.margin level.toNat ++ "InvertedSectionNode(" ++ Text.quoted name ++ ")") ::
      outlineLines (level + 1) children
  | partialTag name indent =>
    [Text.margin level.toNat ++ "PartialNode(name=" ++ Text.quoted name ++ ", indent=" ++
      Text.quoted indent ++ ")"]
  | comment => [Text.margin level.toNat ++ "CommentNode()"]
  | foreign _ shown => [Text.margin level.toNat ++ shown]

def outlineLines (level : Int) : List Node → List String
  | [] => []
  | n :: ns => outlineOne level n ++ outlineLines level ns

end

def outline (level : Int) (nodes : List Node) : String :=
  "\n".intercalate (outlineLines level nodes)

end Node
end Mustache
