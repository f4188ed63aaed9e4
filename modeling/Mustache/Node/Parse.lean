import Mustache.Node
import Mustache.Token.Scan

/-! # Building the tree

Tokens are taken one at a time. A section's opening tag opens a section, its closing tag must have the
same name and turns what came between into a node; delimiter tags leave no trace. The text must end
with no section open.
-/
namespace Mustache

/-- A section whose closing tag has not come yet, with the nodes inside it so far. -/
structure OpenSection where
  tag : Token
  nodes : List Node

/-- A tree under construction: the finished nodes outside all sections, and the open sections, the
innermost first. -/
structure TreeBuilder where
  nodes : List Node
  sections : List OpenSection

namespace TreeBuilder

def empty : TreeBuilder := ⟨[], []⟩

def add (b : TreeBuilder) (node : Node) : TreeBuilder :=
  match b.sections with
  | [] => { b with nodes := b.nodes ++ [node] }
  | s :: outer => { b with sections := { s with nodes := s.nodes ++ [node] } :: outer }

def closeSection (s : OpenSection) (closing : Token) : Node :=
  if s.tag.kind = .invertedStart then .invertedBlock s.tag.value s.nodes
  else .sectionBlock s.tag.value s.tag.stop closing.start s.tag.delimiters s.nodes

def take (b : TreeBuilder) (t : Token) : Except SyntaxError TreeBuilder :=
  match t.kind with
  | .text | .newline => .ok (b.add (.text t.value))
  | .escaped => .ok (b.add (.interpolation t.value true))
  | .unescaped => .ok (b.add (.interpolation t.value false))
  | .sectionStart | .invertedStart => .ok { b with sections := ⟨t, []⟩ :: b.sections }
  | .sectionEnd =>
    match b.sections with
    | [] => .error ⟨.unexpectedClose t.value, some t.line⟩
    | s :: outer =>
      if s.tag.value = t.value then .ok (add { b with sections := outer } (closeSection s t))
      else .error ⟨.mismatchedClose s.tag.value s.tag.line t.value, some t.line⟩
  | .partialTag => .ok (b.add (.partialTag t.value t.indent))
  | .comment => .ok (b.add .comment)
  | .delimiterTag => .ok b

def finish (b : TreeBuilder) : Except SyntaxError (List Node) :=
  match b.sections with
  | [] => .ok b.nodes
  | s :: _ => .error ⟨.unclosedSection s.tag.value, some s.tag.line⟩

end TreeBuilder

def Node.ofTokens (tokens : List Token) : Except SyntaxError (List Node) := do
  (← tokens.foldlM TreeBuilder.take .empty).finish

def parse (source : String) : Except SyntaxError (List Node) := do
  Node.ofTokens (← scan source)

end Mustache
