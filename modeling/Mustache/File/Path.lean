/-! # Paths

A path has a root (nothing, one slash, or exactly two) and parts. Reading a path drops empty parts and
single dots, so that equal paths are written alike; double dots stay, since what they lead to depends
on the files.
-/
namespace Mustache

structure Path where
  root : String
  parts : List String
  deriving DecidableEq, Repr

namespace Path

/-- The root of a path's text: two slashes stand for themselves, any other number for one. -/
def rootOf : List Char → String
  | '/' :: '/' :: '/' :: _ => "/"
  | '/' :: '/' :: _ => "//"
  | '/' :: _ => "/"
  | _ => ""

def partsOf (text : List Char) : List String :=
  ((text.splitOn '/').map String.ofList).filter fun part => part != "" && part != "."

def ofString (s : String) : Path :=
  ⟨rootOf s.toList, partsOf s.toList⟩

/-- Writes a path; where it leads nowhere, it is a dot. -/
def toString (p : Path) : String :=
  if p.root = "" && p.parts.isEmpty then "." else p.root ++ "/".intercalate p.parts

def isAbsolute (p : Path) : Bool := p.root != ""

/-- The second path as seen from the first: an absolute one is itself. -/
def join (p q : Path) : Path :=
  if q.isAbsolute then q else ⟨p.root, p.parts ++ q.parts⟩

def parent (p : Path) : Path := ⟨p.root, p.parts.dropLast⟩

def name (p : Path) : String := p.parts.getLast?.getD ""

end Path
end Mustache
