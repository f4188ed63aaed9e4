import Mustache.Yaml.Character

/-! # Tokens of a YAML document

The part of YAML that settings and data are written in: block and flow collections, plain and quoted
scalars, comments. Where a block collection starts and ends is told by columns; its tokens say it
outright.
-/
namespace Mustache.Yaml

inductive Token where
  | documentStart
  | documentEnd
  | sequenceStart
  | mappingStart
  | blockEnd
  | dash
  /-- What follows is a key. -/
  | key
  | value
  | flowSequenceStart
  | flowSequenceEnd
  | flowMappingStart
  | flowMappingEnd
  | comma
  | scalar (text : List Char) (plain : Bool)
  deriving DecidableEq, Repr

/-- A token that turns out to be the start of a key if a colon comes in time. -/
structure PossibleKey where
  level : Nat
  index : Nat
  start : Position
  /-- Whether nothing else can stand there, since it is in the column of the keys of a block map. -/
  required : Bool
  deriving DecidableEq, Repr

def longestKey : Nat := 1024

/-- Whether a colon at a place still makes a key of it: a key is short and on one line. -/
def PossibleKey.isOpen (k : PossibleKey) (p : Position) : Bool :=
  k.start.line = p.line && p.offset ≤ k.start.offset + longestKey

end Mustache.Yaml
