import Mustache.Yaml.Error
import Mustache.Yaml.Token

/-! # The tree of a document

A document's tree is read from its tokens, each part by a function of its own. The members of a
collection that have been read are kept newest first. The fuel bounds the number of parts, which the
number of tokens exceeds.
-/
namespace Mustache.Yaml

/-- A document's structure. The empty plain scalar stands for a missing value. -/
inductive Tree where
  | scalar (text : List Char) (plain : Bool)
  | sequence (items : List Tree)
  | mapping (entries : List (Tree × Tree))

def Tree.missing : Tree := .scalar [] true

abbrev TreeM := StateT (List Token) (Except YamlError)

def takeIf (t : Token) : TreeM Bool := do
  match ← get with
  | first :: rest =>
    if first = t then
      set rest
      return true
    else return false
  | [] => return false

def takeToken (t : Token) : TreeM Unit := do
  if !(← takeIf t) then throw .malformed

def standsAt (ends : List Token) : TreeM Bool := do
  return (← get).head?.all ends.contains

def blockEnds : List Token := [.key, .value, .blockEnd]

def flowEnds : List Token := [.comma, .flowSequenceEnd, .flowMappingEnd]

mutual

/-- Reads a node. Block collections start only outside of flow collections, and a sequence without a
start of its own only where `dashes` holds. -/
def node (block dashes : Bool) : Nat → TreeM Tree
  | 0 => throw .malformed
  | fuel + 1 => do
    match ← get with
    | .scalar text plain :: rest =>
      set rest
      return .scalar text plain
    | .flowSequenceStart :: rest =>
      set rest
      flowItems [] fuel
    | .flowMappingStart :: rest =>
      set rest
      flowEntries [] fuel
    | .sequenceStart :: rest =>
      if !block then throw .malformed
      set rest
      blockItems [] fuel
    | .mappingStart :: rest =>
      if !block then throw .malformed
      set rest
      blockEntries [] fuel
    | .dash :: _ =>
      if !dashes then throw .malformed
      inlineItems [] fuel
    | _ => throw .malformed

def nodeUnless (ends : List Token) (block dashes : Bool) : Nat → TreeM Tree
  | 0 => throw .malformed
  | fuel + 1 => do
    if ← standsAt ends then return .missing
    node block dashes fuel

def valueUnless (ends : List Token) (block : Bool) : Nat → TreeM Tree
  | 0 => throw .malformed
  | fuel + 1 => do
    if ← takeIf .value then nodeUnless ends block block fuel
    else return .missing

def blockItems (done : List Tree) : Nat → TreeM Tree
  | 0 => throw .malformed
  | fuel + 1 => do
    if ← takeIf .dash then
      let item ← nodeUnless [.dash, .blockEnd] true false fuel
      blockItems (item :: done) fuel
    else
      takeToken .blockEnd
      return .sequence done.reverse

/-- Reads the elements of a sequence whose dashes stand in the column of the keys around it. -/
def inlineItems (done : List Tree) : Nat → TreeM Tree
  | 0 => throw .malformed
  | fuel + 1 => do
    if ← takeIf .dash then
      let item ← nodeUnless (.dash :: blockEnds) true false fuel
      inlineItems (item :: done) fuel
    else return .sequence done.reverse

/-- Reads the entries of a block map up to its end. A value may have no key before it. -/
def blockEntries (done : List (Tree × Tree)) : Nat → TreeM Tree
  | 0 => throw .malformed
  | fuel + 1 => do
    if ← takeIf .key then
      let key ← nodeUnless blockEnds true true fuel
      let value ← valueUnless blockEnds true fuel
      blockEntries ((key, value) :: done) fuel
    else if (← get).head? = some .value then
      let value ← valueUnless blockEnds true fuel
      blockEntries ((.missing, value) :: done) fuel
    else
      takeToken .blockEnd
      return .mapping done.reverse

def flowItems (done : List Tree) : Nat → TreeM Tree
  | 0 => throw .malformed
  | fuel + 1 => do
    let goesOn ← if done.isEmpty then pure true else takeIf .comma
    if ← takeIf .flowSequenceEnd then return .sequence done.reverse
    if !goesOn then throw .malformed
    let item ← flowItem fuel
    flowItems (item :: done) fuel

/-- Reads an element of a flow sequence. One with a key is a map of one entry. -/
def flowItem : Nat → TreeM Tree
  | 0 => throw .malformed
  | fuel + 1 => do
    if ← takeIf .key then
      let key ← nodeUnless (.value :: flowEnds) false false fuel
      let value ← valueUnless flowEnds false fuel
      return .mapping [(key, value)]
    else node false false fuel

def flowEntries (done : List (Tree × Tree)) : Nat → TreeM Tree
  | 0 => throw .malformed
  | fuel + 1 => do
    let goesOn ← if done.isEmpty then pure true else takeIf .comma
    if ← takeIf .flowMappingEnd then return .mapping done.reverse
    if !goesOn then throw .malformed
    let entry ← flowEntry fuel
    flowEntries (entry :: done) fuel

/-- Reads an entry of a flow map. A value may have no key before it, and a node alone is a key without
a value. -/
def flowEntry : Nat → TreeM (Tree × Tree)
  | 0 => throw .malformed
  | fuel + 1 => do
    if ← takeIf .key then
      let key ← nodeUnless (.value :: flowEnds) false false fuel
      let value ← valueUnless flowEnds false fuel
      return (key, value)
    else if (← get).head? = some .value then
      let value ← valueUnless flowEnds false fuel
      return (.missing, value)
    else
      let key ← node false false fuel
      return (key, .missing)

end

def document (fuel : Nat) : TreeM Tree := do
  let tree ←
    if (← get).isEmpty then pure .missing
    else if ← takeIf .documentStart then
      nodeUnless [.documentStart, .documentEnd] true false fuel
    else node true false fuel
  let _ ← takeIf .documentEnd
  if (← get).isEmpty then return tree
  throw .malformed

def Tree.ofTokens (ts : List Token) : Except YamlError Tree :=
  (document (4 * ts.length + 4)).run' ts

end Mustache.Yaml
