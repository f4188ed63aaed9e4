import Mustache.Yaml.Merge
import Mustache.Yaml.Scalar
import Mustache.Yaml.Token.Scan

/-! # YAML documents

The value of a document is built from its tree, one level of collections after the other. Of several
faults the one on the outermost level counts, and of those the first; a collection that is a key is
built at once, with everything in it. So building goes on after a fault and notes at which level it
comes up.
-/
namespace Mustache.Yaml

/-- A fault and the level of collections on which it comes up. -/
abbrev Fault := Nat × YamlError

abbrev Built (α : Type) := StateM (List Fault) α

def note (level : Nat) (e : YamlError) : Built Unit :=
  modify (· ++ [(level, e)])

/-- Whether a key repeats another one. Not-a-number is one key, although it equals no number. -/
def repeatsKey (v w : Value) : Bool :=
  v.sameKey w || match v, w with
    | .float x, .float y => x.isNaN && y.isNaN
    | _, _ => false

/-- A key in the form in which a map keeps it: a list is fixed. -/
def keyForm : Value → Value
  | .list items => .tuple items
  | v => v

def checkKey (level : Nat) (key : Value) : Built Unit :=
  match key with
  | .map _ => note level .malformed
  | _ => pure ()

def checkRepeated (level : Nat) (before : List (Value × Value)) (key : Value) : Built Unit :=
  if before.any fun entry => repeatsKey entry.1 key then note level (.duplicateKey key.inner)
  else pure ()

/-- Builds a scalar. As a key the mark of a default value is a text. -/
def buildScalar (level : Nat) (isKey : Bool) (text : List Char) (plain : Bool) : Built Value :=
  if !plain || (isKey && text == ['=']) then pure (.text (String.ofList text))
  else match plainValue text with
    | .ok v => pure v
    | .error e => do
      note level e
      return .null

mutual

/-- Builds a tree on a level. The members of a collection are on the next one, but `atOnce` inside a
key. -/
def MergedTree.build (level : Nat) (atOnce isKey : Bool) : MergedTree → Built Value
  | .scalar text plain => buildScalar level isKey text plain
  | .sequence items => do
    return .list (← buildAll (if atOnce then level else level + 1) atOnce items)
  | .mapping entries joined => do
    return .map (← buildEntries (if atOnce then level else level + 1) atOnce joined [] entries)
  | .refused e => do
    note (if atOnce then level else level + 1) e
    return .map []

def buildAll (level : Nat) (atOnce : Bool) : List MergedTree → Built (List Value)
  | [] => pure []
  | t :: ts => do
    let v ← t.build level atOnce false
    let vs ← buildAll level atOnce ts
    return v :: vs

/-- Builds the entries of a map after those before them. In a map with merged entries the later one of
two entries with the same key counts. -/
def buildEntries (level : Nat) (atOnce joined : Bool) (before : List (Value × Value)) :
    List (MergedTree × MergedTree) → Built (List (Value × Value))
  | [] => pure before
  | (k, t) :: rest => do
    let key := keyForm (← k.build level true true)
    checkKey level key
    let v ← t.build level atOnce false
    if joined then buildEntries level atOnce joined (Value.putEntry before key v) rest
    else
      checkRepeated level before key
      buildEntries level atOnce joined (before ++ [(key, v)]) rest

end

/-- The fault that counts: the first on the outermost level. -/
def firstFault? (faults : List Fault) : Option YamlError :=
  (faults.find? fun f => faults.all fun g => f.1 ≤ g.1).map (·.2)

def load (document : String) : Except YamlError Value := do
  let cs := document.toList
  if !cs.all isAllowed then throw .malformed
  let tree ← Tree.ofTokens (← tokenize cs)
  let (v, faults) := (tree.merged.build 0 false false).run []
  match firstFault? faults with
  | some e => throw e
  | none => return v

end Mustache.Yaml
