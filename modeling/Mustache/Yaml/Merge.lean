import Mustache.Yaml.Tree

/-! # Maps merged into others

The key `<<` stands for no entry: the map beside it, or each map of the list beside it, gives its entries
to the map around it. Own entries count more than merged ones, and of several merged maps the earlier
one counts more.
-/
namespace Mustache.Yaml

inductive MergedTree where
  | scalar (text : List Char) (plain : Bool)
  | sequence (items : List MergedTree)
  /-- A map; `joined` holds if some of its entries are merged ones, which may be repeated. -/
  | mapping (entries : List (MergedTree × MergedTree)) (joined : Bool)
  /-- A map into which something cannot be merged. -/
  | refused (e : YamlError)

namespace MergedTree

def asksToMerge : MergedTree → Bool
  | scalar text plain => plain && text == ['<', '<']
  | _ => false

def entries : MergedTree → Except YamlError (List (MergedTree × MergedTree))
  | mapping entries _ => .ok entries
  | refused e => .error e
  | _ => .error .malformed

/-- The entries that are merged from what is beside `<<`: of several maps the last one's come first, so
that the others replace them. -/
def offered : MergedTree → Except YamlError (List (MergedTree × MergedTree))
  | sequence items => do
    let all ← items.mapM entries
    return all.reverse.flatten
  | t => t.entries

def divide (merged : List (MergedTree × MergedTree)) :
    List (MergedTree × MergedTree) →
      Except YamlError (List (MergedTree × MergedTree) × List (MergedTree × MergedTree))
  | [] => .ok (merged, [])
  | (k, v) :: rest =>
    if k.asksToMerge then
      if merged.isEmpty then do divide (← v.offered) rest
      else .error (.duplicateKey "<<")
    else do
      let (merged, own) ← divide merged rest
      return (merged, (k, v) :: own)

def ofEntries (entries : List (MergedTree × MergedTree)) : MergedTree :=
  match divide [] entries with
  | .ok (merged, own) => mapping (merged ++ own) !merged.isEmpty
  | .error e => refused e

end MergedTree

mutual

def Tree.merged : Tree → MergedTree
  | .scalar text plain => .scalar text plain
  | .sequence items => .sequence (mergedAll items)
  | .mapping entries => .ofEntries (mergedEntries entries)

def mergedAll : List Tree → List MergedTree
  | [] => []
  | t :: ts => t.merged :: mergedAll ts

def mergedEntries : List (Tree × Tree) → List (MergedTree × MergedTree)
  | [] => []
  | (k, v) :: rest => (k.merged, v.merged) :: mergedEntries rest

end

end Mustache.Yaml
