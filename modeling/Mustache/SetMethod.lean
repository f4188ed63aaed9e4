/-! # Methods of sets

The methods by which a set is read, copied and changed, each under its name.
-/
namespace Mustache

inductive SetMethod where
  | add
  | clear
  | copy
  | difference
  | differenceUpdate
  | discard
  | intersection
  | intersectionUpdate
  | isDisjoint
  | isSubset
  | isSuperset
  | pop
  | remove
  | symmetricDifference
  | symmetricDifferenceUpdate
  | union
  | update
  deriving DecidableEq, Repr

namespace SetMethod

def table : List (String × SetMethod) :=
  [("add", add), ("clear", clear), ("copy", copy), ("difference", difference),
    ("difference_update", differenceUpdate), ("discard", discard), ("intersection", intersection),
    ("intersection_update", intersectionUpdate), ("isdisjoint", isDisjoint), ("issubset", isSubset),
    ("issuperset", isSuperset), ("pop", pop), ("remove", remove),
    ("symmetric_difference", symmetricDifference),
    ("symmetric_difference_update", symmetricDifferenceUpdate), ("union", union), ("update", update)]

def ofName? (name : String) : Option SetMethod :=
  (table.find? (·.1 = name)).map (·.2)

def name (method : SetMethod) : String :=
  ((table.find? (·.2 = method)).map (·.1)).getD ""

example : table.all (fun entry => entry.2.name = entry.1) = true := by decide

end SetMethod
end Mustache
