import Mustache.Value

/-! # Calling values

Lambdas and methods of sets are called without an argument or with one text. A method may change its
set, so an answer says what the set holds afterwards; `Value.current` brings a value up to date with what
the sets hold now.
-/
namespace Mustache

/-- What a call gives: a text, and what a set holds after it, if the call changes one. -/
structure Answer where
  text : String
  change : Option (Nat × List Value) := none

namespace Value

abbrev Sets := List (List Value)

def has (items : List Value) (v : Value) : Bool :=
  items.any (sameKey v)

/-- A text as a list of its characters, each once. -/
def characters (text : String) : List Value :=
  text.toList.eraseDups.map fun c => .text (String.singleton c)

def common (items others : List Value) : List Value :=
  items.filter (has others)

def without (items others : List Value) : List Value :=
  items.filter fun v => !has others v

def joined (items others : List Value) : List Value :=
  items ++ without others items

mutual

/-- The value with what its sets hold now. Attributes of objects are brought up to date when they are
looked up. -/
def current (sets : Sets) : Value → Value
  | list items => list (currentAll sets items)
  | tuple items => tuple (currentAll sets items)
  | set id items => set id (sets[id]?.getD items)
  | setMethod method id items => setMethod method id (sets[id]?.getD items)
  | map entries => map (currentEntries sets entries)
  | v => v

def currentAll (sets : Sets) : List Value → List Value
  | [] => []
  | v :: vs => current sets v :: currentAll sets vs

/-- The entries with what the sets in their values hold now; keys hold no sets. -/
def currentEntries (sets : Sets) : List (Value × Value) → List (Value × Value)
  | [] => []
  | (k, v) :: rest => (k, current sets v) :: currentEntries sets rest

end

end Value

namespace SetMethod
open Value

def shown (text : String) : Except CallError Answer :=
  .ok { text }

def shownSet (id : Nat) (items : List Value) : Except CallError Answer :=
  shown (Value.set id items).display

def changed (id : Nat) (items : List Value) : Except CallError Answer :=
  .ok ⟨missingText, some (id, items)⟩

def callPlain (method : SetMethod) (id : Nat) (items : List Value) : Except CallError Answer :=
  match method with
  | clear => changed id []
  | pop =>
    match items with
    | [] => .error (.noElement "'pop from an empty set'")
    | v :: rest => .ok ⟨v.display, some (id, rest)⟩
  | copy | difference | intersection | union => shownSet id items
  | differenceUpdate | intersectionUpdate | update => changed id items
  | _ => .error (.takesOne ("set." ++ method.name))

/-- Calls a method with a text, which is an element itself or stands for its characters. -/
def callWith (method : SetMethod) (id : Nat) (items : List Value) (text : String) :
    Except CallError Answer :=
  let element : Value := .text text
  let others := characters text
  let truth (b : Bool) : Except CallError Answer := shown (Value.bool b).display
  match method with
  | add => changed id (joined items [element])
  | discard => changed id (without items [element])
  | remove =>
    if has items element then changed id (without items [element])
    else .error (.noElement element.inner)
  | difference => shownSet id (without items others)
  | differenceUpdate => changed id (without items others)
  | intersection => shownSet id (common items others)
  | intersectionUpdate => changed id (common items others)
  | isDisjoint => truth (common items others).isEmpty
  | isSubset => truth (without items others).isEmpty
  | isSuperset => truth (without others items).isEmpty
  | symmetricDifference => shownSet id (without items others ++ without others items)
  | symmetricDifferenceUpdate => changed id (without items others ++ without others items)
  | union => shownSet id (joined items others)
  | update => changed id (joined items others)
  | clear | copy | pop => .error (.takesNone ("set." ++ method.name))

def call (method : SetMethod) (id : Nat) (items : List Value) (argument : Option String) :
    Except CallError Answer :=
  match argument with
  | none => method.callPlain id items
  | some given => method.callWith id items given

end SetMethod

def Value.call? : Value → Option (Option String → Except CallError Answer)
  | .lambda call => some fun argument => (call argument).map fun text => { text }
  | .setMethod method id items => some (method.call id items)
  | _ => none

theorem Value.isSome_call? (v : Value) : v.call?.isSome = v.isLambda := by
  cases v <;> rfl

end Mustache
