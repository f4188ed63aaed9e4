import Mustache.Decimal.Layout
import Mustache.Moment.Member
import Mustache.SetMethod
import Mustache.Text.Quoted

/-! # Values

The data a template is rendered on, and what its text, its truth and its members are. An iterator is
only a number here: what it still has to give is kept with the state of a rendering, because giving an
element uses it up.
-/
namespace Mustache

/-- A value. A lambda is called with the raw text of a section, or without one, and gives a text. An
object has named attributes, its own truth value, and elements if it can be iterated over. A set is one
of the numbered sets that a rendering may change; the elements beside its number are those that it had
when it was last looked at. -/
inductive Value where
  | null
  | bool (b : Bool)
  | int (n : Int)
  | float (x : Float)
  | text (s : String)
  | bytes (bytes : List UInt8)
  | moment (m : Moment)
  | duration (d : Duration)
  | zone (z : Zone)
  | list (items : List Value)
  | tuple (items : List Value)
  | set (id : Nat) (items : List Value)
  | map (entries : List (Value × Value))
  | iterator (id : Nat)
  | lambda (call : Option String → Except CallError String)
  | setMethod (method : SetMethod) (id : Nat) (items : List Value)
  | object (label : String) (attributes : List (String × Value)) (truth : Bool)
      (items : Option (List Value))

instance : Inhabited Value := ⟨.null⟩

namespace Value

def commaList (items : List String) : String :=
  ", ".intercalate items

mutual

def inner : Value → String
  | null => missingText
  | bool b => if b then "True" else "False"
  | int n => toString n
  | float x => Decimal.Layout.general.text x
  | text s => Text.quoted s
  | bytes bs => String.ofList (Text.quoteBytes bs)
  | moment m => m.inner
  | duration d => d.inner
  | zone z => z.inner
  | list items => "[" ++ commaList (innerAll items) ++ "]"
  | tuple [item] => "(" ++ inner item ++ ",)"
  | tuple items => "(" ++ commaList (innerAll items) ++ ")"
  | set _ [] => "set()"
  | set _ items => "\x7b" ++ commaList (innerAll items) ++ "\x7d"
  | map entries => "\x7b" ++ commaList (innerEntries entries) ++ "\x7d"
  | iterator _ => "<iter>"
  | lambda _ | setMethod _ _ _ => "<function>"
  | object label _ _ _ => "<" ++ label ++ ">"

def innerAll : List Value → List String
  | [] => []
  | v :: vs => inner v :: innerAll vs

def innerEntries : List (Value × Value) → List String
  | [] => []
  | (k, v) :: rest => (inner k ++ ": " ++ inner v) :: innerEntries rest

end

def display : Value → String
  | text s => s
  | moment m => m.display
  | duration d => d.display
  | zone z => z.name
  | v => inner v

def rendered : Value → String
  | null => ""
  | v => display v

/-- Whether a value counts as true: not the missing value, a zero or anything empty. Whatever can be
iterated over without a known length is true. -/
def truth : Value → Bool
  | null => false
  | bool b => b
  | int n => n != 0
  | float x => x != 0
  | text s => !s.isEmpty
  | bytes bs => !bs.isEmpty
  | duration d => d.total != 0
  | list items | tuple items | set _ items => !items.isEmpty
  | map entries => !entries.isEmpty
  | moment _ | zone _ | iterator _ | lambda _ | setMethod _ _ _ => true
  | object _ _ truth items => items.isSome || truth

def isLambda : Value → Bool
  | lambda _ | setMethod _ _ _ => true
  | _ => false

inductive Iteration where
  | once
  | each (items : List Value)
  /-- Once for each element of a set, which must not grow or shrink on the way. -/
  | members (id : Nat) (items : List Value)
  | drain (id : Nat)

def iteration : Value → Iteration
  | list items | tuple items => .each items
  | set id items => .members id items
  | iterator id => .drain id
  | object _ _ _ (some items) => .each items
  | _ => .once

def isIterable (v : Value) : Bool :=
  match v.iteration with
  | .once => false
  | .each _ | .members _ _ | .drain _ => true

/-- The element of a list that a name denotes: the name is its position in decimal digits. -/
def element? (items : List Value) (name : String) : Option Value :=
  let digits := name.toList
  if digits.isEmpty || !digits.all Char.isDigit then none
  else items[Decimal.digitsValue digits]?

def entry? (entries : List (Value × Value)) (name : String) : Option Value :=
  (entries.find? fun entry => match entry.1 with
    | text key => key = name
    | _ => false).map (·.2)

def ofMomentMember : MomentMember → Value
  | .number n => int n
  | .moment m => moment m
  | .duration d => duration d
  | .zone (some z) => zone z
  | .zone none => null
  | .method call => lambda call

/-- The member of a value that a name denotes. Names that start with an underscore hide attributes. -/
def member? (v : Value) (name : String) : Option Value :=
  match v with
  | list items | tuple items => element? items name
  | map entries => entry? entries name
  | moment m => (m.member? name).map ofMomentMember
  | duration d => (d.member? name).map ofMomentMember
  | zone z => (z.member? name).map ofMomentMember
  | set id items => (SetMethod.ofName? name).map fun method => setMethod method id items
  | object _ attributes _ _ =>
    if name.toList.head? = some '_' then none
    else (attributes.find? (·.1 = name)).map (·.2)
  | _ => none

/-- A number as a fraction; `none` for what is no number or not finite. -/
def fraction? : Value → Option (Int × Nat)
  | bool b => some (if b then 1 else 0, 1)
  | int n => some (n, 1)
  | float x =>
    let (negative, magnitude) := Decimal.ofBits x.toBits
    match magnitude with
    | .zero => some (0, 1)
    | .finite b =>
      let size : Nat := b.mantissa * Nat.pow 2 b.exponent.toNat
      some (if negative then -(size : Int) else size, Nat.pow 2 (-b.exponent).toNat)
    | .notANumber | .infinite => none
  | _ => none

mutual

/-- Whether two values are the same key: numbers by their value, whatever their kind. -/
def sameKey : Value → Value → Bool
  | null, null => true
  | text s, text t => s = t
  | bytes a, bytes b => a = b
  | moment m, moment n => m.isSame n
  | tuple a, tuple b => sameKeys a b
  | float x, float y => x == y
  | v, w =>
    match v.fraction?, w.fraction? with
    | some (a, b), some (c, d) => a * d = c * b
    | _, _ => false

def sameKeys : List Value → List Value → Bool
  | [], [] => true
  | v :: vs, w :: ws => sameKey v w && sameKeys vs ws
  | _, _ => false

end

/-- Puts an entry into a map: a key that is there keeps its place and its form and takes the value. -/
def putEntry (entries : List (Value × Value)) (key value : Value) : List (Value × Value) :=
  match entries with
  | [] => [(key, value)]
  | (k, v) :: rest =>
    if sameKey k key then (k, value) :: rest else (k, v) :: putEntry rest key value

def ofEntries (entries : List (Value × Value)) : Value :=
  map (entries.foldl (fun done entry => putEntry done entry.1 entry.2) [])

def kindName : Value → String
  | null => "NoneType"
  | bool _ => "bool"
  | int _ => "int"
  | float _ => "float"
  | text _ => "str"
  | bytes _ => "bytes"
  | moment m => m.kindName
  | duration _ => "timedelta"
  | zone _ => "timezone"
  | list _ => "list"
  | tuple _ => "tuple"
  | set _ _ => "set"
  | map _ => "dict"
  | iterator _ => "iterator"
  | lambda _ | setMethod _ _ _ => "function"
  | object _ _ _ _ => "object"

end Value
end Mustache
