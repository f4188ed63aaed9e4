import Mustache.Charset
import Mustache.Context
import Mustache.File.Path

/-! # Settings

The settings of an engine are read from the entries of a map. Every key must be known; keys that are
present must have values of the right kind. `toEntries` writes settings as entries again.
-/
namespace Mustache

structure Settings where
  charset : String := "utf-8"
  escapeSingleQuotes : Bool := true
  maxDepth : Int := Context.standardLimit
  strictPartials : Bool := false
  partialsDir : Option Path := none
  partialsExtension : String := ".mustache"
  deriving DecidableEq, Repr

inductive SettingsError where
  | unknownKeys (names : List String)
  | keyNotText (kind : String)
  /-- Keys of two kinds that have no order among them. -/
  | keysNotOrdered (kind other : String)
  | wrongKind (key expected found : String)
  | unknownCharset (name : String)
  | limitTooLow
  deriving DecidableEq, Repr

def SettingsError.message : SettingsError → String
  | unknownKeys names => "Unknown config keys: " ++ ", ".intercalate names
  | keyNotText kind => "sequence item 0: expected str instance, " ++ kind ++ " found"
  | keysNotOrdered kind other =>
    "'<' not supported between instances of '" ++ kind ++ "' and '" ++ other ++ "'"
  | wrongKind key expected found =>
    "Config key '" ++ key ++ "' must be " ++ expected ++ ", got " ++ found
  | unknownCharset name => "Unknown charset '" ++ name ++ "'"
  | limitTooLow => "max_depth must be at least 1"

namespace Settings

abbrev Entries := List (Value × Value)

def knownKeys : List String :=
  ["charset", "escape_single_quotes", "max_depth", "strict_partials", "partials_dir",
    "partials_extension"]

def isUnknown (key : Value) : Bool :=
  match key with
  | .text name => !knownKeys.contains name
  | _ => true

/-- A number as a fraction, an infinite one over zero. -/
def extended? (v : Value) : Option (Int × Nat) :=
  match v with
  | .float x => if x.isInf then some (if x < 0 then -1 else 1, 0) else v.fraction?
  | v => v.fraction?

def isBelow (v w : Value) : Bool :=
  match extended? v, extended? w with
  | some (a, b), some (c, d) => a * d < c * b
  | _, _ => false

/-- The least of some keys if they are numbers, and otherwise the first of them. -/
def leastKey (first : Value) (others : List Value) : Value :=
  others.foldl (fun least v => if isBelow v least then v else least) first

def keyName? (key : Value) : Option String :=
  match key with
  | .text name => some name
  | _ => none

/-- The name of a key's kind, which for moments is longer than that of the same value elsewhere. -/
def keyKind (key : Value) : String :=
  match key with
  | .moment m => "datetime." ++ m.kindName
  | v => v.kindName

/-- Keys with the same rank have an order among them, others have none. -/
def orderRank (key : Value) : Nat :=
  match key with
  | .bool _ | .int _ | .float _ => 0
  | .tuple _ => 1
  | .null => 2
  | .moment _ => 3
  | .bytes _ => 4
  | _ => 5

/-- Refuses keys that mean nothing. Names are given in order; of keys that are no texts the one that comes
first in order is given by its kind, and keys that cannot be ordered are given by two kinds. -/
def checkKeys (entries : Entries) : Except SettingsError Unit :=
  let unknown := ((entries.map (·.1)).filter isUnknown).mergeSort fun v w => orderRank v ≤ orderRank w
  match unknown with
  | [] => .ok ()
  | first :: others =>
    match others.find? fun v => orderRank v ≠ orderRank first with
    | some other => .error (.keysNotOrdered (keyKind other) (keyKind first))
    | none =>
      match keyName? first with
      | none => .error (.keyNotText (keyKind (leastKey first others)))
      | some _ => .error (.unknownKeys ((unknown.filterMap keyName?).mergeSort fun a b => a ≤ b))

/-- The value of a key, read by `read?`, which fails for other kinds; `standard` if the key is absent. -/
def read {α : Type} (entries : Entries) (key expected : String) (read? : Value → Option α)
    (standard : α) : Except SettingsError α :=
  match Value.entry? entries key with
  | none => .ok standard
  | some v =>
    match read? v with
    | some a => .ok a
    | none => .error (.wrongKind key expected v.kindName)

def text? : Value → Option String
  | .text s => some s
  | _ => none

def bool? : Value → Option Bool
  | .bool b => some b
  | _ => none

def int? : Value → Option Int
  | .int n => some n
  | _ => none

/-- A value that must be the path of a directory, or missing. A relative path is seen from the base
directory, if there is one. -/
def directory? (base : Option Path) : Value → Option (Option Path)
  | .null => some none
  | .text s =>
    let path := Path.ofString s
    some (some (match base with
      | some b => b.join path
      | none => path))
  | _ => none

def ofEntries (base : Option Path) (entries : Entries) : Except SettingsError Settings := do
  checkKeys entries
  let charset ← read entries "charset" "str" text? "utf-8"
  if (Charset.find? charset).isNone then throw (.unknownCharset charset)
  let escapeSingleQuotes ← read entries "escape_single_quotes" "bool" bool? true
  let maxDepth ← read entries "max_depth" "int" int? Context.standardLimit
  if maxDepth < 1 then throw .limitTooLow
  let strictPartials ← read entries "strict_partials" "bool" bool? false
  let partialsDir ← read entries "partials_dir" "str" (directory? base) none
  let partialsExtension ← read entries "partials_extension" "str" text? ".mustache"
  return { charset, escapeSingleQuotes, maxDepth, strictPartials, partialsDir, partialsExtension }

def toEntries (s : Settings) : Entries :=
  [(.text "charset", .text s.charset),
    (.text "escape_single_quotes", .bool s.escapeSingleQuotes),
    (.text "max_depth", .int s.maxDepth),
    (.text "strict_partials", .bool s.strictPartials),
    (.text "partials_dir", match s.partialsDir with
      | some path => .text path.toString
      | none => .null),
    (.text "partials_extension", .text s.partialsExtension)]

end Settings
end Mustache
