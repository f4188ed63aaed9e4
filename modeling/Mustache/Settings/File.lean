import Mustache.File.Tree
import Mustache.Settings
import Mustache.Yaml.Document

/-! # Settings files

A settings file holds one YAML map; an empty document is an empty map. A relative directory in it is
seen from the directory of the file.
-/
namespace Mustache

inductive SettingsFileError where
  | missing (path : Path)
  | unreadable (e : FileError)
  | unparsable (path : Path) (e : Yaml.YamlError)
  /-- A scalar has the form of a value that there is not. -/
  | valueless (e : Yaml.ScalarError)
  | notMapping (path : Path)
  | invalid (e : SettingsError)
  deriving DecidableEq, Repr

def SettingsFileError.message : SettingsFileError → String
  | missing path => "Config file not found: " ++ path.toString
  | unreadable e => e.message
  | unparsable path e => "Failed to parse " ++ path.toString ++ ": " ++ e.message
  | valueless e => e.message
  | notMapping path => "YAML must be a mapping: " ++ path.toString
  | invalid e => e.message

def SettingsFileError.ofYaml (path : Path) : Yaml.YamlError → SettingsFileError
  | .scalar e => .valueless e
  | e => .unparsable path e

namespace Settings

/-- The entries of a document; what counts as false has none. -/
def entriesOf? (document : Value) : Option Entries :=
  if !document.truth then some []
  else match document with
    | .map entries => some entries
    | _ => none

def ofText (path : Path) (text : String) : Except SettingsFileError Settings := do
  let document ← (Yaml.load text).mapError (.ofYaml path)
  match entriesOf? document with
  | none => throw (.notMapping path)
  | some entries => (ofEntries (some path.parent) entries).mapError .invalid

def ofFile (files : Files) (path : Path) : Except SettingsFileError Settings := do
  match ← (files.text? path).mapError .unreadable with
  | none => throw (.missing path)
  | some text => ofText path text

end Settings
end Mustache
