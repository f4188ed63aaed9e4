import Mustache.Digest.Sha1
import Mustache.Node.Parse
import Mustache.Render.Run
import Mustache.Settings

/-! # The engine

An engine compiles texts and finds the templates that others refer to: partials by name in a source of
templates, and the texts of lambdas, which are read under the delimiters of their section. A partial
without a source is empty, with a warning, unless the engine is strict.
-/
namespace Mustache

inductive TemplateSource where
  | nowhere
  | table (texts : List (String × String))
  | directory (files : Files) (base : Path) (extension : String)

namespace TemplateSource

def pathOf (base : Path) (extension name : String) : Path :=
  base.join (Path.ofString (name ++ extension))

def text (source : TemplateSource) (name : String) : Except RenderError String :=
  match source with
  | nowhere => .error (.notFound name none)
  | table texts =>
    match texts.find? (·.1 = name) with
    | some (_, text) => .ok text
    | none => .error (.notFound name none)
  | directory files base extension =>
    let path := pathOf base extension name
    match files.text? path with
    | .ok (some text) => .ok text
    | .ok none => .error (.notFound name (some path))
    | .error e => .error (.unreadable e)

/-- The source with another text under a name; only a table can take one. -/
def put (source : TemplateSource) (name text : String) : TemplateSource :=
  match source with
  | table texts => table ((name, text) :: texts.filter (·.1 != name))
  | other => other

end TemplateSource

/-- What came of a request for a program: the events on the way, and the program or an error. -/
abbrev Found := List Event × Except RenderError Program

def shortDigest (text : String) : String :=
  String.ofList ((Digest.Sha1.hex text).toList.take 12)

/-- Compiles a text under a name; without one, or with an empty one, the name shows the text's digest. -/
def compileText (source : String) (name : Option String) : Found :=
  let label := match name with
    | some s => if s.isEmpty then "template:" ++ shortDigest source else s
    | none => "template:" ++ shortDigest source
  match parse source with
  | .error e => ([], .error (.malformed e))
  | .ok tree =>
    match compile source tree label with
    | .error e => ([], .error (.uncompilable e))
    | .ok (program, events) => (events, .ok program)

structure Engine where
  escaper : Escaper
  maxDepth : Int
  strict : Bool
  partials : TemplateSource

namespace Engine

/-- The engine of some settings. Unless a source of partials is given, they come from the directory of
the settings. -/
def ofSettings (settings : Settings) (files : Files) (partials : Option TemplateSource) :
    Except EscapeError Engine := do
  let escaper ← Escaper.ofName settings.charset settings.escapeSingleQuotes
  let source := match partials, settings.partialsDir with
    | some source, _ => source
    | none, some base => .directory files base settings.partialsExtension
    | none, none => .nowhere
  return ⟨escaper, settings.maxDepth, settings.strictPartials, source⟩

def newContext (e : Engine) (data : Value) : Context :=
  Context.ofData data e.maxDepth

def partialText (e : Engine) (name : String) : List Event × Except RenderError String :=
  match e.partials.text name with
  | .ok text => ([], .ok text)
  | .error (.notFound name searched) =>
    if e.strict then ([], .error (.notFound name searched))
    else ([.partialMissing name], .ok "")
  | .error other => ([], .error other)

def loadPartial (e : Engine) (name : String) : Found :=
  match e.partialText name with
  | (events, .error error) => (events, .error error)
  | (events, .ok text) =>
    let (more, program) := compileText text (some ("partial:" ++ name))
    (events ++ .partialLoaded name :: more, program)

/-- The text that is read for the text of a lambda: the tag that sets its delimiters stands on a line
of its own before it, where it leaves no output. -/
def lambdaSource (text : String) (delimiters : Option String) : String :=
  match delimiters with
  | some tag => if tag.isEmpty then text else tag ++ "\n" ++ text
  | none => text

def loadLambda (text : String) (delimiters : Option String) : Found :=
  let source := lambdaSource text delimiters
  compileText source (some ("lambda:" ++ shortDigest source))

def templates (e : Engine) : Templates where
  partialNamed := e.loadPartial
  lambdaText := loadLambda

def render (e : Engine) (p : Program) (indent : String) (escape : Bool) : RenderM String :=
  p.render e.templates e.escaper indent escape

/-- Compiles a text and renders it on data, in a context of its own. -/
def renderText (e : Engine) (source : String) (data : Value) (indent : String) : RenderM String := do
  let program ← Surroundings.load (compileText source none)
  let outer := (← get).context
  modify fun s => { s with context := { e.newContext data with stack := outer.stack } }
  RenderM.thenRestore (fun _ => outer) (e.render program indent false)

end Engine
end Mustache
