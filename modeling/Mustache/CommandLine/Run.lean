import Mustache.CommandLine.Arguments
import Mustache.Engine
import Mustache.Settings.File

/-! # Runs of the command line

A run reads its settings, the template and its data from files and gives a text for the standard output
or an error. Errors that the user can mend are shown and give the exit code 2; the others are left to
the caller. The notes on standard error hold the warnings, and on request all events.
-/
namespace Mustache.CommandLine

inductive RunError where
  | settings (e : SettingsFileError)
  | charset (e : EscapeError)
  | templateMissing (path : Path)
  | dataMissing (path : Path)
  | dataUnparsable (path : Path) (e : Yaml.YamlError)
  | dataValueless (e : Yaml.ScalarError)
  | dataBlank
  | partialsBlank
  | unreadable (e : FileError)
  | render (e : RenderError)
  deriving DecidableEq, Repr

def RunError.message : RunError → String
  | settings e => e.message
  | charset e => e.message
  | templateMissing path => "Template not found: " ++ path.toString
  | dataMissing path => "Data file not found: " ++ path.toString
  | dataUnparsable path e => "Failed to parse data file " ++ path.toString ++ ": " ++ e.message
  | dataValueless e => e.message
  | dataBlank => "'list' object has no attribute 'is_file'"
  | partialsBlank => "expected str, bytes or os.PathLike object, not list"
  | unreadable e => e.message
  | render e => e.message

def RunError.ofYaml (path : Path) : Yaml.YamlError → RunError
  | .scalar e => .dataValueless e
  | e => .dataUnparsable path e

/-- Whether the user can mend a moment that there is not: all but one outside the calendar. -/
def momentErrorIsForUser (e : MomentError) : Bool :=
  e ≠ .outOfRange

/-- Whether a scalar error is one that the user can mend: all are, but for codes that are too large to be
considered and moments outside the calendar. -/
def scalarErrorIsForUser : Yaml.ScalarError → Bool
  | .noCodePoint n => n < Yaml.codePointBound
  | .noMoment e => momentErrorIsForUser e
  | _ => true

def callErrorIsForUser : CallError → Bool
  | .notStandard _ => true
  | .noMoment e => momentErrorIsForUser e
  | _ => false

/-- Whether the error is one that the user can mend. Keys that are no texts, charsets that encode no
texts, most calls that fail and options left blank are not. -/
def RunError.isForUser : RunError → Bool
  | settings (.valueless e) | dataValueless e => scalarErrorIsForUser e
  | dataBlank | partialsBlank => false
  | settings (.invalid (.keyNotText _)) | settings (.invalid (.keysNotOrdered _ _)) => false
  | render (.unescapable (.notTextEncoding _)) => false
  | render (.callFailed e) => callErrorIsForUser e
  | render .setResized => false
  | _ => true

/-- The file that has to be read before the run can go on. -/
def RunError.unread? : RunError → Option Path
  | settings (.unreadable (.unread path)) => some path
  | unreadable (.unread path) => some path
  | render (.unreadable (.unread path)) => some path
  | _ => none

inductive Outcome where
  | ended (e : Ending)
  | finished (code : Nat) (stdout stderr : String)
  | failed (e : RunError)
  /-- The run needs to know what is at a path. -/
  | needs (path : Path)
  deriving DecidableEq, Repr

def textOr (files : Files) (path : Path) (missing : RunError) : Except RunError String := do
  match ← (files.text? path).mapError .unreadable with
  | some text => return text
  | none => throw missing

/-- The engine of a run. Partials come from the directory given for them, from that of the settings,
or from the directory of the template. -/
def engineOf (files : Files) (i : Invocation) : Except RunError Engine := do
  let settings ← match i.config with
    | .path path => (Settings.ofFile files path).mapError .settings
    | .absent | .blank => pure {}
  let directory ← match i.partials, settings.partialsDir with
    | .path path, _ => pure (some path)
    | .blank, _ => throw .partialsBlank
    | .absent, none => pure (some i.template.parent)
    | .absent, some _ => pure none
  let partials := directory.map fun base =>
    TemplateSource.directory files base settings.partialsExtension
  (Engine.ofSettings settings files partials).mapError .charset

/-- The data of a run; without a data file it is an empty map. -/
def dataOf (files : Files) (option : PathOption) : Except RunError Value := do
  match option with
  | .absent => return .map []
  | .blank => throw .dataBlank
  | .path path =>
    let text ← textOr files path (.dataMissing path)
    (Yaml.load text).mapError (.ofYaml path)

def perform (files : Files) (i : Invocation) (engine : Engine) (program : Program)
    (events : List Event) : List Event × Except RunError String :=
  match i.command with
  | .dump => (events, .ok (program.describe ++ "\n"))
  | .render =>
    match dataOf files i.data with
    | .error e => (events, .error e)
    | .ok data =>
      let (outcome, after) :=
        (engine.render program "" false).run.run ⟨engine.newContext data, {}, events⟩
      (after.events, outcome.mapError .render)

def execute (files : Files) (i : Invocation) : List Event × Except RunError String :=
  let start : Except RunError (Engine × String) := do
    let engine ← engineOf files i
    let source ← textOr files i.template (.templateMissing i.template)
    return (engine, source)
  match start with
  | .error e => ([], .error e)
  | .ok (engine, source) =>
    match compileText source (some i.template.name) with
    | (events, .error e) => (events, .error (.render e))
    | (events, .ok program) => perform files i engine program events

def noteLine (e : Event) : String :=
  (match e.severity with
    | .debug => "[DEBUG] "
    | .warning => "[WARNING] ") ++ e.message ++ "\n"

/-- The notes on events; only a verbose run notes more than warnings. -/
def notes (verbose : Bool) (events : List Event) : String :=
  String.join ((events.filter fun e => verbose || e.severity = .warning).map noteLine)

def errorLine (e : RunError) : String :=
  String.ofList (Text.stripRight Text.isBlank e.message.toList) ++ "\n"

def run (files : Files) (arguments : List String) : Outcome :=
  match invocation arguments with
  | .error ending => .ended ending
  | .ok i =>
    match execute files i with
    | (events, .ok text) => .finished 0 text (notes i.verbose events)
    | (events, .error e) =>
      match e.unread? with
      | some path => .needs path
      | none =>
        if e.isForUser then .finished 2 "" (notes i.verbose events ++ errorLine e) else .failed e

def versionLine : String := "mustc 0.1.0\n"

end Mustache.CommandLine
