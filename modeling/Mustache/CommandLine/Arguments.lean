import Mustache.File.Path
import Mustache.Text.DecimalDigit

/-! # Command-line arguments

An option may be shortened as long as it stays the only one that starts that way, its value may follow
an equals sign or be the next argument, and short options may share a dash. Each argument is classified
first: an ambiguous option is refused wherever it stands. Then the arguments are taken in order, so the
first request for help or for the version ends the run before later mistakes are seen.
-/
namespace Mustache.CommandLine

inductive Flag where
  | help
  | version
  | verbose
  | config
  | data
  | partials
  deriving DecidableEq, Repr

def Flag.takesValue : Flag → Bool
  | .config | .data | .partials => true
  | .help | .version | .verbose => false

abbrev Options := List (String × Flag)

def globalOptions : Options :=
  [("-h", .help), ("--help", .help), ("-V", .version), ("--version", .version),
    ("-v", .verbose), ("--verbose", .verbose)]

def dumpOptions : Options :=
  [("-h", .help), ("--help", .help), ("--config", .config)]

def renderOptions : Options :=
  dumpOptions ++ [("--data", .data), ("--partials", .partials)]

inductive Ending where
  | help
  | version
  | usageError
  deriving DecidableEq, Repr

/-- What an argument is. An option may have a text attached, after an equals sign or directly; an unknown
one has no flag. -/
inductive Word where
  | operand (text : String)
  | option (name : List Char) (flag : Option Flag) (attached : Option (List Char))
  | separator
  deriving DecidableEq, Repr

def Options.named? (options : Options) (name : List Char) : Option Flag :=
  (options.find? (·.1.toList = name)).map (·.2)

def splitValue (cs : List Char) : List Char × Option (List Char) :=
  match cs.dropWhile (· != '=') with
  | [] => (cs, none)
  | _ :: value => (cs.takeWhile (· != '='), some value)

/-- The options that an argument may mean: those that start with it, or, after a single dash, the one
of its first letter with the rest as what is written with it. -/
def Options.candidates (options : Options) (cs : List Char) : List Word :=
  if cs.take 2 = ['-', '-'] then
    let (name, value) := splitValue cs
    (options.filter fun o => name.isPrefixOf o.1.toList).map fun (full, flag) =>
      .option full.toList (some flag) value
  else
    options.filterMap fun (full, flag) =>
      if full.toList = cs.take 2 then some (.option full.toList (some flag) (some (cs.drop 2)))
      else if cs.isPrefixOf full.toList then some (.option full.toList (some flag) none)
      else none

/-- Whether an argument looks like a negative number: digits of any script, perhaps with a point before
the last of them. A line feed after them does not count. -/
def isNegativeNumber (cs : List Char) : Bool :=
  match cs with
  | '-' :: rest =>
    let numeral := if rest.getLast? = some '\n' then rest.dropLast else rest
    match numeral.dropWhile Text.isDecimalDigit with
    | [] => !numeral.isEmpty
    | '.' :: fraction => !fraction.isEmpty && fraction.all Text.isDecimalDigit
    | _ => false
  | _ => false

/-- What an argument is among some options; `none` if it may mean several. -/
def Options.classify? (options : Options) (argument : String) : Option Word :=
  let cs := argument.toList
  let (name, value) := splitValue cs
  if cs.head? ≠ some '-' || cs.length = 1 then some (.operand argument)
  else if (options.named? cs).isSome then some (.option cs (options.named? cs) none)
  else if value.isSome && (options.named? name).isSome then
    some (.option name (options.named? name) value)
  else match options.candidates cs with
    | [word] => some word
    | _ :: _ :: _ => none
    | [] =>
      if isNegativeNumber cs || ' ' ∈ cs then some (.operand argument)
      else some (.option cs none none)

/-- What the arguments are: after a double dash all are operands. -/
def Options.classifyAll (options : Options) : List String → Except Ending (List Word)
  | [] => .ok []
  | a :: rest =>
    if a = "--" then .ok (.separator :: rest.map .operand)
    else match options.classify? a with
      | none => .error .usageError
      | some word => (word :: ·) <$> options.classifyAll rest

def Options.letters (options : Options) : List Char → Except Ending (List Flag)
  | [] => .ok []
  | c :: cs =>
    match options.named? ['-', c] with
    | none => .error .usageError
    | some flag =>
      if flag.takesValue then .error .usageError else (flag :: ·) <$> options.letters cs

/-- The flags that an option without a value sets. After a single dash the text attached to it holds the
letters of more options; otherwise nothing may be attached. -/
def Options.flags (options : Options) (name : List Char) (flag : Flag)
    (attached : Option (List Char)) : Except Ending (List Flag) :=
  match attached with
  | none => .ok [flag]
  | some text =>
    if text.isEmpty || name.take 2 = ['-', '-'] then .error .usageError
    else (flag :: ·) <$> options.letters text

inductive Command where
  | render
  | dump
  deriving DecidableEq, Repr

inductive PathOption where
  | absent
  /-- The option stands there, but its value was taken for the mark after which no options come. -/
  | blank
  | path (p : Path)
  deriving DecidableEq, Repr

def PathOption.ofValue (value : Option String) : PathOption :=
  match value with
  | none => absent
  | some text => if text = "--" then blank else path (.ofString text)

structure Invocation where
  verbose : Bool
  command : Command
  template : Path
  config : PathOption
  data : PathOption
  partials : PathOption
  deriving DecidableEq, Repr

/-- What a command's own arguments have said so far. `extra` holds if one of them means nothing. -/
structure CommandWords where
  template : Option String := none
  config : Option String := none
  data : Option String := none
  partials : Option String := none
  extra : Bool := false
  deriving DecidableEq, Repr

namespace CommandWords

def put (w : CommandWords) (flag : Flag) (value : String) : CommandWords :=
  match flag with
  | .config => { w with config := some value }
  | .data => { w with data := some value }
  | .partials => { w with partials := some value }
  | .help | .version | .verbose => w

def operand (w : CommandWords) (text : String) : CommandWords :=
  match w.template with
  | none => { w with template := some text }
  | some _ => { w with extra := true }

/-- Takes the arguments of a command in order. `afterOperand` holds right after the template, where a
double dash is passed over. -/
def take (options : Options) (w : CommandWords) (afterOperand : Bool) :
    List Word → Except Ending CommandWords
  | [] => .ok w
  | .operand text :: rest =>
    (w.operand text).take options w.template.isNone rest
  | .separator :: rest =>
    if afterOperand || (w.template.isNone && !rest.isEmpty) then w.take options false rest
    else ({ w with extra := true } : CommandWords).take options false rest
  | .option _ none _ :: rest => ({ w with extra := true } : CommandWords).take options false rest
  | .option name (some flag) attached :: rest =>
    if flag.takesValue then
      match attached with
      | some text => (w.put flag (String.ofList text)).take options false rest
      | none =>
        match rest with
        | .operand text :: more => (w.put flag text).take options false more
        | _ => .error .usageError
    else match options.flags name flag attached with
      | .error e => .error e
      | .ok flags => if flags.contains .help then .error .help else w.take options false rest

end CommandWords

def Command.ofName? (name : String) : Option Command :=
  if name = "render" then some .render
  else if name = "dump" then some .dump
  else none

def Command.options : Command → Options
  | .render => renderOptions
  | .dump => dumpOptions

def endingOf? (flags : List Flag) : Option Ending :=
  flags.findSome? fun
    | .help => some .help
    | .version => some .version
    | _ => none

def invocationOf (verbose extra : Bool) (name : String) (arguments : List String) :
    Except Ending Invocation := do
  match Command.ofName? name with
  | none => throw .usageError
  | some command =>
    let options := command.options
    let words ← options.classifyAll arguments
    let w ← ({} : CommandWords).take options false words
    match w.template with
    | none => throw .usageError
    | some template =>
      if extra || w.extra then throw .usageError
      return ⟨verbose, command, .ofString template, .ofValue w.config, .ofValue w.data,
        .ofValue w.partials⟩

/-- Takes the arguments up to the command, each beside its class; the command takes the rest. -/
def takeGlobal (verbose extra : Bool) : List (Word × String) → Except Ending Invocation
  | [] => .error .usageError
  | (.operand name, _) :: rest => invocationOf verbose extra name (rest.map (·.2))
  | (.separator, _) :: _ => .error .usageError
  | (.option _ none _, _) :: rest => takeGlobal verbose true rest
  | (.option name (some flag) attached, _) :: rest =>
    match globalOptions.flags name flag attached with
    | .error e => .error e
    | .ok flags =>
      match endingOf? flags with
      | some ending => .error ending
      | none => takeGlobal (verbose || flags.contains .verbose) extra rest

def invocation (arguments : List String) : Except Ending Invocation := do
  let words ← globalOptions.classifyAll arguments
  takeGlobal false false (words.zip arguments)

end Mustache.CommandLine
