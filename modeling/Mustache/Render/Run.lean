import Mustache.Render.State

/-! # Running instructions

An instruction gives a text and says whether the line under way is *carried*: then what comes next on
it takes no indent, because the template that inserts this one has put the indent there already. A
line break ends that, and so does anything that took or dropped an indent.

`runOne` and `runAll` recurse on the instructions; templates inside the template are run by `nested`,
which `renderWithin` supplies with one level less each time, so every rendering ends. Sections and nested
templates run in more frames of the interpreter's stack than what they stand in.
-/
namespace Mustache

/-- Where a rendering finds other templates. Each answer comes with the events on the way to it. -/
structure Templates where
  partialNamed : String → List Event × Except RenderError Program
  lambdaText : String → Option String → List Event × Except RenderError Program

/-- What stays the same while instructions run: the other templates, the escaper, the program's name, the
indent of its lines, the frames in use since the rendering started, and the way to run another program with
frames and an indent of its own, carried or not. -/
structure Surroundings where
  templates : Templates
  escaper : Escaper
  program : String
  indent : String
  frames : Nat
  nested : Nat → Program → String → Bool → RenderM String

structure Output where
  text : String
  carried : Bool
  deriving DecidableEq, Repr

namespace Surroundings

/-- The frames between a run of instructions and the count of the frames, made for a nested template: the
instruction, the two calls that enter the guard, and the count. -/
def guardFrames : Nat := 4

/-- The frames from a run of instructions to that of a section's body. -/
def bodyFrames : Nat := 2

/-- The frames from a run of instructions to that of a partial, or of what a section's lambda gives. -/
def nestedFrames : Nat := 3

/-- The frames from a run of instructions to that of what a variable's lambda gives. -/
def variableFrames : Nat := 4

def inBody (s : Surroundings) : Surroundings :=
  { s with frames := s.frames + bodyFrames }

def load (found : List Event × Except RenderError Program) : RenderM Program := do
  RenderM.note found.1
  RenderM.lift id found.2

/-- Puts the indent before a text that starts a line, unless the line is carried. -/
def lead (s : Surroundings) (indent carried : Bool) (text : String) : Output :=
  if indent then ⟨(if carried then "" else s.indent) ++ text, false⟩
  else ⟨text, carried⟩

/-- A literal text; a line break in it ends the carried line. -/
def literal (s : Surroundings) (text : String) (indent carried : Bool) : Output :=
  let out := s.lead indent carried text
  { out with carried := out.carried && '\n' ∉ text.toList }

/-- The output of another template: unless it is empty, what comes after it is not carried. -/
def inserted (text : String) (carried : Bool) : Output :=
  ⟨text, carried && text.isEmpty⟩

/-- The text of a variable's value: what a call of it gives is rendered as a template of its own. -/
def variableText (s : Surroundings) (v : Value) : RenderM String :=
  match v.call? with
  | some call => RenderM.withDepth (s.frames + guardFrames) do
    let text ← RenderM.answer call none
    let program ← load (s.templates.lambdaText text none)
    s.nested (s.frames + variableFrames) program "" false
  | none => pure v.rendered

def runEach (body : Bool → RenderM Output) : List Value → Bool → RenderM Output
  | [], carried => pure ⟨"", carried⟩
  | v :: vs, carried => do
    let first ← RenderM.withScope v (body carried)
    let rest ← runEach body vs first.carried
    return ⟨first.text ++ rest.text, rest.carried⟩

/-- Runs `body` for each element an iterator still has to give, at most `bound` of them. -/
def drain (body : Bool → RenderM Output) (id : Nat) : Nat → Bool → RenderM Output
  | 0, carried => pure ⟨"", carried⟩
  | bound + 1, carried => do
    match ← RenderM.takeNext id with
    | none => return ⟨"", carried⟩
    | some v =>
      let first ← RenderM.withScope v (body carried)
      let rest ← drain body id bound first.carried
      return ⟨first.text ++ rest.text, rest.carried⟩

/-- Runs `body` as a section over a value that cannot be called. An iterator gives no more elements than it
holds now, since nothing adds to it. -/
def runOver (v : Value) (body : Bool → RenderM Output) (carried : Bool) : RenderM Output :=
  if !v.truth then pure ⟨"", carried⟩
  else match v.iteration with
    | .once => RenderM.withScope v (body carried)
    | .each items => runEach body items carried
    | .members id items =>
      runEach (fun carried => body carried <* RenderM.checkSize id items) items carried
    | .drain id => do
      let bound := ((← get).store.remaining id).length
      drain body id bound carried

mutual

def runOne (s : Surroundings) : Instruction → Bool → RenderM Output
  | .literal text indent, carried => pure (s.literal text indent carried)
  | .interpolate lookup name escape indent, carried => do
    let text ← s.variableText (← RenderM.resolve lookup name)
    let text ← if escape then RenderM.lift .unescapable (s.escaper.escape text) else pure text
    return s.lead indent carried text
  | .callSection ⟨_, source, delimiters, body⟩ lookup name inline, carried => do
    let v ← RenderM.resolve lookup name
    match v.call? with
    | some call =>
      let text ← RenderM.withDepth (s.frames + guardFrames) do
        let text ← RenderM.answer call (some source)
        let program ← load (s.templates.lambdaText text delimiters)
        s.nested (s.frames + nestedFrames) program s.indent (inline || carried)
      return inserted text carried
    | none => runOver v (runAll s.inBody body) carried
  | .callInverted lookup name body, carried => do
    let v ← RenderM.resolve lookup name
    if v.truth then return ⟨"", carried⟩ else runAll s.inBody body carried
  | .callPartial name indent inline, carried => do
    RenderM.note [.partialReached name s.program]
    let text ← RenderM.withDepth (s.frames + guardFrames) do
      let program ← load (s.templates.partialNamed name)
      s.nested (s.frames + nestedFrames) program (s.indent ++ indent) (inline || carried)
    return inserted text carried

def runAll (s : Surroundings) : List Instruction → Bool → RenderM Output
  | [], carried => pure ⟨"", carried⟩
  | i :: is, carried => do
    let first ← runOne s i carried
    let rest ← runAll s is first.carried
    return ⟨first.text ++ rest.text, rest.carried⟩

end

end Surroundings

namespace Program

/-- Renders a program with at most `levels` templates nested in it, its instructions in `frames` frames more
than those of the rendering. -/
def renderWithin (templates : Templates) (escaper : Escaper) :
    Nat → Nat → Program → String → Bool → RenderM String
  | 0, frames, p, indent, carried => do
    let nested (_ : Nat) (_ : Program) (_ : String) (_ : Bool) : RenderM String := do
      throw (.tooDeep (← get).context.limit)
    let s : Surroundings := ⟨templates, escaper, p.name, indent, frames, nested⟩
    return (← s.runAll p.instructions carried).text
  | levels + 1, frames, p, indent, carried => do
    let nested := renderWithin templates escaper levels
    let s : Surroundings := ⟨templates, escaper, p.name, indent, frames, nested⟩
    return (← s.runAll p.instructions carried).text

/-- Renders a program, each line after `indent`, its first line carried or not, in `frames` frames more than
those of the rendering. The context says how deep templates may nest. -/
def runAt (templates : Templates) (escaper : Escaper) (frames : Nat) (p : Program) (indent : String)
    (carried : Bool) : RenderM String := do
  renderWithin templates escaper (← get).context.levelsLeft frames p indent carried

def run (templates : Templates) (escaper : Escaper) (p : Program) (indent : String)
    (carried : Bool) : RenderM String :=
  p.runAt templates escaper 0 indent carried

def render (templates : Templates) (escaper : Escaper) (p : Program) (indent : String)
    (escape : Bool) : RenderM String := do
  let text ← p.run templates escaper indent false
  if escape then RenderM.lift .unescapable (escaper.escape text) else return text

end Program
end Mustache
