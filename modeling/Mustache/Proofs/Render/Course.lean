import Mathlib.Data.Prod.Lex
import Mustache.Proofs.Render.Outcome

/-! # The course of a rendering

A rendering is taken apart into activations: to run instructions, to go through the elements of a list, to
use up an iterator. An activation does not recurse. Its course is a tree that shows each state it passes
and, where it needs another activation, a call and what comes after each answer to it. Nothing in a course
says that a rendering ends: no levels are counted and an iterator may be asked without end.

`Goes` says how a course goes when each call is answered by the course of the activation it calls. In it a
call has less *left* than the activation that makes it: fewer levels to nest in, or as many and fewer
instructions in the tree of its program, or as many of both and fewer elements to go through.
-/
namespace Mustache

namespace Instruction

mutual

def treeSizeOne : Instruction → Nat
  | callSection ⟨_, _, _, body⟩ _ _ _ => treeSize body + 1
  | callInverted _ _ body => treeSize body + 1
  | literal _ _ | interpolate _ _ _ _ | callPartial _ _ _ => 1

def treeSize : List Instruction → Nat
  | [] => 0
  | i :: is => treeSizeOne i + treeSize is

end

theorem treeSizeOne_pos (i : Instruction) : 0 < i.treeSizeOne := by
  cases i <;> simp [treeSizeOne]

end Instruction

/-- What an activation goes through: instructions, or elements of a list or of an iterator with the body of
a section for each. A set whose elements are gone through may have to keep its size. -/
inductive Task where
  | instructions (is : List Instruction)
  | elements (body : List Instruction) (watched : Option (Nat × List Value)) (items : List Value)
  | drain (body : List Instruction) (id : Nat)

namespace Task

def instructionsLeft : Task → Nat
  | instructions is => Instruction.treeSize is
  | elements body _ _ | drain body _ => Instruction.treeSize body

def elementsLeft (store : Store) : Task → Nat
  | instructions _ => 0
  | elements _ _ items => items.length
  | drain _ id => (store.remaining id).length

end Task

/-- A task in a program whose lines come after `indent`, in `frames` frames more than the rendering and with
the line under way carried or not. -/
structure Activation where
  program : String
  indent : String
  frames : Nat
  task : Task
  carried : Bool

abbrev Left := ℕ ×ₗ ℕ ×ₗ ℕ

def Activation.left (a : Activation) (s : RenderState) : Left :=
  toLex (s.context.levelsLeft, toLex (a.task.instructionsLeft, a.task.elementsLeft s.store))

/-- The states that are passed and the calls that are made on the way to an end. -/
inductive Course (α : Type) where
  | ends (a : α)
  | passes (s : RenderState) (next : Course α)
  | calls (called : Activation) (s : RenderState)
      (next : Except RenderError Output × RenderState → Course α)

namespace Course

def bind {α β : Type} : Course α → (α → Course β) → Course β
  | ends a, f => f a
  | passes s next, f => passes s (next.bind f)
  | calls called s next, f => calls called s fun r => (next r).bind f

instance : Monad Course where
  pure := ends
  bind := bind

end Course

abbrev CourseM := ExceptT RenderError (StateT RenderState Course)

namespace CourseM

variable {α β : Type}

theorem run_bind (x : CourseM α) (f : α → CourseM β) (s : RenderState) :
    (x >>= f).run s = (x.run s).bind fun r => match r with
      | (.ok a, t) => (f a).run t
      | (.error e, t) => .ends (.error e, t) := by
  have h : (x >>= f).run s = (x.run s).bind fun r => ExceptT.bindCont f r.1 r.2 := rfl
  rw [h]
  congr 1
  funext r
  rcases r with ⟨a | a, t⟩ <;> rfl

def perform (m : RenderM α) : CourseM α :=
  fun s => .passes (m.run s).2 (.ends (m.run s))

def call (a : Activation) : CourseM Output :=
  fun s => .calls a s .ends

def within (context : Context) (restore : Context → Context) (body : CourseM α) : CourseM α :=
  fun s => .passes { s with context } <| (body.run { s with context }).bind fun (r, t) =>
    .passes { t with context := restore t.context } (.ends (r, { t with context := restore t.context }))

def withScope (v : Value) (body : CourseM α) : CourseM α :=
  fun s => within (s.context.push v) Context.drop body s

def withDepth (frames : Nat) (body : CourseM α) : CourseM α :=
  fun s => match s.context.deeper? frames with
  | none => .ends (.error (.tooDeep s.context.limit), s)
  | some deeper => within deeper Context.shallower body s

def watch (watched : Option (Nat × List Value)) (body : CourseM Output) : CourseM Output :=
  match watched with
  | none => body
  | some (id, items) => do
    let out ← body
    perform (RenderM.checkSize id items)
    return out

end CourseM

namespace Activation
open CourseM

variable (templates : Templates) (escaper : Escaper)

def nested (frames : Nat) (p : Program) (indent : String) (carried : Bool) : CourseM String := do
  let out ← call ⟨p.name, indent, frames, .instructions p.instructions, carried⟩
  return out.text

/-- The surroundings of an activation; other programs are not run through them but called. -/
def surroundings (a : Activation) : Surroundings :=
  ⟨templates, escaper, a.program, a.indent, a.frames, fun _ _ _ _ => pure ""⟩

def inBody (a : Activation) : Activation :=
  { a with frames := a.frames + Surroundings.bodyFrames }

def variableText (a : Activation) (v : Value) : CourseM String :=
  match v.call? with
  | some lambda => withDepth (a.frames + Surroundings.guardFrames) do
    let text ← perform (RenderM.answer lambda none)
    let program ← perform (Surroundings.load (templates.lambdaText text none))
    nested (a.frames + Surroundings.variableFrames) program "" false
  | none => pure v.rendered

def runOver (a : Activation) (v : Value) (body : List Instruction) (carried : Bool) : CourseM Output :=
  let runs (task : Task) : CourseM Output := call { a.inBody with task, carried }
  if !v.truth then pure ⟨"", carried⟩
  else match v.iteration with
    | .once => withScope v (runs (.instructions body))
    | .each items => runs (.elements body none items)
    | .members id items => runs (.elements body (some (id, items)) items)
    | .drain id => runs (.drain body id)

def runOne (a : Activation) : Instruction → Bool → CourseM Output
  | .literal text indent, carried =>
    pure ((a.surroundings templates escaper).literal text indent carried)
  | .interpolate lookup name escape indent, carried => do
    let text ← a.variableText templates (← perform (RenderM.resolve lookup name))
    let text ← if escape then perform (RenderM.lift .unescapable (escaper.escape text)) else pure text
    return (a.surroundings templates escaper).lead indent carried text
  | .callSection ⟨_, source, delimiters, body⟩ lookup name inline, carried => do
    let v ← perform (RenderM.resolve lookup name)
    match v.call? with
    | some lambda =>
      let text ← withDepth (a.frames + Surroundings.guardFrames) do
        let text ← perform (RenderM.answer lambda (some source))
        let program ← perform (Surroundings.load (templates.lambdaText text delimiters))
        nested (a.frames + Surroundings.nestedFrames) program a.indent (inline || carried)
      return Surroundings.inserted text carried
    | none => a.runOver v body carried
  | .callInverted lookup name body, carried => do
    let v ← perform (RenderM.resolve lookup name)
    if v.truth then return ⟨"", carried⟩ else call { a.inBody with task := .instructions body, carried }
  | .callPartial name indent inline, carried => do
    perform (RenderM.note [.partialReached name a.program])
    let text ← withDepth (a.frames + Surroundings.guardFrames) do
      let program ← perform (Surroundings.load (templates.partialNamed name))
      nested (a.frames + Surroundings.nestedFrames) program (a.indent ++ indent) (inline || carried)
    return Surroundings.inserted text carried

def goOn (a : Activation) (task : Task) (first : Output) : CourseM Output := do
  let rest ← call { a with task, carried := first.carried }
  return ⟨first.text ++ rest.text, rest.carried⟩

/-- What an activation does, and what it calls for the rest. -/
def course (a : Activation) : CourseM Output :=
  match a.task with
  | .instructions [] => pure ⟨"", a.carried⟩
  | .instructions (i :: is) => do
    a.goOn (.instructions is) (← a.runOne templates escaper i a.carried)
  | .elements _ _ [] => pure ⟨"", a.carried⟩
  | .elements body watched (v :: vs) => do
    a.goOn (.elements body watched vs)
      (← withScope v (watch watched (call { a with task := .instructions body })))
  | .drain body id => do
    match ← perform (RenderM.takeNext id) with
    | none => return ⟨"", a.carried⟩
    | some v => a.goOn (.drain body id) (← withScope v (call { a with task := .instructions body }))

end Activation

def Program.course (p : Program) (escaper : Escaper) (indent : String) (escape : Bool) : CourseM String := do
  let text ← Activation.nested 0 p indent false
  if escape then CourseM.perform (RenderM.lift .unescapable (escaper.escape text)) else return text

/-- A course that goes on to an end through some moments, with less than `bound` left at each call it makes
and less at each call within a call than at that call. -/
inductive Goes (templates : Templates) (escaper : Escaper) :
    {α : Type} → Left → Course α → List RenderState → α → Prop
  | ends {α : Type} {bound : Left} (a : α) : Goes templates escaper bound (.ends a) [] a
  | passes {α : Type} {bound : Left} {s : RenderState} {next : Course α} {moments : List RenderState}
      {a : α} : Goes templates escaper bound next moments a →
      Goes templates escaper bound (.passes s next) (s :: moments) a
  | calls {α : Type} {bound : Left} {called : Activation} {s : RenderState}
      {next : Except RenderError Output × RenderState → Course α} {moments rest : List RenderState}
      {r : Except RenderError Output × RenderState} {a : α} :
      called.left s < bound →
      Goes templates escaper (called.left s) ((called.course templates escaper).run s) moments r →
      Goes templates escaper bound (next r) rest a →
      Goes templates escaper bound (.calls called s next) (s :: (moments ++ rest)) a

namespace Goes

variable {templates : Templates} {escaper : Escaper} {α β : Type} {bound bound' : Left} {x : Course α}
  {moments moments' : List RenderState} {a a' : α}

theorem bind {f : α → Course β} {b : β} (h : Goes templates escaper bound x moments a)
    (hf : Goes templates escaper bound (f a) moments' b) :
    Goes templates escaper bound (x.bind f) (moments ++ moments') b := by
  induction h with
  | ends a => exact hf
  | passes _ ih => exact .passes (ih hf)
  | calls hlt hcalled _ _ ih =>
    rw [List.cons_append, List.append_assoc]
    exact .calls hlt hcalled (ih hf)

theorem unique (h : Goes templates escaper bound x moments a)
    (h' : Goes templates escaper bound' x moments' a') : moments' = moments ∧ a' = a := by
  induction h generalizing bound' moments' with
  | ends a =>
    cases h'
    exact ⟨rfl, rfl⟩
  | passes _ ih =>
    cases h' with
    | passes h' =>
      obtain ⟨rfl, rfl⟩ := ih h'
      exact ⟨rfl, rfl⟩
  | calls _ _ _ ihcalled ih =>
    cases h' with
    | calls _ hcalled h' =>
      obtain ⟨rfl, rfl⟩ := ihcalled hcalled
      obtain ⟨rfl, rfl⟩ := ih h'
      exact ⟨rfl, rfl⟩

end Goes
end Mustache
