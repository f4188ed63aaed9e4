import Mustache.Node
import Mustache.Render.State

/-! # What a tree means

A tree is read directly, with no instructions and no routines in between: each section runs over its own
children. This is what a compiled template is measured against. Partials have no text here.
-/
namespace Mustache.Node

def forEach (items : List Value) (body : RenderM String) : RenderM String :=
  String.join <$> items.mapM fun v => RenderM.withScope v body

def forNext (id : Nat) (body : RenderM String) : RenderM String := do
  match ← RenderM.takeNext id with
  | none => return ""
  | some v => RenderM.withScope v body

/-- Does the same for each element that an iterator has to give. Those that `body` takes away are gone. -/
def forGiven (id : Nat) (body : RenderM String) : RenderM String := do
  let items := (← get).store.remaining id
  String.join <$> items.mapM fun _ => forNext id body

def overValue (v : Value) (body : RenderM String) : RenderM String :=
  if v.truth then
    match v.iteration with
    | .once => RenderM.withScope v body
    | .each items | .members _ items => forEach items body
    | .drain id => forGiven id body
  else return ""

mutual

def interpretOne (escaper : Escaper) : Node → RenderM String
  | text s => return s
  | interpolation name escape => do
    let v ← RenderM.resolve (.ofName name) name
    if escape then RenderM.lift .unescapable (escaper.escape v.rendered) else return v.rendered
  | sectionBlock name _ _ _ children => do
    let v ← RenderM.resolve (.ofName name) name
    overValue v (interpret escaper children)
  | invertedBlock name children => do
    let v ← RenderM.resolve (.ofName name) name
    if v.truth then return "" else interpret escaper children
  | partialTag _ _ | comment | foreign _ _ => return ""

def interpret (escaper : Escaper) : List Node → RenderM String
  | [] => return ""
  | n :: ns => do
    let first ← interpretOne escaper n
    let rest ← interpret escaper ns
    return first ++ rest

end

theorem forEach_nil (body : RenderM String) : forEach [] body = pure "" := by
  rw [forEach, List.mapM_nil, map_pure]
  rfl

theorem forEach_cons (v : Value) (vs : List Value) (body : RenderM String) :
    forEach (v :: vs) body = do
      let first ← RenderM.withScope v body
      let rest ← forEach vs body
      return first ++ rest := by
  simp [forEach, List.mapM_cons]

end Mustache.Node
