import Mathlib.Control.Monad.Basic
import Mustache.Engine
import Mustache.Proofs.Render.Lockstep

/-! # Raising the limit of nesting

A rendering asks for the limit only to find out whether one more template may nest. Where it may under a
limit, it may under a higher one, so the two renderings walk in step until the lower limit is hit.
-/
namespace Mustache

/-- The second context is the first one with a limit that is no lower. -/
def Context.RaisedTo (c d : Context) : Prop :=
  c.limit ≤ d.limit ∧ d = { c with limit := d.limit }

def RenderState.limitedTo (s : RenderState) (limit : Int) : RenderState :=
  { s with context := { s.context with limit } }

theorem inStep_raisedTo : InStep Context.RaisedTo True 0 where
  resolve := by
    rintro c d ⟨-, hd⟩ lookup name
    rw [hd]
    cases lookup <;> rfl
  push := by
    rintro c d ⟨hle, hd⟩ v
    refine ⟨hle, ?_⟩
    rw [hd]
    rfl
  depth := by
    rintro c d ⟨-, hd⟩
    rw [hd]
  atDepth := by
    rintro c d ⟨hle, hd⟩ depth
    refine ⟨hle, ?_⟩
    rw [hd]
  limit := fun c d ⟨hle, _⟩ => .inr ⟨trivial, hle⟩
  room := by
    rintro c d ⟨-, hd⟩
    rw [hd]
    exact .inl (Int.add_zero _).symm

/-- A rendering that does not hit the limit is the same under every higher one: it ends with the same text
or the same error, notes the same events in the same order, uses up the same elements of iterators, and
leaves the same scopes and depth. -/
theorem Engine.render_limit_raised (e : Engine) (p : Program) (indent : String) (escape : Bool)
    {s : RenderState} {limit : Int} (hlimit : s.context.limit ≤ limit)
    (hdeep : ∀ l, ((e.render p indent escape).run s).1 ≠ .error (.tooDeep l)) :
    (e.render p indent escape).run (s.limitedTo limit) =
      (((e.render p indent escape).run s).1, ((e.render p indent escape).run s).2.limitedTo limit) := by
  have hraised : s.context.RaisedTo (s.limitedTo limit).context := ⟨hlimit, rfl⟩
  rcases Program.follows_render e.templates e.escaper inStep_raisedTo p indent escape _ _ s.store s.events hraised with
    ⟨-, l, herror⟩ | ⟨r, store, events, hlow, hhigh⟩
  · exact absurd herror (hdeep l)
  · have hrun : (e.render p indent escape).run s = (r, ⟨s.context, store, events⟩) := hlow
    rw [hrun]
    exact hhigh

theorem Engine.render_limit_raised_iterator : ∃ (e : Engine) (s : RenderState), s.context.limit = 2 ∧
    (∀ l, ((e.render ⟨"t", [.callPartial "p" "" false]⟩ "" false).run s).1 ≠ .error (.tooDeep l)) ∧
    ((e.render ⟨"t", [.callPartial "p" "" false]⟩ "" false).run (s.limitedTo 9)).1 = .ok "12" ∧
    Event.warnings ((e.render ⟨"t", [.callPartial "p" "" false]⟩ "" false).run (s.limitedTo 9)).2.events =
      ["Partial 'q' not found, rendering it as empty"] ∧
    ((e.render ⟨"t", [.callPartial "p" "" false]⟩ "" false).run
      (s.limitedTo 9)).2.store.iterators.map List.length = [0] := by
  let each := "{{#i}}{{.}}{{/i}}{{>q}}"
  let e : Engine := ⟨.standard, 100, false, .table [("p", each)]⟩
  let s : RenderState := ⟨⟨[.map [(.text "i", .iterator 0)]], 0, 2, .standard⟩, ⟨[[.int 1, .int 2]], []⟩, []⟩
  have hlow : ((e.render ⟨"t", [.callPartial "p" "" false]⟩ "" false).run s).1 = .ok "12" := by
    decide +kernel
  have hdeep : ∀ l, ((e.render ⟨"t", [.callPartial "p" "" false]⟩ "" false).run s).1 ≠
      .error (.tooDeep l) := by
    intro l
    simp [hlow]
  have hsame := e.render_limit_raised _ "" false (show s.context.limit ≤ 9 by decide) hdeep
  refine ⟨e, s, rfl, hdeep, ?_, ?_, ?_⟩
  · simp only [hsame, hlow]
  · rw [hsame]
    decide +kernel
  · rw [hsame]
    decide +kernel

end Mustache
