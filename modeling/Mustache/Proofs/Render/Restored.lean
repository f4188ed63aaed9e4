import Mustache.Engine
import Mustache.Proofs.Render.Lockstep

/-! # The context after a rendering

Sections push scopes and nested templates raise the depth; both are put back on every way out. A part
of a rendering *keeps the context* when the context after it is the one before it, whatever its outcome.
That is so for what walks in step with itself, and a rendering does.
-/
namespace Mustache

def RenderM.KeepsContext {α : Type} (m : RenderM α) : Prop :=
  ∀ s : RenderState, (m.run s).2.context = s.context

theorem inStep_eq : InStep Eq False 0 where
  resolve := by
    rintro c d rfl lookup name
    rfl
  push := by
    rintro c d rfl v
    rfl
  depth := by
    rintro c d rfl
    rfl
  atDepth := by
    rintro c d rfl depth
    rfl
  limit := by
    rintro c d rfl
    exact .inl rfl
  room := by
    rintro c d rfl
    exact .inl (Int.add_zero _).symm

/-- In fewer frames a template is no sooner too deep. -/
theorem inStep_eq_more (more : Nat) : InStep Eq True more where
  resolve := inStep_eq.resolve
  push := inStep_eq.push
  depth := inStep_eq.depth
  atDepth := inStep_eq.atDepth
  limit := by
    rintro c d rfl
    exact .inl rfl
  room := by
    rintro c d rfl
    exact .inr ⟨trivial, by omega⟩

theorem RenderM.Follows.keepsContext {α : Type} {m : RenderM α} (h : Follows Eq False m m) :
    m.KeepsContext := by
  intro s
  rcases h s.context s.context s.store s.events rfl with ⟨hraised, -⟩ | ⟨r, store, events, hrun, -⟩
  · exact hraised.elim
  · have hs : m.run s = (r, ⟨s.context, store, events⟩) := hrun
    rw [hs]

theorem Program.keepsContext_runAt (templates : Templates) (escaper : Escaper) (p : Program) (frames : Nat)
    (indent : String) (carried : Bool) : (p.runAt templates escaper frames indent carried).KeepsContext :=
  (follows_runAt templates escaper inStep_eq frames p indent carried).keepsContext

theorem Program.keepsContext_render (templates : Templates) (escaper : Escaper) (p : Program)
    (indent : String) (escape : Bool) : (p.render templates escaper indent escape).KeepsContext :=
  (follows_render templates escaper inStep_eq p indent escape).keepsContext

/-- Whatever way a rendering ends, with a text or with any error, the scopes after it are those before
it in the same order, and the depth is the same. -/
theorem Engine.context_after_render (e : Engine) (p : Program) (indent : String) (escape : Bool)
    (s : RenderState) :
    ((e.render p indent escape).run s).2.context.scopes = s.context.scopes ∧
      ((e.render p indent escape).run s).2.context.depth = s.context.depth := by
  have h := Program.keepsContext_render e.templates e.escaper p indent escape s
  exact ⟨congrArg Context.scopes h, congrArg Context.depth h⟩

end Mustache
