import Mustache.Proofs.Render.Lockstep

/-! # How renderings fail

Which errors a rendering ends with is settled by what it asks for: the escaper, the other templates and
the values that are called. A property *confines* renderings to a kind of values and a kind of errors if in
a state with the property names stand for such values only, what a rendering does with them comes to a state
with the property again, and calls of them fail with such errors only. Then so does the whole rendering.
-/
namespace Mustache

/-- States with the property `P` show only values of the kind `V`, and what goes wrong there is of the
kind `Q`. -/
structure Confines (P : RenderState → Prop) (V : Value → Prop) (Q : RenderError → Prop) : Prop where
  resolve : ∀ t, P t → ∀ lookup name, V (t.store.current (t.context.resolve lookup name))
  note : ∀ t, P t → ∀ events, P { t with events := t.events ++ events }
  push : ∀ t, P t → ∀ v, V v → P { t with context := t.context.push v }
  drop : ∀ t, P t → P { t with context := t.context.drop }
  atDepth : ∀ t, P t → ∀ depth, P { t with context := { t.context with depth } }
  each : ∀ v items, V v → v.iteration = .each items → ∀ w ∈ items, V w
  members : ∀ v id items, V v → v.iteration = .members id items → ∀ w ∈ items, V w
  next : ∀ t, P t → ∀ v id, V v → v.iteration = .drain id → ∀ w store,
    t.store.next? id = some (w, store) → V w ∧ P { t with store }
  answered : ∀ t, P t → ∀ v call argument a, V v → v.call? = some call → call argument = .ok a →
    P { t with store := t.store.after a }
  failed : ∀ v call argument e, V v → v.call? = some call → call argument = .error e → Q (.callFailed e)
  tooDeep : ∀ limit, Q (.tooDeep limit)
  setResized : Q .setResized

theorem confines_any {Q : RenderError → Prop} (hcall : ∀ e, Q (.callFailed e))
    (hdeep : ∀ limit, Q (.tooDeep limit)) (hset : Q .setResized) : Confines (fun _ => True) (fun _ => True) Q where
  resolve _ _ _ _ := trivial
  note _ _ _ := trivial
  push _ _ _ _ := trivial
  drop _ _ := trivial
  atDepth _ _ _ := trivial
  each _ _ _ _ _ _ := trivial
  members _ _ _ _ _ _ _ := trivial
  next _ _ _ _ _ _ _ _ _ := ⟨trivial, trivial⟩
  answered _ _ _ _ _ _ _ _ _ := trivial
  failed _ _ _ e _ _ _ := hcall e
  tooDeep := hdeep
  setResized := hset

structure Templates.FailOnly (templates : Templates) (Q : RenderError → Prop) : Prop where
  partialNamed : ∀ name e, (templates.partialNamed name).2 = .error e → Q e
  lambdaText : ∀ text delimiters e, (templates.lambdaText text delimiters).2 = .error e → Q e

variable {α β : Type} {P : RenderState → Prop} {V : Value → Prop} {Q : RenderError → Prop}

namespace RenderM

variable {x : RenderM α}

/-- From a state with the property it comes to one again, and fails with an error of the kind if at all. -/
def FailsOnly (P : RenderState → Prop) (Q : RenderError → Prop) (x : RenderM α) : Prop :=
  ∀ t, P t → P (x.run t).2 ∧ ∀ e, (x.run t).1 = .error e → Q e

theorem failsOnly_pure (a : α) : FailsOnly P Q (pure a) :=
  fun _ ht => ⟨ht, nofun⟩

theorem failsOnly_throw {e : RenderError} (he : Q e) : FailsOnly P Q (throw e : RenderM α) := by
  refine fun t ht => ⟨ht, fun e' he' => ?_⟩
  cases he'
  exact he

theorem failsOnly_lift {ε : Type} {wrap : ε → RenderError} {r : Except ε α}
    (h : ∀ e, r = .error e → Q (wrap e)) : FailsOnly P Q (lift wrap r) := by
  intro t ht
  rw [run_lift]
  refine ⟨ht, fun e he => ?_⟩
  cases r with
  | ok a => cases he
  | error e' =>
    cases he
    exact h e' rfl

theorem FailsOnly.bind {k : α → RenderM β} (h : FailsOnly P Q x) (hk : ∀ a, FailsOnly P Q (k a)) :
    FailsOnly P Q (x >>= k) := by
  intro t ht
  obtain ⟨hP, hQ⟩ := h t ht
  rw [run_bind]
  rcases hx : x.run t with ⟨e | a, t'⟩
  · rw [hx] at hP hQ
    refine ⟨hP, fun e' he' => ?_⟩
    cases he'
    exact hQ e rfl
  · rw [hx] at hP
    exact hk a t' hP

theorem failsOnly_get_bind {k : RenderState → RenderM α} (hk : ∀ s, FailsOnly P Q (k s)) :
    FailsOnly P Q (get >>= k) := by
  intro t ht
  rw [run_bind, run_get]
  exact hk t t ht

section Confined

variable (hP : Confines P V Q)
include hP

theorem failsOnly_note (events : List Event) : FailsOnly P Q (note events) :=
  fun t ht => ⟨hP.note t ht events, nofun⟩

theorem failsOnly_resolve_bind {k : Value → RenderM α} (lookup : Lookup) (name : String)
    (hk : ∀ v, V v → FailsOnly P Q (k v)) : FailsOnly P Q (resolve lookup name >>= k) := by
  intro t ht
  rw [run_bind, run_resolve]
  exact hk _ (hP.resolve t ht lookup name) t ht

theorem failsOnly_takeNext_bind {k : Option Value → RenderM α} {v : Value} {id : Nat} (hv : V v)
    (hiter : v.iteration = .drain id) (hnone : FailsOnly P Q (k none))
    (hsome : ∀ w, V w → FailsOnly P Q (k (some w))) : FailsOnly P Q (takeNext id >>= k) := by
  intro t ht
  rw [run_bind, run_takeNext]
  cases hnext : t.store.next? id with
  | none => exact hnone t ht
  | some found =>
    obtain ⟨hw, ht'⟩ := hP.next t ht v id hv hiter found.1 found.2 hnext
    exact hsome found.1 hw _ ht'

theorem failsOnly_checkSize (id : Nat) (items : List Value) : FailsOnly P Q (checkSize id items) := by
  intro t ht
  rw [run_checkSize]
  refine ⟨ht, fun e he => ?_⟩
  simp only at he
  split at he
  · cases he
    exact hP.setResized
  · cases he

theorem failsOnly_answer {v : Value} {call : Option String → Except CallError Answer} (hv : V v)
    (hcall : v.call? = some call) (argument : Option String) : FailsOnly P Q (answer call argument) := by
  intro t ht
  rw [answer, run_bind, run_lift]
  cases ha : call argument with
  | error e =>
    refine ⟨ht, fun e' he' => ?_⟩
    cases he'
    exact hP.failed v call argument e hv hcall ha
  | ok a =>
    refine ⟨hP.answered t ht v call argument a hv hcall ha, fun e he => ?_⟩
    cases he

theorem FailsOnly.withScope {v : Value} (hv : V v) (h : FailsOnly P Q x) :
    FailsOnly P Q (RenderM.withScope v x) := by
  intro t ht
  rw [run_withScope, run_thenRestore]
  obtain ⟨hafter, herror⟩ := h _ (hP.push t ht v hv)
  exact ⟨hP.drop _ hafter, herror⟩

theorem FailsOnly.withDepth (frames : Nat) (h : FailsOnly P Q x) :
    FailsOnly P Q (RenderM.withDepth frames x) := by
  intro t ht
  rw [run_withDepth]
  cases hdeeper : t.context.deeper? frames with
  | none =>
    refine ⟨ht, fun e he => ?_⟩
    cases he
    exact hP.tooDeep _
  | some deeper =>
    obtain ⟨-, rfl⟩ := Context.deeper?_eq_some_iff.mp hdeeper
    obtain ⟨hafter, herror⟩ := h _ (hP.atDepth t ht (t.context.depth + 1))
    exact ⟨hP.atDepth _ hafter _, herror⟩

theorem failsOnly_load {found : List Event × Except RenderError Program}
    (hfound : ∀ e, found.2 = .error e → Q e) : FailsOnly P Q (Surroundings.load found) :=
  (failsOnly_note hP found.1).bind fun _ => failsOnly_lift hfound

end Confined

end RenderM

namespace Surroundings
open RenderM

section Loops

variable (hP : Confines P V Q) {body : Bool → RenderM Output}
  (hbody : ∀ carried, FailsOnly P Q (body carried))
include hP hbody

theorem failsOnly_runEach {items : List Value} (hitems : ∀ w ∈ items, V w) (carried : Bool) :
    FailsOnly P Q (runEach body items carried) := by
  induction items generalizing carried with
  | nil => exact failsOnly_pure _
  | cons w items ih =>
    obtain ⟨hw, hrest⟩ := List.forall_mem_cons.mp hitems
    rw [runEach]
    refine ((hbody carried).withScope hP hw).bind fun first => ?_
    exact (ih hrest first.carried).bind fun rest => failsOnly_pure _

theorem failsOnly_drain {v : Value} {id : Nat} (hv : V v) (hiter : v.iteration = .drain id) (bound : Nat)
    (carried : Bool) : FailsOnly P Q (drain body id bound carried) := by
  induction bound generalizing carried with
  | zero => exact failsOnly_pure _
  | succ bound ih =>
    rw [drain]
    refine failsOnly_takeNext_bind hP hv hiter (failsOnly_pure _) fun w hw => ?_
    refine ((hbody carried).withScope hP hw).bind fun first => ?_
    exact (ih first.carried).bind fun rest => failsOnly_pure _

theorem failsOnly_runOver {v : Value} (hv : V v) (carried : Bool) :
    FailsOnly P Q (runOver v body carried) := by
  unfold runOver
  split
  · exact failsOnly_pure _
  · split
    · exact (hbody carried).withScope hP hv
    · rename_i items hiter
      exact failsOnly_runEach hP hbody (hP.each v items hv hiter) carried
    · rename_i id items hiter
      have hwatched : ∀ carried, FailsOnly P Q (body carried <* checkSize id items) := fun carried =>
        (hbody carried).bind fun out => (failsOnly_checkSize hP id items).bind fun _ => failsOnly_pure out
      exact failsOnly_runEach hP hwatched (hP.members v id items hv hiter) carried
    · rename_i id hiter
      exact failsOnly_get_bind fun s => failsOnly_drain hP hbody hv hiter _ carried

end Loops

structure FailOnly (sur : Surroundings) (P : RenderState → Prop) (Q : RenderError → Prop) : Prop where
  templates : sur.templates.FailOnly Q
  escape : ∀ text e, sur.escaper.escape text = .error e → Q (.unescapable e)
  nested : ∀ frames p indent carried, FailsOnly P Q (sur.nested frames p indent carried)

theorem FailOnly.inBody {sur : Surroundings} (h : sur.FailOnly P Q) : sur.inBody.FailOnly P Q :=
  ⟨h.templates, h.escape, h.nested⟩

theorem failsOnly_variableText {sur : Surroundings} (hP : Confines P V Q) (hsur : sur.FailOnly P Q)
    {v : Value} (hv : V v) : FailsOnly P Q (sur.variableText v) := by
  unfold variableText
  split
  · rename_i call hcall
    refine FailsOnly.withDepth hP _ ?_
    refine (failsOnly_answer hP hv hcall none).bind fun text => ?_
    exact (failsOnly_load hP (hsur.templates.lambdaText text none)).bind fun p => hsur.nested _ p "" false
  · exact failsOnly_pure _

mutual

theorem failsOnly_runOne {sur : Surroundings} (hP : Confines P V Q) (hsur : sur.FailOnly P Q) :
    ∀ (i : Instruction) (carried : Bool), FailsOnly P Q (sur.runOne i carried)
  | .literal text indent, carried => by
    rw [runOne]
    exact failsOnly_pure _
  | .interpolate lookup name escape indent, carried => by
    rw [runOne]
    refine failsOnly_resolve_bind hP lookup name fun v hv => ?_
    refine (failsOnly_variableText hP hsur hv).bind fun text => ?_
    cases escape with
    | true => exact (failsOnly_lift (hsur.escape text)).bind fun out => failsOnly_pure _
    | false => exact (failsOnly_pure text).bind fun out => failsOnly_pure _
  | .callSection ⟨_, source, delimiters, body⟩ lookup name inline, carried => by
    rw [runOne]
    refine failsOnly_resolve_bind hP lookup name fun v hv => ?_
    split
    · rename_i call hcall
      refine FailsOnly.bind (FailsOnly.withDepth hP _ ?_) fun text => failsOnly_pure _
      refine (failsOnly_answer hP hv hcall (some source)).bind fun text => ?_
      exact (failsOnly_load hP (hsur.templates.lambdaText text delimiters)).bind fun p => hsur.nested _ p _ _
    · exact failsOnly_runOver hP (failsOnly_runAll hP hsur.inBody body) hv carried
  | .callInverted lookup name body, carried => by
    rw [runOne]
    refine failsOnly_resolve_bind hP lookup name fun v hv => ?_
    split
    · exact failsOnly_pure _
    · exact failsOnly_runAll hP hsur.inBody body carried
  | .callPartial name indent inline, carried => by
    rw [runOne]
    refine (failsOnly_note hP _).bind fun _ => ?_
    refine FailsOnly.bind (FailsOnly.withDepth hP _ ?_) fun text => failsOnly_pure _
    exact (failsOnly_load hP (hsur.templates.partialNamed name)).bind fun p => hsur.nested _ p _ _

theorem failsOnly_runAll {sur : Surroundings} (hP : Confines P V Q) (hsur : sur.FailOnly P Q) :
    ∀ (is : List Instruction) (carried : Bool), FailsOnly P Q (sur.runAll is carried)
  | [], carried => by
    rw [runAll]
    exact failsOnly_pure _
  | i :: is, carried => by
    rw [runAll]
    refine (failsOnly_runOne hP hsur i carried).bind fun first => ?_
    exact (failsOnly_runAll hP hsur is first.carried).bind fun rest => failsOnly_pure _

end

end Surroundings

namespace Program
open RenderM

section Confined

variable (hP : Confines P V Q) {templates : Templates} (htemplates : templates.FailOnly Q)
  {escaper : Escaper} (hescape : ∀ text e, escaper.escape text = .error e → Q (.unescapable e))
include hP htemplates hescape

theorem failsOnly_renderWithin (levels frames : Nat) (p : Program) (indent : String) (carried : Bool) :
    FailsOnly P Q (renderWithin templates escaper levels frames p indent carried) := by
  induction levels generalizing frames p indent carried with
  | zero =>
    rw [renderWithin]
    refine FailsOnly.bind (Surroundings.failsOnly_runAll hP ⟨htemplates, hescape, ?_⟩ _ carried)
      fun out => failsOnly_pure _
    exact fun _ _ _ _ => failsOnly_get_bind fun s => failsOnly_throw (hP.tooDeep _)
  | succ levels ih =>
    rw [renderWithin]
    exact FailsOnly.bind (Surroundings.failsOnly_runAll hP ⟨htemplates, hescape, ih⟩ _ carried)
      fun out => failsOnly_pure _

/-- A rendering fails only as the escaper, the other templates and the values that are called do. -/
theorem failsOnly_render (p : Program) (indent : String) (escape : Bool) :
    FailsOnly P Q (p.render templates escaper indent escape) := by
  rw [render]
  refine FailsOnly.bind ?_ fun text => ?_
  · exact failsOnly_get_bind fun s => failsOnly_renderWithin hP htemplates hescape _ 0 p indent false
  · cases escape with
    | true => exact failsOnly_lift (hescape text)
    | false => exact failsOnly_pure text

end Confined

end Program

end Mustache
