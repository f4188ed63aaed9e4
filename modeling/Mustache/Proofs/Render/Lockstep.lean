import Mustache.Proofs.Render.Outcome

/-! # Renderings from two contexts

What a rendering asks of its context is the values of names and whether one more template may nest in it.
Two contexts walk *in step* if they answer alike and go on to do so under more scopes and at other depths.
Renderings from such contexts end alike, use up and note the same, and put back what they changed. The
second limit or the second stack's room may also be *raised*; then the first rendering may come to an end
there before that. It runs in some frames more than the second one, the same number all the way.
-/
namespace Mustache

namespace Context

@[simp] theorem drop_push (c : Context) (v : Value) : (c.push v).drop = c := rfl

variable {c d : Context} {frames : Nat}

theorem deeper?_eq_none_iff : c.deeper? frames = none ↔ c.limit ≤ c.depth ∨ c.stack.room < frames := by
  simp only [deeper?, ite_eq_left_iff, reduceCtorEq, imp_false, Decidable.not_not]

theorem deeper?_eq_some_iff : c.deeper? frames = some d ↔
    (c.depth < c.limit ∧ frames ≤ c.stack.room) ∧ { c with depth := c.depth + 1 } = d := by
  simp [deeper?]

theorem shallower_of_deeper? (h : c.deeper? frames = some d) : d.shallower = c := by
  obtain ⟨-, rfl⟩ := deeper?_eq_some_iff.mp h
  simp [shallower]

end Context

/-- Contexts related by `C` walk in step, what runs in the first one in `more` frames more. -/
structure InStep (C : Context → Context → Prop) (raised : Prop) (more : Nat) : Prop where
  resolve : ∀ c d, C c d → ∀ lookup name, c.resolve lookup name = d.resolve lookup name
  push : ∀ c d, C c d → ∀ v, C (c.push v) (d.push v)
  depth : ∀ c d, C c d → d.depth = c.depth
  atDepth : ∀ c d, C c d → ∀ depth, C { c with depth } { d with depth }
  limit : ∀ c d, C c d → d.limit = c.limit ∨ raised ∧ c.limit ≤ d.limit
  room : ∀ c d, C c d →
    c.stack.room = d.stack.room + more ∨ raised ∧ c.stack.room ≤ d.stack.room + more

namespace RenderM

variable {α β : Type} {C : Context → Context → Prop} {raised : Prop} {more : Nat} {x y : RenderM α}

/-- From related contexts `y` ends as `x` does and leaves the same, each in the context it came from,
unless a template is too deep for `x` where it may not be for `y`. -/
def Follows (C : Context → Context → Prop) (raised : Prop) (x y : RenderM α) : Prop :=
  ∀ c d store events, C c d →
    (raised ∧ ∃ limit, (x.run ⟨c, store, events⟩).1 = .error (.tooDeep limit)) ∨
    ∃ r store' events', x.run ⟨c, store, events⟩ = (r, ⟨c, store', events'⟩) ∧
      y.run ⟨d, store, events⟩ = (r, ⟨d, store', events'⟩)

def IsBlind (x : RenderM α) : Prop :=
  ∀ store events, ∃ r store' events', ∀ c, x.run ⟨c, store, events⟩ = (r, ⟨c, store', events'⟩)

theorem IsBlind.follows (h : IsBlind x) : Follows C raised x x := by
  intro c d store events _
  obtain ⟨r, store', events', hrun⟩ := h store events
  exact .inr ⟨r, store', events', hrun c, hrun d⟩

theorem isBlind_pure (a : α) : IsBlind (pure a) := by
  intro store events
  exact ⟨.ok a, store, events, fun _ => rfl⟩

theorem isBlind_note (events : List Event) : IsBlind (note events) := by
  intro store before
  exact ⟨.ok (), store, before ++ events, fun _ => rfl⟩

theorem isBlind_lift {ε : Type} (wrap : ε → RenderError) (r : Except ε α) : IsBlind (lift wrap r) := by
  intro store events
  exact ⟨r.mapError wrap, store, events, fun _ => run_lift wrap r _⟩

theorem isBlind_takeNext (id : Nat) : IsBlind (takeNext id) := by
  intro store events
  cases hnext : store.next? id with
  | none => exact ⟨.ok none, store, events, fun c => by simp [run_takeNext, hnext]⟩
  | some found => exact ⟨.ok (some found.1), found.2, events, fun c => by simp [run_takeNext, hnext]⟩

theorem isBlind_checkSize (id : Nat) (items : List Value) : IsBlind (checkSize id items) := by
  intro store events
  let r : Except RenderError Unit :=
    if (store.sets[id]?.getD items).length ≠ items.length then .error .setResized else .ok ()
  exact ⟨r, store, events, fun c => run_checkSize id items _⟩

theorem isBlind_answer (call : Option String → Except CallError Answer) (argument : Option String) :
    IsBlind (answer call argument) := by
  intro store events
  cases hcall : call argument with
  | error e =>
    refine ⟨.error (.callFailed e), store, events, fun c => ?_⟩
    simp only [answer, run_bind, run_lift, hcall]
    rfl
  | ok a =>
    refine ⟨.ok a.text, store.after a, events, fun c => ?_⟩
    simp only [answer, run_bind, run_lift, hcall]
    rfl

theorem Follows.bind {k l : α → RenderM β} (h : Follows C raised x y)
    (hk : ∀ a, Follows C raised (k a) (l a)) : Follows C raised (x >>= k) (y >>= l) := by
  intro c d store events hcd
  rcases h c d store events hcd with ⟨hraised, limit, hx⟩ | ⟨r, store', events', hx, hy⟩
  · exact .inl ⟨hraised, limit, run_bind_error hx k⟩
  · rw [run_bind, run_bind, hx, hy]
    cases r with
    | error e => exact .inr ⟨.error e, store', events', rfl, rfl⟩
    | ok a => exact hk a c d store' events' hcd

theorem follows_get_bind {k l : RenderState → RenderM β}
    (h : ∀ c d store events, C c d → Follows C raised (k ⟨c, store, events⟩) (l ⟨d, store, events⟩)) :
    Follows C raised (get >>= k) (get >>= l) := by
  intro c d store events hcd
  simp only [run_bind, run_get]
  exact h c d store events hcd c d store events hcd

theorem follows_resolve (hC : InStep C raised more) (lookup : Lookup) (name : String) :
    Follows C raised (resolve lookup name) (resolve lookup name) := by
  intro c d store events hcd
  have hvalue := hC.resolve c d hcd lookup name
  exact .inr ⟨_, store, events, rfl, by simp [run_resolve, hvalue]⟩

theorem Follows.withScope (hC : InStep C raised more) (h : Follows C raised x y) (v : Value) :
    Follows C raised (withScope v x) (withScope v y) := by
  intro c d store events hcd
  simp only [run_withScope, run_thenRestore]
  rcases h _ _ store events (hC.push c d hcd v) with hx | ⟨r, store', events', hx, hy⟩
  · exact .inl hx
  · exact .inr ⟨r, store', events', by simp [hx], by simp [hy]⟩

/-- Where one context allows no nested template the other one does not either, unless it is raised. -/
theorem Follows.withDepth (hC : InStep C raised more) (frames : Nat) (h : Follows C raised x y) :
    Follows C raised (withDepth (frames + more) x) (withDepth frames y) := by
  intro c d store events hcd
  have hdepth := hC.depth c d hcd
  have hlimit := hC.limit c d hcd
  have hroom := hC.room c d hcd
  simp only [run_withDepth]
  cases hc : c.deeper? (frames + more) with
  | none =>
    rcases hlimit with hlimit | ⟨hraised, -⟩
    · rcases hroom with hroom | ⟨hraised, -⟩
      · have hd : d.deeper? frames = none := by
          rw [Context.deeper?_eq_none_iff, hlimit, hdepth]
          have hnone := Context.deeper?_eq_none_iff.mp hc
          omega
        exact .inr ⟨.error (.tooDeep c.limit), store, events, rfl, by simp [hd, hlimit]⟩
      · exact .inl ⟨hraised, c.limit, rfl⟩
    · exact .inl ⟨hraised, c.limit, rfl⟩
  | some c' =>
    obtain ⟨hlt, rfl⟩ := Context.deeper?_eq_some_iff.mp hc
    have hd : d.deeper? frames = some { d with depth := c.depth + 1 } := by
      rw [Context.deeper?_eq_some_iff, hdepth]
      exact ⟨by omega, rfl⟩
    simp only [hd, run_thenRestore]
    rcases h _ _ store events (hC.atDepth c d hcd (c.depth + 1)) with hx | ⟨r, store', events', hx, hy⟩
    · exact .inl hx
    · exact .inr ⟨r, store', events', by simp [hx, Context.shallower_of_deeper? hc],
        by simp [hy, Context.shallower_of_deeper? hd]⟩

end RenderM

namespace Surroundings
open RenderM

variable {C : Context → Context → Prop} {raised : Prop} {more : Nat} {body other : Bool → RenderM Output}

section Loops

variable (hC : InStep C raised more) (hb : ∀ carried, Follows C raised (body carried) (other carried))
include hC hb

theorem follows_runEach (vs : List Value) (carried : Bool) :
    Follows C raised (runEach body vs carried) (runEach other vs carried) := by
  induction vs generalizing carried with
  | nil => exact (isBlind_pure _).follows
  | cons v vs ih =>
    refine ((hb carried).withScope hC v).bind fun first => ?_
    exact (ih first.carried).bind fun rest => (isBlind_pure _).follows

theorem follows_drain (id bound : Nat) (carried : Bool) :
    Follows C raised (drain body id bound carried) (drain other id bound carried) := by
  induction bound generalizing carried with
  | zero => exact (isBlind_pure _).follows
  | succ bound ih =>
    refine (isBlind_takeNext id).follows.bind fun next => ?_
    cases next with
    | none => exact (isBlind_pure _).follows
    | some v =>
      refine ((hb carried).withScope hC v).bind fun first => ?_
      exact (ih first.carried).bind fun rest => (isBlind_pure _).follows

theorem follows_runOver (v : Value) (carried : Bool) :
    Follows C raised (runOver v body carried) (runOver v other carried) := by
  unfold runOver
  split
  · exact (isBlind_pure _).follows
  · split
    · exact (hb carried).withScope hC v
    · exact follows_runEach hC hb _ carried
    · rename_i id items _
      refine follows_runEach hC (fun c => ?_) items carried
      refine (hb c).bind fun out => ?_
      exact (isBlind_checkSize id items).follows.bind fun _ => (isBlind_pure out).follows
    · exact follows_get_bind fun _ _ _ _ _ => follows_drain hC hb _ _ carried

end Loops

theorem follows_load (found : List Event × Except RenderError Program) :
    Follows C raised (load found) (load found) :=
  (isBlind_note _).follows.bind fun _ => (isBlind_lift _ _).follows

variable {frames : Nat} {nested : Nat → Program → String → Bool → RenderM String}

structure Beside (C : Context → Context → Prop) (raised : Prop) (more : Nat) (s : Surroundings)
    (frames : Nat) (nested : Nat → Program → String → Bool → RenderM String) : Prop where
  frames : s.frames = frames + more
  nested : ∀ frames p indent carried,
    Follows C raised (s.nested (frames + more) p indent carried) (nested frames p indent carried)

theorem Beside.nestedAt {s : Surroundings} (h : s.Beside C raised more frames nested) (cost : Nat)
    (p : Program) (indent : String) (carried : Bool) :
    Follows C raised (s.nested (s.frames + cost) p indent carried) (nested (frames + cost) p indent carried) := by
  rw [h.frames, Nat.add_right_comm]
  exact h.nested (frames + cost) p indent carried

theorem Beside.inBody {s : Surroundings} (h : s.Beside C raised more frames nested) :
    s.inBody.Beside C raised more (frames + bodyFrames) nested where
  frames := by
    change s.frames + bodyFrames = _
    rw [h.frames, Nat.add_right_comm]
  nested := h.nested

theorem Beside.withDepth {s : Surroundings} {x y : RenderM String} (hC : InStep C raised more)
    (h : s.Beside C raised more frames nested) (hxy : Follows C raised x y) :
    Follows C raised (withDepth (s.frames + guardFrames) x) (withDepth (frames + guardFrames) y) := by
  rw [h.frames, Nat.add_right_comm]
  exact Follows.withDepth hC _ hxy

theorem follows_variableText {s : Surroundings} (hC : InStep C raised more)
    (hn : s.Beside C raised more frames nested) (v : Value) :
    Follows C raised (s.variableText v) ({ s with frames, nested }.variableText v) := by
  unfold variableText
  split
  · refine hn.withDepth hC ((isBlind_answer _ none).follows.bind fun text => ?_)
    exact (follows_load _).bind fun p => hn.nestedAt _ p "" false
  · exact (isBlind_pure _).follows

mutual

theorem follows_runOne {s : Surroundings} {frames : Nat} (hC : InStep C raised more)
    (hn : s.Beside C raised more frames nested) : ∀ (i : Instruction) (carried : Bool),
    Follows C raised (s.runOne i carried) ({ s with frames, nested }.runOne i carried)
  | .literal text indent, carried => by
    rw [runOne, runOne]
    exact (isBlind_pure _).follows
  | .interpolate lookup name escape indent, carried => by
    rw [runOne, runOne]
    refine (follows_resolve hC lookup name).bind fun v => ?_
    refine (follows_variableText hC hn v).bind fun text => ?_
    cases escape with
    | false => exact (isBlind_pure _).follows
    | true => exact (isBlind_lift _ _).follows.bind fun _ => (isBlind_pure _).follows
  | .callSection ⟨_, source, delimiters, body⟩ lookup name inline, carried => by
    rw [runOne, runOne]
    refine (follows_resolve hC lookup name).bind fun v => ?_
    split
    · refine Follows.bind (hn.withDepth hC ?_) fun text => (isBlind_pure _).follows
      refine (isBlind_answer _ _).follows.bind fun text => ?_
      exact (follows_load _).bind fun p => hn.nestedAt _ p s.indent _
    · exact follows_runOver hC (follows_runAll hC hn.inBody body) v carried
  | .callInverted lookup name body, carried => by
    rw [runOne, runOne]
    refine (follows_resolve hC lookup name).bind fun v => ?_
    cases v.truth with
    | true => exact (isBlind_pure _).follows
    | false => exact follows_runAll hC hn.inBody body carried
  | .callPartial name indent inline, carried => by
    rw [runOne, runOne]
    refine (isBlind_note _).follows.bind fun _ => ?_
    refine Follows.bind (hn.withDepth hC ?_) fun text => (isBlind_pure _).follows
    exact (follows_load _).bind fun p => hn.nestedAt _ p _ _

theorem follows_runAll {s : Surroundings} {frames : Nat} (hC : InStep C raised more)
    (hn : s.Beside C raised more frames nested) : ∀ (is : List Instruction) (carried : Bool),
    Follows C raised (s.runAll is carried) ({ s with frames, nested }.runAll is carried)
  | [], carried => by
    rw [runAll, runAll]
    exact (isBlind_pure _).follows
  | i :: is, carried => by
    rw [runAll, runAll]
    refine (follows_runOne hC hn i carried).bind fun first => ?_
    exact (follows_runAll hC hn is first.carried).bind fun rest => (isBlind_pure _).follows

end

end Surroundings

namespace Program
open RenderM

variable {C : Context → Context → Prop} {raised : Prop} {more : Nat} (templates : Templates)
  (escaper : Escaper)

/-- By induction on the levels of the first rendering: where they are used up, a nested program is too deep
for it, and for the second one too, unless that has more of them. -/
theorem follows_renderWithin (hC : InStep C raised more) {levels levels' : Nat}
    (hlevels : levels' = levels ∨ raised ∧ levels ≤ levels') (frames : Nat) (p : Program) (indent : String)
    (carried : Bool) :
    Follows C raised (renderWithin templates escaper levels (frames + more) p indent carried)
      (renderWithin templates escaper levels' frames p indent carried) := by
  induction levels generalizing levels' frames p indent carried with
  | zero =>
    cases levels' with
    | zero =>
      refine (Surroundings.follows_runAll hC ⟨rfl, ?_⟩ _ _).bind fun out => (isBlind_pure _).follows
      intro frames p indent carried c d store events hcd
      rcases hC.limit c d hcd with hlimit | ⟨hraised, -⟩
      · exact .inr ⟨.error (.tooDeep c.limit), store, events, rfl, by rw [← hlimit]; rfl⟩
      · exact .inl ⟨hraised, c.limit, rfl⟩
    | succ levels' =>
      have hraised : raised := (hlevels.resolve_left (by omega)).1
      refine (Surroundings.follows_runAll hC ⟨rfl, ?_⟩ _ _).bind fun out => (isBlind_pure _).follows
      exact fun frames p indent carried c d store events _ => .inl ⟨hraised, c.limit, rfl⟩
  | succ levels ih =>
    cases levels' with
    | zero =>
      rcases hlevels with hlevels | ⟨-, hle⟩ <;> omega
    | succ levels' =>
      have hnested := @ih levels' (hlevels.imp (by omega) fun h => ⟨h.1, by omega⟩)
      exact (Surroundings.follows_runAll hC ⟨rfl, hnested⟩ _ _).bind fun out => (isBlind_pure _).follows

theorem follows_runAt (hC : InStep C raised more) (frames : Nat) (p : Program) (indent : String)
    (carried : Bool) : Follows C raised (p.runAt templates escaper (frames + more) indent carried)
      (p.runAt templates escaper frames indent carried) := by
  refine follows_get_bind fun c d store events hcd => ?_
  have hdepth := hC.depth c d hcd
  have hlevels : d.levelsLeft = c.levelsLeft ∨ raised ∧ c.levelsLeft ≤ d.levelsLeft := by
    simp only [Context.levelsLeft, hdepth]
    rcases hC.limit c d hcd with hlimit | ⟨hraised, hlimit⟩
    · exact .inl (by rw [hlimit])
    · exact .inr ⟨hraised, by omega⟩
  exact follows_renderWithin templates escaper hC hlevels frames p indent carried

theorem follows_render (hC : InStep C raised 0) (p : Program) (indent : String) (escape : Bool) :
    Follows C raised (p.render templates escaper indent escape)
      (p.render templates escaper indent escape) := by
  refine (follows_runAt templates escaper hC 0 p indent false).bind fun text => ?_
  cases escape with
  | false => exact (isBlind_pure text).follows
  | true => exact (isBlind_lift _ _).follows

end Program
end Mustache
