import Mathlib.Control.Monad.Basic
import Mustache.Proofs.Render.Agree
import Mustache.Proofs.Render.Lines
import Mustache.Proofs.Render.Restored

/-! # Renderings in sequence

A rendering starts on a line that is not carried, and nothing in it makes the line carried: only nested
templates are rendered on carried lines. So instructions give the same text wherever they stand in a
program, and so does the body of a section for each element.
-/
namespace Mustache

def Output.uncarried (out : Output) : Output := ⟨out.text, false⟩

namespace RenderM

variable {α β : Type} {x : RenderM Output}

def Uncarried (x : RenderM Output) : Prop :=
  Output.uncarried <$> x = x

theorem uncarried_pure (text : String) : Uncarried (pure ⟨text, false⟩) := by
  simp [Uncarried, Output.uncarried]

theorem uncarried_bind (x : RenderM α) {k : α → RenderM Output} (hk : ∀ a, Uncarried (k a)) :
    Uncarried (x >>= k) := by
  rw [Uncarried, map_bind]
  exact congrArg (x >>= ·) (funext hk)

/-- What comes after an uncarried output depends on its text alone. -/
theorem Uncarried.bind_eq (hx : Uncarried x) (k : Output → RenderM β) :
    x >>= k = (Output.text <$> x) >>= fun text => k ⟨text, false⟩ := by
  conv_lhs => rw [← hx]
  rw [bind_map_left, bind_map_left]
  rfl

theorem Uncarried.bind {k : Output → RenderM Output} (hx : Uncarried x)
    (hk : ∀ text, Uncarried (k ⟨text, false⟩)) : Uncarried (x >>= k) := by
  rw [hx.bind_eq]
  exact uncarried_bind _ hk

theorem map_withScope (f : α → β) (v : Value) (x : RenderM α) :
    f <$> withScope v x = withScope v (f <$> x) := by
  funext s
  change (f <$> withScope v x).run s = (withScope v (f <$> x)).run s
  rw [run_map, run_withScope, run_withScope, run_thenRestore, run_thenRestore, run_map]
  rcases x.run { s with context := s.context.push v } with ⟨e | a, t⟩ <;> rfl

theorem follows_mapM {C : Context → Context → Prop} {raised : Prop} {f g : α → RenderM β}
    (h : ∀ a, Follows C raised (f a) (g a)) (as : List α) : Follows C raised (as.mapM f) (as.mapM g) := by
  induction as with
  | nil => exact (isBlind_pure _).follows
  | cons a as ih =>
    rw [List.mapM_cons, List.mapM_cons]
    exact (h a).bind fun b => ih.bind fun bs => (isBlind_pure _).follows

theorem Uncarried.withScope (hx : Uncarried x) (v : Value) : Uncarried (withScope v x) := by
  rw [Uncarried, map_withScope, hx]

end RenderM

namespace Surroundings
open RenderM

variable {body : Bool → RenderM Output}

theorem runEach_eq (hb : Uncarried (body false)) (items : List Value) :
    runEach body items false = (fun texts => ⟨String.join texts, false⟩) <$>
      items.mapM fun v => withScope v (Output.text <$> body false) := by
  induction items with
  | nil => simp [runEach]
  | cons v vs ih =>
    rw [runEach, (hb.withScope v).bind_eq, map_withScope]
    simp [ih, List.mapM_cons]

theorem uncarried_drain (hb : Uncarried (body false)) (id bound : Nat) :
    Uncarried (drain body id bound false) := by
  induction bound with
  | zero => exact uncarried_pure ""
  | succ bound ih =>
    apply uncarried_bind
    rintro (_ | v)
    · exact uncarried_pure ""
    · apply (hb.withScope v).bind
      intro text
      apply ih.bind
      exact fun rest => uncarried_pure _

theorem uncarried_runEach (hb : Uncarried (body false)) (items : List Value) :
    Uncarried (runEach body items false) := by
  simp [runEach_eq hb, Uncarried, Output.uncarried]

theorem uncarried_runOver (hb : Uncarried (body false)) (v : Value) :
    Uncarried (runOver v body false) := by
  unfold runOver
  split
  · exact uncarried_pure ""
  · split
    · exact hb.withScope v
    · exact uncarried_runEach hb _
    · rename_i id items _
      have hchecked : Uncarried (body false <* checkSize id items) := by
        rw [seqLeft_eq_bind]
        apply hb.bind
        exact fun text => uncarried_bind _ fun _ => uncarried_pure text
      exact uncarried_runEach hchecked items
    · apply uncarried_bind
      exact fun s => uncarried_drain hb _ _

theorem uncarried_lead {s : Surroundings} (indent : Bool) (text : String) :
    Uncarried (pure (s.lead indent false text)) := by
  cases indent <;> exact uncarried_pure _

mutual

theorem uncarried_runOne {s : Surroundings} : ∀ i : Instruction, Uncarried (s.runOne i false)
  | .literal text indent => by
    rw [runOne]
    cases indent <;> exact uncarried_pure _
  | .interpolate lookup name escape indent => by
    rw [runOne]
    apply uncarried_bind
    intro v
    apply uncarried_bind
    intro text
    cases escape with
    | false => exact uncarried_lead indent text
    | true => exact uncarried_bind _ fun escaped => uncarried_lead indent escaped
  | .callSection ⟨_, source, delimiters, body⟩ lookup name inline => by
    rw [runOne]
    apply uncarried_bind
    intro v
    split
    · exact uncarried_bind _ fun text => uncarried_pure text
    · exact uncarried_runOver (uncarried_runAll body) v
  | .callInverted lookup name body => by
    rw [runOne]
    apply uncarried_bind
    intro v
    split
    · exact uncarried_pure ""
    · exact uncarried_runAll body
  | .callPartial name indent inline => by
    rw [runOne]
    apply uncarried_bind
    intro _
    exact uncarried_bind _ fun text => uncarried_pure text

theorem uncarried_runAll {s : Surroundings} : ∀ is : List Instruction, Uncarried (s.runAll is false)
  | [] => by
    rw [runAll]
    exact uncarried_pure ""
  | i :: is => by
    rw [runAll]
    apply (uncarried_runOne i).bind
    intro text
    apply (uncarried_runAll is).bind
    exact fun rest => uncarried_pure _

end

variable {s : Surroundings}

theorem text_runAll_append (is js : List Instruction) :
    Output.text <$> s.runAll (is ++ js) false = (do
      let first ← Output.text <$> s.runAll is false
      let rest ← Output.text <$> s.runAll js false
      return first ++ rest) := by
  rw [runAll_append, (uncarried_runAll is).bind_eq]
  simp

theorem text_runOver_elements (hb : Uncarried (body false)) {v : Value} {items : List Value}
    (hv : v = .list items ∨ v = .tuple items) :
    Output.text <$> runOver v body false =
      String.join <$> items.mapM fun v => withScope v (Output.text <$> body false) := by
  have hover : runOver v body false = runEach body items false := by
    rcases hv with rfl | rfl
    · cases items <;> rfl
    · cases items <;> rfl
  rw [hover, runEach_eq hb, Functor.map_map]

theorem run_text_runAll_section {st : RenderState} {items : List Value} (r : Routine Instruction)
    (lookup : Lookup) (key : String) (inline : Bool)
    (hv : st.store.current (st.context.resolve lookup key) = .list items ∨
      st.store.current (st.context.resolve lookup key) = .tuple items) :
    (Output.text <$> s.runAll [.callSection r lookup key inline] false).run st =
      (String.join <$> items.mapM fun v =>
        withScope v (Output.text <$> s.inBody.runAll r.body false)).run st := by
  have hcall : (st.store.current (st.context.resolve lookup key)).call? = none := by
    rcases hv with hv | hv <;> rw [hv] <;> rfl
  have hone : s.runAll [.callSection r lookup key inline] false =
      s.runOne (.callSection r lookup key inline) false := by simp [runAll]
  rw [hone, runOne, map_bind, run_bind, run_resolve]
  simp only [hcall]
  rw [text_runOver_elements (uncarried_runAll r.body) hv]

end Surroundings

namespace Program
open RenderM

variable (templates : Templates) (escaper : Escaper) (name indent : String)

/-- While a number of levels is left, programs with one name run in the same surroundings but for the
frames. -/
theorem exists_agrees_runAt (levels : Nat) : ∃ nested, ∀ frames is,
    Agrees (fun t => t.context.levelsLeft = levels) id
      (Output.text <$> Surroundings.runAll ⟨templates, escaper, name, indent, frames, nested⟩ is false)
      ((⟨name, is⟩ : Program).runAt templates escaper frames indent false) := by
  obtain ⟨nested, -, hwithin⟩ := exists_renderWithin_eq templates escaper levels
  refine ⟨nested, fun frames is t ht => ?_⟩
  have hkeeps := keepsContext_runAt templates escaper ⟨name, is⟩ frames indent false t
  rw [run_runAt, ht, hwithin, ← map_eq_pure_bind] at hkeeps ⊢
  constructor
  · rcases (Output.text <$>
      Surroundings.runAll ⟨templates, escaper, name, indent, frames, nested⟩ is false).run t with
      ⟨e | text, t'⟩ <;> rfl
  · exact (congrArg Context.levelsLeft hkeeps).trans ht

theorem follows_elements (is : List Instruction) (items : List Value) :
    Follows Eq True
      (String.join <$> items.mapM fun v =>
        withScope v ((⟨name, is⟩ : Program).runAt templates escaper Surroundings.bodyFrames indent false))
      (String.join <$> items.mapM fun v =>
        withScope v ((⟨name, is⟩ : Program).render templates escaper indent false)) := by
  have hC := inStep_eq_more Surroundings.bodyFrames
  have hbody (v : Value) : Follows Eq True
      (withScope v ((⟨name, is⟩ : Program).runAt templates escaper Surroundings.bodyFrames indent false))
      (withScope v ((⟨name, is⟩ : Program).render templates escaper indent false)) := by
    rw [render_eq_runAt]
    have hfewer := follows_runAt templates escaper hC 0 ⟨name, is⟩ indent false
    exact Follows.withScope hC hfewer v
  rw [map_eq_pure_bind, map_eq_pure_bind]
  exact (follows_mapM hbody items).bind fun texts => (isBlind_pure _).follows

/-- Rendering is compositional. Instructions after others give their text after the text of the others,
in the same context and with what the others left of iterators and sets, and the first error ends both.
A section over a list or a tuple gives the texts of its body for the elements, each pushed in turn and all in
the frames of a section's body; those are the texts outside the section too, unless a template is too deep. -/
theorem render_compositional (s : RenderState) :
    (∀ p q : List Instruction,
      ((⟨name, p ++ q⟩ : Program).render templates escaper indent false).run s =
        match ((⟨name, p⟩ : Program).render templates escaper indent false).run s with
        | (.error e, t) => (.error e, t)
        | (.ok first, t) =>
          ((first ++ ·) <$> (⟨name, q⟩ : Program).render templates escaper indent false).run
            { t with context := s.context }) ∧
    ∀ (r : Routine Instruction) (lookup : Lookup) (key : String) (inline : Bool) (items : List Value),
      (s.store.current (s.context.resolve lookup key) = .list items ∨
        s.store.current (s.context.resolve lookup key) = .tuple items) →
      ((⟨name, [.callSection r lookup key inline]⟩ : Program).render templates escaper indent false).run s =
        (String.join <$> items.mapM fun v => withScope v
          ((⟨name, r.body⟩ : Program).runAt templates escaper Surroundings.bodyFrames indent false)).run s ∧
      ((∀ limit, (((⟨name, [.callSection r lookup key inline]⟩ : Program).render templates escaper
          indent false).run s).1 ≠ .error (.tooDeep limit)) →
        ((⟨name, [.callSection r lookup key inline]⟩ : Program).render templates escaper indent false).run s =
          (String.join <$> items.mapM fun v =>
            withScope v ((⟨name, r.body⟩ : Program).render templates escaper indent false)).run s) := by
  obtain ⟨nested, hagrees⟩ := exists_agrees_runAt templates escaper name indent s.context.levelsLeft
  have hsame (is : List Instruction) := hagrees 0 is
  simp only [← render_eq_runAt] at hsame
  constructor
  · intro p q
    have hparts := (hsame p).andThen fun first => (hsame q).andThen fun rest =>
      agrees_pure id (first ++ rest)
    rw [(hsame (p ++ q)).run_eq rfl, Surroundings.text_runAll_append, ← hparts.run_eq rfl, run_bind]
    rcases hp : ((⟨name, p⟩ : Program).render templates escaper indent false).run s with ⟨e | first, t⟩
    · rfl
    · have ht : t.context = s.context := by
        have hkeeps := keepsContext_render templates escaper ⟨name, p⟩ indent false s
        rwa [hp] at hkeeps
      rw [← ht]
      rfl
  · intro r lookup key inline items hv
    have hbody (v : Value) := (hagrees Surroundings.bodyFrames r.body).withScope (v := v)
      (fun _ ht => ht) fun _ ht => ht
    have hsection : ((⟨name, [.callSection r lookup key inline]⟩ : Program).render templates escaper
        indent false).run s = (String.join <$> items.mapM fun v => withScope v
          ((⟨name, r.body⟩ : Program).runAt templates escaper Surroundings.bodyFrames indent false)).run s := by
      rw [(hsame _).run_eq rfl, Surroundings.run_text_runAll_section r lookup key inline hv]
      exact ((Agrees.mapM hbody items).map String.join).run_eq rfl |>.symm
    refine ⟨hsection, fun hdeep => ?_⟩
    rw [hsection] at hdeep ⊢
    rcases follows_elements templates escaper name indent r.body items _ _ s.store s.events rfl with
      ⟨-, limit, herror⟩ | ⟨outcome, store, events, hinside, houtside⟩
    · exact absurd herror (hdeep limit)
    · exact hinside.trans houtside.symm

/-- Each row prints its number and what an iterator still has to give, twice over: the first row uses the
iterator up. -/
theorem render_compositional_iterator : ∃ (e : Engine) (row : Routine Instruction) (s : RenderState),
    ((⟨"t", [.callSection row .nearest "rows" false] ++ [.callSection row .nearest "rows" false]⟩ :
      Program).render e.templates e.escaper "" false |>.run s).1 = .ok "1ab212" := by
  let e : Engine := ⟨.standard, 100, false, .table []⟩
  let cell : Instruction := .interpolate .innermost "." true false
  let row : Routine Instruction :=
    ⟨"row", "", none, [cell, .callSection ⟨"it", "", none, [cell]⟩ .nearest "it" true]⟩
  let data : Value := .map [(.text "rows", .list [.int 1, .int 2]), (.text "it", .iterator 0)]
  let s : RenderState := ⟨⟨[data], 0, 100, .standard⟩, { iterators := [[.text "a", .text "b"]] }, []⟩
  obtain ⟨hparts, hsection⟩ := render_compositional e.templates e.escaper "t" "" s
  refine ⟨e, row, s, ?_⟩
  rw [hparts, (hsection row .nearest "rows" false [.int 1, .int 2] (.inl rfl)).1]
  decide +kernel

end Program
end Mustache
