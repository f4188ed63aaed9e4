import Mustache.Proofs.Render.Realize

/-! # Every rendering ends

The course of a rendering goes to the end that the rendering has, with less left at each call, and no
moment of it is deeper than the limit or the start. A call within a program has the levels of that program,
since the context is put back, and fewer instructions or elements; a call of another program has one level
less.
-/
namespace Mustache

/-- At every state of a level the course of an activation goes to the end that `m` has. -/
def Runs (templates : Templates) (escaper : Escaper) (d : Int) (level : Nat) (a : Activation)
    (m : RenderM Output) : Prop :=
  ∀ s, s.context.At d level → Realizes templates escaper d (a.left s) s (a.course templates escaper) m

namespace Activation

section Loops

variable {templates : Templates} {escaper : Escaper} {d : Int} {level : Nat} {bound : Left}
  {a : Activation} {s : RenderState}

theorem left_mono (level : Nat) {n k : Nat} (h : n ≤ k) :
    toLex (level, toLex (n, 0)) ≤ (toLex (level, toLex (k, 0)) : Left) := by
  rw [Prod.Lex.toLex_le_toLex]
  refine .inr ⟨rfl, ?_⟩
  rw [Prod.Lex.toLex_le_toLex]
  exact (Nat.lt_or_eq_of_le h).imp id fun heq => ⟨heq, Nat.le_refl _⟩

theorem left_lt_of_instructions {n k : Nat} (hs : s.context.At d level)
    (hlt : a.task.instructionsLeft < n) : a.left s < toLex (level, toLex (n, k)) := by
  rw [left, hs.level_eq, Prod.Lex.toLex_lt_toLex]
  exact .inr ⟨rfl, Prod.Lex.toLex_lt_toLex.mpr (.inl hlt)⟩

theorem left_lt_of_elements {n k : Nat} (hs : s.context.At d level)
    (hsame : a.task.instructionsLeft = n) (hlt : a.task.elementsLeft s.store < k) :
    a.left s < toLex (level, toLex (n, k)) := by
  rw [left, hs.level_eq, hsame, Prod.Lex.toLex_lt_toLex]
  exact .inr ⟨rfl, Prod.Lex.toLex_lt_toLex.mpr (.inr ⟨rfl, hlt⟩)⟩

theorem realizes_goOn {task : Task} {first : Output} {m : RenderM Output} (hs : s.context.At d level)
    (hlt : Activation.left { a with task, carried := first.carried } s < bound)
    (h : Realizes templates escaper d (Activation.left { a with task, carried := first.carried } s) s
      (Activation.course templates escaper { a with task, carried := first.carried }) m) :
    Realizes templates escaper d bound s (a.goOn task first)
      (m >>= fun rest => pure ⟨first.text ++ rest.text, rest.carried⟩) :=
  (h.call hs.below hlt).bind fun _ _ _ _ _ => .of_pure _

variable {body : List Instruction} {run : Bool → RenderM Output}

def watched (set : Option (Nat × List Value)) (run : Bool → RenderM Output) : Bool → RenderM Output :=
  match set with
  | none => run
  | some (id, items) => fun carried => run carried <* RenderM.checkSize id items

variable (hbody : ∀ carried, Runs templates escaper d level
  { a with task := .instructions body, carried } (run carried))
include hbody

theorem realizes_watch (set : Option (Nat × List Value)) (carried : Bool) (hs : s.context.At d level)
    (hlt : Activation.left { a with task := .instructions body, carried } s < bound) :
    Realizes templates escaper d bound s
      (CourseM.watch set (CourseM.call { a with task := .instructions body, carried }))
      (watched set run carried) := by
  have hcall := (hbody carried s hs).call hs.below hlt
  cases set with
  | none => exact hcall
  | some set =>
    refine hcall.bind fun out t _ hcontext _ => ?_
    rw [← hcontext] at hs
    exact .step hs (RenderM.isStep_checkSize _ _) fun _ _ _ _ => .of_pure out

theorem runs_elements (set : Option (Nat × List Value)) (items : List Value) (carried : Bool) :
    Runs templates escaper d level { a with task := .elements body set items, carried }
      (Surroundings.runEach (watched set run) items carried) := by
  induction items generalizing carried with
  | nil => exact fun s _ => .of_pure _
  | cons v vs ih =>
    intro s hs
    rw [Activation.left, hs.level_eq]
    have hlt := left_lt_of_elements (a := { a with task := .instructions body, carried })
      (s := { s with context := s.context.push v }) (k := (v :: vs).length) (hs.push v) rfl
      (Nat.succ_pos _)
    have hfirst := realizes_watch (s := { s with context := s.context.push v }) hbody set carried
      (hs.push v) hlt
    refine (hfirst.withScope hs.below v).bind fun first t _ hcontext _ => ?_
    rw [← hcontext] at hs
    exact realizes_goOn hs (left_lt_of_elements hs rfl (Nat.lt_succ_self vs.length))
      (ih first.carried t hs)

/-- An iterator is used up before a loop over all it held has come to its bound: nothing adds to it. -/
theorem realizes_drain (id n : Nat) (carried : Bool) (hs : s.context.At d level)
    (hn : (s.store.remaining id).length ≤ n) :
    Realizes templates escaper d (Activation.left { a with task := .drain body id, carried } s) s
      (Activation.course templates escaper { a with task := .drain body id, carried })
      (Surroundings.drain run id n carried) := by
  induction n generalizing s carried with
  | zero =>
    -- the bound is reached only by an iterator that has nothing left; the course asks it once more
    have hnext : s.store.next? id = none := by
      rw [Store.next?, List.length_eq_zero_iff.mp (Nat.le_zero.mp hn)]
    have hend : Realizes templates escaper d
        (Activation.left { a with task := .drain body id, carried } s) s
        (Activation.course templates escaper { a with task := .drain body id, carried })
        (RenderM.takeNext id >>= fun _ => pure ⟨"", carried⟩) := by
      refine .step hs (RenderM.isStep_takeNext id) fun next t hrun _ => ?_
      rw [RenderM.run_takeNext, hnext] at hrun
      cases hrun
      exact .of_pure _
    refine hend.congr rfl ?_
    rw [RenderM.run_bind, RenderM.run_takeNext, hnext]
    rfl
  | succ n ih =>
    rw [Activation.left, hs.level_eq]
    refine .step hs (RenderM.isStep_takeNext id) fun next t hrun ht => ?_
    rw [RenderM.run_takeNext] at hrun
    cases hnext : s.store.next? id with
    | none =>
      rw [hnext] at hrun
      cases hrun
      exact .of_pure _
    | some r =>
      obtain ⟨v, store⟩ := r
      rw [hnext] at hrun
      cases hrun
      have hless := congrArg List.length (Store.remaining_of_next? hnext).1
      rw [List.length_cons] at hless
      have hlt := left_lt_of_elements (a := { a with task := .instructions body, carried })
        (s := ⟨s.context.push v, store, s.events⟩) (k := (s.store.remaining id).length) (hs.push v) rfl
        (by rw [hless]; exact Nat.succ_pos _)
      have hfirst := (hbody carried ⟨s.context.push v, store, s.events⟩ (hs.push v)).call hs.below hlt
      refine (hfirst.withScope ht.below v).bind fun first t' _ hcontext hstore => ?_
      have hgiven : (t'.store.remaining id).length ≤ (store.remaining id).length := hstore id
      have hdrop : (t'.store.remaining id).length < (s.store.remaining id).length := by omega
      rw [← hcontext] at ht
      exact realizes_goOn ht (left_lt_of_elements ht rfl hdrop) (ih first.carried ht (by omega))

omit hbody in
theorem realizes_runOver (hbody : ∀ carried, Runs templates escaper d level
      { a.inBody with task := .instructions body, carried } (run carried))
    (v : Value) (carried : Bool) (hs : s.context.At d level)
    (hle : toLex (level, toLex (Instruction.treeSize body + 1, 0)) ≤ bound) :
    Realizes templates escaper d bound s (a.runOver v body carried) (Surroundings.runOver v run carried) := by
  have hlt : ∀ {called : Activation} {t : RenderState}, t.context.At d level →
      called.task.instructionsLeft = Instruction.treeSize body → called.left t < bound :=
    fun ht hsame => lt_of_lt_of_le
      (left_lt_of_instructions ht (by rw [hsame]; exact Nat.lt_succ_self _)) hle
  unfold Activation.runOver Surroundings.runOver
  cases v.truth with
  | false => exact .of_pure _
  | true =>
    simp only [Bool.not_true, Bool.false_eq_true, if_false]
    cases v.iteration with
    | once =>
      have hpushed := hbody carried { s with context := s.context.push v } (hs.push v)
      exact (hpushed.call hs.below (hlt (hs.push v) rfl)).withScope hs.below v
    | each items => exact (runs_elements hbody none items carried s hs).call hs.below (hlt hs rfl)
    | members id items =>
      exact (runs_elements hbody (some (id, items)) items carried s hs).call hs.below (hlt hs rfl)
    | drain id =>
      exact (realizes_drain hbody id _ carried hs (Nat.le_refl _)).call hs.below (hlt hs rfl)

end Loops

def NestedRuns (templates : Templates) (escaper : Escaper) (d : Int) (level : Nat)
    (nested : Nat → Program → String → Bool → RenderM String) : Prop :=
  ∀ (frames : Nat) (p : Program) (indent : String) (carried : Bool) (s : RenderState) (inner : Nat)
    (bound : Left), inner + 1 = level → s.context.At d inner → toLex (level, toLex (0, 0)) ≤ bound →
    Realizes templates escaper d bound s (Activation.nested frames p indent carried)
      (nested frames p indent carried)

section Instructions

variable {templates : Templates} {escaper : Escaper} {d : Int} {level : Nat} {bound : Left}
  {s : RenderState} {nested : Nat → Program → String → Bool → RenderM String}
variable (hn : NestedRuns templates escaper d level nested)
include hn

theorem realizes_found (found : List Event × Except RenderError Program) (frames : Nat) (indent : String)
    (carried : Bool) {inner : Nat} (hone : inner + 1 = level) (hs : s.context.At d inner)
    (hle : toLex (level, toLex (0, 0)) ≤ bound) :
    Realizes templates escaper d bound s
      (CourseM.perform (Surroundings.load found) >>= fun p => Activation.nested frames p indent carried)
      (Surroundings.load found >>= fun p => nested frames p indent carried) :=
  .step hs (RenderM.isStep_load found) fun p t _ ht => hn frames p indent carried t inner bound hone ht hle

theorem realizes_lambda (call : Option String → Except CallError Answer) (argument tag : Option String)
    (guard frames : Nat) (indent : String) (carried : Bool) (hs : s.context.At d level)
    (hle : toLex (level, toLex (0, 0)) ≤ bound) :
    Realizes templates escaper d bound s
      (CourseM.withDepth guard (CourseM.perform (RenderM.answer call argument) >>= fun text =>
        CourseM.perform (Surroundings.load (templates.lambdaText text tag)) >>= fun p =>
          Activation.nested frames p indent carried))
      (RenderM.withDepth guard (RenderM.answer call argument >>= fun text =>
        Surroundings.load (templates.lambdaText text tag) >>= fun p => nested frames p indent carried)) := by
  refine .withDepth guard hs fun deeper inner hone hinner => ?_
  exact .step hinner (RenderM.isStep_answer call argument) fun text t _ ht =>
    realizes_found hn _ frames indent carried hone ht hle

theorem realizes_variableText (a : Activation) (v : Value) (hs : s.context.At d level)
    (hle : toLex (level, toLex (0, 0)) ≤ bound) :
    Realizes templates escaper d bound s (a.variableText templates v)
      (Surroundings.variableText ⟨templates, escaper, a.program, a.indent, a.frames, nested⟩ v) := by
  unfold Activation.variableText Surroundings.variableText
  cases v.call? with
  | none => exact .of_pure _
  | some call => exact realizes_lambda hn call none none _ _ "" false hs hle

omit hn

mutual

/-- Instructions go to the ends they have, since the bodies of their routines have fewer instructions and
other programs are nested one level deeper. -/
theorem realizes_runOne {a : Activation} (hn : NestedRuns templates escaper d level nested) :
    ∀ (i : Instruction) (carried : Bool) {s : RenderState} {bound : Left}, s.context.At d level →
    toLex (level, toLex (i.treeSizeOne, 0)) ≤ bound →
    Realizes templates escaper d bound s (a.runOne templates escaper i carried)
      (Surroundings.runOne ⟨templates, escaper, a.program, a.indent, a.frames, nested⟩ i carried)
  | .literal text indent, carried, s, bound, hs, hle => by
    rw [Surroundings.runOne]
    exact .of_pure _
  | .interpolate lookup name escape indent, carried, s, bound, hs, hle => by
    rw [Surroundings.runOne]
    have hlevel := le_trans (left_mono level (Nat.zero_le _)) hle
    refine .step hs (RenderM.isStep_resolve lookup name) fun v t _ ht => ?_
    refine (realizes_variableText hn a v ht hlevel).bind fun text u _ hcontext _ => ?_
    rw [← hcontext] at ht
    cases escape with
    | false => exact .of_pure _
    | true => exact .step ht (RenderM.isStep_lift _ _) fun _ _ _ _ => .of_pure _
  | .callSection ⟨key, source, tag, body⟩ lookup name inline, carried, s, bound, hs, hle => by
    rw [Surroundings.runOne]
    refine .step hs (RenderM.isStep_resolve lookup name) fun v t _ ht => ?_
    cases v.call? with
    | some call =>
      have hlevel := le_trans (left_mono level (Nat.zero_le _)) hle
      exact (realizes_lambda hn call (some source) tag _ _ a.indent (inline || carried) ht hlevel).bind
        fun text _ _ _ _ => .of_pure _
    | none => exact realizes_runOver (fun carried => runs_runAll (a := a.inBody) hn body carried) v carried ht hle
  | .callInverted lookup name body, carried, s, bound, hs, hle => by
    rw [Surroundings.runOne]
    refine .step hs (RenderM.isStep_resolve lookup name) fun v t _ ht => ?_
    cases v.truth with
    | true => exact .of_pure _
    | false =>
      have hlt := left_lt_of_instructions (a := { a.inBody with task := .instructions body, carried })
        (k := 0) ht (Nat.lt_succ_self (Instruction.treeSize body))
      exact (runs_runAll (a := a.inBody) hn body carried t ht).call ht.below (lt_of_lt_of_le hlt hle)
  | .callPartial name indent inline, carried, s, bound, hs, hle => by
    rw [Surroundings.runOne]
    have hlevel := le_trans (left_mono level (Nat.zero_le _)) hle
    refine .step hs (RenderM.isStep_note _) fun _ t _ ht => ?_
    refine (Realizes.withDepth _ ht fun deeper inner hone hinner => ?_).bind fun text _ _ _ _ => .of_pure _
    exact realizes_found hn _ _ _ _ hone hinner hlevel

theorem runs_runAll {a : Activation} (hn : NestedRuns templates escaper d level nested) :
    ∀ (is : List Instruction) (carried : Bool),
    Runs templates escaper d level { a with task := .instructions is, carried }
      (Surroundings.runAll ⟨templates, escaper, a.program, a.indent, a.frames, nested⟩ is carried)
  | [], carried => by
    rw [Surroundings.runAll]
    exact fun s _ => .of_pure _
  | i :: is, carried => by
    intro s hs
    rw [Surroundings.runAll, Activation.left, hs.level_eq]
    refine (realizes_runOne hn i carried hs (left_mono level (Nat.le_add_right _ _))).bind
      fun first t _ hcontext _ => ?_
    rw [← hcontext] at hs
    exact realizes_goOn hs (left_lt_of_instructions hs (Nat.lt_add_of_pos_left i.treeSizeOne_pos))
      (runs_runAll hn is first.carried t hs)

end

end Instructions

end Activation

namespace Program
open Activation

variable {templates : Templates} {escaper : Escaper} {d : Int} {level : Nat} {bound : Left}
  {s : RenderState}

theorem realizes_nested {nested : Nat → Program → String → Bool → RenderM String}
    (hn : NestedRuns templates escaper d level nested) (frames : Nat) (p : Program) (indent : String)
    (carried : Bool) (hs : s.context.At d level)
    (hlt : toLex (level, toLex (Instruction.treeSize p.instructions, 0)) < bound) :
    Realizes templates escaper d bound s (Activation.nested frames p indent carried) (do
      let s : Surroundings := ⟨templates, escaper, p.name, indent, frames, nested⟩
      return (← s.runAll p.instructions carried).text) := by
  let a : Activation := ⟨p.name, indent, frames, .instructions p.instructions, carried⟩
  have hleft : a.left s < bound := by
    rw [Activation.left, hs.level_eq]
    exact hlt
  have hrun := runs_runAll (a := a) hn p.instructions carried s hs
  exact (hrun.call hs.below hleft).bind fun _ _ _ _ _ => .of_pure _

/-- By induction on the levels: where none is left, no program is nested. -/
theorem realizes_renderWithin (frames : Nat) (p : Program) (indent : String) (carried : Bool)
    (hs : s.context.At d level)
    (hlt : toLex (level, toLex (Instruction.treeSize p.instructions, 0)) < bound) :
    Realizes templates escaper d bound s (Activation.nested frames p indent carried)
      (renderWithin templates escaper level frames p indent carried) := by
  induction level generalizing s frames p indent carried bound with
  | zero =>
    refine realizes_nested ?_ frames p indent carried hs hlt
    intro _ _ _ _ _ inner _ hone
    cases hone
  | succ level ih =>
    refine realizes_nested ?_ frames p indent carried hs hlt
    intro frames q indent carried t inner bound hone ht hle
    -- one level less outweighs however many instructions the other program has
    obtain rfl := Nat.succ.inj hone
    refine ih frames q indent carried ht (lt_of_lt_of_le ?_ hle)
    rw [Prod.Lex.toLex_lt_toLex]
    exact .inl (Nat.lt_succ_self inner)

end Program

/-- Rendering always ends. Whatever the partials and the lambdas give and whatever state it starts in, the
course of the rendering goes through finitely many moments to the text or the error that the rendering has,
and it can go nowhere else. With each call, in lexicographic order, there are fewer levels left, or fewer
instructions in the tree of the program, or fewer elements to go through. At no moment are templates nested
deeper than the limit, or than they were at the start. -/
theorem render_ends (templates : Templates) (escaper : Escaper) (p : Program) (indent : String)
    (escape : Bool) (s : RenderState) :
    ∃ moments, Goes templates escaper (toLex (s.context.levelsLeft + 1, toLex (0, 0)))
        ((p.course escaper indent escape).run s) moments
        ((p.render templates escaper indent escape).run s) ∧
      (∀ t ∈ moments, (t.context.depth : Int) ≤ max s.context.limit s.context.depth) ∧
      ∀ bound moments' end', Goes templates escaper bound ((p.course escaper indent escape).run s)
        moments' end' → moments' = moments ∧ end' = (p.render templates escaper indent escape).run s := by
  have hs : s.context.At (max s.context.limit s.context.depth) s.context.levelsLeft :=
    ⟨rfl, le_max_left _ _, le_max_right _ _⟩
  have hlt : toLex (s.context.levelsLeft, toLex (Instruction.treeSize p.instructions, 0)) <
      (toLex (s.context.levelsLeft + 1, toLex (0, 0)) : Left) := by
    rw [Prod.Lex.toLex_lt_toLex]
    exact .inl (Nat.lt_succ_self _)
  obtain ⟨moments, hgoes, hmoments, -⟩ : Realizes templates escaper (max s.context.limit s.context.depth)
      (toLex (s.context.levelsLeft + 1, toLex (0, 0))) s (p.course escaper indent escape)
      (p.render templates escaper indent escape) := by
    refine ((Program.realizes_renderWithin 0 p indent false hs hlt).congr rfl ?_).bind
      fun text t _ hcontext _ => ?_
    · rw [Program.run_run]
    · have hback : t.context.Below (max s.context.limit s.context.depth) := by
        rw [hcontext]
        exact hs.below
      cases escape with
      | false => exact .of_pure text
      | true => exact .perform hback (RenderM.isStep_lift _ _)
  refine ⟨moments, hgoes, fun t ht => (hmoments t ht).2, fun bound moments' end' h => ?_⟩
  exact hgoes.unique h

end Mustache
