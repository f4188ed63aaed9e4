import Mathlib.Data.Set.Defs
import Mustache.Proofs.Render.Lines

/-! # Partials that come back

Where each partial of a set inserts one of the set, a rendering that comes to one of them goes on to the
next, one level deeper each time. No part of a rendering makes a text of an error, so the rendering ends
with an error, and where nothing but texts and such partials come before it, with that of the limit.
-/
namespace Mustache

namespace Instruction

def Inserts (names : Set String) (is : List Instruction) : Prop :=
  ∃ name ∈ names, ∃ indent inline, callPartial name indent inline ∈ is

def IsTextOrPartial (names : Set String) : Instruction → Prop
  | literal _ _ => True
  | callPartial name _ _ => name ∈ names
  | interpolate _ _ _ _ | callSection _ _ _ _ | callInverted _ _ _ => False

end Instruction

/-- Each partial of the set has a program, which inserts one of the set at its top level. -/
def Templates.Cyclic (templates : Templates) (names : Set String) : Prop :=
  ∀ name ∈ names, ∃ p, (templates.partialNamed name).2 = .ok p ∧ Instruction.Inserts names p.instructions

variable {names : Set String}

namespace RenderM

variable {α β : Type} {x : RenderM α}

def Fails (x : RenderM α) : Prop :=
  ∀ s, ∃ e, (x.run s).1 = .error e

theorem Fails.bind (h : Fails x) (k : α → RenderM β) : Fails (x >>= k) := by
  intro s
  obtain ⟨e, he⟩ := h s
  exact ⟨e, run_bind_error he k⟩

theorem fails_bind (x : RenderM α) {k : α → RenderM β} (hk : ∀ a, Fails (k a)) : Fails (x >>= k) := by
  intro s
  rw [run_bind]
  rcases x.run s with ⟨e | a, t⟩
  · exact ⟨e, rfl⟩
  · exact hk a t

theorem Fails.withDepth (frames : Nat) (h : Fails x) : Fails (withDepth frames x) := by
  intro s
  rw [run_withDepth]
  cases s.context.deeper? frames with
  | none => exact ⟨_, rfl⟩
  | some deeper => exact h { s with context := deeper }

end RenderM

namespace Surroundings
open RenderM

variable {sur : Surroundings} {P : RenderState → Prop} {is : List Instruction}

theorem fails_load_bind {found : List Event × Except RenderError Program} {p : Program}
    (hfound : found.2 = .ok p) {k : Program → RenderM String} (hk : Fails (k p)) :
    Fails (load found >>= k) := by
  have hload : load found >>= k = note found.1 >>= fun _ => k p := by
    simp only [load, hfound, bind_assoc]
    rfl
  rw [hload]
  exact fails_bind _ fun _ => hk

theorem fails_callPartial {name : String} {p : Program}
    (hfound : (sur.templates.partialNamed name).2 = .ok p)
    (hn : ∀ frames indent carried, Fails (sur.nested frames p indent carried)) (indent : String)
    (inline carried : Bool) : Fails (sur.runOne (.callPartial name indent inline) carried) := by
  rw [runOne]
  refine fails_bind _ fun _ => Fails.bind (Fails.withDepth _ ?_) _
  exact fails_load_bind hfound (hn _ _ _)

theorem fails_runAll {i : Instruction} (hmem : i ∈ is) (hi : ∀ carried, Fails (sur.runOne i carried))
    (carried : Bool) : Fails (sur.runAll is carried) := by
  induction is generalizing carried with
  | nil => simp at hmem
  | cons j js ih =>
    rw [runAll]
    rcases List.mem_cons.mp hmem with rfl | hmem
    · exact (hi carried).bind _
    · exact fails_bind _ fun first => (ih hmem first.carried).bind _

theorem gives_runAll_error {e : RenderError} (his : ∀ i ∈ is, i.IsTextOrPartial names)
    (hins : Instruction.Inserts names is) (hpartial : ∀ name ∈ names, ∀ indent inline carried,
      Gives P (sur.runOne (.callPartial name indent inline) carried) (.error e)) (carried : Bool) :
    Gives P (sur.runAll is carried) (.error e) := by
  induction is generalizing carried with
  | nil =>
    obtain ⟨_, _, _, _, hmem⟩ := hins
    simp at hmem
  | cons i is ih =>
    have hi := his i List.mem_cons_self
    rw [runAll]
    cases i with
    | literal text indent =>
      have hrest : Instruction.Inserts names is := by
        obtain ⟨name, hname, blanks, inline, hmem⟩ := hins
        exact ⟨name, hname, blanks, inline, by simpa using hmem⟩
      rw [runOne]
      refine (gives_pure _).bind_ok ?_
      exact (ih (fun j hj => his j (List.mem_cons_of_mem _ hj)) hrest _).bind_error _
    | callPartial name indent inline => exact (hpartial name hi indent inline carried).bind_error _
    | interpolate _ _ _ _ => exact hi.elim
    | callSection _ _ _ _ => exact hi.elim
    | callInverted _ _ _ => exact hi.elim

end Surroundings

namespace Program
open RenderM Surroundings

variable {templates : Templates} {p : Program}

/-- By induction on the levels left: a nested partial of the set has one level less. -/
theorem fails_renderWithin (hcyclic : templates.Cyclic names) (escaper : Escaper) (levels : Nat)
    (hp : Instruction.Inserts names p.instructions) (frames : Nat) (indent : String) (carried : Bool) :
    Fails (renderWithin templates escaper levels frames p indent carried) := by
  induction levels generalizing frames p indent carried with
  | zero =>
    obtain ⟨name, hname, blanks, inline, hmem⟩ := hp
    obtain ⟨q, hq, -⟩ := hcyclic name hname
    refine Fails.bind (fails_runAll hmem (fails_callPartial hq ?_ blanks inline) carried) _
    exact fun frames indent carried s => ⟨.tooDeep s.context.limit, rfl⟩
  | succ levels ih =>
    obtain ⟨name, hname, blanks, inline, hmem⟩ := hp
    obtain ⟨q, hq, hins⟩ := hcyclic name hname
    exact Fails.bind (fails_runAll hmem (fails_callPartial hq (ih hins) blanks inline) carried) _

theorem fails_render (hcyclic : templates.Cyclic names) (escaper : Escaper)
    (hp : Instruction.Inserts names p.instructions) (indent : String) (escape : Bool) :
    Fails (p.render templates escaper indent escape) := by
  apply Fails.bind
  exact fails_bind _ fun s => fails_renderWithin hcyclic escaper _ hp 0 indent false

section TextAndPartials

variable (hcyclic : templates.Cyclic names) (htemplates : ∀ name ∈ names, ∀ q,
  (templates.partialNamed name).2 = .ok q → ∀ i ∈ q.instructions, i.IsTextOrPartial names)
include hcyclic htemplates

theorem gives_renderWithin_tooDeep (escaper : Escaper) {s : RenderState} {levels depth frames : Nat}
    (hlevels : (s.context.atDepth depth).partialLevels frames = levels)
    (hp : Instruction.Inserts names p.instructions)
    (htext : ∀ i ∈ p.instructions, i.IsTextOrPartial names) (indent : String) (carried : Bool) :
    Gives (s.Shows depth)
      (renderWithin templates escaper (s.context.atDepth depth).levelsLeft frames p indent carried)
      (.error (.tooDeep s.context.limit)) := by
  induction levels generalizing depth frames p indent carried with
  | zero =>
    have hdeep := Context.deeper?_of_partialLevels_eq_zero hlevels
    obtain ⟨nested, -, hrender⟩ :=
      exists_renderWithin_eq templates escaper (s.context.atDepth depth).levelsLeft
    rw [hrender]
    refine Gives.bind_error (gives_runAll_error htext hp ?_ carried) _
    intro name _ blanks inline carried
    rw [runOne]
    exact (gives_note _).bind_ok ((gives_withDepth_of_none hdeep _).bind_error _)
  | succ levels ih =>
    obtain ⟨hdeeper, hless, hinner⟩ := Context.exists_deeper?_of_partialLevels hlevels
    obtain ⟨nested, hnested, hrender⟩ :=
      exists_renderWithin_eq templates escaper (s.context.atDepth depth).levelsLeft
    obtain rfl := hnested _ hless
    rw [hrender]
    refine Gives.bind_error (gives_runAll_error htext hp ?_ carried) _
    intro name hname blanks inline carried
    obtain ⟨q, hq, hins⟩ := hcyclic name hname
    have hload := @gives_load s (depth + 1) (templates.partialNamed name)
    rw [hq] at hload
    have hdeep := ih hinner hins (htemplates name hname q hq) (indent ++ blanks) (inline || carried)
    rw [runOne]
    refine (gives_note _).bind_ok (Gives.bind_error ?_ _)
    exact Gives.withDepth (hload.bind_ok hdeep) hdeeper

theorem run_render_tooDeep (escaper : Escaper) (s : RenderState)
    (hp : Instruction.Inserts names p.instructions)
    (htext : ∀ i ∈ p.instructions, i.IsTextOrPartial names) (indent : String) (escape : Bool) :
    ((p.render templates escaper indent escape).run s).1 = .error (.tooDeep s.context.limit) := by
  have hwithin : Gives (s.Shows s.context.depth)
      (renderWithin templates escaper s.context.levelsLeft 0 p indent false)
      (.error (.tooDeep s.context.limit)) :=
    gives_renderWithin_tooDeep hcyclic htemplates escaper rfl hp htext indent false
  apply run_bind_error
  rw [run_run]
  exact (hwithin s ⟨rfl, rfl⟩).1

end TextAndPartials

end Program
end Mustache
