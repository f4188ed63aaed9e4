import Mustache.Proofs.Render.Emission
import Mustache.Proofs.Render.Expansion
import Mustache.Proofs.Render.Restored

/-! # Rendering lines

The instructions of a line mark what stands first on it for the indent. A rendering of such instructions
is the expansion of the lines: it changes nothing that values depend on, and every partial is rendered one
level deeper behind both indents.
-/
namespace Mustache

def Fragment.instruction (indent : Bool) : Fragment → Instruction
  | text t => .literal t indent
  | value name escape => .interpolate (.ofName name) name escape indent

def Line.instructions : Line → List Instruction
  | content [] => [.literal "\n" false]
  | content (f :: fs) =>
    f.instruction true :: (fs.map (Fragment.instruction false) ++ [.literal "\n" false])
  | insertion blanks name => [.callPartial name blanks false]

def Templates.Hold (templates : Templates) (docs : String → Except RenderError (List Line)) : Prop :=
  ∀ name, (templates.partialNamed name).2.map Program.instructions =
    (docs name).map fun lines => lines.flatMap Line.instructions

namespace Context
open Surroundings

def atDepth (c : Context) (depth : Nat) : Context :=
  { c with depth }

/-- How many partials may nest, each in the lines of the one before, in a program that runs in `frames`
frames: as many as the limit allows, and no more than find room on the stack. -/
def partialLevels (c : Context) (frames : Nat) : Nat :=
  min c.levelsLeft ((c.stack.room - frames - guardFrames) / nestedFrames + 1).toNat

variable {c d : Context} {frames : Nat}

/-- One more partial may nest in some exactly if both the depth and the frames that they come to allow it. -/
theorem lt_partialLevels_iff {levels : Nat} : levels < c.partialLevels frames ↔
    c.depth + levels < c.limit ∧ (frames + levels * nestedFrames + guardFrames : Nat) ≤ c.stack.room := by
  simp only [partialLevels, levelsLeft, guardFrames, nestedFrames]
  omega

theorem deeper?_of_partialLevels_eq_zero (h : c.partialLevels frames = 0) :
    c.deeper? (frames + guardFrames) = none := by
  rw [deeper?_eq_none_iff]
  have hnone := mt lt_partialLevels_iff.mpr (Nat.not_lt.mpr (Nat.le_of_eq h))
  push_cast at hnone ⊢
  omega

theorem exists_deeper?_of_partialLevels {levels : Nat} (h : c.partialLevels frames = levels + 1) :
    c.deeper? (frames + guardFrames) = some (c.atDepth (c.depth + 1)) ∧
      c.levelsLeft = (c.atDepth (c.depth + 1)).levelsLeft + 1 ∧
      (c.atDepth (c.depth + 1)).partialLevels (frames + nestedFrames) = levels := by
  have hone : 0 < c.partialLevels frames := by omega
  obtain ⟨hdepth, hroom⟩ := lt_partialLevels_iff.mp hone
  have hdeeper : c.deeper? (frames + guardFrames) = some (c.atDepth (c.depth + 1)) :=
    deeper?_eq_some_iff.mpr ⟨⟨by omega, by simpa using hroom⟩, rfl⟩
  simp only [partialLevels, levelsLeft, guardFrames, nestedFrames] at h
  refine ⟨hdeeper, ?_, ?_⟩
  · simp only [levelsLeft, atDepth]
    omega
  · simp only [partialLevels, levelsLeft, atDepth, guardFrames, nestedFrames]
    omega

end Context

theorem RenderState.isLambda_valueOf_onData {data : Value} (h : data.isData = true) (name : String) :
    ((onData data).valueOf name).isLambda = false :=
  callFree_onData h (Node.keysOf name) _ ((within_self _ _).reachable_resolve fun _ hkey => hkey)

structure RenderState.Shows (s : RenderState) (depth : Nat) (t : RenderState) : Prop where
  context : t.context = s.context.atDepth depth
  store : t.store = s.store

namespace RenderM

variable {α β : Type} {P : RenderState → Prop} {x : RenderM α} {r : Except RenderError α}

/-- From every state with the property a rendering has one outcome, and the property is kept. -/
def Gives (P : RenderState → Prop) (x : RenderM α) (r : Except RenderError α) : Prop :=
  ∀ t, P t → (x.run t).1 = r ∧ P (x.run t).2

theorem gives_pure (a : α) : Gives P (pure a) (.ok a) :=
  fun _ ht => ⟨rfl, ht⟩

theorem Gives.bind_ok {k : α → RenderM β} {a : α} {r' : Except RenderError β} (h : Gives P x (.ok a))
    (hk : Gives P (k a) r') : Gives P (x >>= k) r' := by
  intro t ht
  obtain ⟨hx, hP⟩ := h t ht
  rw [run_bind]
  rcases hrun : x.run t with ⟨e | b, u⟩
  · rw [hrun] at hx
    cases hx
  · rw [hrun] at hx hP
    cases hx
    exact hk u hP

theorem Gives.bind_error {e : RenderError} (h : Gives P x (.error e)) (k : α → RenderM β) :
    Gives P (x >>= k) (.error e) := by
  intro t ht
  obtain ⟨hx, hP⟩ := h t ht
  rw [run_bind]
  rcases hrun : x.run t with ⟨e' | b, u⟩
  · rw [hrun] at hx hP
    cases hx
    exact ⟨rfl, hP⟩
  · rw [hrun] at hx
    cases hx

theorem Gives.map (h : Gives P x r) (f : α → β) : Gives P (x >>= fun a => pure (f a)) (r.map f) := by
  cases r with
  | error e => exact h.bind_error _
  | ok a => exact h.bind_ok (gives_pure (f a))

theorem gives_lift {ε : Type} (wrap : ε → RenderError) (y : Except ε α) :
    Gives P (lift wrap y) (y.mapError wrap) := by
  intro t ht
  rw [run_lift]
  exact ⟨rfl, ht⟩

variable {s : RenderState} {depth : Nat}

theorem gives_note (events : List Event) : Gives (s.Shows depth) (note events) (.ok ()) :=
  fun _ ht => ⟨rfl, ⟨ht.context, ht.store⟩⟩

theorem gives_resolve (name : String) :
    Gives (s.Shows depth) (resolve (.ofName name) name) (.ok (s.valueOf name)) := by
  intro t ht
  have hvalue : t.context.resolve (.ofName name) name = s.context.resolve (.ofName name) name := by
    rw [ht.context]
    rfl
  rw [run_resolve, hvalue, ht.store]
  exact ⟨rfl, ht⟩

variable {frames : Nat}

theorem gives_withDepth_of_none (hdeeper : (s.context.atDepth depth).deeper? frames = none)
    (x : RenderM α) : Gives (s.Shows depth) (withDepth frames x) (.error (.tooDeep s.context.limit)) := by
  intro t ht
  rw [run_withDepth, ht.context, hdeeper]
  exact ⟨rfl, ht⟩

theorem Gives.withDepth (h : Gives (s.Shows (depth + 1)) x r)
    (hdeeper : (s.context.atDepth depth).deeper? frames = some (s.context.atDepth (depth + 1))) :
    Gives (s.Shows depth) (withDepth frames x) r := by
  intro t ht
  obtain ⟨hx, hafter⟩ := h { t with context := s.context.atDepth (depth + 1) } ⟨rfl, ht.store⟩
  rw [run_withDepth, ht.context, hdeeper]
  exact ⟨hx, ⟨congrArg Context.shallower hafter.context, hafter.store⟩⟩

end RenderM

namespace Surroundings
open RenderM

variable {sur : Surroundings} {s : RenderState} {depth : Nat} {P : RenderState → Prop}
  {is js : List Instruction} {r r' : Except RenderError String}

theorem runAll_append (is js : List Instruction) (carried : Bool) :
    sur.runAll (is ++ js) carried = (do
      let first ← sur.runAll is carried
      let rest ← sur.runAll js first.carried
      return ⟨first.text ++ rest.text, rest.carried⟩) := by
  induction is generalizing carried with
  | nil => simp [runAll]
  | cons i is ih => simp [runAll, ih, String.append_assoc]

def Prints (sur : Surroundings) (P : RenderState → Prop) (is : List Instruction)
    (r : Except RenderError String) : Prop :=
  Gives P (sur.runAll is false) (r.map fun text => ⟨text, false⟩)

theorem prints_nil : Prints sur P [] (.ok "") := by
  rw [Prints, runAll]
  exact gives_pure _

theorem Prints.append (h : Prints sur P is r) (h' : Prints sur P js r') :
    Prints sur P (is ++ js) (do
      let first ← r
      let rest ← r'
      return first ++ rest) := by
  rw [Prints, runAll_append]
  cases r with
  | error e => exact Gives.bind_error h _
  | ok first =>
    refine Gives.bind_ok h ?_
    cases r' with
    | error e => exact Gives.bind_error h' _
    | ok rest => exact Gives.bind_ok h' (gives_pure _)

theorem Prints.text (h : Prints sur P is r) :
    Gives P (sur.runAll is false >>= fun out => pure out.text) r := by
  cases r with
  | error e => exact Gives.bind_error h _
  | ok text => exact Gives.bind_ok h (gives_pure _)

theorem prints_one {i : Instruction} (h : Gives P (sur.runOne i false) (r.map fun text => ⟨text, false⟩)) :
    Prints sur P [i] r := by
  have hone : sur.runAll [i] false = sur.runOne i false := by simp [runAll]
  rw [Prints, hone]
  exact h

theorem prints_newline : Prints sur P [.literal "\n" false] (.ok "\n") := by
  apply prints_one
  rw [runOne]
  exact gives_pure _

section Values

variable (hvalue : ∀ name, (s.valueOf name).isLambda = false)
include hvalue

theorem prints_fragment (f : Fragment) (indent : Bool) :
    Prints sur (s.Shows depth) [f.instruction indent]
      ((f.expand sur.escaper s).map fun text => (if indent then sur.indent else "") ++ text) := by
  have hlead : ∀ text, sur.lead indent false text = ⟨(if indent then sur.indent else "") ++ text, false⟩ := by
    intro text
    cases indent <;> simp [lead]
  apply prints_one
  cases f with
  | text t =>
    have hliteral : sur.literal t indent false = ⟨(if indent then sur.indent else "") ++ t, false⟩ := by
      simp [literal, hlead]
    rw [Fragment.instruction, runOne, hliteral]
    exact gives_pure _
  | value name escape =>
    rw [Fragment.instruction, runOne, Fragment.expand]
    refine (gives_resolve name).bind_ok ?_
    rw [variableText_of_not_isLambda (hvalue name), pure_bind]
    cases escape with
    | false =>
      simp only [Bool.false_eq_true, if_false, pure_bind, hlead]
      exact gives_pure _
    | true =>
      simp only [if_true, hlead]
      cases hescape : (sur.escaper.escape (s.valueOf name).rendered) with
      | error e => exact Gives.bind_error (gives_lift _ _) _
      | ok text => exact Gives.bind_ok (gives_lift _ _) (gives_pure _)

theorem prints_fragments (fs : List Fragment) : Prints sur (s.Shows depth)
    (fs.map (Fragment.instruction false)) (Fragment.expandAll sur.escaper s fs) := by
  induction fs with
  | nil => exact prints_nil
  | cons f fs ih =>
    have hfirst := @prints_fragment sur s depth hvalue f false
    have hsame : ((f.expand sur.escaper s).map fun text => (if false = true then sur.indent else "") ++ text) =
        f.expand sur.escaper s := by
      cases f.expand sur.escaper s <;> simp [Except.map]
    rw [hsame] at hfirst
    exact hfirst.append ih

variable {insert : String → String → Except RenderError String}
  (hinsert : ∀ name blanks, Prints sur (s.Shows depth) [.callPartial name blanks false]
    (insert name (sur.indent ++ blanks)))
include hinsert

theorem prints_line (l : Line) :
    Prints sur (s.Shows depth) l.instructions (l.expand sur.escaper s insert sur.indent) := by
  cases l with
  | insertion blanks name => exact hinsert name blanks
  | content fs =>
    cases fs with
    | nil => exact prints_newline
    | cons f fs =>
      have hfirst := @prints_fragment sur s depth hvalue f true
      have hall := (hfirst.append (prints_fragments hvalue fs)).append prints_newline
      rw [Line.expand, Fragment.expandAll]
      cases hf : f.expand sur.escaper s with
      | error e =>
        rw [hf] at hall
        exact hall
      | ok first =>
        cases hfs : Fragment.expandAll sur.escaper s fs with
        | error e =>
          rw [hf, hfs] at hall
          exact hall
        | ok rest =>
          rw [hf, hfs] at hall
          have htext : sur.indent ++ first ++ rest ++ "\n" = sur.indent ++ (first ++ rest) ++ "\n" := by
            simp [String.append_assoc]
          change Prints sur _ _ (.ok (sur.indent ++ (first ++ rest) ++ "\n"))
          rw [← htext]
          exact hall

theorem prints_lines (lines : List Line) :
    Prints sur (s.Shows depth) (lines.flatMap Line.instructions)
      (Line.expandAll sur.escaper s insert sur.indent lines) := by
  induction lines with
  | nil => exact prints_nil
  | cons l ls ih => exact (prints_line hvalue hinsert l).append ih

end Values

theorem gives_load (found : List Event × Except RenderError Program) :
    Gives (s.Shows depth) (load found) found.2 := by
  obtain ⟨events, outcome⟩ := found
  refine (gives_note events).bind_ok ?_
  cases outcome with
  | error e => exact gives_lift id _
  | ok p => exact gives_lift id _

theorem prints_partial {name blanks : String}
    (h : Gives (s.Shows depth) (withDepth (sur.frames + guardFrames)
      (load (sur.templates.partialNamed name) >>= fun program =>
        sur.nested (sur.frames + nestedFrames) program (sur.indent ++ blanks) false)) r) :
    Prints sur (s.Shows depth) [.callPartial name blanks false] r := by
  apply prints_one
  rw [runOne]
  refine (gives_note _).bind_ok ?_
  exact h.map fun text => inserted text false

end Surroundings

namespace Program
open RenderM Surroundings

/-- A rendering of the instructions of lines is their expansion, by induction on the levels that partials may
nest. -/
theorem gives_renderWithin {templates : Templates} {docs : String → Except RenderError (List Line)}
    (hdocs : templates.Hold docs) {s : RenderState} (hvalue : ∀ name, (s.valueOf name).isLambda = false)
    (escaper : Escaper) {levels depth frames : Nat}
    (hlevels : (s.context.atDepth depth).partialLevels frames = levels)
    {p : Program} {lines : List Line} (hp : p.instructions = lines.flatMap Line.instructions)
    (indent : String) : Gives (s.Shows depth)
      (renderWithin templates escaper (s.context.atDepth depth).levelsLeft frames p indent false)
      (expandWithin escaper s docs levels indent lines) := by
  induction levels generalizing depth frames p lines indent with
  | zero =>
    -- No partial may nest, so one fails before it is looked for.
    obtain ⟨nested, -, hrender⟩ :=
      exists_renderWithin_eq templates escaper (s.context.atDepth depth).levelsLeft
    rw [hrender, hp]
    apply Prints.text
    refine prints_lines hvalue ?_ lines
    intro name blanks
    exact prints_partial (gives_withDepth_of_none (Context.deeper?_of_partialLevels_eq_zero hlevels) _)
  | succ levels ih =>
    obtain ⟨hdeeper, hless, hinner⟩ := Context.exists_deeper?_of_partialLevels hlevels
    obtain ⟨nested, hnested, hrender⟩ :=
      exists_renderWithin_eq templates escaper (s.context.atDepth depth).levelsLeft
    obtain rfl := hnested _ hless
    rw [hrender, hp]
    apply Prints.text
    refine prints_lines hvalue ?_ lines
    intro name blanks
    refine prints_partial (Gives.withDepth ?_ hdeeper)
    -- A partial and its document are an error or lines, both of them.
    have hload := @gives_load s (depth + 1) (templates.partialNamed name)
    have hfound := hdocs name
    cases hpartial : (templates.partialNamed name).2 with
    | error e =>
      cases hdoc : docs name with
      | ok inner =>
        rw [hpartial, hdoc] at hfound
        cases hfound
      | error e' =>
        rw [hpartial, hdoc] at hfound
        cases hfound
        rw [hpartial] at hload
        exact hload.bind_error _
    | ok q =>
      cases hdoc : docs name with
      | error e =>
        rw [hpartial, hdoc] at hfound
        cases hfound
      | ok inner =>
        rw [hpartial, hdoc] at hfound
        rw [hpartial] at hload
        exact hload.bind_ok (ih hinner (Except.ok.inj hfound) (indent ++ blanks))

theorem run_render_lines {templates : Templates} {docs : String → Except RenderError (List Line)}
    (hdocs : templates.Hold docs) {s : RenderState} (hvalue : ∀ name, (s.valueOf name).isLambda = false)
    (escaper : Escaper) {p : Program} {lines : List Line}
    (hp : p.instructions = lines.flatMap Line.instructions) (indent : String) :
    ((p.render templates escaper indent false).run s).1 =
      expandWithin escaper s docs (s.context.partialLevels 0) indent lines := by
  have hgives : RenderM.Gives (s.Shows s.context.depth)
      (renderWithin templates escaper s.context.levelsLeft 0 p indent false)
      (expandWithin escaper s docs (s.context.partialLevels 0) indent lines) :=
    gives_renderWithin hdocs hvalue escaper rfl hp indent
  rw [run_render]
  exact (hgives s ⟨rfl, rfl⟩).1

end Program

end Mustache
