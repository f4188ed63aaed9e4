import Mustache.Proofs.Render.Lines

/-! # Layouts of texts with partials

A text without sections is a list of parts: line breaks, fragments and partials. What it comes to is a list
of symbols, characters and places of the indent. The places are the same whatever the indent: a part that
is put out where a line is *fresh* has one before it, and the text of a partial that starts on a line with
its indent is *carried* up to the first thing in it. A partial leaves no other trace, so what follows it
on its line has a place or none as if the partial were not there.
-/
namespace Mustache

inductive Part where
  | newline
  | fragment (f : Fragment)
  | insertion (blanks name : String)
  deriving DecidableEq, Repr

namespace Part

def instruction (l : LineState) : Part → Instruction
  | newline => .literal "\n" false
  | fragment f => f.instruction l.isPending
  | insertion blanks name => .callPartial name blanks !l.isPending

def after (l : LineState) : Part → LineState
  | newline => .pending
  | fragment _ => .consumed
  | insertion _ _ => l

def instructions : LineState → List Part → List Instruction
  | _, [] => []
  | l, q :: qs => q.instruction l :: instructions (q.after l) qs

end Part

/-- Where a rendering takes a line to be: at its start, on it but at the start of a partial's text, or on
it with something of the text put out. -/
inductive Situation where
  | fresh
  | carried
  | taken
  deriving DecidableEq, Repr

namespace Situation

def compiled : Situation → LineState
  | fresh | carried => .pending
  | taken => .consumed

def isCarried (a : Situation) : Bool := a = carried

def nested : Situation → Situation
  | fresh => fresh
  | carried | taken => carried

def lead : Situation → List (Option Char)
  | fresh => [none]
  | carried | taken => []

def resume (a : Situation) (xs : List (Option Char)) : Situation :=
  if a = carried ∧ xs ≠ [] then fresh else a

end Situation

namespace Text

/-- A symbol in the text of a partial whose lines come behind some blanks. -/
def behind (blanks : List Char) : Option Char → List (Option Char)
  | none => none :: blanks.map some
  | some c => [some c]

theorem spread_behind (indent blanks : List Char) (xs : List (Option Char)) :
    spread indent (xs.flatMap (behind blanks)) = spread (indent ++ blanks) xs := by
  induction xs with
  | nil => rfl
  | cons x xs ih => cases x <;> simp [behind, spread_append, ih]

theorem flatMap_behind_eq_nil {blanks : List Char} {xs : List (Option Char)} :
    xs.flatMap (behind blanks) = [] ↔ xs = [] := by
  cases xs with
  | nil => simp
  | cons x xs => cases x <;> simp [behind]

theorem head?_flatMap_behind {blanks : List Char} {xs : List (Option Char)} :
    (xs.flatMap (behind blanks)).head? = xs.head? := by
  cases xs with
  | nil => rfl
  | cons x xs => cases x <;> rfl

theorem spread_eq_nil {indent : List Char} {xs : List (Option Char)} (h : xs.head? ≠ some none) :
    spread indent xs = [] ↔ xs = [] := by
  cases xs with
  | nil => simp
  | cons x xs =>
    cases x with
    | none => exact absurd rfl h
    | some c => simp

end Text

section Layout

variable (escaper : Escaper) (s : RenderState)

/-- What a part comes to, and the situation after it; `insert` says what a partial comes to. -/
def Part.layout
    (insert : String → Situation → Except RenderError (List (Option Char) × Situation))
    (a : Situation) : Part → Except RenderError (List (Option Char) × Situation)
  | newline => .ok ([some '\n'], .fresh)
  | fragment f => do
    let text ← f.expand escaper s
    return (a.lead ++ text.toList.map some, .taken)
  | insertion blanks name => do
    let inner ← insert name a.nested
    return (inner.1.flatMap (Text.behind blanks.toList), a.resume inner.1)

def layoutAll (insert : String → Situation → Except RenderError (List (Option Char) × Situation)) :
    Situation → List Part → Except RenderError (List (Option Char) × Situation)
  | a, [] => .ok ([], a)
  | a, q :: qs => do
    let first ← q.layout escaper s insert a
    let rest ← layoutAll insert first.2 qs
    return (first.1 ++ rest.1, rest.2)

def layoutWithin (docs : String → Except RenderError (List Part)) :
    Nat → Situation → List Part → Except RenderError (List (Option Char) × Situation)
  | 0 => layoutAll escaper s fun _ _ => .error (.tooDeep s.context.limit)
  | levels + 1 => layoutAll escaper s fun name a => docs name >>= layoutWithin docs levels a

end Layout

namespace Situation

/-- What every run from one situation to another has: nothing is put out as long as the line stays carried,
a fresh line comes with a line break, and nothing but a fresh line starts with a place. -/
structure Passes (a : Situation) (xs : List (Option Char)) (b : Situation) : Prop where
  of_carried : b = .carried → a = .carried ∧ xs = []
  of_fresh : b = .fresh → a = .fresh ∨ xs ≠ []
  head_ne : a = .fresh ∨ xs.head? ≠ some none

variable {a b c : Situation} {xs ys : List (Option Char)}

theorem passes_refl (a : Situation) : Passes a [] a :=
  ⟨fun h => ⟨h, rfl⟩, Or.inl, Or.inr nofun⟩

theorem Passes.append (h : Passes a xs b) (h' : Passes b ys c) : Passes a (xs ++ ys) c where
  of_carried hc := by
    obtain ⟨hb, rfl⟩ := h'.of_carried hc
    obtain ⟨ha, rfl⟩ := h.of_carried hb
    exact ⟨ha, rfl⟩
  of_fresh hc := by
    rcases h'.of_fresh hc with hb | hne
    · exact (h.of_fresh hb).imp_right fun hne => by simp [hne]
    · exact Or.inr (by simp [hne])
  head_ne := by
    rcases h.head_ne with ha | hhead
    · exact Or.inl ha
    · cases xs with
      | cons x xs => exact Or.inr hhead
      | nil =>
        rcases h'.head_ne with hb | hhead'
        · exact Or.inl ((h.of_fresh hb).resolve_right (by simp))
        · exact Or.inr hhead'

theorem Passes.resume (h : Passes a.nested xs b) (blanks : List Char) :
    Passes a (xs.flatMap (Text.behind blanks)) (a.resume xs) where
  of_carried hc := by
    unfold Situation.resume at hc
    split at hc
    · cases hc
    · rename_i hnot
      have hnil : xs = [] := by_contra fun hne => hnot ⟨hc, hne⟩
      exact ⟨hc, by rw [hnil]; rfl⟩
  of_fresh hc := by
    unfold Situation.resume at hc
    split at hc
    · rename_i hboth
      exact Or.inr (mt Text.flatMap_behind_eq_nil.mp hboth.2)
    · exact Or.inl hc
  head_ne := by
    rw [Text.head?_flatMap_behind]
    refine h.head_ne.imp_left fun hfresh => ?_
    cases a with
    | fresh => rfl
    | carried => cases hfresh
    | taken => cases hfresh

end Situation

section Passes
open Situation

variable {escaper : Escaper} {s : RenderState} {a b : Situation} {xs : List (Option Char)}
  {insert : String → Situation → Except RenderError (List (Option Char) × Situation)}

theorem Part.passes_layout (hinsert : ∀ name c ys d, insert name c = .ok (ys, d) → Passes c ys d)
    {q : Part} (h : q.layout escaper s insert a = .ok (xs, b)) : Passes a xs b := by
  cases q with
  | newline =>
    cases h
    exact ⟨nofun, fun _ => Or.inr (by simp), Or.inr (by simp)⟩
  | fragment f =>
    obtain ⟨text, -, h⟩ := bind_eq_ok_iff.mp h
    cases h
    refine ⟨nofun, nofun, ?_⟩
    cases a with
    | fresh => exact Or.inl rfl
    | carried | taken =>
      refine Or.inr ?_
      cases text.toList <;> simp [lead]
  | insertion blanks name =>
    obtain ⟨⟨ys, d⟩, hinner, h⟩ := bind_eq_ok_iff.mp h
    cases h
    exact (hinsert name _ ys d hinner).resume _

theorem layoutAll_of_ok {q : Part} {qs : List Part} (h : q.layout escaper s insert a = .ok (xs, b)) :
    layoutAll escaper s insert a (q :: qs) =
      (layoutAll escaper s insert b qs).map fun rest => (xs ++ rest.1, rest.2) := by
  rw [layoutAll, h]
  rfl

theorem layoutAll_of_error {q : Part} {qs : List Part} {e : RenderError}
    (h : q.layout escaper s insert a = .error e) :
    layoutAll escaper s insert a (q :: qs) = .error e := by
  rw [layoutAll, h]
  rfl

theorem passes_layoutAll (hinsert : ∀ name c ys d, insert name c = .ok (ys, d) → Passes c ys d)
    {qs : List Part} (h : layoutAll escaper s insert a qs = .ok (xs, b)) : Passes a xs b := by
  induction qs generalizing a xs with
  | nil =>
    cases h
    exact passes_refl b
  | cons q qs ih =>
    obtain ⟨⟨ys, c⟩, hfirst, h⟩ := bind_eq_ok_iff.mp h
    obtain ⟨⟨zs, d⟩, hrest, h⟩ := bind_eq_ok_iff.mp h
    cases h
    exact (Part.passes_layout hinsert hfirst).append (ih hrest)

theorem passes_layoutWithin {docs : String → Except RenderError (List Part)} {levels : Nat}
    {qs : List Part} (h : layoutWithin escaper s docs levels a qs = .ok (xs, b)) : Passes a xs b := by
  induction levels generalizing a xs b qs with
  | zero =>
    refine passes_layoutAll ?_ h
    intro name c ys d hinner
    cases hinner
  | succ levels ih =>
    refine passes_layoutAll ?_ h
    intro name c ys d hinner
    obtain ⟨inner, -, hinner⟩ := bind_eq_ok_iff.mp hinner
    exact ih hinner

theorem exists_insert_layoutWithin (escaper : Escaper) (s : RenderState)
    (docs : String → Except RenderError (List Part)) (levels : Nat) :
    ∃ insert : String → Situation → Except RenderError (List (Option Char) × Situation),
      layoutWithin escaper s docs levels = layoutAll escaper s insert ∧
      (∀ name c ys d, insert name c = .ok (ys, d) → Passes c ys d) ∧
      ∀ name c ys d, insert name c = .ok (ys, d) → ∃ fewer inner, docs name = .ok inner ∧
        layoutWithin escaper s docs fewer c inner = .ok (ys, d) := by
  cases levels with
  | zero => exact ⟨_, rfl, nofun, nofun⟩
  | succ levels =>
    refine ⟨_, rfl, ?_, ?_⟩
    · intro name c ys d hinner
      obtain ⟨inner, -, hinner⟩ := bind_eq_ok_iff.mp hinner
      exact passes_layoutWithin hinner
    · intro name c ys d hinner
      obtain ⟨inner, hdoc, hinner⟩ := bind_eq_ok_iff.mp hinner
      exact ⟨levels, inner, hdoc, hinner⟩

end Passes

def Output.placed (indent : String) (out : List (Option Char) × Situation) : Output :=
  ⟨String.ofList (Text.spread indent.toList out.1), out.2.isCarried⟩

namespace Surroundings
open RenderM

variable {sur : Surroundings} {s : RenderState} {depth : Nat} {a : Situation}
  {insert : String → Situation → Except RenderError (List (Option Char) × Situation)}

theorem lead_eq_placed (text : String) : sur.lead a.compiled.isPending a.isCarried text =
    Output.placed sur.indent (a.lead ++ text.toList.map some, .taken) := by
  cases a <;> simp [lead, Output.placed, Situation.compiled, Situation.isCarried, Situation.lead,
    LineState.isPending]

theorem literal_eq_placed (text : String) : sur.literal text a.compiled.isPending a.isCarried =
    Output.placed sur.indent (a.lead ++ text.toList.map some, .taken) := by
  rw [literal, lead_eq_placed]
  simp [Output.placed, Situation.isCarried]

theorem inserted_eq_placed {ys : List (Option Char)} {b : Situation} (h : a.nested.Passes ys b)
    (blanks : String) :
    inserted (String.ofList (Text.spread (sur.indent ++ blanks).toList ys)) a.isCarried =
      Output.placed sur.indent (ys.flatMap (Text.behind blanks.toList), a.resume ys) := by
  rw [Output.placed, Text.spread_behind, ← String.toList_append, inserted]
  congr 1
  cases a with
  | fresh => rfl
  | taken => simp [Situation.isCarried, Situation.resume]
  | carried =>
    by_cases hys : ys = []
    · simp [hys, Situation.isCarried, Situation.resume]
    · rw [Situation.resume, if_pos ⟨rfl, hys⟩]
      -- What is carried does not start with a place, so its text is not empty even if the indent is.
      suffices hempty : String.ofList (Text.spread (sur.indent ++ blanks).toList ys) ≠ "" by
        simpa [Situation.isCarried] using hempty
      intro hempty
      rw [← String.toList_inj, String.toList_ofList] at hempty
      exact hys ((Text.spread_eq_nil (h.head_ne.resolve_left nofun)).mp hempty)

theorem gives_value (hvalue : ∀ name, (s.valueOf name).isLambda = false) (name : String)
    (escape indent carried : Bool) :
    Gives (s.Shows depth) (sur.runOne (.interpolate (.ofName name) name escape indent) carried)
      (((Fragment.value name escape).expand sur.escaper s).map (sur.lead indent carried)) := by
  rw [runOne, Fragment.expand]
  refine (gives_resolve name).bind_ok ?_
  rw [variableText_of_not_isLambda (hvalue name), pure_bind]
  cases escape with
  | false => exact gives_pure _
  | true =>
    simp only [if_true]
    cases sur.escaper.escape (s.valueOf name).rendered with
    | error e => exact Gives.bind_error (gives_lift _ _) _
    | ok text => exact Gives.bind_ok (gives_lift _ _) (gives_pure _)

theorem gives_part (hvalue : ∀ name, (s.valueOf name).isLambda = false)
    (hpasses : ∀ name c ys d, insert name c = .ok (ys, d) → c.Passes ys d) {q : Part}
    (hinsert : ∀ blanks name, q = .insertion blanks name →
      Gives (s.Shows depth) (withDepth (sur.frames + guardFrames)
          (load (sur.templates.partialNamed name) >>= fun program =>
            sur.nested (sur.frames + nestedFrames) program (sur.indent ++ blanks) a.nested.isCarried))
        ((insert name a.nested).map fun out =>
          String.ofList (Text.spread (sur.indent ++ blanks).toList out.1))) :
    Gives (s.Shows depth) (sur.runOne (q.instruction a.compiled) a.isCarried)
      ((q.layout sur.escaper s insert a).map (Output.placed sur.indent)) := by
  cases q with
  | newline =>
    have hbreak : sur.literal "\n" false a.isCarried = Output.placed sur.indent ([some '\n'], .fresh) := by
      simp [literal, lead, Output.placed, Situation.isCarried]
    rw [Part.instruction, runOne, hbreak]
    exact gives_pure _
  | fragment f =>
    cases f with
    | text t =>
      rw [Part.instruction, Fragment.instruction, runOne, literal_eq_placed]
      exact gives_pure _
    | value name escape =>
      have hgives := @gives_value sur s depth hvalue name escape a.compiled.isPending a.isCarried
      rw [Part.instruction, Fragment.instruction, Part.layout]
      cases htext : (Fragment.value name escape).expand sur.escaper s with
      | error e =>
        rw [htext] at hgives
        exact hgives
      | ok text =>
        rw [htext] at hgives
        change Gives _ _ (.ok (sur.lead a.compiled.isPending a.isCarried text)) at hgives
        rw [lead_eq_placed] at hgives
        exact hgives
  | insertion blanks name =>
    have hinner := hinsert blanks name rfl
    have hcarried : (!a.compiled.isPending || a.isCarried) = a.nested.isCarried := by
      cases a <;> rfl
    rw [Part.instruction, runOne, Part.layout, hcarried]
    refine (gives_note _).bind_ok ?_
    cases hout : insert name a.nested with
    | error e =>
      rw [hout] at hinner
      exact Gives.bind_error hinner _
    | ok out =>
      obtain ⟨ys, b⟩ := out
      rw [hout] at hinner
      refine Gives.bind_ok hinner ?_
      rw [inserted_eq_placed (hpasses name a.nested ys b hout)]
      exact gives_pure _

theorem compiled_of_layout {q : Part} {escaper : Escaper} {xs : List (Option Char)} {b : Situation}
    (h : q.layout escaper s insert a = .ok (xs, b)) : b.compiled = q.after a.compiled := by
  cases q with
  | newline =>
    cases h
    rfl
  | fragment f =>
    obtain ⟨text, -, h⟩ := bind_eq_ok_iff.mp h
    cases h
    rfl
  | insertion blanks name =>
    obtain ⟨inner, -, h⟩ := bind_eq_ok_iff.mp h
    cases h
    rw [Part.after, Situation.resume]
    split
    · rename_i hboth
      rw [hboth.1]
      rfl
    · rfl

theorem gives_parts (hvalue : ∀ name, (s.valueOf name).isLambda = false)
    (hpasses : ∀ name c ys d, insert name c = .ok (ys, d) → c.Passes ys d) {qs : List Part}
    (hinsert : ∀ blanks name, .insertion blanks name ∈ qs → ∀ c : Situation,
      Gives (s.Shows depth) (withDepth (sur.frames + guardFrames)
          (load (sur.templates.partialNamed name) >>= fun program =>
            sur.nested (sur.frames + nestedFrames) program (sur.indent ++ blanks) c.nested.isCarried))
        ((insert name c.nested).map fun out =>
          String.ofList (Text.spread (sur.indent ++ blanks).toList out.1))) :
    Gives (s.Shows depth) (sur.runAll (Part.instructions a.compiled qs) a.isCarried)
      ((layoutAll sur.escaper s insert a qs).map (Output.placed sur.indent)) := by
  induction qs generalizing a with
  | nil =>
    rw [Part.instructions, runAll]
    exact gives_pure _
  | cons q qs ih =>
    have hfirst := gives_part hvalue hpasses (a := a) (q := q) fun blanks name hq =>
      hinsert blanks name (hq ▸ List.mem_cons_self) a
    rw [Part.instructions, runAll]
    cases hq : q.layout sur.escaper s insert a with
    | error e =>
      rw [hq] at hfirst
      rw [layoutAll_of_error hq]
      exact Gives.bind_error hfirst _
    | ok first =>
      obtain ⟨xs, b⟩ := first
      have hrest := ih (a := b) fun blanks name hmem => hinsert blanks name (List.mem_cons_of_mem q hmem)
      rw [compiled_of_layout hq] at hrest
      rw [hq] at hfirst
      rw [layoutAll_of_ok hq]
      refine Gives.bind_ok hfirst ?_
      cases hqs : layoutAll sur.escaper s insert b qs with
      | error e =>
        rw [hqs] at hrest
        exact Gives.bind_error hrest _
      | ok rest =>
        rw [hqs] at hrest
        refine Gives.bind_ok hrest ?_
        have hplaced : (⟨(Output.placed sur.indent (xs, b)).text ++ (Output.placed sur.indent rest).text,
            (Output.placed sur.indent rest).carried⟩ : Output) =
            Output.placed sur.indent (xs ++ rest.1, rest.2) := by
          simp [Output.placed, Text.spread_append]
        rw [hplaced]
        exact gives_pure _

end Surroundings

/-- Where partials are known: the programs of those put in some lists of parts are those of parts that are
in such a list too. -/
def Templates.KeepTo (templates : Templates) (docs : String → Except RenderError (List Part))
    (known : List Part → Prop) : Prop :=
  ∀ qs, known qs → ∀ blanks name, .insertion blanks name ∈ qs →
    (templates.partialNamed name).2.map Program.instructions =
        (docs name).map (Part.instructions .pending) ∧
      ∀ inner, docs name = .ok inner → known inner

namespace Program
open RenderM Surroundings

theorem gives_text_of_placed {s : RenderState} {depth : Nat} {indent : String} {x : RenderM Output}
    {r : Except RenderError (List (Option Char) × Situation)}
    (h : Gives (s.Shows depth) x (r.map (Output.placed indent))) :
    Gives (s.Shows depth) (x >>= fun out => pure out.text)
      (r.map fun out => String.ofList (Text.spread indent.toList out.1)) := by
  cases r with
  | error e => exact h.map Output.text
  | ok out => exact h.map Output.text

/-- A rendering of parts puts the indent in the places of their layout, by induction on the levels that
partials may nest. -/
theorem gives_layoutWithin {templates : Templates} {docs : String → Except RenderError (List Part)}
    {known : List Part → Prop} (hdocs : templates.KeepTo docs known) {s : RenderState}
    (hvalue : ∀ name, (s.valueOf name).isLambda = false) (escaper : Escaper)
    {levels depth frames : Nat} (hlevels : (s.context.atDepth depth).partialLevels frames = levels)
    {p : Program} {qs : List Part} (hqs : known qs) {a : Situation}
    (hp : p.instructions = Part.instructions a.compiled qs) (indent : String) :
    Gives (s.Shows depth)
      (renderWithin templates escaper (s.context.atDepth depth).levelsLeft frames p indent a.isCarried)
      ((layoutWithin escaper s docs levels a qs).map fun out =>
        String.ofList (Text.spread indent.toList out.1)) := by
  induction levels generalizing depth frames p qs a indent with
  | zero =>
    -- No partial may nest, so one fails before it is looked for.
    have hdeep := Context.deeper?_of_partialLevels_eq_zero hlevels
    obtain ⟨nested, -, hrender⟩ :=
      exists_renderWithin_eq templates escaper (s.context.atDepth depth).levelsLeft
    rw [hrender, hp]
    apply gives_text_of_placed
    refine gives_parts hvalue ?_ fun blanks name _ c => gives_withDepth_of_none hdeep _
    intro name c ys d hinner
    cases hinner
  | succ levels ih =>
    obtain ⟨hdeeper, hless, hinner⟩ := Context.exists_deeper?_of_partialLevels hlevels
    obtain ⟨nested, hnested, hrender⟩ :=
      exists_renderWithin_eq templates escaper (s.context.atDepth depth).levelsLeft
    obtain rfl := hnested _ hless
    rw [hrender, hp]
    apply gives_text_of_placed
    refine gives_parts hvalue ?_ ?_
    · intro name c ys d hinner
      obtain ⟨inner, -, hinner⟩ := bind_eq_ok_iff.mp hinner
      exact passes_layoutWithin hinner
    · intro blanks name hmem c
      refine Gives.withDepth ?_ hdeeper
      obtain ⟨hfound, hinside⟩ := hdocs qs hqs blanks name hmem
      have hload := @gives_load s (depth + 1) (templates.partialNamed name)
      cases hpartial : (templates.partialNamed name).2 with
      | error e =>
        cases hdoc : docs name with
        | ok inner =>
          rw [hpartial, hdoc] at hfound
          cases hfound
        | error e' =>
          rw [hpartial, hdoc] at hfound
          cases hfound
          rw [hpartial] at hload
          exact hload.bind_error _
      | ok program =>
        cases hdoc : docs name with
        | error e =>
          rw [hpartial, hdoc] at hfound
          cases hfound
        | ok inner =>
          rw [hpartial, hdoc] at hfound
          rw [hpartial] at hload
          have hcompiled : c.nested.compiled = .pending := by cases c <;> rfl
          have hprogram : program.instructions = Part.instructions c.nested.compiled inner := by
            rw [hcompiled]
            exact Except.ok.inj hfound
          exact hload.bind_ok (ih hinner (hinside inner hdoc) hprogram (indent ++ blanks))

theorem run_render_parts {templates : Templates} {docs : String → Except RenderError (List Part)}
    {known : List Part → Prop} (hdocs : templates.KeepTo docs known) {s : RenderState}
    (hvalue : ∀ name, (s.valueOf name).isLambda = false) (escaper : Escaper) {p : Program}
    {qs : List Part} (hqs : known qs) (hp : p.instructions = Part.instructions .pending qs)
    (indent : String) :
    ((p.render templates escaper indent false).run s).1 =
      (layoutWithin escaper s docs (s.context.partialLevels 0) .fresh qs).map fun out =>
        String.ofList (Text.spread indent.toList out.1) := by
  have hlevels : (s.context.atDepth s.context.depth).partialLevels 0 = s.context.partialLevels 0 := rfl
  have hgives := gives_layoutWithin hdocs hvalue escaper hlevels hqs (a := .fresh) hp indent
  rw [run_render]
  exact (hgives s ⟨rfl, rfl⟩).1

end Program

end Mustache
