import Mustache.Proofs.Node.LineDocument
import Mustache.Proofs.Render.Outcome

/-! # Expansions of line documents

A line document comes to the texts of its lines, where the line of a partial comes to the lines of that
partial behind both indents. Partials are put in up to a number of levels, which makes no difference once
the lines do not nest deeper than that.
-/
namespace Mustache

def RenderState.valueOf (s : RenderState) (name : String) : Value :=
  s.store.current (s.context.resolve (.ofName name) name)

variable (escaper : Escaper) (s : RenderState) (docs : String → Except RenderError (List Line))

def Fragment.expand : Fragment → Except RenderError String
  | text t => .ok t
  | value name escape =>
    if escape then (escaper.escape (s.valueOf name).rendered).mapError .unescapable
    else .ok (s.valueOf name).rendered

def Fragment.expandAll : List Fragment → Except RenderError String
  | [] => .ok ""
  | f :: fs => do
    let first ← f.expand escaper s
    let rest ← expandAll fs
    return first ++ rest

/-- What a line comes to behind an indent; `insert` says what a partial comes to behind one. -/
def Line.expand (insert : String → String → Except RenderError String) (indent : String) :
    Line → Except RenderError String
  | content [] => .ok "\n"
  | content (f :: fs) => do
    let text ← Fragment.expandAll escaper s (f :: fs)
    return indent ++ text ++ "\n"
  | insertion blanks name => insert name (indent ++ blanks)

def Line.expandAll (insert : String → String → Except RenderError String) (indent : String) :
    List Line → Except RenderError String
  | [] => .ok ""
  | l :: ls => do
    let first ← l.expand escaper s insert indent
    let rest ← expandAll insert indent ls
    return first ++ rest

/-- What lines come to with partials put in up to a number of levels. -/
def expandWithin : Nat → String → List Line → Except RenderError String
  | 0 => Line.expandAll escaper s fun _ _ => .error (.tooDeep s.context.limit)
  | levels + 1 => Line.expandAll escaper s fun name indent => docs name >>= expandWithin levels indent

def NestsWithin : Nat → List Line → Prop
  | 0, lines => ∀ blanks name, Line.insertion blanks name ∉ lines
  | levels + 1, lines => ∀ blanks name inner, Line.insertion blanks name ∈ lines →
      docs name = .ok inner → NestsWithin levels inner

variable {escaper s docs}
variable {insert insert' : String → String → Except RenderError String} {indent text : String}
  {error : RenderError} {lines : List Line} {levels : Nat}

namespace Line

theorem expandAll_congr
    (h : ∀ blanks name, insertion blanks name ∈ lines →
      insert name (indent ++ blanks) = insert' name (indent ++ blanks)) :
    expandAll escaper s insert indent lines = expandAll escaper s insert' indent lines := by
  induction lines with
  | nil => rfl
  | cons l ls ih =>
    have hfirst : l.expand escaper s insert indent = l.expand escaper s insert' indent := by
      cases l with
      | content fs => cases fs <;> rfl
      | insertion blanks name => exact h blanks name List.mem_cons_self
    rw [expandAll, expandAll, hfirst, ih fun blanks name hmem => h blanks name (List.mem_cons_of_mem l hmem)]

theorem exists_insert_of_expandAll (h : expandAll escaper s insert indent lines = .ok text)
    {blanks name : String} (hmem : insertion blanks name ∈ lines) :
    ∃ inner, insert name (indent ++ blanks) = .ok inner := by
  induction lines generalizing text with
  | nil => cases hmem
  | cons l ls ih =>
    obtain ⟨first, hfirst, h⟩ := bind_eq_ok_iff.mp h
    obtain ⟨rest, hrest, -⟩ := bind_eq_ok_iff.mp h
    rcases List.mem_cons.mp hmem with rfl | hmem
    · exact ⟨first, hfirst⟩
    · exact ih hrest hmem

theorem error_of_fragment {f : Fragment} (h : f.expand escaper s = .error error) :
    ∃ e, error = .unescapable e := by
  cases f with
  | text t => cases h
  | value name escape =>
    rw [Fragment.expand] at h
    split at h
    · cases hescape : escaper.escape (s.valueOf name).rendered with
      | error e =>
        rw [hescape] at h
        cases h
        exact ⟨e, rfl⟩
      | ok t =>
        rw [hescape] at h
        cases h
    · cases h

theorem error_of_fragments {fs : List Fragment} (h : Fragment.expandAll escaper s fs = .error error) :
    ∃ e, error = .unescapable e := by
  induction fs with
  | nil => cases h
  | cons f fs ih =>
    rcases bind_eq_error_iff.mp h with hfirst | ⟨first, -, h⟩
    · exact error_of_fragment hfirst
    · rcases bind_eq_error_iff.mp h with hrest | ⟨rest, -, h⟩
      · exact ih hrest
      · cases h

theorem error_of_expandAll (h : expandAll escaper s insert indent lines = .error error) :
    (∃ e, error = .unescapable e) ∨
      ∃ blanks name, insertion blanks name ∈ lines ∧ insert name (indent ++ blanks) = .error error := by
  induction lines with
  | nil => cases h
  | cons l ls ih =>
    rcases bind_eq_error_iff.mp h with hfirst | ⟨first, -, h⟩
    · cases l with
      | insertion blanks name => exact Or.inr ⟨blanks, name, List.mem_cons_self, hfirst⟩
      | content fs =>
        cases fs with
        | nil => cases hfirst
        | cons f fs =>
          rcases bind_eq_error_iff.mp hfirst with hall | ⟨text, -, h⟩
          · exact Or.inl (error_of_fragments hall)
          · cases h
    · rcases bind_eq_error_iff.mp h with hrest | ⟨rest, -, h⟩
      · rcases ih hrest with hvalue | ⟨blanks, name, hmem, hinsert⟩
        · exact Or.inl hvalue
        · exact Or.inr ⟨blanks, name, List.mem_cons_of_mem l hmem, hinsert⟩
      · cases h

end Line

theorem expandWithin_of_nestsWithin (h : NestsWithin docs levels lines) {more : Nat} (hle : levels ≤ more)
    (indent : String) :
    expandWithin escaper s docs more indent lines = expandWithin escaper s docs levels indent lines := by
  induction levels generalizing more lines indent with
  | zero =>
    cases more with
    | zero => rfl
    | succ more => exact Line.expandAll_congr fun blanks name hmem => absurd hmem (h blanks name)
  | succ levels ih =>
    cases more with
    | zero => omega
    | succ more =>
      apply Line.expandAll_congr
      intro blanks name hmem
      cases hdoc : docs name with
      | error e => rfl
      | ok inner => exact ih (h blanks name inner hmem hdoc) (by omega) (indent ++ blanks)

theorem nestsWithin_of_expandWithin (h : expandWithin escaper s docs levels indent lines = .ok text) :
    NestsWithin docs levels lines := by
  induction levels generalizing lines indent text with
  | zero =>
    intro blanks name hmem
    obtain ⟨inner, hinner⟩ := Line.exists_insert_of_expandAll h hmem
    cases hinner
  | succ levels ih =>
    intro blanks name inner hmem hdoc
    obtain ⟨text', hinsert⟩ := Line.exists_insert_of_expandAll h hmem
    rw [hdoc] at hinsert
    exact ih hinsert

/-- Why lines do not come to a text; that they nest too deep is one of the reasons only if they do. -/
theorem error_of_expandWithin (h : expandWithin escaper s docs levels indent lines = .error error) :
    (∃ e, error = .unescapable e) ∨ (∃ name, docs name = .error error) ∨
      error = .tooDeep s.context.limit ∧ ¬ NestsWithin docs levels lines := by
  induction levels generalizing lines indent with
  | zero =>
    rcases Line.error_of_expandAll h with hvalue | ⟨blanks, name, hmem, hinsert⟩
    · exact Or.inl hvalue
    · cases hinsert
      exact Or.inr (Or.inr ⟨rfl, fun hnests => hnests blanks name hmem⟩)
  | succ levels ih =>
    rcases Line.error_of_expandAll h with hvalue | ⟨blanks, name, hmem, hinsert⟩
    · exact Or.inl hvalue
    · rcases bind_eq_error_iff.mp hinsert with hmissing | ⟨inner, hdoc, hinner⟩
      · exact Or.inr (Or.inl ⟨name, hmissing⟩)
      · rcases ih hinner with hvalue | hmissing | ⟨hdeep, hnot⟩
        · exact Or.inl hvalue
        · exact Or.inr (Or.inl hmissing)
        · exact Or.inr (Or.inr ⟨hdeep, fun hnests => hnot (hnests blanks name inner hmem hdoc)⟩)

end Mustache
