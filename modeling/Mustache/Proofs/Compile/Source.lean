import Mustache.Engine

/-! # The program of a text

A text that has a tree has the program of its tree, under the name it is given.
-/
namespace Mustache

variable {source : String}

theorem exists_compile_of_compileText {label : Option String} {events : List Event} {p : Program}
    (h : compileText source label = (events, .ok p)) :
    ∃ tree name, parse source = .ok tree ∧ compile source tree name = .ok (p, events) := by
  unfold compileText at h
  cases hparse : parse source with
  | error e =>
    rw [hparse] at h
    cases h
  | ok tree =>
    simp only [hparse] at h
    split at h
    · cases h
    · rename_i program more hc
      cases h
      exact ⟨tree, _, rfl, hc⟩

theorem exists_compileText {tree : List Node} (hparse : parse source = .ok tree) (label : Option String) :
    ∃ name, ∀ p events, compile source tree name = .ok (p, events) →
      compileText source label = (events, .ok p) := by
  cases label with
  | none =>
    refine ⟨"template:" ++ shortDigest source, fun p events hc => ?_⟩
    simp only [compileText, hparse, hc]
  | some s =>
    refine ⟨if s.isEmpty then "template:" ++ shortDigest source else s, fun p events hc => ?_⟩
    simp only [compileText, hparse, hc]

theorem compileText_named (source : String) {name : String} (hname : name ≠ "") :
    compileText source (some name) = match parse source with
      | .error e => ([], .error (.malformed e))
      | .ok tree => match compile source tree name with
        | .error e => ([], .error (.uncompilable e))
        | .ok (program, events) => (events, .ok program) := by
  cases hparse : parse source with
  | error e => simp [compileText, hparse]
  | ok tree =>
    cases hc : compile source tree name with
    | error e => simp [compileText, hparse, hname, hc]
    | ok found => simp [compileText, hparse, hname, hc]

end Mustache
