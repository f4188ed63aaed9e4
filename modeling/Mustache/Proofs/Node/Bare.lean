import Mustache.Proofs.Node.Interpret
import Mustache.Proofs.Node.Subnodes
import Mustache.Proofs.Render.Outcome

/-! # Trees where no name has a value

Without scopes every name is missing: a tree gives its own texts, and of its sections only the inverted
ones run. What a tree gives there tells trees apart that differ in nothing but their texts. Offsets do
not matter to what a tree gives anywhere.
-/
namespace Mustache.Node

mutual

/-- The text of a node where no name has a value. -/
def bareOne : Node → List Char
  | text s => s.toList
  | invertedBlock _ children => bare children
  | interpolation _ _ | sectionBlock _ _ _ _ _ | partialTag _ _ | comment | foreign _ _ => []

def bare : List Node → List Char
  | [] => []
  | n :: ns => bareOne n ++ bare ns

end

theorem bare_append (ns ms : List Node) : bare (ns ++ ms) = bare ns ++ bare ms := by
  induction ns with
  | nil => rfl
  | cons n ns ih => rw [List.cons_append, bare, ih, bare, List.append_assoc]

mutual

theorem bareOne_unplacedOne : ∀ n : Node, bareOne (unplacedOne n) = bareOne n
  | invertedBlock name children => by
    rw [unplacedOne, bareOne, bareOne]
    exact bare_unplaced children
  | text _ | interpolation _ _ | partialTag _ _ | comment | foreign _ _ => rfl
  | sectionBlock name start stop delimiters children => by rw [unplacedOne, bareOne, bareOne]

theorem bare_unplaced : ∀ ns : List Node, bare (unplaced ns) = bare ns
  | [] => rfl
  | n :: ns => by rw [unplaced, bare, bare, bareOne_unplacedOne n, bare_unplaced ns]

end

mutual

theorem interpretOne_unplacedOne (escaper : Escaper) :
    ∀ n : Node, interpretOne escaper (unplacedOne n) = interpretOne escaper n
  | text _ | interpolation _ _ | partialTag _ _ | comment | foreign _ _ => rfl
  | sectionBlock name start stop delimiters children => by
    rw [unplacedOne, interpretOne, interpretOne, interpret_unplaced escaper children]
  | invertedBlock name children => by
    rw [unplacedOne, interpretOne, interpretOne, interpret_unplaced escaper children]

theorem interpret_unplaced (escaper : Escaper) :
    ∀ ns : List Node, interpret escaper (unplaced ns) = interpret escaper ns
  | [] => rfl
  | n :: ns => by
    rw [unplaced, interpret, interpret, interpretOne_unplacedOne escaper n,
      interpret_unplaced escaper ns]

end

theorem interpret_congr {ns ms : List Node} (escaper : Escaper) (h : unplaced ns = unplaced ms) :
    interpret escaper ns = interpret escaper ms := by
  rw [← interpret_unplaced, h, interpret_unplaced]

def blank : RenderState := ⟨⟨[], 0, 0, .standard⟩, {}, []⟩

theorem run_resolve_blank (lookup : Lookup) (name : String) :
    (RenderM.resolve lookup name).run blank = (.ok .null, blank) := by
  cases lookup <;> rfl

mutual

theorem run_interpretOne_blank :
    ∀ n : Node, (interpretOne .standard n).run blank = (.ok (String.ofList (bareOne n)), blank)
  | text s => by rw [interpretOne, bareOne, String.ofList_toList, RenderM.run_pure]
  | interpolation name escape => by
    rw [interpretOne, bareOne, RenderM.run_bind, run_resolve_blank]
    cases escape <;> rfl
  | sectionBlock name start stop delimiters children => by
    rw [interpretOne, bareOne, RenderM.run_bind, run_resolve_blank]
    rfl
  | invertedBlock name children => by
    rw [interpretOne, bareOne, RenderM.run_bind, run_resolve_blank]
    exact run_interpret_blank children
  | partialTag _ _ | comment | foreign _ _ => rfl

theorem run_interpret_blank :
    ∀ ns : List Node, (interpret .standard ns).run blank = (.ok (String.ofList (bare ns)), blank)
  | [] => rfl
  | n :: ns => by
    rw [interpret, RenderM.run_bind, run_interpretOne_blank n]
    simp only [RenderM.run_bind, run_interpret_blank ns, bare, String.ofList_append]
    rfl

end

end Mustache.Node
