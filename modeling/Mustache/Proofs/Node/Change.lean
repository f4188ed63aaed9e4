import Mustache.Proofs.Node.Forest
import Mustache.Proofs.Token.Move

/-! # Changing the tokens of a tree

A change of tokens that keeps their kinds and values changes the tree they stand for node by node. It may
move the lines down; errors then stand further down as well.
-/
namespace Mustache

@[simp] theorem SyntaxError.lowered_zero : ∀ e : SyntaxError, e.lowered 0 = e
  | ⟨fault, line⟩ => by cases fault <;> simp [lowered, SyntaxFault.lowered]

namespace TreeBuilder

/-- A change of tokens, `l` lines further down, and the change of nodes that goes with it. -/
structure Carries (f : Token → Token) (g : Node → Node) (l : Nat) : Prop where
  kind_eq : ∀ t, (f t).kind = t.kind
  value_eq : ∀ t, (f t).value = t.value
  line_eq : ∀ t, (f t).line = t.line + l
  leaf?_eq : ∀ t, (f t).leaf? = t.leaf?.map g
  closeSection_eq : ∀ (s : OpenSection) (t : Token),
    closeSection ⟨f s.tag, s.nodes.map g⟩ (f t) = g (closeSection s t)

def changed (f : Token → Token) (g : Node → Node) (b : TreeBuilder) : TreeBuilder :=
  ⟨b.nodes.map g, b.sections.map fun s => ⟨f s.tag, s.nodes.map g⟩⟩

theorem add_changed (f : Token → Token) (g : Node → Node) (b : TreeBuilder) (n : Node) :
    (b.changed f g).add (g n) = (b.add n).changed f g := by
  obtain ⟨nodes, sections⟩ := b
  cases sections <;> simp [add, changed]

namespace Carries

variable {f : Token → Token} {g : Node → Node} {l : Nat}

theorem take_sectionEnd (h : Carries f g l) (b : TreeBuilder) {t : Token} (ht : t.kind = .sectionEnd) :
    (b.changed f g).take (f t) = ((b.take t).map (changed f g)).mapError (SyntaxError.lowered l) := by
  have ht' : (f t).kind = .sectionEnd := (h.kind_eq t).trans ht
  obtain ⟨nodes, sections⟩ := b
  cases sections with
  | nil =>
    have hmoved : take (changed f g ⟨nodes, []⟩) (f t) =
        .error ⟨.unexpectedClose t.value, some (t.line + l)⟩ := by
      simp [changed, take, ht', h.value_eq, h.line_eq]
    rw [hmoved, take, ht]
    rfl
  | cons s outer =>
    -- names are kept, so the tag closes the section after the change if and only if it did before
    by_cases hname : s.tag.value = t.value
    · have hname' : (f s.tag).value = (f t).value := by rw [h.value_eq, h.value_eq, hname]
      have htake := @take_of_sectionEnd (f t) ⟨f s.tag, s.nodes.map g⟩
        (changed f g ⟨nodes, outer⟩).nodes (changed f g ⟨nodes, outer⟩).sections ht' hname'
      have hadd := add_changed f g ⟨nodes, outer⟩ (closeSection s t)
      rw [← h.closeSection_eq] at hadd
      rw [take_of_sectionEnd ht hname]
      exact htake.trans (congrArg Except.ok hadd)
    · have hmoved : take (changed f g ⟨nodes, s :: outer⟩) (f t) =
          .error ⟨.mismatchedClose s.tag.value (s.tag.line + l) t.value, some (t.line + l)⟩ := by
        simp [changed, take, ht', hname, h.value_eq, h.line_eq]
      have herror : take ⟨nodes, s :: outer⟩ t =
          .error ⟨.mismatchedClose s.tag.value s.tag.line t.value, some t.line⟩ := by
        simp [take, ht, hname]
      rw [herror, hmoved]
      rfl

theorem take (h : Carries f g l) (b : TreeBuilder) (t : Token) :
    (b.changed f g).take (f t) = ((b.take t).map (changed f g)).mapError (SyntaxError.lowered l) := by
  cases hleaf : t.leaf? with
  | some n =>
    have hleaf' : (f t).leaf? = some (g n) := by rw [h.leaf?_eq, hleaf, Option.map_some]
    rw [take_of_leaf? hleaf, take_of_leaf? hleaf', add_changed]
    rfl
  | none =>
    cases hk : t.kind with
    | sectionStart | invertedStart =>
      have hopens : t.Opens := by simp [Token.Opens, hk]
      have hopens' : (f t).Opens := by simp [Token.Opens, h.kind_eq, hk]
      rw [take_of_opens hopens, take_of_opens hopens']
      rfl
    | sectionEnd => exact h.take_sectionEnd b hk
    | delimiterTag =>
      rw [take_of_delimiterTag hk, take_of_delimiterTag ((h.kind_eq t).trans hk)]
      rfl
    | _ => simp [Token.leaf?, hk] at hleaf

theorem foldlM_take (h : Carries f g l) (ts : List Token) (b : TreeBuilder) :
    (ts.map f).foldlM TreeBuilder.take (b.changed f g) =
      ((ts.foldlM TreeBuilder.take b).map (changed f g)).mapError (SyntaxError.lowered l) := by
  induction ts generalizing b with
  | nil => rfl
  | cons t ts ih =>
    rw [List.map_cons, List.foldlM_cons, List.foldlM_cons, h.take]
    cases b.take t with
    | error e => rfl
    | ok b' => exact ih b'

theorem finish (h : Carries f g l) (b : TreeBuilder) : (b.changed f g).finish =
    (b.finish.map (List.map g)).mapError (SyntaxError.lowered l) := by
  obtain ⟨nodes, sections⟩ := b
  cases sections with
  | nil => rfl
  | cons s outer =>
    simp [changed, TreeBuilder.finish, h.value_eq, h.line_eq]
    rfl

theorem ofTokens (h : Carries f g l) (ts : List Token) : Node.ofTokens (ts.map f) =
    ((Node.ofTokens ts).map (List.map g)).mapError (SyntaxError.lowered l) := by
  have hfold := h.foldlM_take ts .empty
  have hempty : TreeBuilder.empty.changed f g = .empty := rfl
  rw [hempty] at hfold
  rw [Node.ofTokens, Node.ofTokens, hfold]
  cases ts.foldlM TreeBuilder.take .empty with
  | error e => rfl
  | ok b => exact h.finish b

end Carries
end TreeBuilder
end Mustache
