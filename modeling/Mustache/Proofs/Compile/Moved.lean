import Mustache.Proofs.Compile.Key
import Mustache.Proofs.Node.Moved

/-! # Compiling a moved tree

The compiler reads the raw bodies of sections off the source at their offsets and nothing else. So a tree
moved by the length of a text put before its source compiles as before.
-/
namespace Mustache

/-- The offsets of the sections of a tree are counted from the start of the source. -/
def Node.Placed (tree : List Node) : Prop :=
  ∀ name start stop delimiters children,
    Node.sectionBlock name start stop delimiters children ∈ Node.subnodes tree → 0 ≤ start ∧ 0 ≤ stop

theorem Forest.placed {ts : List Token} {ns : List Node} (h : Forest ts ns) : Node.Placed ns := by
  intro name start stop delimiters children hmem
  obtain ⟨pre, o, body, c, post, -, -, -, rfl, rfl, -, -⟩ := h.exists_section hmem
  exact ⟨Int.natCast_nonneg _, Int.natCast_nonneg _⟩

theorem placed_of_parseUnder {d : Delimiters} {text : String} {tree : List Node}
    (h : parseUnder d text = .ok tree) : Node.Placed tree := by
  rw [parseUnder] at h
  cases hscan : (Cursor.startUnder d text.toList).scan with
  | error e =>
    rw [hscan] at h
    cases h
  | ok tokens =>
    rw [hscan] at h
    exact (ofTokens_eq_ok_iff.mp h).placed

variable (pre source : List Char)

mutual

theorem compileNode_moved : ∀ (n : Node) (level : Nat), Node.Placed [n] →
    compileNode (pre ++ source) level (n.movedOne pre.length) = compileNode source level n
  | .text _, _, _ | .interpolation _ _, _, _ | .partialTag _ _, _, _ | .comment, _, _
  | .foreign _ _, _, _ => rfl
  | .sectionBlock name start stop delimiters children, level, hn => by
    obtain ⟨hstart, hstop⟩ := hn name start stop delimiters children (by simp [Node.subnodes, Node.subnodesOne])
    have hchildren := compileNodes_moved children (level + 1) fun name' start' stop' delimiters' children' h =>
      hn name' start' stop' delimiters' children' (by simp [Node.subnodes, Node.subnodesOne, h])
    rw [Node.movedOne, compileNode, compileNode, Text.slice_append_left pre source hstart hstop, hchildren]
  | .invertedBlock name children, level, hn => by
    have hchildren := compileNodes_moved children (level + 1) fun name' start' stop' delimiters' children' h =>
      hn name' start' stop' delimiters' children' (by simp [Node.subnodes, Node.subnodesOne, h])
    rw [Node.movedOne, compileNode, compileNode, hchildren]

theorem compileNodes_moved : ∀ (ns : List Node) (level : Nat), Node.Placed ns →
    compileNodes (pre ++ source) level (Node.moved pre.length ns) = compileNodes source level ns
  | [], _, _ => rfl
  | n :: ns, level, hns => by
    have hn := compileNode_moved n level fun name start stop delimiters children h =>
      hns name start stop delimiters children (by simp_all [Node.subnodes])
    have hrest := compileNodes_moved ns level fun name start stop delimiters children h =>
      hns name start stop delimiters children (List.mem_append_right _ h)
    rw [Node.moved, compileNodes, compileNodes, hn, hrest]

end

/-- A tree moved by the length of what was put before its source has the same program. -/
theorem compile_moved (pre source name : String) {tree : List Node} (hplaced : Node.Placed tree) :
    compile (pre ++ source) (Node.moved pre.length tree) name = compile source tree name := by
  rw [compile, compile, String.toList_append, ← String.length_toList, compileNodes_moved _ _ _ _ hplaced]

variable {pre source}

theorem DigestsApart.moved {tree : List Node} (hplaced : Node.Placed tree)
    (h : DigestsApart source tree) : DigestsApart (pre ++ source) (Node.moved pre.length tree) := by
  have hsection : ∀ name start stop delimiters children,
      Node.sectionBlock name start stop delimiters children ∈ Node.subnodes (Node.moved pre.length tree) →
      ∃ start' stop' children',
        Node.sectionBlock name start' stop' delimiters children' ∈ Node.subnodes tree ∧
        Node.bodyPayload (pre ++ source) start stop delimiters =
          Node.bodyPayload source start' stop' delimiters := by
    intro name start stop delimiters children hmem
    obtain ⟨m, hm, heq⟩ := Node.mem_subnodes_moved pre.length tree hmem
    cases m with
    | sectionBlock name' start' stop' delimiters' children' =>
      obtain ⟨rfl, rfl, rfl, rfl, -⟩ := Node.sectionBlock.inj heq
      obtain ⟨hstart, hstop⟩ := hplaced _ _ _ _ _ hm
      refine ⟨start', stop', children', hm, ?_⟩
      rw [Node.bodyPayload, Node.bodyPayload, Text.slice_append_left pre source hstart hstop]
    | _ => cases heq
  intro name start stop delimiters children name' start' stop' delimiters' children' hmem hmem' hkey
  obtain ⟨a, b, ns, hin, hpayload⟩ := hsection _ _ _ _ _ hmem
  obtain ⟨a', b', ns', hin', hpayload'⟩ := hsection _ _ _ _ _ hmem'
  rw [hpayload, hpayload'] at hkey ⊢
  exact h _ _ _ _ _ _ _ _ _ _ hin hin' hkey

end Mustache
