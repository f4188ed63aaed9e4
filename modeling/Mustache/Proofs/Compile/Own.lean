import Mustache.Proofs.Compile.Correct

/-! # Compiling without sharing

Here every section is compiled into a routine of its own from its own children, as if no routine were
ever found again. It is what sharing routines is measured against: the instructions implement every
plain tree, whatever its sections have in common.
-/
namespace Mustache

open Compilation

mutual

/-- The instruction of a node, each section with a routine of its own. -/
def compileOwnNode (source : List Char) (level : Nat) : Node → CompileM (Option Instruction)
  | .sectionBlock name start stop delimiters children => do
    let inline ← isInline
    let raw := String.ofList (Text.slice source start stop)
    let key := sectionKey raw delimiters.tag
    note (.routineCompiled level name key)
    let body ← compileOwnNodes source (level + 1) children
    return some (.callSection ⟨key, raw, delimiters.tag, body⟩ (.ofName name) name inline)
  | .invertedBlock name children => do
    let body ← compileOwnNodes source (level + 1) children
    return some (.callInverted (.ofName name) name body)
  | n => compileNode source level n

def compileOwnNodes (source : List Char) (level : Nat) : List Node → CompileM (List Instruction)
  | [] => return []
  | n :: ns => do
    let instruction ← compileOwnNode source level n
    let rest ← compileOwnNodes source level ns
    return instruction.toList ++ rest

end

def compileOwn (source : String) (tree : List Node) (name : String) : Except CompileError Program := do
  let (instructions, _) ← (compileOwnNodes source.toList 1 tree).run .start
  return ⟨name, instructions⟩

namespace Compilation

variable {source : List Char}

mutual

theorem exists_compileOwnNode : ∀ (n : Node) (level : Nat) (s : Compilation),
    (∀ m ∈ Node.subnodesOne n, m.isPlain = true) →
    ∃ i s', (compileOwnNode source level n).run s = .ok (i, s') ∧ Implements i.toList [n]
  | .text text, level, s, _ => by
    have hs : Sound source [] s.registry.routines := by
      intro r _ name start stop delimiters children hmem
      cases hmem
    obtain ⟨i, s', hrun, hcompiled⟩ := @exists_compile_text source [] level s text hs
    exact ⟨i, s', hrun, hcompiled.implements⟩
  | .interpolation name escape, level, s, _ => ⟨_, _, rfl, .interpolation .nil⟩
  | .sectionBlock name start stop delimiters children, level, s, hn => by
    obtain ⟨body, t, hrun, himp⟩ := exists_compileOwnNodes children (level + 1)
      { s with events := s.events ++ [.routineCompiled level name
        (sectionKey (String.ofList (Text.slice source start stop)) delimiters.tag)] }
      (fun m hm => hn m (List.mem_cons_of_mem _ hm))
    refine ⟨some (.callSection ⟨Node.bodyKey source start stop delimiters,
      String.ofList (Text.slice source start stop), delimiters.tag, body⟩ (.ofName name) name
      !s.line.isPending), t, ?_, .sectionBlock himp .nil⟩
    simp only [compileOwnNode, isInline, note, StateT.run_bind, StateT.run_get, StateT.run_modify,
      StateT.run_pure, pure_bind, hrun, ok_bind]
    rfl
  | .invertedBlock name children, level, s, hn => by
    obtain ⟨body, t, hrun, himp⟩ := exists_compileOwnNodes children (level + 1) s
      (fun m hm => hn m (List.mem_cons_of_mem _ hm))
    refine ⟨some (.callInverted (.ofName name) name body), t, ?_, .invertedBlock himp .nil⟩
    simp only [compileOwnNode, StateT.run_bind, hrun, ok_bind]
    rfl
  | .partialTag name indent, level, s, hn => by
    have hplain := hn _ List.mem_cons_self
    cases hplain
  | .comment, level, s, _ => ⟨none, s, rfl, .comment .nil⟩
  | .foreign kind text, level, s, hn => by
    have hplain := hn _ List.mem_cons_self
    cases hplain

theorem exists_compileOwnNodes : ∀ (ns : List Node) (level : Nat) (s : Compilation),
    (∀ m ∈ Node.subnodes ns, m.isPlain = true) →
    ∃ is s', (compileOwnNodes source level ns).run s = .ok (is, s') ∧ Implements is ns
  | [], level, s, _ => ⟨[], s, rfl, .nil⟩
  | n :: ns, level, s, hns => by
    obtain ⟨i, t, hi, himp⟩ := exists_compileOwnNode n level s
      (fun m hm => hns m (List.mem_append_left _ hm))
    obtain ⟨is, u, his, himp'⟩ := exists_compileOwnNodes ns level t
      (fun m hm => hns m (List.mem_append_right _ hm))
    refine ⟨i.toList ++ is, u, ?_, himp.append himp'⟩
    simp only [compileOwnNodes, StateT.run_bind, hi, his, ok_bind]
    rfl

end

end Compilation

/-- Without sharing every plain tree has a program, which renders the tree. -/
theorem exists_compileOwn (source : String) {tree : List Node} (name : String)
    (hplain : ∀ n ∈ Node.subnodes tree, n.isPlain = true) :
    ∃ p, compileOwn source tree name = .ok p ∧
      ∀ (templates : Templates) (escaper : Escaper) (s : RenderState), s.CallFree (Node.keysIn tree) →
        (p.render templates escaper "" false).run s = (Node.interpret escaper tree).run s := by
  obtain ⟨is, s', hrun, himp⟩ := Compilation.exists_compileOwnNodes tree 1 .start hplain
  refine ⟨⟨name, is⟩, ?_, fun templates escaper s hcalls =>
    Program.run_render_of_implements himp templates escaper hcalls⟩
  rw [compileOwn, hrun]
  rfl

end Mustache
