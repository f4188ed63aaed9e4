import Mathlib.Control.Monad.Basic
import Mustache.Proofs.Compile.Implements

/-! # Compiling a tree

A section's routine may have been compiled from the children of another section with the same key. That
is sound if sections with the same key have the same children up to offsets: then every routine in the
registry implements the children of every section with its key, and no section has the key of a section
around it, which would have more nodes inside. So the compilation succeeds and the instructions implement
the tree.
-/
namespace Mustache

def Node.bodyKey (source : List Char) (start stop : Int) (delimiters : Delimiters) : String :=
  sectionKey (String.ofList (Text.slice source start stop)) delimiters.tag

/-- Sections with the same key have the same children, up to offsets. -/
def Coherent (source : List Char) (tree : List Node) : Prop :=
  ∀ name start stop delimiters children name' start' stop' delimiters' children',
    Node.sectionBlock name start stop delimiters children ∈ Node.subnodes tree →
    Node.sectionBlock name' start' stop' delimiters' children' ∈ Node.subnodes tree →
    Node.bodyKey source start stop delimiters = Node.bodyKey source start' stop' delimiters' →
    Node.unplaced children = Node.unplaced children'

namespace Compilation

/-- Each routine implements the children of all sections of the tree with its key. -/
def Sound (source : List Char) (tree : List Node) (routines : List (Routine Instruction)) : Prop :=
  ∀ r ∈ routines, ∀ name start stop delimiters children,
    Node.sectionBlock name start stop delimiters children ∈ Node.subnodes tree →
    Node.bodyKey source start stop delimiters = r.key → Implements r.body children

def Grows (source : List Char) (ns : List Node) (before after : List (Routine Instruction)) : Prop :=
  ∀ r ∈ after, r ∈ before ∨ ∃ name start stop delimiters children,
    Node.sectionBlock name start stop delimiters children ∈ Node.subnodes ns ∧
      Node.bodyKey source start stop delimiters = r.key

structure Compiled (source : List Char) (tree ns : List Node) (s : Compilation)
    (is : List Instruction) (s' : Compilation) : Prop where
  implements : Implements is ns
  sound : Sound source tree s'.registry.routines
  grows : Grows source ns s.registry.routines s'.registry.routines

variable {source : List Char} {tree ns ms : List Node} {level : Nat} {s s' : Compilation}

theorem Grows.mono {before after : List (Routine Instruction)} (h : Grows source ns before after)
    (hsub : ∀ n ∈ Node.subnodes ns, n ∈ Node.subnodes ms) : Grows source ms before after := by
  intro r hr
  rcases h r hr with ha | ⟨name, start, stop, delimiters, children, hmem, hkey⟩
  · exact Or.inl ha
  · exact Or.inr ⟨name, start, stop, delimiters, children, hsub _ hmem, hkey⟩

theorem Grows.trans {before between after : List (Routine Instruction)} (h : Grows source ns before between)
    (h' : Grows source ns between after) : Grows source ns before after := by
  intro r hr
  rcases h' r hr with hmid | hnew
  · exact h r hmid
  · exact Or.inr hnew

theorem Compiled.of_routines_eq {is : List Instruction} (h : Implements is ns)
    (hs : Sound source tree s.registry.routines)
    (heq : s'.registry.routines = s.registry.routines) : Compiled source tree ns s is s' where
  implements := h
  sound := by
    rw [heq]
    exact hs
  grows r hr := by
    rw [heq] at hr
    exact Or.inl hr

theorem ok_bind {α β : Type} (a : α) (f : α → Except CompileError β) : (Except.ok a >>= f) = f a := rfl

theorem run_request (key : String) (s : Compilation) : ∃ t,
    (request key).run s = .ok (s.registry.find? key, t) ∧
      t.registry.routines = s.registry.routines := by
  cases h : s.registry.find? key with
  | none =>
    refine ⟨s, ?_, rfl⟩
    simp only [request, Registry.request, h, StateT.run_bind, StateT.run_get, StateT.run_modify,
      pure_bind]
    rfl
  | some r =>
    refine ⟨⟨s.line, { s.registry with hits := s.registry.hits + 1 },
      s.events ++ [.routineReused key]⟩, ?_, rfl⟩
    simp only [request, Registry.request, h, note, StateT.run_bind, StateT.run_get,
      StateT.run_modify, pure_bind]
    rfl

theorem run_register {routine : Routine Instruction}
    (h : ∀ r ∈ s.registry.routines, r.key ≠ routine.key) : ∃ t,
    (register routine).run s = .ok ((), t) ∧
      t.registry.routines = s.registry.routines ++ [routine] := by
  have hnone : s.registry.contains routine.key = false := by
    rw [Registry.contains, Registry.find?, List.find?_eq_none.mpr]
    · rfl
    · intro r hr
      simpa using h r hr
  refine ⟨{ s with registry := { s.registry with
    routines := s.registry.routines ++ [routine] } }, ?_, rfl⟩
  simp only [register, Registry.register?, hnone, StateT.run_bind, StateT.run_get, pure_bind]
  rfl

theorem exists_compile_text (text : String) (hs : Sound source tree s.registry.routines) :
    ∃ i s', (compileNode source level (.text text)).run s = .ok (i, s') ∧
      Compiled source tree [.text text] s i.toList s' := by
  rw [compileNode]
  by_cases hnl : text = "\n"
  · rw [if_pos hnl]
    exact ⟨_, _, rfl, .of_routines_eq (.text .nil) hs rfl⟩
  · rw [if_neg hnl]
    by_cases hempty : text.isEmpty = true
    · rw [if_pos hempty, String.isEmpty_iff.mp hempty]
      exact ⟨_, _, rfl, .of_routines_eq (.empty .nil) hs rfl⟩
    · rw [if_neg hempty]
      exact ⟨_, _, rfl, .of_routines_eq (.text .nil) hs rfl⟩

section Sections

variable {name : String} {start stop : Int} {delimiters : Delimiters} {children : List Node}

theorem exists_compile_reused {r : Routine Instruction}
    (hmem : Node.sectionBlock name start stop delimiters children ∈ Node.subnodes tree)
    (hs : Sound source tree s.registry.routines)
    (hfound : s.registry.find? (Node.bodyKey source start stop delimiters) = some r) :
    ∃ i s', (compileNode source level (.sectionBlock name start stop delimiters children)).run s =
        .ok (i, s') ∧
      Compiled source tree [.sectionBlock name start stop delimiters children] s i.toList s' := by
  obtain ⟨t, hrun, hroutines⟩ := run_request (Node.bodyKey source start stop delimiters) s
  have hkey : r.key = Node.bodyKey source start stop delimiters := by
    simpa using List.find?_some hfound
  have hbody := hs r (List.mem_of_find?_eq_some hfound) name start stop delimiters children hmem
    hkey.symm
  refine ⟨some (.callSection r (.ofName name) name !s.line.isPending), t, ?_,
    .of_routines_eq (.sectionBlock hbody .nil) hs hroutines⟩
  rw [hfound, Node.bodyKey] at hrun
  simp only [compileNode, isInline, StateT.run_bind, StateT.run_get, StateT.run_pure, pure_bind, hrun]
  rfl

/-- A section whose key is new is compiled and registered: no section inside it has its key. -/
theorem exists_compile_fresh (hcoherent : Coherent source tree)
    (hmem : Node.sectionBlock name start stop delimiters children ∈ Node.subnodes tree)
    (hnone : s.registry.find? (Node.bodyKey source start stop delimiters) = none)
    (hchildren : ∀ t, t.registry.routines = s.registry.routines → ∃ body t',
      (compileNodes source (level + 1) children).run t = .ok (body, t') ∧
        Compiled source tree children t body t') :
    ∃ i s', (compileNode source level (.sectionBlock name start stop delimiters children)).run s =
        .ok (i, s') ∧
      Compiled source tree [.sectionBlock name start stop delimiters children] s i.toList s' := by
  obtain ⟨t, hrun, hroutines⟩ := run_request (Node.bodyKey source start stop delimiters) s
  rw [hnone, Node.bodyKey] at hrun
  have hinside := Node.children_of_mem_subnodes tree hmem
  obtain ⟨body, u, hbody, himp, hsound, hgrows⟩ := hchildren
    { t with events := t.events ++
      [.routineCompiled level name (Node.bodyKey source start stop delimiters)] } hroutines
  have hnew : ∀ r ∈ u.registry.routines, r.key ≠ Node.bodyKey source start stop delimiters := by
    intro r hr hkey
    rcases hgrows r hr with hold | ⟨name', start', stop', delimiters', children', hin, hkey'⟩
    · simp only [hroutines] at hold
      rw [Registry.find?, List.find?_eq_none] at hnone
      exact hnone r hold (by simpa using hkey)
    · have heq := hcoherent _ _ _ _ _ _ _ _ _ _ hmem (hinside.1 _ hin) (hkey.symm.trans hkey'.symm)
      have hlen := Node.length_subnodes_congr heq
      have hlt := (Node.children_of_mem_subnodes children hin).2
      omega
  obtain ⟨v, hregister, hv⟩ := @run_register u ⟨Node.bodyKey source start stop delimiters,
    String.ofList (Text.slice source start stop), delimiters.tag, body⟩ hnew
  refine ⟨some (.callSection ⟨Node.bodyKey source start stop delimiters,
    String.ofList (Text.slice source start stop), delimiters.tag, body⟩ (.ofName name) name
    !s.line.isPending), v, ?_, .sectionBlock himp .nil, ?_, ?_⟩
  · rw [Node.bodyKey] at hbody hregister
    simp only [compileNode, isInline, note, StateT.run_bind, StateT.run_get, StateT.run_modify,
      StateT.run_pure, pure_bind, hrun, ok_bind, hbody, hregister]
    rfl
  · intro r hr name' start' stop' delimiters' children' hmem' hkey
    rw [hv] at hr
    rcases List.mem_append.mp hr with hr | hr
    · exact hsound r hr name' start' stop' delimiters' children' hmem' hkey
    · rw [List.mem_singleton.mp hr] at hkey ⊢
      exact himp.congr (hcoherent _ _ _ _ _ _ _ _ _ _ hmem hmem' hkey.symm)
  · intro r hr
    rw [hv] at hr
    rcases List.mem_append.mp hr with hr | hr
    · rcases hgrows r hr with hold | ⟨name', start', stop', delimiters', children', hin, hkey⟩
      · simp only [hroutines] at hold
        exact Or.inl hold
      · refine Or.inr ⟨name', start', stop', delimiters', children', ?_, hkey⟩
        exact List.mem_append_left _ (List.mem_cons_of_mem _ hin)
    · rw [List.mem_singleton.mp hr]
      exact Or.inr ⟨name, start, stop, delimiters, children,
        List.mem_append_left _ List.mem_cons_self, rfl⟩

end Sections

mutual

theorem exists_compileNode (hcoherent : Coherent source tree) :
    ∀ (n : Node) (level : Nat) (s : Compilation),
      (∀ m ∈ Node.subnodesOne n, m ∈ Node.subnodes tree ∧ m.isPlain = true) →
      Sound source tree s.registry.routines →
      ∃ i s', (compileNode source level n).run s = .ok (i, s') ∧
        Compiled source tree [n] s i.toList s'
  | .text text, level, s, _, hs => exists_compile_text text hs
  | .interpolation name escape, level, s, _, hs =>
    ⟨_, _, rfl, .of_routines_eq (.interpolation .nil) hs rfl⟩
  | .sectionBlock name start stop delimiters children, level, s, hn, hs => by
    have hmem := (hn _ List.mem_cons_self).1
    cases hfound : s.registry.find? (Node.bodyKey source start stop delimiters) with
    | some r => exact exists_compile_reused hmem hs hfound
    | none =>
      refine exists_compile_fresh hcoherent hmem hfound fun t ht => ?_
      rw [← ht] at hs
      exact exists_compileNodes hcoherent children (level + 1) t
        (fun m hm => hn m (List.mem_cons_of_mem _ hm)) hs
  | .invertedBlock name children, level, s, hn, hs => by
    obtain ⟨body, t, hrun, himp, hsound, hgrows⟩ := exists_compileNodes hcoherent children (level + 1) s
      (fun m hm => hn m (List.mem_cons_of_mem _ hm)) hs
    refine ⟨some (.callInverted (.ofName name) name body), t, ?_, .invertedBlock himp .nil, hsound,
      hgrows.mono fun m hm => List.mem_append_left _ (List.mem_cons_of_mem _ hm)⟩
    simp only [compileNode, StateT.run_bind, hrun, ok_bind]
    rfl
  | .partialTag name indent, level, s, hn, hs => by
    have hplain := (hn _ List.mem_cons_self).2
    cases hplain
  | .comment, level, s, _, hs => ⟨none, s, rfl, .of_routines_eq (.comment .nil) hs rfl⟩
  | .foreign kind text, level, s, hn, hs => by
    have hplain := (hn _ List.mem_cons_self).2
    cases hplain

theorem exists_compileNodes (hcoherent : Coherent source tree) :
    ∀ (ns : List Node) (level : Nat) (s : Compilation),
      (∀ m ∈ Node.subnodes ns, m ∈ Node.subnodes tree ∧ m.isPlain = true) →
      Sound source tree s.registry.routines →
      ∃ is s', (compileNodes source level ns).run s = .ok (is, s') ∧ Compiled source tree ns s is s'
  | [], level, s, _, hs => ⟨[], s, rfl, .of_routines_eq .nil hs rfl⟩
  | n :: ns, level, s, hns, hs => by
    obtain ⟨i, t, hi, himp, hsound, hgrows⟩ := exists_compileNode hcoherent n level s
      (fun m hm => hns m (List.mem_append_left _ hm)) hs
    obtain ⟨is, u, his, himp', hsound', hgrows'⟩ := exists_compileNodes hcoherent ns level t
      (fun m hm => hns m (List.mem_append_right _ hm)) hsound
    have hfirst : Grows source (n :: ns) s.registry.routines t.registry.routines :=
      hgrows.mono fun m hm => by simp_all [Node.subnodes]
    have hrest : Grows source (n :: ns) t.registry.routines u.registry.routines :=
      hgrows'.mono fun m hm => List.mem_append_right _ hm
    refine ⟨i.toList ++ is, u, ?_, himp.append himp', hsound', hfirst.trans hrest⟩
    simp only [compileNodes, StateT.run_bind, hi, his, ok_bind]
    rfl

end

end Compilation

theorem exists_compile {source : String} {tree : List Node} (name : String)
    (hplain : ∀ n ∈ Node.subnodes tree, n.isPlain = true) (hcoherent : Coherent source.toList tree) :
    ∃ p events, compile source tree name = .ok (p, events) ∧ Implements p.instructions tree := by
  have hempty : Compilation.Sound source.toList tree Compilation.start.registry.routines := nofun
  obtain ⟨is, t, hrun, himp, -, -⟩ := Compilation.exists_compileNodes hcoherent tree 1 .start
    (fun n hn => ⟨hn, hplain n hn⟩) hempty
  have hcompile : ∃ events, compile source tree name = .ok (⟨name, is⟩, events) := by
    rw [compile, hrun]
    exact ⟨_, rfl⟩
  obtain ⟨events, hevents⟩ := hcompile
  exact ⟨⟨name, is⟩, events, hevents, himp⟩

theorem compile_render {source : String} {tree : List Node} (name : String)
    (hplain : ∀ n ∈ Node.subnodes tree, n.isPlain = true) (hcoherent : Coherent source.toList tree) :
    ∃ p events, compile source tree name = .ok (p, events) ∧
      ∀ (templates : Templates) (escaper : Escaper) (s : RenderState),
        s.CallFree (Node.keysIn tree) →
        (p.render templates escaper "" false).run s = (Node.interpret escaper tree).run s := by
  obtain ⟨p, events, hcompile, himp⟩ := exists_compile name hplain hcoherent
  exact ⟨p, events, hcompile, fun templates escaper s hcalls =>
    Program.run_render_of_implements himp templates escaper hcalls⟩

def twoLoops : String := "{{#a}}{{.}}{{/a}}{{#b}}{{.}}{{/b}}"

def twoLoopNodes : List Node :=
  [.sectionBlock "a" 6 11 .standard [.interpolation "." true],
    .sectionBlock "b" 23 28 .standard [.interpolation "." true]]

theorem compile_render_two_sections : ∃ p events,
    compile twoLoops twoLoopNodes "two" = .ok (p, events) ∧
    ∀ templates, ((p.render templates .standard "" false).run
      ⟨⟨[.map [(.text "a", .iterator 0), (.text "b", .bool true)]], 0, 100, .standard⟩,
        ⟨[[.text "x", .text "<"]], []⟩, []⟩).1 = .ok "x&lt;True" := by
  have hcoherent : Coherent twoLoops.toList twoLoopNodes := by
    intro name start stop delimiters children name' start' stop' delimiters' children' h h' _
    simp only [twoLoopNodes, Node.subnodes, Node.subnodesOne, List.cons_append, List.nil_append,
      List.mem_cons, Node.sectionBlock.injEq, List.not_mem_nil, reduceCtorEq, or_false, false_or] at h h'
    have hc : children = [.interpolation "." true] := by
      rcases h with ⟨-, -, -, -, h⟩ | ⟨-, -, -, -, h⟩
      · exact h
      · exact h
    have hc' : children' = [.interpolation "." true] := by
      rcases h' with ⟨-, -, -, -, h'⟩ | ⟨-, -, -, -, h'⟩
      · exact h'
      · exact h'
    rw [hc, hc']
  obtain ⟨p, events, hp, hrender⟩ := compile_render "two" (by decide) hcoherent
  refine ⟨p, events, hp, fun templates => ?_⟩
  rw [hrender templates .standard _ ?_]
  · decide +kernel
  · refine RenderState.callFree_of_data ?_ ?_ rfl _
    · intro v hv
      rw [List.mem_singleton.mp hv]
      rfl
    · intro id v hv
      cases id with
      | zero =>
        have hall : Value.allData [.text "x", .text "<"] = true := rfl
        exact Value.isData_of_mem hall hv
      | succ id => cases hv

end Mustache
