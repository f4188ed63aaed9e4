import Mustache.Proofs.Compile.Source
import Mustache.Proofs.Compile.Walk
import Mustache.Proofs.Render.Cyclic

/-! # Sources of partials that come back

The partials of a set may each insert another one of it. Whatever else their sources hold, a rendering that
comes to one of them never gives a text. Sources of nothing but texts and such partials have programs of
the same kind, and then it is the limit that a rendering ends at.
-/
namespace Mustache

variable {names : Set String}

def Node.IsTextOrPartial (names : Set String) : Node → Prop
  | text _ | comment => True
  | partialTag name _ => name ∈ names
  | interpolation _ _ | sectionBlock _ _ _ _ _ | invertedBlock _ _ | foreign _ _ => False

/-- The sources of the partials consist of texts and of partials of the set. -/
def Engine.OnlyTextAndPartials (e : Engine) (names : Set String) : Prop :=
  ∀ name ∈ names, ∃ text tree, (e.partialText name).2 = .ok text ∧ parse text = .ok tree ∧
    ∀ n ∈ tree, n.IsTextOrPartial names

theorem Walks.isTextOrPartial {source : List Char} {ns : List Node} {a b : Progress} {is : List Instruction}
    (h : Walks source ns a is b) (hns : ∀ n ∈ ns, n.IsTextOrPartial names) :
    ∀ i ∈ is, i.IsTextOrPartial names := by
  induction h with
  | nil => simp
  | newline _ ih | text _ _ _ ih =>
    simp only [List.forall_mem_cons] at hns ⊢
    exact ⟨trivial, ih hns.2⟩
  | empty _ ih | comment _ ih => exact ih (List.forall_mem_cons.mp hns).2
  | partialTag _ ih =>
    simp only [List.forall_mem_cons] at hns ⊢
    exact ⟨hns.1, ih hns.2⟩
  | interpolation | reused | fresh | inverted => exact (List.forall_mem_cons.mp hns).1.elim

namespace Engine

variable {e : Engine}

theorem exists_walks_of_loadPartial {name text : String} {tree : List Node} {p : Program}
    (htext : (e.partialText name).2 = .ok text) (hparse : parse text = .ok tree)
    (h : (e.loadPartial name).2 = .ok p) : ∃ b, Walks text.toList tree .start p.instructions b := by
  rcases hfound : e.partialText name with ⟨events, outcome⟩
  rw [hfound] at htext
  cases htext
  simp only [loadPartial, hfound] at h
  rcases hcompile : compileText text (some ("partial:" ++ name)) with ⟨more, outcome⟩
  rw [hcompile] at h
  cases h
  obtain ⟨tree', label, hparse', hcompile⟩ := exists_compile_of_compileText hcompile
  cases hparse.symm.trans hparse'
  exact (walks_of_compile hcompile).2

theorem exists_loadPartial_of_walks {name text : String} {tree : List Node} {is : List Instruction}
    {b : Progress} (htext : (e.partialText name).2 = .ok text) (hparse : parse text = .ok tree)
    (h : Walks text.toList tree .start is b) : ∃ label, (e.templates.partialNamed name).2 = .ok ⟨label, is⟩ := by
  obtain ⟨label, hlabel⟩ := exists_compileText hparse (some ("partial:" ++ name))
  obtain ⟨more, hcompile⟩ := exists_compile_of_walks label h
  have hprogram := hlabel _ more hcompile
  rcases hfound : e.partialText name with ⟨events, outcome⟩
  rw [hfound] at htext
  cases htext
  exact ⟨label, by simp [templates, loadPartial, hfound, hprogram]⟩

theorem OnlyTextAndPartials.isTextOrPartial (h : e.OnlyTextAndPartials names) {name : String}
    (hname : name ∈ names) {p : Program} (hp : (e.loadPartial name).2 = .ok p) :
    ∀ i ∈ p.instructions, i.IsTextOrPartial names := by
  obtain ⟨text, tree, htext, hparse, htree⟩ := h name hname
  obtain ⟨b, hwalk⟩ := exists_walks_of_loadPartial htext hparse hp
  exact hwalk.isTextOrPartial htree

/-- A program that inserts a partial of a cyclic set is never rendered to a text. If there is nothing but
texts and partials of the set, the error is that of the limit, and the scopes and the depth are unchanged. -/
theorem cyclic_partials_fail (hcyclic : e.templates.Cyclic names) {p : Program}
    (hp : Instruction.Inserts names p.instructions) (indent : String) (escape : Bool) (s : RenderState) :
    (∃ error, ((e.render p indent escape).run s).1 = .error error) ∧
    (e.OnlyTextAndPartials names → (∀ i ∈ p.instructions, i.IsTextOrPartial names) →
      ((e.render p indent escape).run s).1 = .error (.tooDeep s.context.limit) ∧
        ((e.render p indent escape).run s).2.context = s.context) := by
  refine ⟨Program.fails_render hcyclic e.escaper hp indent escape s, fun hsources htext => ⟨?_, ?_⟩⟩
  · have htemplates : ∀ name ∈ names, ∀ q, (e.templates.partialNamed name).2 = .ok q →
        ∀ i ∈ q.instructions, i.IsTextOrPartial names := fun name hname q hq => hsources.isTextOrPartial hname hq
    exact Program.run_render_tooDeep hcyclic htemplates e.escaper s hp htext indent escape
  · exact Program.keepsContext_render e.templates e.escaper p indent escape s

theorem cyclic_partials_fail_two : ∃ (e : Engine) (names : Set String), e.templates.Cyclic names ∧
    e.OnlyTextAndPartials names ∧ Instruction.Inserts names [.callPartial "a" "" false] ∧
    ((e.render ⟨"t", [.callPartial "a" "" false]⟩ "> " false).run ⟨⟨[.int 1], 3, 40, .standard⟩, {}, []⟩).1 =
      .error (.tooDeep 40) ∧
    ((e.render ⟨"t", [.callPartial "a" "" false]⟩ "> " false).run ⟨⟨[.int 1], 3, 40, .standard⟩, {}, []⟩).2.context =
      ⟨[.int 1], 3, 40, .standard⟩ := by
  let e : Engine := ⟨.standard, 100, false, .table [("a", "x{{>b}}"), ("b", "{{>a}}y")]⟩
  have hscan : scan "x{{>b}}" = .ok [⟨.text, "x", 1, 0, 1, .standard, ""⟩,
      ⟨.partialTag, "b", 1, 1, 7, .standard, ""⟩] := by
    decide +kernel
  have hscan' : scan "{{>a}}y" = .ok [⟨.partialTag, "a", 1, 0, 6, .standard, ""⟩,
      ⟨.text, "y", 1, 6, 7, .standard, ""⟩] := by
    decide +kernel
  have hparse : parse "x{{>b}}" = .ok [.text "x", .partialTag "b" ""] := by
    rw [parse, hscan]
    rfl
  have hparse' : parse "{{>a}}y" = .ok [.partialTag "a" "", .text "y"] := by
    rw [parse, hscan']
    rfl
  obtain ⟨label, ha⟩ := @exists_loadPartial_of_walks e "a" _ _ _ _ rfl hparse
    (.text (by decide) (by decide) (.partialTag (.nil _)))
  obtain ⟨label', hb⟩ := @exists_loadPartial_of_walks e "b" _ _ _ _ rfl hparse'
    (.partialTag (.text (by decide) (by decide) (.nil _)))
  let names : Set String := {name | name = "a" ∨ name = "b"}
  have ha' : "a" ∈ names := .inl rfl
  have hb' : "b" ∈ names := .inr rfl
  have hcyclic : e.templates.Cyclic names := by
    rintro name (rfl | rfl)
    · exact ⟨_, ha, "b", hb', "", _, List.mem_cons_of_mem _ List.mem_cons_self⟩
    · exact ⟨_, hb, "a", ha', "", _, List.mem_cons_self⟩
  have hsources : e.OnlyTextAndPartials names := by
    rintro name (rfl | rfl)
    · exact ⟨_, _, rfl, hparse, by simp [Node.IsTextOrPartial, hb']⟩
    · exact ⟨_, _, rfl, hparse', by simp [Node.IsTextOrPartial, ha']⟩
  have hp : Instruction.Inserts names [.callPartial "a" "" false] :=
    ⟨"a", ha', "", false, by simp⟩
  have htext : ∀ i ∈ [Instruction.callPartial "a" "" false], i.IsTextOrPartial names := by
    simp [Instruction.IsTextOrPartial, ha']
  obtain ⟨hdeep, hcontext⟩ := (cyclic_partials_fail hcyclic (p := ⟨"t", [.callPartial "a" "" false]⟩) hp
    "> " false ⟨⟨[.int 1], 3, 40, .standard⟩, {}, []⟩).2 hsources htext
  exact ⟨e, names, hcyclic, hsources, hp, hdeep, hcontext⟩

end Engine
end Mustache
