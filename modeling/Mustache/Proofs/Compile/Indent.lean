import Mustache.Proofs.Compile.Sharing
import Mustache.Proofs.Compile.Walk
import Mustache.Proofs.Render.Steady

/-! # Indents and sections

The marks for indents are set in the order of the template, but a section may be skipped or run more than
once. So a rendering of a template without partials is indented line by line exactly if what it puts out
follows the line states, and steady instructions see to that for every choice of runs.
-/
namespace Mustache

variable {source : List Char} {ns : List Node} {a b : Progress} {is : List Instruction} {keys : List String}

theorem Walks.asks (h : Walks source ns a is b)
    (hnodes : ∀ n ∈ Node.subnodes ns, n.isPlain = true ∧ ∀ key ∈ n.keys, key ∈ keys)
    (ha : ∀ r ∈ a.routines, Asks keys r.body) :
    Asks keys is ∧ ∀ r ∈ b.routines, Asks keys r.body := by
  induction h with
  | nil a => exact ⟨.nil, ha⟩
  | newline _ ih | text _ _ _ ih =>
    obtain ⟨his, hb⟩ := ih (fun n hn => hnodes n (List.mem_append_right _ hn)) ha
    exact ⟨.literal his, hb⟩
  | empty _ ih | comment _ ih => exact ih (fun n hn => hnodes n (List.mem_append_right _ hn)) ha
  | interpolation _ ih =>
    obtain ⟨his, hb⟩ := ih (fun n hn => hnodes n (List.mem_append_right _ hn)) ha
    exact ⟨.interpolate (hnodes _ List.mem_cons_self).2 his, hb⟩
  | @reused name start stop delimiters children ns a b is r hr _ ih =>
    obtain ⟨his, hb⟩ := ih (fun n hn => hnodes n (List.mem_append_right _ hn)) ha
    have hbody := ha r (List.mem_of_find?_eq_some hr)
    obtain ⟨key, text, tag, body⟩ := r
    exact ⟨.callSection (hnodes _ List.mem_cons_self).2 hbody his, hb⟩
  | @fresh name start stop delimiters children ns a b c body is _ _ _ _ ihbody ih =>
    obtain ⟨hbody, hb⟩ :=
      ihbody (fun n hn => hnodes n (List.mem_append_left _ (List.mem_cons_of_mem _ hn))) ha
    have hregister : ∀ r ∈ (b.register (Node.routine source start stop delimiters body)).routines,
        Asks keys r.body := by
      intro r hr
      rcases List.mem_append.mp hr with hr | hr
      · exact hb r hr
      · rw [List.mem_singleton.mp hr]
        exact hbody
    obtain ⟨his, hc⟩ := ih (fun n hn => hnodes n (List.mem_append_right _ hn)) hregister
    exact ⟨.callSection (hnodes _ List.mem_cons_self).2 hbody his, hc⟩
  | inverted _ _ ihbody ih =>
    obtain ⟨hbody, hb⟩ :=
      ihbody (fun n hn => hnodes n (List.mem_append_left _ (List.mem_cons_of_mem _ hn))) ha
    obtain ⟨his, hc⟩ := ih (fun n hn => hnodes n (List.mem_append_right _ hn)) hb
    exact ⟨.callInverted (hnodes _ List.mem_cons_self).2 hbody his, hc⟩
  | partialTag _ _ =>
    obtain ⟨hpartial, -⟩ := hnodes _ (List.mem_append_left _ List.mem_cons_self)
    cases hpartial

namespace Emission

theorem indentedLines_written_iff (es : List Emission) :
    (∀ indent : String, indent ≠ "" → '\n' ∉ indent.toList →
      Text.IndentedLines indent.toList (written "" es).toList (written indent es).toList) ↔
      EvenlyIndented es := by
  rw [EvenlyIndented, ← LineState.indentedLines_iff]
  constructor
  · intro h indent hne hindent
    have hlines := h (String.ofList indent) (by simpa using hne) (by simpa using hindent)
    simpa [toList_written] using hlines
  · intro h indent hne hindent
    have hlines := h indent.toList (by simpa using hne) hindent
    simpa [toList_written] using hlines

end Emission

/-- A rendering of a template without partials puts out the same texts whatever its indent. Its lines are
indented one by one exactly if these texts follow the line states, as those of steady instructions do. -/
theorem indent_exact {source : String} {tokens : List Token} {label : Option String} {events : List Event}
    {p : Program} (hscan : scan source = .ok tokens) (hpartials : ∀ t ∈ tokens, t.kind ≠ .partialTag)
    (hcompile : compileText source label = (events, .ok p)) :
    ∃ tree, Node.ofTokens tokens = .ok tree ∧
      ∀ (templates : Templates) (escaper : Escaper) (s : RenderState), s.CallFree (Node.keysIn tree) →
        (∀ indent, (p.render templates escaper indent false).run s =
          (((Emission.ofAll escaper p.instructions).run s).1.map (Emission.written indent),
            ((Emission.ofAll escaper p.instructions).run s).2)) ∧
        ∀ es t, (Emission.ofAll escaper p.instructions).run s = (.ok es, t) →
          ((∀ indent : String, indent ≠ "" → '\n' ∉ indent.toList →
            Text.IndentedLines indent.toList (Emission.written "" es).toList
              (Emission.written indent es).toList) ↔ EvenlyIndented es) ∧
          (Instruction.Steady p.instructions → UnbrokenValues es → EvenlyIndented es) := by
  obtain ⟨tree, name, hparse, hprogram⟩ := exists_compile_of_compileText hcompile
  rw [parse, hscan] at hparse
  refine ⟨tree, hparse, ?_⟩
  intro templates escaper s hcalls
  have htree : Forest tokens tree := ofTokens_eq_ok_iff.mp hparse
  obtain ⟨-, b, hwalk⟩ := walks_of_compile hprogram
  have hnodes : ∀ n ∈ Node.subnodes tree, n.isPlain = true ∧ ∀ key ∈ n.keys, key ∈ Node.keysIn tree :=
    fun n hn => ⟨htree.isPlain hpartials n hn, Node.keys_subset_keysIn hn⟩
  have hstart : ∀ r ∈ Progress.start.routines, Asks (Node.keysIn tree) r.body := by
    intro r hr
    cases hr
  obtain ⟨hasks, -⟩ := hwalk.asks hnodes hstart
  constructor
  · intro indent
    exact Program.run_render_eq_written hasks hcalls templates escaper indent
  · intro es t hrun
    refine ⟨Emission.indentedLines_written_iff es, ?_⟩
    intro hsteady hvalues
    exact Emission.evenlyIndented_of_steady hsteady hrun hvalues

def listed : String := "x\n{{#a}}\n-{{b}}\n{{/a}}\n"

theorem indent_exact_list : ∃ events p,
    compileText listed (some "list") = (events, .ok p) ∧
    ∀ (templates : Templates) (escaper : Escaper) (s : RenderState), s.CallFree ["a", "b"] →
      ∀ es t, (Emission.ofAll escaper p.instructions).run s = (.ok es, t) → UnbrokenValues es →
        ∀ indent : String, indent ≠ "" → '\n' ∉ indent.toList →
          (p.render templates escaper indent false).run s = (.ok (Emission.written indent es), t) ∧
          Text.IndentedLines indent.toList (Emission.written "" es).toList
            (Emission.written indent es).toList := by
  have hscan : scan listed =
      .ok [⟨.text, "x", 1, 0, 1, .standard, ""⟩, ⟨.newline, "\n", 1, 1, 2, .standard, ""⟩,
        ⟨.sectionStart, "a", 2, 2, 8, .standard, ""⟩, ⟨.text, "-", 3, 9, 10, .standard, ""⟩,
        ⟨.escaped, "b", 3, 10, 15, .standard, ""⟩, ⟨.newline, "\n", 3, 15, 16, .standard, ""⟩,
        ⟨.sectionEnd, "a", 4, 16, 22, .standard, ""⟩] := by
    decide +kernel
  have hsteady : (compileText listed (some "list")).2.map
      (fun p => decide (Instruction.Steady p.instructions)) = .ok true := by
    decide +kernel
  obtain ⟨events, found, hcompile⟩ : ∃ events found,
      compileText listed (some "list") = (events, found) := ⟨_, _, rfl⟩
  rw [hcompile] at hsteady
  cases found with
  | error e => cases hsteady
  | ok p =>
    refine ⟨events, p, hcompile, ?_⟩
    intro templates escaper s hcalls es t hrun hvalues indent hne hindent
    obtain ⟨tree, hparse, hrenders⟩ := indent_exact hscan (by decide) hcompile
    cases hparse
    obtain ⟨hwritten, hlines⟩ := hrenders templates escaper s hcalls
    obtain ⟨hiff, heven⟩ := hlines es t hrun
    refine ⟨?_, hiff.mpr (heven (of_decide_eq_true (Except.ok.inj hsteady)) hvalues) indent hne hindent⟩
    rw [hwritten indent, hrun]
    rfl

def afterSection : String := "{{#a}}x{{/a}}y"

/-- The section takes the indent of its line along when it is skipped. -/
theorem render_indent_lost : ∃ tokens tree events p s,
    scan afterSection = .ok tokens ∧
    (∀ t ∈ tokens, t.kind ≠ .partialTag ∧ t.kind ≠ .escaped ∧ t.kind ≠ .unescaped) ∧
    Node.ofTokens tokens = .ok tree ∧
    compileText afterSection (some "t") = (events, .ok p) ∧
    s.CallFree (Node.keysIn tree) ∧
    ((Engine.render ⟨.standard, 100, false, .nowhere⟩ p "" false).run s).1 = .ok "y" ∧
    ((Engine.render ⟨.standard, 100, false, .nowhere⟩ p "> " false).run s).1 = .ok "y" ∧
    ¬ Text.IndentedLines "> ".toList "y".toList "y".toList := by
  have hscan : scan afterSection =
      .ok [⟨.sectionStart, "a", 1, 0, 6, .standard, ""⟩, ⟨.text, "x", 1, 6, 7, .standard, ""⟩,
        ⟨.sectionEnd, "a", 1, 7, 13, .standard, ""⟩, ⟨.text, "y", 1, 13, 14, .standard, ""⟩] := by
    decide +kernel
  let s := RenderState.onData (.map [(.text "a", .bool false)])
  have hrenders : (compileText afterSection (some "t")).2.map (fun p =>
      (((Engine.render ⟨.standard, 100, false, .nowhere⟩ p "" false).run s).1,
      ((Engine.render ⟨.standard, 100, false, .nowhere⟩ p "> " false).run s).1)) = .ok (.ok "y", .ok "y") := by
    decide +kernel
  obtain ⟨events, found, hcompile⟩ : ∃ events found,
      compileText afterSection (some "t") = (events, found) := ⟨_, _, rfl⟩
  rw [hcompile] at hrenders
  cases found with
  | error e => cases hrenders
  | ok p =>
    obtain ⟨hplain, hindented⟩ := Prod.mk.inj (Except.ok.inj hrenders)
    refine ⟨_, _, events, p, s, hscan, by decide, rfl, hcompile, ?_, hplain, hindented, ?_⟩
    · exact RenderState.callFree_onData (by decide) _
    · simp [Text.IndentedLines, Text.IndentedLine, List.splitOn_cons_eq_if_modifyHead]

end Mustache
