import Mustache.Proofs.Compile.Source
import Mustache.Proofs.Compile.Walk
import Mustache.Proofs.Render.Lines

/-! # Programs of line documents

The walk over a line starts and ends where a line waits for its indent, so the instructions of a line
document are those of its lines. Its rendering is its expansion, whatever the partials are that nest in it.
-/
namespace Mustache

variable {source : List Char} {routines : List (Routine Instruction)} {lines : List Line}

theorem walks_fragments {fs : List Fragment} (h : ∀ f ∈ fs, f.Proper) :
    Walks source (fs.map Fragment.node ++ [.text "\n"]) ⟨.consumed, routines⟩
      (fs.map (Fragment.instruction false) ++ [.literal "\n" false]) ⟨.pending, routines⟩ := by
  induction fs with
  | nil => exact .newline (.nil _)
  | cons f fs ih =>
    have hrest := ih fun g hg => h g (List.mem_cons_of_mem f hg)
    have hf := h f List.mem_cons_self
    cases f with
    | text t => exact .text hf.1 hf.2 hrest
    | value name escape => exact .interpolation hrest

theorem walks_line {l : Line} (h : l.Proper) :
    Walks source l.nodes ⟨.pending, routines⟩ l.instructions ⟨.pending, routines⟩ := by
  cases l with
  | insertion blanks name => exact .partialTag (.nil _)
  | content fs =>
    cases fs with
    | nil => exact .newline (.nil _)
    | cons f fs =>
      have hfs : ∀ g ∈ fs, g.Proper := fun g hg => h g (List.mem_cons_of_mem f hg)
      have hf := h f List.mem_cons_self
      cases f with
      | text t => exact .text hf.1 hf.2 (walks_fragments hfs)
      | value name escape => exact .interpolation (walks_fragments hfs)

theorem walks_lines (h : ∀ l ∈ lines, l.Proper) :
    Walks source (lines.flatMap Line.nodes) ⟨.pending, routines⟩ (lines.flatMap Line.instructions)
      ⟨.pending, routines⟩ := by
  induction lines with
  | nil => exact .nil _
  | cons l ls ih =>
    exact (walks_line (h l List.mem_cons_self)).append (ih fun m hm => h m (List.mem_cons_of_mem l hm))

theorem exists_compileText_of_isLineDocument {source : String} (h : IsLineDocument source lines)
    (label : Option String) : ∃ events p, compileText source label = (events, .ok p) ∧
      p.instructions = lines.flatMap Line.instructions := by
  have hwalk : Walks source.toList (lines.flatMap Line.nodes) .start (lines.flatMap Line.instructions) .start :=
    walks_lines (proper_of_isLineDocument h)
  obtain ⟨name, hname⟩ := exists_compileText (parse_of_isLineDocument h) label
  obtain ⟨events, hcompile⟩ := exists_compile_of_walks name hwalk
  exact ⟨events, _, hname _ events hcompile, rfl⟩

/-- The partials of an engine are line documents, as far as they can be had. -/
def Engine.PartialsAre (e : Engine) (docs : String → Except RenderError (List Line)) : Prop :=
  ∀ name, match (e.partialText name).2 with
    | .error error => docs name = .error error
    | .ok text => ∃ lines, docs name = .ok lines ∧ IsLineDocument text lines

theorem Engine.PartialsAre.hold {e : Engine} {docs : String → Except RenderError (List Line)}
    (h : e.PartialsAre docs) : e.templates.Hold docs := by
  intro name
  have hname := h name
  change (e.loadPartial name).2.map _ = _
  unfold Engine.loadPartial
  -- The program of a partial's text is there whatever the name is; it is the text that may be missing.
  rcases hfound : e.partialText name with ⟨events, error | text⟩
  · rw [hfound] at hname
    simp only at hname ⊢
    rw [hname]
    rfl
  · rw [hfound] at hname
    obtain ⟨lines, hdoc, htext⟩ := hname
    obtain ⟨more, p, hp, hinstructions⟩ :=
      exists_compileText_of_isLineDocument htext (some ("partial:" ++ name))
    simp only [hp, hdoc]
    exact congrArg Except.ok hinstructions

/-- A line document among line documents is rendered as its expansion, line by line, where the indents of
partials add up, as deep as both the limit and the room on the stack let partials nest. Levels of partials
beyond those that its partials need make no difference; where the levels do not suffice the rendering fails,
and for no other reason than that unless a value cannot be escaped or a partial cannot be had. -/
theorem render_lines_exact {source : String} (hsource : IsLineDocument source lines) {e : Engine}
    {docs : String → Except RenderError (List Line)} (hdocs : e.PartialsAre docs) {s : RenderState}
    (hvalue : ∀ name, (s.valueOf name).isLambda = false) (label : Option String) (indent : String) :
    ∃ events p, compileText source label = (events, .ok p) ∧
      ((e.render p indent false).run s).1 =
        expandWithin e.escaper s docs (s.context.partialLevels 0) indent lines ∧
      (NestsWithin docs (s.context.partialLevels 0) lines → ∀ levels, s.context.partialLevels 0 ≤ levels →
        ((e.render p indent false).run s).1 = expandWithin e.escaper s docs levels indent lines) ∧
      (¬ NestsWithin docs (s.context.partialLevels 0) lines →
        ∃ error, ((e.render p indent false).run s).1 = .error error) ∧
      ∀ error, ((e.render p indent false).run s).1 = .error error →
        (∃ cause, error = .unescapable cause) ∨ (∃ name, docs name = .error error) ∨
          error = .tooDeep s.context.limit ∧ ¬ NestsWithin docs (s.context.partialLevels 0) lines := by
  obtain ⟨events, p, hcompile, hp⟩ := exists_compileText_of_isLineDocument hsource label
  have hrender : ((e.render p indent false).run s).1 =
      expandWithin e.escaper s docs (s.context.partialLevels 0) indent lines :=
    Program.run_render_lines hdocs.hold hvalue e.escaper hp indent
  refine ⟨events, p, hcompile, hrender, ?_, ?_, ?_⟩
  · intro hnests levels hle
    rw [hrender, expandWithin_of_nestsWithin hnests hle]
  · intro hdeep
    cases hexpand : expandWithin e.escaper s docs (s.context.partialLevels 0) indent lines with
    | error error => exact ⟨error, hrender.trans hexpand⟩
    | ok text => exact absurd (nestsWithin_of_expandWithin hexpand) hdeep
  · intro error herror
    exact error_of_expandWithin (hrender.symm.trans herror)

section Nested

def nestedLines : Engine :=
  ⟨.standard, 100, false, .table [("p", "{{x}}\n {{>q}}\n"), ("q", "y\n\n")]⟩

def nestedLinesNamed (name : String) : Except RenderError (List Line) :=
  .ok (if name = "p" then [.content [.value "x" true], .insertion " " "q"]
    else if name = "q" then [.content [.text "y"], .content []] else [])

theorem isLineDocument_insertion : IsLineDocument "  {{>p}}\n" [.insertion "  " "p"] := by
  refine ⟨[⟨.text, "  ", 1, 0, 2, .standard, ""⟩, ⟨.partialTag, "p", 1, 2, 8, .standard, ""⟩,
    ⟨.newline, "\n", 1, 8, 9, .standard, ""⟩], by decide +kernel, ?_⟩
  exact @LineDocument.cons [_, _] [] _ _ _ (@Line.Of.insertion [_] [] _ rfl (by decide)) rfl .nil

theorem partialsAre_nestedLines : nestedLines.PartialsAre nestedLinesNamed := by
  have hp : IsLineDocument "{{x}}\n {{>q}}\n" [.content [.value "x" true], .insertion " " "q"] := by
    refine ⟨[⟨.escaped, "x", 1, 0, 5, .standard, ""⟩, ⟨.newline, "\n", 1, 5, 6, .standard, ""⟩,
      ⟨.text, " ", 2, 6, 7, .standard, ""⟩, ⟨.partialTag, "q", 2, 7, 13, .standard, ""⟩,
      ⟨.newline, "\n", 2, 13, 14, .standard, ""⟩], by decide +kernel, ?_⟩
    refine @LineDocument.cons [_] _ _ _ _ (.content rfl) rfl ?_
    exact @LineDocument.cons [_, _] [] _ _ _ (@Line.Of.insertion [_] [] _ rfl (by decide)) rfl .nil
  have hq : IsLineDocument "y\n\n" [.content [.text "y"], .content []] := by
    refine ⟨[⟨.text, "y", 1, 0, 1, .standard, ""⟩, ⟨.newline, "\n", 1, 1, 2, .standard, ""⟩,
      ⟨.newline, "\n", 2, 2, 3, .standard, ""⟩], by decide +kernel, ?_⟩
    refine @LineDocument.cons [_] _ _ _ _ (.content rfl) rfl ?_
    exact @LineDocument.cons [] [] _ _ _ (.content rfl) rfl .nil
  have hempty : IsLineDocument "" [] := ⟨[], by decide +kernel, .nil⟩
  intro name
  by_cases hname : name = "p"
  · rw [hname]
    exact ⟨_, rfl, hp⟩
  · by_cases hname' : name = "q"
    · rw [hname']
      exact ⟨_, rfl, hq⟩
    · simpa [nestedLines, nestedLinesNamed, Engine.partialText, TemplateSource.text, hname, hname',
        Ne.symm hname, Ne.symm hname'] using hempty

theorem render_lines_exact_nested : ∃ events p,
    compileText "  {{>p}}\n" (some "t") = (events, .ok p) ∧
    ((nestedLines.render p "> " false).run (.onData (.map [(.text "x", .text "v")]))).1 =
      .ok ">   v\n>    y\n\n" := by
  have hvalue := @RenderState.isLambda_valueOf_onData (.map [(.text "x", .text "v")]) (by decide)
  obtain ⟨events, p, hcompile, hrender, -⟩ :=
    render_lines_exact isLineDocument_insertion partialsAre_nestedLines hvalue (some "t") "> "
  exact ⟨events, p, hcompile, hrender.trans (by decide +kernel)⟩

/-- The limit lets both partials nest, but the stack has room for one of them only. -/
theorem render_lines_without_room : ∃ events p s,
    IsLineDocument "  {{>p}}\n" [.insertion "  " "p"] ∧ nestedLines.PartialsAre nestedLinesNamed ∧
    (∀ name, (s.valueOf name).isLambda = false) ∧
    compileText "  {{>p}}\n" (some "t") = (events, .ok p) ∧
    NestsWithin nestedLinesNamed s.context.levelsLeft [.insertion "  " "p"] ∧
    expandWithin nestedLines.escaper s nestedLinesNamed s.context.levelsLeft "" [.insertion "  " "p"] =
      .ok "  v\n   y\n\n" ∧
    ((nestedLines.render p "" false).run s).1 = .error (.tooDeep 100) := by
  let data : Value := .map [(.text "x", .text "v")]
  let s : RenderState := ⟨⟨[data], 0, 100, ⟨795, 1000⟩⟩, {}, []⟩
  have hvalue : ∀ name, (s.valueOf name).isLambda = false :=
    @RenderState.isLambda_valueOf_onData data (by decide)
  have hexpand : expandWithin nestedLines.escaper s nestedLinesNamed s.context.levelsLeft ""
      [.insertion "  " "p"] = .ok "  v\n   y\n\n" := by
    decide +kernel
  obtain ⟨events, p, hcompile, hp⟩ := exists_compileText_of_isLineDocument isLineDocument_insertion (some "t")
  have hrender := Program.run_render_lines partialsAre_nestedLines.hold hvalue nestedLines.escaper hp ""
  refine ⟨events, p, s, isLineDocument_insertion, partialsAre_nestedLines, hvalue, hcompile,
    nestsWithin_of_expandWithin hexpand, hexpand, ?_⟩
  exact hrender.trans (by decide +kernel)

end Nested

end Mustache
