import Mustache.Proofs.Compile.Source
import Mustache.Proofs.Compile.Unnested
import Mustache.Proofs.Render.Follow

/-! # Indents and partials

A text without sections is compiled part by part, in the line states of its parts, and so are the texts
that are reached from it through partials. So its rendering is the layout of its parts, and its lines are
indented one by one exactly if the places of the layout follow the line states. A partial may break that:
what follows it on its line is marked as if it were not there. Parts that keep their lines see to it
whatever the values are.
-/
namespace Mustache

def Part.ofNode? : Node → Option Part
  | .text text => if text = "\n" then some .newline else if text = "" then none else some (.fragment (.text text))
  | .interpolation name escape => some (.fragment (.value name escape))
  | .partialTag name indent => some (.insertion indent name)
  | .sectionBlock _ _ _ _ _ | .invertedBlock _ _ | .comment | .foreign _ _ => none

/-- The parts of a text, as far as it can be read. -/
def Part.ofText (source : String) : Except RenderError (List Part) :=
  ((parse source).mapError .malformed).map (List.filterMap Part.ofNode?)

def Part.variablesIn (source : String) : List String :=
  ((ofText source).toOption.getD []).filterMap fun
    | fragment (.value name _) => some name
    | fragment (.text _) | newline | insertion _ _ => none

instance (t : Token) : Decidable t.Opens :=
  inferInstanceAs (Decidable (_ ∨ _))

def HasNoSections (source : String) : Prop :=
  ∀ tokens ∈ (scan source).toOption, ∀ t ∈ tokens, ¬ t.Opens

instance (source : String) : Decidable (HasNoSections source) :=
  inferInstanceAs (Decidable (∀ tokens ∈ (scan source).toOption, ∀ t ∈ tokens, ¬ t.Opens))

section Parts

variable {source : String} {ts : List Token} {ns : List Node}

theorem Part.mem_variablesIn {name : String} {escape : Bool} {qs : List Part} (hparts : ofText source = .ok qs)
    (hmem : fragment (.value name escape) ∈ qs) : name ∈ variablesIn source := by
  rw [variablesIn, hparts]
  exact List.mem_filterMap.mpr ⟨_, hmem, rfl⟩

theorem walks_leaf {text : List Char} {t : Token} {n : Node} (hn : t.leaf? = some n) (a : Progress)
    (hns : ∀ b : Progress, ∃ c, Walks text ns b (Part.instructions b.line (ns.filterMap Part.ofNode?)) c) :
    ∃ c, Walks text (n :: ns) a (Part.instructions a.line ((n :: ns).filterMap Part.ofNode?)) c := by
  -- A line break is a token of its own, but its node is a text like any other.
  have htext : ∀ s, ∃ c, Walks text (.text s :: ns) a
      (Part.instructions a.line ((.text s :: ns).filterMap Part.ofNode?)) c := by
    intro s
    by_cases hnl : s = "\n"
    · obtain ⟨c, hc⟩ := hns (a.withLine .pending)
      subst hnl
      exact ⟨c, .newline hc⟩
    · by_cases hempty : s = ""
      · obtain ⟨c, hc⟩ := hns a
        subst hempty
        exact ⟨c, .empty hc⟩
      · obtain ⟨c, hc⟩ := hns (a.withLine .consumed)
        refine ⟨c, ?_⟩
        simp only [List.filterMap_cons, Part.ofNode?, if_neg hnl, if_neg hempty]
        exact .text hnl hempty hc
  unfold Token.leaf? at hn
  split at hn
  all_goals cases hn
  · exact htext t.value
  · exact htext t.value
  · obtain ⟨c, hc⟩ := hns (a.withLine .consumed)
    exact ⟨c, .interpolation hc⟩
  · obtain ⟨c, hc⟩ := hns (a.withLine .consumed)
    exact ⟨c, .interpolation hc⟩
  · obtain ⟨c, hc⟩ := hns a
    exact ⟨c, .partialTag hc⟩
  · obtain ⟨c, hc⟩ := hns a
    exact ⟨c, .comment hc⟩

theorem Forest.exists_walks (text : List Char) (h : Forest ts ns) (hts : ∀ t ∈ ts, ¬ t.Opens)
    (a : Progress) : ∃ b, Walks text ns a (Part.instructions a.line (ns.filterMap Part.ofNode?)) b := by
  induction h generalizing a with
  | nil => exact ⟨a, .nil a⟩
  | leaf hn _ ih => exact walks_leaf hn a (ih fun u hu => hts u (List.mem_cons_of_mem _ hu))
  | skip _ _ ih => exact ih (fun u hu => hts u (List.mem_cons_of_mem _ hu)) a
  | block ho _ _ _ _ _ _ => exact absurd ho (hts _ List.mem_cons_self)

theorem HasNoSections.compileText_eq (h : HasNoSections source) (label : Option String) :
    (compileText source label).2.map Program.instructions =
      (Part.ofText source).map (Part.instructions .pending) := by
  rw [Part.ofText]
  cases hparse : parse source with
  | error e =>
    simp only [compileText, hparse]
    rfl
  | ok tree =>
    obtain ⟨tokens, hscan, htree⟩ := exists_forest_of_parse hparse
    obtain ⟨b, hwalk⟩ := htree.exists_walks source.toList (h tokens (by rw [hscan]; rfl)) .start
    obtain ⟨name, hname⟩ := exists_compileText hparse label
    obtain ⟨events, hcompile⟩ := exists_compile_of_walks name hwalk
    rw [hname _ events hcompile]
    rfl

end Parts

namespace Engine

def textsIn (e : Engine) (text : String) : List String :=
  ((Part.ofText text).toOption.getD []).filterMap fun
    | .insertion _ name => (e.partialText name).2.toOption
    | .newline | .fragment _ => none

/-- The texts that a rendering of a text may come to through partials. -/
def Reaches (e : Engine) : String → String → Prop :=
  Relation.ReflTransGen fun text inner => inner ∈ e.textsIn text

def partsNamed (e : Engine) (name : String) : Except RenderError (List Part) :=
  (e.partialText name).2 >>= Part.ofText

/-- No value that is interpolated on the way breaks its line. -/
def ShowsUnbroken (e : Engine) (source : String) (s : RenderState) : Prop :=
  ∀ text, e.Reaches source text → ∀ name ∈ Part.variablesIn text, '\n' ∉ (s.valueOf name).rendered.toList

/-- Wherever renderings with an indent and without one succeed, their lines correspond. -/
def IndentsLines (e : Engine) (p : Program) (s : RenderState) : Prop :=
  ∀ indent text text', indent ≠ "" → '\n' ∉ indent.toList →
    ((e.render p "" false).run s).1 = .ok text → ((e.render p indent false).run s).1 = .ok text' →
    Text.IndentedLines indent.toList text.toList text'.toList

variable {e : Engine} {source : String} {s : RenderState} {p : Program}

theorem Reaches.mem_of_closed {texts : List String} (hclosed : ∀ text ∈ texts, ∀ inner ∈ e.textsIn text, inner ∈ texts)
    {text : String} (h : e.Reaches source text) (hsource : source ∈ texts) : text ∈ texts := by
  induction h with
  | refl => exact hsource
  | tail _ hinner ih => exact hclosed _ ih _ hinner

theorem mem_textsIn {text inner blanks name : String} {qs : List Part} (hparts : Part.ofText text = .ok qs)
    (hmem : .insertion blanks name ∈ qs) (hinner : (e.partialText name).2 = .ok inner) :
    inner ∈ e.textsIn text := by
  rw [textsIn, hparts]
  exact List.mem_filterMap.mpr ⟨_, hmem, by simp [hinner, Except.toOption]⟩

def PartsOf (e : Engine) (source : String) (qs : List Part) : Prop :=
  ∃ text, e.Reaches source text ∧ Part.ofText text = .ok qs

theorem PartsOf.inside {qs inner : List Part} {blanks name : String} (h : e.PartsOf source qs)
    (hmem : .insertion blanks name ∈ qs) (hinner : e.partsNamed name = .ok inner) : e.PartsOf source inner := by
  obtain ⟨text, hreach, hparts⟩ := h
  obtain ⟨found, hfound, hinner⟩ := bind_eq_ok_iff.mp hinner
  exact ⟨found, hreach.tail (mem_textsIn hparts hmem hfound), hinner⟩

theorem keepTo_partsNamed (hflat : ∀ text, e.Reaches source text → HasNoSections text) :
    e.templates.KeepTo e.partsNamed (e.PartsOf source) := by
  intro qs hqs blanks name hmem
  refine ⟨?_, fun inner hinner => hqs.inside hmem hinner⟩
  change (e.loadPartial name).2.map _ = _
  unfold loadPartial partsNamed
  rcases hfound : e.partialText name with ⟨events, error | text⟩
  · rfl
  · obtain ⟨outer, hreach, hparts⟩ := hqs
    have htext : e.Reaches source text := hreach.tail (mem_textsIn hparts hmem (by rw [hfound]))
    exact (hflat text htext).compileText_eq (some ("partial:" ++ name))

theorem indentsLines_iff {out : Except RenderError (List (Option Char) × Situation)}
    (hrender : ∀ indent, ((e.render p indent false).run s).1 =
      out.map fun found => String.ofList (Text.spread indent.toList found.1)) :
    e.IndentsLines p s ↔ ∀ xs b, out = .ok (xs, b) → (xs.foldlM LineState.step .pending).isSome = true := by
  constructor
  · rintro h xs b rfl
    rw [← LineState.indentedLines_iff]
    intro indent hne hindent
    have hlines := h (String.ofList indent) _ _ (by simpa using hne) (by simpa using hindent)
      (hrender "") (hrender (String.ofList indent))
    simpa using hlines
  · intro h indent text text' hne hindent htext htext'
    rw [hrender] at htext htext'
    cases out with
    | error error => cases htext
    | ok found =>
      cases htext
      cases htext'
      have hlines := (LineState.indentedLines_iff _).mpr (h _ _ rfl) indent.toList (by simpa using hne) hindent
      simpa using hlines

end Engine

/-- A text without sections, among such texts, is rendered as its layout. The lines are indented one by one
exactly if the places in the layout are where lines start, as those of parts that keep their lines are. -/
theorem partials_indent_exact {e : Engine} {source : String} {label : Option String} {events : List Event}
    {p : Program} (hcompile : compileText source label = (events, .ok p))
    (hflat : ∀ text, e.Reaches source text → HasNoSections text) {s : RenderState}
    (hcalls : ∀ name, (s.valueOf name).isLambda = false) :
    ∃ qs, Part.ofText source = .ok qs ∧
      (∀ indent, ((e.render p indent false).run s).1 =
        (layoutWithin e.escaper s e.partsNamed (s.context.partialLevels 0) .fresh qs).map fun out =>
          String.ofList (Text.spread indent.toList out.1)) ∧
      (e.IndentsLines p s ↔
        ∀ xs b, layoutWithin e.escaper s e.partsNamed (s.context.partialLevels 0) .fresh qs = .ok (xs, b) →
          (xs.foldlM LineState.step .pending).isSome = true) ∧
      (KeepsLines e.partsNamed qs → e.ShowsUnbroken source s → e.IndentsLines p s) := by
  have hprogram := (hflat source .refl).compileText_eq label
  rw [hcompile] at hprogram
  cases hparts : Part.ofText source with
  | error error =>
    rw [hparts] at hprogram
    cases hprogram
  | ok qs =>
    rw [hparts] at hprogram
    have hknown : e.PartsOf source qs := ⟨source, .refl, hparts⟩
    have hrender : ∀ indent, ((e.render p indent false).run s).1 =
        (layoutWithin e.escaper s e.partsNamed (s.context.partialLevels 0) .fresh qs).map fun out =>
          String.ofList (Text.spread indent.toList out.1) := fun indent =>
      Program.run_render_parts (Engine.keepTo_partsNamed hflat) hcalls e.escaper hknown
        (Except.ok.inj hprogram) indent
    refine ⟨qs, rfl, hrender, Engine.indentsLines_iff hrender, ?_⟩
    intro hkeeps hvalues
    rw [Engine.indentsLines_iff hrender]
    intro xs b hlayout
    refine hkeeps.isSome_layout (fun qs hqs blanks name inner => hqs.inside) ?_ hknown hlayout
    rintro qs ⟨text, hreach, htext⟩ name escape shown hmem hshown
    exact Fragment.newline_notMem_of_expand (hvalues text hreach name (Part.mem_variablesIn htext hmem)) hshown

def insideLines : String := "a{{>p}}b\n{{>q}}c"

def insideEngine : Engine := ⟨.standard, 100, false, .table [("p", "{{x}}"), ("q", "y\n")]⟩

theorem partials_indent_exact_inside : ∃ events p, compileText insideLines (some "t") = (events, .ok p) ∧
    insideEngine.IndentsLines p (.onData (.map [(.text "x", .text "v")])) ∧
    ((insideEngine.render p "> " false).run (.onData (.map [(.text "x", .text "v")]))).1 =
      .ok "> avb\n> y\n> c" := by
  let s := RenderState.onData (.map [(.text "x", .text "v")])
  have htexts : ∀ text, insideEngine.Reaches insideLines text → text ∈ [insideLines, "{{x}}", "y\n"] :=
    fun text h => h.mem_of_closed (by decide +kernel) (by simp)
  have hflat : ∀ text ∈ [insideLines, "{{x}}", "y\n"], HasNoSections text := by
    decide +kernel
  have hcalls : ∀ name, (s.valueOf name).isLambda = false := RenderState.isLambda_valueOf_onData (by decide)
  have hparts : Part.ofText insideLines =
      .ok [.fragment (.text "a"), .insertion "" "p", .fragment (.text "b"), .newline, .insertion "" "q",
        .fragment (.text "c")] := by
    decide +kernel
  have hunbroken : ∀ text ∈ [insideLines, "{{x}}", "y\n"], ∀ name ∈ Part.variablesIn text,
      '\n' ∉ (s.valueOf name).rendered.toList := by
    decide +kernel
  have hprogram := (hflat _ List.mem_cons_self).compileText_eq (some "t")
  obtain ⟨events, found, hcompile⟩ : ∃ events found,
      compileText insideLines (some "t") = (events, found) := ⟨_, _, rfl⟩
  rw [hcompile, hparts] at hprogram
  cases found with
  | error e => cases hprogram
  | ok p =>
    obtain ⟨qs, hqs, hrender, -, hkeeps⟩ :=
      partials_indent_exact hcompile (fun text h => hflat text (htexts text h)) hcalls
    cases hparts.symm.trans hqs
    refine ⟨events, p, hcompile, hkeeps ⟨1, by decide +kernel⟩ fun text h => hunbroken text (htexts text h), ?_⟩
    exact (hrender "> ").trans (by decide +kernel)

def afterPartial : String := "{{>p}}b"

def afterEngine : Engine := ⟨.standard, 100, false, .table [("p", "x")]⟩

/-- The text after a partial that a line starts with takes the indent of its line again. -/
theorem render_indent_repeated : ∃ events p s,
    compileText afterPartial (some "t") = (events, .ok p) ∧
    (∀ text, afterEngine.Reaches afterPartial text → HasNoSections text) ∧
    (∀ name, (s.valueOf name).isLambda = false) ∧ afterEngine.ShowsUnbroken afterPartial s ∧
    ((afterEngine.render p "" false).run s).1 = .ok "xb" ∧
    ((afterEngine.render p "> " false).run s).1 = .ok "> x> b" ∧ ¬ afterEngine.IndentsLines p s := by
  let s := RenderState.onData .null
  have htexts : ∀ text, afterEngine.Reaches afterPartial text → text ∈ [afterPartial, "x"] :=
    fun text h => h.mem_of_closed (by decide +kernel) (by simp)
  have hflat : ∀ text ∈ [afterPartial, "x"], HasNoSections text := by
    decide +kernel
  have hvariables : ∀ text ∈ [afterPartial, "x"], Part.variablesIn text = [] := by
    decide +kernel
  have hrenders : (compileText afterPartial (some "t")).2.map (fun p =>
      (((afterEngine.render p "" false).run s).1, ((afterEngine.render p "> " false).run s).1)) =
      .ok (.ok "xb", .ok "> x> b") := by
    decide +kernel
  obtain ⟨events, found, hcompile⟩ : ∃ events found,
      compileText afterPartial (some "t") = (events, found) := ⟨_, _, rfl⟩
  rw [hcompile] at hrenders
  cases found with
  | error e => cases hrenders
  | ok p =>
    obtain ⟨hplain, hindented⟩ := Prod.mk.inj (Except.ok.inj hrenders)
    have hcalls : ∀ name, (s.valueOf name).isLambda = false := RenderState.isLambda_valueOf_onData (by decide)
    refine ⟨events, p, s, hcompile, fun text h => hflat text (htexts text h), hcalls, ?_, hplain, hindented, ?_⟩
    · intro text h name hname
      rw [hvariables text (htexts text h)] at hname
      cases hname
    · intro hlines
      have hpaired := hlines "> " _ _ (by decide) (by decide) hplain hindented
      simp [Text.IndentedLines, Text.IndentedLine, List.splitOn_cons_eq_if_modifyHead] at hpaired

end Mustache
