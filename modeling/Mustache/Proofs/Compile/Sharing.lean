import Mustache.Proofs.Compile.Key
import Mustache.Proofs.Compile.Own
import Mustache.Proofs.Compile.Source
import Mustache.Proofs.Node.Children

/-! # What sharing routines shows

Sections share a routine if their raw bodies are the same under the same delimiters. The routine is
compiled from the children of the first of them, and the children depend on how the tags stand on their
lines, which is no part of the raw body. So sharing does not show where sections with the same raw body
sit alike, and two sections that do not sit alike cannot share a routine unnoticed.
-/
namespace Mustache

/-- Sections with the same raw body under the same delimiters sit alike. -/
def SharesAlike (source : List Char) (tokens : List Token) (tree : List Node) : Prop :=
  ∀ name start stop delimiters children name' start' stop' children',
    Node.sectionBlock name start stop delimiters children ∈ Node.subnodes tree →
    Node.sectionBlock name' start' stop' delimiters children' ∈ Node.subnodes tree →
    Text.slice source start stop = Text.slice source start' stop' →
    SitAlike source tokens start stop start' stop'

variable {source : String} {tokens : List Token} {tree : List Node}

theorem Forest.isPlain {ts : List Token} {ns : List Node} (h : Forest ts ns)
    (hpartials : ∀ t ∈ ts, t.kind ≠ .partialTag) : ∀ n ∈ Node.subnodes ns, n.isPlain = true := by
  refine h.forall_subnodes (P := fun n => n.isPlain = true) ?_ ?_ ?_
  · intro t ht n hn
    have hk := hpartials t ht
    unfold Token.leaf? at hn
    split at hn
    all_goals first | cases hn; rfl | contradiction
  · intros
    rfl
  · intros
    rfl

theorem wellFormed_of_section (hscan : scan source = .ok tokens) (htree : Forest tokens tree)
    {name : String} {start stop : Int} {delimiters : Delimiters} {children : List Node}
    (hmem : Node.sectionBlock name start stop delimiters children ∈ Node.subnodes tree) :
    delimiters.WellFormed := by
  obtain ⟨pre, o, body, c, post, rfl, ho, -, -, -, rfl, -⟩ := htree.exists_section hmem
  exact Settled.wellFormed_of_scan hscan (by simp) (by simp [ho, TokenKind.isTag])

theorem coherent_of_sharesAlike (hscan : scan source = .ok tokens) (htree : Forest tokens tree)
    (hdigests : DigestsApart source.toList tree) (halike : SharesAlike source.toList tokens tree) :
    Coherent source.toList tree := by
  intro name start stop delimiters children name' start' stop' delimiters' children' hmem hmem' hkey
  have hpayload := hdigests _ _ _ _ _ _ _ _ _ _ hmem hmem' hkey
  obtain ⟨hraw, rfl⟩ := sectionPayload_inj (wellFormed_of_section hscan htree hmem)
    (wellFormed_of_section hscan htree hmem') hpayload
  have hslice : Text.slice source.toList start stop = Text.slice source.toList start' stop' := by
    rw [← String.toList_ofList (l := Text.slice source.toList start stop), hraw, String.toList_ofList]
  exact (children_of_same_body hscan htree hmem hmem' hslice).1
    (halike _ _ _ _ _ _ _ _ _ hmem hmem' hslice)

theorem render_eq_own {label : String} {p own : Program} {events : List Event}
    (hscan : scan source = .ok tokens) (htree : Forest tokens tree)
    (hplain : ∀ n ∈ Node.subnodes tree, n.isPlain = true)
    (hcompile : compile source tree label = .ok (p, events))
    (hown : ∀ (templates : Templates) (escaper : Escaper) (s : RenderState),
      s.CallFree (Node.keysIn tree) →
      (own.render templates escaper "" false).run s = (Node.interpret escaper tree).run s)
    (hdigests : DigestsApart source.toList tree) (halike : SharesAlike source.toList tokens tree)
    (templates : Templates) (escaper : Escaper) {s : RenderState}
    (hcalls : s.CallFree (Node.keysIn tree)) :
    (p.render templates escaper "" false).run s = (own.render templates escaper "" false).run s := by
  have hcoherent := coherent_of_sharesAlike hscan htree hdigests halike
  obtain ⟨p', events', hp', himp⟩ := exists_compile label hplain hcoherent
  rw [hcompile] at hp'
  cases hp'
  rw [hown templates escaper s hcalls]
  exact Program.run_render_of_implements himp templates escaper hcalls

section Pair

variable {name name' : String} {start stop start' stop' : Int} {delimiters : Delimiters}
  {children children' : List Node}

/-- A routine can stand for another with the same raw body exactly if the sections sit alike; if they do
not, this shows already where no name has a value. -/
theorem exists_own_pair (label : String) (hscan : scan source = .ok tokens) (htree : Forest tokens tree)
    (hplain : ∀ n ∈ Node.subnodes tree, n.isPlain = true)
    (hmem : Node.sectionBlock name start stop delimiters children ∈ Node.subnodes tree)
    (hmem' : Node.sectionBlock name' start' stop' delimiters children' ∈ Node.subnodes tree)
    (hslice : Text.slice source.toList start stop = Text.slice source.toList start' stop') :
    ∃ q q', compileOwn source children label = .ok q ∧ compileOwn source children' label = .ok q' ∧
      (SitAlike source.toList tokens start stop start' stop' ↔
        ∀ (templates : Templates) (escaper : Escaper) (s : RenderState),
          s.CallFree (Node.keysIn tree) →
          (q.render templates escaper "" false).run s =
            (q'.render templates escaper "" false).run s) := by
  obtain ⟨halike, hbare⟩ := children_of_same_body hscan htree hmem hmem' hslice
  have hinside := (Node.children_of_mem_subnodes tree hmem).1
  have hinside' := (Node.children_of_mem_subnodes tree hmem').1
  obtain ⟨q, hq, hqrender⟩ := exists_compileOwn source label (fun n hn => hplain n (hinside n hn))
  obtain ⟨q', hq', hqrender'⟩ := exists_compileOwn source label (fun n hn => hplain n (hinside' n hn))
  refine ⟨q, q', hq, hq', fun hsit templates escaper s hcalls => ?_, fun hsame => ?_⟩
  · rw [hqrender templates escaper s (hcalls.mono (Node.keysIn_subset hinside)),
      hqrender' templates escaper s (hcalls.mono (Node.keysIn_subset hinside')),
      Node.interpret_congr escaper (halike hsit)]
  · have hcalls : ∀ keys, Node.blank.CallFree keys := by
      refine RenderState.callFree_of_data ?_ ?_ rfl
      · intro v hv
        cases hv
      · intro id v hv
        cases hv
    have hblank := hsame (Engine.templates ⟨.standard, 0, false, .nowhere⟩) .standard Node.blank (hcalls _)
    rw [hqrender _ _ _ (hcalls _), hqrender' _ _ _ (hcalls _), Node.run_interpret_blank,
      Node.run_interpret_blank] at hblank
    have htext := Except.ok.inj (congrArg Prod.fst hblank)
    apply hbare
    rw [← String.toList_ofList (l := Node.bare children), htext, String.toList_ofList]

end Pair

/-- For a template without partial tags: sharing routines does not show if sections with the same raw
body sit alike, and a routine of a section can be used in place of another's with the same raw body under
the same delimiters exactly if the two sit alike. -/
theorem sharing_exact {label : Option String} {events : List Event} {p : Program}
    (hscan : scan source = .ok tokens) (hpartials : ∀ t ∈ tokens, t.kind ≠ .partialTag)
    (hcompile : compileText source label = (events, .ok p)) :
    ∃ tree own, Node.ofTokens tokens = .ok tree ∧ compileOwn source tree p.name = .ok own ∧
      (DigestsApart source.toList tree → SharesAlike source.toList tokens tree →
        ∀ (templates : Templates) (escaper : Escaper) (s : RenderState),
          s.CallFree (Node.keysIn tree) →
          (p.render templates escaper "" false).run s = (own.render templates escaper "" false).run s) ∧
      ∀ name start stop delimiters children name' start' stop' children',
        Node.sectionBlock name start stop delimiters children ∈ Node.subnodes tree →
        Node.sectionBlock name' start' stop' delimiters children' ∈ Node.subnodes tree →
        Text.slice source.toList start stop = Text.slice source.toList start' stop' →
        ∃ q q', compileOwn source children p.name = .ok q ∧ compileOwn source children' p.name = .ok q' ∧
          (SitAlike source.toList tokens start stop start' stop' ↔
            ∀ (templates : Templates) (escaper : Escaper) (s : RenderState),
              s.CallFree (Node.keysIn tree) →
              (q.render templates escaper "" false).run s =
                (q'.render templates escaper "" false).run s) := by
  obtain ⟨tree, label', hparse, hcompile'⟩ := exists_compile_of_compileText hcompile
  rw [parse, hscan] at hparse
  have htree : Forest tokens tree := ofTokens_eq_ok_iff.mp hparse
  have hplain := htree.isPlain hpartials
  obtain ⟨own, hown, hrender⟩ := exists_compileOwn source p.name hplain
  refine ⟨tree, own, hparse, hown, fun hdigests halike templates escaper s hcalls => ?_, ?_⟩
  · exact render_eq_own hscan htree hplain hcompile' hrender hdigests halike templates escaper hcalls
  · intro name start stop delimiters children name' start' stop' children' hmem hmem' hslice
    exact exists_own_pair p.name hscan htree hplain hmem hmem' hslice

def twoBlocks : String := "{{#a}}\nx\n{{/a}}\n{{#b}}\nx\n{{/b}}"

def twoBlockNodes : List Node :=
  [.sectionBlock "a" 6 9 .standard [.text "x", .text "\n"],
    .sectionBlock "b" 22 25 .standard [.text "x", .text "\n"]]

theorem sharing_exact_two_lines : ∃ events p own,
    compileText twoBlocks (some "two") = (events, .ok p) ∧
    compileOwn twoBlocks twoBlockNodes p.name = .ok own ∧
    ∀ (templates : Templates) (escaper : Escaper) (s : RenderState), s.CallFree ["a", "b"] →
      (p.render templates escaper "" false).run s = (own.render templates escaper "" false).run s := by
  have hscan : scan twoBlocks =
      .ok [⟨.sectionStart, "a", 1, 0, 6, .standard, ""⟩, ⟨.text, "x", 2, 7, 8, .standard, ""⟩,
        ⟨.newline, "\n", 2, 8, 9, .standard, ""⟩, ⟨.sectionEnd, "a", 3, 9, 15, .standard, ""⟩,
        ⟨.sectionStart, "b", 4, 16, 22, .standard, ""⟩, ⟨.text, "x", 5, 23, 24, .standard, ""⟩,
        ⟨.newline, "\n", 5, 24, 25, .standard, ""⟩, ⟨.sectionEnd, "b", 6, 25, 31, .standard, ""⟩] := by
    decide +kernel
  have hok : (compileText twoBlocks (some "two")).2.isOk = true := by
    decide +kernel
  obtain ⟨events, found, hcompile⟩ : ∃ events found,
      compileText twoBlocks (some "two") = (events, found) := ⟨_, _, rfl⟩
  rw [hcompile] at hok
  cases found with
  | error e => cases hok
  | ok p =>
    obtain ⟨tree, own, hparse, hown, hshared, hpairs⟩ := sharing_exact hscan (by decide) hcompile
    cases hparse
    have hsections : ∀ name start stop delimiters children,
        Node.sectionBlock name start stop delimiters children ∈ Node.subnodes twoBlockNodes →
        delimiters = .standard ∧ children = [.text "x", .text "\n"] ∧
          Text.slice twoBlocks.toList start stop = "\nx\n".toList := by
      intro name start stop delimiters children h
      simp only [twoBlockNodes, Node.subnodes, Node.subnodesOne, List.cons_append, List.nil_append,
        List.mem_cons, Node.sectionBlock.injEq, List.not_mem_nil, reduceCtorEq, or_false, false_or] at h
      rcases h with ⟨-, rfl, rfl, rfl, rfl⟩ | ⟨-, rfl, rfl, rfl, rfl⟩
      · exact ⟨rfl, rfl, by decide +kernel⟩
      · exact ⟨rfl, rfl, by decide +kernel⟩
    refine ⟨events, p, own, hcompile, hown, fun templates escaper s hcalls =>
      hshared ?_ ?_ templates escaper s hcalls⟩
    · intro name start stop delimiters children name' start' stop' delimiters' children' h h' _
      obtain ⟨rfl, -, hslice⟩ := hsections _ _ _ _ _ h
      obtain ⟨rfl, -, hslice'⟩ := hsections _ _ _ _ _ h'
      rw [Node.bodyPayload, Node.bodyPayload, hslice, hslice']
    · intro name start stop delimiters children name' start' stop' children' h h' hslice
      obtain ⟨-, rfl, -⟩ := hsections _ _ _ _ _ h
      obtain ⟨-, rfl, -⟩ := hsections _ _ _ _ _ h'
      obtain ⟨q, q', hq, hq', hiff⟩ := hpairs _ _ _ _ _ _ _ _ _ h h' hslice
      rw [hq] at hq'
      cases hq'
      exact hiff.mpr fun _ _ _ _ => rfl

def blockAndInline : String := "{{#a}}\n{{/a}}-{{#a}}\n{{/a}}"

def blockAndInlineNodes : List Node :=
  [.sectionBlock "a" 6 7 .standard [], .text "-", .sectionBlock "a" 20 21 .standard [.text "\n"]]

/-- The second body has a line break that the first has not, since the first opening tag stands alone. -/
theorem render_shared_ne_own : ∃ tokens tree events p own s,
    scan blockAndInline = .ok tokens ∧
    (∀ t ∈ tokens, t.kind ≠ .partialTag) ∧ Node.ofTokens tokens = .ok tree ∧
    compileText blockAndInline (some "t") = (events, .ok p) ∧
    compileOwn blockAndInline tree p.name = .ok own ∧
    s.CallFree (Node.keysIn tree) ∧
    ((Engine.render ⟨.standard, 100, false, .nowhere⟩ p "" false).run s).1 = .ok "-" ∧
    ((Engine.render ⟨.standard, 100, false, .nowhere⟩ own "" false).run s).1 = .ok "-\n" := by
  have hscan : scan blockAndInline =
      .ok [⟨.sectionStart, "a", 1, 0, 6, .standard, ""⟩, ⟨.sectionEnd, "a", 2, 7, 13, .standard, ""⟩,
        ⟨.text, "-", 2, 13, 14, .standard, ""⟩, ⟨.sectionStart, "a", 2, 14, 20, .standard, ""⟩,
        ⟨.newline, "\n", 2, 20, 21, .standard, ""⟩, ⟨.sectionEnd, "a", 3, 21, 27, .standard, ""⟩] := by
    decide +kernel
  let s := RenderState.onData (.map [(.text "a", .bool true)])
  have hshared : (compileText blockAndInline (some "t")).2.map (fun p =>
      (p.name, ((Engine.render ⟨.standard, 100, false, .nowhere⟩ p "" false).run s).1)) = .ok ("t", .ok "-") := by
    decide +kernel
  have hown : (compileOwn blockAndInline blockAndInlineNodes "t").map (fun p =>
      ((Engine.render ⟨.standard, 100, false, .nowhere⟩ p "" false).run s).1) = .ok (.ok "-\n") := by
    decide +kernel
  obtain ⟨events, found, hcompile⟩ : ∃ events found,
      compileText blockAndInline (some "t") = (events, found) := ⟨_, _, rfl⟩
  rw [hcompile] at hshared
  cases found with
  | error e => cases hshared
  | ok p =>
    obtain ⟨hname, hrender⟩ := Prod.mk.inj (Except.ok.inj hshared)
    cases hc : compileOwn blockAndInline blockAndInlineNodes "t" with
    | error e =>
      rw [hc] at hown
      cases hown
    | ok own =>
      rw [hc] at hown
      refine ⟨_, blockAndInlineNodes, events, p, own, s, hscan, by decide, rfl, hcompile, ?_, ?_, hrender,
        Except.ok.inj hown⟩
      · rw [hname]
        exact hc
      · exact RenderState.callFree_onData (by decide) _

end Mustache
