import Mustache.Proofs.Compile.Refused
import Mustache.Proofs.Compile.Sharing
import Mustache.Proofs.Node.Extent

/-! # Trees that can be compiled

A routine is registered after its children have been compiled, so its key must not be among those that
came in meanwhile. Those are keys of sections inside. In the tree of a template a body inside another is
shorter, so its key is another one unless the digests of two bodies are the same.
-/
namespace Mustache

def Node.isKnown : Node → Bool
  | foreign _ _ => false
  | text _ | interpolation _ _ | sectionBlock _ _ _ _ _ | invertedBlock _ _ | partialTag _ _ | comment => true

theorem Forest.isKnown {ts : List Token} {ns : List Node} (h : Forest ts ns) :
    ∀ n ∈ Node.subnodes ns, n.isKnown = true := by
  refine h.forall_subnodes (P := fun n => n.isKnown = true) ?_ ?_ ?_
  · intro t _ n hn
    unfold Token.leaf? at hn
    split at hn
    all_goals cases hn
    all_goals rfl
  · intros
    rfl
  · intros
    rfl

/-- The body of a section is longer than that of a section inside it. -/
theorem length_slice_lt {source : List Char} {raw tokens : List Token} {tree : List Node}
    (hs : Settled source raw tokens) (htree : Forest tokens tree) {name name' : String}
    {start stop start' stop' : Int} {delimiters delimiters' : Delimiters} {children children' : List Node}
    (hmem : Node.sectionBlock name start stop delimiters children ∈ Node.subnodes tree)
    (hmem' : Node.sectionBlock name' start' stop' delimiters' children' ∈ Node.subnodes children) :
    (Text.slice source start' stop').length < (Text.slice source start stop).length := by
  obtain ⟨o, c, hbetween, -, -, hinside, hclose, hlast⟩ := (hs.laidOut htree).exists_tags hmem rfl
  obtain ⟨o', c', hbetween', hfirst', hopen', hinside', hclose', hlast'⟩ := hinside.exists_tags hmem' rfl
  obtain ⟨rfl, rfl, -⟩ := hbetween.offsets
  obtain ⟨rfl, rfl, -⟩ := hbetween'.offsets
  have hle := hinside'.le
  rw [Text.length_slice _ (by omega), Text.length_slice _ (by omega)]
  omega

theorem bodyPayload_ne_of_inside {source : String} {tokens : List Token} {tree : List Node}
    (hscan : scan source = .ok tokens) (htree : Forest tokens tree) {name name' : String}
    {start stop start' stop' : Int} {delimiters delimiters' : Delimiters} {children children' : List Node}
    (hmem : Node.sectionBlock name start stop delimiters children ∈ Node.subnodes tree)
    (hmem' : Node.sectionBlock name' start' stop' delimiters' children' ∈ Node.subnodes children) :
    Node.bodyPayload source.toList start' stop' delimiters' ≠
      Node.bodyPayload source.toList start stop delimiters := by
  intro hpayload
  obtain ⟨raw, -, hs⟩ := settled_of_scan hscan
  have hin := (Node.children_of_mem_subnodes tree hmem).1 _ hmem'
  obtain ⟨hraw, -⟩ := sectionPayload_inj (wellFormed_of_section hscan htree hin)
    (wellFormed_of_section hscan htree hmem) hpayload
  have hlt := length_slice_lt hs htree hmem hmem'
  have heq := congrArg String.length hraw
  simp only [String.length_ofList] at heq
  omega

/-- A section and one inside it have bodies that differ, but the same digest. -/
def DigestsCollide (source : List Char) (tree : List Node) (key : String) : Prop :=
  ∃ name start stop delimiters children name' start' stop' delimiters' children',
    Node.sectionBlock name start stop delimiters children ∈ Node.subnodes tree ∧
    Node.sectionBlock name' start' stop' delimiters' children' ∈ Node.subnodes children ∧
    Node.bodyPayload source start' stop' delimiters' ≠ Node.bodyPayload source start stop delimiters ∧
    Node.bodyKey source start stop delimiters = key ∧ Node.bodyKey source start' stop' delimiters' = key

theorem DigestsCollide.not_digestsApart {source : List Char} {tree : List Node} {key : String}
    (h : DigestsCollide source tree key) : ¬ DigestsApart source tree := by
  intro hdigests
  obtain ⟨_, _, _, _, _, _, _, _, _, _, hmem, hmem', hne, hkey, hkey'⟩ := h
  have hin := (Node.children_of_mem_subnodes tree hmem).1 _ hmem'
  exact hne (hdigests _ _ _ _ _ _ _ _ _ _ hin hmem (hkey'.trans hkey.symm))

theorem digestsCollide_of_compile {source name : String} {tree : List Node} {e : CompileError}
    (hparse : parse source = .ok tree) (h : compile source tree name = .error e) :
    ∃ key, e = .alreadyRegistered key ∧ DigestsCollide source.toList tree key := by
  obtain ⟨tokens, hscan, htree⟩ := exists_forest_of_parse hparse
  cases refused_of_compile h with
  | unknownNode hmem =>
    have hknown := htree.isKnown _ hmem
    cases hknown
  | alreadyRegistered hmem hmem' hkey =>
    exact ⟨_, rfl, _, _, _, _, _, _, _, _, _, _, hmem, hmem',
      bodyPayload_ne_of_inside hscan htree hmem hmem', rfl, hkey⟩

theorem exists_compile_of_parse {source : String} {tree : List Node} (name : String)
    (hparse : parse source = .ok tree) (hdigests : DigestsApart source.toList tree) :
    ∃ p events, compile source tree name = .ok (p, events) := by
  cases h : compile source tree name with
  | ok found => exact ⟨found.1, found.2, rfl⟩
  | error e =>
    obtain ⟨key, -, hcollide⟩ := digestsCollide_of_compile hparse h
    exact absurd hdigests hcollide.not_digestsApart

/-- Under every name the tree of a template has a program, as long as no two section bodies have the same
digest. No node of it is ever refused for its kind, and a key is registered twice only where a section and
one inside it make the digests collide. -/
theorem compile_parsed {source : String} {tree : List Node} (hparse : parse source = .ok tree)
    (name : String) :
    (DigestsApart source.toList tree →
      ∃ p events, compile source tree name = .ok (p, events) ∧ p.name = name) ∧
    ∀ e, compile source tree name = .error e →
      ∃ key, e = .alreadyRegistered key ∧ DigestsCollide source.toList tree key := by
  refine ⟨fun hdigests => ?_, fun e h => digestsCollide_of_compile hparse h⟩
  obtain ⟨p, events, h⟩ := exists_compile_of_parse name hparse hdigests
  exact ⟨p, events, h, (walks_of_compile h).1⟩

def oneInside : String := "{{#a}}{{#b}}x{{/b}}{{/a}}"

def oneInsideNodes : List Node :=
  [.sectionBlock "a" 6 19 .standard [.sectionBlock "b" 12 13 .standard [.text "x"]]]

theorem compile_parsed_nested : ∃ p events,
    parse oneInside = .ok oneInsideNodes ∧ compile oneInside oneInsideNodes "nested" = .ok (p, events) := by
  have hscan : scan oneInside =
      .ok [⟨.sectionStart, "a", 1, 0, 6, .standard, ""⟩, ⟨.sectionStart, "b", 1, 6, 12, .standard, ""⟩,
        ⟨.text, "x", 1, 12, 13, .standard, ""⟩, ⟨.sectionEnd, "b", 1, 13, 19, .standard, ""⟩,
        ⟨.sectionEnd, "a", 1, 19, 25, .standard, ""⟩] := by
    decide +kernel
  have hparse : parse oneInside = .ok oneInsideNodes := by
    rw [parse, hscan]
    rfl
  have hdigests : DigestsApart oneInside.toList oneInsideNodes := by
    intro name start stop delimiters children name' start' stop' delimiters' children' h h' hdigest
    simp only [oneInsideNodes, Node.subnodes, Node.subnodesOne, List.cons_append, List.nil_append,
      List.mem_cons, Node.sectionBlock.injEq, List.not_mem_nil, reduceCtorEq, or_false] at h h'
    rcases h with ⟨-, rfl, rfl, rfl, -⟩ | ⟨-, rfl, rfl, rfl, -⟩
    · rcases h' with ⟨-, rfl, rfl, rfl, -⟩ | ⟨-, rfl, rfl, rfl, -⟩
      · rfl
      · exact absurd hdigest (by decide +kernel)
    · rcases h' with ⟨-, rfl, rfl, rfl, -⟩ | ⟨-, rfl, rfl, rfl, -⟩
      · exact absurd hdigest (by decide +kernel)
      · rfl
  obtain ⟨p, events, hcompile, -⟩ := (compile_parsed hparse "nested").1 hdigests
  exact ⟨p, events, hparse, hcompile⟩

end Mustache
