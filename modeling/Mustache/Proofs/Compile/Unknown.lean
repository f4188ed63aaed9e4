import Mustache.Proofs.Compile.Pruned
import Mustache.Proofs.Compile.Refused

/-! # Nodes of no known kind

The compiler stops at the first node of no known kind that it walks over. The children of a section whose
key is registered are not among those, so a tree can hold such a node and have a program. It cannot if of
the sections with one key either all or none hold such a node: then the first one to be compiled stops the
compiler.
-/
namespace Mustache

namespace Node

def refusal? : Node → Option CompileError
  | foreign kind shown => some (.unknownNode kind shown)
  | text _ | interpolation _ _ | sectionBlock _ _ _ _ _ | invertedBlock _ _ | partialTag _ _ | comment => none

def firstRefusal (ns : List Node) : Option CompileError :=
  (subnodes ns).findSome? refusal?

def walked (source : List Char) (tree : List Node) : List Node :=
  (pruned source [] tree).1

variable {source : List Char} {tree ns : List Node} {n : Node} {name kind shown : String} {start stop : Int}
  {delimiters : Delimiters} {children : List Node}

theorem firstRefusal_cons (n : Node) (ns : List Node) :
    firstRefusal (n :: ns) = (firstRefusal [n]).or (firstRefusal ns) := by
  simp [firstRefusal, subnodes, List.findSome?_append]

@[simp] theorem firstRefusal_section :
    firstRefusal [sectionBlock name start stop delimiters children] = firstRefusal children := by
  rw [firstRefusal, subnodes, subnodesOne, subnodes, List.append_nil]
  rfl

@[simp] theorem firstRefusal_inverted :
    firstRefusal [invertedBlock name children] = firstRefusal children := by
  rw [firstRefusal, subnodes, subnodesOne, subnodes, List.append_nil]
  rfl

theorem firstRefusal_ne_none (h : foreign kind shown ∈ subnodes ns) : firstRefusal ns ≠ none := by
  intro hnone
  have hno := List.findSome?_eq_none_iff.mp hnone _ h
  cases hno

end Node

/-- No section has the key of a section inside it. -/
def KeysUnnested (source : List Char) (tree : List Node) : Prop :=
  ∀ name start stop delimiters children name' start' stop' delimiters' children',
    Node.sectionBlock name start stop delimiters children ∈ Node.subnodes tree →
    Node.sectionBlock name' start' stop' delimiters' children' ∈ Node.subnodes children →
    Node.bodyKey source start' stop' delimiters' ≠ Node.bodyKey source start stop delimiters

/-- Of the sections with one key, all or none have a node of no known kind inside. -/
def UnknownAlike (source : List Char) (tree : List Node) : Prop :=
  ∀ name start stop delimiters children name' start' stop' delimiters' children',
    Node.sectionBlock name start stop delimiters children ∈ Node.subnodes tree →
    Node.sectionBlock name' start' stop' delimiters' children' ∈ Node.subnodes tree →
    Node.bodyKey source start stop delimiters = Node.bodyKey source start' stop' delimiters' →
    Node.firstRefusal children = none → Node.firstRefusal children' = none

section Walked

variable {source : List Char} {ns : List Node} {a b : Progress} {is : List Instruction} {e : CompileError}

theorem Walks.firstRefusal_eq_none (h : Walks source ns a is b) :
    Node.firstRefusal (Node.pruned source a.keys ns).1 = none := by
  induction h with
  | nil a => rfl
  | newline _ ih | empty _ ih | text _ _ _ ih | interpolation _ ih | partialTag _ ih | comment _ ih =>
    exact ih
  | reused hr _ ih =>
    rw [Node.pruned, Node.prunedOne_reused (Progress.mem_keys_of_find? hr).2.2, Node.firstRefusal_cons, ih,
      Node.firstRefusal_section]
    rfl
  | fresh hnone hbody _ _ ihbody ih =>
    rw [Progress.keys_register] at ih
    rw [Node.pruned, Node.prunedOne_fresh (Progress.not_mem_keys_of_find? hnone), Node.firstRefusal_cons,
      Node.firstRefusal_section, ihbody, hbody.keys_pruned]
    exact ih
  | inverted hbody _ ihbody ih =>
    rw [Node.pruned, Node.prunedOne_inverted, Node.firstRefusal_cons, Node.firstRefusal_inverted, ihbody,
      hbody.keys_pruned]
    exact ih

namespace Compilation

mutual

theorem firstRefusal_of_compileNode : ∀ (n : Node) {level : Nat} {s : Compilation},
    (compileNode source level n).run s = .error e →
      (∃ key, e = .alreadyRegistered key) ∨
        Node.firstRefusal [(Node.prunedOne source s.progress.keys n).1] = some e
  | .text _, _, _, h | .interpolation _ _, _, _, h | .partialTag _ _, _, _, h | .comment, _, _, h => by
    obtain ⟨_, _, hn, -⟩ := foreign_of_compileNode rfl h
    cases hn
  | .foreign kind shown, _, _, h => by
    obtain ⟨_, _, hn, rfl⟩ := foreign_of_compileNode rfl h
    cases hn
    exact .inr rfl
  | .sectionBlock name start stop delimiters children, level, s, h => by
    obtain ⟨hnone, t, ht, hchildren | ⟨rfl, -⟩⟩ := section_eq_error h
    · have hkey : Node.bodyKey source start stop delimiters ∉ s.progress.keys :=
        Progress.not_mem_keys_of_find? hnone
      have hinside := firstRefusal_of_compileNodes children hchildren
      rw [ht] at hinside
      rwa [Node.prunedOne_fresh hkey, Node.firstRefusal_section]
    · exact .inl ⟨_, rfl⟩
  | .invertedBlock name children, level, s, h => by
    rw [run_inverted, bind_eq_error_iff] at h
    rcases h with h | ⟨_, _, h⟩
    · rw [Node.prunedOne_inverted, Node.firstRefusal_inverted]
      exact firstRefusal_of_compileNodes children h
    · cases h

/-- If compiling nodes fails and not for a key that is registered twice, it fails at the first node of no
known kind that is walked. -/
theorem firstRefusal_of_compileNodes : ∀ (ns : List Node) {level : Nat} {s : Compilation},
    (compileNodes source level ns).run s = .error e →
      (∃ key, e = .alreadyRegistered key) ∨
        Node.firstRefusal (Node.pruned source s.progress.keys ns).1 = some e
  | [], level, s, h => by
    rw [compileNodes] at h
    cases h
  | n :: ns, level, s, h => by
    rw [run_cons, bind_eq_error_iff] at h
    rw [Node.pruned, Node.firstRefusal_cons]
    rcases h with h | ⟨⟨i, u⟩, hn, h⟩
    · refine (firstRefusal_of_compileNode n h).imp_right fun hfirst => ?_
      rw [hfirst, Option.some_or]
    · rw [bind_eq_error_iff] at h
      rcases h with h | ⟨_, _, h⟩
      · have hwalk := walks_of_compileNode n hn
        have hkeys := hwalk.keys_pruned
        have hnone := hwalk.firstRefusal_eq_none
        rw [Node.pruned, Node.pruned] at hkeys hnone
        have hrest := firstRefusal_of_compileNodes ns h
        rwa [hnone, Option.none_or, hkeys]
      · cases h

end

end Compilation

end Walked

section Alike

variable {source : List Char} {tree : List Node} {keys : List String}

def RegisteredKnown (source : List Char) (tree : List Node) (keys : List String) : Prop :=
  ∀ name start stop delimiters children,
    Node.sectionBlock name start stop delimiters children ∈ Node.subnodes tree →
    Node.bodyKey source start stop delimiters ∈ keys → Node.firstRefusal children = none

theorem RegisteredKnown.append (h : RegisteredKnown source tree keys) (halike : UnknownAlike source tree)
    {name : String} {start stop : Int} {delimiters : Delimiters} {children : List Node}
    (hmem : Node.sectionBlock name start stop delimiters children ∈ Node.subnodes tree)
    (hnone : Node.firstRefusal children = none) :
    RegisteredKnown source tree (keys ++ [Node.bodyKey source start stop delimiters]) := by
  intro name' start' stop' delimiters' children' hmem' hkey
  rcases List.mem_append.mp hkey with hkey | hkey
  · exact h _ _ _ _ _ hmem' hkey
  · exact halike _ _ _ _ _ _ _ _ _ _ hmem hmem' (List.mem_singleton.mp hkey).symm hnone

mutual

theorem firstRefusal_prunedOne (halike : UnknownAlike source tree) : ∀ (n : Node) {keys : List String},
    Node.subnodesOne n ⊆ Node.subnodes tree → RegisteredKnown source tree keys →
      Node.firstRefusal [(Node.prunedOne source keys n).1] = Node.firstRefusal [n] ∧
        (Node.firstRefusal [n] = none → RegisteredKnown source tree (Node.prunedOne source keys n).2)
  | .text _, _, _, hk | .interpolation _ _, _, _, hk | .partialTag _ _, _, _, hk | .comment, _, _, hk
  | .foreign _ _, _, _, hk => ⟨rfl, fun _ => hk⟩
  | .sectionBlock name start stop delimiters children, keys, hsub, hk => by
    have hmem := hsub List.mem_cons_self
    by_cases hkey : Node.bodyKey source start stop delimiters ∈ keys
    · have hnone := hk _ _ _ _ _ hmem hkey
      rw [Node.prunedOne_reused hkey, Node.firstRefusal_section, Node.firstRefusal_section, hnone]
      exact ⟨rfl, fun _ => hk⟩
    · obtain ⟨heq, hafter⟩ :=
        firstRefusal_pruned halike children (fun m hm => hsub (List.mem_cons_of_mem _ hm)) hk
      rw [Node.prunedOne_fresh hkey, Node.firstRefusal_section, Node.firstRefusal_section]
      exact ⟨heq, fun hnone => (hafter hnone).append halike hmem hnone⟩
  | .invertedBlock name children, keys, hsub, hk => by
    rw [Node.prunedOne_inverted, Node.firstRefusal_inverted, Node.firstRefusal_inverted]
    exact firstRefusal_pruned halike children (fun m hm => hsub (List.mem_cons_of_mem _ hm)) hk

theorem firstRefusal_pruned (halike : UnknownAlike source tree) : ∀ (ns : List Node) {keys : List String},
    Node.subnodes ns ⊆ Node.subnodes tree → RegisteredKnown source tree keys →
      Node.firstRefusal (Node.pruned source keys ns).1 = Node.firstRefusal ns ∧
        (Node.firstRefusal ns = none → RegisteredKnown source tree (Node.pruned source keys ns).2)
  | [], _, _, hk => ⟨rfl, fun _ => hk⟩
  | n :: ns, keys, hsub, hk => by
    obtain ⟨heq, hafter⟩ :=
      firstRefusal_prunedOne halike n (fun m hm => hsub (List.mem_append_left _ hm)) hk
    rw [Node.pruned, Node.firstRefusal_cons n, Node.firstRefusal_cons, heq]
    cases hfirst : Node.firstRefusal [n] with
    | some e => exact ⟨by rw [Option.some_or, Option.some_or], nofun⟩
    | none =>
      rw [Option.none_or, Option.none_or]
      exact firstRefusal_pruned halike ns (fun m hm => hsub (List.mem_append_right _ hm)) (hafter hfirst)

end

theorem firstRefusal_walked (halike : UnknownAlike source tree) :
    Node.firstRefusal (Node.walked source tree) = Node.firstRefusal tree := by
  have hstart : RegisteredKnown source tree [] := fun _ _ _ _ _ _ => nofun
  exact (firstRefusal_pruned halike tree (List.Subset.refl _) hstart).1

end Alike

section Compile

variable {source name : String} {tree : List Node} {e : CompileError}

theorem exists_error_of_firstRefusal (name : String)
    (h : Node.firstRefusal (Node.walked source.toList tree) = some e) : ∃ e', compile source tree name = .error e' := by
  cases hc : compile source tree name with
  | error e' => exact ⟨e', rfl⟩
  | ok found =>
    obtain ⟨p, events⟩ := found
    obtain ⟨-, b, hwalk⟩ := walks_of_compile hc
    have hnone := hwalk.firstRefusal_eq_none
    rw [Progress.keys_start] at hnone
    rw [Node.walked, hnone] at h
    cases h

theorem firstRefusal_of_compile (hkeys : KeysUnnested source.toList tree)
    (h : compile source tree name = .error e) :
    Node.firstRefusal (Node.walked source.toList tree) = some e := by
  cases refused_of_compile h with
  | alreadyRegistered hmem hinside hkey => exact absurd hkey (hkeys _ _ _ _ _ _ _ _ _ _ hmem hinside)
  | unknownNode _ =>
    rw [compile, bind_eq_error_iff] at h
    rcases h with h | ⟨_, _, h⟩
    · rcases Compilation.firstRefusal_of_compileNodes tree h with ⟨key, hkey⟩ | hfirst
      · cases hkey
      · exact hfirst
    · cases h

/-- If the part of a tree that is walked has a node of no known kind, the tree has no program. If besides
no section has the key of a section inside it, such a node is the only reason why a tree has none, and the
error is the one for the first of them. The whole tree can stand for the part that is walked if sections
with one key agree on whether such a node is inside. -/
theorem unknown_nodes_exact (source : String) (tree : List Node) (name : String) :
    (∀ kind shown, Node.foreign kind shown ∈ Node.subnodes (Node.walked source.toList tree) →
      ∀ found, compile source tree name ≠ .ok found) ∧
    (KeysUnnested source.toList tree → ∀ e, compile source tree name = .error e ↔
      Node.firstRefusal (Node.walked source.toList tree) = some e) ∧
    (UnknownAlike source.toList tree →
      ∀ kind shown, Node.foreign kind shown ∈ Node.subnodes tree →
        (∀ found, compile source tree name ≠ .ok found) ∧
        (KeysUnnested source.toList tree →
          ∃ e, Node.firstRefusal tree = some e ∧ compile source tree name = .error e)) := by
  have hrefused : ∀ e, Node.firstRefusal (Node.walked source.toList tree) = some e →
      ∀ found, compile source tree name ≠ .ok found := by
    intro e hfirst found hok
    obtain ⟨e', he'⟩ := exists_error_of_firstRefusal name hfirst
    rw [hok] at he'
    cases he'
  have hexact : KeysUnnested source.toList tree → ∀ e, compile source tree name = .error e ↔
      Node.firstRefusal (Node.walked source.toList tree) = some e := by
    refine fun hkeys e => ⟨firstRefusal_of_compile hkeys, fun hfirst => ?_⟩
    obtain ⟨e', he'⟩ := exists_error_of_firstRefusal name hfirst
    rw [firstRefusal_of_compile hkeys he'] at hfirst
    rw [he', Option.some.inj hfirst]
  refine ⟨fun kind shown hmem => ?_, hexact, fun halike kind shown hmem => ?_⟩
  · obtain ⟨e, hfirst⟩ := Option.ne_none_iff_exists'.mp (Node.firstRefusal_ne_none hmem)
    exact hrefused e hfirst
  · obtain ⟨e, hfirst⟩ := Option.ne_none_iff_exists'.mp (Node.firstRefusal_ne_none hmem)
    rw [← firstRefusal_walked halike] at hfirst ⊢
    exact ⟨hrefused e hfirst, fun hkeys => ⟨e, hfirst, (hexact hkeys e).mpr hfirst⟩⟩

end Compile

def twins : String := "{{#a}}x{{/a}}{{#b}}x{{/b}}"

def refusedTwins : List Node :=
  [.sectionBlock "a" 6 7 .standard [.text "x", .foreign "TemplateNode" "TemplateNode()"],
    .invertedBlock "c" [.sectionBlock "b" 19 20 .standard [.foreign "Marker" "Marker(1)"]]]

theorem unknown_nodes_exact_twice :
    compile twins refusedTwins "t" = .error (.unknownNode "TemplateNode" "TemplateNode()") := by
  have hsections : ∀ name start stop delimiters children,
      Node.sectionBlock name start stop delimiters children ∈ Node.subnodes refusedTwins →
        Node.firstRefusal children ≠ none ∧ ∀ n ∈ Node.subnodes children, n.isLeaf = true := by
    intro name start stop delimiters children h
    simp only [refusedTwins, Node.subnodes, Node.subnodesOne, List.cons_append, List.nil_append,
      List.mem_cons, Node.sectionBlock.injEq, List.not_mem_nil, reduceCtorEq, or_false, false_or] at h
    rcases h with ⟨-, -, -, -, rfl⟩ | ⟨-, -, -, -, rfl⟩
    · exact ⟨by decide, by decide⟩
    · exact ⟨by decide, by decide⟩
  have halike : UnknownAlike twins.toList refusedTwins :=
    fun _ _ _ _ _ _ _ _ _ _ h _ _ hnone => absurd hnone (hsections _ _ _ _ _ h).1
  have hkeys : KeysUnnested twins.toList refusedTwins := by
    intro _ _ _ _ _ _ _ _ _ _ h hinside
    have hleaf := (hsections _ _ _ _ _ h).2 _ hinside
    cases hleaf
  obtain ⟨_, e, hfirst, hcompile⟩ := ((unknown_nodes_exact _ _ "t").2.2 halike "Marker" "Marker(1)"
    (by simp [refusedTwins, Node.subnodes, Node.subnodesOne])).imp_right fun h => h hkeys
  cases hfirst
  exact hcompile

def skippedTwins : List Node :=
  [.sectionBlock "a" 6 7 .standard [.text "x"],
    .sectionBlock "b" 19 20 .standard [.foreign "TemplateNode" "TemplateNode()"]]

/-- The second section calls the routine of the first one, and what is inside the second is not looked at. -/
theorem unknown_node_skipped : ∃ found, compile twins skippedTwins "t" = .ok found ∧
    Node.foreign "TemplateNode" "TemplateNode()" ∈ Node.subnodes skippedTwins := by
  have hok : (compile twins skippedTwins "t").map (fun _ => ()) = .ok () := by
    decide +kernel
  obtain ⟨found, hfound, -⟩ := map_eq_ok_iff.mp hok
  exact ⟨found, hfound, by simp [skippedTwins, Node.subnodes, Node.subnodesOne]⟩

end Mustache
