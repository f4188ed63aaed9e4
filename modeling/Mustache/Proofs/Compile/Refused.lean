import Mustache.Proofs.Compile.Walk

/-! # Trees that are refused

There are two reasons why nodes have no instructions: a node of no known kind, or a key that was looked
for in vain before the children of a section were compiled, and that one of them has brought in. The
second needs two sections, one inside the other, with one key.
-/
namespace Mustache

/-- Why nodes have no instructions. -/
inductive Refused (source : List Char) (ns : List Node) : CompileError → Prop
  | unknownNode {kind shown : String} :
      Node.foreign kind shown ∈ Node.subnodes ns → Refused source ns (.unknownNode kind shown)
  | alreadyRegistered {name name' : String} {start stop start' stop' : Int}
      {delimiters delimiters' : Delimiters} {children children' : List Node} :
      Node.sectionBlock name start stop delimiters children ∈ Node.subnodes ns →
      Node.sectionBlock name' start' stop' delimiters' children' ∈ Node.subnodes children →
      Node.bodyKey source start' stop' delimiters' = Node.bodyKey source start stop delimiters →
      Refused source ns (.alreadyRegistered (Node.bodyKey source start stop delimiters))

variable {source : List Char} {ns ms : List Node} {a b : Progress} {is : List Instruction} {e : CompileError}

theorem Refused.mono (h : Refused source ns e) (hsub : ∀ n ∈ Node.subnodes ns, n ∈ Node.subnodes ms) :
    Refused source ms e := by
  cases h with
  | unknownNode hmem => exact .unknownNode (hsub _ hmem)
  | alreadyRegistered hmem hinside hkey => exact .alreadyRegistered (hsub _ hmem) hinside hkey

theorem Walks.grows (h : Walks source ns a is b) :
    Compilation.Grows source ns a.routines b.routines := by
  induction h with
  | nil a => exact fun r hr => Or.inl hr
  | newline _ ih | empty _ ih | text _ _ _ ih | interpolation _ ih | reused _ _ ih | partialTag _ ih
  | comment _ ih =>
    exact ih.mono fun m hm => List.mem_append_right _ hm
  | @fresh name start stop delimiters children ns a b c body is _ _ _ _ ihbody ih =>
    have hbody : Compilation.Grows source (.sectionBlock name start stop delimiters children :: ns)
        a.routines b.routines :=
      ihbody.mono fun m hm => List.mem_append_left _ (List.mem_cons_of_mem _ hm)
    have hrest : Compilation.Grows source (.sectionBlock name start stop delimiters children :: ns)
        (b.routines ++ [Node.routine source start stop delimiters body]) c.routines :=
      ih.mono fun m hm => List.mem_append_right _ hm
    apply (hbody.trans _).trans hrest
    intro r hr
    rcases List.mem_append.mp hr with hr | hr
    · exact Or.inl hr
    · rw [List.mem_singleton.mp hr]
      exact Or.inr ⟨name, start, stop, delimiters, children,
        List.mem_append_left _ List.mem_cons_self, rfl⟩
  | @inverted name children ns a b c body is _ _ ihbody ih =>
    have hbody : Compilation.Grows source (.invertedBlock name children :: ns) a.routines b.routines :=
      ihbody.mono fun m hm => List.mem_append_left _ (List.mem_cons_of_mem _ hm)
    exact hbody.trans (ih.mono fun m hm => List.mem_append_right _ hm)

theorem Walks.exists_section_of_find? (h : Walks source ns a is b) {key : String}
    (hnone : a.find? key = none) (hsome : (b.find? key).isSome = true) :
    ∃ name start stop delimiters children,
      Node.sectionBlock name start stop delimiters children ∈ Node.subnodes ns ∧
        Node.bodyKey source start stop delimiters = key := by
  obtain ⟨r, hr⟩ := Option.isSome_iff_exists.mp hsome
  have hkey : r.key = key := by simpa using List.find?_some hr
  rcases h.grows r (List.mem_of_find?_eq_some hr) with hold | ⟨_, _, _, _, _, hmem, hkey'⟩
  · exact absurd hkey (by simpa using List.find?_eq_none.mp hnone r hold)
  · exact ⟨_, _, _, _, _, hmem, hkey'.trans hkey⟩

namespace Compilation

theorem foreign_of_compileNode {n : Node} {level : Nat} {s : Compilation} (hleaf : n.isLeaf = true)
    (h : (compileNode source level n).run s = .error e) :
    ∃ kind shown, n = .foreign kind shown ∧ e = .unknownNode kind shown := by
  cases n with
  | sectionBlock _ _ _ _ _ | invertedBlock _ _ => cases hleaf
  | text text =>
    rw [compileNode] at h
    split at h
    · cases h
    · split at h <;> cases h
  | foreign kind shown =>
    rw [compileNode] at h
    cases h
    exact ⟨kind, shown, rfl, rfl⟩
  | _ =>
    rw [compileNode] at h
    cases h

/-- A section is refused if its key is new and its children are refused or bring its key in. -/
theorem section_eq_error {name : String} {start stop : Int} {delimiters : Delimiters} {children : List Node}
    {level : Nat} {s : Compilation}
    (h : (compileNode source level (.sectionBlock name start stop delimiters children)).run s = .error e) :
    s.registry.find? (Node.bodyKey source start stop delimiters) = none ∧
      ∃ t, t.progress = s.progress ∧ ((compileNodes source (level + 1) children).run t = .error e ∨
        e = .alreadyRegistered (Node.bodyKey source start stop delimiters) ∧
          ∃ body u, (compileNodes source (level + 1) children).run t = .ok (body, u) ∧
            u.registry.contains (Node.bodyKey source start stop delimiters) = true) := by
  cases hfound : s.registry.find? (Node.bodyKey source start stop delimiters) with
  | some r =>
    obtain ⟨t, -, hrun⟩ := @run_section_reused source s level name start stop delimiters children r hfound
    rw [hrun] at h
    cases h
  | none =>
    obtain ⟨t, ht, hrun⟩ := @run_section_fresh source s level name start stop delimiters children hfound
    rw [hrun, bind_eq_error_iff] at h
    refine ⟨rfl, t, ht, h.imp_right ?_⟩
    rintro ⟨⟨body, u⟩, hbody, h⟩
    by_cases hnew : u.registry.contains (Node.bodyKey source start stop delimiters) = true
    · simp only [Registry.register?, Node.routine, hnew, if_true] at h
      cases h
      exact ⟨rfl, body, u, hbody, hnew⟩
    · simp [Registry.register?, Node.routine, hnew] at h

mutual

theorem refused_of_compileNode : ∀ (n : Node) {level : Nat} {s : Compilation},
    (compileNode source level n).run s = .error e → Refused source [n] e
  | .text _, _, _, h | .interpolation _ _, _, _, h | .partialTag _ _, _, _, h | .comment, _, _, h => by
    obtain ⟨_, _, hn, -⟩ := foreign_of_compileNode rfl h
    cases hn
  | .foreign kind shown, _, _, h => by
    obtain ⟨_, _, hn, rfl⟩ := foreign_of_compileNode rfl h
    cases hn
    exact .unknownNode (by simp [Node.subnodes, Node.subnodesOne])
  | .sectionBlock name start stop delimiters children, level, s, h => by
    obtain ⟨hnone, t, ht, hchildren | ⟨rfl, body, u, hbody, hnew⟩⟩ := section_eq_error h
    · exact (refused_of_compileNodes children hchildren).mono fun m hm => by
        simp [Node.subnodes, Node.subnodesOne, hm]
    · have hwalk := walks_of_compileNodes children hbody
      rw [ht] at hwalk
      obtain ⟨_, _, _, _, _, hmem, hkey⟩ := hwalk.exists_section_of_find? hnone hnew
      exact .alreadyRegistered (List.mem_append_left _ List.mem_cons_self) hmem hkey
  | .invertedBlock name children, level, s, h => by
    rw [run_inverted, bind_eq_error_iff] at h
    rcases h with h | ⟨_, _, h⟩
    · exact (refused_of_compileNodes children h).mono fun m hm => by simp [Node.subnodes, Node.subnodesOne, hm]
    · cases h

theorem refused_of_compileNodes : ∀ (ns : List Node) {level : Nat} {s : Compilation},
    (compileNodes source level ns).run s = .error e → Refused source ns e
  | [], level, s, h => by
    rw [compileNodes] at h
    cases h
  | n :: ns, level, s, h => by
    rw [run_cons, bind_eq_error_iff] at h
    rcases h with h | ⟨⟨i, u⟩, -, h⟩
    · exact (refused_of_compileNode n h).mono fun m hm => by simp_all [Node.subnodes]
    · rw [bind_eq_error_iff] at h
      rcases h with h | ⟨_, _, h⟩
      · exact (refused_of_compileNodes ns h).mono fun m hm => List.mem_append_right _ hm
      · cases h

end

end Compilation

theorem refused_of_compile {source name : String} {tree : List Node}
    (h : compile source tree name = .error e) : Refused source.toList tree e := by
  rw [compile, bind_eq_error_iff] at h
  rcases h with h | ⟨_, _, h⟩
  · exact Compilation.refused_of_compileNodes tree h
  · cases h

end Mustache
