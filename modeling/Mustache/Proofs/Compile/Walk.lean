import Mustache.Proofs.Compile.Correct

/-! # Walks over a tree

`Walks` says what instructions a list of nodes has, one rule for each kind of node, from the state of the
line and the routines before it to those after it. The compiler succeeds exactly if there is a walk, so
what holds of the instructions of a tree is an induction on its walk.
-/
namespace Mustache

/-- The state of the line under way and the routines registered so far. -/
structure Progress where
  line : LineState
  routines : List (Routine Instruction)

namespace Progress

def find? (a : Progress) (key : String) : Option (Routine Instruction) :=
  a.routines.find? (·.key = key)

def withLine (a : Progress) (line : LineState) : Progress :=
  { a with line }

def register (a : Progress) (r : Routine Instruction) : Progress :=
  { a with routines := a.routines ++ [r] }

end Progress

def Node.routine (source : List Char) (start stop : Int) (delimiters : Delimiters)
    (body : List Instruction) : Routine Instruction :=
  ⟨bodyKey source start stop delimiters, String.ofList (Text.slice source start stop), delimiters.tag,
    body⟩

/-- The instructions of nodes, with the progress before and after them. -/
inductive Walks (source : List Char) : List Node → Progress → List Instruction → Progress → Prop
  | nil (a : Progress) : Walks source [] a [] a
  | newline {ns : List Node} {a b : Progress} {is : List Instruction} :
      Walks source ns (a.withLine .pending) is b →
      Walks source (.text "\n" :: ns) a (.literal "\n" false :: is) b
  | empty {ns : List Node} {a b : Progress} {is : List Instruction} :
      Walks source ns a is b → Walks source (.text "" :: ns) a is b
  | text {s : String} {ns : List Node} {a b : Progress} {is : List Instruction} :
      s ≠ "\n" → s ≠ "" → Walks source ns (a.withLine .consumed) is b →
      Walks source (.text s :: ns) a (.literal s a.line.isPending :: is) b
  | interpolation {name : String} {escape : Bool} {ns : List Node} {a b : Progress}
      {is : List Instruction} : Walks source ns (a.withLine .consumed) is b →
      Walks source (.interpolation name escape :: ns) a
        (.interpolate (.ofName name) name escape a.line.isPending :: is) b
  | reused {name : String} {start stop : Int} {delimiters : Delimiters} {children ns : List Node}
      {a b : Progress} {is : List Instruction} {r : Routine Instruction} :
      a.find? (Node.bodyKey source start stop delimiters) = some r → Walks source ns a is b →
      Walks source (.sectionBlock name start stop delimiters children :: ns) a
        (.callSection r (.ofName name) name (!a.line.isPending) :: is) b
  | fresh {name : String} {start stop : Int} {delimiters : Delimiters} {children ns : List Node}
      {a b c : Progress} {body is : List Instruction} :
      a.find? (Node.bodyKey source start stop delimiters) = none →
      Walks source children a body b →
      b.find? (Node.bodyKey source start stop delimiters) = none →
      Walks source ns (b.register (Node.routine source start stop delimiters body)) is c →
      Walks source (.sectionBlock name start stop delimiters children :: ns) a
        (.callSection (Node.routine source start stop delimiters body) (.ofName name) name
          (!a.line.isPending) :: is) c
  | inverted {name : String} {children ns : List Node} {a b c : Progress}
      {body is : List Instruction} :
      Walks source children a body b → Walks source ns b is c →
      Walks source (.invertedBlock name children :: ns) a
        (.callInverted (.ofName name) name body :: is) c
  | partialTag {name indent : String} {ns : List Node} {a b : Progress} {is : List Instruction} :
      Walks source ns a is b →
      Walks source (.partialTag name indent :: ns) a
        (.callPartial name indent (!a.line.isPending) :: is) b
  | comment {ns : List Node} {a b : Progress} {is : List Instruction} :
      Walks source ns a is b → Walks source (.comment :: ns) a is b

variable {source : List Char} {ns ms : List Node} {a b c : Progress} {is js : List Instruction}

theorem Walks.append (h : Walks source ns a is b) (h' : Walks source ms b js c) :
    Walks source (ns ++ ms) a (is ++ js) c := by
  induction h with
  | nil a => exact h'
  | newline _ ih => exact .newline (ih h')
  | empty _ ih => exact .empty (ih h')
  | text hnl hne _ ih => exact .text hnl hne (ih h')
  | interpolation _ ih => exact .interpolation (ih h')
  | reused hr _ ih => exact .reused hr (ih h')
  | fresh hnone hbody hnone' _ _ ih => exact .fresh hnone hbody hnone' (ih h')
  | inverted hbody _ _ ih => exact .inverted hbody (ih h')
  | partialTag _ ih => exact .partialTag (ih h')
  | comment _ ih => exact .comment (ih h')

namespace Compilation

variable {s t u : Compilation} {level : Nat}

def progress (s : Compilation) : Progress :=
  ⟨s.line, s.registry.routines⟩

theorem run_cons (source : List Char) (level : Nat) (n : Node) (ns : List Node) (s : Compilation) :
    (compileNodes source level (n :: ns)).run s = (compileNode source level n).run s >>= fun p =>
      (compileNodes source level ns).run p.2 >>= fun q => .ok (p.1.toList ++ q.1, q.2) := by
  rw [compileNodes]
  rfl

theorem run_inverted (source : List Char) (level : Nat) (name : String) (children : List Node)
    (s : Compilation) : (compileNode source level (.invertedBlock name children)).run s =
      (compileNodes source (level + 1) children).run s >>= fun p =>
        .ok (some (.callInverted (.ofName name) name p.1), p.2) := by
  rw [compileNode]
  rfl

theorem run_register_eq (routine : Routine Instruction) (s : Compilation) :
    (register routine).run s = match s.registry.register? routine with
      | some registry => .ok ((), { s with registry })
      | none => .error (.alreadyRegistered routine.key) := by
  simp only [register, StateT.run_bind, StateT.run_get, pure_bind]
  cases s.registry.register? routine with
  | some registry => rfl
  | none => rfl

section Sections

variable {name : String} {start stop : Int} {delimiters : Delimiters} {children : List Node}

theorem run_section_reused {r : Routine Instruction}
    (h : s.registry.find? (Node.bodyKey source start stop delimiters) = some r) :
    ∃ t, t.progress = s.progress ∧
      (compileNode source level (.sectionBlock name start stop delimiters children)).run s =
        .ok (some (.callSection r (.ofName name) name !s.line.isPending), t) := by
  refine ⟨⟨s.line, { s.registry with hits := s.registry.hits + 1 },
    s.events ++ [.routineReused (Node.bodyKey source start stop delimiters)]⟩, rfl, ?_⟩
  rw [Node.bodyKey] at h
  simp only [compileNode, isInline, request, Registry.request, note, StateT.run_bind, StateT.run_get,
    StateT.run_modify, StateT.run_pure, pure_bind, h]
  rfl

/-- A section with a new key: its children are compiled, then its routine is registered, unless its key
has been registered meanwhile. -/
theorem run_section_fresh (h : s.registry.find? (Node.bodyKey source start stop delimiters) = none) :
    ∃ t, t.progress = s.progress ∧
      (compileNode source level (.sectionBlock name start stop delimiters children)).run s =
        (compileNodes source (level + 1) children).run t >>= fun p =>
          match p.2.registry.register? (Node.routine source start stop delimiters p.1) with
          | some registry => .ok (some (.callSection (Node.routine source start stop delimiters p.1)
              (.ofName name) name !s.line.isPending), { p.2 with registry })
          | none => .error (.alreadyRegistered (Node.bodyKey source start stop delimiters)) := by
  refine ⟨⟨s.line, s.registry,
    s.events ++ [.routineCompiled level name (Node.bodyKey source start stop delimiters)]⟩, rfl, ?_⟩
  have hrequest : (request (Node.bodyKey source start stop delimiters)).run s = .ok (none, s) := by
    simp only [request, Registry.request, StateT.run_bind, StateT.run_get, StateT.run_modify, pure_bind, h]
    rfl
  rw [Node.bodyKey] at hrequest
  simp only [compileNode, isInline, note, StateT.run_bind, StateT.run_get, StateT.run_modify,
    StateT.run_pure, pure_bind, hrequest, ok_bind]
  congr 1
  funext p
  rw [run_register_eq, Node.routine, Node.bodyKey]
  cases p.2.registry.register? _ with
  | some registry => rfl
  | none => rfl

end Sections

mutual

theorem walks_of_compileNode : ∀ (n : Node) {level : Nat} {s t : Compilation} {i : Option Instruction},
    (compileNode source level n).run s = .ok (i, t) →
      Walks source [n] s.progress i.toList t.progress
  | .text text, level, s, t, i, h => by
    rw [compileNode] at h
    by_cases hnl : text = "\n"
    · rw [if_pos hnl] at h
      cases h
      rw [hnl]
      exact .newline (.nil _)
    · rw [if_neg hnl] at h
      by_cases hempty : text.isEmpty = true
      · rw [if_pos hempty] at h
        cases h
        rw [String.isEmpty_iff.mp hempty]
        exact .empty (.nil _)
      · rw [if_neg hempty] at h
        cases h
        exact .text hnl (fun he => hempty (String.isEmpty_iff.mpr he)) (.nil _)
  | .interpolation name escape, level, s, t, i, h => by
    rw [compileNode] at h
    cases h
    exact .interpolation (.nil _)
  | .sectionBlock name start stop delimiters children, level, s, t, i, h => by
    cases hfound : s.registry.find? (Node.bodyKey source start stop delimiters) with
    | some r =>
      obtain ⟨u, hu, hrun⟩ := @run_section_reused source s level name start stop delimiters children r hfound
      rw [hrun] at h
      cases h
      rw [hu]
      exact .reused hfound (.nil _)
    | none =>
      obtain ⟨u, hu, hrun⟩ := @run_section_fresh source s level name start stop delimiters children hfound
      rw [hrun, bind_eq_ok_iff] at h
      obtain ⟨⟨body, v⟩, hbody, h⟩ := h
      have hchildren := walks_of_compileNodes children hbody
      rw [hu] at hchildren
      by_cases hnew : v.registry.contains (Node.bodyKey source start stop delimiters) = true
      · simp [Registry.register?, Node.routine, hnew] at h
      · have hnone : v.progress.find? (Node.bodyKey source start stop delimiters) = none := by
          rw [Bool.not_eq_true, Registry.contains, Option.isSome_eq_false_iff, Option.isNone_iff_eq_none] at hnew
          exact hnew
        simp [Registry.register?, Node.routine, hnew] at h
        obtain ⟨rfl, rfl⟩ := h
        exact .fresh hfound hchildren hnone (.nil _)
  | .invertedBlock name children, level, s, t, i, h => by
    rw [run_inverted, bind_eq_ok_iff] at h
    obtain ⟨⟨body, v⟩, hbody, h⟩ := h
    cases h
    exact .inverted (walks_of_compileNodes children hbody) (.nil _)
  | .partialTag name indent, level, s, t, i, h => by
    rw [compileNode] at h
    cases h
    exact .partialTag (.nil _)
  | .comment, level, s, t, i, h => by
    rw [compileNode] at h
    cases h
    exact .comment (.nil _)
  | .foreign kind text, level, s, t, i, h => by
    rw [compileNode] at h
    cases h

theorem walks_of_compileNodes : ∀ (ns : List Node) {level : Nat} {s t : Compilation}
    {is : List Instruction}, (compileNodes source level ns).run s = .ok (is, t) →
      Walks source ns s.progress is t.progress
  | [], level, s, t, is, h => by
    rw [compileNodes] at h
    cases h
    exact .nil _
  | n :: ns, level, s, t, is, h => by
    rw [run_cons, bind_eq_ok_iff] at h
    obtain ⟨⟨i, u⟩, hn, h⟩ := h
    rw [bind_eq_ok_iff] at h
    obtain ⟨⟨js, v⟩, hns, h⟩ := h
    cases h
    exact (walks_of_compileNode n hn).append (walks_of_compileNodes ns hns)

end

theorem exists_run_cons {n : Node} {i : Option Instruction} (hn : (compileNode source level n).run s = .ok (i, t))
    (hns : ∃ u, (compileNodes source level ns).run t = .ok (is, u) ∧ u.progress = b) :
    ∃ u, (compileNodes source level (n :: ns)).run s = .ok (i.toList ++ is, u) ∧ u.progress = b := by
  obtain ⟨u, hu, hb⟩ := hns
  refine ⟨u, ?_, hb⟩
  rw [run_cons, hn, ok_bind, hu, ok_bind]

/-- The compiler finds every walk. -/
theorem exists_run_of_walks (h : Walks source ns a is b) :
    ∀ (level : Nat) (s : Compilation), s.progress = a →
      ∃ t, (compileNodes source level ns).run s = .ok (is, t) ∧ t.progress = b := by
  induction h with
  | nil a => exact fun level s hs => ⟨s, rfl, hs⟩
  | newline _ ih =>
    rintro level s rfl
    exact exists_run_cons (i := some (.literal "\n" false)) rfl (ih level _ rfl)
  | empty _ ih =>
    rintro level s rfl
    exact exists_run_cons (i := none) rfl (ih level _ rfl)
  | @text text ns a b is hnl hne _ ih =>
    rintro level s rfl
    have hrun : (compileNode source level (.text text)).run s =
        .ok (some (.literal text s.line.isPending), { s with line := .consumed }) := by
      rw [compileNode, if_neg hnl, if_neg (by simpa using hne)]
      rfl
    exact exists_run_cons hrun (ih level _ rfl)
  | interpolation _ ih =>
    rintro level s rfl
    exact exists_run_cons (i := some _) rfl (ih level _ rfl)
  | reused hr _ ih =>
    rintro level s rfl
    obtain ⟨t, ht, hrun⟩ := run_section_reused hr
    exact exists_run_cons hrun (ih level t ht)
  | @fresh name start stop delimiters children ns a b c body is hnone _ hnone' _ ihbody ih =>
    rintro level s rfl
    obtain ⟨t, ht, hrun⟩ := run_section_fresh hnone
    obtain ⟨u, hu, rfl⟩ := ihbody (level + 1) t ht
    have hnew : u.registry.contains (Node.bodyKey source start stop delimiters) = false :=
      congrArg Option.isSome hnone'
    rw [hu, ok_bind] at hrun
    simp only [Registry.register?, Node.routine, hnew] at hrun
    exact exists_run_cons hrun (ih level _ rfl)
  | @inverted name children ns a b c body is _ _ ihbody ih =>
    rintro level s rfl
    obtain ⟨t, ht, hb⟩ := ihbody (level + 1) s rfl
    have hrun := run_inverted source level name children s
    rw [ht, ok_bind] at hrun
    exact exists_run_cons hrun (ih level t hb)
  | partialTag _ ih =>
    rintro level s rfl
    exact exists_run_cons (i := some _) rfl (ih level _ rfl)
  | comment _ ih =>
    rintro level s rfl
    exact exists_run_cons (i := none) rfl (ih level _ rfl)

end Compilation

def Progress.start : Progress := ⟨.pending, []⟩

theorem walks_of_compile {source name : String} {tree : List Node} {p : Program} {events : List Event}
    (h : compile source tree name = .ok (p, events)) :
    p.name = name ∧ ∃ b, Walks source.toList tree .start p.instructions b := by
  rw [compile, bind_eq_ok_iff] at h
  obtain ⟨⟨is, t⟩, hrun, h⟩ := h
  cases h
  exact ⟨rfl, t.progress, Compilation.walks_of_compileNodes tree hrun⟩

theorem exists_compile_of_walks {source : String} {tree : List Node} {is : List Instruction} {b : Progress}
    (name : String) (h : Walks source.toList tree .start is b) :
    ∃ events, compile source tree name = .ok (⟨name, is⟩, events) := by
  obtain ⟨t, hrun, -⟩ := Compilation.exists_run_of_walks h 1 .start rfl
  rw [compile, hrun]
  exact ⟨_, rfl⟩

end Mustache
