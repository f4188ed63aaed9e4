import Mathlib.Data.List.Nodup
import Mustache.Proofs.Compile.CallSites

/-! # The routines of a program

Routines are registered after those of their own bodies, and listed before them. That the listing comes to
the registered routines all the same is seen along the walk: each part of it finds what it registers,
provided that all registered routines have been found before and of the other ones that have been, which
are under way, none is called in the part.
-/
namespace Mustache

def CallSite.meet (found : List (Routine Instruction)) (c : CallSite) : List (Routine Instruction) :=
  if found.any (·.key = c.routine.key) then found else found ++ [c.routine]

def CallSite.firstCalled (cs : List CallSite) : List (Routine Instruction) :=
  cs.foldl meet []

section Meet

variable {found : List (Routine Instruction)} {c : CallSite}

theorem any_key_iff {key : String} :
    (found.any fun r => decide (r.key = key)) = true ↔ key ∈ found.map Routine.key := by
  simp

theorem CallSite.meet_of_mem (h : c.routine.key ∈ found.map Routine.key) : meet found c = found :=
  if_pos (any_key_iff.mpr h)

theorem CallSite.meet_of_not_mem (h : c.routine.key ∉ found.map Routine.key) :
    meet found c = found ++ [c.routine] :=
  if_neg (mt any_key_iff.mp h)

end Meet

namespace Instruction

variable {found : List (Routine Instruction)} {r : Routine Instruction} {lookup : Lookup} {name : String}
  {inline : Bool} {is : List Instruction}

theorem routinesOf_reused (h : r.key ∈ found.map Routine.key) :
    routinesOf found (.callSection r lookup name inline :: is) = routinesOf found is := by
  rw [routinesOf, routinesOne, if_pos (any_key_iff.mpr h)]

theorem routinesOf_fresh (h : r.key ∉ found.map Routine.key) :
    routinesOf found (.callSection r lookup name inline :: is) =
      routinesOf (routinesOf (found ++ [r]) r.body) is := by
  rw [routinesOf, routinesOne, if_neg (mt any_key_iff.mp h)]

end Instruction

variable {source : List Char} {ns : List Node} {a b c : Progress} {is : List Instruction}
  {found found' found'' : List (Routine Instruction)} {r : Routine Instruction}

theorem Walks.subset (h : Walks source ns a is b) : a.routines ⊆ b.routines := by
  induction h with
  | nil a => exact List.Subset.refl _
  | newline _ ih | empty _ ih | text _ _ _ ih | interpolation _ ih | reused _ _ ih | partialTag _ ih
  | comment _ ih => exact ih
  | fresh _ _ _ _ ihbody ih => exact fun r hr => ih (List.mem_append_left _ (ihbody hr))
  | inverted _ _ ihbody ih => exact fun r hr => ih (ihbody hr)

theorem Walks.keys_subset (h : Walks source ns a is b) : a.keys ⊆ b.keys :=
  List.map_subset _ h.subset

/-- What has been found before a part of a walk: what is registered, and none of what the part registers. -/
structure Ready (a b : Progress) (found : List (Routine Instruction)) : Prop where
  registered : ∀ key ∈ a.keys, key ∈ found.map Routine.key
  new : ∀ key ∈ b.keys, key ∈ found.map Routine.key → key ∈ a.keys

def Finds (a b : Progress) (found found' : List (Routine Instruction)) : Prop :=
  ∃ new added, found' = found ++ new ∧ b.routines = a.routines ++ added ∧ new.Perm added

theorem Finds.refl (a : Progress) (found : List (Routine Instruction)) : Finds a a found found :=
  ⟨[], [], by simp, by simp, .refl _⟩

theorem Finds.trans (h : Finds a b found found') (h' : Finds b c found' found'') : Finds a c found found'' := by
  obtain ⟨new, added, rfl, hb, hperm⟩ := h
  obtain ⟨new', added', rfl, hc, hperm'⟩ := h'
  exact ⟨new ++ new', added ++ added', by simp, by simp [hb, hc], hperm.append hperm'⟩

theorem Finds.register (h : Finds a b (found ++ [r]) found') : Finds a (b.register r) found found' := by
  obtain ⟨new, added, rfl, hb, hperm⟩ := h
  refine ⟨r :: new, added ++ [r], by simp, by simp [Progress.register, hb], ?_⟩
  exact (hperm.cons r).trans (List.perm_append_singleton r added).symm

theorem Ready.mono (h : Ready a c found) (hsub : b.keys ⊆ c.keys) : Ready a b found :=
  ⟨h.registered, fun key hkey => h.new key (hsub hkey)⟩

theorem Ready.inside (h : Ready a b found) (hr : r.key ∉ b.keys) : Ready a b (found ++ [r]) where
  registered key hkey := by
    rw [List.map_append]
    exact List.mem_append_left _ (h.registered key hkey)
  new key hkey hfound := by
    rw [List.map_append] at hfound
    rcases List.mem_append.mp hfound with hfound | hfound
    · exact h.new key hkey hfound
    · rw [List.map_singleton, List.mem_singleton] at hfound
      exact absurd (hfound ▸ hkey) hr

theorem Ready.after (h : Ready a c found) (hfinds : Finds a b found found') : Ready b c found' := by
  obtain ⟨new, added, rfl, hb, hperm⟩ := hfinds
  have hkeys : ∀ key, key ∈ b.keys ↔ key ∈ a.keys ∨ key ∈ new.map Routine.key := by
    intro key
    rw [Progress.keys, hb, List.map_append, List.mem_append, (hperm.map Routine.key).mem_iff]
    rfl
  constructor
  · intro key hkey
    rw [List.map_append]
    rcases (hkeys key).mp hkey with hold | hnew
    · exact List.mem_append_left _ (h.registered key hold)
    · exact List.mem_append_right _ hnew
  · intro key hkey hfound
    rw [List.map_append] at hfound
    rcases List.mem_append.mp hfound with hfound | hfound
    · exact (hkeys key).mpr (.inl (h.new key hkey hfound))
    · exact (hkeys key).mpr (.inr hfound)

section Fresh

variable {start stop : Int} {delimiters : Delimiters} {body : List Instruction}
  (h : Ready a c found) (hrest : Walks source ns (b.register (Node.routine source start stop delimiters body)) is c)
include h hrest

theorem Ready.not_mem_of_fresh (hnone : a.find? (Node.bodyKey source start stop delimiters) = none) :
    (Node.routine source start stop delimiters body).key ∉ found.map Routine.key := by
  intro hfound
  have hkey : (Node.routine source start stop delimiters body).key ∈ c.keys :=
    hrest.keys_subset (by simp)
  exact Progress.not_mem_keys_of_find? hnone (h.new _ hkey hfound)

theorem Ready.inside_fresh (hnone' : b.find? (Node.bodyKey source start stop delimiters) = none) :
    Ready a b (found ++ [Node.routine source start stop delimiters body]) :=
  (h.mono fun _ hkey => hrest.keys_subset (by simp [hkey])).inside (Progress.not_mem_keys_of_find? hnone')

end Fresh

/-- The listing finds what a walk registers, in the order of the first calls. -/
theorem Walks.finds (h : Walks source ns a is b) (hready : Ready a b found) :
    Finds a b found (Instruction.routinesOf found is) ∧
      Instruction.routinesOf found is = (Instruction.calls a.keys is).1.foldl CallSite.meet found := by
  induction h generalizing found with
  | nil a => exact ⟨.refl a found, rfl⟩
  | newline _ ih | empty _ ih | text _ _ _ ih | interpolation _ ih | partialTag _ ih | comment _ ih =>
    exact ih ⟨hready.registered, hready.new⟩
  | reused hr _ ih =>
    obtain ⟨-, hkey, hin⟩ := Progress.mem_keys_of_find? hr
    rw [← hkey] at hin
    have hfound := hready.registered _ hin
    obtain ⟨hfinds, horder⟩ := ih hready
    rw [Instruction.routinesOf_reused hfound, Instruction.calls_reused hin, List.foldl_cons,
      CallSite.meet_of_mem hfound]
    exact ⟨hfinds, horder⟩
  | @fresh name start stop delimiters children ns a b c body is hnone hbody hnone' hrest ihbody ih =>
    have hnew : (Node.routine source start stop delimiters body).key ∉ a.keys :=
      Progress.not_mem_keys_of_find? hnone
    have hfound := hready.not_mem_of_fresh hrest hnone
    obtain ⟨hinside, horder⟩ := ihbody (hready.inside_fresh hrest hnone')
    obtain ⟨hafter, horder'⟩ := ih (hready.after hinside.register)
    rw [Progress.keys_register] at horder'
    rw [Instruction.routinesOf_fresh hfound, Instruction.calls_fresh hnew rfl, List.cons_append,
      List.foldl_cons, CallSite.meet_of_not_mem hfound, List.foldl_append, Node.routine_body,
      hbody.keys_calls, ← horder]
    exact ⟨hinside.register.trans hafter, horder'⟩
  | @inverted name children ns a b c body is hbody hrest ihbody ih =>
    obtain ⟨hinside, horder⟩ := ihbody (hready.mono hrest.keys_subset)
    obtain ⟨hafter, horder'⟩ := ih (hready.after hinside)
    rw [Instruction.routinesOf, Instruction.routinesOne, Instruction.calls, Instruction.callsOne,
      List.foldl_append, hbody.keys_calls, ← horder]
    exact ⟨hinside.trans hafter, horder'⟩

theorem Walks.routine_mem_of_calls (h : Walks source ns a is b) :
    ∀ c ∈ (Instruction.calls a.keys is).1, c.routine ∈ b.routines := by
  induction h with
  | nil a => exact nofun
  | newline _ ih | empty _ ih | text _ _ _ ih | interpolation _ ih | partialTag _ ih | comment _ ih =>
    exact ih
  | reused hr hrest ih =>
    obtain ⟨hmem, hkey, hin⟩ := Progress.mem_keys_of_find? hr
    rw [Instruction.calls_reused (hkey.symm ▸ hin)]
    exact List.forall_mem_cons.mpr ⟨hrest.subset hmem, ih⟩
  | @fresh name start stop delimiters children ns a b c body is hnone hbody _ hrest ihbody ih =>
    have hnew : (Node.routine source start stop delimiters body).key ∉ a.keys :=
      Progress.not_mem_keys_of_find? hnone
    rw [Progress.keys_register] at ih
    rw [Instruction.calls_fresh hnew rfl, Node.routine_body, hbody.keys_calls]
    have hregistered : Node.routine source start stop delimiters body ∈ c.routines :=
      hrest.subset (List.mem_append_right _ (List.mem_singleton_self _))
    have hinside : ∀ d ∈ (Instruction.calls a.keys body).1, d.routine ∈ c.routines :=
      fun d hd => hrest.subset (List.mem_append_left _ (ihbody d hd))
    exact List.forall_mem_append.mpr ⟨List.forall_mem_cons.mpr ⟨hregistered, hinside⟩, ih⟩
  | inverted hbody hrest ihbody ih =>
    rw [Instruction.calls, Instruction.callsOne, hbody.keys_calls]
    exact List.forall_mem_append.mpr ⟨fun d hd => hrest.subset (ihbody d hd), ih⟩

def Progress.Closed (a : Progress) : Prop :=
  ∀ r ∈ a.routines, ∀ c ∈ Instruction.allCalls r.body, c.routine ∈ a.routines

theorem Walks.closed (h : Walks source ns a is b) (ha : a.Closed) :
    (∀ c ∈ Instruction.allCalls is, c.routine ∈ b.routines) ∧ b.Closed :=
  h.allCalls_listed (fun r hr c hc => h.subset (ha r hr c hc)) h.routine_mem_of_calls

theorem foldl_meet_of_mem {cs : List CallSite} (h : ∀ c ∈ cs, c.routine.key ∈ found.map Routine.key) :
    cs.foldl CallSite.meet found = found := by
  induction cs with
  | nil => rfl
  | cons c cs ih =>
    obtain ⟨hc, hcs⟩ := List.forall_mem_cons.mp h
    rw [List.foldl_cons, CallSite.meet_of_mem hc, ih hcs]

/-- To go into the body of a routine again at a later call brings up nothing new. -/
theorem Walks.routinesOf_eq_foldl (h : Walks source ns a is b) (hready : Ready a b found) (ha : a.Closed) :
    Instruction.routinesOf found is = (Instruction.allCalls is).foldl CallSite.meet found := by
  induction h generalizing found with
  | nil a => rfl
  | newline _ ih | text _ _ _ ih | interpolation _ ih | partialTag _ ih =>
    exact ih ⟨hready.registered, hready.new⟩ ha
  | empty _ ih | comment _ ih => exact ih hready ha
  | @reused name start stop delimiters children ns a b is r hr _ ih =>
    obtain ⟨hmem, hkey, hin⟩ := Progress.mem_keys_of_find? hr
    rw [← hkey] at hin
    have hfound := hready.registered _ hin
    have hinside : ∀ c ∈ Instruction.allCalls r.body, c.routine.key ∈ found.map Routine.key :=
      fun c hc => hready.registered _ (List.mem_map_of_mem (ha r hmem c hc))
    rw [Instruction.routinesOf_reused hfound, Instruction.allCalls_callSection, List.cons_append,
      List.foldl_cons, CallSite.meet_of_mem hfound, List.foldl_append, foldl_meet_of_mem hinside]
    exact ih hready ha
  | @fresh name start stop delimiters children ns a b c body is hnone hbody hnone' hrest ihbody ih =>
    have hfound := hready.not_mem_of_fresh hrest hnone
    have hopen := hready.inside_fresh hrest hnone'
    obtain ⟨hcalls, hclosed⟩ := hbody.closed ha
    have hregistered : (b.register (Node.routine source start stop delimiters body)).Closed := by
      intro r hr d hd
      rcases List.mem_append.mp hr with hr | hr
      · exact List.mem_append_left _ (hclosed r hr d hd)
      · rw [List.mem_singleton.mp hr] at hd
        exact List.mem_append_left _ (hcalls d hd)
    rw [Instruction.routinesOf_fresh hfound, Instruction.allCalls_callSection, List.cons_append,
      List.foldl_cons, CallSite.meet_of_not_mem hfound, List.foldl_append, Node.routine_body,
      ← ihbody hopen ha]
    exact ih (hready.after (hbody.finds hopen).1.register) hregistered
  | @inverted name children ns a b c body is hbody hrest ihbody ih =>
    have hinside := hready.mono hrest.keys_subset
    rw [Instruction.routinesOf, Instruction.routinesOne, Instruction.allCalls, Instruction.allCallsOne,
      List.foldl_append, ← ihbody hinside ha]
    exact ih (hready.after (hbody.finds hinside).1) (hbody.closed ha).2

theorem Walks.keys_nodup (h : Walks source ns a is b) (ha : a.keys.Nodup) : b.keys.Nodup := by
  induction h with
  | nil a => exact ha
  | newline _ ih | empty _ ih | text _ _ _ ih | interpolation _ ih | reused _ _ ih | partialTag _ ih
  | comment _ ih => exact ih ha
  | fresh _ _ hnone' _ ihbody ih =>
    apply ih
    rw [Progress.keys_register, List.nodup_append_comm]
    exact List.nodup_cons.mpr ⟨Progress.not_mem_keys_of_find? hnone', ihbody ha⟩
  | inverted _ _ ihbody ih => exact ih (ihbody ha)

/-- The routines of a program are those that have been registered when its tree is compiled, each once, in
the order in which a walk over the instructions comes to them, whether it goes into the body of a routine
at the first call only or at every call. Each call in the program, however deep in the bodies of routines
and of inverted sections, is of the one listed routine with its key. -/
theorem routines_exact {source name : String} {tree : List Node} {p : Program} {events : List Event}
    (h : compile source tree name = .ok (p, events)) :
    ∃ s : Compilation, (compileNodes source.toList 1 tree).run .start = .ok (p.instructions, s) ∧
      p.routines.Perm s.registry.routines ∧ (p.routines.map Routine.key).Nodup ∧
      p.routines = CallSite.firstCalled p.calls ∧
      p.routines = CallSite.firstCalled (Instruction.allCalls p.instructions) ∧
      ∀ c ∈ Instruction.allCalls p.instructions, c.routine ∈ p.routines ∧
        ∀ r ∈ p.routines, r.key = c.routine.key → r = c.routine := by
  rw [compile, bind_eq_ok_iff] at h
  obtain ⟨⟨is, s⟩, hrun, h⟩ := h
  cases h
  have hwalk := Compilation.walks_of_compileNodes tree hrun
  have hready : Ready Compilation.start.progress s.progress [] :=
    ⟨fun _ h => absurd h List.not_mem_nil, fun _ _ h => absurd h List.not_mem_nil⟩
  have hclosed : Compilation.start.progress.Closed := fun _ h => absurd h List.not_mem_nil
  obtain ⟨⟨new, added, hnew, hadded, hperm⟩, horder⟩ := hwalk.finds hready
  have hlisted : (Program.routines ⟨name, is⟩).Perm s.registry.routines := by
    have hfound : Program.routines ⟨name, is⟩ = new := hnew
    have hregistered : s.registry.routines = added := hadded
    rwa [hfound, hregistered]
  have hnodup : ((Program.routines ⟨name, is⟩).map Routine.key).Nodup :=
    (hlisted.map Routine.key).nodup_iff.mpr (hwalk.keys_nodup List.nodup_nil)
  refine ⟨s, hrun, hlisted, hnodup, horder, hwalk.routinesOf_eq_foldl hready hclosed, fun c hc => ?_⟩
  have hmem : c.routine ∈ Program.routines ⟨name, is⟩ :=
    hlisted.mem_iff.mpr ((hwalk.closed hclosed).1 c hc)
  exact ⟨hmem, fun r hr hkey => List.inj_on_of_nodup_map hnodup hr hmem hkey⟩

def sharedInside : String := "{{#a}}{{#b}}x{{/b}}{{/a}}{{#c}}x{{/c}}"

def sharedInsideNodes : List Node :=
  [.sectionBlock "a" 6 19 .standard [.sectionBlock "b" 12 13 .standard [.text "x"]],
    .sectionBlock "c" 31 32 .standard [.text "x"]]

theorem routines_exact_nested_shared : ∃ p events,
    compile sharedInside sharedInsideNodes "nested" = .ok (p, events) ∧
    p.routines.map Routine.source = ["{{#b}}x{{/b}}", "x"] ∧
    (Instruction.allCalls p.instructions).map CallSite.name = ["a", "b", "c"] ∧
    ∀ c ∈ Instruction.allCalls p.instructions, c.routine ∈ p.routines := by
  have hcompile : (compile sharedInside sharedInsideNodes "nested").map (fun found =>
      (found.1.routines.map Routine.source, (Instruction.allCalls found.1.instructions).map CallSite.name)) =
      .ok (["{{#b}}x{{/b}}", "x"], ["a", "b", "c"]) := by
    decide +kernel
  obtain ⟨⟨p, events⟩, hok, hlists⟩ := map_eq_ok_iff.mp hcompile
  obtain ⟨hsources, hnames⟩ := Prod.mk.inj hlists
  obtain ⟨_, _, _, _, _, _, hcalls⟩ := routines_exact hok
  exact ⟨p, events, hok, hsources, hnames, fun c hc => (hcalls c hc).1⟩

end Mustache
