import Mustache.Proofs.Compile.Pruned
import Mustache.Proofs.Compile.Unnested

/-! # The calls of a program

Sections with the same key call one routine, but each has a call of its own. `Program.calls` lists them in
the order of the text: a routine's own calls stand after the first call of it. They are one by one the
calls of the sections that are compiled, each with the section's name, raw body and delimiters, because a
routine in the registry stands for the body that its key is the digest of.
-/
namespace Mustache

structure SectionSite where
  name : String
  start : Int
  stop : Int
  delimiters : Delimiters
  deriving DecidableEq, Repr

namespace SectionSite

def slice (source : List Char) (x : SectionSite) : List Char :=
  Text.slice source x.start x.stop

def key (source : List Char) (x : SectionSite) : String :=
  Node.bodyKey source x.start x.stop x.delimiters

end SectionSite

def Node.site? : Node → Option SectionSite
  | sectionBlock name start stop delimiters _ => some ⟨name, start, stop, delimiters⟩
  | text _ | interpolation _ _ | invertedBlock _ _ | partialTag _ _ | comment | foreign _ _ => none

def Node.sites (ns : List Node) : List SectionSite :=
  (subnodes ns).filterMap site?

section Sites

variable {name : String} {start stop : Int} {delimiters : Delimiters} {children ns : List Node}

theorem Node.sites_section : sites (sectionBlock name start stop delimiters children :: ns) =
    ⟨name, start, stop, delimiters⟩ :: sites children ++ sites ns := by
  simp [sites, subnodes, subnodesOne, site?, List.filterMap_append]

theorem Node.sites_inverted :
    sites (invertedBlock name children :: ns) = sites children ++ sites ns := by
  rw [sites, subnodes, subnodesOne, List.filterMap_append, List.filterMap_cons_none rfl]
  rfl

theorem Node.mem_sites {x : SectionSite} : x ∈ sites ns ↔
    ∃ children, sectionBlock x.name x.start x.stop x.delimiters children ∈ subnodes ns := by
  rw [sites, List.mem_filterMap]
  constructor
  · rintro ⟨n, hn, hx⟩
    cases n with
    | sectionBlock name start stop delimiters children =>
      cases hx
      exact ⟨children, hn⟩
    | _ => cases hx
  · rintro ⟨children, hn⟩
    exact ⟨_, hn, rfl⟩

end Sites

mutual

theorem Node.sites_prunedOne_sublist {source : List Char} : ∀ (n : Node) (keys : List String),
    (sites [(prunedOne source keys n).1]).Sublist (sites [n])
  | text _, _ | interpolation _ _, _ | partialTag _ _, _ | comment, _ | foreign _ _, _ => .refl _
  | sectionBlock name start stop delimiters children, keys => by
    by_cases hkey : bodyKey source start stop delimiters ∈ keys
    · rw [prunedOne_reused hkey, sites_section, sites_section]
      exact ((List.nil_sublist _).append (.refl _)).cons_cons _
    · rw [prunedOne_fresh hkey, sites_section, sites_section]
      exact ((sites_pruned_sublist children keys).append (.refl _)).cons_cons _
  | invertedBlock name children, keys => by
    rw [prunedOne_inverted, sites_inverted, sites_inverted]
    exact (sites_pruned_sublist children keys).append (.refl _)

theorem Node.sites_pruned_sublist {source : List Char} : ∀ (ns : List Node) (keys : List String),
    (sites (pruned source keys ns).1).Sublist (sites ns)
  | [], _ => .refl _
  | n :: ns, keys => by
    have hcons : ∀ (m : Node) (ms : List Node), sites (m :: ms) = sites [m] ++ sites ms := by
      intro m ms
      simp [sites, subnodes, List.filterMap_append]
    rw [pruned, hcons, hcons n]
    exact (sites_prunedOne_sublist n keys).append (sites_pruned_sublist ns _)

end

structure CallSite where
  routine : Routine Instruction
  lookup : Lookup
  name : String
  inline : Bool

namespace Instruction

mutual

/-- The calls of an instruction and of the routines called first in it; `keys` are those of the routines
called before, to which the others are added. -/
def callsOne (keys : List String) : Instruction → List CallSite × List String
  | callSection ⟨key, source, delimiters, body⟩ lookup name inline =>
    if key ∈ keys then ([⟨⟨key, source, delimiters, body⟩, lookup, name, inline⟩], keys)
    else
      let inside := calls keys body
      (⟨⟨key, source, delimiters, body⟩, lookup, name, inline⟩ :: inside.1, inside.2 ++ [key])
  | callInverted _ _ body => calls keys body
  | literal _ _ | interpolate _ _ _ _ | callPartial _ _ _ => ([], keys)

def calls (keys : List String) : List Instruction → List CallSite × List String
  | [] => ([], keys)
  | i :: is =>
    let first := callsOne keys i
    let rest := calls first.2 is
    (first.1 ++ rest.1, rest.2)

end

mutual

def allCallsOne : Instruction → List CallSite
  | callSection ⟨key, source, delimiters, body⟩ lookup name inline =>
    ⟨⟨key, source, delimiters, body⟩, lookup, name, inline⟩ :: allCalls body
  | callInverted _ _ body => allCalls body
  | literal _ _ | interpolate _ _ _ _ | callPartial _ _ _ => []

def allCalls : List Instruction → List CallSite
  | [] => []
  | i :: is => allCallsOne i ++ allCalls is

end

variable {keys : List String} {r : Routine Instruction} {lookup : Lookup} {name : String} {inline : Bool}
  {is : List Instruction}

theorem calls_reused (h : r.key ∈ keys) : calls keys (.callSection r lookup name inline :: is) =
    (⟨r, lookup, name, inline⟩ :: (calls keys is).1, (calls keys is).2) := by
  rw [calls, callsOne, if_pos h]
  rfl

theorem calls_fresh (h : r.key ∉ keys) {inside : List CallSite × List String}
    (hinside : calls keys r.body = inside) : calls keys (.callSection r lookup name inline :: is) =
    (⟨r, lookup, name, inline⟩ :: inside.1 ++ (calls (inside.2 ++ [r.key]) is).1,
      (calls (inside.2 ++ [r.key]) is).2) := by
  rw [calls, callsOne, if_neg h, hinside]

theorem allCalls_callSection : allCalls (.callSection r lookup name inline :: is) =
    ⟨r, lookup, name, inline⟩ :: allCalls r.body ++ allCalls is := by
  rw [allCalls, allCallsOne]

end Instruction

/-- The calls of a program, those in a routine's body once, after the first call of it. -/
def Program.calls (p : Program) : List CallSite :=
  (Instruction.calls [] p.instructions).1

/-- A call is a section's own: it looks up the section's name the way that name asks for and hands on the
section's raw body and delimiters under its key. -/
def CallSite.IsOf (source : List Char) (x : SectionSite) (c : CallSite) : Prop :=
  c.name = x.name ∧ c.lookup = .ofName x.name ∧ c.routine.key = x.key source ∧
    c.routine.source = String.ofList (x.slice source) ∧ c.routine.delimiters = x.delimiters.tag

def Registered (source : List Char) (tree : List Node) (routines : List (Routine Instruction)) : Prop :=
  ∀ r ∈ routines, ∃ name start stop delimiters children,
    Node.sectionBlock name start stop delimiters children ∈ Node.subnodes tree ∧
      r = Node.routine source start stop delimiters r.body

section Walks

variable {source : List Char} {tree ns : List Node} {a b : Progress} {is : List Instruction}

@[simp] theorem Node.routine_body (source : List Char) (start stop : Int) (delimiters : Delimiters)
    (body : List Instruction) : (routine source start stop delimiters body).body = body := rfl

theorem Registered.register (ha : Registered source tree a.routines) {name : String} {start stop : Int}
    {delimiters : Delimiters} {children : List Node}
    (hmem : Node.sectionBlock name start stop delimiters children ∈ Node.subnodes tree)
    (body : List Instruction) :
    Registered source tree (a.register (Node.routine source start stop delimiters body)).routines := by
  intro r hr
  rcases List.mem_append.mp hr with hr | hr
  · exact ha r hr
  · rw [List.mem_singleton.mp hr]
    exact ⟨name, start, stop, delimiters, children, hmem, rfl⟩

theorem Walks.registered (h : Walks source ns a is b)
    (hnodes : ∀ n ∈ Node.subnodes ns, n ∈ Node.subnodes tree)
    (ha : Registered source tree a.routines) : Registered source tree b.routines := by
  induction h with
  | nil a => exact ha
  | newline _ ih | empty _ ih | text _ _ _ ih | interpolation _ ih | reused _ _ ih | partialTag _ ih
  | comment _ ih => exact ih (fun m hm => hnodes m (List.mem_append_right _ hm)) ha
  | @fresh name start stop delimiters children ns a b c body is _ _ _ _ ihbody ih =>
    have hsection := hnodes _ (List.mem_append_left _ List.mem_cons_self)
    have hb := ihbody (fun m hm => hnodes m (List.mem_append_left _ (List.mem_cons_of_mem _ hm))) ha
    exact ih (fun m hm => hnodes m (List.mem_append_right _ hm)) (hb.register hsection body)
  | inverted _ _ ihbody ih =>
    exact ih (fun m hm => hnodes m (List.mem_append_right _ hm))
      (ihbody (fun m hm => hnodes m (List.mem_append_left _ (List.mem_cons_of_mem _ hm))) ha)

/-- Keys tell the raw bodies and the delimiters of sections. -/
def KeysTell (source : List Char) (tree : List Node) : Prop :=
  ∀ name start stop delimiters children name' start' stop' delimiters' children',
    Node.sectionBlock name start stop delimiters children ∈ Node.subnodes tree →
    Node.sectionBlock name' start' stop' delimiters' children' ∈ Node.subnodes tree →
    (Node.bodyKey source start stop delimiters = Node.bodyKey source start' stop' delimiters' ↔
      delimiters = delimiters' ∧ Text.slice source start stop = Text.slice source start' stop')

theorem Walks.keys_calls (h : Walks source ns a is b) : (Instruction.calls a.keys is).2 = b.keys := by
  induction h with
  | nil a => rfl
  | newline _ ih | empty _ ih | text _ _ _ ih | interpolation _ ih | partialTag _ ih | comment _ ih =>
    exact ih
  | reused hr _ ih =>
    obtain ⟨-, hkey, hin⟩ := Progress.mem_keys_of_find? hr
    rw [Instruction.calls_reused (hkey.symm ▸ hin)]
    exact ih
  | @fresh name start stop delimiters children ns a b c body is hnone _ _ _ ihbody ih =>
    have hnew : (Node.routine source start stop delimiters body).key ∉ a.keys :=
      Progress.not_mem_keys_of_find? hnone
    rw [Progress.keys_register] at ih
    rw [Instruction.calls_fresh hnew rfl, Node.routine_body, ihbody]
    exact ih
  | inverted _ _ ihbody ih =>
    rw [Instruction.calls, Instruction.callsOne, ihbody]
    exact ih

theorem CallSite.isOf_routine (source : List Char) (name : String) (start stop : Int)
    (delimiters : Delimiters) (body : List Instruction) (inline : Bool) :
    CallSite.IsOf source ⟨name, start, stop, delimiters⟩
      ⟨Node.routine source start stop delimiters body, .ofName name, name, inline⟩ :=
  ⟨rfl, rfl, rfl, rfl, rfl⟩

theorem Registered.isOf {routines : List (Routine Instruction)} (ha : Registered source tree routines)
    (htell : KeysTell source tree) {name : String} {start stop : Int} {delimiters : Delimiters}
    {children : List Node} {r : Routine Instruction}
    (hmem : Node.sectionBlock name start stop delimiters children ∈ Node.subnodes tree)
    (hr : r ∈ routines) (hkey : r.key = Node.bodyKey source start stop delimiters) (inline : Bool) :
    CallSite.IsOf source ⟨name, start, stop, delimiters⟩ ⟨r, .ofName name, name, inline⟩ := by
  obtain ⟨name', start', stop', delimiters', children', hmem', hroutine⟩ := ha r hr
  have hsame : Node.bodyKey source start' stop' delimiters' = Node.bodyKey source start stop delimiters := by
    rw [← hkey, hroutine, Node.routine]
  obtain ⟨rfl, hslice⟩ := (htell _ _ _ _ _ _ _ _ _ _ hmem' hmem).mp hsame
  rw [hroutine, Node.routine, hsame, hslice]
  exact CallSite.isOf_routine source name start stop delimiters' r.body inline

theorem Walks.exists_sites (h : Walks source ns a is b) (htell : KeysTell source tree)
    (hnodes : ∀ n ∈ Node.subnodes ns, n ∈ Node.subnodes tree)
    (ha : Registered source tree a.routines) :
    ∃ sites : List (SectionSite × CallSite),
      sites.map Prod.fst = Node.sites (Node.pruned source a.keys ns).1 ∧
      sites.map Prod.snd = (Instruction.calls a.keys is).1 ∧
      ∀ x ∈ sites, x.2.IsOf source x.1 := by
  induction h with
  | nil a => exact ⟨[], rfl, rfl, nofun⟩
  | newline _ ih | empty _ ih | text _ _ _ ih | interpolation _ ih | partialTag _ ih | comment _ ih =>
    exact ih (fun m hm => hnodes m (List.mem_append_right _ hm)) ha
  | @reused name start stop delimiters children ns a b is r hr _ ih =>
    obtain ⟨sites, hsites, hcalls, hof⟩ := ih (fun m hm => hnodes m (List.mem_append_right _ hm)) ha
    obtain ⟨hmem, hkey, hin⟩ := Progress.mem_keys_of_find? hr
    have hsection := hnodes _ (List.mem_append_left _ List.mem_cons_self)
    -- The routine was registered for another section, whose raw body and delimiters the key tells.
    refine ⟨(⟨name, start, stop, delimiters⟩, ⟨r, .ofName name, name, !a.line.isPending⟩) :: sites,
      ?_, ?_, ?_⟩
    · rw [Node.pruned, Node.prunedOne_reused hin, Node.sites_section, List.map_cons, hsites]
      rfl
    · rw [Instruction.calls_reused (hkey.symm ▸ hin), List.map_cons, hcalls]
    · exact List.forall_mem_cons.mpr ⟨ha.isOf htell hsection hmem hkey _, hof⟩
  | @fresh name start stop delimiters children ns a b c body is hnone hbody _ _ ihbody ih =>
    have hinside : ∀ m ∈ Node.subnodes children, m ∈ Node.subnodes tree :=
      fun m hm => hnodes m (List.mem_append_left _ (List.mem_cons_of_mem _ hm))
    have hsection := hnodes _ (List.mem_append_left _ List.mem_cons_self)
    obtain ⟨inner, hinner, hcallsInner, hofInner⟩ := ihbody hinside ha
    obtain ⟨sites, hsites, hcalls, hof⟩ := ih (fun m hm => hnodes m (List.mem_append_right _ hm))
      ((hbody.registered hinside ha).register hsection body)
    have hnew := Progress.not_mem_keys_of_find? hnone
    rw [Progress.keys_register] at hsites hcalls
    refine ⟨(⟨name, start, stop, delimiters⟩, ⟨Node.routine source start stop delimiters body,
      .ofName name, name, !a.line.isPending⟩) :: inner ++ sites, ?_, ?_, ?_⟩
    · rw [Node.pruned, Node.prunedOne_fresh hnew, Node.sites_section, hbody.keys_pruned,
        List.map_append, List.map_cons, hinner, hsites]
      rfl
    · rw [Instruction.calls_fresh hnew rfl, List.map_append, List.map_cons, hcallsInner, hcalls,
        ← hbody.keys_calls]
      rfl
    · exact List.forall_mem_append.mpr ⟨List.forall_mem_cons.mpr
        ⟨CallSite.isOf_routine source name start stop delimiters body _, hofInner⟩, hof⟩
  | @inverted name children ns a b c body is hbody _ ihbody ih =>
    have hinside : ∀ m ∈ Node.subnodes children, m ∈ Node.subnodes tree :=
      fun m hm => hnodes m (List.mem_append_left _ (List.mem_cons_of_mem _ hm))
    obtain ⟨inner, hinner, hcallsInner, hofInner⟩ := ihbody hinside ha
    obtain ⟨sites, hsites, hcalls, hof⟩ := ih (fun m hm => hnodes m (List.mem_append_right _ hm))
      (hbody.registered hinside ha)
    refine ⟨inner ++ sites, ?_, ?_, List.forall_mem_append.mpr ⟨hofInner, hof⟩⟩
    · rw [Node.pruned, Node.prunedOne_inverted, hbody.keys_pruned, Node.sites_inverted, List.map_append, hinner,
        hsites]
    · rw [Instruction.calls, Instruction.callsOne, hbody.keys_calls, List.map_append, hcallsInner, hcalls]

/-- Wherever a call stands, it is one of those listed, if the routines before have only such calls. -/
theorem Walks.allCalls_listed (h : Walks source ns a is b) {listed : CallSite → Prop}
    (ha : ∀ r ∈ a.routines, ∀ c ∈ Instruction.allCalls r.body, listed c)
    (hcalls : ∀ c ∈ (Instruction.calls a.keys is).1, listed c) :
    (∀ c ∈ Instruction.allCalls is, listed c) ∧
      ∀ r ∈ b.routines, ∀ c ∈ Instruction.allCalls r.body, listed c := by
  induction h with
  | nil a => exact ⟨nofun, ha⟩
  | newline _ ih | text _ _ _ ih | interpolation _ ih | partialTag _ ih => exact ih ha hcalls
  | empty _ ih | comment _ ih => exact ih ha hcalls
  | reused hr _ ih =>
    obtain ⟨hmem, hkey, hin⟩ := Progress.mem_keys_of_find? hr
    rw [Instruction.calls_reused (hkey.symm ▸ hin)] at hcalls
    obtain ⟨hfirst, hcalls⟩ := List.forall_mem_cons.mp hcalls
    obtain ⟨hrest, hb⟩ := ih ha hcalls
    refine ⟨?_, hb⟩
    rw [Instruction.allCalls_callSection]
    exact List.forall_mem_append.mpr ⟨List.forall_mem_cons.mpr ⟨hfirst, ha _ hmem⟩, hrest⟩
  | @fresh name start stop delimiters children ns a b c body is hnone hbody _ _ ihbody ih =>
    have hnew : (Node.routine source start stop delimiters body).key ∉ a.keys :=
      Progress.not_mem_keys_of_find? hnone
    rw [Instruction.calls_fresh hnew rfl, Node.routine_body, hbody.keys_calls] at hcalls
    obtain ⟨hinside, hcalls⟩ := List.forall_mem_append.mp hcalls
    obtain ⟨hfirst, hinside⟩ := List.forall_mem_cons.mp hinside
    obtain ⟨hbodyCalls, hb⟩ := ihbody ha hinside
    -- Later calls of the routine bring in no calls but those of its body, which have been listed here.
    have hregistered : ∀ r ∈ (b.register (Node.routine source start stop delimiters body)).routines,
        ∀ c ∈ Instruction.allCalls r.body, listed c := by
      intro r hr
      rcases List.mem_append.mp hr with hr | hr
      · exact hb r hr
      · rw [List.mem_singleton.mp hr]
        exact hbodyCalls
    rw [← Progress.keys_register] at hcalls
    obtain ⟨hrest, hc⟩ := ih hregistered hcalls
    refine ⟨?_, hc⟩
    rw [Instruction.allCalls_callSection]
    exact List.forall_mem_append.mpr ⟨List.forall_mem_cons.mpr ⟨hfirst, hbodyCalls⟩, hrest⟩
  | @inverted name children ns a b c body is hbody _ ihbody ih =>
    rw [Instruction.calls, Instruction.callsOne] at hcalls
    obtain ⟨hinside, hcalls⟩ := List.forall_mem_append.mp hcalls
    obtain ⟨hbodyCalls, hb⟩ := ihbody ha hinside
    rw [hbody.keys_calls] at hcalls
    obtain ⟨hrest, hc⟩ := ih hb hcalls
    exact ⟨List.forall_mem_append.mpr ⟨hbodyCalls, hrest⟩, hc⟩

end Walks

theorem keysTell_of_digestsApart {source : String} {tokens : List Token} {tree : List Node}
    (hscan : scan source = .ok tokens) (htree : Forest tokens tree)
    (hdigests : DigestsApart source.toList tree) : KeysTell source.toList tree := by
  intro name start stop delimiters children name' start' stop' delimiters' children' hmem hmem'
  constructor
  · intro hkey
    have hpayload := hdigests _ _ _ _ _ _ _ _ _ _ hmem hmem' hkey
    obtain ⟨hraw, hdelimiters⟩ := sectionPayload_inj (wellFormed_of_section hscan htree hmem)
      (wellFormed_of_section hscan htree hmem') hpayload
    exact ⟨hdelimiters, String.ofList_inj.mp hraw⟩
  · rintro ⟨rfl, hslice⟩
    rw [Node.bodyKey, Node.bodyKey, hslice]

/-- If digests tell the section bodies of a text apart, the text has a program, and the calls in it
belong one by one to the sections that are compiled. Each has its own section's name, raw body and
delimiters, and two of them call the same routine exactly if their sections have the same delimiters and
the same raw body. -/
theorem call_sites_exact {source : String} {tree : List Node} (hparse : parse source = .ok tree)
    (hdigests : DigestsApart source.toList tree) (label : Option String) :
    ∃ events p, compileText source label = (events, .ok p) ∧
      (∀ c ∈ Instruction.allCalls p.instructions, c ∈ p.calls) ∧
      ∃ sites : List (SectionSite × CallSite),
        sites.map Prod.fst = Node.sites (Node.pruned source.toList [] tree).1 ∧
        sites.map Prod.snd = p.calls ∧
        ∀ x ∈ sites, x.2.IsOf source.toList x.1 ∧ ∀ y ∈ sites,
          (x.2.routine.key = y.2.routine.key ↔
            x.1.delimiters = y.1.delimiters ∧ x.1.slice source.toList = y.1.slice source.toList) := by
  obtain ⟨name, hcompileText⟩ := exists_compileText hparse label
  obtain ⟨p, events, hcompile⟩ := exists_compile_of_parse name hparse hdigests
  obtain ⟨tokens, hscan, htree⟩ := exists_forest_of_parse hparse
  have htell := keysTell_of_digestsApart hscan htree hdigests
  obtain ⟨-, b, hwalk⟩ := walks_of_compile hcompile
  have hnone : ∀ r ∈ Progress.start.routines, ∀ c ∈ Instruction.allCalls r.body, c ∈ p.calls := nofun
  obtain ⟨sites, hsites, hcalls, hof⟩ := hwalk.exists_sites htell (fun _ hn => hn) nofun
  refine ⟨events, p, hcompileText p events hcompile, (hwalk.allCalls_listed hnone fun _ hc => hc).1,
    sites, hsites, hcalls, fun x hx => ⟨hof x hx, fun y hy => ?_⟩⟩
  have hin : ∀ z ∈ sites, z.1 ∈ Node.sites tree := by
    intro z hz
    apply (Node.sites_pruned_sublist tree []).subset
    rw [← Progress.keys_start, ← hsites]
    exact List.mem_map_of_mem hz
  obtain ⟨children, hmem⟩ := Node.mem_sites.mp (hin x hx)
  obtain ⟨children', hmem'⟩ := Node.mem_sites.mp (hin y hy)
  rw [(hof x hx).2.2.1, (hof y hy).2.2.1]
  exact htell _ _ _ _ _ _ _ _ _ _ hmem hmem'

def threeSections : String := "{{#a}}x{{/a}}{{#b}}x{{/b}}{{#a}}y{{/a}}"

def threeSectionNodes : List Node :=
  [.sectionBlock "a" 6 7 .standard [.text "x"], .sectionBlock "b" 19 20 .standard [.text "x"],
    .sectionBlock "a" 32 33 .standard [.text "y"]]

theorem call_sites_exact_three_sections : ∃ events p c c' c'',
    compileText threeSections (some "three") = (events, .ok p) ∧
    p.calls = [c, c', c''] ∧ [c.name, c'.name, c''.name] = ["a", "b", "a"] ∧
    [c.routine.source, c'.routine.source, c''.routine.source] = ["x", "x", "y"] ∧
    c.routine.key = c'.routine.key ∧ c'.routine.key ≠ c''.routine.key := by
  have hscan : scan threeSections =
      .ok [⟨.sectionStart, "a", 1, 0, 6, .standard, ""⟩, ⟨.text, "x", 1, 6, 7, .standard, ""⟩,
        ⟨.sectionEnd, "a", 1, 7, 13, .standard, ""⟩, ⟨.sectionStart, "b", 1, 13, 19, .standard, ""⟩,
        ⟨.text, "x", 1, 19, 20, .standard, ""⟩, ⟨.sectionEnd, "b", 1, 20, 26, .standard, ""⟩,
        ⟨.sectionStart, "a", 1, 26, 32, .standard, ""⟩, ⟨.text, "y", 1, 32, 33, .standard, ""⟩,
        ⟨.sectionEnd, "a", 1, 33, 39, .standard, ""⟩] := by
    decide +kernel
  have hparse : parse threeSections = .ok threeSectionNodes := by
    rw [parse, hscan]
    rfl
  have hsites : Node.sites (Node.pruned threeSections.toList [] threeSectionNodes).1 =
      [⟨"a", 6, 7, .standard⟩, ⟨"b", 19, 20, .standard⟩, ⟨"a", 32, 33, .standard⟩] := by
    decide +kernel
  have hdigests : DigestsApart threeSections.toList threeSectionNodes := by
    have hpayload : ∀ name start stop delimiters children,
        Node.sectionBlock name start stop delimiters children ∈ Node.subnodes threeSectionNodes →
        Node.bodyPayload threeSections.toList start stop delimiters ∈ ["\nx", "\ny"] := by
      intro name start stop delimiters children h
      simp only [threeSectionNodes, Node.subnodes, Node.subnodesOne, List.cons_append, List.nil_append,
        List.mem_cons, Node.sectionBlock.injEq, List.not_mem_nil, reduceCtorEq, or_false, false_or] at h
      rcases h with ⟨-, rfl, rfl, rfl, -⟩ | ⟨-, rfl, rfl, rfl, -⟩ | ⟨-, rfl, rfl, rfl, -⟩
      all_goals decide +kernel
    have hapart : ∀ x ∈ ["\nx", "\ny"], ∀ y ∈ ["\nx", "\ny"],
        Digest.Md5.hex x = Digest.Md5.hex y → x = y := by
      decide +kernel
    exact fun _ _ _ _ _ _ _ _ _ _ h h' => hapart _ (hpayload _ _ _ _ _ h) _ (hpayload _ _ _ _ _ h')
  obtain ⟨events, p, hcompile, -, sites, hfst, hsnd, hof⟩ :=
    call_sites_exact hparse hdigests (some "three")
  rw [hsites] at hfst
  obtain ⟨⟨x, c⟩, rest, rfl, hx, hrest⟩ := List.map_eq_cons_iff.mp hfst
  obtain ⟨⟨x', c'⟩, rest, rfl, hx', hrest⟩ := List.map_eq_cons_iff.mp hrest
  obtain ⟨⟨x'', c''⟩, rest, rfl, hx'', hrest⟩ := List.map_eq_cons_iff.mp hrest
  obtain rfl := List.map_eq_nil_iff.mp hrest
  subst hx hx' hx''
  obtain ⟨⟨hname, -, -, hsource, -⟩, hkeys⟩ := hof _ List.mem_cons_self
  obtain ⟨⟨hname', -, -, hsource', -⟩, hkeys'⟩ := hof _ (.tail _ List.mem_cons_self)
  obtain ⟨⟨hname'', -, -, hsource'', -⟩, -⟩ := hof _ (.tail _ (.tail _ List.mem_cons_self))
  have hsame := hkeys _ (.tail _ List.mem_cons_self)
  have hother := hkeys' _ (.tail _ (.tail _ List.mem_cons_self))
  dsimp only at hsource hsource' hsource'' hsame hother
  refine ⟨events, p, c, c', c'', hcompile, hsnd.symm, ?_, ?_, hsame.mpr (by decide +kernel), ?_⟩
  · rw [hname, hname', hname'']
  · rw [hsource, hsource', hsource'']
    decide +kernel
  · exact fun h => absurd (hother.mp h) (by decide +kernel)

end Mustache
