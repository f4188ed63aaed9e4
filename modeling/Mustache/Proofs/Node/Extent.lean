import Mathlib.Data.List.Forall2
import Mustache.Proofs.Node.Forest
import Mustache.Proofs.Token.Coverage

/-! # Where sections stand

A section runs from its opening tag to the closing tag that matches it, with its raw body between them.
The tokens of a text stand one after another, so its sections are laid out in the text as they are in the
tree: those of one level one after another, and those inside a section between its two tags.
-/
namespace Mustache

namespace Node

def children : Node → List Node
  | sectionBlock _ _ _ _ children | invertedBlock _ children => children
  | text _ | interpolation _ _ | partialTag _ _ | comment | foreign _ _ => []

def Siblings (tree ns : List Node) : Prop :=
  ns = tree ∨ ∃ n ∈ subnodes tree, ns = n.children

theorem subnodesOne_of_not_isLeaf {n : Node} (h : n.isLeaf = false) :
    subnodesOne n = n :: subnodes n.children := by
  cases n <;> simp_all [isLeaf, subnodesOne, children]

theorem children_of_isLeaf {n : Node} (h : n.isLeaf = true) : n.children = [] := by
  cases n <;> simp_all [isLeaf, children]

/-- A node is the section between two tags that match. -/
def IsBetween (tokens : List Token) (o c : Token) (n : Node) : Prop :=
  ∃ before body after inside, tokens = before ++ o :: (body ++ c :: after) ∧ o.Opens ∧
    c.kind = .sectionEnd ∧ o.value = c.value ∧ Forest body inside ∧
    n = TreeBuilder.closeSection ⟨o, inside⟩ c

end Node

@[simp] theorem TreeBuilder.children_closeSection (o c : Token) (ns : List Node) :
    (closeSection ⟨o, ns⟩ c).children = ns := by
  unfold closeSection
  split <;> rfl

@[simp] theorem TreeBuilder.isLeaf_closeSection (s : OpenSection) (c : Token) :
    (closeSection s c).isLeaf = false := by
  unfold closeSection
  split <;> rfl

/-- The sections among nodes take up places of the text one after another, each with the sections inside
it between its tags. -/
inductive LaidOut (tokens : List Token) : Nat → List Node → Nat → Prop
  | nil {first last : Nat} : first ≤ last → LaidOut tokens first [] last
  | leaf {first last : Nat} {n : Node} {ns : List Node} :
      n.isLeaf = true → LaidOut tokens first ns last → LaidOut tokens first (n :: ns) last
  | block {first last : Nat} {o c : Token} {n : Node} {ns : List Node} :
      n.IsBetween tokens o c → n.isLeaf = false → first ≤ o.start → o.start < o.stop →
      LaidOut tokens o.stop n.children c.start → c.start < c.stop → LaidOut tokens c.stop ns last →
      LaidOut tokens first (n :: ns) last

variable {source : List Char} {raw tokens ts before after : List Token} {tree ns : List Node} {n : Node}
  {o c : Token} {first last : Nat}

theorem Forest.laidOut (h : Forest ts ns) (hlt : ∀ t ∈ tokens, t.start < t.stop)
    (hpairs : tokens.Pairwise fun t u => t.stop ≤ u.start) (htokens : tokens = before ++ (ts ++ after))
    (hts : ∀ t ∈ ts, first ≤ t.start ∧ t.stop ≤ last) (hle : first ≤ last) :
    LaidOut tokens first ns last := by
  induction h generalizing before after first last with
  | nil => exact .nil hle
  | @leaf t n ts ns hn _ ih =>
    have hrest := @ih (before ++ [t]) after first last (by simp [htokens])
    exact .leaf (isLeaf_of_leaf? hn) (hrest (fun u hu => hts u (by simp [hu])) hle)
  | @skip t ts ns _ _ ih =>
    have hrest := @ih (before ++ [t]) after first last (by simp [htokens])
    exact hrest (fun u hu => hts u (by simp [hu])) hle
  | @block o c body ts children ns ho hc hv hbody _ ihbody ih =>
    have ho' := hts o (by simp)
    have hc' := hts c (by simp)
    have hopen := hlt o (by simp [htokens])
    have hclose := hlt c (by simp [htokens])
    have horder := hpairs
    simp only [htokens, List.cons_append, List.append_assoc, List.pairwise_append, List.pairwise_cons,
      List.mem_append, List.mem_cons] at horder
    obtain ⟨-, ⟨hafter, -, ⟨hrest, -⟩, hinside⟩, -⟩ := horder
    have hbetween : (TreeBuilder.closeSection ⟨o, children⟩ c).IsBetween tokens o c :=
      ⟨before, body, ts ++ after, children, by simp [htokens], ho, hc, hv, hbody, rfl⟩
    refine .block hbetween (by simp) ho'.1 hopen ?_ hclose ?_
    · rw [TreeBuilder.children_closeSection]
      refine @ihbody (before ++ [o]) (c :: (ts ++ after)) _ _ (by simp [htokens]) (fun t ht => ?_)
        (hafter c (by simp))
      exact ⟨hafter t (by simp [ht]), hinside t ht c (by simp)⟩
    · refine @ih (before ++ o :: (body ++ [c])) after _ _ (by simp [htokens]) (fun t ht => ?_) hc'.2
      exact ⟨hrest t (by simp [ht]), (hts t (by simp [ht])).2⟩

namespace LaidOut

theorem le (h : LaidOut tokens first ns last) : first ≤ last := by
  induction h with
  | nil hle => exact hle
  | leaf _ _ ih => exact ih
  | block _ _ _ _ _ _ _ ihinside ih => omega

theorem exists_tags (h : LaidOut tokens first ns last) (hn : n ∈ Node.subnodes ns)
    (hleaf : n.isLeaf = false) :
    ∃ o c, n.IsBetween tokens o c ∧ first ≤ o.start ∧ o.start < o.stop ∧
      LaidOut tokens o.stop n.children c.start ∧ c.start < c.stop ∧ c.stop ≤ last := by
  induction h with
  | nil => simp [Node.subnodes] at hn
  | leaf hm _ ih =>
    rw [Node.subnodes, Node.subnodesOne_of_isLeaf hm] at hn
    rcases List.mem_cons.mp hn with rfl | hn
    · simp [hm] at hleaf
    · exact ih hn
  | @block first last o c m ns hbetween hm hfirst hopen hinside hclose hrest ihinside ih =>
    have hle := hinside.le
    have hle' := hrest.le
    rw [Node.subnodes, Node.subnodesOne_of_not_isLeaf hm, List.cons_append, List.mem_cons,
      List.mem_append] at hn
    rcases hn with rfl | hn | hn
    · exact ⟨o, c, hbetween, hfirst, hopen, hinside, hclose, hle'⟩
    · obtain ⟨o', c', hbetween', hfirst', hopen', hinside', hclose', hlast'⟩ := ihinside hn
      exact ⟨o', c', hbetween', by omega, hopen', hinside', hclose', by omega⟩
    · obtain ⟨o', c', hbetween', hfirst', hopen', hinside', hclose', hlast'⟩ := ih hn
      exact ⟨o', c', hbetween', by omega, hopen', hinside', hclose', hlast'⟩

theorem exists_extents (h : LaidOut tokens first ns last) : ∃ extents : List (Token × Token),
    List.Forall₂ (fun n e => n.IsBetween tokens e.1 e.2) (ns.filter fun n => !n.isLeaf) extents ∧
    extents.Pairwise (fun e e' => e.2.stop ≤ e'.1.start) ∧ ∀ e ∈ extents, first ≤ e.1.start := by
  induction h with
  | nil => exact ⟨[], by simp⟩
  | leaf hm _ ih => simpa [hm] using ih
  | @block first last o c m ns hbetween hm hfirst hopen hinside hclose _ _ ih =>
    obtain ⟨extents, hforall, hpairs, hfrom⟩ := ih
    have hle := hinside.le
    refine ⟨(o, c) :: extents, ?_, hpairs.cons hfrom, fun e he => ?_⟩
    · simpa [hm] using ⟨hbetween, hforall⟩
    · rcases List.mem_cons.mp he with rfl | he
      · exact hfirst
      · have hlater := hfrom e he
        omega

theorem siblings (h : LaidOut tokens first tree last) (hns : Node.Siblings tree ns) :
    ∃ first last, LaidOut tokens first ns last := by
  rcases hns with rfl | ⟨n, hn, rfl⟩
  · exact ⟨_, _, h⟩
  · cases hleaf : n.isLeaf with
    | true =>
      rw [Node.children_of_isLeaf hleaf]
      exact ⟨0, 0, .nil (Nat.le_refl 0)⟩
    | false =>
      obtain ⟨o, c, -, -, -, hinside, -⟩ := h.exists_tags hn hleaf
      exact ⟨_, _, hinside⟩

end LaidOut

namespace Node.IsBetween

theorem mem_opening (h : n.IsBetween tokens o c) : o ∈ tokens := by
  obtain ⟨_, _, _, _, rfl, -⟩ := h
  simp

theorem mem_closing (h : n.IsBetween tokens o c) : c ∈ tokens := by
  obtain ⟨_, _, _, _, rfl, -⟩ := h
  simp

theorem offsets {name : String} {start stop : Int} {delimiters : Delimiters} {children : List Node}
    (h : (sectionBlock name start stop delimiters children).IsBetween tokens o c) :
    start = o.stop ∧ stop = c.start ∧ delimiters = o.delimiters := by
  obtain ⟨_, _, _, _, -, -, -, -, -, hn⟩ := h
  unfold TreeBuilder.closeSection at hn
  split at hn
  · cases hn
  · cases hn
    exact ⟨rfl, rfl, rfl⟩

end Node.IsBetween

structure SectionsNest (source : List Char) (tokens : List Token) (tree : List Node) : Prop where
  laidOut : LaidOut tokens 0 tree source.length
  /-- The offsets of a section are those between its tags: its opening tag ends with its closing delimiter
  before the body, the closing tag that matches starts with its own opening delimiter behind it, and all
  sections inside lie between, each with a shorter body. -/
  body : ∀ name start stop delimiters children,
    Node.sectionBlock name start stop delimiters children ∈ Node.subnodes tree →
    0 < start ∧ start ≤ stop ∧ stop < source.length ∧
    delimiters.closing.toList <:+ Text.slice source 0 start ∧
    ∃ o c, (Node.sectionBlock name start stop delimiters children).IsBetween tokens o c ∧
      start = o.stop ∧ stop = c.start ∧
      c.delimiters.opening.toList <+: Text.slice source stop source.length ∧
      ∀ n ∈ Node.subnodes children, n.isLeaf = false → ∃ o' c' : Token, n.IsBetween tokens o' c' ∧
        start ≤ o'.start ∧ o'.stop ≤ c'.start ∧ c'.stop ≤ stop ∧
        (c'.start - o'.stop : Int) < stop - start
  /-- Sections of one level do not overlap and come in the order of the text. -/
  siblings : ∀ ns, Node.Siblings tree ns → ∃ extents : List (Token × Token),
    List.Forall₂ (fun n e => n.IsBetween tokens e.1 e.2) (ns.filter fun n => !n.isLeaf) extents ∧
    extents.Pairwise fun e e' => e.2.stop ≤ e'.1.start

namespace Settled

theorem laidOut (hs : Settled source raw tokens) (h : Forest tokens tree) :
    LaidOut tokens 0 tree source.length := by
  have hall : tokens = [] ++ (tokens ++ []) := by simp
  exact h.laidOut (fun _ ht => hs.start_lt_stop ht) hs.pairwise_le hall
    (fun _ ht => ⟨Nat.zero_le _, (hs.writtenIn ht).inside⟩) (Nat.zero_le _)

theorem closing_suffix (hs : Settled source raw tokens) (ho : o ∈ tokens) (htag : o.kind.isTag = true) :
    o.delimiters.closing.toList <:+ Text.slice source 0 o.stop := by
  obtain ⟨hd, -, hclosing⟩ := (hs.writtenIn ho).tag_spec htag
  have hzero : Text.slice source 0 o.stop = source.take o.stop := by
    simpa using Text.slice_natCast source 0 o.stop
  rw [Text.slice_natCast] at hclosing
  rw [hzero, hd]
  exact hclosing.trans (List.drop_suffix _ _)

theorem opening_prefix (hs : Settled source raw tokens) (hc : c ∈ tokens) (htag : c.kind.isTag = true) :
    c.delimiters.opening.toList <+: Text.slice source c.start source.length := by
  obtain ⟨hd, hopening, -⟩ := (hs.writtenIn hc).tag_spec htag
  rw [Text.slice_natCast, List.drop_take] at hopening
  rw [Text.slice_natCast, List.take_length, hd]
  exact hopening.trans (List.take_prefix _ _)

end Settled

theorem sections_nest {source : String} {tree : List Node} (hparse : parse source = .ok tree) :
    ∃ tokens, scan source = .ok tokens ∧ SectionsNest source.toList tokens tree := by
  obtain ⟨tokens, hscan, htree⟩ := exists_forest_of_parse hparse
  obtain ⟨raw, -, hs⟩ := settled_of_scan hscan
  have hlaid := hs.laidOut htree
  refine ⟨tokens, hscan, hlaid, fun name start stop delimiters children hmem => ?_, fun ns hns => ?_⟩
  · obtain ⟨o, c, hbetween, -, hopen, hinside, hclose, hlast⟩ := hlaid.exists_tags hmem rfl
    obtain ⟨rfl, rfl, rfl⟩ := hbetween.offsets
    have hle := hinside.le
    obtain ⟨_, _, _, _, -, hopens, hend, -⟩ := id hbetween
    have hotag : o.kind.isTag = true := by rcases hopens with h | h <;> simp [h, TokenKind.isTag]
    have hctag : c.kind.isTag = true := by simp [hend, TokenKind.isTag]
    refine ⟨by omega, by omega, by omega, hs.closing_suffix hbetween.mem_opening hotag, o, c, hbetween,
      rfl, rfl, hs.opening_prefix hbetween.mem_closing hctag, fun n hn hleaf => ?_⟩
    obtain ⟨o', c', hbetween', hfirst, hopen', hinside', hclose', hlast'⟩ := hinside.exists_tags hn hleaf
    have hle' := hinside'.le
    exact ⟨o', c', hbetween', by omega, hle', by omega, by omega⟩
  · obtain ⟨first, last, hlevel⟩ := hlaid.siblings hns
    obtain ⟨extents, hforall, hpairs, -⟩ := hlevel.exists_extents
    exact ⟨extents, hforall, hpairs⟩

def retagged : String := "{{#a}}{{=<% %>=}}<%#b%>x<%/b%><%/a%>"

theorem sections_nest_inside : ∃ tokens, scan retagged = .ok tokens ∧
    SectionsNest retagged.toList tokens
      [.sectionBlock "a" 6 30 .standard [.sectionBlock "b" 23 24 ⟨"<%", "%>"⟩ [.text "x"]]] := by
  have hscan : scan retagged =
      .ok [⟨.sectionStart, "a", 1, 0, 6, .standard, ""⟩, ⟨.delimiterTag, "<% %>", 1, 6, 17, .standard, ""⟩,
        ⟨.sectionStart, "b", 1, 17, 23, ⟨"<%", "%>"⟩, ""⟩, ⟨.text, "x", 1, 23, 24, .standard, ""⟩,
        ⟨.sectionEnd, "b", 1, 24, 30, ⟨"<%", "%>"⟩, ""⟩, ⟨.sectionEnd, "a", 1, 30, 36, ⟨"<%", "%>"⟩, ""⟩] := by
    decide +kernel
  apply sections_nest
  rw [parse, hscan]
  rfl

end Mustache
