import Mustache.Node.Parse
import Mustache.Proofs.Node.Subnodes
import Mustache.Proofs.Token.Local

/-! # The trees of lists of tokens

`Forest` says which nodes a list of tokens stands for: tags of sections in pairs around the tokens of
their children, every other token by itself. Building a tree one token at a time finds exactly these
nodes.
-/
namespace Mustache

def Token.leaf? (t : Token) : Option Node :=
  match t.kind with
  | .text | .newline => some (.text t.value)
  | .escaped => some (.interpolation t.value true)
  | .unescaped => some (.interpolation t.value false)
  | .partialTag => some (.partialTag t.value t.indent)
  | .comment => some .comment
  | .sectionStart | .invertedStart | .sectionEnd | .delimiterTag => none

def Token.Opens (t : Token) : Prop :=
  t.kind = .sectionStart ∨ t.kind = .invertedStart

/-- The nodes that tokens stand for. -/
inductive Forest : List Token → List Node → Prop
  | nil : Forest [] []
  | leaf {t : Token} {n : Node} {ts : List Token} {ns : List Node} :
      t.leaf? = some n → Forest ts ns → Forest (t :: ts) (n :: ns)
  | skip {t : Token} {ts : List Token} {ns : List Node} :
      t.kind = .delimiterTag → Forest ts ns → Forest (t :: ts) ns
  | block {o c : Token} {body ts : List Token} {children ns : List Node} :
      o.Opens → c.kind = .sectionEnd → o.value = c.value → Forest body children → Forest ts ns →
      Forest (o :: (body ++ c :: ts)) (TreeBuilder.closeSection ⟨o, children⟩ c :: ns)

namespace TreeBuilder

def addAll (b : TreeBuilder) (ns : List Node) : TreeBuilder :=
  match b.sections with
  | [] => { b with nodes := b.nodes ++ ns }
  | s :: outer => { b with sections := { s with nodes := s.nodes ++ ns } :: outer }

variable {b b' : TreeBuilder} {t : Token} {n : Node}

theorem addAll_nil (b : TreeBuilder) : b.addAll [] = b := by
  obtain ⟨nodes, sections⟩ := b
  cases sections with
  | nil => simp [addAll]
  | cons s outer => simp [addAll]

theorem addAll_cons (b : TreeBuilder) (n : Node) (ns : List Node) :
    b.addAll (n :: ns) = (b.add n).addAll ns := by
  obtain ⟨nodes, sections⟩ := b
  cases sections with
  | nil => simp [addAll, add]
  | cons s outer => simp [addAll, add]

theorem take_of_leaf? (h : t.leaf? = some n) (b : TreeBuilder) : b.take t = .ok (b.add n) := by
  unfold Token.leaf? at h
  unfold take
  cases hk : t.kind with
  | sectionStart | invertedStart | sectionEnd | delimiterTag =>
    rw [hk] at h
    cases h
  | _ =>
    rw [hk] at h
    cases h
    rfl

theorem take_of_delimiterTag (h : t.kind = .delimiterTag) (b : TreeBuilder) : b.take t = .ok b := by
  rw [take, h]

theorem take_of_opens (h : t.Opens) (b : TreeBuilder) :
    b.take t = .ok { b with sections := ⟨t, []⟩ :: b.sections } := by
  rcases h with h | h
  · rw [take, h]
  · rw [take, h]

theorem take_of_sectionEnd {c : Token} {s : OpenSection} {nodes : List Node}
    {outer : List OpenSection} (hc : c.kind = .sectionEnd) (hv : s.tag.value = c.value) :
    TreeBuilder.take ⟨nodes, s :: outer⟩ c = .ok (add ⟨nodes, outer⟩ (closeSection s c)) := by
  rw [take, hc]
  simp only [hv, if_true]

theorem foldlM_take_cons (h : b.take t = .ok b') (ts : List Token) :
    (t :: ts).foldlM take b = ts.foldlM take b' := by
  rw [List.foldlM_cons, h]
  rfl

theorem foldlM_take_append {ts : List Token} (h : ts.foldlM take b = .ok b') (us : List Token) :
    (ts ++ us).foldlM take b = us.foldlM take b' := by
  rw [List.foldlM_append, h]
  rfl

/-- A list of tokens taken so far, with the open sections among them. -/
inductive Builds : List Token → TreeBuilder → Prop
  | closed {ts : List Token} {ns : List Node} : Forest ts ns → Builds ts ⟨ns, []⟩
  | opened {ts body : List Token} {ns children : List Node} {sections : List OpenSection}
      {o : Token} : Builds ts ⟨ns, sections⟩ → o.Opens → Forest body children →
      Builds (ts ++ o :: body) ⟨ns, ⟨o, children⟩ :: sections⟩

end TreeBuilder

namespace Forest
open TreeBuilder

variable {ts us : List Token} {ns ms : List Node} {b b' : TreeBuilder} {t : Token}

theorem append (h : Forest ts ns) (h' : Forest us ms) : Forest (ts ++ us) (ns ++ ms) := by
  induction h with
  | nil => exact h'
  | leaf hn _ ih => exact .leaf hn ih
  | skip hk _ ih => exact .skip hk ih
  | @block o c body ts children ns ho hc hv hbody _ _ ih =>
    rw [List.cons_append, List.append_assoc, List.cons_append, List.cons_append]
    exact .block ho hc hv hbody ih

theorem foldlM_take (h : Forest ts ns) (b : TreeBuilder) : ts.foldlM take b = .ok (b.addAll ns) := by
  induction h generalizing b with
  | nil =>
    rw [addAll_nil]
    rfl
  | leaf hn _ ih =>
    rw [foldlM_take_cons (take_of_leaf? hn b), addAll_cons]
    exact ih _
  | skip hk _ ih =>
    rw [foldlM_take_cons (take_of_delimiterTag hk b)]
    exact ih b
  | @block o c body ts children ns ho hc hv _ _ ihbody ih =>
    have hopened : TreeBuilder.addAll ⟨b.nodes, ⟨o, []⟩ :: b.sections⟩ children =
        ⟨b.nodes, ⟨o, children⟩ :: b.sections⟩ := rfl
    have hclose := @take_of_sectionEnd c ⟨o, children⟩ b.nodes b.sections hc hv
    rw [foldlM_take_cons (take_of_opens ho b), foldlM_take_append (ihbody _), hopened,
      foldlM_take_cons hclose, addAll_cons]
    exact ih _

theorem ofTokens (h : Forest ts ns) : Node.ofTokens ts = .ok ns := by
  rw [Node.ofTokens, h.foldlM_take .empty]
  rfl

theorem unique (h : Forest ts ns) (h' : Forest ts ms) : ns = ms :=
  Except.ok.inj (h.ofTokens.symm.trans h'.ofTokens)

end Forest

namespace TreeBuilder

variable {ts us : List Token} {ns : List Node} {b b' : TreeBuilder} {t : Token}

theorem Builds.addAll (h : Builds ts b) (h' : Forest us ns) : Builds (ts ++ us) (b.addAll ns) := by
  cases h with
  | closed h => exact .closed (h.append h')
  | opened h ho hbody =>
    rw [List.append_assoc, List.cons_append]
    exact .opened h ho (hbody.append h')

theorem Builds.take (h : Builds ts b) (ht : b.take t = .ok b') : Builds (ts ++ [t]) b' := by
  cases hleaf : t.leaf? with
  | some n =>
    rw [take_of_leaf? hleaf] at ht
    have hadd := h.addAll (.leaf hleaf .nil)
    rw [addAll_cons, addAll_nil] at hadd
    rw [← Except.ok.inj ht]
    exact hadd
  | none =>
    cases hk : t.kind with
    | delimiterTag =>
      rw [take_of_delimiterTag hk] at ht
      have hadd := h.addAll (.skip hk .nil)
      rw [addAll_nil] at hadd
      rw [← Except.ok.inj ht]
      exact hadd
    | sectionStart =>
      rw [take_of_opens (Or.inl hk)] at ht
      rw [← Except.ok.inj ht]
      exact .opened h (Or.inl hk) .nil
    | invertedStart =>
      rw [take_of_opens (Or.inr hk)] at ht
      rw [← Except.ok.inj ht]
      exact .opened h (Or.inr hk) .nil
    | sectionEnd =>
      cases h with
      | closed h =>
        rw [TreeBuilder.take, hk] at ht
        cases ht
      | @opened ts body ns children sections o h ho hbody =>
        by_cases hv : o.value = t.value
        · rw [take_of_sectionEnd hk hv] at ht
          have hadd := h.addAll (.block ho hk hv hbody .nil)
          rw [addAll_cons, addAll_nil] at hadd
          rw [← Except.ok.inj ht, List.append_assoc]
          exact hadd
        · rw [TreeBuilder.take, hk] at ht
          simp only [hv, if_false] at ht
          cases ht
    | _ =>
      rw [Token.leaf?, hk] at hleaf
      cases hleaf

theorem Builds.foldlM_take (h : Builds ts b) (hus : us.foldlM TreeBuilder.take b = .ok b') :
    Builds (ts ++ us) b' := by
  induction us generalizing ts b with
  | nil =>
    rw [List.append_nil, ← Except.ok.inj hus]
    exact h
  | cons t us ih =>
    rw [List.foldlM_cons] at hus
    cases ht : b.take t with
    | error e =>
      rw [ht] at hus
      cases hus
    | ok b₁ =>
      rw [ht] at hus
      have htail := ih (h.take ht) hus
      rw [List.append_assoc] at htail
      exact htail

end TreeBuilder

/-- A tree is built exactly if the tokens stand for it. -/
theorem ofTokens_eq_ok_iff {ts : List Token} {ns : List Node} :
    Node.ofTokens ts = .ok ns ↔ Forest ts ns := by
  constructor
  · intro h
    rw [Node.ofTokens] at h
    cases hb : ts.foldlM TreeBuilder.take .empty with
    | error e =>
      rw [hb] at h
      cases h
    | ok b =>
      rw [hb] at h
      have hbuilds : TreeBuilder.Builds ([] ++ ts) b := TreeBuilder.Builds.foldlM_take (.closed .nil) hb
      rw [List.nil_append] at hbuilds
      cases hbuilds with
      | closed hf =>
        cases h
        exact hf
      | opened _ _ _ => cases h
  · exact Forest.ofTokens

theorem exists_forest_of_parse {source : String} {tree : List Node} (hparse : parse source = .ok tree) :
    ∃ tokens, scan source = .ok tokens ∧ Forest tokens tree := by
  rw [parse] at hparse
  cases hscan : scan source with
  | error e =>
    rw [hscan] at hparse
    cases hparse
  | ok tokens =>
    rw [hscan] at hparse
    exact ⟨tokens, rfl, ofTokens_eq_ok_iff.mp hparse⟩

namespace Forest

variable {ts us : List Token} {ns ms : List Node}

theorem isLeaf_of_leaf? {t : Token} {n : Node} (h : t.leaf? = some n) : n.isLeaf = true := by
  unfold Token.leaf? at h
  split at h
  all_goals cases h
  all_goals rfl

theorem forall_subnodes {P : Node → Prop} (h : Forest ts ns)
    (hleaf : ∀ t ∈ ts, ∀ n, t.leaf? = some n → P n)
    (hsection : ∀ name start stop delimiters children, P (.sectionBlock name start stop delimiters children))
    (hinverted : ∀ name children, P (.invertedBlock name children)) : ∀ n ∈ Node.subnodes ns, P n := by
  induction h with
  | nil =>
    intro n hn
    cases hn
  | @leaf t n ts ns hn _ ih =>
    intro m hm
    rw [Node.subnodes, Node.subnodesOne_of_isLeaf (isLeaf_of_leaf? hn)] at hm
    rcases List.mem_cons.mp hm with rfl | hm
    · exact hleaf t List.mem_cons_self m hn
    · exact ih (fun u hu => hleaf u (List.mem_cons_of_mem t hu)) m hm
  | @skip t ts ns _ _ ih => exact ih fun u hu => hleaf u (List.mem_cons_of_mem t hu)
  | @block o c body ts children ns _ _ _ _ _ ihbody ih =>
    have hbody := ihbody fun u hu => hleaf u (by simp [hu])
    have hrest := ih fun u hu => hleaf u (by simp [hu])
    intro m hm
    rw [Node.subnodes] at hm
    rcases List.mem_append.mp hm with hm | hm
    · unfold TreeBuilder.closeSection at hm
      split at hm
      · rcases List.mem_cons.mp hm with rfl | hm
        · exact hinverted _ _
        · exact hbody m hm
      · rcases List.mem_cons.mp hm with rfl | hm
        · exact hsection _ _ _ _ _
        · exact hbody m hm
    · exact hrest m hm

theorem unplaced (h : Forest ts ns) : Forest (ts.map Token.unplaced) (Node.unplaced ns) := by
  induction h with
  | nil => exact .nil
  | @leaf t n ts ns hn _ ih =>
    rw [List.map_cons, Node.unplaced, Node.unplacedOne_of_isLeaf (isLeaf_of_leaf? hn)]
    exact .leaf hn ih
  | skip hk _ ih => exact .skip hk ih
  | @block o c body ts children ns ho hc hv _ _ ihbody ih =>
    have hclose : Node.unplacedOne (TreeBuilder.closeSection ⟨o, children⟩ c) =
        TreeBuilder.closeSection ⟨o.unplaced, Node.unplaced children⟩ c.unplaced := by
      unfold TreeBuilder.closeSection
      have hkind : o.unplaced.kind = o.kind := rfl
      simp only [hkind]
      split
      · rfl
      · rfl
    rw [List.map_cons, List.map_append, List.map_cons, Node.unplaced, hclose]
    exact .block ho hc hv ihbody ih

theorem unplaced_congr (h : Forest ts ns) (h' : Forest us ms)
    (heq : ts.map Token.unplaced = us.map Token.unplaced) : Node.unplaced ns = Node.unplaced ms := by
  have hns := h.unplaced
  rw [heq] at hns
  exact hns.unique h'.unplaced

theorem exists_section (h : Forest ts ns) {name : String} {start stop : Int}
    {delimiters : Delimiters} {children : List Node}
    (hmem : Node.sectionBlock name start stop delimiters children ∈ Node.subnodes ns) :
    ∃ pre o body c post, ts = pre ++ o :: (body ++ c :: post) ∧ o.kind = .sectionStart ∧
      c.kind = .sectionEnd ∧ start = o.stop ∧ stop = c.start ∧ delimiters = o.delimiters ∧
      Forest body children := by
  induction h with
  | nil =>
    rw [Node.subnodes] at hmem
    cases hmem
  | @leaf t n ts ns hn _ ih =>
    rw [Node.subnodes, Node.subnodesOne_of_isLeaf (isLeaf_of_leaf? hn)] at hmem
    rcases List.mem_cons.mp hmem with heq | hmem
    · have hleaf := isLeaf_of_leaf? hn
      rw [← heq] at hleaf
      cases hleaf
    · obtain ⟨pre, o, body, c, post, rfl, hrest⟩ := ih hmem
      exact ⟨t :: pre, o, body, c, post, rfl, hrest⟩
  | @skip t ts ns hk _ ih =>
    obtain ⟨pre, o, body, c, post, rfl, hrest⟩ := ih hmem
    exact ⟨t :: pre, o, body, c, post, rfl, hrest⟩
  | @block o c body ts children' ns ho hc hv hbody _ ihbody ih =>
    have hinside : Node.sectionBlock name start stop delimiters children ∈ Node.subnodes children' →
        ∃ pre o' body' c' post, o :: (body ++ c :: ts) = pre ++ o' :: (body' ++ c' :: post) ∧
          o'.kind = .sectionStart ∧ c'.kind = .sectionEnd ∧ start = o'.stop ∧ stop = c'.start ∧
          delimiters = o'.delimiters ∧ Forest body' children := by
      intro hin
      obtain ⟨pre, o', body', c', post, rfl, hrest⟩ := ihbody hin
      refine ⟨o :: pre, o', body', c', post ++ c :: ts, ?_, hrest⟩
      simp only [List.cons_append, List.append_assoc]
    rw [Node.subnodes] at hmem
    rcases List.mem_append.mp hmem with hmem | hmem
    · unfold TreeBuilder.closeSection at hmem
      split at hmem
      · rw [Node.subnodesOne] at hmem
        exact hinside ((List.mem_cons.mp hmem).resolve_left nofun)
      · rename_i hk
        rw [Node.subnodesOne] at hmem
        rcases List.mem_cons.mp hmem with heq | hmem
        · obtain ⟨-, rfl, rfl, rfl, rfl⟩ := Node.sectionBlock.inj heq
          exact ⟨[], o, body, c, ts, rfl, ho.resolve_right hk, hc, rfl, rfl, rfl, hbody⟩
        · exact hinside hmem
    · obtain ⟨pre, o', body', c', post, rfl, hrest⟩ := ih hmem
      refine ⟨o :: (body ++ c :: pre), o', body', c', post, ?_, hrest⟩
      simp only [List.cons_append, List.append_assoc]

end Forest
end Mustache
