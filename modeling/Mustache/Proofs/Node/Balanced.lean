import Mathlib.Data.List.Induction
import Mustache.Proofs.Node.Forest

/-! # Balanced tokens

Which lists of tokens have a tree is said here without a stack: the tags of sections among them have to
nest, as a grammar puts it. A section is open after some tokens if all that follows its tag is closed
again, and a closing tag is misplaced if nothing is open before it or something with another name. Taking
tokens one by one stops at the first misplaced tag; without one the open sections decide at the end.
-/
namespace Mustache

/-- What a tree keeps of a token: its kind with what is written in it, but not where it stands. -/
inductive Piece where
  | text (s : String)
  | interpolation (name : String) (escape : Bool)
  | opening (name : String) (inverted : Bool)
  | closing (name : String)
  | partialTag (name indent : String)
  | comment
  deriving DecidableEq, Repr

def Piece.kind : Piece → TokenKind
  | text s => if s = "\n" then .newline else .text
  | interpolation _ escape => if escape then .escaped else .unescaped
  | opening _ inverted => if inverted then .invertedStart else .sectionStart
  | closing _ => .sectionEnd
  | partialTag _ _ => .partialTag
  | comment => .comment

namespace Token

def piece? (t : Token) : Option Piece :=
  match t.kind with
  | .text | .newline => some (.text t.value)
  | .escaped => some (.interpolation t.value true)
  | .unescaped => some (.interpolation t.value false)
  | .sectionStart => some (.opening t.value false)
  | .invertedStart => some (.opening t.value true)
  | .sectionEnd => some (.closing t.value)
  | .partialTag => some (.partialTag t.value t.indent)
  | .comment => some .comment
  | .delimiterTag => none

def isBracket (t : Token) : Bool :=
  match t.kind with
  | .sectionStart | .invertedStart | .sectionEnd => true
  | .text | .newline | .escaped | .unescaped | .partialTag | .comment | .delimiterTag => false

end Token

namespace Node

mutual

def piecesOne : Node → List Piece
  | text s => [.text s]
  | interpolation name escape => [.interpolation name escape]
  | sectionBlock name _ _ _ children => .opening name false :: (pieces children ++ [.closing name])
  | invertedBlock name children => .opening name true :: (pieces children ++ [.closing name])
  | partialTag name indent => [.partialTag name indent]
  | comment => [.comment]
  | foreign _ _ => []

def pieces : List Node → List Piece
  | [] => []
  | n :: ns => piecesOne n ++ pieces ns

end

end Node

/-- Tags of sections that nest, each closed under the name that it was opened with. -/
inductive WellNested : List Token → Prop
  | nil : WellNested []
  | block {o c : Token} {body ts : List Token} :
      o.Opens → c.kind = .sectionEnd → o.value = c.value → WellNested body → WellNested ts →
      WellNested (o :: (body ++ c :: ts))

def Balanced (ts : List Token) : Prop :=
  WellNested (ts.filter Token.isBracket)

/-- The tag of the innermost section that is open after tokens: what follows it is closed again. -/
def InnermostOpen (ts : List Token) (o : Token) : Prop :=
  ∃ before after, ts = before ++ o :: after ∧ o.Opens ∧ Balanced after

/-- A closing tag that does not belong after some tokens, and the error to be told. -/
inductive Misplaced (ts : List Token) (c : Token) : SyntaxError → Prop
  | unexpected : c.kind = .sectionEnd → Balanced ts →
      Misplaced ts c ⟨.unexpectedClose c.value, some c.line⟩
  | mismatched {o : Token} : c.kind = .sectionEnd → InnermostOpen ts o → o.value ≠ c.value →
      Misplaced ts c ⟨.mismatchedClose o.value o.line c.value, some c.line⟩

def WellPlaced (ts : List Token) : Prop :=
  ∀ before c after e, ts = before ++ c :: after → ¬ Misplaced before c e

/-- What is wrong with tokens: their first misplaced tag, or else the innermost section left open. -/
inductive Unbalanced (ts : List Token) : SyntaxError → Prop
  | misplaced {before after : List Token} {c : Token} {e : SyntaxError} :
      ts = before ++ c :: after → WellPlaced before → Misplaced before c e → Unbalanced ts e
  | unclosed {o : Token} : WellPlaced ts → InnermostOpen ts o →
      Unbalanced ts ⟨.unclosedSection o.value, some o.line⟩

variable {ts us : List Token} {ns : List Node} {t o c : Token} {e : SyntaxError}

@[simp] theorem Token.Opens.isBracket (h : o.Opens) : o.isBracket = true := by
  rcases h with h | h <;> simp [Token.isBracket, h]

theorem Token.isBracket_of_sectionEnd (h : c.kind = .sectionEnd) : c.isBracket = true := by
  simp [Token.isBracket, h]

theorem Token.isBracket_of_leaf? {n : Node} (h : t.leaf? = some n) : t.isBracket = false := by
  cases hk : t.kind <;> simp_all [Token.leaf?, Token.isBracket]

namespace Forest

theorem balanced (h : Forest ts ns) : Balanced ts := by
  induction h with
  | nil => exact .nil
  | leaf hn _ ih => simpa [Balanced, Token.isBracket_of_leaf? hn] using ih
  | skip hk _ ih => simpa [Balanced, Token.isBracket, hk] using ih
  | block ho hc hv _ _ ihbody ih =>
    simpa [Balanced, ho.isBracket, Token.isBracket_of_sectionEnd hc] using
      WellNested.block ho hc hv ihbody ih

theorem exists_of_no_bracket (h : ∀ t ∈ ts, t.isBracket = false) : ∃ ns, Forest ts ns := by
  induction ts with
  | nil => exact ⟨[], .nil⟩
  | cons t ts ih =>
    obtain ⟨ns, hns⟩ := ih fun u hu => h u (List.mem_cons_of_mem t hu)
    have ht := h t List.mem_cons_self
    cases hleaf : t.leaf? with
    | some n => exact ⟨n :: ns, .leaf hleaf hns⟩
    | none =>
      refine ⟨ns, .skip ?_ hns⟩
      cases hk : t.kind <;> simp_all [Token.leaf?, Token.isBracket]

theorem exists_append (h : ∀ t ∈ ts, t.isBracket = false) (hus : Forest us ns) :
    ∃ ms, Forest (ts ++ us) ms := by
  obtain ⟨ms, hms⟩ := exists_of_no_bracket h
  exact ⟨ms ++ ns, hms.append hus⟩

theorem pieces_eq (h : Forest ts ns) : Node.pieces ns = ts.filterMap Token.piece? := by
  induction h with
  | nil => simp [Node.pieces]
  | @leaf t n ts ns hn _ ih =>
    cases hk : t.kind <;>
      simp_all [Token.leaf?, Token.piece?, Node.pieces] <;> subst hn <;>
      simp [Node.piecesOne]
  | skip hk _ ih => simpa [Token.piece?, hk] using ih
  | @block o c body ts children ns ho hc hv _ _ ihbody ih =>
    rcases ho with ho | ho <;>
      simp [Node.pieces, TreeBuilder.closeSection, Node.piecesOne, Token.piece?, ho, hc, hv, ihbody, ih]

end Forest

theorem WellNested.exists_forest {bs : List Token} (h : WellNested bs)
    (hts : ts.filter Token.isBracket = bs) : ∃ ns, Forest ts ns := by
  induction h generalizing ts with
  | nil => exact Forest.exists_of_no_bracket (by simpa [List.filter_eq_nil_iff] using hts)
  | @block o c body rest ho hc hv _ _ ihbody ih =>
    obtain ⟨before, inside, rfl, hbefore, -, hinside⟩ := List.filter_eq_cons_iff.mp hts
    obtain ⟨first, last, rfl, hfirst, hlast⟩ := List.filter_eq_append_iff.mp hinside
    obtain ⟨between, after, rfl, hbetween, -, hafter⟩ := List.filter_eq_cons_iff.mp hlast
    have hbody : (first ++ between).filter Token.isBracket = body := by
      rw [List.filter_append, hfirst, List.filter_eq_nil_iff.mpr hbetween, List.append_nil]
    obtain ⟨children, hchildren⟩ := ihbody hbody
    obtain ⟨ns, hns⟩ := ih hafter
    have hblock := Forest.block ho hc hv hchildren hns
    rw [List.append_assoc] at hblock
    exact Forest.exists_append (by simpa using hbefore) hblock

theorem balanced_iff_exists_forest : Balanced ts ↔ ∃ ns, Forest ts ns :=
  ⟨fun h => h.exists_forest rfl, fun ⟨_, h⟩ => h.balanced⟩

namespace TreeBuilder

variable {b : TreeBuilder}

theorem sections_of_balanced (h : ts.foldlM take .empty = .ok b) (hts : Balanced ts) :
    b.sections = [] := by
  obtain ⟨ns, hns⟩ := balanced_iff_exists_forest.mp hts
  rw [hns.foldlM_take] at h
  rw [← Except.ok.inj h]
  rfl

theorem sections_of_innermostOpen (h : ts.foldlM take .empty = .ok b) (ho : InnermostOpen ts o) :
    ∃ children outer, b.sections = ⟨o, children⟩ :: outer := by
  obtain ⟨before, after, rfl, hopens, hafter⟩ := ho
  obtain ⟨ns, hns⟩ := balanced_iff_exists_forest.mp hafter
  rw [List.foldlM_append] at h
  cases hb : before.foldlM take .empty with
  | error e =>
    rw [hb] at h
    cases h
  | ok b₁ =>
    rw [hb] at h
    have hrest : (o :: after).foldlM take b₁ = .ok b := h
    rw [foldlM_take_cons (take_of_opens hopens b₁), hns.foldlM_take] at hrest
    rw [← Except.ok.inj hrest]
    exact ⟨_, _, rfl⟩

theorem Builds.balanced (h : Builds ts b) (hs : b.sections = []) : Balanced ts := by
  cases h with
  | closed h => exact h.balanced
  | opened _ _ _ => cases hs

theorem Builds.innermostOpen {s : OpenSection} {outer : List OpenSection} (h : Builds ts b)
    (hs : b.sections = s :: outer) : InnermostOpen ts s.tag := by
  cases h with
  | closed _ => cases hs
  | opened _ ho hbody =>
    cases hs
    exact ⟨_, _, rfl, ho, hbody.balanced⟩

theorem take_eq_error_iff (hb : Builds ts b) (hfold : ts.foldlM take .empty = .ok b) :
    b.take t = .error e ↔ Misplaced ts t e := by
  constructor
  · intro h
    have hend : t.kind = .sectionEnd := by
      cases hk : t.kind <;> simp_all [take]
    rw [take, hend] at h
    cases hs : b.sections with
    | nil =>
      simp only [hs] at h
      cases h
      exact .unexpected hend (hb.balanced hs)
    | cons s outer =>
      simp only [hs] at h
      split at h
      · cases h
      · rename_i hv
        cases h
        exact .mismatched hend (hb.innermostOpen hs) hv
  · intro h
    cases h with
    | unexpected hend hbal =>
      rw [take, hend]
      simp only [sections_of_balanced hfold hbal]
    | mismatched hend ho hv =>
      obtain ⟨children, outer, hs⟩ := sections_of_innermostOpen hfold ho
      rw [take, hend]
      simp only [hs, if_neg hv]

/-- Tokens are taken up to the first misplaced closing tag. By induction from the end: the invariant is
the account that `Builds` keeps of the tokens taken so far. -/
theorem foldlM_take_spec (ts : List Token) :
    (∃ b, ts.foldlM take .empty = .ok b ∧ Builds ts b ∧ WellPlaced ts) ∨
    (∃ before c after e, ts = before ++ c :: after ∧ WellPlaced before ∧ Misplaced before c e ∧
      ts.foldlM take .empty = .error e) := by
  induction ts using List.reverseRecOn with
  | nil =>
    refine Or.inl ⟨.empty, rfl, .closed .nil, ?_⟩
    intro before c after e h
    simp at h
  | append_singleton ts t ih =>
    rcases ih with ⟨b, hfold, hb, hplaced⟩ | ⟨before, c, after, e, rfl, hplaced, hc, hfold⟩
    · have hlast : (ts ++ [t]).foldlM take .empty = b.take t := by
        rw [foldlM_take_append hfold, List.foldlM_cons]
        cases b.take t <;> rfl
      cases ht : b.take t with
      | error e =>
        rw [ht] at hlast
        exact Or.inr ⟨ts, t, [], e, rfl, hplaced, (take_eq_error_iff hb hfold).mp ht, hlast⟩
      | ok b' =>
        rw [ht] at hlast
        refine Or.inl ⟨b', hlast, hb.take ht, ?_⟩
        intro before c after e h hc
        rcases List.eq_nil_or_concat after with rfl | ⟨after, u, rfl⟩
        · obtain ⟨rfl, hu⟩ := List.append_inj' h rfl
          cases hu
          rw [(take_eq_error_iff hb hfold).mpr hc] at ht
          cases ht
        · rw [List.concat_eq_append, ← List.cons_append, ← List.append_assoc] at h
          exact hplaced before c after e (List.append_inj' h rfl).1 hc
    · refine Or.inr ⟨before, c, after ++ [t], e, by simp, hplaced, hc, ?_⟩
      rw [List.foldlM_append, hfold]
      rfl

theorem foldlM_take_of_wellPlaced (h : WellPlaced ts) :
    ∃ b, ts.foldlM take .empty = .ok b ∧ Builds ts b := by
  rcases foldlM_take_spec ts with ⟨b, hfold, hb, -⟩ | ⟨before, c, after, e, rfl, -, hc, -⟩
  · exact ⟨b, hfold, hb⟩
  · exact absurd hc (h before c after e rfl)

end TreeBuilder

open TreeBuilder

theorem ofTokens_of_foldlM {b : TreeBuilder} (h : ts.foldlM take .empty = .ok b) :
    Node.ofTokens ts = b.finish := by
  rw [Node.ofTokens, h]
  rfl

theorem ofTokens_of_foldlM_error (h : ts.foldlM take .empty = .error e) :
    Node.ofTokens ts = .error e := by
  rw [Node.ofTokens, h]
  rfl

theorem ofTokens_eq_error_iff : Node.ofTokens ts = .error e ↔ Unbalanced ts e := by
  constructor
  · intro h
    rcases foldlM_take_spec ts with ⟨b, hfold, hb, hplaced⟩ |
      ⟨before, c, after, e', rfl, hplaced, hc, hfold⟩
    · rw [ofTokens_of_foldlM hfold, finish] at h
      split at h
      · cases h
      · rename_i s outer hs
        cases h
        exact .unclosed hplaced (hb.innermostOpen hs)
    · rw [ofTokens_of_foldlM_error hfold] at h
      cases h
      exact .misplaced rfl hplaced hc
  · intro h
    cases h with
    | @misplaced before after c _ hts hplaced hc =>
      obtain ⟨b, hfold, hb⟩ := foldlM_take_of_wellPlaced hplaced
      apply ofTokens_of_foldlM_error
      rw [hts, foldlM_take_append hfold, List.foldlM_cons, (take_eq_error_iff hb hfold).mpr hc]
      rfl
    | unclosed hplaced ho =>
      obtain ⟨b, hfold, -⟩ := foldlM_take_of_wellPlaced hplaced
      obtain ⟨children, outer, hs⟩ := sections_of_innermostOpen hfold ho
      rw [ofTokens_of_foldlM hfold, finish, hs]

theorem kind_piece? {p : Piece} (hp : t.piece? = some p) (htext : t.kind = .text → t.value ≠ "\n")
    (hnewline : t.kind = .newline → t.value = "\n") : p.kind = t.kind := by
  cases hk : t.kind <;> simp_all [Token.piece?] <;> subst hp <;> simp_all [Piece.kind]

theorem kinds_pieces (htext : ∀ t ∈ ts, t.kind = .text → t.value ≠ "\n")
    (hnewline : ∀ t ∈ ts, t.kind = .newline → t.value = "\n") :
    (ts.filterMap Token.piece?).map Piece.kind =
      (ts.map Token.kind).filter (· ≠ .delimiterTag) := by
  induction ts with
  | nil => rfl
  | cons t ts ih =>
    have hrest := ih (fun u hu => htext u (List.mem_cons_of_mem t hu))
      (fun u hu => hnewline u (List.mem_cons_of_mem t hu))
    cases hp : t.piece? with
    | none =>
      have hk : t.kind = .delimiterTag := by
        cases hk : t.kind <;> simp_all [Token.piece?]
      simpa [hp, hk] using hrest
    | some p =>
      have hkind := kind_piece? hp (htext t List.mem_cons_self) (hnewline t List.mem_cons_self)
      have hne : t.kind ≠ .delimiterTag := by
        intro hk
        simp [Token.piece?, hk] at hp
      simpa [hp, hkind, hne] using hrest

/-- Tokens have a tree exactly if their section tags nest; the tree in the order of its text is the list
of tokens again, less the delimiter tags. If there is none, the error is what is wrong with the tokens
first. -/
theorem ofTokens_balanced (ts : List Token) :
    ((∃ tree, Node.ofTokens ts = .ok tree) ↔ Balanced ts) ∧
    (∀ tree, Node.ofTokens ts = .ok tree →
      Node.pieces tree = ts.filterMap Token.piece? ∧
      ((∀ t ∈ ts, (t.kind = .text → t.value ≠ "\n") ∧ (t.kind = .newline → t.value = "\n")) →
        (Node.pieces tree).map Piece.kind = (ts.map Token.kind).filter (· ≠ .delimiterTag))) ∧
    ∀ e, Node.ofTokens ts = .error e ↔ Unbalanced ts e := by
  refine ⟨?_, ?_, fun e => ofTokens_eq_error_iff⟩
  · simp only [ofTokens_eq_ok_iff]
    exact balanced_iff_exists_forest.symm
  · intro tree h
    have hpieces := (ofTokens_eq_ok_iff.mp h).pieces_eq
    refine ⟨hpieces, fun hspelled => ?_⟩
    rw [hpieces]
    exact kinds_pieces (fun t ht => (hspelled t ht).1) fun t ht => (hspelled t ht).2

end Mustache
