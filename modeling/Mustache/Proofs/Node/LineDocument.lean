import Mustache.Proofs.Node.Forest
import Mustache.Proofs.Token.Line

/-! # Line documents

A line document is a template whose lines all end and hold texts and variables, or nothing but a partial
and blanks. Its tree is that of its lines, one after the other: a line of a partial is settled to the tag
with the blanks before it, and every other line stays as it is.
-/
namespace Mustache

inductive Fragment where
  | text (s : String)
  | value (name : String) (escape : Bool)
  deriving DecidableEq, Repr

/-- A line of fragments, or one that is there for a partial behind blanks. -/
inductive Line where
  | content (fragments : List Fragment)
  | insertion (blanks name : String)
  deriving DecidableEq, Repr

def Token.fragment? (t : Token) : Option Fragment :=
  match t.kind with
  | .text => some (.text t.value)
  | .escaped => some (.value t.value true)
  | .unescaped => some (.value t.value false)
  | _ => none

inductive Line.Of : List Token → Line → Prop
  | content {ts : List Token} {fs : List Fragment} :
      ts.map Token.fragment? = fs.map some → Of ts (.content fs)
  | insertion {before after : List Token} {tag : Token} : tag.kind = .partialTag →
      (∀ t ∈ before ++ after, t.kind = .text ∧ t.value.toList.all Text.isLineBlank = true) →
      Of (before ++ tag :: after) (.insertion (String.join (before.map (·.value))) tag.value)

/-- Tokens that make lines, every one with a break at its end. -/
inductive LineDocument : List Token → List Line → Prop
  | nil : LineDocument [] []
  | cons {ts rest : List Token} {nl : Token} {l : Line} {ls : List Line} :
      Line.Of ts l → nl.kind = .newline → LineDocument rest ls →
      LineDocument (ts ++ nl :: rest) (l :: ls)

def IsLineDocument (source : String) (lines : List Line) : Prop :=
  ∃ raw, (Cursor.start source.toList).tokens = .ok raw ∧ LineDocument raw lines

def Fragment.node : Fragment → Node
  | text s => .text s
  | value name escape => .interpolation name escape

def Line.nodes : Line → List Node
  | content fs => fs.map Fragment.node ++ [.text "\n"]
  | insertion blanks name => [.partialTag name blanks]

def Fragment.Proper : Fragment → Prop
  | text s => s ≠ "\n" ∧ s ≠ ""
  | value _ _ => True

def Line.Proper : Line → Prop
  | content fs => ∀ f ∈ fs, f.Proper
  | insertion _ _ => True

variable {t nl : Token} {ts raw : List Token} {f : Fragment} {fs : List Fragment} {l : Line}
  {ls : List Line}

theorem Token.fragment?_eq_some_iff : t.fragment? = some f ↔
    t.kind = .text ∧ f = .text t.value ∨ t.kind = .escaped ∧ f = .value t.value true ∨
      t.kind = .unescaped ∧ f = .value t.value false := by
  unfold Token.fragment?
  cases t.kind <;> simp [eq_comm]

theorem Token.leaf?_of_fragment? (h : t.fragment? = some f) : t.leaf? = some f.node := by
  rcases Token.fragment?_eq_some_iff.mp h with ⟨hk, rfl⟩ | ⟨hk, rfl⟩ | ⟨hk, rfl⟩
  all_goals simp [Token.leaf?, hk, Fragment.node]

theorem forest_of_fragments (h : ts.map Token.fragment? = fs.map some) :
    Forest ts (fs.map Fragment.node) := by
  induction ts generalizing fs with
  | nil =>
    cases fs with
    | nil => exact .nil
    | cons f fs => cases h
  | cons t ts ih =>
    cases fs with
    | nil => cases h
    | cons f fs =>
      obtain ⟨hf, hfs⟩ := List.cons.inj h
      exact .leaf (Token.leaf?_of_fragment? hf) (ih hfs)

theorem exists_fragment (h : ts.map Token.fragment? = fs.map some) (ht : t ∈ ts) :
    ∃ f, t.fragment? = some f := by
  have hmem : t.fragment? ∈ fs.map some := by
    rw [← h]
    exact List.mem_map_of_mem ht
  obtain ⟨f, -, hf⟩ := List.mem_map.mp hmem
  exact ⟨f, hf.symm⟩

theorem standaloneTag?_of_fragments (h : ts.map Token.fragment? = fs.map some) :
    standaloneTag? ts = none := by
  rw [Option.eq_none_iff_forall_ne_some]
  -- The tag of the line would be a text or a variable, and none of these stands alone.
  intro u hu
  obtain ⟨before, tag, after, rfl, halone, -, -⟩ := standaloneTag?_eq_some_iff.mp hu
  obtain ⟨f, hf⟩ := exists_fragment h (t := tag) (by simp)
  rcases Token.fragment?_eq_some_iff.mp hf with ⟨hk, -⟩ | ⟨hk, -⟩ | ⟨hk, -⟩
  all_goals simp [hk, TokenKind.standsAlone] at halone

theorem Line.Of.kind_ne_newline (h : Line.Of ts l) : ∀ t ∈ ts, t.kind ≠ .newline := by
  intro t ht hk
  cases h with
  | content hfs =>
    obtain ⟨f, hf⟩ := exists_fragment hfs ht
    simp [Token.fragment?, hk] at hf
  | @insertion before after tag htag hblank =>
    rcases List.mem_append.mp ht with ht | ht
    · simp [(hblank t (List.mem_append_left _ ht)).1] at hk
    · rcases List.mem_cons.mp ht with rfl | ht
      · simp [htag] at hk
      · simp [(hblank t (List.mem_append_right _ ht)).1] at hk

theorem Line.Of.forest (h : Line.Of ts l) (hnl : nl.kind = .newline) (hvalue : nl.value = "\n") :
    Forest (settleLine ts (some nl)) l.nodes := by
  cases h with
  | content hfs =>
    have hbreak : Forest [nl] [.text "\n"] := by
      refine .leaf ?_ .nil
      simp [Token.leaf?, hnl, hvalue]
    simp only [settleLine, standaloneTag?_of_fragments hfs]
    exact (forest_of_fragments hfs).append hbreak
  | @insertion before after tag htag hblank =>
    have halone : standaloneTag? (before ++ tag :: after) = some (tag.settledAfter before) :=
      standaloneTag?_eq_some_iff.mpr ⟨before, tag, after, rfl, by rw [htag]; rfl, hblank, rfl⟩
    simp only [settleLine, halone]
    refine .leaf ?_ .nil
    simp [Token.leaf?, Token.settledAfter, htag]

theorem LineDocument.forest (h : LineDocument raw ls)
    (hnl : ∀ t ∈ raw, t.kind = .newline → t.value = "\n") :
    Forest (settleLines [] raw) (ls.flatMap Line.nodes) := by
  induction h with
  | nil => exact .nil
  | @cons ts rest nl l ls hl hk _ ih =>
    have hvalue : nl.value = "\n" := hnl nl (by simp) hk
    rw [settleLines_append_newline hl.kind_ne_newline hk, List.flatMap_cons]
    exact (hl.forest hk hvalue).append (ih fun t ht => hnl t (by simp [ht]))

theorem LineDocument.proper (h : LineDocument raw ls)
    (htext : ∀ t ∈ raw, t.kind = .text → t.value ≠ "\n" ∧ t.value ≠ "") : ∀ l ∈ ls, l.Proper := by
  induction h with
  | nil => exact nofun
  | @cons ts rest nl l ls hl _ _ ih =>
    rw [List.forall_mem_cons]
    refine ⟨?_, ih fun t ht => htext t (by simp [ht])⟩
    cases hl with
    | insertion => trivial
    | @content ts fs hfs =>
      intro f hf
      obtain ⟨t, ht, hft⟩ : ∃ t ∈ ts, t.fragment? = some f := by
        apply List.mem_map.mp
        rw [hfs]
        exact List.mem_map_of_mem hf
      rcases Token.fragment?_eq_some_iff.mp hft with ⟨hk, rfl⟩ | ⟨-, rfl⟩ | ⟨-, rfl⟩
      · exact htext t (by simp [ht]) hk
      · trivial
      · trivial

section Sources

variable {source : String} {lines : List Line}

theorem tokens_values (h : (Cursor.start source.toList).tokens = .ok raw) (ht : t ∈ raw) :
    (t.kind = .newline → t.value = "\n") ∧ (t.kind = .text → t.value ≠ "\n" ∧ t.value ≠ "") := by
  have hw := ((Cursor.tokens_start_spec h).2 t ht).2
  constructor
  · intro hk
    exact String.toList_inj.mp (hw.newline_spec hk).2
  · intro hk
    obtain ⟨hslice, hbreak, -⟩ := hw.text_spec hk
    constructor
    · intro he
      simp [he] at hbreak
    · intro he
      have hlen := congrArg List.length hslice
      rw [he, Text.length_slice _ hw.inside] at hlen
      have hlt := hw.nonempty
      simp at hlen
      omega

theorem parse_of_isLineDocument (h : IsLineDocument source lines) :
    parse source = .ok (lines.flatMap Line.nodes) := by
  obtain ⟨raw, hraw, hdoc⟩ := h
  have hscan : scan source = .ok (settleLines [] raw) := by
    rw [scan, Cursor.scan, hraw]
    rfl
  rw [parse, hscan]
  exact (hdoc.forest fun t ht => (tokens_values hraw ht).1).ofTokens

theorem proper_of_isLineDocument (h : IsLineDocument source lines) : ∀ l ∈ lines, l.Proper := by
  obtain ⟨raw, hraw, hdoc⟩ := h
  exact hdoc.proper fun t ht => (tokens_values hraw ht).2

end Sources

end Mustache
