import Mustache.Proofs.Token.Line
import Mustache.Proofs.Token.Local

/-! # Moving a text

Reading does not depend on where a text stands: a cursor further on in a longer text reads the same
tokens further on, or fails with the same error on a later line. Settling does not look at places either,
so it commutes with every change of tokens that leaves kinds, values and indents alone.
-/
namespace Mustache

/-- A change of tokens that concerns neither their kind nor their value nor their indent. -/
structure Token.Moves (f : Token → Token) : Prop where
  kind_eq : ∀ t, (f t).kind = t.kind
  value_eq : ∀ t, (f t).value = t.value
  indent_eq : ∀ t s, f { t with indent := s } = { f t with indent := s }

namespace Token.Moves

variable {f : Token → Token}

theorem standaloneTag?_map (hf : Token.Moves f) (line : List Token) :
    standaloneTag? (line.map f) = (standaloneTag? line).map f := by
  have hothers : (line.map f).filter (·.kind != .text) = (line.filter (·.kind != .text)).map f := by
    simp [List.filter_map, Function.comp_def, hf.kind_eq]
  have hblank : ((line.map f).filter (·.kind == .text)).all (·.value.toList.all Text.isLineBlank) =
      (line.filter (·.kind == .text)).all (·.value.toList.all Text.isLineBlank) := by
    simp [List.filter_map, Function.comp_def, hf.kind_eq, hf.value_eq]
  have hvalues : ((line.map f).takeWhile (·.kind == .text)).map (·.value) =
      (line.takeWhile (·.kind == .text)).map (·.value) := by
    simp [List.takeWhile_map, Function.comp_def, hf.kind_eq, hf.value_eq]
  simp only [standaloneTag?, hothers, hblank, hvalues]
  generalize line.filter (·.kind != .text) = others
  generalize (line.filter (·.kind == .text)).all (·.value.toList.all Text.isLineBlank) = blank
  rcases others with _ | ⟨tag, _ | ⟨u, us⟩⟩
  · rfl
  · simp only [List.map_cons, List.map_nil, hf.kind_eq]
    by_cases hcond : (tag.kind.standsAlone && blank) = true
    · rw [if_pos hcond, if_pos hcond]
      by_cases hk : tag.kind = .partialTag
      · have hindent := hf.indent_eq tag
          (String.join ((line.takeWhile (·.kind == .text)).map (·.value)))
        simp only [hf.kind_eq] at hindent
        rw [if_pos hk, if_pos hk, Option.map_some, hindent]
      · rw [if_neg hk, if_neg hk, Option.map_some]
    · rw [if_neg hcond, if_neg hcond, Option.map_none]
  · rfl

theorem settleLine_map (hf : Token.Moves f) (line : List Token) (newline : Option Token) :
    settleLine (line.map f) (newline.map f) = (settleLine line newline).map f := by
  rw [settleLine, settleLine, hf.standaloneTag?_map]
  cases standaloneTag? line with
  | some tag => rfl
  | none => cases newline <;> simp

theorem settleLines_map (hf : Token.Moves f) (line ts : List Token) :
    settleLines (line.map f) (ts.map f) = (settleLines line ts).map f := by
  induction ts generalizing line with
  | nil => exact hf.settleLine_map line none
  | cons t ts ih =>
    have hline := hf.settleLine_map line (some t)
    have hnil := ih []
    have hcons := ih (line ++ [t])
    simp only [Option.map_some, List.map_nil, List.map_append, List.map_cons] at hline hnil hcons
    simp only [List.map_cons, settleLines, hf.kind_eq]
    split
    · rw [hline, hnil, List.map_append]
    · exact hcons

end Token.Moves

theorem Token.moves_unplaced : Token.Moves Token.unplaced :=
  ⟨fun _ => rfl, fun _ => rfl, fun _ _ => rfl⟩

def Token.moved (k l : Nat) (t : Token) : Token :=
  { t with line := t.line + l, start := t.start + k, stop := t.stop + k }

theorem Token.moves_moved (k l : Nat) : Token.Moves (Token.moved k l) :=
  ⟨fun _ => rfl, fun _ => rfl, fun _ _ => rfl⟩

/-- The fault `l` lines further down; a closing tag with a wrong name shows the line of the opening tag. -/
def SyntaxFault.lowered (l : Nat) : SyntaxFault → SyntaxFault
  | mismatchedClose opened line closed => mismatchedClose opened (line + l) closed
  | fault => fault

def SyntaxError.lowered (l : Nat) (e : SyntaxError) : SyntaxError :=
  ⟨e.fault.lowered l, e.line.map (· + l)⟩

namespace Cursor

def moved (k l : Nat) (s : Cursor) : Cursor :=
  { s with offset := s.offset + k, line := s.line + l }

def movedResult (k l : Nat) : Except SyntaxError (Token × Cursor) → Except SyntaxError (Token × Cursor)
  | .error e => .error (e.lowered l)
  | .ok (t, s) => .ok (t.moved k l, s.moved k l)

variable (k l : Nat)

theorem token_moved (s : Cursor) (kind : TokenKind) (value raw : List Char) :
    (s.moved k l).token kind value raw = (s.token kind value raw).moved k l := by
  simp only [token, moved, Token.moved]
  congr 1
  omega

theorem advance_moved (s : Cursor) (raw rest : List Char) :
    (s.moved k l).advance raw rest = (s.advance raw rest).moved k l := by
  simp only [advance, moved]
  congr 1 <;> omega

theorem readTag_moved (s : Cursor) (inner : List Char) :
    (s.moved k l).readTag inner = movedResult k l (s.readTag inner) := by
  unfold readTag
  rcases tagForm inner with ⟨kind, before, body⟩
  have hd : (s.moved k l).delimiters = s.delimiters := rfl
  have hrest : (s.moved k l).rest = s.rest := rfl
  have hline : some ((s.moved k l).line : Int) = (some (s.line : Int)).map (· + (l : Int)) := rfl
  simp only [hd, hrest, token_moved, advance_moved, hline]
  split
  · rfl
  · split
    · rfl
    · split
      · split
        · rfl
        · rfl
      · rfl

theorem step_moved (s : Cursor) : (s.moved k l).step = s.step.map (movedResult k l) := by
  have hd : (s.moved k l).delimiters = s.delimiters := rfl
  have hrest : (s.moved k l).rest = s.rest := rfl
  unfold step
  simp only [hd, hrest]
  split
  · rfl
  · split
    · rw [readTag_moved, Option.map_some]
    · split
      · rw [token_moved, advance_moved]
        rfl
      · rw [token_moved, advance_moved]
        rfl

/-- The same text further on gives the same tokens further on, or the same error further down. -/
theorem tokens_moved (s : Cursor) : (s.moved k l).tokens =
    (s.tokens.map (List.map (Token.moved k l))).mapError (SyntaxError.lowered l) := by
  induction s using Cursor.tokens.induct with
  | case1 s hstep =>
    have hmoved : (s.moved k l).step = none := by
      rw [step_moved, hstep]
      rfl
    rw [tokens_of_none hstep, tokens_of_none hmoved]
    rfl
  | case2 s e hstep =>
    have hmoved : (s.moved k l).step = some (.error (e.lowered l)) := by
      rw [step_moved, hstep]
      rfl
    rw [tokens_of_error hstep, tokens_of_error hmoved]
    rfl
  | case3 s t s' hstep ih =>
    have hmoved : (s.moved k l).step = some (.ok (t.moved k l, s'.moved k l)) := by
      rw [step_moved, hstep]
      rfl
    rw [tokens_of_step hstep, tokens_of_step hmoved, ih]
    cases s'.tokens <;> rfl

theorem scan_moved (s : Cursor) : (s.moved k l).scan =
    (s.scan.map (List.map (Token.moved k l))).mapError (SyntaxError.lowered l) := by
  rw [scan, scan, tokens_moved]
  cases s.tokens with
  | error e => rfl
  | ok ts => exact congrArg Except.ok ((Token.moves_moved k l).settleLines_map [] ts)

end Cursor
end Mustache
