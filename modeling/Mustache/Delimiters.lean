import Mustache.Text.Blank

/-! # Delimiters

A tag stands between an opening and a closing delimiter, at first two braces each. A delimiter tag
sets others: its text is two words without an equals sign. Delimiters read from a text are well formed
(`wellFormed_of_read?`), and `tag` writes the delimiter tag that sets a pair anew.
-/
namespace Mustache

structure Delimiters where
  opening : String
  closing : String
  deriving DecidableEq, Repr

namespace Delimiters

def standard : Delimiters := ⟨"\x7b\x7b", "\x7d\x7d"⟩

/-- A delimiter that a delimiter tag can set: not empty, without white space and equals signs. -/
def IsDelimiter (s : String) : Prop :=
  s.toList ≠ [] ∧ ∀ c ∈ s.toList, Text.isBlank c = false ∧ c ≠ '='

def WellFormed (d : Delimiters) : Prop :=
  IsDelimiter d.opening ∧ IsDelimiter d.closing

def read? (text : List Char) : Option Delimiters :=
  match Text.words text with
  | [o, c] =>
    if '=' ∈ o ∨ '=' ∈ c then none else some ⟨String.ofList o, String.ofList c⟩
  | _ => none

/-- The delimiter tag, in the standard delimiters, that sets this pair; none is needed for the
standard pair. -/
def tag (d : Delimiters) : Option String :=
  if d = standard then none
  else some ("\x7b\x7b= " ++ d.opening ++ " " ++ d.closing ++ " =\x7d\x7d")

theorem wellFormed_standard : standard.WellFormed := by
  simp [WellFormed, IsDelimiter, standard, Text.isBlank]

theorem wellFormed_of_read? {text : List Char} {d : Delimiters} (h : read? text = some d) :
    d.WellFormed := by
  unfold read? at h
  split at h
  · rename_i o c hw
    split at h
    · simp at h
    · rename_i he
      rw [not_or] at he
      have ho : o ∈ Text.words text := by simp [hw]
      have hc : c ∈ Text.words text := by simp [hw]
      obtain rfl := Option.some.inj h
      refine ⟨⟨?_, ?_⟩, ?_, ?_⟩
      · simpa using Text.ne_nil_of_mem_words ho
      · intro x hx
        rw [String.toList_ofList] at hx
        exact ⟨Text.not_isBlank_of_mem_words ho x hx, fun e => he.1 (e ▸ hx)⟩
      · simpa using Text.ne_nil_of_mem_words hc
      · intro x hx
        rw [String.toList_ofList] at hx
        exact ⟨Text.not_isBlank_of_mem_words hc x hx, fun e => he.2 (e ▸ hx)⟩
  · simp at h

end Delimiters
end Mustache
