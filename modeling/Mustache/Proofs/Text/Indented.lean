import Mathlib.Data.List.Forall2
import Mustache.LineState

/-! # Indented texts

A text with places for an indent is a list of symbols, characters and places. Whatever the indent, it
comes to stand before every line that is not empty, once and nowhere else, exactly if the places follow
the line states: a line that waits for its indent gets it before its first character, and no other place
is on the line (`indentedLines_iff`).
-/
namespace Mustache

namespace Text

/-- A line and what has become of it: the indent is before it, or it was empty and still is. -/
def IndentedLine (indent line line' : List Char) : Prop :=
  line' = indent ++ line ∨ line = [] ∧ line' = []

/-- The lines of a text and of the indented text correspond, one to one. -/
def IndentedLines (indent text text' : List Char) : Prop :=
  List.Forall₂ (IndentedLine indent) (text.splitOn '\n') (text'.splitOn '\n')

def spread (indent : List Char) (symbols : List (Option Char)) : List Char :=
  symbols.flatMap fun
    | none => indent
    | some c => [c]

variable {indent cs : List Char} {xs : List (Option Char)}

@[simp] theorem spread_nil : spread indent [] = [] := rfl

@[simp] theorem spread_none : spread indent (none :: xs) = indent ++ spread indent xs := rfl

@[simp] theorem spread_some (c : Char) : spread indent (some c :: xs) = c :: spread indent xs := rfl

@[simp] theorem spread_map_some (cs : List Char) : spread indent (cs.map some) = cs := by
  induction cs with
  | nil => rfl
  | cons c cs ih => simp [ih]

theorem spread_append (xs ys : List (Option Char)) :
    spread indent (xs ++ ys) = spread indent xs ++ spread indent ys :=
  List.flatMap_append

theorem splitOn_append_left (h : '\n' ∉ indent) (cs : List Char) :
    (indent ++ cs).splitOn '\n' = (cs.splitOn '\n').modifyHead (indent ++ ·) := by
  induction indent with
  | nil => cases h : cs.splitOn '\n' <;> simp [h]
  | cons c indent ih =>
    have hc : (c == '\n') = false := by simpa using fun hc : c = '\n' => h (hc ▸ List.mem_cons_self)
    have hrest := ih fun hmem => h (List.mem_cons_of_mem c hmem)
    rw [List.cons_append, List.splitOn_cons_eq_if_modifyHead, hc, hrest]
    cases cs.splitOn '\n' <;> rfl

end Text

namespace LineState
open Text

/-- The state of a line after one more symbol, unless the indent is missing or comes twice. -/
def step : LineState → Option Char → Option LineState
  | pending, none => some consumed
  | consumed, none => none
  | l, some c => if c = '\n' then some pending else if l = consumed then some consumed else none

def LinesFrom (indent : List Char) : LineState → List (List Char) → List (List Char) → Prop
  | pending, ls, ls' => List.Forall₂ (IndentedLine indent) ls ls'
  | consumed, ls, ls' => ∃ first rest rest', ls = first :: rest ∧ ls' = first :: rest' ∧
      List.Forall₂ (IndentedLine indent) rest rest'

variable {indent cs cs' : List Char} {xs : List (Option Char)} {l : LineState} {c : Char}

theorem linesFrom_newline : LinesFrom indent l (('\n' :: cs).splitOn '\n') (('\n' :: cs').splitOn '\n') ↔
    LinesFrom indent .pending (cs.splitOn '\n') (cs'.splitOn '\n') := by
  simp only [List.splitOn_cons_eq_if_modifyHead, beq_self_eq_true, if_true]
  cases l with
  | pending => simp [LinesFrom, IndentedLine]
  | consumed => simp [LinesFrom]

theorem linesFrom_consumed (hc : c ≠ '\n') :
    LinesFrom indent .consumed ((c :: cs).splitOn '\n') ((c :: cs').splitOn '\n') ↔
      LinesFrom indent .consumed (cs.splitOn '\n') (cs'.splitOn '\n') := by
  have hbeq : (c == '\n') = false := by simpa using hc
  obtain ⟨first, rest, hcs⟩ := List.exists_cons_of_ne_nil (List.splitOn_ne_nil '\n' cs)
  obtain ⟨first', rest', hcs'⟩ := List.exists_cons_of_ne_nil (List.splitOn_ne_nil '\n' cs')
  simp [List.splitOn_cons_eq_if_modifyHead, hbeq, hcs, hcs', LinesFrom]

theorem linesFrom_indent (hindent : '\n' ∉ indent) (hne : indent ≠ []) :
    LinesFrom indent .pending (cs.splitOn '\n') ((indent ++ cs').splitOn '\n') ↔
      LinesFrom indent .consumed (cs.splitOn '\n') (cs'.splitOn '\n') := by
  obtain ⟨first, rest, hcs⟩ := List.exists_cons_of_ne_nil (List.splitOn_ne_nil '\n' cs)
  obtain ⟨first', rest', hcs'⟩ := List.exists_cons_of_ne_nil (List.splitOn_ne_nil '\n' cs')
  rw [splitOn_append_left hindent, hcs, hcs']
  simp [LinesFrom, IndentedLine, hne, eq_comm]

theorem linesFrom_of_isSome (hindent : '\n' ∉ indent) (hne : indent ≠ [])
    (h : (xs.foldlM step l).isSome) :
    LinesFrom indent l ((spread [] xs).splitOn '\n') ((spread indent xs).splitOn '\n') := by
  induction xs generalizing l with
  | nil => cases l <;> simp [LinesFrom, IndentedLine]
  | cons x xs ih =>
    cases x with
    | none =>
      cases l with
      | pending => exact (linesFrom_indent hindent hne).mpr (ih h)
      | consumed => simp [step] at h
    | some c =>
      simp only [List.foldlM_cons, step] at h
      by_cases hc : c = '\n'
      · rw [hc, spread_some, spread_some, linesFrom_newline]
        exact ih (by simpa [hc] using h)
      · cases l with
        | pending => simp [hc] at h
        | consumed =>
          rw [spread_some, spread_some, linesFrom_consumed hc]
          exact ih (by simpa [hc] using h)

theorem length_first_le (hindent : '\n' ∉ indent) {first first' : List Char} {rest rest' : List (List Char)}
    (h : (spread [] xs).splitOn '\n' = first :: rest)
    (h' : (spread indent xs).splitOn '\n' = first' :: rest') : first.length ≤ first'.length := by
  induction xs generalizing first first' rest rest' with
  | nil =>
    rw [spread_nil, List.splitOn_nil] at h
    simp [← (List.cons.inj h).1]
  | cons x xs ih =>
    obtain ⟨f, r, hf⟩ := List.exists_cons_of_ne_nil (List.splitOn_ne_nil '\n' (spread [] xs))
    obtain ⟨f', r', hf'⟩ := List.exists_cons_of_ne_nil (List.splitOn_ne_nil '\n' (spread indent xs))
    have hle := ih hf hf'
    cases x with
    | none =>
      rw [spread_none, List.nil_append, hf] at h
      rw [spread_none, splitOn_append_left hindent, hf'] at h'
      obtain ⟨rfl, -⟩ := List.cons.inj h
      obtain ⟨rfl, -⟩ := List.cons.inj h'
      simp
      omega
    | some c =>
      rw [spread_some, List.splitOn_cons_eq_if_modifyHead, hf] at h
      rw [spread_some, List.splitOn_cons_eq_if_modifyHead, hf'] at h'
      by_cases hc : (c == '\n') = true
      · rw [if_pos hc] at h
        rw [← (List.cons.inj h).1]
        exact Nat.zero_le _
      · rw [if_neg hc] at h h'
        obtain ⟨rfl, -⟩ := List.cons.inj h
        obtain ⟨rfl, -⟩ := List.cons.inj h'
        simpa using hle

/-- Where the indent is put before every line, the places follow the line states. Two indents that start
differently tell. -/
theorem isSome_of_linesFrom
    (ha : LinesFrom ['a'] l ((spread [] xs).splitOn '\n') ((spread ['a'] xs).splitOn '\n'))
    (hb : LinesFrom ['b'] l ((spread [] xs).splitOn '\n') ((spread ['b'] xs).splitOn '\n')) :
    (xs.foldlM step l).isSome := by
  induction xs generalizing l with
  | nil => rfl
  | cons x xs ih =>
    cases x with
    | none =>
      cases l with
      | pending =>
        exact ih ((linesFrom_indent (by decide) (by decide)).mp ha)
          ((linesFrom_indent (by decide) (by decide)).mp hb)
      | consumed =>
        -- A second indent on the line would make it longer than it is without one.
        obtain ⟨first, rest, rest', hfirst, hfirst', -⟩ := ha
        obtain ⟨g, r, hg⟩ := List.exists_cons_of_ne_nil (List.splitOn_ne_nil '\n' (spread ['a'] xs))
        rw [spread_none, List.nil_append] at hfirst
        rw [spread_none, splitOn_append_left (by decide), hg] at hfirst'
        have hfree : '\n' ∉ ['a'] := by decide
        have hle := length_first_le hfree hfirst hg
        rw [← (List.cons.inj hfirst').1] at hle
        simp only [List.length_append, List.length_cons, List.length_nil] at hle
        omega
    | some c =>
      rw [spread_some, spread_some] at ha hb
      by_cases hc : c = '\n'
      · rw [hc, linesFrom_newline] at ha hb
        simpa [step, hc] using ih ha hb
      · cases l with
        | pending =>
          -- A line without its indent would have to start with every indent there is.
          have hhead : ∀ d : Char, LinesFrom [d] .pending ((c :: spread [] xs).splitOn '\n')
              ((c :: spread [d] xs).splitOn '\n') → c = d := by
            intro d h
            obtain ⟨f, r, hf⟩ := List.exists_cons_of_ne_nil (List.splitOn_ne_nil '\n' (spread [] xs))
            obtain ⟨g, r', hg⟩ := List.exists_cons_of_ne_nil (List.splitOn_ne_nil '\n' (spread [d] xs))
            simp [LinesFrom, List.splitOn_cons_eq_if_modifyHead, hc, hf, hg, IndentedLine] at h
            exact h.1.1
          exact absurd ((hhead 'a' ha).symm.trans (hhead 'b' hb)) (by decide)
        | consumed =>
          rw [linesFrom_consumed hc] at ha hb
          simpa [step, hc] using ih ha hb

/-- Every indent comes before every line that is not empty, once and nowhere else, exactly if its places
follow the line states. -/
theorem indentedLines_iff (xs : List (Option Char)) :
    (∀ indent, indent ≠ [] → '\n' ∉ indent → IndentedLines indent (spread [] xs) (spread indent xs)) ↔
      (xs.foldlM step .pending).isSome := by
  constructor
  · intro h
    apply isSome_of_linesFrom
    · exact h ['a'] (by decide) (by decide)
    · exact h ['b'] (by decide) (by decide)
  · intro h indent hne hindent
    exact linesFrom_of_isSome hindent hne h

end LineState
end Mustache
