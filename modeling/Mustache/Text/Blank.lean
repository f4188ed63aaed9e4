/-! # White space, and what is cut at it

A tag's name may stand between any white space of Unicode; a line counts as empty only where it
holds spaces, tabs and carriage returns. `strip` takes a class off both ends of a text and `words`
lists the runs that are free of white space: every word is non-empty and holds none
(`ne_nil_of_mem_words`, `not_isBlank_of_mem_words`), which is why delimiters read from words are
usable as delimiters.
-/
namespace Mustache.Text

/-- White space of Unicode: the controls from tab to carriage return and from the file separator to
the space, the next-line control, and the separators of lines, paragraphs and spaces. -/
def isBlank (c : Char) : Bool :=
  let n := c.toNat
  (0x09 ≤ n && n ≤ 0x0D) || (0x1C ≤ n && n ≤ 0x20) || n == 0x85 || n == 0xA0 || n == 0x1680 ||
    (0x2000 ≤ n && n ≤ 0x200A) || n == 0x2028 || n == 0x2029 || n == 0x202F || n == 0x205F ||
    n == 0x3000

/-- The blanks that may surround a tag on a line of its own. -/
def isLineBlank (c : Char) : Bool :=
  c == ' ' || c == '\t' || c == '\r'

def stripRight (p : Char → Bool) (cs : List Char) : List Char :=
  (cs.reverse.dropWhile p).reverse

def strip (p : Char → Bool) (cs : List Char) : List Char :=
  stripRight p (cs.dropWhile p)

def consWord (run : List Char) (rest : List (List Char)) : List (List Char) :=
  if run.isEmpty then rest else run :: rest

def headAndWords : List Char → List Char × List (List Char)
  | [] => ([], [])
  | c :: cs =>
    let (run, rest) := headAndWords cs
    if isBlank c then ([], consWord run rest) else (c :: run, rest)

def words (cs : List Char) : List (List Char) :=
  consWord (headAndWords cs).1 (headAndWords cs).2

theorem mem_consWord {w run : List Char} {rest : List (List Char)} :
    w ∈ consWord run rest ↔ (w = run ∧ run ≠ []) ∨ w ∈ rest := by
  cases run <;> simp [consWord]

theorem not_isBlank_of_mem_headAndWords (cs : List Char) :
    (∀ c ∈ (headAndWords cs).1, isBlank c = false) ∧
      ∀ w ∈ (headAndWords cs).2, w ≠ [] ∧ ∀ c ∈ w, isBlank c = false := by
  induction cs with
  | nil => simp [headAndWords]
  | cons c cs ih =>
    by_cases hc : isBlank c = true
    · simp only [headAndWords, hc, if_true, mem_consWord]
      refine ⟨by simp, ?_⟩
      rintro w (⟨rfl, hw⟩ | hw)
      · exact ⟨hw, ih.1⟩
      · exact ih.2 w hw
    · have hc : isBlank c = false := by simpa using hc
      simp only [headAndWords, hc]
      exact ⟨by simpa [hc] using ih.1, ih.2⟩

theorem ne_nil_of_mem_words {cs w : List Char} (h : w ∈ words cs) : w ≠ [] := by
  rcases mem_consWord.1 h with ⟨rfl, hw⟩ | hw
  · exact hw
  · exact ((not_isBlank_of_mem_headAndWords cs).2 w hw).1

theorem not_isBlank_of_mem_words {cs w : List Char} (h : w ∈ words cs) :
    ∀ c ∈ w, isBlank c = false := by
  rcases mem_consWord.1 h with ⟨rfl, -⟩ | hw
  · exact (not_isBlank_of_mem_headAndWords cs).1
  · exact ((not_isBlank_of_mem_headAndWords cs).2 w hw).2

end Mustache.Text
