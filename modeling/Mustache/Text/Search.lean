/-! # Searching and slicing a text

`cutAt needle cs` splits a text at the first occurrence of `needle` and `runBefore stop cs` at the
first place where a condition on the remaining text holds; both lose nothing
(`append_cutAt`, `append_runBefore`). `slice` takes the part between two offsets, a negative one
counting from the end.
-/
namespace Mustache.Text

/-- What precedes the first occurrence of `needle` and what follows it. -/
def cutAt (needle : List Char) : List Char → Option (List Char × List Char)
  | [] => if needle.isEmpty then some ([], []) else none
  | c :: cs =>
    if needle.isPrefixOf (c :: cs) then some ([], (c :: cs).drop needle.length)
    else (cutAt needle cs).map fun (before, after) => (c :: before, after)

/-- The characters before the first place at which the remaining text satisfies `stop`, and the
text from there on. -/
def runBefore (stop : List Char → Bool) : List Char → List Char × List Char
  | [] => ([], [])
  | c :: cs =>
    if stop (c :: cs) then ([], c :: cs)
    else
      let (run, rest) := runBefore stop cs
      (c :: run, rest)

theorem append_runBefore (stop : List Char → Bool) (cs : List Char) :
    (runBefore stop cs).1 ++ (runBefore stop cs).2 = cs := by
  induction cs with
  | nil => rfl
  | cons c cs ih => by_cases h : stop (c :: cs) = true <;> simp [runBefore, h, ih]

theorem append_cutAt {needle cs before after : List Char}
    (h : cutAt needle cs = some (before, after)) : before ++ needle ++ after = cs := by
  induction cs generalizing before with
  | nil =>
    by_cases hn : needle.isEmpty = true
    · simp_all [cutAt]
    · simp [cutAt, hn] at h
  | cons c cs ih =>
    by_cases hp : needle.isPrefixOf (c :: cs) = true
    · simp only [cutAt, hp, if_true, Option.some.injEq, Prod.mk.injEq] at h
      obtain ⟨rfl, rfl⟩ := h
      have := List.prefix_iff_eq_append.1 (List.isPrefixOf_iff_prefix.1 hp)
      simpa using this
    · simp only [cutAt, hp] at h
      obtain ⟨⟨b, a⟩, hba, he⟩ := Option.map_eq_some_iff.1 h
      simp only [Prod.mk.injEq] at he
      obtain ⟨rfl, rfl⟩ := he
      simpa using ih hba

theorem length_cutAt {needle cs before after : List Char}
    (h : cutAt needle cs = some (before, after)) :
    before.length + needle.length + after.length = cs.length := by
  simpa [Nat.add_assoc] using congrArg List.length (append_cutAt h)

theorem length_runBefore_le (stop : List Char → Bool) (cs : List Char) :
    (runBefore stop cs).2.length ≤ cs.length := by
  have := congrArg List.length (append_runBefore stop cs)
  simp at this
  omega

/-- The number of characters before the place that an offset denotes in a text of this length: a
negative offset counts from the end, and no place lies outside the text. -/
def place (length : Nat) (offset : Int) : Nat :=
  if offset < 0 then (offset + length).toNat else min offset.toNat length

def slice (cs : List Char) (start stop : Int) : List Char :=
  (cs.take (place cs.length stop)).drop (place cs.length start)

end Mustache.Text
