import Mustache.SyntaxError
import Mustache.Text.Newline
import Mustache.Text.Search
import Mustache.Token

/-! # Reading tokens

A cursor holds the delimiters in force, the offset, the line and the text that remains. `step` reads
one token and moves the cursor on; where the remaining text starts with the opening delimiter the
token is a tag, up to the first place where its closing text is found. Every step leaves less text
(`step_lt`), so `tokens` reads a text to its end.
-/
namespace Mustache

structure Cursor where
  delimiters : Delimiters
  offset : Nat
  line : Nat
  rest : List Char
  deriving DecidableEq, Repr

namespace Cursor

def start (source : List Char) : Cursor :=
  ⟨.standard, 0, 1, source⟩

/-- How a tag goes on after its opening delimiter: its kind, what stands before its closing delimiter,
and the text after the character that tells the kind. -/
def tagForm : List Char → TokenKind × List Char × List Char
  | '\x7b' :: body => (.unescaped, ['\x7d'], body)
  | '=' :: body => (.delimiterTag, ['='], body)
  | '#' :: body => (.sectionStart, [], body)
  | '^' :: body => (.invertedStart, [], body)
  | '/' :: body => (.sectionEnd, [], body)
  | '>' :: body => (.partialTag, [], body)
  | '!' :: body => (.comment, [], body)
  | '&' :: body => (.unescaped, [], body)
  | body => (.escaped, [], body)

def advance (s : Cursor) (raw rest : List Char) : Cursor :=
  { s with offset := s.offset + raw.length, line := s.line + Text.newlines raw, rest := rest }

def token (s : Cursor) (kind : TokenKind) (value raw : List Char) : Token where
  kind := kind
  value := String.ofList value
  line := s.line
  start := s.offset
  stop := s.offset + raw.length

/-- Reads the tag at the cursor, where `inner` is the text after its opening delimiter. -/
def readTag (s : Cursor) (inner : List Char) : Except SyntaxError (Token × Cursor) :=
  let (kind, before, body) := tagForm inner
  match Text.cutAt (before ++ s.delimiters.closing.toList) body with
  | none =>
    .error ⟨.unclosedTag s.delimiters.opening (String.ofList (inner.take 1)), some s.line⟩
  | some (between, rest) =>
    let raw := s.rest.take (s.rest.length - rest.length)
    let value := Text.strip Text.isBlank between
    let tag := { s.token kind value raw with delimiters := s.delimiters }
    if value.isEmpty && kind != .comment then
      .error ⟨.emptyTag (String.ofList raw), some s.line⟩
    else if kind = .delimiterTag then
      match Delimiters.read? value with
      | none => .error ⟨.invalidDelimiters tag.value, some s.line⟩
      | some d => .ok (tag, { s.advance raw rest with delimiters := d })
    else .ok (tag, s.advance raw rest)

/-- Whether a run of text ends where this remains. -/
def endsText (opening : List Char) : List Char → Bool
  | [] => true
  | c :: cs => c == '\n' || opening.isPrefixOf (c :: cs)

def step (s : Cursor) : Option (Except SyntaxError (Token × Cursor)) :=
  let opening := s.delimiters.opening.toList
  match s.rest with
  | [] => none
  | c :: cs =>
    if opening.isPrefixOf (c :: cs) then some (s.readTag (cs.drop (opening.length - 1)))
    else if c = '\n' then some (.ok (s.token .newline [c] [c], s.advance [c] cs))
    else
      let (run, rest) := Text.runBefore (endsText opening) cs
      some (.ok (s.token .text (c :: run) (c :: run), s.advance (c :: run) rest))

theorem tagForm_length_le (inner : List Char) : (tagForm inner).2.2.length ≤ inner.length := by
  unfold tagForm
  split <;> simp

theorem readTag_length_le {s s' : Cursor} {inner : List Char} {t : Token}
    (h : s.readTag inner = .ok (t, s')) : s'.rest.length ≤ inner.length := by
  unfold readTag at h
  have hform := tagForm_length_le inner
  rcases hf : tagForm inner with ⟨kind, before, body⟩
  simp only [hf] at h hform
  split at h
  · simp at h
  · rename_i between rest hcut
    have hlen := Text.length_cutAt hcut
    split at h
    · simp at h
    · split at h
      · split at h
        · simp at h
        · obtain ⟨-, rfl⟩ := Prod.mk.inj (Except.ok.inj h)
          simp only [advance]
          omega
      · obtain ⟨-, rfl⟩ := Prod.mk.inj (Except.ok.inj h)
        simp only [advance]
        omega

theorem step_lt {s s' : Cursor} {t : Token} (h : s.step = some (.ok (t, s'))) :
    s'.rest.length < s.rest.length := by
  unfold step at h
  simp only at h
  split at h
  · simp at h
  · rename_i c cs hrest
    rw [hrest]
    split at h
    · have := readTag_length_le (Option.some.inj h)
      simp only [List.length_drop] at this
      simp only [List.length_cons]
      omega
    · split at h
      · obtain ⟨-, rfl⟩ := Prod.mk.inj (Except.ok.inj (Option.some.inj h))
        simp [advance]
      · obtain ⟨-, rfl⟩ := Prod.mk.inj (Except.ok.inj (Option.some.inj h))
        have := Text.length_runBefore_le (endsText s.delimiters.opening.toList) cs
        simp only [advance, List.length_cons]
        omega

def tokens (s : Cursor) : Except SyntaxError (List Token) :=
  match _h : s.step with
  | none => .ok []
  | some (.error e) => .error e
  | some (.ok (t, s')) => (t :: ·) <$> s'.tokens
termination_by s.rest.length
decreasing_by exact step_lt (by assumption)

end Cursor
end Mustache
