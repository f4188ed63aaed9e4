import Mustache.Yaml.Plain
import Mustache.Yaml.Quoted
import Mustache.Yaml.Token

/-! # Reading the tokens of a document

A cursor goes over the document token by token. It knows the columns of the open block collections, the
open flow collections, and which tokens may still turn out to start a key: the colon that shows it comes
later, and then the token of a key is put in before them.
-/
namespace Mustache.Yaml

inductive Bracket where
  | square
  | curly
  deriving DecidableEq, Repr

structure Cursor where
  rest : List Char
  position : Position := {}
  /-- The columns of the open block collections, the innermost first. -/
  columns : List Nat := []
  brackets : List Bracket := []
  keyAllowed : Bool := true
  /-- The tokens that may still start a key, at most one for each level. -/
  keys : List PossibleKey := []
  count : Nat := 0
  newest : List Token := []

namespace Cursor

def inFlow (s : Cursor) : Bool :=
  !s.brackets.isEmpty

def level (s : Cursor) : Nat :=
  s.brackets.length

def push (s : Cursor) (t : Token) : Cursor :=
  { s with count := s.count + 1, newest := t :: s.newest }

def insert (s : Cursor) (index : Nat) (ts : List Token) : Cursor :=
  let later := s.count - index
  { s with
    count := s.count + ts.length
    newest := s.newest.take later ++ ts.reverse ++ s.newest.drop later }

def next (s : Cursor) (c : Char) (cs : List Char) : Cursor :=
  { s with rest := cs, position := s.position.next c }

/-- Closes the block collections whose columns do not belong to a list of those that stay open. -/
def closeTo (s : Cursor) (stay : Nat → Bool) : Cursor :=
  if s.inFlow then s
  else
    let closed := s.columns.takeWhile fun column => !stay column
    let after : Cursor := { s with columns := s.columns.drop closed.length }
    closed.foldl (fun s _ => s.push .blockEnd) after

def closeRight (s : Cursor) : Cursor :=
  s.closeTo fun column => column ≤ s.position.column

def closeAll (s : Cursor) : Cursor :=
  s.closeTo fun _ => false

def isDeeper (s : Cursor) (column : Nat) : Bool :=
  s.columns.head?.all (· < column)

/-- The cursor without the keys that can be none any more; a required key must not be among them. -/
def dropLate (s : Cursor) : Except YamlError Cursor :=
  if s.keys.any fun k => k.required && !k.isOpen s.position then .error .malformed
  else .ok { s with keys := s.keys.filter (·.isOpen s.position) }

def forgetKey (s : Cursor) : Except YamlError Cursor :=
  if s.keys.any fun k => k.level = s.level && k.required then .error .malformed
  else .ok { s with keys := s.keys.filter (·.level ≠ s.level) }

def noteKey (s : Cursor) : Except YamlError Cursor :=
  if !s.keyAllowed then .ok s
  else do
    let s ← s.forgetKey
    let required := !s.inFlow && s.columns.head? = some s.position.column
    return { s with keys := ⟨s.level, s.count, s.position, required⟩ :: s.keys }

/-- Passes over blanks, breaks and comments; tabs are blanks only inside flow collections. After a break
a key may start. -/
def skipGap (flow inComment broken : Bool) (p : Position) :
    List Char → Bool × Position × List Char
  | [] => (broken, p, [])
  | c :: cs =>
    if inComment && !isBreak c then skipGap flow true broken (p.next c) cs
    else if isBreak c then skipGap flow false true (p.next c) cs
    else if c = ' ' || (flow && c = '\t') then skipGap flow false broken (p.next c) cs
    else if c = '#' then skipGap flow true broken (p.next c) cs
    else (broken, p, c :: cs)

def toToken (s : Cursor) : Except YamlError Cursor := do
  let (broken, p, rest) := skipGap s.inFlow false false s.position s.rest
  let s := { s with rest := rest, position := p, keyAllowed := s.keyAllowed || (broken && !s.inFlow) }
  return (← s.dropLate).closeRight

def mark (s : Cursor) (t : Token) : Except YamlError Cursor := do
  let s ← s.closeAll.forgetKey
  let after := s.position.past (s.rest.take 3)
  return ({ s with keyAllowed := false, rest := s.rest.drop 3, position := after } : Cursor).push t

def openFlow (s : Cursor) (b : Bracket) (t : Token) (c : Char) (cs : List Char) :
    Except YamlError Cursor := do
  let s ← s.noteKey
  return ({ s with brackets := b :: s.brackets, keyAllowed := true } : Cursor).push t |>.next c cs

def closeFlow (s : Cursor) (t : Token) (c : Char) (cs : List Char) : Except YamlError Cursor := do
  let s ← s.forgetKey
  return ({ s with brackets := s.brackets.tail, keyAllowed := false } : Cursor).push t |>.next c cs

def comma (s : Cursor) (c : Char) (cs : List Char) : Except YamlError Cursor := do
  let s ← s.forgetKey
  return ({ s with keyAllowed := true } : Cursor).push .comma |>.next c cs

/-- Opens a block collection at the cursor, unless one is open there. A collection may start only where
a key may. -/
def openBlock (s : Cursor) (t : Token) : Except YamlError Cursor :=
  if s.inFlow then .ok s
  else if !s.keyAllowed then .error .malformed
  else if s.isDeeper s.position.column then
    .ok (({ s with columns := s.position.column :: s.columns } : Cursor).push t)
  else .ok s

def dash (s : Cursor) (c : Char) (cs : List Char) : Except YamlError Cursor := do
  let s ← (← s.openBlock .sequenceStart).forgetKey
  return ({ s with keyAllowed := true } : Cursor).push .dash |>.next c cs

def questionMark (s : Cursor) (c : Char) (cs : List Char) : Except YamlError Cursor := do
  let s ← (← s.openBlock .mappingStart).forgetKey
  return ({ s with keyAllowed := !s.inFlow } : Cursor).push .key |>.next c cs

/-- Takes a colon: it makes a key of the possible key of its level, if there is one. -/
def colon (s : Cursor) (c : Char) (cs : List Char) : Except YamlError Cursor :=
  match s.keys.find? (·.level = s.level) with
  | some k =>
    let s := { s with keys := s.keys.filter (·.level ≠ s.level), keyAllowed := false }
    let s :=
      if !s.inFlow && s.isDeeper k.start.column then
        ({ s with columns := k.start.column :: s.columns } : Cursor).insert k.index
          [.mappingStart, .key]
      else s.insert k.index [.key]
    .ok ((s.push .value).next c cs)
  | none => do
    let s ← (← s.openBlock .mappingStart).forgetKey
    return ({ s with keyAllowed := !s.inFlow } : Cursor).push .value |>.next c cs

def scalar (s : Cursor) (plain : Bool) (read : Except YamlError ScalarRead) :
    Except YamlError Cursor := do
  let s ← s.noteKey
  let r ← read
  return ({ s with keyAllowed := false, rest := r.rest, position := r.position } : Cursor).push
    (.scalar r.text.reverse plain)

def plainHere (s : Cursor) (c : Char) (cs : List Char) : ScalarRead :=
  let margin := match s.columns with
    | [] => 0
    | column :: _ => column + 1
  plainScalar s.inFlow margin [c] none ⟨[], s.position, []⟩ (s.position.next c) cs

def awaitsKey (s : Cursor) : Bool :=
  s.newest.head? = some .value && s.keys.any (·.isOpen s.position)

/-- Whether a colon before `rest` stands before a value. In a flow map it always does, unless it follows
another one in what may still be a key as a whole. -/
def startsValue (s : Cursor) (afterColon : Bool) (rest : List Char) : Bool :=
  endsWord rest || (s.brackets.head? = some .curly && !afterColon)

def take (s : Cursor) (afterColon : Bool) (c : Char) (cs : List Char) : Except YamlError Cursor :=
  let atStart := s.position.column = 0
  if atStart && c = '%' then .error .malformed
  else if atStart && startsWithThree '-' (c :: cs) then s.mark .documentStart
  else if atStart && startsWithThree '.' (c :: cs) then s.mark .documentEnd
  else if c = '[' then s.openFlow .square .flowSequenceStart c cs
  else if c = '\x7b' then s.openFlow .curly .flowMappingStart c cs
  else if c = ']' then s.closeFlow .flowSequenceEnd c cs
  else if c = '\x7d' then s.closeFlow .flowMappingEnd c cs
  else if c = ',' then s.comma c cs
  else if c = '-' && endsWord cs then s.dash c cs
  else if c = '?' && (s.inFlow || endsWord cs) then s.questionMark c cs
  else if c = ':' && s.startsValue afterColon cs then s.colon c cs
  else if c = '\'' then s.scalar false (singleQuoted {} (s.position.next c) cs)
  else if c = '"' then s.scalar false (doubleQuoted {} .none (s.position.next c) cs)
  else if startsPlain c cs then s.scalar true (.ok (s.plainHere c cs))
  else .error .malformed

def tokens (s : Cursor) : Nat → Except YamlError (List Token)
  | 0 => .error .malformed
  | fuel + 1 => do
    let afterColon := s.awaitsKey
    let s ← s.toToken
    match s.rest with
    | [] => return (← s.closeAll.forgetKey).newest.reverse
    | c :: cs => (← s.take afterColon c cs).tokens fuel

end Cursor

/-- The tokens of a document. Every token takes at least one character; a byte order mark before them
all is passed over. -/
def tokenize (document : List Char) : Except YamlError (List Token) :=
  let cursor : Cursor := match document with
    | c :: cs =>
      if c = byteOrderMark then { rest := cs, position := Position.next {} c }
      else { rest := c :: cs }
    | [] => { rest := [] }
  cursor.tokens (document.length + 1)

end Mustache.Yaml
