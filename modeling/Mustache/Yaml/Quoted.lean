import Mustache.Text.Hex
import Mustache.Yaml.Error
import Mustache.Yaml.Gap

/-! # Quoted scalars in a document

Between single quotes a quote is written twice; between double quotes a backslash starts an escape. Line
breaks fold in both, whatever the indentation, but the mark of a document's start or end must not stand
after a break.
-/
namespace Mustache.Yaml

/-- A quoted scalar so far: its text, the newest character first, and the gap after it. -/
structure QuotedText where
  text : List Char := []
  gap : Gap := {}

namespace QuotedText

def settled (q : QuotedText) : QuotedText :=
  { text := q.gap.after q.text }

def push (q : QuotedText) (c : Char) : QuotedText :=
  { text := c :: q.settled.text }

def blank (q : QuotedText) (c : Char) : QuotedText :=
  { q with gap := q.gap.blank c }

def lineBreak (q : QuotedText) (c : Char) : QuotedText :=
  { q with gap := q.gap.lineBreak c }

def joined (q : QuotedText) : QuotedText :=
  { text := q.settled.text, gap := { joined := true } }

def finish (q : QuotedText) (p : Position) (rest : List Char) : ScalarRead :=
  ⟨q.settled.text, p, rest⟩

end QuotedText

def singleQuoted (q : QuotedText) (p : Position) : List Char → Except YamlError ScalarRead
  | [] => .error .malformed
  | '\'' :: '\'' :: cs => singleQuoted (q.push '\'') ((p.next '\'').next '\'') cs
  | c :: cs =>
    if c = '\'' then .ok (q.finish (p.next c) cs)
    else if isBreak c then
      if startsWithMark cs then .error .malformed else singleQuoted (q.lineBreak c) (p.next c) cs
    else if c = ' ' || c = '\t' then singleQuoted (q.blank c) (p.next c) cs
    else singleQuoted (q.push c) (p.next c) cs

def simpleEscape? (c : Char) : Option Char :=
  match c with
  | '0' => some '\x00'
  | 'a' => some '\x07'
  | 'b' => some '\x08'
  | 't' | '\t' => some '\t'
  | 'n' => some '\n'
  | 'v' => some '\x0b'
  | 'f' => some '\x0c'
  | 'r' => some '\r'
  | 'e' => some '\x1b'
  | ' ' => some ' '
  | '"' => some '"'
  | '/' => some '/'
  | '\\' => some '\\'
  | 'N' => some nextLine
  | '_' => some (Char.ofNat 0xA0)
  | 'L' => some (Char.ofNat 0x2028)
  | 'P' => some (Char.ofNat 0x2029)
  | _ => none

def escapeWidth? (c : Char) : Option Nat :=
  match c with
  | 'x' => some 2
  | 'u' => some 4
  | 'U' => some 8
  | _ => none

inductive Escape where
  | none
  | letter
  /-- Some digits remain after those of `value`. A code in the upper half of a pair is kept until the
  lower half is there. -/
  | digits (left value : Nat) (upper : Option Nat)

def isUpperHalf (n : Nat) : Bool :=
  0xD800 ≤ n && n < 0xDC00

def isLowerHalf (n : Nat) : Bool :=
  0xDC00 ≤ n && n < 0xE000

/-- The character of a code, after the upper half of a pair if there is one. -/
def charOfCode (upper : Option Nat) (n : Nat) : Except YamlError Char :=
  match upper with
  | some u =>
    if isLowerHalf n then .ok (Char.ofNat (0x10000 + (u - 0xD800) * 0x400 + (n - 0xDC00)))
    else .error .malformed
  | none =>
    if isLowerHalf n then .error .malformed
    else if 0x110000 ≤ n then .error (.scalar (.noCodePoint n))
    else .ok (Char.ofNat n)

def doubleQuoted (q : QuotedText) (escape : Escape) (p : Position) :
    List Char → Except YamlError ScalarRead
  | [] => .error .malformed
  | c :: cs =>
    match escape with
    | .none =>
      if c = '"' then .ok (q.finish (p.next c) cs)
      else if c = '\\' then doubleQuoted q .letter (p.next c) cs
      else if isBreak c then
        if startsWithMark cs then .error .malformed
        else doubleQuoted (q.lineBreak c) .none (p.next c) cs
      else if c = ' ' || c = '\t' then doubleQuoted (q.blank c) .none (p.next c) cs
      else doubleQuoted (q.push c) .none (p.next c) cs
    | .letter =>
      if isBreak c then
        if startsWithMark cs then .error .malformed
        else doubleQuoted q.joined .none (p.next c) cs
      else match simpleEscape? c, escapeWidth? c with
        | some x, _ => doubleQuoted (q.push x) .none (p.next c) cs
        | none, some width => doubleQuoted q (.digits (width - 1) 0 none) (p.next c) cs
        | none, none => .error .malformed
    | .digits left value upper =>
      match Text.hexValue? c with
      | none => .error .malformed
      | some d =>
        let n := 16 * value + d
        match left with
        | left + 1 => doubleQuoted q (.digits left n upper) (p.next c) cs
        | 0 =>
          if upper.isNone && isUpperHalf n then
            match cs with
            | '\\' :: 'u' :: more =>
              doubleQuoted q (.digits 3 0 (some n)) (((p.next c).next '\\').next 'u') more
            | _ => .error .malformed
          else match charOfCode upper n with
            | .ok x => doubleQuoted (q.push x) .none (p.next c) cs
            | .error e => .error e

end Mustache.Yaml
