import Mustache.Digest.Md5
import Mustache.Lookup
import Mustache.Text.Margin
import Mustache.Text.Quoted

/-! # Instructions

A compiled template is a list of instructions. A section's instruction refers to a routine, the
compiled body of every section with the same raw text and the same delimiters; the routine's key is
the digest of both.
-/
namespace Mustache

/-- A section body compiled once: its key, its raw text, the tag that sets its delimiters (none for the
standard ones) and its instructions. -/
structure Routine (α : Type) where
  key : String
  source : String
  delimiters : Option String
  body : List α
  deriving Repr

/-- One step of a compiled template. `indent` marks the first thing put on a line, `inline` a tag that
has something before it on its line. -/
inductive Instruction where
  | literal (text : String) (indent : Bool)
  | interpolate (lookup : Lookup) (name : String) (escape indent : Bool)
  | callSection (routine : Routine Instruction) (lookup : Lookup) (name : String) (inline : Bool)
  | callInverted (lookup : Lookup) (name : String) (body : List Instruction)
  | callPartial (name indent : String) (inline : Bool)

/-- What the key of a section body is the digest of: the tag that sets its delimiters, a line break and
its raw text. -/
def sectionPayload (source : String) (delimiters : Option String) : String :=
  delimiters.getD "" ++ "\n" ++ source

def sectionKey (source : String) (delimiters : Option String) : String :=
  Digest.Md5.hex (sectionPayload source delimiters)

def shortKey (key : String) : String :=
  String.ofList (key.toList.take 8)

namespace Instruction

def mark (indent : Bool) : String := if indent then " +indent" else ""

mutual

def describeOne (level : Nat) : Instruction → List String
  | literal text indent =>
    [Text.margin level ++ "text " ++ Text.quoted text ++ mark indent]
  | interpolate lookup name escape indent =>
    [Text.margin level ++ "var " ++ lookup.label ++ " " ++ Text.quoted name ++
      (if escape then " escaped" else " raw") ++ mark indent]
  | callSection routine lookup name _ =>
    [Text.margin level ++ "section " ++ lookup.label ++ " " ++ Text.quoted name ++ " -> " ++
      shortKey routine.key]
  | callInverted lookup name body =>
    (Text.margin level ++ "inverted " ++ lookup.label ++ " " ++ Text.quoted name) ::
      describeLines (level + 1) body
  | callPartial name indent _ =>
    [Text.margin level ++ "partial " ++ Text.quoted name ++ " indent " ++ Text.quoted indent]

def describeLines (level : Nat) : List Instruction → List String
  | [] => []
  | i :: is => describeOne level i ++ describeLines level is

end

mutual

/-- The routines that an instruction refers to, put after those found before it: at its first use each
routine comes before those of its own body. -/
def routinesOne (found : List (Routine Instruction)) : Instruction → List (Routine Instruction)
  | callSection ⟨key, source, delimiters, body⟩ _ _ _ =>
    if found.any (·.key = key) then found
    else routinesOf (found ++ [⟨key, source, delimiters, body⟩]) body
  | callInverted _ _ body => routinesOf found body
  | literal _ _ | interpolate _ _ _ _ | callPartial _ _ _ => found

def routinesOf (found : List (Routine Instruction)) : List Instruction → List (Routine Instruction)
  | [] => found
  | i :: is => routinesOf (routinesOne found i) is

end

end Instruction
end Mustache
