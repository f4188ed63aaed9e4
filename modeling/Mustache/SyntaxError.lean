/-! # Errors in a template's text

A syntax error is a fault with the line of the tag at fault. The line is missing only where delimiters
are read that stand in no template.
-/
namespace Mustache

inductive SyntaxFault where
  /-- No closing delimiter follows the opening one, which is shown with the character after it. -/
  | unclosedTag (opening sigil : String)
  | emptyTag (text : String)
  | invalidDelimiters (text : String)
  | unexpectedClose (name : String)
  | mismatchedClose (opened : String) (line : Nat) (closed : String)
  | unclosedSection (name : String)
  deriving DecidableEq, Repr

structure SyntaxError where
  fault : SyntaxFault
  line : Option Int
  deriving DecidableEq, Repr

def SyntaxFault.message : SyntaxFault → String
  | .unclosedTag opening sigil => "Unclosed tag '" ++ opening ++ sigil ++ "'"
  | .emptyTag text => "Empty tag '" ++ text ++ "'"
  | .invalidDelimiters text => "Invalid delimiter tag '" ++ text ++ "'"
  | .unexpectedClose name => "Unexpected closing tag '" ++ name ++ "'"
  | .mismatchedClose opened line closed =>
    "Section '" ++ opened ++ "' (line " ++ toString line ++ ") closed by '" ++ closed ++ "'"
  | .unclosedSection name => "Unclosed section '" ++ name ++ "'"

/-- The error as it is shown: the fault, then the line if it is known. -/
def SyntaxError.message (e : SyntaxError) : String :=
  match e.line with
  | some line => e.fault.message ++ " on line " ++ toString line
  | none => e.fault.message

end Mustache
