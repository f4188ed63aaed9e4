import Mustache.Moment
import Mustache.Text.Quoted

/-! # Calls that give nothing

Lambdas of the data and methods of values are called without an argument or with one text. A call may
have the wrong number of arguments, an argument that does not fit, or nothing to give.
-/
namespace Mustache

/-- Why a call gives no text. -/
inductive CallError where
  | wrongArguments
  | raised (message : String)
  | takesNone (method : String)
  | takesOne (method : String)
  | takes (method : String) (count given : Nat)
  | missing (method argument : String)
  | notWhole
  /-- An argument is of another kind than the method asks for in these words. -/
  | unfit (requirement : String)
  | notStandard (text : String)
  | noMoment (e : MomentError)
  | noElement (shown : String)
  | noClock
  deriving DecidableEq, Repr

/-- The error in words; a lambda called with a wrong number of arguments has none. -/
def CallError.message : CallError → String
  | wrongArguments => ""
  | raised message => message
  | takesNone method => method ++ "() takes no arguments (1 given)"
  | takesOne method => method ++ "() takes exactly one argument (0 given)"
  | takes method count given =>
    method ++ "() takes exactly " ++ toString count ++ (if count = 1 then " argument" else " arguments") ++
      " (" ++ toString given ++ " given)"
  | missing method argument => method ++ "() missing required argument '" ++ argument ++ "' (pos 1)"
  | notWhole => "'str' object cannot be interpreted as an integer"
  | unfit requirement => requirement
  | notStandard text => "Invalid isoformat string: " ++ Text.quoted text
  | noMoment e => e.message
  | noElement shown => shown
  | noClock => "the present time is not known"

end Mustache
