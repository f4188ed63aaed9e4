/-! # Margins

Listings show the level of a line by blanks before it.
-/
namespace Mustache.Text

def margin (level : Nat) : String :=
  String.ofList (List.replicate (2 * level) ' ')

end Mustache.Text
