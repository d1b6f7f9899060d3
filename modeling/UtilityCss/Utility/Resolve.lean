import UtilityCss.Utility.Bracketed
import UtilityCss.Utility.Composite
import UtilityCss.Utility.Effect
import UtilityCss.Utility.Gradient
import UtilityCss.Utility.Keyword
import UtilityCss.Utility.Scaled
import UtilityCss.Utility.Transform

/-!
# Resolving a token

A bracketed name is only ever read as a property with a value. Any other name is tried in each family in
turn, and the first that knows it decides.
-/

namespace UtilityCss

/-- The families of names without brackets, in the order in which they are tried. -/
def families (naming : Naming) : List (Token → Option Resolution) := [
  Token.keyword?,
  Token.scaled?,
  Token.colored? naming,
  Token.composite?,
  Token.formula?,
  Token.transform?,
  Token.gradient? naming,
  Token.effect?]

def Token.resolve? (naming : Naming) (token : Token) : Option Resolution :=
  if token.arbitrary.isSome then token.bracketed?
  else (families naming).findSome? fun family => family token

end UtilityCss
