import UtilityCss.Scale
import UtilityCss.Utility.Formula

/-!
# Transforms

Each transform sets its own custom property and composes the whole transform anew, so that a translation, a
rotation and a scaling combine on one element. Translations and rotations may be negative.
-/

namespace UtilityCss

namespace Transform

def composed : String := declare ["transform"]
  ("translate(var(--tw-translate-x, 0), var(--tw-translate-y, 0)) " ++
   "rotate(var(--tw-rotate, 0)) scaleX(var(--tw-scale-x, 1)) scaleY(var(--tw-scale-y, 1))")

def factor (percent : Int) : String :=
  { Decimal.hundredths percent.natAbs with negative := decide (percent < 0) }.render

def translate? (negative : Bool) (property name beginning : String) : Option String := do
  let key ← Formula.argument? beginning name
  guard (!key.isEmpty && !key.contains '\n')
  let value ← Scale.translation? key
  some (declare [property] (if negative && value ≠ "0" then "-" ++ value else value))

def rotate? (negative : Bool) (name : String) : Option String := do
  let argument ← Formula.argument? "rotate-" name
  let degrees ← Text.digits? 3 argument.toList
  some (declare ["--tw-rotate"]
    (if negative && degrees ≠ 0 then s!"-{degrees}deg" else s!"{degrees}deg"))

def scale? (negative : Bool) (name : String) : Option String := do
  guard (!negative)
  let argument ← Formula.argument? "scale-" name
  let percent ← Text.digits? 3 argument.toList
  some (declare ["--tw-scale-x", "--tw-scale-y"] (factor percent))

def property? (negative : Bool) (name : String) : Option String :=
  translate? negative "--tw-translate-x" name "translate-x-" <|>
  translate? negative "--tw-translate-y" name "translate-y-" <|>
  rotate? negative name <|>
  scale? negative name

end Transform

def Token.transform? (token : Token) : Option Resolution :=
  (Transform.property? token.negative token.name).map fun property =>
    { strategy := .transform, declarations := property ++ " " ++ Transform.composed }

end UtilityCss
