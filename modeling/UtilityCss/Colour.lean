/-!
# Colours on a terminal

A coloured text stands between the code that switches the colour on and the code that switches it off.
-/

namespace UtilityCss

inductive Colour
  | red
  | yellow
  | green
  | blue
  deriving DecidableEq, Repr

namespace Colour

def code : Colour → String
  | red => "\x1b[0;31m"
  | yellow => "\x1b[1;33m"
  | green => "\x1b[0;32m"
  | blue => "\x1b[0;34m"

def reset : String := "\x1b[0m"

def paint (colour : Colour) (text : String) : String := colour.code ++ text ++ reset

end Colour

end UtilityCss
