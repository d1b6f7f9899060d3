import UtilityCss.Utility.Keyword

/-!
# Selectors

A class name is escaped so that it reads as one CSS identifier. The variants of a token then add
pseudo-classes, a pseudo-element and ancestors around the class, and the first breakpoint among them becomes
the media query of the rule.
-/

namespace UtilityCss.Selector

def hexEscape (c : Char) : List Char := '\\' :: Nat.toDigits 16 c.toNat ++ [' ']

def isPlain (c : Char) : Bool := 0x80 ≤ c.toNat || c.isAlphanum || c == '-' || c == '_'

def escapeChar (c : Char) : List Char :=
  if c.toNat = 0 then ['\uFFFD']
  else if c.toNat < 0x20 ∨ c.toNat = 0x7F then hexEscape c
  else if isPlain c then [c]
  else ['\\', c]

/-- Where an identifier starts, a digit is written as its code point. -/
def escapeStart (c : Char) : List Char := if c.isDigit then hexEscape c else escapeChar c

def escapeChars : List Char → List Char
  | [] => []
  | ['-'] => ['\\', '-']
  | '-' :: c :: cs => '-' :: escapeStart c ++ cs.flatMap escapeChar
  | c :: cs => escapeStart c ++ cs.flatMap escapeChar

def escape (name : String) : String := String.ofList (escapeChars name.toList)

/-- What the variants of a token ask for. States are kept in the order of their first mention. -/
structure Context where
  states : List String := []
  groupStates : List String := []
  element : String := ""
  dark : Bool := false
  media : Option String := none
  deriving DecidableEq, Repr

namespace Context

def addNew (state : String) (states : List String) : List String :=
  if states.contains state then states else states ++ [state]

/-- The last pseudo-element counts, but the first breakpoint. -/
def add (context : Context) : Variant → Context
  | .state pseudoClass => { context with states := addNew pseudoClass context.states }
  | .group pseudoClass => { context with groupStates := addNew pseudoClass context.groupStates }
  | .element pseudoElement => { context with element := pseudoElement }
  | .breakpoint minWidth =>
    { context with media := context.media <|> some s!"(min-width: {minWidth}px)" }
  | .dark => { context with dark := true }

def ofVariants (variants : List Variant) : Context := variants.foldl add {}

def ofNames (names : List String) : Context := ofVariants (names.filterMap Variant.ofName?)

def ancestors (context : Context) (classPrefix : String) : List String :=
  let states := String.join context.groupStates
  let groups :=
    if context.groupStates.isEmpty then [""]
    else if classPrefix.isEmpty then ["." ++ groupClass ++ states ++ " "]
    else ["." ++ groupClass ++ states ++ " ",
      "." ++ escape (classPrefix ++ "-" ++ groupClass) ++ states ++ " "]
  if context.dark then groups.map (".dark " ++ ·) else groups

def parts (context : Context) (name suffix classPrefix : String) : List String :=
  let own := "." ++ escape name ++ String.join context.states ++ suffix ++ context.element
  (context.ancestors classPrefix).map (· ++ own)

end Context

def parts (name : String) (variants : List String) (suffix classPrefix : String) :
    List String × Option String :=
  let context := Context.ofNames variants
  (context.parts name suffix classPrefix, context.media)

def listed (selectors : List String) : String := ", ".intercalate selectors

end UtilityCss.Selector
