import UtilityCss.Decimal
import UtilityCss.Palette
import UtilityCss.Rgb
import UtilityCss.Utility.Basic

/-!
# Colors of an element

`bg-red-500`, `text-primary/50`: a property name, a dash, a color and an optional opacity in percent. With
an opacity a hexadecimal color gains an alpha channel, a semantic color is mixed with transparent, and a
keyword stays as it is.
-/

namespace UtilityCss

inductive Color
  | hex (digits : String)
  /-- A custom property of the base style sheet. -/
  | semantic (property : String)
  | keyword (word : String)
  deriving DecidableEq, Repr

namespace Color

def ofName? (naming : Naming) (name : String) : Option Color :=
  if Palette.semantic.contains (Palette.surface name) then
    some (semantic (naming.variablePrefix ++ "-" ++ name))
  else
    match Palette.special.lookup name with
    | some value => some (if Text.beginsWith "#" value then hex value else keyword value)
    | none => do
      let (family, shade) ← Text.cutLast? '-' name
      (Palette.hex? family shade).map hex

def css : Color → String
  | hex digits => digits
  | semantic property => "var(--" ++ property ++ ")"
  | keyword word => word

def alpha? (percent : String) : Option String := do
  let amount ← Text.digits? 3 percent.toList
  if amount ≤ 100 then some (Decimal.hundredths amount).render else none

def translucent? (color : Color) (percent : String) : Option String := do
  let alpha ← alpha? percent
  match color with
  | hex digits => do
    let rgb ← Rgb.ofHex? digits
    some s!"rgb({rgb.red} {rgb.green} {rgb.blue} / {alpha})"
  | semantic _ => do
    let amount ← Text.digits? 3 percent.toList
    some s!"color-mix(in srgb, {color.css} {amount}%, transparent)"
  | keyword word => some word

def cssWith? (color : Color) : Option String → Option String
  | none => some color.css
  | some percent => color.translucent? percent

end Color

/-- What a name denotes as a color after one of its first parts, the opacity taken off the end. -/
def Token.colorAfter? (token : Token) (naming : Naming) (rest : String) : Option String := do
  let name := match token.opacity with
    | none => rest
    | some digits => String.ofList (rest.toList.take (rest.length - (digits.length + 1)))
  let color ← Color.ofName? naming name
  color.cssWith? token.opacity

structure ColorFamily where
  property : String
  suffix : String := ""
  deriving DecidableEq, Repr

namespace ColorFamily

def named : List (String × ColorFamily) := [
  ("bg", { property := "background-color" }),
  ("text", { property := "color" }),
  ("border", { property := "border-color" }),
  ("ring", { property := "--tw-ring-color" }),
  ("accent", { property := "accent-color" }),
  ("caret", { property := "caret-color" }),
  ("fill", { property := "fill" }),
  ("stroke", { property := "stroke" }),
  ("outline", { property := "outline-color" }),
  ("decoration", { property := "text-decoration-color" }),
  ("divide", { property := "border-color", suffix := betweenChildren })]

end ColorFamily

def Token.colored? (naming : Naming) (token : Token) : Option Resolution := do
  guard (!token.negative)
  let (head, rest) ← Text.cutFirst? '-' token.name
  let family ← ColorFamily.named.lookup head
  let value ← token.colorAfter? naming rest
  some {
    strategy := .color
    declarations := declare [family.property] value
    suffix := family.suffix }

end UtilityCss
