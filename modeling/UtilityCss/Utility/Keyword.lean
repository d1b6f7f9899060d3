import UtilityCss.Decimal
import UtilityCss.Utility.Basic

/-!
# Keyword utilities

Names that stand for one fixed list of declarations: `flex`, `items-center`, `rounded-t-lg`. The group
class is among them; it is known and declares nothing.
-/

namespace UtilityCss

def groupClass : String := "group"

namespace Keyword

def family (property beginning : String) (values : List (String × String)) :
    List (String × String) :=
  values.map fun (name, value) => (beginning ++ name, declare [property] value)

/-- One property whose values are the names themselves. -/
def sameNamed (property beginning : String) (values : List String) : List (String × String) :=
  family property beginning (values.map fun value => (value, value))

def layout : List (String × String) :=
  sameNamed "display" "" ["block", "inline", "inline-block", "flex", "inline-flex", "grid",
    "inline-grid", "contents", "flow-root", "table", "table-row", "table-cell", "list-item"] ++
  family "display" "" [("hidden", "none")] ++
  family "flex-direction" "flex-" [("row", "row"), ("row-reverse", "row-reverse"),
    ("col", "column"), ("col-reverse", "column-reverse")] ++
  sameNamed "flex-wrap" "flex-" ["wrap", "wrap-reverse", "nowrap"] ++
  family "flex" "flex-" [("1", "1 1 0%"), ("auto", "1 1 auto"), ("initial", "0 1 auto"),
    ("none", "none")] ++
  family "flex-grow" "" [("grow", "1"), ("grow-0", "0")] ++
  family "flex-shrink" "" [("shrink", "1"), ("shrink-0", "0")] ++
  family "align-items" "items-" [("start", "flex-start"), ("end", "flex-end"),
    ("center", "center"), ("baseline", "baseline"), ("stretch", "stretch")] ++
  family "justify-content" "justify-" [("start", "flex-start"), ("end", "flex-end"),
    ("center", "center"), ("between", "space-between"), ("around", "space-around"),
    ("evenly", "space-evenly"), ("stretch", "stretch"), ("normal", "normal")] ++
  sameNamed "justify-items" "justify-items-" ["start", "end", "center", "stretch"] ++
  family "align-content" "content-" [("start", "flex-start"), ("end", "flex-end"),
    ("center", "center"), ("between", "space-between"), ("around", "space-around"),
    ("evenly", "space-evenly")] ++
  family "align-self" "self-" [("auto", "auto"), ("start", "flex-start"), ("end", "flex-end"),
    ("center", "center"), ("stretch", "stretch"), ("baseline", "baseline")] ++
  sameNamed "position" "" ["static", "fixed", "absolute", "relative", "sticky"] ++
  sameNamed "overflow" "overflow-" ["auto", "hidden", "clip", "visible", "scroll"] ++
  sameNamed "overflow-x" "overflow-x-" ["auto", "hidden", "clip", "visible", "scroll"] ++
  sameNamed "overflow-y" "overflow-y-" ["auto", "hidden", "clip", "visible", "scroll"] ++
  sameNamed "object-fit" "object-" ["contain", "cover", "fill", "none", "scale-down"] ++
  family "visibility" "" [("visible", "visible"), ("invisible", "hidden"),
    ("collapse", "collapse")] ++
  sameNamed "z-index" "z-" ["0", "10", "20", "30", "40", "50", "auto"]

def cursors : List String := [
  "auto", "default", "pointer", "wait", "text", "move", "help", "not-allowed", "none",
  "context-menu", "progress", "cell", "crosshair", "vertical-text", "alias", "copy",
  "no-drop", "grab", "grabbing", "all-scroll", "col-resize", "row-resize", "n-resize",
  "e-resize", "s-resize", "w-resize", "ne-resize", "nw-resize", "se-resize", "sw-resize",
  "ew-resize", "ns-resize", "nesw-resize", "nwse-resize", "zoom-in", "zoom-out"]

def interaction : List (String × String) :=
  sameNamed "cursor" "cursor-" cursors ++
  sameNamed "pointer-events" "pointer-events-" ["none", "auto"] ++
  sameNamed "user-select" "select-" ["none", "text", "all", "auto"] ++
  sameNamed "touch-action" "touch-" ["auto", "none", "pan-x", "pan-left", "pan-right", "pan-y",
    "pan-up", "pan-down", "pinch-zoom", "manipulation"] ++
  family "resize" "" [("resize-none", "none"), ("resize-y", "vertical"),
    ("resize-x", "horizontal"), ("resize", "both")] ++
  sameNamed "scroll-behavior" "scroll-" ["auto", "smooth"]

def letterCases : List (String × String) := [("uppercase", "uppercase"),
  ("lowercase", "lowercase"), ("capitalize", "capitalize"), ("normal-case", "none")]

def decorations : List (String × String) := [("underline", "underline"),
  ("overline", "overline"), ("line-through", "line-through"), ("no-underline", "none")]

def slants : List (String × String) := [("italic", "italic"), ("not-italic", "normal")]

def typography : List (String × String) :=
  sameNamed "text-align" "text-" ["left", "center", "right", "justify", "start", "end"] ++
  family "text-transform" "" letterCases ++
  family "text-transform" "text-" letterCases ++
  family "text-decoration-line" "" decorations ++
  family "text-decoration-line" "text-" decorations ++
  sameNamed "text-wrap" "text-" ["wrap", "nowrap", "balance", "pretty"] ++
  sameNamed "text-overflow" "text-" ["ellipsis", "clip"] ++
  sameNamed "white-space" "whitespace-" ["normal", "nowrap", "pre", "pre-line", "pre-wrap",
    "break-spaces"] ++
  [("break-words", "overflow-wrap: break-word;"),
    ("break-all", "word-break: break-all;"),
    ("break-keep", "word-break: keep-all;")] ++
  family "font-weight" "font-" [("thin", "100"), ("extralight", "200"), ("light", "300"),
    ("normal", "400"), ("medium", "500"), ("semibold", "600"), ("bold", "700"),
    ("extrabold", "800"), ("black", "900")] ++
  family "font-style" "" slants ++
  family "font-style" "font-" slants ++
  family "font-family" "font-" [
    ("sans", "ui-sans-serif, system-ui, sans-serif, \"Apple Color Emoji\", " ++
      "\"Segoe UI Emoji\", \"Segoe UI Symbol\", \"Noto Color Emoji\""),
    ("serif", "ui-serif, Georgia, Cambria, \"Times New Roman\", Times, serif"),
    ("mono", "ui-monospace, SFMono-Regular, Menlo, Monaco, Consolas, " ++
      "\"Liberation Mono\", \"Courier New\", monospace")] ++
  family "line-height" "leading-" [("none", "1"), ("tight", "1.25"), ("snug", "1.375"),
    ("normal", "1.5"), ("relaxed", "1.625"), ("loose", "2")] ++
  family "letter-spacing" "tracking-" [("tighter", "-0.05em"), ("tight", "-0.025em"),
    ("normal", "0em"), ("wide", "0.025em"), ("wider", "0.05em"), ("widest", "0.1em")]

def borderSides : List (String × String) := [("", "border-width"), ("-t", "border-top-width"),
  ("-r", "border-right-width"), ("-b", "border-bottom-width"), ("-l", "border-left-width")]

def borderWidths : List (String × String) :=
  [("", "1px"), ("-0", "0px"), ("-2", "2px"), ("-4", "4px"), ("-8", "8px")]

def corners : List (String × List String) := [
  ("", ["border-radius"]),
  ("-t", ["border-top-left-radius", "border-top-right-radius"]),
  ("-r", ["border-top-right-radius", "border-bottom-right-radius"]),
  ("-b", ["border-bottom-left-radius", "border-bottom-right-radius"]),
  ("-l", ["border-top-left-radius", "border-bottom-left-radius"]),
  ("-tl", ["border-top-left-radius"]),
  ("-tr", ["border-top-right-radius"]),
  ("-bl", ["border-bottom-left-radius"]),
  ("-br", ["border-bottom-right-radius"])]

def radii : List (String × String) := [("-none", "0"), ("-sm", "0.125rem"), ("", "0.25rem"),
  ("-md", "0.375rem"), ("-lg", "0.5rem"), ("-xl", "0.75rem"), ("-2xl", "1rem"),
  ("-3xl", "1.5rem"), ("-full", "9999px")]

def borders : List (String × String) :=
  borderWidths.flatMap (fun (ending, width) => borderSides.map fun (side, property) =>
    ("border" ++ side ++ ending, declare [property] width)) ++
  sameNamed "border-style" "border-" ["solid", "dashed", "dotted", "double", "hidden", "none"] ++
  radii.flatMap (fun (ending, radius) => corners.map fun (corner, properties) =>
    ("rounded" ++ corner ++ ending, declare properties radius))

def ringWidths : List (String × String) :=
  [("", "3px"), ("-0", "0px"), ("-1", "1px"), ("-2", "2px"), ("-4", "4px"), ("-8", "8px")]

def effects : List (String × String) :=
  ((List.range 21).map fun step =>
    (s!"opacity-{5 * step}", declare ["opacity"] (Decimal.hundredths (5 * step)).render)) ++
  family "box-shadow" "shadow" [
    ("-sm", "0 1px 2px 0 rgb(0 0 0 / 0.05)"),
    ("", "0 1px 3px 0 rgb(0 0 0 / 0.1), 0 1px 2px -1px rgb(0 0 0 / 0.1)"),
    ("-md", "0 4px 6px -1px rgb(0 0 0 / 0.1), 0 2px 4px -2px rgb(0 0 0 / 0.1)"),
    ("-lg", "0 10px 15px -3px rgb(0 0 0 / 0.1), 0 4px 6px -4px rgb(0 0 0 / 0.1)"),
    ("-xl", "0 20px 25px -5px rgb(0 0 0 / 0.1), 0 8px 10px -6px rgb(0 0 0 / 0.1)"),
    ("-2xl", "0 25px 50px -12px rgb(0 0 0 / 0.25)"),
    ("-inner", "inset 0 2px 4px 0 rgb(0 0 0 / 0.05)"),
    ("-none", "0 0 #0000")] ++
  (ringWidths.map fun (ending, width) => ("ring" ++ ending, declare ["box-shadow"]
    ("var(--tw-ring-inset) 0 0 0 calc(" ++ width ++
      " + var(--tw-ring-offset-width)) var(--tw-ring-color)"))) ++
  [("ring-inset", "--tw-ring-inset: inset;")] ++
  family "transition-timing-function" "ease-" [("linear", "linear"),
    ("in", "cubic-bezier(0.4, 0, 1, 1)"), ("out", "cubic-bezier(0, 0, 0.2, 1)"),
    ("in-out", "cubic-bezier(0.4, 0, 0.2, 1)")] ++
  family "animation" "animate-" [("none", "none"), ("spin", "spin 1s linear infinite"),
    ("ping", "ping 1s cubic-bezier(0, 0, 0.2, 1) infinite"),
    ("pulse", "pulse 2s cubic-bezier(0.4, 0, 0.6, 1) infinite"),
    ("bounce", "bounce 1s infinite")] ++
  [("transition-none", "transition-property: none;")]

def maximalWidths : List (String × String) :=
  family "max-width" "max-w-" [("none", "none"), ("xs", "20rem"), ("sm", "24rem"),
    ("md", "28rem"), ("lg", "32rem"), ("xl", "36rem"), ("2xl", "42rem"), ("3xl", "48rem"),
    ("4xl", "56rem"), ("5xl", "64rem"), ("6xl", "72rem"), ("7xl", "80rem"), ("prose", "65ch"),
    ("screen-sm", "640px"), ("screen-md", "768px"), ("screen-lg", "1024px"),
    ("screen-xl", "1280px"), ("screen-2xl", "1536px")]

def declarations : List (String × String) :=
  layout ++ interaction ++ typography ++ borders ++ effects ++ maximalWidths ++ [(groupClass, "")]

end Keyword

def Token.keyword? (token : Token) : Option Resolution :=
  if token.negative then none
  else (Keyword.declarations.lookup token.name).map fun declarations =>
    { strategy := .exact, declarations }

end UtilityCss
