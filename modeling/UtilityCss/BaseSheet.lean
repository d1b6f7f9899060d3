import UtilityCss.Palette

/-!
# The base style sheet

Custom properties for the semantic colors under the light and the dark theme, the defaults that rings
build on, and the keyframes of the animation utilities. The properties carry the class prefix of the
project.
-/

namespace UtilityCss.BaseSheet

def lightColors : List (String × String) := [
  ("background", "#ffffff"),
  ("foreground", "#0f172a"),
  ("card", "#ffffff"),
  ("card-foreground", "#0f172a"),
  ("popover", "#ffffff"),
  ("popover-foreground", "#0f172a"),
  ("primary", "#2563eb"),
  ("primary-foreground", "#f8fafc"),
  ("secondary", "#f1f5f9"),
  ("secondary-foreground", "#0f172a"),
  ("muted", "#f1f5f9"),
  ("muted-foreground", "#64748b"),
  ("accent", "#f1f5f9"),
  ("accent-foreground", "#0f172a"),
  ("destructive", "#ef4444"),
  ("destructive-foreground", "#f8fafc"),
  ("success", "#22c55e"),
  ("success-foreground", "#f8fafc"),
  ("warning", "#f59e0b"),
  ("warning-foreground", "#0f172a"),
  ("info", "#0ea5e9"),
  ("info-foreground", "#f8fafc"),
  ("border", "#e2e8f0"),
  ("input", "#e2e8f0"),
  ("ring", "#2563eb"),
  ("ring-foreground", "#f8fafc"),
  ("border-foreground", "#0f172a"),
  ("input-foreground", "#0f172a"),
  ("background-foreground", "#0f172a"),
  ("foreground-foreground", "#ffffff")]

def darkColors : List (String × String) := [
  ("background", "#020617"),
  ("foreground", "#f8fafc"),
  ("card", "#0f172a"),
  ("card-foreground", "#f8fafc"),
  ("popover", "#0f172a"),
  ("popover-foreground", "#f8fafc"),
  ("primary", "#3b82f6"),
  ("primary-foreground", "#0f172a"),
  ("secondary", "#1e293b"),
  ("secondary-foreground", "#f8fafc"),
  ("muted", "#1e293b"),
  ("muted-foreground", "#94a3b8"),
  ("accent", "#1e293b"),
  ("accent-foreground", "#f8fafc"),
  ("destructive", "#dc2626"),
  ("border", "#1e293b"),
  ("input", "#1e293b"),
  ("ring", "#3b82f6")]

def block (head : String) (lines : List String) : List String :=
  (head ++ " \x7b") :: lines.map ("  " ++ ·) ++ ["\x7d"]

def property (classPrefix color : String) : String := "--" ++ classPrefix ++ "-" ++ color

def definitions (classPrefix : String) (colors : List (String × String)) : List String :=
  colors.map fun (color, value) => property classPrefix color ++ ": " ++ value ++ ";"

def defaults (classPrefix : String) : List String := [
  "box-sizing: border-box;",
  "border-width: 0;",
  "border-style: solid;",
  "border-color: var(" ++ property classPrefix "border" ++ ");",
  "--tw-ring-inset: ;",
  "--tw-ring-offset-width: 0px;",
  "--tw-ring-color: rgb(59 130 246 / 0.5);"]

def stop (position declarations : String) : String :=
  position ++ " \x7b " ++ declarations ++ " \x7d"

def animations : List (String × List String) := [
  ("spin", [stop "to" "transform: rotate(360deg);"]),
  ("ping", [stop "75%, 100%" "transform: scale(2); opacity: 0;"]),
  ("pulse", [stop "50%" "opacity: 0.5;"]),
  ("bounce", [
    stop "0%, 100%" ("transform: translateY(-25%); " ++
      "animation-timing-function: cubic-bezier(0.8, 0, 1, 1);"),
    stop "50%" "transform: none; animation-timing-function: cubic-bezier(0, 0, 0.2, 1);"])]

def paragraphs (classPrefix : String) : List (List String) :=
  ["/* vibecss base: design tokens, ring defaults and keyframes */"] ::
  block ":root" (definitions classPrefix lightColors) ::
  block ".dark" (definitions classPrefix darkColors) ::
  block "*, ::before, ::after" (defaults classPrefix) ::
  animations.map fun (name, stops) => block ("@keyframes " ++ name) stops

def render (classPrefix : String) : String :=
  "\n".intercalate ((paragraphs classPrefix).map fun paragraph =>
    String.join (paragraph.map (· ++ "\n")))

end UtilityCss.BaseSheet
