import UtilityCss.Utility.Basic

/-!
# Effects

Utilities that need more than one rule: entrance animations run keyframes, prose and the grid pattern bring
companion rules.
-/

namespace UtilityCss

structure Effect where
  declarations : String
  suffix : String := ""
  companions : List Companion := []
  keyframes : List String := []
  deriving DecidableEq, Repr

namespace Effect

def stops (steps : List (String × String)) : String :=
  " ".intercalate (steps.map fun (position, declarations) =>
    position ++ " \x7b " ++ declarations ++ " \x7d")

def animations : List (String × String) := [
  ("vibe-staggerFadeUp", stops [
    ("from", "opacity: 0; transform: translateY(20px);"),
    ("to", "opacity: 1; transform: translateY(0);")]),
  ("vibe-pageEnter", stops [
    ("from", "opacity: 0; transform: translateY(12px);"),
    ("to", "opacity: 1; transform: translateY(0);")]),
  ("vibe-overlayEnter", stops [("from", "opacity: 0;"), ("to", "opacity: 1;")]),
  ("vibe-modalEnter", stops [
    ("from", "opacity: 0; transform: scale(0.95) translateY(-10px);"),
    ("to", "opacity: 1; transform: scale(1) translateY(0);")]),
  ("vibe-float", stops [
    ("0%, 100%", "transform: translateY(0);"),
    ("50%", "transform: translateY(-20px);")]),
  ("vibe-pulseDot", stops [
    ("0%, 100%", "opacity: 1; transform: scale(1);"),
    ("50%", "opacity: 0.6; transform: scale(1.25);")]),
  ("vibe-checkBounceIn", stops [
    ("0%", "opacity: 0; transform: scale(0);"),
    ("50%", "transform: scale(1.2);"),
    ("100%", "opacity: 1; transform: scale(1);")]),
  ("vibe-gradientShift", stops [
    ("0%, 100%", "background-position: 0% 50%;"),
    ("50%", "background-position: 100% 50%;")])]

def spring : String := "cubic-bezier(0.34, 1.56, 0.64, 1)"

def gridLines (rgb : String) : String :=
  ", ".intercalate (["right", "bottom"].map fun side =>
    "linear-gradient(to " ++ side ++ ", rgb(" ++ rgb ++ ") 1px, transparent 1px)")

def inside (endings : List String) (declarations : String) : Companion :=
  { around := endings.map fun ending => ("", ending), declarations }

def prose : List Companion := [
  inside [" > :first-child"] "margin-top: 0;",
  inside [" > :last-child"] "margin-bottom: 0;",
  inside [" p"] "margin: 1rem 0;",
  inside [" h2"] ("margin: 2.25rem 0 1rem; font-size: 1.5rem; font-weight: 700; " ++
    "letter-spacing: -0.01em;"),
  inside [" h3"] ("margin: 1.75rem 0 0.75rem; font-size: 1.25rem; font-weight: 700; " ++
    "letter-spacing: -0.01em;"),
  inside [" ul", " ol"] "margin: 1rem 0; padding-left: 1.25rem;",
  inside [" li"] "margin: 0.5rem 0;",
  inside [" a"] "text-decoration: underline; text-underline-offset: 3px;",
  inside [" code"] ("padding: 0.15rem 0.35rem; border-radius: 0.375rem; " ++
    "background: rgb(244 244 245);"),
  inside [" blockquote"] ("margin: 1rem 0; padding-left: 1rem; " ++
    "border-left: 3px solid rgb(161 161 170);"),
  inside [" table"] "width: 100%; border-collapse: collapse;",
  inside [" thead th"] ("text-align: left; font-size: 0.875rem; font-weight: 600; " ++
    "padding: 0.5rem 0.75rem; border-bottom: 1px solid rgb(228 228 231);"),
  inside [" tbody td"] ("padding: 0.5rem 0.75rem; border-bottom: 1px solid rgb(244 244 245); " ++
    "vertical-align: top;")]

def invertedProse : List Companion := [
  inside [" code"] "background: rgb(39 39 42);",
  inside [" blockquote"] "border-left-color: rgb(82 82 91);",
  inside [" thead th"] "border-bottom-color: rgb(63 63 70);",
  inside [" tbody td"] "border-bottom-color: rgb(39 39 42);"]

def named : List (String × Effect) := [
  ("stagger-children", {
    declarations := "opacity: 0; animation: vibe-staggerFadeUp 0.6s ease-out forwards; " ++
      "animation-delay: calc(var(--stagger-index, 0) * 80ms);"
    suffix := " > *"
    keyframes := ["vibe-staggerFadeUp"] }),
  ("page-enter", {
    declarations := "animation: vibe-pageEnter 0.4s ease-out forwards;"
    keyframes := ["vibe-pageEnter"] }),
  ("overlay-enter", {
    declarations := "animation: vibe-overlayEnter 0.2s ease-out forwards;"
    keyframes := ["vibe-overlayEnter"] }),
  ("modal-enter", {
    declarations := "animation: vibe-modalEnter 0.25s " ++ spring ++ " forwards;"
    keyframes := ["vibe-modalEnter"] }),
  ("press-effect", {
    declarations := "transform: scale(0.98); transition: transform 0.1s ease;"
    suffix := ":active" }),
  ("animate-float", {
    declarations := "animation: vibe-float 6s ease-in-out infinite;"
    keyframes := ["vibe-float"] }),
  ("animate-float-delayed", {
    declarations := "animation: vibe-float 6s ease-in-out 3s infinite;"
    keyframes := ["vibe-float"] }),
  ("pulse-dot", {
    declarations := "animation: vibe-pulseDot 1.5s ease-in-out infinite;"
    keyframes := ["vibe-pulseDot"] }),
  ("copy-success-icon", {
    declarations := "animation: vibe-checkBounceIn 0.3s " ++ spring ++ " forwards;"
    keyframes := ["vibe-checkBounceIn"] }),
  ("bg-grid-pattern", {
    declarations := declare ["background-image"] (gridLines "228 228 231 / 0.6") ++
      " background-size: 64px 64px;"
    companions := [{
      around := [(".dark ", "")]
      declarations := declare ["background-image"] (gridLines "63 63 70 / 0.35") }] }),
  ("gradient-orb", {
    declarations := "border-radius: 9999px; filter: blur(80px); pointer-events: none;" }),
  ("gradient-orb-teal", {
    declarations := "background: radial-gradient(circle at 30% 30%, rgb(6 84 101 / 0.9), " ++
      "rgb(6 84 101 / 0));" }),
  ("gradient-orb-lilac", {
    declarations := "background: radial-gradient(circle at 30% 30%, rgb(170 152 169 / 0.9), " ++
      "rgb(170 152 169 / 0));" }),
  ("text-gradient-animated", {
    declarations := "background-size: 200% 100%; -webkit-background-clip: text; " ++
      "background-clip: text; -webkit-text-fill-color: transparent; color: transparent; " ++
      "animation: vibe-gradientShift 3s ease infinite;"
    keyframes := ["vibe-gradientShift"] }),
  ("prose", { declarations := "line-height: 1.75;", companions := prose }),
  ("prose-invert", { declarations := "", companions := invertedProse })]

end Effect

def Token.effect? (token : Token) : Option Resolution :=
  if token.negative then none
  else (Effect.named.lookup token.name).map fun effect => {
    strategy := .multi
    declarations := effect.declarations
    suffix := effect.suffix
    companions := effect.companions
    keyframes := effect.keyframes }

end UtilityCss
