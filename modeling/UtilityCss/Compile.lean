import UtilityCss.Rule
import UtilityCss.Selector
import UtilityCss.Utility.Resolve

/-!
# Compiling a token

`rules` gives every rule that a token needs: the keyframes that it runs, its own rule, and the companions.
A text that is no utility has none.
-/

namespace UtilityCss

def Resolution.keyframesRules (resolution : Resolution) : List Rule :=
  resolution.keyframes.filterMap fun name =>
    (Effect.animations.lookup name).map fun stops =>
      { selector := "@keyframes " ++ name, declarations := stops }

def Companion.rule (companion : Companion) (parts : List String) (media : Option String) : Rule where
  selector := Selector.listed (parts.map fun part =>
    Selector.listed (companion.around.map fun (before, after) => before ++ part ++ after))
  declarations := companion.declarations
  media := media

namespace Token

def ruleOf (naming : Naming) (token : Token) (resolution : Resolution) : Rule :=
  let (parts, media) :=
    Selector.parts token.text token.variants resolution.suffix naming.classPrefix
  { selector := Selector.listed parts, declarations := resolution.declarations, media }

def companionRules (naming : Naming) (token : Token) (resolution : Resolution) : List Rule :=
  let (parts, media) := Selector.parts token.text token.variants "" naming.classPrefix
  resolution.companions.map fun companion => companion.rule parts media

def rules (naming : Naming) (token : Token) (resolution : Resolution) : List Rule :=
  resolution.keyframesRules ++
    token.ruleOf naming resolution :: token.companionRules naming resolution

end Token

namespace Naming

def explain? (naming : Naming) (text : String) : Option Resolution := do
  let token ← Token.ofText? naming text
  token.resolve? naming

/-- Every rule that a text needs; none when it is no utility. -/
def rules (naming : Naming) (text : String) : List Rule :=
  match Token.ofText? naming text with
  | none => []
  | some token => match token.resolve? naming with
    | none => []
    | some resolution => token.rules naming resolution

def ownRule? (rules : List Rule) : Option Rule := rules.find? fun rule => !rule.isKeyframes

def rule? (naming : Naming) (text : String) : Option Rule := ownRule? (naming.rules text)

def recognizes (naming : Naming) (text : String) : Bool := (naming.rule? text).isSome

end Naming

end UtilityCss
