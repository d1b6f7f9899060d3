import UtilityCss.Compile
import UtilityCss.Text.Ordered

/-!
# Style sheets

The style sheet of a set of tokens holds the rules that the tokens need, each once, in the order in which
the sorted tokens first produce them. It is written in sections: the base sheet, the unconditional rules,
and one block for each media query. Rules without declarations are not written.
-/

namespace UtilityCss

structure Stylesheet where
  base : String := ""
  rules : List Rule := []
  deriving DecidableEq, Repr

namespace Stylesheet

def rulesOf (naming : Naming) (tokens : List String) : List Rule :=
  (((Text.orderedSet tokens).flatMap naming.rules).filter fun rule =>
    !rule.declarations.isEmpty).eraseDups

def ofTokens (naming : Naming) (tokens : List String) (base : String) : Stylesheet :=
  { base, rules := rulesOf naming tokens }

def unconditional (sheet : Stylesheet) : List Rule := sheet.rules.filter fun rule => rule.media.isNone

def queries (sheet : Stylesheet) : List String := (sheet.rules.filterMap Rule.media).eraseDups

def rulesUnder (sheet : Stylesheet) (query : String) : List Rule :=
  sheet.rules.filter fun rule => rule.media = some query

def endedLine (text : String) : String :=
  if text.toList.getLast? = some '\n' then text else text ++ "\n"

def lines (texts : List String) : String := "\n".intercalate texts

def block (sheet : Stylesheet) (query : String) : String :=
  "@media " ++ query ++ " \x7b\n" ++
    lines ((sheet.rulesUnder query).map fun rule => "  " ++ rule.body) ++ "\n\x7d\n"

def sections (sheet : Stylesheet) : List String :=
  (if sheet.base.isEmpty then [] else [endedLine sheet.base]) ++
  (if sheet.unconditional.isEmpty then []
    else [lines (sheet.unconditional.map Rule.body) ++ "\n"]) ++
  sheet.queries.map sheet.block

def render (sheet : Stylesheet) : String := lines sheet.sections

end Stylesheet

structure Classification where
  recognized : List String
  unknown : List String
  deriving DecidableEq, Repr

namespace Classification

def split (isUtility : String → Bool) (tokens : List String) : Classification where
  recognized := (Text.orderedSet tokens).filter isUtility
  unknown := (Text.orderedSet tokens).filter fun token => !isUtility token

/-- A token counts by having a rule of its own. -/
def ofTokens (naming : Naming) (tokens : List String) : Classification :=
  split naming.recognizes tokens

/-- A token of a style sheet counts by giving it rules. -/
def ofCompiled (naming : Naming) (tokens : List String) : Classification :=
  split (fun token => !(naming.rules token).isEmpty) tokens

def total (classes : Classification) : Nat := classes.recognized.length + classes.unknown.length

end Classification

end UtilityCss
