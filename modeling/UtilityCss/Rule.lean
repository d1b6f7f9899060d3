import UtilityCss.Text.Cut

/-!
# Rules

A selector, its declarations on one line, and the media query under which they hold.
-/

namespace UtilityCss

structure Rule where
  selector : String
  declarations : String
  media : Option String := none
  deriving DecidableEq, Repr

namespace Rule

def body (rule : Rule) : String :=
  rule.selector ++ " \x7b " ++ rule.declarations ++ " \x7d"

def render (rule : Rule) : String :=
  match rule.media with
  | none | some "" => rule.body
  | some query => "@media " ++ query ++ " \x7b " ++ rule.body ++ " \x7d"

def isKeyframes (rule : Rule) : Bool := Text.beginsWith "@keyframes" rule.selector

end Rule

end UtilityCss
