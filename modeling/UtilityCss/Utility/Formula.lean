import UtilityCss.Text.Cut
import UtilityCss.Utility.Basic

/-!
# Formula utilities

Grid tracks, grid spans, transition times and orders: a fixed beginning and a number or keyword from which
the declaration is computed.
-/

namespace UtilityCss

namespace Formula

def maxTracks : Nat := 12

def templateWords : List String := ["none", "subgrid"]

def template? (property count : String) : Option String :=
  if templateWords.contains count then some (declare [property] count)
  else do
    let n ← Text.digits? 2 count.toList
    if 1 ≤ n ∧ n ≤ maxTracks then some (declare [property] s!"repeat({n}, minmax(0, 1fr))") else none

def spanWords : List (String × String) := [("auto", "auto"), ("full", "1 / -1")]

def span? (property count : String) : Option String :=
  match spanWords.lookup count with
  | some value => some (declare [property] value)
  | none => do
    let n ← Text.digits? 2 count.toList
    if 1 ≤ n ∧ n ≤ maxTracks then some (declare [property] s!"span {n} / span {n}") else none

def time? (property milliseconds : String) : Option String :=
  (Text.digits? 5 milliseconds.toList).map fun n => declare [property] s!"{n}ms"

def orderWords : List (String × String) := [("first", "-9999"), ("last", "9999"), ("none", "0")]

def order? (property position : String) : Option String :=
  match orderWords.lookup position with
  | some value => some (declare [property] value)
  | none => (Text.digits? 2 position.toList).map fun n => declare [property] (toString n)

def named : List (String × String × (String → String → Option String)) := [
  ("grid-cols-", "grid-template-columns", template?),
  ("grid-rows-", "grid-template-rows", template?),
  ("col-span-", "grid-column", span?),
  ("row-span-", "grid-row", span?),
  ("duration-", "transition-duration", time?),
  ("delay-", "transition-delay", time?),
  ("order-", "order", order?)]

def argument? (beginning name : String) : Option String :=
  (Text.after? beginning name).map fun rest => String.ofList (Text.withoutFinalNewline rest.toList)

def declarations? (name : String) : Option String :=
  named.findSome? fun (beginning, property, value?) => do
    let argument ← argument? beginning name
    value? property argument

end Formula

def Token.formula? (token : Token) : Option Resolution :=
  if token.negative then none
  else (Formula.declarations? token.name).map fun declarations =>
    { strategy := .formula, declarations }

end UtilityCss
