/-!
# Quoted literals in a text

`occurrences` collects what a reader finds from left to right: where it succeeds the search goes on behind
what it read, elsewhere at the next character. `literals` are the string literals of a text, in which a
backslash keeps the next character from ending the literal.
-/

namespace UtilityCss.Scan

abbrev Reader (α : Type) := List Char → Option (α × List Char)

def occurrencesFrom {α : Type} (read : Reader α) : Nat → List Char → List α
  | 0, _ | _, [] => []
  | length + 1, c :: cs =>
    match read (c :: cs) with
    | some (x, rest) => x :: occurrencesFrom read length rest
    | none => occurrencesFrom read length cs

def occurrences {α : Type} (read : Reader α) (cs : List Char) : List α :=
  occurrencesFrom read cs.length cs

/-- The body of a literal after its opening quote. A literal may run over lines, but a backslash does not
escape the end of a line. -/
def body? : Reader (List Char)
  | [] => none
  | '"' :: rest => some ([], rest)
  | ['\\'] => none
  | '\\' :: c :: rest =>
    if c = '\n' then none else (body? rest).map fun p => ('\\' :: c :: p.1, p.2)
  | c :: rest => (body? rest).map fun p => (c :: p.1, p.2)

def literal? : Reader (List Char)
  | '"' :: rest => body? rest
  | _ => none

def literals (cs : List Char) : List (List Char) := occurrences literal? cs

end UtilityCss.Scan
