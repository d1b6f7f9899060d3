import UtilityCss.Text.Cut
import UtilityCss.Variant

/-!
# Utility tokens

A token is a list of variants and a base, divided by colons: `hover:md:vibe-bg-red-500/50`. The base
carries the class prefix of the project, an optional sign, and the name of the utility. A name may end in a
bracketed value (`w-[3px]`) or in an opacity (`/50`). `Token.ofText?` reads one; a text that is not of this
form is no token.
-/

namespace UtilityCss

structure Naming where
  classPrefix : String := "vibe"
  /-- Utilities may also be written without the prefix. -/
  permissive : Bool := false
  deriving DecidableEq, Repr

namespace Naming

def defaultPrefix : String := "vibe"

def marker (naming : Naming) : String := naming.classPrefix ++ "-"

def variablePrefix (naming : Naming) : String :=
  if naming.classPrefix.isEmpty then defaultPrefix else naming.classPrefix

end Naming

structure Token where
  text : String
  variants : List String
  /-- Without prefix and sign: `bg-red-500/50`. -/
  name : String
  negative : Bool := false
  /-- Property key and value of a bracketed name. -/
  arbitrary : Option (String × String) := none
  /-- The digits after the last slash. -/
  opacity : Option String := none
  deriving DecidableEq, Repr

namespace Token

def depthAfter (depth : Nat) (c : Char) : Nat :=
  if c = '[' then depth + 1 else if c = ']' then depth - 1 else depth

/-- The parts between the colons that stand outside brackets, when `depth` brackets are open. -/
def segmentsAt (depth : Nat) : List Char → List (List Char)
  | [] => [[]]
  | c :: cs =>
    if c = ':' ∧ depth = 0 then [] :: segmentsAt 0 cs
    else (segmentsAt (depthAfter depth c) cs).modifyHead (c :: ·)

theorem segmentsAt_ne_nil : ∀ (depth : Nat) (cs : List Char), segmentsAt depth cs ≠ []
  | _, [] => by simp [segmentsAt]
  | depth, c :: cs => by
    by_cases h : c = ':' ∧ depth = 0
    · simp [segmentsAt, h]
    · have := segmentsAt_ne_nil (depthAfter depth c) cs
      rw [segmentsAt, if_neg h]
      cases hs : segmentsAt (depthAfter depth c) cs with
      | nil => exact absurd hs this
      | cons part parts => simp

def segments (text : String) : List String :=
  (segmentsAt 0 text.toList).map String.ofList

def signed (name : String) : String × Bool :=
  match Text.after? "-" name with
  | some rest => (rest, true)
  | none => (name, false)

/-- The utility name that a base spells under a naming, with its sign. -/
def nameOf? (naming : Naming) (base : String) : Option (String × Bool) :=
  if naming.classPrefix.isEmpty then some (signed base)
  else
    match Text.after? naming.marker base with
    | some name => some (signed name)
    | none =>
      match Text.after? ("-" ++ naming.marker) base with
      | some name => some (name, true)
      | none => if naming.permissive then some (signed base) else none

def opening? : List Char → Option (List Char × List Char)
  | '-' :: '[' :: rest => some ([], rest)
  | c :: cs => (opening? cs).map fun p => (c :: p.1, p.2)
  | [] => none

/-- Key and value of `key-[value]`, both non-empty. -/
def brackets? (name : List Char) : Option (List Char × List Char) := do
  let body := Text.withoutFinalNewline name
  guard (body.getLast? = some ']')
  match body.dropLast with
  | [] => none
  | c :: cs =>
    let (key, value) ← opening? cs
    if value.isEmpty then none else some (c :: key, value)

def opacityOf? (name : List Char) : Option (List Char) := do
  let (head, tail) ← Text.lastCut? '/' name
  if head.isEmpty || tail.isEmpty || !tail.all Char.isDigit then none else some tail

def ofText? (naming : Naming) (text : String) : Option Token := do
  let parts := segments text
  let base ← parts.getLast?
  guard (!base.isEmpty && parts.dropLast.all Variant.isName)
  let (name, negative) ← nameOf? naming base
  guard (!name.isEmpty)
  let arbitrary := (brackets? name.toList).map fun p => (String.ofList p.1, String.ofList p.2)
  let opacity := if arbitrary.isSome then none else (opacityOf? name.toList).map String.ofList
  some { text, variants := parts.dropLast, name, negative, arbitrary, opacity }

end Token

end UtilityCss
