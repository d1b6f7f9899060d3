import UtilityCss.Compile
import UtilityCss.Value.Basic

/-!
# A compiler with a memory

A compiler remembers the rules of the tokens that it compiled most recently, up to a number of tokens. Its
answers are those of `Naming.rules`; the memory shows only in the counts of hits and misses.
-/

namespace UtilityCss

structure Memory where
  /-- The greatest number of tokens; none for no limit. -/
  capacity : Option Nat := some 4096
  recent : List (String × List Rule) := []
  hits : Nat := 0
  misses : Nat := 0
  deriving DecidableEq, Repr

namespace Memory

def ofSize (size : Option Int) : Memory := { capacity := size.map Int.toNat }

def kept (capacity : Option Nat) (entries : List (String × List Rule)) :
    List (String × List Rule) :=
  match capacity with
  | none => entries
  | some limit => entries.take limit

def use (memory : Memory) (compile : String → List Rule) (token : String) : List Rule × Memory :=
  match memory.recent.lookup token with
  | some rules => (rules, { memory with
      recent := (token, rules) :: memory.recent.filter fun entry => entry.1 ≠ token
      hits := memory.hits + 1 })
  | none =>
    let rules := compile token
    (rules, { memory with
      recent := kept memory.capacity ((token, rules) :: memory.recent)
      misses := memory.misses + 1 })

end Memory

structure Compiler where
  naming : Naming := {}
  memory : Memory := {}
  deriving DecidableEq, Repr

namespace Compiler

inductive Query
  | rule
  | rules
  | recognition
  | token
  | explanation
  deriving DecidableEq, Repr

inductive Answer
  | rule (rule : Option Rule)
  | rules (rules : List Rule)
  | recognition (recognized : Bool)
  | token (token : Option Token)
  | explanation (resolution : Option Resolution)
  deriving DecidableEq, Repr

/-- The rules of a value. Only a text that is not empty can be a token, and only such a text is looked up in
the memory. -/
def rules (compiler : Compiler) (value : Value) : List Rule × Compiler :=
  match value with
  | .text "" => ([], compiler)
  | .text text =>
    let (rules, memory) := compiler.memory.use compiler.naming.rules text
    (rules, { compiler with memory })
  | _ => ([], compiler)

def ask (compiler : Compiler) (query : Query) (value : Value) : Answer × Compiler :=
  match query with
  | .rule =>
    let (rules, compiler) := compiler.rules value
    (.rule (Naming.ownRule? rules), compiler)
  | .rules =>
    let (rules, compiler) := compiler.rules value
    (.rules rules, compiler)
  | .recognition =>
    let (rules, compiler) := compiler.rules value
    (.recognition (Naming.ownRule? rules).isSome, compiler)
  | .token => (.token (value.text? >>= Token.ofText? compiler.naming), compiler)
  | .explanation => (.explanation (value.text? >>= compiler.naming.explain?), compiler)

end Compiler

end UtilityCss
