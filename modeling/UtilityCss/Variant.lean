/-!
# Variants

A variant qualifies when a utility applies: in a state of the element, in a state of an ancestor that
carries the group class, to a pseudo-element, from a viewport width on, or under the dark theme.
-/

namespace UtilityCss

inductive Variant
  | state (pseudoClass : String)
  | group (pseudoClass : String)
  | element (pseudoElement : String)
  | breakpoint (minWidth : Nat)
  | dark
  deriving DecidableEq, Repr

namespace Variant

def states : List (String × String) := [
  ("hover", ":hover"),
  ("focus", ":focus"),
  ("active", ":active"),
  ("disabled", ":disabled"),
  ("visited", ":visited"),
  ("focus-visible", ":focus-visible"),
  ("focus-within", ":focus-within"),
  ("checked", ":checked"),
  ("required", ":required"),
  ("invalid", ":invalid"),
  ("first", ":first-child"),
  ("last", ":last-child"),
  ("odd", ":nth-child(odd)"),
  ("even", ":nth-child(even)")]

def groupStates : List (String × String) := [
  ("group-hover", ":hover"),
  ("group-focus", ":focus"),
  ("group-focus-within", ":focus-within")]

def elements : List (String × String) := [("placeholder", "::placeholder")]

def breakpoints : List (String × Nat) := [
  ("sm", 640),
  ("md", 768),
  ("lg", 1024),
  ("xl", 1280),
  ("2xl", 1536)]

def named : List (String × Variant) :=
  states.map (fun p => (p.1, state p.2)) ++
  groupStates.map (fun p => (p.1, group p.2)) ++
  elements.map (fun p => (p.1, element p.2)) ++
  breakpoints.map (fun p => (p.1, breakpoint p.2)) ++
  [("dark", dark)]

def ofName? (name : String) : Option Variant := named.lookup name

def isName (name : String) : Bool := (ofName? name).isSome

end Variant

end UtilityCss
