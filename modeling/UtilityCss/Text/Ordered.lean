/-!
# Sets of texts

A set of texts is kept as a list in the order of code points, without repetition.
-/

namespace UtilityCss.Text

def insertOrdered (s : String) : List String → List String
  | [] => [s]
  | t :: rest => if s < t then s :: t :: rest else if s = t then t :: rest else t :: insertOrdered s rest

def orderedSet (texts : List String) : List String := texts.foldr insertOrdered []

@[simp] theorem mem_insertOrdered {s x : String} : ∀ {l : List String},
    x ∈ insertOrdered s l ↔ x = s ∨ x ∈ l
  | [] => by simp [insertOrdered]
  | t :: rest => by
    by_cases h : s < t
    · simp [insertOrdered, h]
    · by_cases h' : s = t
      · subst h'
        simp [insertOrdered]
      · simp only [insertOrdered, h, h', if_false, List.mem_cons, mem_insertOrdered (l := rest)]
        exact or_left_comm

@[simp] theorem mem_orderedSet {x : String} : ∀ {l : List String},
    x ∈ orderedSet l ↔ x ∈ l
  | [] => by simp [orderedSet]
  | t :: rest => by
    have ih := mem_orderedSet (x := x) (l := rest)
    simp only [orderedSet, List.foldr_cons, mem_insertOrdered, List.mem_cons]
    exact or_congr_right ih

end UtilityCss.Text
