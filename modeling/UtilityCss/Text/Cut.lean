/-!
# Taking a text apart at a character

`cutFirst?` and `cutLast?` divide a text at the first or the last occurrence of a character, which
belongs to neither half. `after?` removes a known beginning.
-/

namespace UtilityCss.Text

def firstCut? (sep : Char) : List Char → Option (List Char × List Char)
  | [] => none
  | c :: cs => if c = sep then some ([], cs) else (firstCut? sep cs).map fun p => (c :: p.1, p.2)

def lastCut? (sep : Char) : List Char → Option (List Char × List Char)
  | [] => none
  | c :: cs => match lastCut? sep cs with
    | some p => some (c :: p.1, p.2)
    | none => if c = sep then some ([], cs) else none

theorem eq_of_firstCut? {a : Char} : ∀ {cs x y : List Char},
    firstCut? a cs = some (x, y) → cs = x ++ a :: y ∧ a ∉ x
  | [], _, _, h => by simp [firstCut?] at h
  | c :: cs, x, y, h => by
    by_cases hc : c = a
    · simp only [firstCut?, hc, if_true, Option.some.injEq, Prod.mk.injEq] at h
      obtain ⟨rfl, rfl⟩ := h
      simp [hc]
    · simp only [firstCut?, hc, if_false, Option.map_eq_some_iff, Prod.exists, Prod.mk.injEq] at h
      obtain ⟨x', y', h', rfl, rfl⟩ := h
      obtain ⟨rfl, hx⟩ := eq_of_firstCut? h'
      simp [hx, Ne.symm hc]

theorem lastCut?_eq_none {a : Char} : ∀ {cs : List Char}, lastCut? a cs = none → a ∉ cs
  | [], _ => by simp
  | c :: cs, h => by
    cases hr : lastCut? a cs with
    | some p => simp [lastCut?, hr] at h
    | none =>
      by_cases hc : c = a
      · simp [lastCut?, hr, hc] at h
      · simp [lastCut?_eq_none hr, Ne.symm hc]

theorem eq_of_lastCut? {a : Char} : ∀ {cs x y : List Char},
    lastCut? a cs = some (x, y) → cs = x ++ a :: y ∧ a ∉ y
  | [], _, _, h => by simp [lastCut?] at h
  | c :: cs, x, y, h => by
    cases hr : lastCut? a cs with
    | some p =>
      simp only [lastCut?, hr, Option.some.injEq, Prod.mk.injEq] at h
      obtain ⟨rfl, rfl⟩ := h
      obtain ⟨h1, h2⟩ := eq_of_lastCut? (x := p.1) (y := p.2) hr
      exact ⟨by rw [h1]; rfl, h2⟩
    | none =>
      by_cases hc : c = a
      · simp only [lastCut?, hr, hc, if_true, Option.some.injEq, Prod.mk.injEq] at h
        obtain ⟨rfl, rfl⟩ := h
        exact ⟨by rw [hc]; rfl, lastCut?_eq_none hr⟩
      · simp [lastCut?, hr, hc] at h

private def joined (p : List Char × List Char) : String × String :=
  (String.ofList p.1, String.ofList p.2)

def cutFirst? (sep : Char) (s : String) : Option (String × String) :=
  (firstCut? sep s.toList).map joined

def cutLast? (sep : Char) (s : String) : Option (String × String) :=
  (lastCut? sep s.toList).map joined

def after? (start s : String) : Option String :=
  (start.toList.isPrefixOf? s.toList).map String.ofList

def beginsWith (start s : String) : Bool := start.toList.isPrefixOf s.toList

def mentions (part : List Char) : List Char → Bool
  | [] => part.isEmpty
  | c :: cs => part.isPrefixOf (c :: cs) || mentions part cs

/-- Patterns that end at the end of a text also end before one final line feed. -/
def withoutFinalNewline : List Char → List Char
  | [] => []
  | ['\n'] => []
  | c :: cs => c :: withoutFinalNewline cs

def digits? (limit : Nat) (cs : List Char) : Option Nat :=
  if cs.isEmpty || limit < cs.length || !cs.all Char.isDigit then none
  else some (cs.foldl (fun n c => 10 * n + (c.toNat - '0'.toNat)) 0)

end UtilityCss.Text
