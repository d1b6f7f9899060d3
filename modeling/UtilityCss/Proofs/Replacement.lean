import UtilityCss.Proofs.Discovery

/-!
# Replacing a part of a text

Every occurrence of a part is replaced, from left to right, and what is put in is not looked at again. A
character that the part does not hold divides a text, and the halves are replaced by themselves.
-/

namespace UtilityCss.Text

/-- A text with every occurrence of a part replaced, from left to right, when so many characters still belong
to the occurrence before. -/
def replacedFrom (part new : List Char) : Nat → List Char → List Char
  | _, [] => []
  | passed + 1, _ :: cs => replacedFrom part new passed cs
  | 0, c :: cs =>
    if part.isPrefixOf (c :: cs) then new ++ replacedFrom part new (part.length - 1) cs
    else c :: replacedFrom part new 0 cs

def replaced (part new cs : List Char) : List Char := replacedFrom part new 0 cs

variable {part new a b cs : List Char} {sep : Char}

theorem replacedFrom_append (part new a b : List Char) :
    replacedFrom part new a.length (a ++ b) = replaced part new b := by
  induction a with
  | nil => rfl
  | cons c a ih => exact ih

theorem replaced_append_part (h : part ≠ []) (new b : List Char) :
    replaced part new (part ++ b) = new ++ replaced part new b := by
  obtain ⟨c, cs, rfl⟩ := List.exists_cons_of_ne_nil h
  have hstarts : (c :: cs).isPrefixOf (c :: (cs ++ b)) :=
    List.isPrefixOf_iff_prefix.2 (List.prefix_append (c :: cs) b)
  rw [List.cons_append, replaced, replacedFrom, if_pos hstarts]
  exact congrArg (new ++ ·) (replacedFrom_append (c :: cs) new cs b)

theorem replacedFrom_append_cons (h : sep ∉ part) (hne : part ≠ []) {passed : Nat} (hp : passed ≤ a.length) :
    replacedFrom part new passed (a ++ sep :: b) =
      replacedFrom part new passed a ++ sep :: replaced part new b := by
  induction a generalizing passed with
  | nil =>
    obtain rfl : passed = 0 := by simpa using hp
    have hstarts : ¬part.isPrefixOf (sep :: b) := by
      rw [List.isPrefixOf_iff_prefix, ← List.nil_append (sep :: b), Scan.isPrefix_append_cons_iff h]
      simpa using hne
    change (if part.isPrefixOf (sep :: b) then _ else _) = _
    rw [if_neg hstarts]
    rfl
  | cons c a ih =>
    cases passed with
    | succ passed => exact ih (Nat.le_of_succ_le_succ hp)
    | zero =>
      have hsame : part.isPrefixOf (c :: a ++ sep :: b) = part.isPrefixOf (c :: a) := by
        rw [Bool.eq_iff_iff, List.isPrefixOf_iff_prefix, List.isPrefixOf_iff_prefix,
          Scan.isPrefix_append_cons_iff h]
      rw [List.cons_append] at hsame ⊢
      rw [replacedFrom, replacedFrom, hsame]
      split
      · rename_i hstarts
        have hlength := (List.isPrefixOf_iff_prefix.1 hstarts).length_le
        rw [ih (by simpa using hlength), List.append_assoc]
      · rw [ih (Nat.zero_le _)]
        rfl

theorem replaced_append_cons (h : sep ∉ part) (hne : part ≠ []) (new a b : List Char) :
    replaced part new (a ++ sep :: b) = replaced part new a ++ sep :: replaced part new b :=
  replacedFrom_append_cons h hne (Nat.zero_le _)

theorem replaced_append_of_notMem {c : Char} (h : c ∉ a) (cs new b : List Char) :
    replaced (c :: cs) new (a ++ b) = a ++ replaced (c :: cs) new b := by
  induction a with
  | nil => rfl
  | cons d a ih =>
    obtain ⟨hc, ha⟩ := not_or.1 (mt List.mem_cons.2 h)
    have hstarts : ¬(c :: cs).isPrefixOf (d :: (a ++ b)) := by
      rw [List.isPrefixOf_iff_prefix, List.cons_prefix_cons]
      exact fun h => hc h.1
    rw [List.cons_append, replaced, replacedFrom, if_neg hstarts]
    exact congrArg (d :: ·) (ih ha)

theorem replaced_of_not_mentions (h : mentions part cs = false) (new : List Char) :
    replaced part new cs = cs := by
  induction cs with
  | nil => rfl
  | cons c cs ih =>
    simp only [mentions, Bool.or_eq_false_iff] at h
    rw [replaced, replacedFrom, if_neg (by simp [h.1])]
    exact congrArg (c :: ·) (ih h.2)

theorem replaced_join_lines (h : '\n' ∉ part) (hne : part ≠ []) (new : List Char) (lines : List String) :
    replaced part new (String.join (lines.map (· ++ "\n"))).toList =
      (String.join ((lines.map fun line => String.ofList (replaced part new line.toList)).map
        (· ++ "\n"))).toList := by
  induction lines with
  | nil => rfl
  | cons line lines ih =>
    simp only [List.map_cons, String.join_cons, String.toList_append, String.toList_ofList, ← ih]
    rw [List.append_assoc]
    exact (replaced_append_cons h hne new line.toList _).trans (List.append_assoc _ ['\n'] _).symm

end UtilityCss.Text
