/-!
# White space

The characters that separate words, wherever a text is taken apart into words or stripped at its ends.
They are the separators of the Unicode standard together with the control characters that end lines,
pages and records. A zero width space is not among them.
-/

namespace UtilityCss.Text

def isBlank (c : Char) : Bool :=
  let n := c.toNat
  (9 ≤ n && n ≤ 13) || (28 ≤ n && n ≤ 32) || n == 0x85 || n == 0xA0 || n == 0x1680 ||
    (0x2000 ≤ n && n ≤ 0x200A) || n == 0x2028 || n == 0x2029 || n == 0x202F || n == 0x205F ||
    n == 0x3000

def allBlank (cs : List Char) : Bool := cs.all isBlank

def pieces (separates : Char → Bool) : List Char → List (List Char)
  | [] => [[]]
  | c :: cs => if separates c then [] :: pieces separates cs
      else (pieces separates cs).modifyHead (c :: ·)

theorem pieces_ne_nil (p : Char → Bool) : ∀ cs, pieces p cs ≠ []
  | [] => by simp [pieces]
  | c :: cs => by
    by_cases h : p c
    · simp [pieces, h]
    · have := pieces_ne_nil p cs
      cases hp : pieces p cs <;> simp_all [pieces]

theorem mem_of_mem_pieces {separates : Char → Bool} {cs piece : List Char}
    (h : piece ∈ pieces separates cs) {c : Char} (hc : c ∈ piece) : c ∈ cs ∧ separates c = false := by
  induction cs generalizing piece with
  | nil =>
    rw [pieces, List.mem_singleton] at h
    rw [h] at hc
    cases hc
  | cons d cs ih =>
    rw [List.mem_cons, or_and_right]
    rw [pieces] at h
    split at h
    · rcases List.mem_cons.1 h with rfl | h
      · cases hc
      · exact .inr (ih h hc)
    · rename_i hd
      obtain ⟨first, rest, hpieces⟩ := List.exists_cons_of_ne_nil (pieces_ne_nil separates cs)
      rw [hpieces, List.modifyHead_cons] at h
      rcases List.mem_cons.1 h with rfl | h
      · rcases List.mem_cons.1 hc with rfl | hc
        · exact .inl ⟨rfl, Bool.eq_false_iff.2 hd⟩
        · exact .inr (ih (hpieces ▸ List.mem_cons_self) hc)
      · exact .inr (ih (hpieces ▸ List.mem_cons_of_mem _ h) hc)

def words (cs : List Char) : List (List Char) :=
  (pieces isBlank cs).filter fun piece => !piece.isEmpty

def stripEnd (drops : Char → Bool) (cs : List Char) : List Char :=
  (cs.reverse.dropWhile drops).reverse

def strip (drops : Char → Bool) (cs : List Char) : List Char :=
  stripEnd drops (cs.dropWhile drops)

end UtilityCss.Text
