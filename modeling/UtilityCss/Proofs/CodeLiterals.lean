import UtilityCss.Proofs.Expressions

/-!
# Literals in code

Quotes alone divide code into string literals and what stands between them, where a quote behind a backslash
counts as a character of its literal. The scanner searches the literals that it takes for class lists, and the
values of class properties; the rest of the code counts for nothing.
-/

namespace UtilityCss

namespace Text

theorem words_cons_of_isBlank {c : Char} (h : isBlank c = true) (cs : List Char) :
    words (c :: cs) = words cs := by
  rw [words, pieces, if_pos h, List.filter_cons_of_neg (by simp), words]

theorem words_of_allBlank {cs : List Char} (h : allBlank cs = true) : words cs = [] := by
  induction cs with
  | nil => rfl
  | cons c cs ih =>
    rw [allBlank, List.all_cons, Bool.and_eq_true] at h
    rw [words_cons_of_isBlank h.1, ih h.2]

end Text

namespace Scan

structure Code where
  first : List Char
  /-- What stands between the quotes of each literal, with the text behind the literal. -/
  quoted : List (List Char × List Char)
  quote_notMem_first : '"' ∉ first
  isBody_quoted : ∀ p ∈ quoted, IsBody p.1 ∧ '"' ∉ p.2

namespace Code

def text (code : Code) : List Char := code.first ++ Expression.quotedText code.quoted

def bodies (code : Code) : List (List Char) := code.quoted.map Prod.fst

theorem literals_text (code : Code) : literals code.text = code.bodies := by
  rw [text, literals_append code.quote_notMem_first, Expression.literals_quotedText code.isBody_quoted,
    bodies]

end Code

end Scan

namespace Scanner
open Text Scan

variable {scanner : Scanner} {name : String} {body : List Char}

theorem allBlank_of_mem_extract (h : name ∈ scanner.extract body) : allBlank body = false := by
  rw [← Bool.not_eq_true]
  intro hblank
  rw [extract, words_of_allBlank hblank] at h
  cases h

theorem looksLikeClasses_of_mem_extract (h : name ∈ scanner.extract body) :
    scanner.looksLikeClasses body = true ↔
      scanner.naming.permissive = true ∨ looksPrefixed scanner.naming (String.ofList body) = true := by
  rw [looksLikeClasses, allBlank_of_mem_extract h, Bool.not_false, Bool.true_and, Bool.or_eq_true]

theorem mem_scan_code (scanner : Scanner) (code : Scan.Code) (name : String) :
    name ∈ scanner.scan (String.ofList code.text) .code ↔
      (∃ body ∈ code.bodies, scanner.looksLikeClasses body = true ∧ name ∈ scanner.extract body) ∨
      ∃ value ∈ classProperty.values code.text, name ∈ scanner.extract value := by
  rw [scan, mem_orderedSet, found, String.toList_ofList, fromCode, code.literals_text, List.mem_append,
    List.mem_flatMap, List.mem_flatMap]
  simp only [List.mem_filter, and_assoc]

/-- The literals of a code are what its quotes enclose. All names in them are found when utilities need no prefix,
and otherwise those of the literals that look like prefixed utilities; besides only the names in class properties
are. -/
theorem scan_literals (code : Scan.Code) :
    literals code.text = code.bodies ∧
    ∀ (scanner : Scanner) (name : String), name ∈ scanner.scan (String.ofList code.text) .code ↔
      (∃ body ∈ code.bodies, (scanner.naming.permissive = true ∨
        looksPrefixed scanner.naming (String.ofList body) = true) ∧ name ∈ scanner.extract body) ∨
      ∃ value ∈ classProperty.values code.text, name ∈ scanner.extract value := by
  refine ⟨code.literals_text, fun scanner name => (mem_scan_code scanner code name).trans ?_⟩
  refine or_congr_left (exists_congr fun body => and_congr_right fun _ => ?_)
  exact and_congr_left looksLikeClasses_of_mem_extract

theorem scan_literals_escaped :
    literals "var s = \"vibe-flex \\\"quoted\\\" vibe-p-2\";".toList =
        ["vibe-flex \\\"quoted\\\" vibe-p-2".toList] ∧
      "vibe-p-2" ∈
        ({} : Scanner).scan "var s = \"vibe-flex \\\"quoted\\\" vibe-p-2\";" .code := by
  let body := "vibe-flex \\\"quoted\\\" vibe-p-2".toList
  let code : Scan.Code := {
    first := "var s = ".toList
    quoted := [(body, ";".toList)]
    quote_notMem_first := by decide
    isBody_quoted := List.forall_mem_singleton.2 ⟨by decide +kernel, by decide⟩ }
  obtain ⟨hliterals, hscan⟩ := scan_literals code
  exact ⟨hliterals, (hscan {} "vibe-p-2").2
    (.inl ⟨body, List.mem_singleton.2 rfl, .inr (by decide +kernel), by decide +kernel⟩)⟩

end Scanner

end UtilityCss
