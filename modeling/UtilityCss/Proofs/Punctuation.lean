import Mathlib.Data.List.DropRight
import UtilityCss.Proofs.ClassAttribute

/-!
# Punctuation around class names

A piece of a class list is freed of the quotes at its ends first, then of closing punctuation, and of opening
parentheses last. So the punctuation of an expression around a class name is gone for good only where the quotes
stand outside of all other signs. Otherwise a quote stays, and what has a quote is no class name.
-/

namespace UtilityCss.Scan
open Text

def isQuote (c : Char) : Bool := ['"', '\''].contains c

def isClosing (c : Char) : Bool := [')', ',', ';'].contains c

/-- No sign that is not a quote stands outside of a quote, where the outermost sign is the first one. -/
def QuotesFirst (signs : List Char) : Prop := signs.Pairwise fun outer inner => isQuote inner → isQuote outer

instance (signs : List Char) : Decidable (QuotesFirst signs) :=
  inferInstanceAs (Decidable (signs.Pairwise _))

/-- What is left of signs that are stripped from their outer end: the quotes first, then the other ones. -/
def leftover (strips : Char → Bool) (signs : List Char) : List Char :=
  (signs.dropWhile isQuote).dropWhile strips

section Leftover

variable {strips : Char → Bool} {signs : List Char}

theorem leftover_eq_nil (hsigns : ∀ c ∈ signs, isQuote c ∨ strips c) (hstrips : ∀ c, strips c → isQuote c = false) :
    leftover strips signs = [] ↔ QuotesFirst signs := by
  induction signs with
  | nil => exact iff_of_true rfl .nil
  | cons c signs ih =>
    obtain ⟨hc, hsigns⟩ := List.forall_mem_cons.1 hsigns
    rw [QuotesFirst, List.pairwise_cons, ← QuotesFirst]
    cases hquote : isQuote c with
    | true =>
      rw [leftover, List.dropWhile_cons_of_pos hquote, ← leftover, ih hsigns]
      exact (and_iff_right fun _ _ _ => rfl).symm
    | false =>
      -- No quote can follow, since nothing strips it any more.
      have hstrip : strips c = true := hc.resolve_left (by simp [hquote])
      rw [leftover, List.dropWhile_cons_of_neg (by simp [hquote]), List.dropWhile_cons_of_pos hstrip,
        List.dropWhile_eq_nil_iff]
      constructor
      · intro hall
        have hnone : ∀ d ∈ signs, isQuote d = false := fun d hd => hstrips d (hall d hd)
        refine ⟨fun d hd hd' => absurd hd' (by simp [hnone d hd]), ?_⟩
        exact List.pairwise_of_forall_mem_list fun a _ b hb hb' => absurd hb' (by simp [hnone b hb])
      · rintro ⟨hnone, -⟩ d hd
        refine (hsigns d hd).resolve_left fun hd' => ?_
        cases hnone d hd hd'

theorem exists_quote_mem_leftover (hsigns : ∀ c ∈ signs, isQuote c ∨ strips c) (h : leftover strips signs ≠ []) :
    ∃ c ∈ leftover strips signs, isQuote c := by
  by_contra hnone
  simp only [not_exists, not_and] at hnone
  have hsub : leftover strips signs ⊆ signs :=
    fun c hc => (List.dropWhile_suffix _).subset ((List.dropWhile_suffix _).subset hc)
  have hall : ∀ c ∈ leftover strips signs, strips c := fun c hc => (hsigns c (hsub hc)).resolve_left (hnone c hc)
  rw [← List.dropWhile_eq_nil_iff, leftover, List.dropWhile_idempotent] at hall
  exact h hall

end Leftover

/-! ### A class name with punctuation around it -/

section Around

variable {drops : Char → Bool} {name : List Char}

theorem dropWhile_append_of_none (hname : ∀ c ∈ name, drops c = false) (hne : name ≠ []) (front back : List Char) :
    (front ++ (name ++ back)).dropWhile drops = front.dropWhile drops ++ (name ++ back) := by
  obtain ⟨c, rest, rfl⟩ := List.exists_cons_of_ne_nil hne
  have hstop : (c :: rest ++ back).dropWhile drops = c :: rest ++ back := by
    rw [List.cons_append, List.dropWhile_cons_of_neg (by simp [hname c List.mem_cons_self])]
  rw [List.dropWhile_append, hstop]
  split
  · rename_i hempty
    rw [List.isEmpty_iff.1 hempty, List.nil_append]
  · rfl

theorem stripEnd_append_of_none (hname : ∀ c ∈ name, drops c = false) (hne : name ≠ []) (front back : List Char) :
    stripEnd drops (front ++ (name ++ back)) = front ++ (name ++ stripEnd drops back) := by
  have hreverse : (front ++ (name ++ back)).reverse = back.reverse ++ (name.reverse ++ front.reverse) := by simp
  have hname : ∀ c ∈ name.reverse, drops c = false := fun c hc => hname c (List.mem_reverse.1 hc)
  rw [stripEnd, hreverse, dropWhile_append_of_none hname (mt List.reverse_eq_nil_iff.1 hne), stripEnd]
  simp

end Around

variable {front name back : List Char}

theorem contains_eq_false_of_isNameChar {signs : List Char} (hsigns : signs.any isNameChar = false)
    (hname : ∀ c ∈ name, isNameChar c) : ∀ c ∈ name, signs.contains c = false := by
  intro c hc
  rw [← Bool.not_eq_true, List.contains_iff_mem]
  intro hmem
  exact List.any_eq_false.1 hsigns c hmem (hname c hc)

theorem isBlank_of_mem_surrounded (hfront : ∀ c ∈ front, isQuote c ∨ c = '(') (hname : ∀ c ∈ name, isNameChar c)
    (hback : ∀ c ∈ back, isQuote c ∨ isClosing c) : ∀ c ∈ front ++ (name ++ back), isBlank c = false := by
  have hquotes : ∀ c ∈ ['"', '\''], isBlank c = false :=
    List.forall_mem_cons.2 ⟨by decide, List.forall_mem_singleton.2 (by decide)⟩
  have hclosings : ∀ c ∈ [')', ',', ';'], isBlank c = false :=
    List.forall_mem_cons.2 ⟨by decide, List.forall_mem_cons.2 ⟨by decide, List.forall_mem_singleton.2 (by decide)⟩⟩
  intro c hc
  rcases List.mem_append.1 hc with hc | hc
  · rcases hfront c hc with hquote | rfl
    · exact hquotes c (List.contains_iff_mem.1 hquote)
    · decide
  rcases List.mem_append.1 hc with hc | hc
  · exact isBlank_of_isNameChar (hname c hc)
  · rcases hback c hc with hquote | hclosing
    · exact hquotes c (List.contains_iff_mem.1 hquote)
    · exact hclosings c (List.contains_iff_mem.1 hclosing)

theorem clean_append (hfront : ∀ c ∈ front, isQuote c ∨ c = '(') (hname : ∀ c ∈ name, isNameChar c)
    (hne : name ≠ []) (hback : ∀ c ∈ back, isQuote c ∨ isClosing c) :
    clean (front ++ (name ++ back)) =
      leftover (· == '(') front ++ (name ++ (leftover isClosing back.reverse).reverse) := by
  have hquote : ∀ c ∈ name, isQuote c = false := contains_eq_false_of_isNameChar (by decide) hname
  have hclosing : ∀ c ∈ name, isClosing c = false := contains_eq_false_of_isNameChar (by decide) hname
  have hopening : ∀ c ∈ name, (c == '(') = false :=
    fun c hc => beq_eq_false_iff_ne.2 (ne_of_isNameChar (hname c hc) (by decide))
  have hclean : clean (front ++ (name ++ back)) =
      (stripEnd isClosing (strip isQuote (strip isBlank (front ++ (name ++ back))))).dropWhile (· == '(') := rfl
  rw [hclean, strip_of_none (isBlank_of_mem_surrounded hfront hname hback), strip,
    dropWhile_append_of_none hquote hne, stripEnd_append_of_none hquote hne,
    stripEnd_append_of_none hclosing hne, dropWhile_append_of_none hopening hne]
  simp [leftover, stripEnd]

end UtilityCss.Scan

namespace UtilityCss.Scanner
open Text Scan

variable {scanner : Scanner} {front name back cs : List Char}

theorem extract_of_visible (hne : cs ≠ []) (hvisible : ∀ c ∈ cs, isBlank c = false) :
    scanner.extract cs = [String.ofList (clean cs)].filter scanner.keeps := by
  rw [extract, words_of_none hne hvisible, List.map_singleton]

theorem keeps_of_quote_mem {c : Char} (hquote : isQuote c) (hc : c ∈ cs) :
    scanner.keeps (String.ofList cs) = false := by
  have hquotes : ∀ c ∈ ['"', '\''], isNameChar c = false :=
    List.forall_mem_cons.2 ⟨by decide, List.forall_mem_singleton.2 (by decide)⟩
  have hname : isName (String.ofList cs) = false := by
    rw [isName, String.toList_ofList, Bool.and_eq_false_iff]
    exact .inr (List.all_eq_false.2 ⟨c, hc, by simp [hquotes c (List.contains_iff_mem.1 hquote)]⟩)
  rw [keeps, hname, Bool.and_false, Bool.false_and]

/-- A class name is freed of all punctuation around it exactly when the quotes stand outside of all other signs.
Otherwise a quote stays, and the name is not found. -/
theorem clean_surrounded (hfront : ∀ c ∈ front, isQuote c ∨ c = '(') (hname : ∀ c ∈ name, isNameChar c)
    (hne : name ≠ []) (hback : ∀ c ∈ back, isQuote c ∨ isClosing c) :
    let outside := QuotesFirst front ∧ QuotesFirst back.reverse
    let cleaned := clean (front ++ (name ++ back))
    cleaned = leftover (· == '(') front ++ (name ++ (leftover isClosing back.reverse).reverse) ∧
    (cleaned = name ↔ outside) ∧
    (outside → scanner.extract (front ++ (name ++ back)) = scanner.extract name) ∧
    (¬outside → (∃ c ∈ cleaned, isQuote c) ∧ scanner.extract (front ++ (name ++ back)) = []) := by
  intro outside cleaned
  have hcleaned : cleaned = _ := clean_append hfront hname hne hback
  have hopening : ∀ c ∈ front, isQuote c ∨ c == '(' := fun c hc => (hfront c hc).imp_right beq_iff_eq.2
  have hclosing : ∀ c ∈ back.reverse, isQuote c ∨ isClosing c := fun c hc => hback c (List.mem_reverse.1 hc)
  have houtside : outside ↔ leftover (· == '(') front = [] ∧ leftover isClosing back.reverse = [] :=
    and_congr (leftover_eq_nil hopening (by simp [isQuote])).symm
      (leftover_eq_nil hclosing (by simp [isQuote, isClosing])).symm
  have hvisible : ∀ c ∈ front ++ (name ++ back), isBlank c = false :=
    isBlank_of_mem_surrounded hfront hname hback
  have hextract : scanner.extract (front ++ (name ++ back)) = [String.ofList cleaned].filter scanner.keeps :=
    extract_of_visible (by simp [hne]) hvisible
  have hiff : cleaned = name ↔ outside := by
    rw [hcleaned, houtside, ← @List.reverse_eq_nil_iff _ (leftover isClosing back.reverse)]
    generalize leftover (· == '(') front = before
    generalize (leftover isClosing back.reverse).reverse = behind
    constructor
    · intro h
      have hlength := congrArg List.length h
      simp only [List.length_append] at hlength
      exact ⟨List.eq_nil_of_length_eq_zero (by omega), List.eq_nil_of_length_eq_zero (by omega)⟩
    · rintro ⟨rfl, rfl⟩
      rw [List.nil_append, List.append_nil]
  have hquote : ¬outside → ∃ c ∈ cleaned, isQuote c := by
    rw [houtside, hcleaned, not_and_or]
    rintro (h | h)
    · obtain ⟨c, hc, hquote⟩ := exists_quote_mem_leftover hopening h
      exact ⟨c, List.mem_append_left _ hc, hquote⟩
    · obtain ⟨c, hc, hquote⟩ := exists_quote_mem_leftover hclosing h
      exact ⟨c, List.mem_append_right _ (List.mem_append_right _ (List.mem_reverse.2 hc)), hquote⟩
  refine ⟨hcleaned, hiff, fun h => ?_, fun h => ⟨hquote h, ?_⟩⟩
  · rw [hextract, hiff.2 h, extract_of_visible hne fun c hc => isBlank_of_isNameChar (hname c hc),
      clean_of_isNameChar hname]
  · obtain ⟨c, hc, hquote⟩ := hquote h
    rw [hextract, List.filter_singleton, keeps_of_quote_mem hquote hc]
    rfl

theorem clean_surrounded_grid :
    clean "'\"(vibe-grid),\"'".toList = "vibe-grid".toList ∧
      ({} : Scanner).extract "'\"(vibe-grid),\"'".toList = ["vibe-grid"] := by
  have houtside : QuotesFirst "'\"(".toList ∧ QuotesFirst "),\"'".toList.reverse := by decide
  have hfront : ("'\"(".toList.all fun c => isQuote c || c == '(') = true := by decide
  have hback : ("),\"'".toList.all fun c => isQuote c || isClosing c) = true := by decide
  obtain ⟨-, hiff, hfound, -⟩ := @clean_surrounded {} "'\"(".toList "vibe-grid".toList "),\"'".toList
    (by simpa using hfront) (List.all_eq_true.1 (by decide)) (by decide) (by simpa using hback)
  have hkept : ({} : Scanner).extract "vibe-grid".toList = ["vibe-grid"] := by decide +kernel
  exact ⟨hiff.2 houtside, (hfound houtside).trans hkept⟩

/-- A quoted class in parentheses, as it stands in an expression. -/
theorem quotes_in_parentheses_stay :
    clean "('vibe-flex')".toList = "'vibe-flex'".toList ∧
      ({} : Scanner).scan "class=\"('vibe-flex')\"" .markup = [] ∧
      ({} : Scanner).scan "class=\"vibe-flex\"" .markup = ["vibe-flex"] := by
  decide +kernel

end UtilityCss.Scanner
