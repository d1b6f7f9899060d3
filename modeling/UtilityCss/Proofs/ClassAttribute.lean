import UtilityCss.Proofs.OneLine
import UtilityCss.Proofs.TokenParts
import UtilityCss.Scan.Content

/-!
# Scanning one class attribute

A class attribute whose value is made of the characters of class names is found by the first reader of
markup and by no other, and the one piece of its value is left as it is.
-/

namespace UtilityCss.Text

theorem dropWhile_of_none {p : Char → Bool} {cs : List Char} (h : ∀ c ∈ cs, p c = false) :
    cs.dropWhile p = cs := by
  cases cs with
  | nil => rfl
  | cons c cs => rw [List.dropWhile_cons_of_neg (by simp [h c List.mem_cons_self])]

theorem stripEnd_of_none {p : Char → Bool} {cs : List Char} (h : ∀ c ∈ cs, p c = false) :
    stripEnd p cs = cs := by
  rw [stripEnd, dropWhile_of_none, List.reverse_reverse]
  exact fun c hc => h c (List.mem_reverse.1 hc)

theorem strip_of_none {p : Char → Bool} {cs : List Char} (h : ∀ c ∈ cs, p c = false) :
    strip p cs = cs := by
  rw [strip, dropWhile_of_none h, stripEnd_of_none h]

theorem pieces_of_none {p : Char → Bool} {cs : List Char} (h : ∀ c ∈ cs, p c = false) :
    pieces p cs = [cs] := by
  induction cs with
  | nil => rfl
  | cons c cs ih =>
    have hrest := ih fun d hd => h d (List.mem_cons_of_mem c hd)
    rw [pieces, h c List.mem_cons_self, hrest]
    rfl

theorem words_of_none {cs : List Char} (hne : cs ≠ []) (h : ∀ c ∈ cs, isBlank c = false) :
    words cs = [cs] := by
  rw [words, pieces_of_none h]
  simp [hne]

end UtilityCss.Text

namespace UtilityCss.Scan
open Text

theorem isBlank_of_isNameChar {c : Char} (h : isNameChar c) : isBlank c = false := by
  have hrange : 33 ≤ c.toNat ∧ c.toNat ≤ 122 := by
    simp only [isNameChar, Bool.or_eq_true, List.contains_iff_mem, List.mem_cons,
      List.not_mem_nil, or_false] at h
    rcases h with h | h
    · rw [isAlphanum_iff] at h
      omega
    · rcases h with rfl | rfl | rfl | rfl | rfl | rfl | rfl | rfl | rfl <;> decide
  simp only [isBlank, Bool.or_eq_false_iff, Bool.and_eq_false_iff, decide_eq_false_iff_not,
    beq_eq_false_iff_ne]
  omega

theorem ne_of_isNameChar {c d : Char} (h : isNameChar c) (hd : isNameChar d = false) : c ≠ d := by
  rintro rfl
  rw [hd] at h
  cases h

theorem not_mem_of_isNameChar {cs : List Char} (h : ∀ c ∈ cs, isNameChar c) {d : Char}
    (hd : isNameChar d = false) : d ∉ cs :=
  fun hmem => ne_of_isNameChar (h d hmem) hd rfl

theorem clean_of_isNameChar {cs : List Char} (h : ∀ c ∈ cs, isNameChar c) : clean cs = cs := by
  have hblank : ∀ c ∈ cs, isBlank c = false := fun c hc => isBlank_of_isNameChar (h c hc)
  have hquote : ∀ c ∈ cs, (['"', '\''].contains c) = false := by
    intro c hc
    simpa using And.intro (ne_of_isNameChar (d := '"') (h c hc) (by decide))
      (ne_of_isNameChar (d := '\'') (h c hc) (by decide))
  have hclosing : ∀ c ∈ cs, ([')', ',', ';'].contains c) = false := by
    intro c hc
    simpa using And.intro (ne_of_isNameChar (d := ')') (h c hc) (by decide))
      (And.intro (ne_of_isNameChar (d := ',') (h c hc) (by decide))
        (ne_of_isNameChar (d := ';') (h c hc) (by decide)))
  have hopening : ∀ c ∈ cs, (c == '(') = false := by
    intro c hc
    simpa using ne_of_isNameChar (d := '(') (h c hc) (by decide)
  rw [clean, strip_of_none hblank, strip_of_none hquote, stripEnd_of_none hclosing,
    dropWhile_of_none hopening]

theorem isFragment_of_isNameChar {piece : String} (h : ∀ c ∈ piece.toList, isNameChar c)
    (hcolon : piece ≠ ":") : isFragment piece = false := by
  have hat : beginsWith "@" piece = false := by
    rw [beginsWith, Bool.eq_false_iff]
    intro hpre
    have hmem := (List.isPrefixOf_iff_prefix.1 hpre).subset (List.mem_cons_self)
    exact not_mem_of_isNameChar h (by decide) hmem
  have hbraces : (piece.toList.any ['(', '\x7b', '\x7d'].contains) = false := by
    rw [List.any_eq_false]
    intro c hc
    simpa using And.intro (ne_of_isNameChar (d := '(') (h c hc) (by decide))
      (And.intro (ne_of_isNameChar (d := '\x7b') (h c hc) (by decide))
        (ne_of_isNameChar (d := '\x7d') (h c hc) (by decide)))
  have hoperators : operators.contains piece = false := by
    have hother (operator : String) (c : Char) (hc : c ∈ operator.toList)
        (hname : isNameChar c = false) : piece ≠ operator := by
      rintro rfl
      exact not_mem_of_isNameChar h hname hc
    simp only [operators, List.contains_eq_mem, List.mem_cons, List.not_mem_nil, or_false,
      decide_eq_false_iff_not, not_or]
    exact ⟨hother "==" '=' (by decide) (by decide), hother "!=" '=' (by decide) (by decide),
      hother "&&" '&' (by decide) (by decide), hother "||" '|' (by decide) (by decide),
      hother "?" '?' (by decide) (by decide), hcolon, hother "=>" '=' (by decide) (by decide),
      hother "=" '=' (by decide) (by decide)⟩
  rw [isFragment, hat, hbraces, hoperators]
  rfl

theorem afterWord?_suffix {fold : Char → Char} {word cs rest : List Char}
    (h : afterWord? fold word cs = some rest) : rest <:+ cs := by
  induction word generalizing cs with
  | nil =>
    obtain rfl := Option.some.inj h
    exact List.suffix_refl cs
  | cons w word ih =>
    cases cs with
    | nil => cases h
    | cons c cs =>
      rw [afterWord?] at h
      split at h
      · exact (ih h).trans (List.suffix_cons c cs)
      · cases h

namespace Assignment

theorem suffix_of_afterOpening? {assignment : Assignment} {name : String} {cs after : List Char}
    (h : assignment.afterOpening? name cs = some after) :
    '=' ∈ cs ∧ assignment.opening.toList ++ after <:+ cs := by
  simp only [afterOpening?, Option.bind_eq_bind, Option.bind_eq_some_iff] at h
  obtain ⟨rest, hrest, h⟩ := h
  split at h
  · rename_i rest' hequals
    have hsuffix : '=' :: rest' <:+ cs := by
      rw [← hequals]
      exact (List.dropWhile_suffix _).trans (afterWord?_suffix hrest)
    have hopening := List.isPrefixOf?_eq_some_iff_append_eq.1 h
    refine ⟨hsuffix.mem List.mem_cons_self, ?_⟩
    rw [hopening]
    exact (List.dropWhile_suffix _).trans ((List.suffix_cons '=' rest').trans hsuffix)
  · cases h

theorem read?_eq_none {assignment : Assignment} {value? : Reader (List Char)} {cs : List Char}
    (h : '=' ∉ cs) : assignment.read? value? cs = none := by
  rw [read?, List.findSome?_eq_none_iff]
  intro name _
  cases hopening : assignment.afterOpening? name cs with
  | none => rfl
  | some after => exact absurd (suffix_of_afterOpening? hopening).1 h

end Assignment

theorem occurrencesFrom_eq_nil {α : Type} {read : Reader α} (length : Nat) {cs : List Char}
    (h : ∀ rest, rest <:+ cs → read rest = none) : occurrencesFrom read length cs = [] := by
  induction length generalizing cs with
  | zero => rw [occurrencesFrom]
  | succ length ih =>
    cases cs with
    | nil =>
      rw [occurrencesFrom]
      exact Nat.succ_ne_zero length
    | cons c cs =>
      rw [occurrencesFrom, h _ (List.suffix_refl _)]
      exact ih fun rest hrest => h rest (hrest.trans (List.suffix_cons c cs))

theorem occurrencesFrom_read?_eq_nil {assignment : Assignment} {value? : Reader (List Char)}
    (length : Nat) {cs : List Char} (h : '=' ∉ cs) :
    occurrencesFrom (assignment.read? value?) length cs = [] :=
  occurrencesFrom_eq_nil length fun _ hrest =>
    Assignment.read?_eq_none fun hmem => h (hrest.mem hmem)

def classAttribute (value : List Char) : List Char :=
  'c' :: 'l' :: 'a' :: 's' :: 's' :: '=' :: '"' :: (value ++ ['"'])

theorem read?_expression_classAttribute {c : Char} (hc : c ≠ '@') (cs : List Char) :
    expressionAttribute.read? expression? (classAttribute (c :: cs)) = none := by
  have hopening : expressionAttribute.afterOpening? "class" (classAttribute (c :: cs)) =
      ['@', '('].isPrefixOf? (c :: (cs ++ ['"'])) := rfl
  have hnone : ['@', '('].isPrefixOf? (c :: (cs ++ ['"'])) = none := by
    simp [List.isPrefixOf?, Ne.symm hc]
  rw [hnone] at hopening
  have hnames : expressionAttribute.names = ["class"] := rfl
  rw [Assignment.read?, hnames, List.findSome?_cons, hopening]
  rfl

section Attribute

variable {value : List Char} (h : ∀ c ∈ value, isNameChar c)

include h

theorem not_mem_rest : '=' ∉ '"' :: (value ++ ['"']) := by
  simpa using not_mem_of_isNameChar h (d := '=') (by decide)

theorem values_class :
    ({ names := ["class", "Class"] } : Assignment).values (classAttribute value) = [value] := by
  have hcut : firstCut? '"' (value ++ ['"']) = some (value, []) :=
    firstCut?_append_cons (not_mem_of_isNameChar h (by decide)) []
  have hread : ({ names := ["class", "Class"] } : Assignment).read? (firstCut? '"')
      (classAttribute value) = some (value, []) := by
    have hopening : ({ names := ["class", "Class"] } : Assignment).afterOpening? "class"
        (classAttribute value) = some (value ++ ['"']) := rfl
    simp only [Assignment.read?, List.findSome?_cons, hopening, Option.bind_eq_bind,
      Option.bind_some, hcut]
  rw [Assignment.values, occurrences, classAttribute, List.length_cons, occurrencesFrom, ← classAttribute,
    hread]
  simp [occurrencesFrom]

theorem values_eq_nil {assignment : Assignment} (hmem : assignment ∈ classAttributes.tail) :
    assignment.values (classAttribute value) = [] := by
  have hrest := not_mem_rest h
  simp only [classAttributes, List.tail_cons, List.mem_cons, List.not_mem_nil, or_false] at hmem
  -- Up to the equals sign no name of these attributes is found, and behind it there is no other.
  rcases hmem with rfl | rfl | rfl | rfl
  all_goals exact occurrencesFrom_read?_eq_nil ((value ++ ['"']).length + 1) hrest

theorem expressions_eq_nil (hat : value ≠ []) : expressions (classAttribute value) = [] := by
  have hrest := not_mem_rest h
  obtain ⟨c, cs, rfl⟩ := List.exists_cons_of_ne_nil hat
  have hc : c ≠ '@' := ne_of_isNameChar (h c List.mem_cons_self) (by decide)
  rw [expressions, occurrences, classAttribute, List.length_cons, occurrencesFrom, ← classAttribute,
    read?_expression_classAttribute hc]
  exact occurrencesFrom_read?_eq_nil ((c :: cs ++ ['"']).length + 1) hrest

end Attribute

theorem mentions_eq_false {c : Char} {part cs : List Char} (h : c ∉ cs) :
    mentions (c :: part) cs = false := by
  induction cs with
  | nil => rfl
  | cons d cs ih =>
    obtain ⟨hd, hcs⟩ := not_or.1 (mt List.mem_cons.2 h)
    simp [mentions, ih hcs, List.isPrefixOf, hd]

end UtilityCss.Scan

namespace UtilityCss.Scanner
open Text Scan

variable (scanner : Scanner) {name : String}

theorem extract_of_isNameChar (hne : name ≠ "") (h : ∀ c ∈ name.toList, isNameChar c) :
    scanner.extract name.toList = if scanner.keeps name then [name] else [] := by
  have hblank : ∀ c ∈ name.toList, isBlank c = false := fun c hc => isBlank_of_isNameChar (h c hc)
  rw [extract, words_of_none (by simpa using hne) hblank, List.map_singleton, clean_of_isNameChar h,
    String.ofList_toList]
  by_cases hkeeps : scanner.keeps name <;> simp [hkeeps]

theorem scan_classAttribute (hne : name ≠ "") (h : ∀ c ∈ name.toList, isNameChar c) :
    scanner.scan ("class=\"" ++ name ++ "\"") .markup =
      if scanner.keeps name then [name] else [] := by
  have hcontent : ("class=\"" ++ name ++ "\"").toList = classAttribute name.toList := by
    simp [classAttribute]
  have hvalue : scanner.fromValue name.toList = scanner.extract name.toList := by
    rw [fromValue, mentions_eq_false (not_mem_of_isNameChar h (by decide))]
    exact List.append_nil _
  have hmarkup : scanner.fromMarkup (classAttribute name.toList) = scanner.extract name.toList := by
    have hothers : (classAttributes.tail.flatMap fun assignment =>
        (assignment.values (classAttribute name.toList)).flatMap scanner.fromValue) = [] := by
      rw [List.flatMap_eq_nil_iff]
      intro assignment hmem
      rw [values_eq_nil h hmem]
      rfl
    have hattributes : classAttributes = { names := ["class", "Class"] } :: classAttributes.tail := rfl
    rw [fromMarkup, expressions_eq_nil h (by simpa using hne), hattributes, List.flatMap_cons, hothers,
      values_class h]
    simp [hvalue]
  rw [scan, found, hcontent, hmarkup, extract_of_isNameChar scanner hne h]
  split <;> simp [orderedSet, insertOrdered]

end UtilityCss.Scanner
