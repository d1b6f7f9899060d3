import UtilityCss.Proofs.ClassAttribute

/-!
# Expressions in a class attribute

An expression in `@(...)` is text in which literals stand between quotes. When it is the whole value of a class
attribute, its literals are searched. When class names stand before it, the value of the attribute ends at the
first quote inside, so that no literal belongs to it; what follows is searched only for attributes of its own.
-/

namespace UtilityCss.Scan
open Text

/-! ### Search from left to right -/

section Occurrences

variable {α : Type} {read : Reader α}

def Consumes (read : Reader α) : Prop :=
  ∀ cs x rest, read cs = some (x, rest) → rest.length < cs.length

theorem occurrencesFrom_eq (h : Consumes read) {length more : Nat} {cs : List Char}
    (hlength : cs.length ≤ length) (hmore : cs.length ≤ more) :
    occurrencesFrom read length cs = occurrencesFrom read more cs := by
  induction length generalizing more cs with
  | zero =>
    obtain rfl := List.length_eq_zero_iff.1 (Nat.le_zero.1 hlength)
    cases more <;> simp [occurrencesFrom]
  | succ length ih =>
    cases cs with
    | nil => cases more <;> simp [occurrencesFrom]
    | cons c cs =>
      rw [List.length_cons] at hlength hmore
      obtain ⟨more, rfl⟩ := Nat.exists_eq_succ_of_ne_zero (by omega : more ≠ 0)
      rw [occurrencesFrom, occurrencesFrom]
      cases hread : read (c :: cs) with
      | none => exact ih (by omega) (by omega)
      | some p =>
        have hrest := h _ _ _ hread
        rw [List.length_cons] at hrest
        simp only
        have hlonger : p.2.length ≤ more := by omega
        rw [ih (by omega) hlonger]

theorem occurrences_of_some (h : Consumes read) {c : Char} {cs rest : List Char} {x : α}
    (hread : read (c :: cs) = some (x, rest)) :
    occurrences read (c :: cs) = x :: occurrences read rest := by
  have hrest := h _ _ _ hread
  rw [List.length_cons] at hrest
  rw [occurrences, List.length_cons, occurrencesFrom, hread]
  simp only
  rw [occurrencesFrom_eq h (by omega) (Nat.le_refl rest.length), occurrences]

theorem occurrences_append {front : List Char}
    (h : ∀ c ∈ front, ∀ cs, read (c :: cs) = none) (rest : List Char) :
    occurrences read (front ++ rest) = occurrences read rest := by
  induction front with
  | nil => rfl
  | cons c front ih =>
    rw [List.cons_append, occurrences, List.length_cons, occurrencesFrom, h c List.mem_cons_self]
    exact ih fun d hd => h d (List.mem_cons_of_mem c hd)

end Occurrences

/-! ### Literals between quotes -/

/-- What may stand between the quotes of a literal. A backslash takes its meaning from the next character, which
may not be the end of a line. -/
inductive IsBody : List Char → Prop
  | nil : IsBody []
  | plain {c : Char} {cs : List Char} (hquote : c ≠ '"') (hslash : c ≠ '\\') (hrest : IsBody cs) :
      IsBody (c :: cs)
  | escaped {c : Char} {cs : List Char} (hline : c ≠ '\n') (hrest : IsBody cs) :
      IsBody ('\\' :: c :: cs)

theorem IsBody.body?_append {inside : List Char} (h : IsBody inside) (rest : List Char) :
    body? (inside ++ '"' :: rest) = some (inside, rest) := by
  induction h with
  | nil => rfl
  | plain hquote hslash _ ih =>
    rw [List.cons_append, body?]
    · rw [ih]
      rfl
    · exact hquote
    · intro hc
      exact absurd hc hslash
    · intro d ds hc
      exact absurd hc hslash
  | escaped hline _ ih =>
    rw [List.cons_append, List.cons_append, body?, if_neg hline, ih]
    rfl

theorem isBody_of_body? {cs inside rest : List Char} (h : body? cs = some (inside, rest)) :
    IsBody inside ∧ cs = inside ++ '"' :: rest := by
  induction cs using body?.induct generalizing inside with
  | case1 => cases h
  | case2 cs =>
    obtain ⟨rfl, rfl⟩ := Prod.mk.inj (Option.some.inj h)
    exact ⟨.nil, rfl⟩
  | case3 => cases h
  | case4 cs => simp [body?] at h
  | case5 c cs hc ih =>
    rw [body?, if_neg hc] at h
    obtain ⟨p, hp, heq⟩ := Option.map_eq_some_iff.1 h
    obtain ⟨rfl, rfl⟩ := Prod.mk.inj heq
    obtain ⟨hbody, hcs⟩ := ih hp
    exact ⟨.escaped hc hbody, by rw [hcs]; rfl⟩
  | case6 c cs hquote hlast hslash ih =>
    rw [body?] at h
    · obtain ⟨p, hp, heq⟩ := Option.map_eq_some_iff.1 h
      obtain ⟨rfl, rfl⟩ := Prod.mk.inj heq
      obtain ⟨hbody, hcs⟩ := ih hp
      refine ⟨.plain hquote (fun hc => ?_) hbody, by rw [hcs]; rfl⟩
      cases cs with
      | nil => exact hlast hc rfl
      | cons d cs => exact hslash d cs hc rfl
    all_goals assumption

theorem body?_eq_some_iff {cs inside rest : List Char} :
    body? cs = some (inside, rest) ↔ IsBody inside ∧ cs = inside ++ '"' :: rest := by
  constructor
  · exact isBody_of_body?
  · rintro ⟨hbody, rfl⟩
    exact hbody.body?_append rest

instance (cs : List Char) : Decidable (IsBody cs) :=
  decidable_of_iff (body? (cs ++ ['"']) = some (cs, [])) (body?_eq_some_iff.trans (and_iff_left rfl))

theorem consumes_literal? : Consumes literal? := by
  intro cs x rest h
  unfold literal? at h
  split at h
  · obtain ⟨-, rfl⟩ := isBody_of_body? h
    simp only [List.length_cons, List.length_append]
    omega
  · cases h

def isOrdinary (c : Char) : Bool := c != '"' && c != '\\' && c != ')'

theorem ne_of_isOrdinary {c : Char} (h : isOrdinary c) : c ≠ '"' ∧ c ≠ '\\' ∧ c ≠ ')' := by
  simpa [isOrdinary, and_assoc] using h

theorem isBody_of_notMem {cs : List Char} (hquote : '"' ∉ cs) (hslash : '\\' ∉ cs) : IsBody cs := by
  induction cs with
  | nil => exact .nil
  | cons c cs ih =>
    rw [List.mem_cons, not_or] at hquote hslash
    exact .plain (Ne.symm hquote.1) (Ne.symm hslash.1) (ih hquote.2 hslash.2)

theorem isBody_of_isOrdinary {cs : List Char} (h : ∀ c ∈ cs, isOrdinary c) : IsBody cs :=
  isBody_of_notMem (fun hmem => (ne_of_isOrdinary (h _ hmem)).1 rfl)
    fun hmem => (ne_of_isOrdinary (h _ hmem)).2.1 rfl

theorem literals_append {front : List Char} (h : '"' ∉ front) (rest : List Char) :
    literals (front ++ rest) = literals rest := by
  refine occurrences_append (fun c hc cs => ?_) rest
  rw [literal?]
  rintro ds hquote
  obtain ⟨rfl, -⟩ := List.cons.inj hquote
  exact h hc

theorem literals_quoted {inside : List Char} (h : IsBody inside) (rest : List Char) :
    literals ('"' :: (inside ++ '"' :: rest)) = inside :: literals rest :=
  occurrences_of_some consumes_literal? (h.body?_append rest)

structure Expression where
  first : List Char
  /-- Each literal with the text behind it. -/
  quoted : List (List Char × List Char)
  ordinary_first : ∀ c ∈ first, isOrdinary c
  ordinary_quoted : ∀ p ∈ quoted, (∀ c ∈ p.1, isOrdinary c) ∧ ∀ c ∈ p.2, isOrdinary c

namespace Expression

def quotedText (quoted : List (List Char × List Char)) : List Char :=
  quoted.flatMap fun p => '"' :: (p.1 ++ '"' :: p.2)

def text (e : Expression) : List Char := e.first ++ quotedText e.quoted

def literals (e : Expression) : List (List Char) := e.quoted.map Prod.fst

theorem quote_notMem_first (e : Expression) : '"' ∉ e.first :=
  fun hmem => (ne_of_isOrdinary (e.ordinary_first _ hmem)).1 rfl

theorem literals_quotedText {quoted : List (List Char × List Char)}
    (h : ∀ p ∈ quoted, IsBody p.1 ∧ '"' ∉ p.2) :
    Scan.literals (quotedText quoted) = quoted.map Prod.fst := by
  induction quoted with
  | nil => rfl
  | cons p quoted ih =>
    obtain ⟨hliteral, hquote⟩ := h p List.mem_cons_self
    have ih := ih fun q hq => h q (List.mem_cons_of_mem p hq)
    rw [quotedText, List.flatMap_cons, List.cons_append, List.append_assoc, List.cons_append,
      literals_quoted hliteral, literals_append hquote, ← quotedText, ih, List.map_cons]

theorem literals_text (e : Expression) : Scan.literals e.text = e.literals := by
  have hquoted : ∀ p ∈ e.quoted, IsBody p.1 ∧ '"' ∉ p.2 := fun p hp =>
    ⟨isBody_of_isOrdinary (e.ordinary_quoted p hp).1,
      fun hmem => (ne_of_isOrdinary ((e.ordinary_quoted p hp).2 _ hmem)).1 rfl⟩
  rw [text, literals_append e.quote_notMem_first, literals_quotedText hquoted, literals]

theorem parenthesis_notMem_text (e : Expression) : ')' ∉ e.text := by
  have hnone {cs : List Char} (h : ∀ c ∈ cs, isOrdinary c) : ')' ∉ cs :=
    fun hmem => (ne_of_isOrdinary (h _ hmem)).2.2 rfl
  rw [text, quotedText, List.mem_append, List.mem_flatMap]
  rintro (hmem | ⟨p, hp, hmem⟩)
  · exact hnone e.ordinary_first hmem
  · obtain ⟨hliteral, htext⟩ := e.ordinary_quoted p hp
    simp only [List.mem_cons, List.mem_append] at hmem
    rcases hmem with hquote | hmem | hquote | hmem
    · exact absurd hquote (by decide)
    · exact hnone hliteral hmem
    · exact absurd hquote (by decide)
    · exact hnone htext hmem

theorem text_ne_nil {e : Expression} (h : e.quoted ≠ []) : e.text ≠ [] := by
  obtain ⟨p, quoted, hquoted⟩ := List.exists_cons_of_ne_nil h
  simp [text, quotedText, hquoted]

end Expression

/-! ### Attributes that are opened in a text -/

def opensAttribute (cs : List Char) : Bool :=
  classAttributes.any fun assignment =>
    assignment.names.any fun name => (assignment.afterOpening? name cs).isSome

def opensWithin : List Char → Bool
  | [] => false
  | c :: cs => opensAttribute (c :: cs) || opensWithin cs

/-- Characters that no class attribute has before its value. -/
structure Separates (c : Char) : Prop where
  names : ∀ assignment ∈ classAttributes, ∀ name ∈ assignment.names, ∀ w ∈ name.toList,
    (if assignment.anyCase then foldCase else id) w ≠ (if assignment.anyCase then foldCase else id) c
  opening : ∀ assignment ∈ classAttributes, c ∉ assignment.opening.toList
  isBlank : isBlank c = false
  equals : c ≠ '='

theorem separates_parenthesis {c : Char} (h : c = '(' ∨ c = ')') : Separates c := by
  have hall : ∀ assignment ∈ classAttributes, ∀ name ∈ assignment.names, name.toList.all fun w =>
      (if assignment.anyCase then foldCase else id) w ≠ (if assignment.anyCase then foldCase else id) c := by
    rcases h with rfl | rfl <;> decide +kernel
  refine {
    names := fun assignment hmem name hname w hw => ?_
    opening := ?_
    isBlank := ?_
    equals := ?_ }
  · exact of_decide_eq_true (List.all_eq_true.1 (hall assignment hmem name hname) w hw)
  all_goals rcases h with rfl | rfl <;> decide

section Separated

variable {c : Char} {rest : List Char}

theorem afterWord?_append {fold : Char → Char} {word : List Char} (h : ∀ w ∈ word, fold w ≠ fold c)
    (cs : List Char) :
    afterWord? fold word (cs ++ c :: rest) = (afterWord? fold word cs).map (· ++ c :: rest) := by
  induction word generalizing cs with
  | nil => rfl
  | cons w word ih =>
    cases cs with
    | nil => simp [afterWord?, h w List.mem_cons_self]
    | cons d cs =>
      rw [List.cons_append, afterWord?, afterWord?]
      split
      · exact ih (fun v hv => h v (List.mem_cons_of_mem w hv)) cs
      · rfl

theorem dropWhile_isBlank_append (h : isBlank c = false) (cs : List Char) :
    (cs ++ c :: rest).dropWhile isBlank = cs.dropWhile isBlank ++ c :: rest := by
  induction cs with
  | nil => simp [h]
  | cons d cs ih =>
    rw [List.cons_append, List.dropWhile_cons, List.dropWhile_cons]
    split
    · exact ih
    · rfl

theorem isPrefixOf?_append {opening : List Char} (h : c ∉ opening) (cs : List Char) :
    opening.isPrefixOf? (cs ++ c :: rest) = (opening.isPrefixOf? cs).map (· ++ c :: rest) := by
  induction opening generalizing cs with
  | nil => rfl
  | cons w opening ih =>
    obtain ⟨hw, hopening⟩ := not_or.1 (mt List.mem_cons.2 h)
    cases cs with
    | nil => simp [List.isPrefixOf?, Ne.symm hw]
    | cons d cs =>
      rw [List.cons_append, List.isPrefixOf?, List.isPrefixOf?]
      split
      · exact ih hopening cs
      · rfl

theorem opensAttribute_append (h : Separates c) (cs : List Char) :
    opensAttribute (cs ++ c :: rest) = opensAttribute cs := by
  rw [opensAttribute, opensAttribute, Bool.eq_iff_iff]
  simp only [List.any_eq_true]
  refine exists_congr fun assignment => and_congr_right fun hassignment =>
    exists_congr fun name => and_congr_right fun hname => ?_
  have hafter : assignment.afterOpening? name (cs ++ c :: rest) =
      (assignment.afterOpening? name cs).map (· ++ c :: rest) := by
    simp only [Assignment.afterOpening?, Option.bind_eq_bind]
    rw [afterWord?_append (h.names assignment hassignment name hname), Option.map_bind, Option.bind_map]
    congr 1
    funext after
    simp only [Function.comp_apply]
    rw [dropWhile_isBlank_append h.isBlank]
    cases after.dropWhile isBlank with
    | nil => simp [h.equals]
    | cons d ds =>
      by_cases hd : d = '='
      · subst hd
        simp only [List.cons_append]
        rw [dropWhile_isBlank_append h.isBlank, isPrefixOf?_append (h.opening assignment hassignment)]
      · simp [hd]
  rw [hafter, Option.isSome_map]

theorem opensWithin_append (h : Separates c) (cs : List Char) :
    opensWithin (cs ++ c :: rest) = (opensWithin cs || opensWithin (c :: rest)) := by
  induction cs with
  | nil => rfl
  | cons d cs ih =>
    rw [List.cons_append, opensWithin, opensWithin, ih, ← List.cons_append, opensAttribute_append h,
      Bool.or_assoc]

theorem opensWithin_separates (h : Separates c) : opensWithin (c :: rest) = opensWithin rest := by
  have hnone : opensAttribute [] = false := rfl
  rw [opensWithin, ← List.nil_append (c :: rest), opensAttribute_append h, hnone, Bool.false_or]

end Separated

theorem opensWithin_of_notMem {cs : List Char} (h : '"' ∉ cs) : opensWithin cs = false := by
  have hquote : ∀ assignment ∈ classAttributes, '"' ∈ assignment.opening.toList := by decide
  induction cs with
  | nil => rfl
  | cons c cs ih =>
    rw [opensWithin, ih fun hmem => h (List.mem_cons_of_mem c hmem), Bool.or_false, opensAttribute,
      List.any_eq_false]
    intro assignment hassignment
    rw [Bool.not_eq_true, List.any_eq_false]
    intro name _
    rw [Bool.not_eq_true, Option.isSome_eq_false_iff, Option.isNone_iff_eq_none]
    by_contra hopening
    obtain ⟨after, hafter⟩ := Option.ne_none_iff_exists'.1 hopening
    have hsuffix := (Assignment.suffix_of_afterOpening? hafter).2
    exact h (hsuffix.mem (List.mem_append_left after (hquote assignment hassignment)))

theorem opensWithin_of_append {front rest : List Char} (h : opensWithin (front ++ rest) = false) :
    opensWithin rest = false := by
  induction front with
  | nil => exact h
  | cons c front ih =>
    rw [List.cons_append, opensWithin, Bool.or_eq_false_iff] at h
    exact ih h.2

theorem read?_of_not_opens {assignment : Assignment} (hassignment : assignment ∈ classAttributes)
    {value? : Reader (List Char)} {cs : List Char} (h : opensAttribute cs = false) :
    assignment.read? value? cs = none := by
  rw [Assignment.read?, List.findSome?_eq_none_iff]
  intro name hname
  cases hopening : assignment.afterOpening? name cs with
  | none => rfl
  | some after =>
    have hopens : opensAttribute cs = true :=
      List.any_eq_true.2 ⟨assignment, hassignment, List.any_eq_true.2 ⟨name, hname, by rw [hopening]; rfl⟩⟩
    rw [hopens] at h
    cases h

theorem occurrencesFrom_read?_of_not_opens {read : Reader (List Char)}
    (hread : ∀ cs, opensAttribute cs = false → read cs = none) (length : Nat) {cs : List Char}
    (h : opensWithin cs = false) : occurrencesFrom read length cs = [] := by
  induction length generalizing cs with
  | zero => rw [occurrencesFrom]
  | succ length ih =>
    cases cs with
    | nil =>
      rw [occurrencesFrom]
      exact Nat.succ_ne_zero length
    | cons c cs =>
      rw [opensWithin, Bool.or_eq_false_iff] at h
      rw [occurrencesFrom, hread _ h.1]
      exact ih h.2

theorem read?_expression_of_not_opens {cs : List Char} (h : opensAttribute cs = false) :
    expressionAttribute.read? expression? cs = none := by
  have hnames : expressionAttribute.names = ["class"] := rfl
  cases hopening : expressionAttribute.afterOpening? "class" cs with
  | none => simp [Assignment.read?, hnames, hopening]
  | some after =>
    have hclass : (({ names := ["class", "Class"] } : Assignment).afterOpening? "class" cs).isSome := by
      simp only [Assignment.afterOpening?, Option.bind_eq_bind, Option.bind_eq_some_iff] at hopening ⊢
      obtain ⟨rest, hrest, hopening⟩ := hopening
      have hrest' : afterWord? id "class".toList cs = some rest := hrest
      simp only [Bool.false_eq_true, if_false, hrest', Option.bind_some]
      split at hopening
      · have happend := List.isPrefixOf?_eq_some_iff_append_eq.1 hopening
        rw [← happend]
        rfl
      · cases hopening
    have hopens : opensAttribute cs = true := by
      simp [opensAttribute, classAttributes, hclass]
    rw [hopens] at h
    cases h

namespace Expression

def value (e : Expression) (names : List Char) : List Char :=
  (if names = [] then [] else names ++ [' ']) ++ '@' :: '(' :: (e.text ++ [')'])

/-- What stands before the first quote in such a value. -/
def visible (e : Expression) (names : List Char) : List Char := names ++ ' ' :: '@' :: '(' :: e.first

variable {e : Expression}

theorem expressions_value (h : e.quoted ≠ []) : expressions (classAttribute (e.value [])) = [e.text] := by
  have hcut : firstCut? ')' (e.text ++ ')' :: ['"']) = some (e.text, ['"']) :=
    firstCut?_append_cons e.parenthesis_notMem_text ['"']
  have hinside : expression? (e.text ++ ')' :: ['"']) = some (e.text, []) := by
    rw [expression?, hcut]
    simp [text_ne_nil h]
  have hread : expressionAttribute.read? expression? (classAttribute (e.value [])) =
      some (e.text, []) := by
    have hopening : expressionAttribute.afterOpening? "class" (classAttribute (e.value [])) =
        some (e.text ++ [')'] ++ ['"']) := rfl
    have hnames : expressionAttribute.names = ["class"] := rfl
    rw [Assignment.read?, hnames, List.findSome?_cons, hopening, List.append_assoc]
    simp only [List.singleton_append, Option.bind_eq_bind, Option.bind_some, hinside]
  rw [expressions, occurrences, classAttribute, List.length_cons, occurrencesFrom, ← classAttribute, hread]
  simp [occurrencesFrom]

section Named

variable {names : List Char} (hne : names ≠ []) (hquote : '"' ∉ names)
  (hopens : opensWithin e.text = false)

include hne

theorem value_eq : e.value names = (names ++ [' ', '@']) ++ '(' :: (e.text ++ [')']) := by
  simp [value, hne]

theorem exists_value (h : e.quoted ≠ []) :
    ∃ rest, e.value names ++ ['"'] = e.visible names ++ '"' :: rest := by
  obtain ⟨p, quoted, hquoted⟩ := List.exists_cons_of_ne_nil h
  exact ⟨p.1 ++ '"' :: p.2 ++ quotedText quoted ++ [')', '"'], by
    simp [value_eq hne, visible, text, quotedText, hquoted]⟩

theorem expressions_value_of_ne (hat : '@' ∉ names)
    (hrest : opensWithin (classAttribute (e.value names)).tail = false) :
    expressions (classAttribute (e.value names)) = [] := by
  obtain ⟨c, cs, rfl⟩ := List.exists_cons_of_ne_nil hne
  have hc : c ≠ '@' := fun h => hat (h ▸ List.mem_cons_self)
  have hread : expressionAttribute.read? expression? (classAttribute (e.value (c :: cs))) = none := by
    rw [value_eq hne]
    exact read?_expression_classAttribute hc _
  rw [expressions, occurrences, classAttribute, List.length_cons, occurrencesFrom, ← classAttribute, hread]
  exact occurrencesFrom_read?_of_not_opens (fun _ => read?_expression_of_not_opens) _ hrest

include hquote hopens

theorem opensWithin_tail : opensWithin (classAttribute (e.value names)).tail = false := by
  have hnames : opensWithin (names ++ [' ', '@']) = false :=
    opensWithin_of_notMem (by simpa using hquote)
  have hbehind : opensWithin (e.value names ++ ['"']) = false := by
    have heq : e.value names ++ ['"'] = (names ++ [' ', '@']) ++ '(' :: (e.text ++ ')' :: ['"']) := by
      simp [value_eq hne]
    rw [heq, opensWithin_append (separates_parenthesis (Or.inl rfl)), hnames, Bool.false_or,
      opensWithin_separates (separates_parenthesis (Or.inl rfl)),
      opensWithin_append (separates_parenthesis (Or.inr rfl)), hopens, Bool.false_or,
      opensWithin_separates (separates_parenthesis (Or.inr rfl))]
    rfl
  exact hbehind

theorem values_class_value (h : e.quoted ≠ []) :
    ({ names := ["class", "Class"] } : Assignment).values (classAttribute (e.value names)) =
      [e.visible names] := by
  obtain ⟨rest, hrest⟩ := exists_value hne h
  have hvisible : '"' ∉ e.visible names := by
    simpa [visible] using ⟨hquote, e.quote_notMem_first⟩
  have hread : ({ names := ["class", "Class"] } : Assignment).read? (firstCut? '"')
      (classAttribute (e.value names)) = some (e.visible names, rest) := by
    have hopening : ({ names := ["class", "Class"] } : Assignment).afterOpening? "class"
        (classAttribute (e.value names)) = some (e.value names ++ ['"']) := rfl
    simp only [Assignment.read?, List.findSome?_cons, hopening, Option.bind_eq_bind,
      Option.bind_some, hrest, firstCut?_append_cons hvisible]
  have hbehind : opensWithin rest = false := by
    have htail := opensWithin_tail hne hquote hopens
    have heq : (classAttribute (e.value names)).tail =
        ('l' :: 'a' :: 's' :: 's' :: '=' :: '"' :: e.visible names ++ ['"']) ++ rest := by
      simp [classAttribute, hrest]
    rw [heq] at htail
    exact opensWithin_of_append htail
  rw [Assignment.values, occurrences, classAttribute, List.length_cons, occurrencesFrom, ← classAttribute,
    hread]
  simp only
  rw [occurrencesFrom_read?_of_not_opens (fun _ => read?_of_not_opens (by simp [classAttributes])) _
    hbehind]

theorem values_value {assignment : Assignment} (hmem : assignment ∈ classAttributes.tail) :
    assignment.values (classAttribute (e.value names)) = [] := by
  have hread : assignment.read? (firstCut? '"') (classAttribute (e.value names)) = none := by
    simp only [classAttributes, List.tail_cons, List.mem_cons, List.not_mem_nil, or_false] at hmem
    rcases hmem with rfl | rfl | rfl | rfl <;> rfl
  rw [Assignment.values, occurrences, classAttribute, List.length_cons, occurrencesFrom, ← classAttribute,
    hread]
  exact occurrencesFrom_read?_of_not_opens
    (fun _ => read?_of_not_opens (List.mem_of_mem_tail hmem)) _ (opensWithin_tail hne hquote hopens)

end Named

end Expression

end UtilityCss.Scan

namespace UtilityCss.Scanner
open Text Scan

variable (scanner : Scanner) (e : Expression)

theorem fromValue_visible {names : List Char} (h : '"' ∉ names) :
    scanner.fromValue (e.visible names) = scanner.extract (e.visible names) := by
  have hquote : '"' ∉ e.visible names := by
    simpa [Expression.visible] using ⟨h, e.quote_notMem_first⟩
  have hnone : literals (e.visible names) = [] := by
    rw [← List.append_nil (e.visible names), literals_append hquote]
    rfl
  rw [fromValue, fromExpression, hnone]
  simp

theorem toList_attribute (value : List Char) :
    ("class=\"" ++ String.ofList value ++ "\"").toList = classAttribute value := by
  simp [classAttribute]

/-- The literals of an expression that is the whole value of a class attribute are searched. When class names
stand before it, only the text up to the first quote is, unless a class attribute is opened inside. -/
theorem scan_expression :
    (∀ literal ∈ e.literals, ∀ name ∈ scanner.extract literal,
      name ∈ scanner.scan ("class=\"" ++ String.ofList (e.value []) ++ "\"") .markup) ∧
    ∀ names : List Char, names ≠ [] → '"' ∉ names → '@' ∉ names → e.literals ≠ [] →
      opensWithin e.text = false →
        scanner.scan ("class=\"" ++ String.ofList (e.value names) ++ "\"") .markup =
          orderedSet (scanner.extract (e.visible names)) := by
  constructor
  · intro literal hliteral name hname
    have hquoted : e.quoted ≠ [] := by
      rintro hnil
      rw [Expression.literals, hnil] at hliteral
      cases hliteral
    rw [scan, found, toList_attribute, mem_orderedSet, fromMarkup, Expression.expressions_value hquoted,
      List.mem_append, List.flatMap_singleton, fromExpression, e.literals_text]
    exact Or.inr (List.mem_flatMap.2 ⟨literal, hliteral, hname⟩)
  · intro names hne hquote hat hliterals hopens
    have hquoted : e.quoted ≠ [] := fun hnil => hliterals (by rw [Expression.literals, hnil]; rfl)
    have hothers : (classAttributes.tail.flatMap fun assignment =>
        (assignment.values (classAttribute (e.value names))).flatMap scanner.fromValue) = [] := by
      rw [List.flatMap_eq_nil_iff]
      intro assignment hmem
      rw [Expression.values_value hne hquote hopens hmem]
      rfl
    have hattributes : classAttributes = { names := ["class", "Class"] } :: classAttributes.tail := rfl
    have hnone := Expression.expressions_value_of_ne hne hat
      (Expression.opensWithin_tail hne hquote hopens)
    rw [scan, found, toList_attribute, fromMarkup, hnone, hattributes, List.flatMap_cons, hothers,
      Expression.values_class_value hne hquote hopens hquoted]
    simp [fromValue_visible scanner e hquote]

theorem scan_expression_choice :
    "vibe-flex" ∈ ({} : Scanner).scan "class=\"@(on ? \"vibe-flex\" : \"\")\"" .markup ∧
      ({} : Scanner).scan "class=\"vibe-p-2 @(on ? \"vibe-flex\" : \"\")\"" .markup = ["vibe-p-2"] := by
  let e : Expression := {
    first := "on ? ".toList
    quoted := [("vibe-flex".toList, " : ".toList), ([], [])]
    ordinary_first := List.all_eq_true.1 (by decide)
    ordinary_quoted := List.forall_mem_cons.2 ⟨
      ⟨List.all_eq_true.1 (by decide), List.all_eq_true.1 (by decide)⟩,
      List.forall_mem_singleton.2 ⟨List.forall_mem_nil _, List.forall_mem_nil _⟩⟩ }
  obtain ⟨halone, hnamed⟩ := scan_expression {} e
  constructor
  · exact halone "vibe-flex".toList (by decide) "vibe-flex" (by decide +kernel)
  · have hscan := hnamed "vibe-p-2".toList (by decide) (by decide) (by decide) (by decide)
      (by decide +kernel)
    have hextract : orderedSet (({} : Scanner).extract (e.visible "vibe-p-2".toList)) = ["vibe-p-2"] := by
      decide +kernel
    rw [hextract] at hscan
    exact hscan

/-- A literal behind a class name, with a name that would be kept. -/
theorem literal_not_found :
    "vibe-flex" ∈ ({} : Scanner).extract "vibe-flex".toList ∧
      ({} : Scanner).scan "class=\"foo @(on ? \"vibe-flex\" : \"\")\"" .markup = [] :=
  ⟨by decide +kernel, by decide +kernel⟩

end UtilityCss.Scanner
