import UtilityCss.Proofs.CodeLiterals
import UtilityCss.Proofs.Discovery

/-!
# Literals that open with a utility

A literal is taken for a class list if it looks prefixed, as if it were a single token: the marker is looked for at
its very beginning and behind its last colon. So a literal whose first word is a prefixed utility is passed over
when white space stands before the word, or variants do, unless the last of its words with a colon is a prefixed
utility as well.
-/

namespace UtilityCss

namespace Text

variable {separates : Char → Bool} {b c sep : Char} {cs word rest before after : List Char}

theorem pieces_append_cons (hb : separates b = true) (before after : List Char) :
    pieces separates (before ++ b :: after) = pieces separates before ++ pieces separates after := by
  induction before with
  | nil => simp [pieces, hb]
  | cons c before ih =>
    rw [List.cons_append, pieces, pieces, ih]
    split
    · rfl
    · obtain ⟨piece, others, hpieces⟩ := List.exists_cons_of_ne_nil (pieces_ne_nil separates before)
      rw [hpieces]
      rfl

theorem words_append_cons (hb : isBlank b = true) (before after : List Char) :
    words (before ++ b :: after) = words before ++ words after := by
  rw [words, pieces_append_cons hb, List.filter_append, ← words, ← words]

def StartsBlank (cs : List Char) : Prop := ∀ c ∈ cs.head?, isBlank c = true

theorem words_append (hvisible : ∀ c ∈ word, isBlank c = false) (hne : word ≠ []) (hrest : StartsBlank rest) :
    words (word ++ rest) = word :: words rest := by
  cases rest with
  | nil => rw [List.append_nil, words_of_none hne hvisible]; rfl
  | cons b rest =>
    have hb : isBlank b = true := hrest b rfl
    rw [words_append_cons hb, words_of_none hne hvisible, words_cons_of_isBlank hb, List.singleton_append]

theorem exists_visible_append (cs : List Char) :
    ∃ word rest, cs = word ++ rest ∧ (∀ c ∈ word, isBlank c = false) ∧ StartsBlank rest := by
  induction cs with
  | nil => exact ⟨[], [], rfl, List.forall_mem_nil _, nofun⟩
  | cons c cs ih =>
    cases hc : isBlank c with
    | true =>
      refine ⟨[], c :: cs, rfl, List.forall_mem_nil _, fun d hd => ?_⟩
      rwa [← Option.some.inj hd]
    | false =>
      obtain ⟨word, rest, rfl, hvisible, hrest⟩ := ih
      exact ⟨c :: word, rest, rfl, List.forall_mem_cons.2 ⟨hc, hvisible⟩, hrest⟩

theorem exists_words_cons (hc : isBlank c = false) (cs : List Char) :
    ∃ back rest, cs = back ++ rest ∧ StartsBlank rest ∧ words (c :: cs) = (c :: back) :: words rest := by
  obtain ⟨back, rest, rfl, hback, hrest⟩ := exists_visible_append cs
  exact ⟨back, rest, rfl, hrest,
    words_append (List.forall_mem_cons.2 ⟨hc, hback⟩) (List.cons_ne_nil c back) hrest⟩

theorem exists_append_visible (cs : List Char) :
    ∃ lead word, cs = lead ++ word ∧ (∀ c ∈ word, isBlank c = false) ∧
      ∀ rest, words (lead ++ rest) = words lead ++ words rest := by
  obtain ⟨word, lead, hcs, hvisible, hlead⟩ := exists_visible_append cs.reverse
  refine ⟨lead.reverse, word.reverse, ?_, fun c hc => hvisible c (List.mem_reverse.1 hc), fun rest => ?_⟩
  · rw [← List.reverse_append, ← hcs, List.reverse_reverse]
  · cases lead with
    | nil => rfl
    | cons b lead =>
      have hb : isBlank b = true := hlead b rfl
      have hnone : words [] = [] := rfl
      rw [List.reverse_cons, List.append_assoc, List.singleton_append, words_append_cons hb,
        words_append_cons hb, hnone, List.append_nil]

theorem exists_words_append_cons (hc : isBlank c = false) (before after : List Char) :
    ∃ lead front back rest, before = lead ++ front ∧ after = back ++ rest ∧ StartsBlank rest ∧
      (∀ d ∈ front ++ c :: back, isBlank d = false) ∧
      words (before ++ c :: after) = words lead ++ (front ++ c :: back) :: words rest := by
  obtain ⟨lead, front, rfl, hfront, hlead⟩ := exists_append_visible before
  obtain ⟨back, rest, rfl, hback, hrest⟩ := exists_visible_append after
  have hvisible : ∀ d ∈ front ++ c :: back, isBlank d = false := by
    simpa [or_imp, forall_and, hc] using ⟨hfront, hback⟩
  refine ⟨lead, front, back, rest, rfl, rfl, hrest, hvisible, ?_⟩
  have hword : front ++ c :: (back ++ rest) = (front ++ c :: back) ++ rest := by simp
  rw [List.append_assoc, hlead, hword, words_append hvisible (by simp) hrest]

theorem mem_of_mem_words (h : word ∈ words cs) (hc : c ∈ word) : c ∈ cs :=
  (mem_of_mem_pieces (List.mem_of_mem_filter h) hc).1

def behindLast? (sep : Char) (words : List (List Char)) : Option (List Char) :=
  (words.filter (·.contains sep)).getLast?.bind fun word => (lastCut? sep word).map Prod.snd

theorem behindLast?_of_notMem (h : sep ∉ cs) : behindLast? sep (words cs) = none := by
  have hnone : (words cs).filter (·.contains sep) = [] := by
    refine List.filter_eq_nil_iff.2 fun word hword hsep => h ?_
    exact mem_of_mem_words hword (List.contains_iff_mem.1 hsep)
  rw [behindLast?, hnone]
  rfl

theorem exists_behindLast? (hsep : isBlank sep = false) (h : lastCut? sep cs = some (before, after)) :
    ∃ back rest, behindLast? sep (words cs) = some back ∧ after = back ++ rest ∧ StartsBlank rest := by
  obtain ⟨rfl, hafter⟩ := eq_of_lastCut? h
  obtain ⟨lead, front, back, rest, rfl, rfl, hrest, -, hwords⟩ := exists_words_append_cons hsep before after
  rw [List.mem_append, not_or] at hafter
  have hlater : (words rest).filter (·.contains sep) = [] := by
    refine List.filter_eq_nil_iff.2 fun word hword hmem => hafter.2 ?_
    exact mem_of_mem_words hword (List.contains_iff_mem.1 hmem)
  refine ⟨back, rest, ?_, rfl, hrest⟩
  rw [behindLast?, hwords, List.filter_append, List.filter_cons_of_pos (by simp), hlater,
    List.getLast?_concat, Option.bind_some, lastCut?_cons_append front hafter.1]
  rfl

end Text

namespace Scan
open Text

variable {naming : Naming} {body first : List Char}

theorem looksPrefixed_ofList (hpre : naming.classPrefix ≠ "") (cs : List Char) :
    looksPrefixed naming (String.ofList cs) = true ↔ allBlank cs = false ∧
      (startsMarked naming cs = true ∨ ∃ before after, lastCut? ':' cs = some (before, after) ∧
        before ≠ [] ∧ startsMarked naming after = true) := by
  have hempty : naming.classPrefix.isEmpty = false := by simpa using hpre
  rw [looksPrefixed, String.toList_ofList, hempty]
  cases allBlank cs with
  | true => simp
  | false =>
    cases startsMarked naming cs with
    | true => simp
    | false =>
      cases lastCut? ':' cs with
      | none => simp
      | some p =>
        obtain ⟨before, after⟩ := p
        simp

/-- A prefix whose marker has neither white space nor a colon, so that it is found within a word. -/
structure Plain (naming : Naming) : Prop where
  visible : ∀ c ∈ naming.marker.toList, isBlank c = false
  colon : ':' ∉ naming.marker.toList
  nonempty : naming.classPrefix ≠ ""

theorem plain_of_isPrefixChar (hpre : naming.classPrefix ≠ "")
    (hchars : ∀ c ∈ naming.classPrefix.toList, isPrefixChar c) : Plain naming := by
  have hmarker : ∀ c ∈ naming.marker.toList, isPrefixChar c := by
    intro c hc
    rw [Naming.marker, String.toList_append, List.mem_append] at hc
    rcases hc with hc | hc
    · exact hchars c hc
    · obtain rfl : c = '-' := by simpa using hc
      decide
  refine ⟨fun c hc => isBlank_of_isNameChar ?_, fun hmem => absurd (hmarker ':' hmem) (by decide), hpre⟩
  have hc := hmarker c hc
  simp only [isPrefixChar, Bool.or_eq_true, beq_iff_eq] at hc
  rcases hc with (hc | rfl) | rfl
  · rw [isNameChar, hc, Bool.true_or]
  · decide
  · decide

namespace Plain

variable (h : Plain naming)

include h

theorem startsMarked_append {cs rest : List Char} (hrest : StartsBlank rest) :
    startsMarked naming (cs ++ rest) = startsMarked naming cs := by
  cases rest with
  | nil => rw [List.append_nil]
  | cons b rest =>
    have hb : isBlank b = true := hrest b rfl
    rw [Bool.eq_iff_iff]
    refine startsMarked_append_cons (fun hmem => ?_) ?_
    · rw [h.visible b hmem] at hb
      cases hb
    · rintro rfl
      exact absurd hb (by decide)

theorem exists_cons_of_startsMarked {cs : List Char} (hmarked : startsMarked naming cs = true) :
    ∃ c rest, cs = c :: rest ∧ isBlank c = false ∧ c ≠ ':' := by
  have hfirst {marker rest : List Char} (hne : marker ≠ []) (hmarker : ∀ c ∈ marker, isBlank c = false ∧ c ≠ ':')
      (heq : marker ++ rest = cs) : ∃ c rest, cs = c :: rest ∧ isBlank c = false ∧ c ≠ ':' := by
    obtain ⟨c, marker, rfl⟩ := List.exists_cons_of_ne_nil hne
    obtain ⟨hc, hcolon⟩ := hmarker c List.mem_cons_self
    exact ⟨c, marker ++ rest, heq.symm, hc, hcolon⟩
  have hmarker : ∀ c ∈ naming.marker.toList, isBlank c = false ∧ c ≠ ':' := fun c hc =>
    ⟨h.visible c hc, fun heq => h.colon (heq ▸ hc)⟩
  rcases startsMarked_iff.1 hmarked with ⟨rest, heq⟩ | ⟨rest, heq⟩
  · exact hfirst (by simp [Naming.marker]) hmarker heq
  · exact hfirst (List.cons_ne_nil _ _) (List.forall_mem_cons.2 ⟨by decide, hmarker⟩) heq

theorem startsMarked_iff_first (hfirst : (words body).head? = some first) :
    startsMarked naming body = true ↔ first <+: body ∧ startsMarked naming first = true := by
  constructor
  · intro hmarked
    obtain ⟨c, rest, rfl, hc, -⟩ := h.exists_cons_of_startsMarked hmarked
    obtain ⟨back, rest, rfl, hrest, hwords⟩ := exists_words_cons hc rest
    rw [hwords] at hfirst
    obtain rfl := Option.some.inj hfirst
    refine ⟨List.prefix_append (c :: back) rest, ?_⟩
    rwa [← List.cons_append, h.startsMarked_append hrest] at hmarked
  · rintro ⟨hbegins, hmarked⟩
    rw [startsMarked_iff] at hmarked ⊢
    exact hmarked.imp (·.trans hbegins) (·.trans hbegins)

theorem looksPrefixed_iff_first (hfirst : (words body).head? = some first)
    (hlooks : looksPrefixed naming (String.ofList first) = true) :
    looksPrefixed naming (String.ofList body) = true ↔
      (first <+: body ∧ startsMarked naming first = true) ∨
      ∃ back, behindLast? ':' (words body) = some back ∧ startsMarked naming back = true := by
  have hblank : allBlank body = false := by
    rw [← Bool.not_eq_true]
    intro hblank
    rw [words_of_allBlank hblank] at hfirst
    cases hfirst
  rw [looksPrefixed_ofList h.nonempty, h.startsMarked_iff_first hfirst, and_iff_right hblank]
  have hvisible : isBlank ':' = false := by decide
  refine or_congr_right ⟨?_, ?_⟩
  · rintro ⟨before, after, hcut, -, hmarked⟩
    obtain ⟨back, rest, hback, rfl, hrest⟩ := exists_behindLast? hvisible hcut
    exact ⟨back, hback, by rwa [h.startsMarked_append hrest] at hmarked⟩
  · rintro ⟨back, hback, hmarked⟩
    cases hcut : lastCut? ':' body with
    | none =>
      rw [behindLast?_of_notMem (lastCut?_eq_none hcut)] at hback
      cases hback
    | some p =>
      obtain ⟨before, after⟩ := p
      obtain ⟨other, rest, hother, rfl, hrest⟩ := exists_behindLast? hvisible hcut
      obtain rfl := Option.some.inj (hback.symm.trans hother)
      refine ⟨before, _, rfl, ?_, by rwa [h.startsMarked_append hrest]⟩
      rintro rfl
      -- The only colon would be the first character of the first word, which would then not look prefixed.
      obtain ⟨rfl, hcolon⟩ := eq_of_lastCut? hcut
      obtain ⟨front, later, hlater, -, hwords⟩ := exists_words_cons hvisible (back ++ rest)
      rw [List.nil_append, hwords] at hfirst
      obtain rfl := Option.some.inj hfirst
      have hcut := lastCut?_cons_append [] fun hmem => hcolon (hlater ▸ List.mem_append_left later hmem)
      rcases ((looksPrefixed_ofList h.nonempty _).1 hlooks).2 with hmarked | ⟨before, after, hother, hne, -⟩
      · obtain ⟨c, _, heq, -, hc⟩ := h.exists_cons_of_startsMarked hmarked
        exact hc (List.cons.inj heq).1.symm
      · exact hne (Prod.mk.inj (Option.some.inj (hother.symm.trans hcut))).1

end Plain

end Scan

namespace Scanner
open Text Scan

variable {scanner : Scanner} {body : List Char}

theorem values_classProperty_quoted (h : '"' ∉ body) :
    classProperty.values ('"' :: (body ++ ['"'])) = [] := by
  refine occurrencesFrom_eq_nil _ fun rest hrest => ?_
  rw [Assignment.read?, List.findSome?_eq_none_iff]
  intro name hname
  rcases List.suffix_cons_iff.1 hrest with rfl | hrest
  · simp only [classProperty, List.mem_cons, List.not_mem_nil, or_false] at hname
    rcases hname with rfl | rfl | rfl | rfl <;> rfl
  · cases hopening : classProperty.afterOpening? name rest with
    | none => rfl
    | some after =>
      -- The only quote that can open a value is the last character of the text.
      obtain ⟨front, hfront⟩ := (Assignment.suffix_of_afterOpening? hopening).2.trans hrest
      have hnone : '"' ∉ after := by
        have hcount : front.count '"' + (after.count '"' + 1) = 1 := by
          simpa [classProperty, List.count_eq_zero.2 h] using congrArg (List.count '"') hfront
        exact List.count_eq_zero.1 (by omega)
      cases hcut : firstCut? '"' after with
      | none => simp [hcut]
      | some p =>
        obtain ⟨rfl, -⟩ := eq_of_firstCut? hcut
        simp at hnone

def quotedCode (body : List Char) (hquote : '"' ∉ body) (hslash : '\\' ∉ body) : Scan.Code where
  first := []
  quoted := [(body, [])]
  quote_notMem_first := List.not_mem_nil
  isBody_quoted := List.forall_mem_singleton.2 ⟨isBody_of_notMem hquote hslash, List.not_mem_nil⟩

/-- A literal that opens with a prefixed utility is searched, wherever it stands in a code, when it begins with the
marker or has the marker behind the colons of the last word with a colon. Otherwise nothing in it is found. -/
theorem scan_opening_utility (hstrict : scanner.naming.permissive = false)
    (hpre : scanner.naming.classPrefix ≠ "") (hchars : ∀ c ∈ scanner.naming.classPrefix.toList, isPrefixChar c)
    (hquote : '"' ∉ body) (hslash : '\\' ∉ body) {first : List Char} (hfirst : (words body).head? = some first)
    (hlooks : looksPrefixed scanner.naming (String.ofList first) = true) :
    let searched := (first <+: body ∧ startsMarked scanner.naming first = true) ∨
      ∃ back, behindLast? ':' (words body) = some back ∧ startsMarked scanner.naming back = true
    (scanner.looksLikeClasses body = true ↔ searched) ∧
    (searched → ∀ code : Scan.Code, body ∈ code.bodies → ∀ name ∈ scanner.extract body,
      name ∈ scanner.scan (String.ofList code.text) .code) ∧
    (¬searched → scanner.scan ("\"" ++ String.ofList body ++ "\"") .code = []) := by
  intro searched
  have hsearched : scanner.looksLikeClasses body = true ↔ searched := by
    have hplain := plain_of_isPrefixChar hpre hchars
    refine Iff.trans ?_ (hplain.looksPrefixed_iff_first hfirst hlooks)
    rw [looksLikeClasses, hstrict, Bool.false_or, Bool.and_eq_true, Bool.not_eq_true']
    exact and_iff_right_of_imp fun hbody => ((looksPrefixed_ofList hpre body).1 hbody).1
  refine ⟨hsearched, fun h code hbody name hname => ?_, fun h => ?_⟩
  · exact (mem_scan_code scanner code name).2 (.inl ⟨body, hbody, hsearched.2 h, hname⟩)
  · have hcode : (quotedCode body hquote hslash).text = '"' :: (body ++ ['"']) := by
      simp [quotedCode, Code.text, Expression.quotedText]
    have htext : "\"" ++ String.ofList body ++ "\"" = String.ofList (quotedCode body hquote hslash).text := by
      simp [hcode, String.ext_iff]
    rw [htext, List.eq_nil_iff_forall_not_mem]
    intro name hname
    rcases (mem_scan_code scanner _ name).1 hname with ⟨other, hother, hlikes, -⟩ | ⟨value, hvalue, -⟩
    · obtain rfl := List.mem_singleton.1 hother
      exact h (hsearched.1 hlikes)
    · rw [hcode, values_classProperty_quoted hquote] at hvalue
      cases hvalue

theorem scan_opening_utility_variant :
    ({} : Scanner).looksLikeClasses " hover:vibe-flex card".toList = true ∧
      "hover:vibe-flex" ∈ ({} : Scanner).scan "var s = \" hover:vibe-flex card\";" .code := by
  let body := " hover:vibe-flex card".toList
  let code : Scan.Code := {
    first := "var s = ".toList
    quoted := [(body, ";".toList)]
    quote_notMem_first := by decide
    isBody_quoted := List.forall_mem_singleton.2 ⟨by decide +kernel, by decide⟩ }
  have hshown : behindLast? ':' (words body) = some "vibe-flex".toList := by decide +kernel
  have hmarked : startsMarked {} "vibe-flex".toList = true := by decide
  have hfirst : (words body).head? = some "hover:vibe-flex".toList := by decide +kernel
  obtain ⟨hlikes, hfound, -⟩ := @scan_opening_utility {} body rfl (by decide)
    (List.all_eq_true.1 (by decide +kernel)) (by decide) (by decide) _ hfirst (by decide +kernel)
  exact ⟨hlikes.2 (.inr ⟨_, hshown, hmarked⟩),
    hfound (.inr ⟨_, hshown, hmarked⟩) code (List.mem_singleton.2 rfl) "hover:vibe-flex" (by decide +kernel)⟩

/-- A class with a colon behind a utility with a variant, and white space before a utility. -/
theorem opening_utilities_not_found :
    (looksPrefixed {} "hover:vibe-flex" = true ∧
      (words "hover:vibe-flex md:card".toList).head? = some "hover:vibe-flex".toList ∧
      "hover:vibe-flex" ∈ ({} : Scanner).extract "hover:vibe-flex md:card".toList ∧
      ({} : Scanner).looksLikeClasses "hover:vibe-flex md:card".toList = false ∧
      ({} : Scanner).scan "var s = \"hover:vibe-flex md:card\";" .code = []) ∧
    (words " vibe-flex".toList).head? = some "vibe-flex".toList ∧
      "vibe-flex" ∈ ({} : Scanner).extract " vibe-flex".toList ∧
      ({} : Scanner).looksLikeClasses " vibe-flex".toList = false ∧
      ({} : Scanner).scan "var s = \" vibe-flex\";" .code = [] := by
  decide +kernel

end Scanner

end UtilityCss
