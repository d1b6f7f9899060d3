import UtilityCss.Compile
import UtilityCss.Proofs.ClassAttribute

/-!
# What the scanner finds of what compiles

The scanner looks for the marker of the project at the beginning of a class name and behind its last colon.
A utility has its marker behind the last colon outside brackets. The two places are the same unless a
bracketed value holds a colon and a variant stands before the marker; such a utility compiles and is not
found.
-/

namespace UtilityCss.Scan
open Text

def isPrefixChar (c : Char) : Bool := c.isAlphanum || c == '-' || c == '_'

theorem startsMarked_iff {naming : Naming} {cs : List Char} : startsMarked naming cs ↔
    naming.marker.toList <+: cs ∨ '-' :: naming.marker.toList <+: cs := by
  simp [startsMarked]

theorem isPrefix_append_cons_iff {a : Char} {part before after : List Char} (h : a ∉ part) :
    part <+: before ++ a :: after ↔ part <+: before := by
  constructor
  · intro hpart
    by_contra hbefore
    have hlong : before.length < part.length := by
      by_contra hle
      exact hbefore (List.prefix_of_prefix_length_le hpart (List.prefix_append _ _)
        (Nat.le_of_not_lt hle))
    have hwhole : before ++ [a] <+: before ++ a :: after := ⟨after, by simp⟩
    have hthrough : before ++ [a] <+: part := by
      refine List.prefix_of_prefix_length_le hwhole hpart ?_
      rw [List.length_append]
      exact hlong
    exact h (hthrough.subset (by simp))
  · exact fun hpart => hpart.trans (List.prefix_append _ _)

theorem startsMarked_append_cons {naming : Naming} {a : Char} (h : a ∉ naming.marker.toList) (hsign : a ≠ '-')
    {before after : List Char} :
    startsMarked naming (before ++ a :: after) ↔ startsMarked naming before := by
  have hsigned : a ∉ '-' :: naming.marker.toList := by simpa [hsign] using h
  rw [startsMarked_iff, startsMarked_iff, isPrefix_append_cons_iff h,
    isPrefix_append_cons_iff hsigned]

end UtilityCss.Scan

namespace UtilityCss.Token
open Text Scan

variable {naming : Naming} {text base : String} {token : Token}

theorem Parts.text_cases (h : Parts naming text token base) :
    (token.variants = [] ∧ text.toList = base.toList) ∨
      ∃ first others before after, token.variants = first :: others ∧
        text.toList = first.toList ++ ':' :: after ∧ text.toList = before ++ ':' :: base.toList ∧
          before ≠ [] := by
  have htext := h.toList_eq
  cases hvariants : token.variants with
  | nil =>
    rw [hvariants] at htext
    exact Or.inl ⟨rfl, by simpa [List.intercalate] using htext⟩
  | cons first others =>
    rw [hvariants] at htext
    have hfirst : first.toList ≠ [] := by
      have hname := h.variants first (by rw [hvariants]; exact List.mem_cons_self)
      intro hempty
      obtain rfl : first = "" := by simpa using hempty
      exact absurd hname (by decide)
    have hbase := intercalate_concat [':'] base.toList
      (List.cons_ne_nil first.toList (others.map String.toList))
    refine Or.inr ⟨first, others, [':'].intercalate (first.toList :: others.map String.toList),
      [':'].intercalate (others.map String.toList ++ [base.toList]), rfl, ?_, ?_, ?_⟩
    · obtain ⟨next, parts, hparts⟩ := List.exists_cons_of_ne_nil
        (List.append_ne_nil_of_right_ne_nil (others.map String.toList)
          (List.cons_ne_nil base.toList []))
      rw [htext, List.map_cons, List.cons_append, hparts, List.intercalate_cons_cons]
      simp
    · rw [htext, List.map_cons, hbase]
      simp
    · cases others with
      | nil => simpa [List.intercalate] using hfirst
      | cons next others =>
        rw [List.map_cons, List.intercalate_cons_cons]
        simp

theorem Parts.startsMarked_base (h : Parts naming text token base)
    (hstrict : naming.permissive = false) (hpre : naming.classPrefix ≠ "") :
    ∃ front, base.toList = front ++ token.name.toList ∧ startsMarked naming base.toList ∧
      ∀ c ∈ front, c = '-' ∨ c ∈ naming.marker.toList := by
  obtain ⟨front, hfront, hbase⟩ := exists_front h.name_eq
  have hplain : ¬(naming.classPrefix = "" ∨ naming.permissive) := by simp [hpre, hstrict]
  refine ⟨front, hbase, ?_, ?_⟩
  · rw [startsMarked_iff, hbase]
    generalize token.negative = negative at hfront
    cases hfront with
    | plain h => exact absurd h hplain
    | minus h => exact absurd h hplain
    | marked => exact Or.inl (List.prefix_append _ _)
    | markedMinus => exact Or.inl ⟨'-' :: token.name.toList, by simp⟩
    | minusMarked => exact Or.inr (List.prefix_append _ _)
  · intro c hc
    generalize token.negative = negative at hfront
    cases hfront with
    | plain h => exact absurd h hplain
    | minus h => exact absurd h hplain
    | marked => exact Or.inr hc
    | markedMinus => simpa [or_comm] using hc
    | minusMarked => simpa using hc

theorem Parts.allBlank_eq_false (h : Parts naming text token base)
    (hmarked : startsMarked naming base.toList) : allBlank text.toList = false := by
  have hmarker : '-' ∈ naming.marker.toList := by simp [Naming.marker]
  have hbase : '-' ∈ base.toList := by
    rcases startsMarked_iff.1 hmarked with hpart | hpart
    · exact hpart.subset hmarker
    · exact hpart.subset (List.mem_cons_of_mem _ hmarker)
  have htext : '-' ∈ text.toList := by
    rcases h.text_cases with ⟨-, htext⟩ | ⟨_, _, before, _, -, -, htext, -⟩
    · rwa [htext]
    · rw [htext]
      exact List.mem_append_right _ (List.mem_cons_of_mem _ hbase)
  rw [allBlank, List.all_eq_false]
  exact ⟨'-', htext, by decide⟩

/-- Where the scanner sees the marker of a token. -/
def ShowsMarker (naming : Naming) (token : Token) : Prop :=
  token.variants = [] ∨ ':' ∉ token.name.toList ∨
    (∃ first ∈ token.variants.head?, startsMarked naming first.toList) ∨
      ∃ before after, lastCut? ':' token.name.toList = some (before, after) ∧
        startsMarked naming after

theorem looksPrefixed_iff (h : Parts naming text token base) (hstrict : naming.permissive = false)
    (hpre : naming.classPrefix ≠ "") (hcolon : ':' ∉ naming.classPrefix.toList) :
    looksPrefixed naming text ↔ ShowsMarker naming token := by
  obtain ⟨front, hbase, hmarked, hfront⟩ := h.startsMarked_base hstrict hpre
  have hmarker : ':' ∉ naming.marker.toList := by simpa [Naming.marker] using hcolon
  have hfrontColon : ':' ∉ front := by
    intro hmem
    rcases hfront ':' hmem with hdash | hmem
    · exact absurd hdash (by decide)
    · exact hmarker hmem
  have hvisible := h.allBlank_eq_false hmarked
  have hempty : naming.classPrefix.isEmpty = false := by simpa using hpre
  rw [looksPrefixed, hvisible, hempty, ShowsMarker]
  rcases h.text_cases with
      ⟨hvariants, htext⟩ | ⟨first, others, before, after, hvariants, hfirst, hlast, hbefore⟩
  · simp [htext, hmarked, hvariants]
  · have hstart : startsMarked naming text.toList ↔ startsMarked naming first.toList := by
      rw [hfirst]
      exact startsMarked_append_cons hmarker (by decide)
    by_cases hname : ':' ∈ token.name.toList
    · obtain ⟨x, y, hcut⟩ := exists_lastCut? hname
      have htail : text.toList = (before ++ ':' :: front) ++ token.name.toList := by
        rw [hlast, hbase]
        simp
      have hcut' := lastCut?_append (before ++ ':' :: front) hcut
      rw [← htail] at hcut'
      simp [hstart, hcut', hcut, hname, hvariants]
    · have hbaseColon : ':' ∉ base.toList := by
        rw [hbase]
        simp [hfrontColon, hname]
      have hcut := lastCut?_cons_append before hbaseColon
      rw [← hlast] at hcut
      simp [hcut, hmarked, hname, hbefore]

end UtilityCss.Token

namespace UtilityCss.Scanner
open Text Scan Token

theorem keeps_of_isNameChar {naming : Naming} {name : String} (hstrict : naming.permissive = false)
    (hne : name ≠ "") (hcolon : name ≠ ":") (h : ∀ c ∈ name.toList, isNameChar c) :
    ({ naming } : Scanner).keeps name = looksPrefixed naming name := by
  have hname : isName name := by simpa [isName, hne] using h
  simp [keeps, isFragment_of_isNameChar h hcolon, hname, hstrict]

theorem exists_parts_of_recognizes {naming : Naming} {text : String}
    (h : naming.recognizes text) :
    ∃ token base, ofText? naming text = some token ∧ Parts naming text token base := by
  cases htoken : ofText? naming text with
  | none => simp [Naming.recognizes, Naming.rule?, Naming.rules, htoken, Naming.ownRule?] at h
  | some token =>
    obtain ⟨base, hparts⟩ := exists_parts htoken
    exact ⟨token, base, rfl, hparts⟩

/-- A class attribute with a utility of a project that keeps to its prefix gives the utility when its marker
shows, and nothing otherwise. -/
theorem scan_recognized (naming : Naming) (hstrict : naming.permissive = false)
    (hpre : naming.classPrefix ≠ "") (hchars : ∀ c ∈ naming.classPrefix.toList, isPrefixChar c)
    (text : String) (htext : ∀ c ∈ text.toList, isNameChar c) (hrecognized : naming.recognizes text) :
    ∃ token, ofText? naming text = some token ∧
      (ShowsMarker naming token → looksPrefixed naming text ∧
        ({ naming } : Scanner).scan ("class=\"" ++ text ++ "\"") .markup = [text]) ∧
      (¬ShowsMarker naming token → looksPrefixed naming text = false ∧
        ({ naming } : Scanner).scan ("class=\"" ++ text ++ "\"") .markup = []) := by
  obtain ⟨token, base, htoken, hparts⟩ := exists_parts_of_recognizes hrecognized
  obtain ⟨hne, hcolon⟩ := hparts.text_ne
  have hpreColon : ':' ∉ naming.classPrefix.toList :=
    fun hmem => absurd (hchars ':' hmem) (by decide)
  have hshows := looksPrefixed_iff hparts hstrict hpre hpreColon
  have hscan := scan_classAttribute { naming } hne htext
  rw [keeps_of_isNameChar hstrict hne hcolon htext] at hscan
  refine ⟨token, htoken, fun hmarker => ?_, fun hmarker => ?_⟩
  · rw [hscan, if_pos (hshows.2 hmarker)]
    exact ⟨hshows.2 hmarker, rfl⟩
  · have hhidden : ¬looksPrefixed naming text := fun h => hmarker (hshows.1 h)
    rw [hscan, if_neg hhidden]
    exact ⟨by simpa using hhidden, rfl⟩

theorem scan_recognized_negative_margin :
    ∃ token, ofText? {} "md:-vibe-mt-4" = some token ∧ ShowsMarker {} token ∧
      ({} : Scanner).scan "class=\"md:-vibe-mt-4\"" .markup = ["md:-vibe-mt-4"] := by
  obtain ⟨token, htoken, hshown, -⟩ := scan_recognized {} rfl (by decide)
    (List.all_eq_true.1 (by decide +kernel)) "md:-vibe-mt-4"
    (List.all_eq_true.1 (by decide +kernel)) (by decide +kernel)
  have hmarker : ShowsMarker {} token := by
    have hname : token.name = "mt-4" := by
      have heq : ofText? {} "md:-vibe-mt-4" = some {
          text := "md:-vibe-mt-4", variants := ["md"], name := "mt-4", negative := true } := by
        decide +kernel
      rw [heq] at htoken
      rw [← Option.some.inj htoken]
    refine Or.inr (Or.inl ?_)
    rw [hname]
    decide
  exact ⟨token, htoken, hmarker, (hshown hmarker).2⟩

/-- A utility that compiles, made of characters of class names, that the scanner does not find. -/
theorem recognized_not_scanned :
    (∀ c ∈ "hover:vibe-w-[a:b]".toList, isNameChar c) ∧
      ({} : Naming).recognizes "hover:vibe-w-[a:b]" ∧
        looksPrefixed {} "hover:vibe-w-[a:b]" = false ∧
          ({} : Scanner).scan "class=\"hover:vibe-w-[a:b]\"" .markup = [] :=
  ⟨List.all_eq_true.1 (by decide +kernel), by decide +kernel, by decide +kernel, by decide +kernel⟩

end UtilityCss.Scanner
