import Mathlib.Data.List.Basic
import Mathlib.Data.Option.Basic
import UtilityCss.Proofs.SelectorText
import UtilityCss.Proofs.TokenParts
import UtilityCss.Rule

/-!
# Reading a style sheet back

A style sheet is read by its lines. Blank lines divide it into parts; a part is a row of unindented rules, or
a media query whose rules are indented by two spaces and closed by a brace of its own. On the line of a rule
the selector ends before the first opening brace that no backslash escapes.

`read?` is such a reader, for any text. It gives back every sheet that `write` writes of readable parts.
-/

namespace UtilityCss.SheetText
open Text Selector Identifier

/-- Rules that stand together: the unconditional ones, or those under one media query. -/
structure Part where
  query : Option String := none
  rules : List Rule
  deriving DecidableEq, Repr

def openBrace? : List Char → Option (List Char × List Char)
  | [] => none
  | '\\' :: c :: cs => (openBrace? cs).map fun p => ('\\' :: c :: p.1, p.2)
  | c :: cs =>
    if c = '\x7b' then some ([], cs) else (openBrace? cs).map fun p => (c :: p.1, p.2)

/-- An unindented line of a selector and its declarations. -/
def rule? (query : Option String) (line : List Char) : Option Rule := do
  let (before, after) ← openBrace? line
  guard (before.head? ≠ some ' ' ∧ before.getLast? = some ' ')
  let inside ← [' '].isPrefixOf? after
  let declarations ← [' ', '\x7d'].isSuffixOf? inside
  some {
    selector := String.ofList before.dropLast
    declarations := String.ofList declarations
    media := query }

def mediaWord : List Char := ['@', 'm', 'e', 'd', 'i', 'a', ' ']

def query? (line : List Char) : Option String := do
  let rest ← mediaWord.isPrefixOf? line
  let query ← [' ', '\x7b'].isSuffixOf? rest
  some (String.ofList query)

def unindented? (line : List Char) : Option (List Char) := [' ', ' '].isPrefixOf? line

def part? : List (List Char) → Option Part
  | [] => none
  | line :: lines =>
    match query? line with
    | none => do
      let rules ← (line :: lines).mapM (rule? none)
      some { rules }
    | some query => do
      guard (lines.getLast? = some ['\x7d'])
      let bodies ← lines.dropLast.mapM unindented?
      let rules ← bodies.mapM (rule? (some query))
      some { query := some query, rules }

def lines? (text : List Char) : Option (List (List Char)) :=
  let pieces := text.splitOn '\n'
  if pieces.getLast? = some [] then some pieces.dropLast else none

def read? (text : List Char) : Option (List Part) := do
  let lines ← lines? text
  if lines.isEmpty then some [] else (lines.splitOn []).mapM part?

/-- Text of one line before which an opening brace is found where it was. -/
structure Inert (cs : List Char) : Prop where
  line : '\n' ∉ cs
  brace : ∀ rest, openBrace? (cs ++ rest) = (openBrace? rest).map fun p => (cs ++ p.1, p.2)

namespace Inert

theorem nil : Inert [] := ⟨List.not_mem_nil, fun rest => by simp⟩

theorem append {a b : List Char} (ha : Inert a) (hb : Inert b) : Inert (a ++ b) := by
  refine ⟨by simp [ha.line, hb.line], fun rest => ?_⟩
  rw [List.append_assoc, ha.brace, hb.brace, Option.map_map]
  simp [Function.comp_def]

theorem char {c : Char} (hline : c ≠ '\n') (hslash : c ≠ '\\') (hbrace : c ≠ '\x7b') :
    Inert [c] := by
  refine ⟨by simpa using hline.symm, fun rest => ?_⟩
  rw [List.singleton_append, openBrace?, if_neg hbrace]
  · rfl
  · intro d ds hc _
    exact hslash hc

theorem escape {c : Char} (hline : c ≠ '\n') : Inert ['\\', c] := by
  refine ⟨by simpa using hline.symm, fun rest => ?_⟩
  rw [List.cons_append, List.singleton_append, openBrace?]
  rfl

theorem quiet {c : Char} (h : isQuiet c) : Inert [c] := by
  simp only [isQuiet, Bool.and_eq_true, bne_iff_ne] at h
  exact char h.2 h.1.2 h.1.1.2

theorem digitChar {d : Nat} (h : d < 16) : Inert [d.digitChar] := by
  have hdigit : ∀ d, d < 16 → isQuiet d.digitChar := by decide
  exact quiet (hdigit d h)

theorem hexEscape {c : Char} (h : c.toNat < 256) : Inert (hexEscape c) := by
  have hspace : Inert [' '] := char (by decide) (by decide) (by decide)
  have hfirst {d : Nat} (hd : d < 16) : Inert ['\\', d.digitChar] := by
    have hdigit : ∀ d, d < 16 → d.digitChar ≠ '\n' := by decide
    exact escape (hdigit d hd)
  rw [Selector.hexEscape]
  rcases toDigits_cases h with ⟨hlt, heq⟩ | ⟨high, low, hhigh, hlow, -, heq⟩
  · rw [heq]
    exact (hfirst hlt).append hspace
  · rw [heq]
    exact ((hfirst hhigh).append (digitChar hlow)).append hspace

theorem escapeChar (c : Char) : Inert (escapeChar c) := by
  by_cases hnull : c = '\x00'
  · subst hnull
    exact char (by decide) (by decide) (by decide)
  rcases escapeChar_cases hnull with ⟨hsmall, heq⟩ | ⟨hplain, heq⟩ | ⟨-, hline, heq⟩
  · rw [heq]
    exact hexEscape hsmall
  · rw [heq]
    apply char
    all_goals
      rintro rfl
      exact absurd hplain (by decide)
  · rw [heq]
    apply escape
    rintro rfl
    exact absurd hline (by decide)

theorem escapeStart (c : Char) : Inert (escapeStart c) := by
  rw [Selector.escapeStart]
  split
  · rename_i hdigit
    have := isDigit_iff.1 hdigit
    exact hexEscape (by omega)
  · exact escapeChar c

theorem flatMap_escapeChar (cs : List Char) : Inert (cs.flatMap Selector.escapeChar) := by
  induction cs with
  | nil => exact nil
  | cons c cs ih =>
    rw [List.flatMap_cons]
    exact (escapeChar c).append ih

theorem escapeChars (name : List Char) : Inert (escapeChars name) := by
  fun_cases Selector.escapeChars name with
  | case1 => exact nil
  | case2 => exact escape (by decide)
  | case3 c cs =>
    have hdash : Inert ['-'] := char (by decide) (by decide) (by decide)
    exact (hdash.append (escapeStart c)).append (flatMap_escapeChar cs)
  | case4 c cs => exact (escapeStart c).append (flatMap_escapeChar cs)

theorem of_written {cs : List Char} {names : List (List Char)} (h : Written cs names) :
    Inert cs := by
  induction h with
  | nil => exact nil
  | quiet hc _ ih => exact (quiet hc).append ih
  | @named name cs names _ _ _ ih =>
    have hdot : Inert ['.'] := char (by decide) (by decide) (by decide)
    exact (hdot.append (escapeChars name)).append ih

end Inert

structure Readable (rule : Rule) : Prop where
  selector : Inert rule.selector.toList
  /-- The line is neither indented nor taken for a media query. -/
  start : (∃ rest, rule.selector.toList = '.' :: rest) ∨
    ∃ rest, rule.selector.toList = '@' :: 'k' :: rest
  declarations : OneLine rule.declarations

namespace Readable

variable {rule : Rule}

theorem body_toList (rule : Rule) : rule.body.toList =
    rule.selector.toList ++ ([' '] ++ '\x7b' :: ([' '] ++ (rule.declarations.toList ++ [' ', '\x7d']))) := by
  simp [Rule.body]

theorem rule?_body (h : Readable rule) : rule? rule.media rule.body.toList = some rule := by
  have hspace : Inert [' '] := .char (by decide) (by decide) (by decide)
  have hcut : openBrace? rule.body.toList = some (rule.selector.toList ++ [' '],
      [' '] ++ (rule.declarations.toList ++ [' ', '\x7d'])) := by
    rw [body_toList, ← List.append_assoc, (h.selector.append hspace).brace, openBrace?, if_pos rfl]
    · simp
    · intro d ds hc _
      exact absurd hc (by decide)
  have hhead : (rule.selector.toList ++ [' ']).head? ≠ some ' ' := by
    rcases h.start with ⟨rest, hrest⟩ | ⟨rest, hrest⟩
    all_goals simp [hrest]
  have hinside : [' '].isPrefixOf? ([' '] ++ (rule.declarations.toList ++ [' ', '\x7d'])) =
      some (rule.declarations.toList ++ [' ', '\x7d']) :=
    List.isPrefixOf?_eq_some_iff_append_eq.2 rfl
  have hdeclarations : [' ', '\x7d'].isSuffixOf? (rule.declarations.toList ++ [' ', '\x7d']) =
      some rule.declarations.toList :=
    List.isSuffixOf?_eq_some_iff_append_eq.2 rfl
  have hends : (guard ((rule.selector.toList ++ [' ']).head? ≠ some ' ' ∧
      (rule.selector.toList ++ [' ']).getLast? = some ' ') : Option Unit) = some () :=
    (Option.guard_eq_some' ()).2 ⟨hhead, List.getLast?_concat⟩
  simp only [rule?, hcut, Option.bind_eq_bind, Option.bind_some, hends, hinside, hdeclarations,
    List.dropLast_concat, String.ofList_toList]

theorem not_mem_body (h : Readable rule) : '\n' ∉ rule.body.toList := by
  rw [body_toList]
  simpa using ⟨h.selector.line, oneLine_iff.1 h.declarations⟩

theorem body_ne (rule : Rule) : rule.body.toList ≠ [] := by simp [body_toList]

theorem query?_body (h : Readable rule) : query? rule.body.toList = none := by
  have hnone : mediaWord.isPrefixOf? rule.body.toList = none := by
    rcases h.start with ⟨rest, hrest⟩ | ⟨rest, hrest⟩
    all_goals simp [body_toList, hrest, mediaWord, List.isPrefixOf?]
  rw [query?, hnone]
  rfl

end Readable

namespace Part

/-- What a part must be to be read back: some rules, all under its query. -/
structure Readable (part : Part) : Prop where
  rules_ne : part.rules ≠ []
  rules : ∀ rule ∈ part.rules, SheetText.Readable rule ∧ rule.media = part.query
  query : ∀ query ∈ part.query, OneLine query

def header (query : String) : List Char := mediaWord ++ (query.toList ++ [' ', '\x7b'])

def lines (part : Part) : List (List Char) :=
  match part.query with
  | none => part.rules.map fun rule => rule.body.toList
  | some query =>
    header query :: (part.rules.map fun rule => ' ' :: ' ' :: rule.body.toList) ++ [['\x7d']]

end Part

theorem mapM_eq_some {α β : Type} {f : α → Option β} {g : β → α} {l : List β}
    (h : ∀ x ∈ l, f (g x) = some x) : (l.map g).mapM f = some l := by
  induction l with
  | nil => simp
  | cons x l ih =>
    have hrest := ih fun y hy => h y (List.mem_cons_of_mem x hy)
    rw [List.map_cons, List.mapM_cons, h x List.mem_cons_self, hrest]
    rfl

theorem query?_header (query : String) : query? (Part.header query) = some query := by
  have hpre : mediaWord.isPrefixOf? (Part.header query) =
      some (query.toList ++ [' ', '\x7b']) := List.isPrefixOf?_eq_some_iff_append_eq.2 rfl
  have hsuffix : [' ', '\x7b'].isSuffixOf? (query.toList ++ [' ', '\x7b']) = some query.toList :=
    List.isSuffixOf?_eq_some_iff_append_eq.2 rfl
  simp only [query?, hpre, hsuffix, Option.bind_eq_bind, Option.bind_some, String.ofList_toList]

namespace Part.Readable

variable {part : Part}

theorem part?_lines (h : part.Readable) : part? part.lines = some part := by
  obtain ⟨query, rules⟩ := part
  obtain ⟨rule, others, rfl⟩ := List.exists_cons_of_ne_nil h.rules_ne
  have hrules : ∀ rule' ∈ rule :: others, rule? query rule'.body.toList = some rule' := by
    intro rule' hmem
    obtain ⟨hreadable, hmedia⟩ := h.rules rule' hmem
    have hrule := hreadable.rule?_body
    rwa [hmedia] at hrule
  cases query with
  | none =>
    have hquery := (h.rules rule List.mem_cons_self).1.query?_body
    have hread := mapM_eq_some (g := fun rule : Rule => rule.body.toList) hrules
    rw [List.map_cons] at hread
    simp only [Part.lines, List.map_cons, part?, hquery, hread, Option.bind_eq_bind,
      Option.bind_some]
  | some query =>
    have hindented : ((rule :: others).map fun rule => ' ' :: ' ' :: rule.body.toList).mapM
        unindented? = some ((rule :: others).map fun rule => rule.body.toList) := by
      have hline (line : List Char) : unindented? (' ' :: ' ' :: line) = some line :=
        List.isPrefixOf?_eq_some_iff_append_eq.2 rfl
      have hmapped := mapM_eq_some (f := unindented?) (g := fun line => ' ' :: ' ' :: line)
        (l := (rule :: others).map fun rule => rule.body.toList) fun line _ => hline line
      rwa [List.map_map] at hmapped
    have hread := mapM_eq_some (g := fun rule : Rule => rule.body.toList) hrules
    simp only [Part.lines, List.cons_append, part?, query?_header, List.getLast?_concat,
      List.dropLast_concat, hindented, hread, Option.bind_eq_bind, Option.bind_some]
    simp [guard]

theorem line (h : part.Readable) : ∀ line ∈ part.lines, '\n' ∉ line ∧ line ≠ [] := by
  have hbody : ∀ rule ∈ part.rules, '\n' ∉ rule.body.toList :=
    fun rule hmem => (h.rules rule hmem).1.not_mem_body
  intro line hline
  rw [Part.lines] at hline
  split at hline
  · obtain ⟨rule, hmem, rfl⟩ := List.mem_map.1 hline
    exact ⟨hbody rule hmem, SheetText.Readable.body_ne rule⟩
  · rename_i query hquery
    rw [List.cons_append, List.mem_cons, List.mem_append, List.mem_singleton] at hline
    rcases hline with rfl | hline | rfl
    · have hword : '\n' ∉ mediaWord := by decide
      have htext := oneLine_iff.1 (h.query query hquery)
      refine ⟨?_, List.cons_ne_nil _ _⟩
      rw [Part.header, List.mem_append, List.mem_append]
      rintro (hmem | hmem | hmem)
      · exact hword hmem
      · exact htext hmem
      · exact absurd hmem (by decide)
    · obtain ⟨rule, hmem, rfl⟩ := List.mem_map.1 hline
      refine ⟨?_, List.cons_ne_nil _ _⟩
      simpa using hbody rule hmem
    · exact ⟨by decide, List.cons_ne_nil _ _⟩

theorem lines_ne (h : part.Readable) : part.lines ≠ [] := by
  rw [Part.lines]
  split
  · simpa using h.rules_ne
  · simp

end Part.Readable

def ended (lines : List (List Char)) : List Char := lines.flatMap fun line => line ++ ['\n']

theorem ended_eq_intercalate (lines : List (List Char)) :
    ended lines = ['\n'].intercalate (lines ++ [[]]) := by
  induction lines with
  | nil => rfl
  | cons line lines ih =>
    cases lines with
    | nil => simp [ended, List.intercalate]
    | cons next lines =>
      rw [List.cons_append, List.cons_append, List.intercalate_cons_cons, ← List.cons_append, ← ih]
      simp [ended]

theorem intercalate_concat_newline {lines : List (List Char)} (h : lines ≠ []) :
    ['\n'].intercalate lines ++ ['\n'] = ended lines := by
  rw [ended_eq_intercalate, intercalate_concat _ _ h, List.append_nil]

theorem ended_intercalate (pieces : List (List (List Char))) :
    ended ([[]].intercalate pieces) = ['\n'].intercalate (pieces.map ended) := by
  induction pieces with
  | nil => rfl
  | cons piece pieces ih =>
    cases pieces with
    | nil => simp
    | cons next pieces =>
      rw [List.map_cons] at ih
      rw [List.intercalate_cons_cons, List.map_cons, List.map_cons, List.intercalate_cons_cons, ← ih]
      simp [ended]

theorem lines?_ended {lines : List (List Char)} (h : ∀ line ∈ lines, '\n' ∉ line) :
    lines? (ended lines) = some lines := by
  have hsplit : (ended lines).splitOn '\n' = lines ++ [[]] := by
    rw [ended_eq_intercalate]
    refine List.splitOn_intercalate '\n' ?_ (by simp)
    intro line hline
    rcases List.mem_append.1 hline with hline | hline
    · exact h line hline
    · obtain rfl := List.mem_singleton.1 hline
      exact List.not_mem_nil
  simp only [lines?, hsplit, List.getLast?_concat, List.dropLast_concat, if_true]

def write (parts : List Part) : List Char := ended ([[]].intercalate (parts.map Part.lines))

theorem mem_intercalate {α : Type} {x : α} {separator : List α} {pieces : List (List α)}
    (h : x ∈ separator.intercalate pieces) : x ∈ separator ∨ ∃ piece ∈ pieces, x ∈ piece := by
  induction pieces with
  | nil => cases h
  | cons piece pieces ih =>
    cases pieces with
    | nil => exact Or.inr ⟨piece, List.mem_cons_self, by simpa using h⟩
    | cons next pieces =>
      rw [List.intercalate_cons_cons, List.mem_append, List.mem_append] at h
      rcases h with (h | h) | h
      · exact Or.inr ⟨piece, List.mem_cons_self, h⟩
      · exact Or.inl h
      · rcases ih h with h | ⟨other, hmem, h⟩
        · exact Or.inl h
        · exact Or.inr ⟨other, List.mem_cons_of_mem piece hmem, h⟩

theorem intercalate_ne_nil {α : Type} {separator piece : List α} {pieces : List (List α)}
    (h : piece ≠ []) : separator.intercalate (piece :: pieces) ≠ [] := by
  cases pieces with
  | nil => simpa using h
  | cons next pieces =>
    rw [List.intercalate_cons_cons, List.append_assoc]
    exact List.append_ne_nil_of_left_ne_nil h _

theorem read?_write {parts : List Part} (h : ∀ part ∈ parts, part.Readable) :
    read? (write parts) = some parts := by
  have hlines : ∀ line ∈ ([[]] : List (List Char)).intercalate (parts.map Part.lines),
      '\n' ∉ line := by
    intro line hline
    rcases mem_intercalate hline with hline | ⟨lines, hmem, hline⟩
    · obtain rfl := List.mem_singleton.1 hline
      exact List.not_mem_nil
    · obtain ⟨part, hpart, rfl⟩ := List.mem_map.1 hmem
      exact ((h part hpart).line line hline).1
  rw [read?, write, lines?_ended hlines]
  cases parts with
  | nil => rfl
  | cons part parts =>
    have hne : ([[]] : List (List Char)).intercalate ((part :: parts).map Part.lines) ≠ [] :=
      intercalate_ne_nil (h part List.mem_cons_self).lines_ne
    have hsplit : (([[]] : List (List Char)).intercalate ((part :: parts).map Part.lines)).splitOn [] =
        (part :: parts).map Part.lines := by
      refine List.splitOn_intercalate [] ?_ (by simp)
      intro lines hlines
      obtain ⟨part, hpart, rfl⟩ := List.mem_map.1 hlines
      exact fun hmem => ((h part hpart).line [] hmem).2 rfl
    simp only [Option.bind_eq_bind, Option.bind_some, hsplit]
    rw [if_neg (by simpa using hne)]
    exact mapM_eq_some fun part hpart => (h part hpart).part?_lines

end UtilityCss.SheetText
