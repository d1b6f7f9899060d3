import UtilityCss.Proofs.Identifier
import UtilityCss.Proofs.OneLine

/-!
# The text of a selector

A selector is a row of class names, each a dot and an escaped name, among text that is quiet: it holds no
dot, no backslash, no opening brace and no line feed. `Written` is that grammar, `classNames` reads the names
back, and every selector of a token is written with the token itself as its last class.
-/

namespace UtilityCss.Selector
open Text Identifier

def isQuiet (c : Char) : Bool := c != '.' && c != '\x7b' && c != '\\' && c != '\n'

/-- The text of a selector and the names of its classes. -/
inductive Written : List Char → List (List Char) → Prop
  | nil : Written [] []
  | quiet {c : Char} {cs : List Char} {names : List (List Char)} (hc : isQuiet c)
      (h : Written cs names) : Written (c :: cs) names
  | named {name cs : List Char} {names : List (List Char)} (hname : name ≠ []) (hcs : Stops cs)
      (h : Written cs names) : Written ('.' :: (escapeChars name ++ cs)) (name :: names)

theorem stops_cons {c : Char} (h : isPart c = false) (hslash : c ≠ '\\') (cs : List Char) :
    Stops (c :: cs) := by
  intro d hd
  obtain rfl : c = d := by simpa using hd
  exact ⟨h, hslash⟩

theorem stops_nil : Stops [] := by simp [Stops]

theorem stops_append {a b : List Char} (ha : Stops a) (hb : Stops b) : Stops (a ++ b) := by
  cases a with
  | nil => exact hb
  | cons c cs => exact fun d hd => ha d hd

theorem read_length_le (cs : List Char) : (read cs).2.length ≤ cs.length := by
  fun_induction read cs with
  | case1 => exact Nat.le_refl _
  | case2 c cs _ word rest heq ih =>
    rw [heq] at ih
    exact Nat.le_succ_of_le ih
  | case3 c cs _ _ word rest heq ih =>
    rw [heq] at ih
    exact Nat.le_succ_of_le (Nat.le_trans ih (readEscape_length_le cs))
  | case4 => exact Nat.le_refl _

def classNames : List Char → List (List Char)
  | [] => []
  | c :: cs =>
    if c = '.' then (read cs).1 :: classNames (read cs).2
    else classNames cs
termination_by cs => cs.length
decreasing_by
  · exact Nat.lt_succ_of_le (read_length_le cs)
  · exact Nat.lt_succ_self _

namespace Written

theorem of_quiet {cs : List Char} (h : ∀ c ∈ cs, isQuiet c) : Written cs [] := by
  induction cs with
  | nil => exact .nil
  | cons c cs ih =>
    apply Written.quiet
    · exact h c List.mem_cons_self
    · exact ih fun d hd => h d (List.mem_cons_of_mem c hd)

theorem append {a b : List Char} {names others : List (List Char)} (ha : Written a names)
    (hb : Written b others) (hstops : Stops b) : Written (a ++ b) (names ++ others) := by
  induction ha with
  | nil => exact hb
  | quiet hc _ ih => exact .quiet hc ih
  | named hname hcs _ ih =>
    rw [List.cons_append, List.append_assoc]
    exact .named hname (stops_append hcs hstops) ih

theorem classNames_eq {cs : List Char} {names : List (List Char)} (h : Written cs names) :
    classNames cs = names.map fun name => name.map legible := by
  induction h with
  | nil => rw [classNames, List.map_nil]
  | @quiet c cs names hc _ ih =>
    have hdot : c ≠ '.' := by
      rintro rfl
      exact absurd hc (by decide)
    rw [classNames, if_neg hdot, ih]
  | @named name cs names _ hcs _ ih =>
    rw [classNames, if_pos rfl, read_escapeChars name hcs, ih, List.map_cons]

end Written

structure Tail (s : String) : Prop where
  quiet : MadeOf isQuiet s
  stops : Stops s.toList

namespace Tail

theorem empty : Tail "" := ⟨.ofList rfl, stops_nil⟩

theorem ofCons {c : Char} {cs : List Char} (h : (c :: cs).all isQuiet = true)
    (hc : isPart c = false) : Tail (String.ofList (c :: cs)) := by
  refine ⟨.ofList h, ?_⟩
  rw [String.toList_ofList]
  refine stops_cons hc ?_ cs
  rintro rfl
  exact absurd (List.all_eq_true.1 h _ List.mem_cons_self) (by decide)

theorem append {s t : String} (hs : Tail s) (ht : Tail t) : Tail (s ++ t) := by
  refine ⟨hs.quiet.append ht.quiet, ?_⟩
  rw [String.toList_append]
  exact stops_append hs.stops ht.stops

theorem join {texts : List String} (h : ∀ s ∈ texts, Tail s) : Tail (String.join texts) := by
  induction texts with
  | nil => exact empty
  | cons s texts ih =>
    rw [String.join_cons]
    exact (h s List.mem_cons_self).append (ih fun t ht => h t (List.mem_cons_of_mem s ht))

theorem written {s : String} (h : Tail s) : Written s.toList [] := .of_quiet h.quiet

end Tail

def Lead (s : String) : Prop :=
  (∀ c ∈ s.toList.head?, c = '.') ∧ ∃ names, Written s.toList names

/-- A text of one or more selectors in which the last class is a given one. -/
def Selects (name : List Char) (s : String) : Prop :=
  s.toList.head? = some '.' ∧ ∃ names, Written s.toList (names ++ [name])

theorem lead_empty : Lead "" := ⟨by simp, [], .nil⟩

theorem stops_of_head? {cs : List Char} (h : ∀ c ∈ cs.head?, c = '.') : Stops cs := by
  intro c hc
  obtain rfl := h c hc
  exact ⟨by decide, by decide⟩

theorem dot_escape_append (name after : String) :
    ("." ++ escape name ++ after).toList = '.' :: (escapeChars name.toList ++ after.toList) := by
  simp [escape]

theorem selects_class {name after : String} (hname : name ≠ "") (h : Tail after) :
    Selects name.toList ("." ++ escape name ++ after) := by
  rw [Selects, dot_escape_append]
  exact ⟨rfl, [], .named (by simpa using hname) h.stops h.written⟩

namespace Selects

variable {name : List Char} {s before after : String}

theorem lead (h : Selects name s) : Lead s := by
  obtain ⟨hhead, names, hwritten⟩ := h
  refine ⟨?_, names ++ [name], hwritten⟩
  intro c hc
  rw [hhead] at hc
  exact (Option.some.inj hc).symm

theorem prepend (hb : Lead before) (hs : Selects name s) : Selects name (before ++ s) := by
  have hstops := stops_of_head? hs.lead.1
  obtain ⟨hhead, names, hwritten⟩ := hs
  obtain ⟨hbhead, others, hbwritten⟩ := hb
  rw [Selects, String.toList_append]
  constructor
  · rw [List.head?_append]
    cases hcase : before.toList.head? with
    | none => simpa using hhead
    | some c =>
      rw [hbhead c (by rw [hcase]; rfl)]
      rfl
  · refine ⟨others ++ names, ?_⟩
    rw [List.append_assoc]
    exact hbwritten.append hwritten hstops

theorem append (hs : Selects name s) (ha : Tail after) : Selects name (s ++ after) := by
  obtain ⟨hhead, names, hwritten⟩ := hs
  rw [Selects, String.toList_append]
  refine ⟨by rw [List.head?_append, hhead]; rfl, names, ?_⟩
  have := hwritten.append ha.written ha.stops
  rwa [List.append_nil] at this

theorem listed {selectors : List String} (hne : selectors ≠ [])
    (h : ∀ s ∈ selectors, Selects name s) : Selects name (listed selectors) := by
  induction selectors with
  | nil => exact absurd rfl hne
  | cons s selectors ih =>
    have hfirst := h s List.mem_cons_self
    cases selectors with
    | nil =>
      rw [Selector.listed, String.intercalate_singleton]
      exact hfirst
    | cons t selectors =>
      have hrest := ih (List.cons_ne_nil t selectors) fun u hu => h u (List.mem_cons_of_mem s hu)
      have hcomma : Tail ", " := .ofCons rfl rfl
      rw [Selector.listed, String.intercalate_cons_cons]
      exact hrest.prepend (hfirst.append hcomma).lead

theorem legible_eq {other : List Char} (h : Selects name s) (h' : Selects other s) :
    name.map legible = other.map legible := by
  obtain ⟨-, names, hwritten⟩ := h
  obtain ⟨-, others, hwritten'⟩ := h'
  have heq := hwritten.classNames_eq.symm.trans hwritten'.classNames_eq
  rw [List.map_append, List.map_append] at heq
  have hlast := List.append_inj_right' heq rfl
  simpa using hlast

end Selects

theorem lead_dark {ancestor : String} (h : Lead ancestor) : Lead (".dark " ++ ancestor) := by
  have hspace : Tail " " := .ofCons rfl rfl
  have hdark : Lead ("." ++ escape "dark" ++ " ") := (selects_class (by decide) hspace).lead
  obtain ⟨-, names, hwritten⟩ := hdark
  obtain ⟨hhead, others, hothers⟩ := h
  rw [Lead, String.toList_append]
  refine ⟨?_, names ++ others, hwritten.append hothers (stops_of_head? hhead)⟩
  intro c hc
  rw [List.head?_append] at hc
  simpa using hc.symm

end UtilityCss.Selector
