import UtilityCss.Proofs.SelectorText

/-!
# Reading a list of selectors

A selector is read into pieces, which are the names of its classes and every other character. The commas
outside brackets divide a list of selectors into complex selectors, and in a complex selector a class with a
blank right behind it is an ancestor. Texts that are put together from classes and from what may stand around
them are read part by part.
-/

namespace UtilityCss.Selector
open Text Identifier

inductive Piece
  | named (name : List Char)
  | sign (c : Char)
  deriving DecidableEq, Repr

def pieces : List Char → List Piece
  | [] => []
  | c :: cs =>
    if c = '.' then .named (read cs).1 :: pieces (read cs).2
    else .sign c :: pieces cs
termination_by cs => cs.length
decreasing_by
  · exact Nat.lt_succ_of_le (read_length_le cs)
  · exact Nat.lt_succ_self _

def Piece.depthAfter (depth : Nat) : Piece → Nat
  | .named _ => depth
  | .sign c =>
    if c = '(' ∨ c = '[' then depth + 1 else if c = ')' ∨ c = ']' then depth - 1 else depth

/-- The complex selectors of a list, when `depth` brackets are open. The blank behind a comma stays with what
follows. -/
def itemsAt (depth : Nat) : List Piece → List (List Piece)
  | [] => [[]]
  | p :: ps =>
    if p = .sign ',' ∧ depth = 0 then [] :: itemsAt 0 ps
    else (itemsAt (p.depthAfter depth) ps).modifyHead (p :: ·)

def complexes (selector : String) : List (List Piece) := itemsAt 0 (pieces selector.toList)

/-- How often a class of a name stands in a complex selector as an ancestor. -/
def ancestorCount (name : String) : List Piece → Nat
  | [] => 0
  | p :: ps =>
    (if p = .named name.toList ∧ ps.head? = some (.sign ' ') then 1 else 0) + ancestorCount name ps

def levelAfter? (depth : Nat) : List Piece → Option Nat
  | [] => some depth
  | p :: ps => if p = .sign ',' ∧ depth = 0 then none else levelAfter? (p.depthAfter depth) ps

/-! ### Pieces of a text -/

theorem pieces_sign {c : Char} (h : c ≠ '.') (cs : List Char) :
    pieces (c :: cs) = .sign c :: pieces cs := by
  rw [pieces, if_neg h]

theorem ne_dot_of_isQuiet {c : Char} (h : isQuiet c) : c ≠ '.' := by
  rintro rfl
  exact absurd h (by decide)

theorem pieces_of_quiet {cs : List Char} (h : ∀ c ∈ cs, isQuiet c) : pieces cs = cs.map .sign := by
  induction cs with
  | nil => rw [pieces, List.map_nil]
  | cons c cs ih =>
    rw [pieces_sign (ne_dot_of_isQuiet (h c List.mem_cons_self)), List.map_cons,
      ih fun d hd => h d (List.mem_cons_of_mem c hd)]

theorem pieces_named (name : List Char) {rest : List Char} (h : Stops rest) :
    pieces ('.' :: (escapeChars name ++ rest)) = .named (name.map legible) :: pieces rest := by
  rw [pieces, if_pos rfl, read_escapeChars name h]

theorem pieces_append {a b : List Char} {names : List (List Char)} (ha : Written a names) (hb : Stops b) :
    pieces (a ++ b) = pieces a ++ pieces b := by
  induction ha with
  | nil => rw [List.nil_append, pieces, List.nil_append]
  | quiet hc _ ih =>
    rw [List.cons_append, pieces_sign (ne_dot_of_isQuiet hc), pieces_sign (ne_dot_of_isQuiet hc), ih]
    rfl
  | @named name cs _ _ hcs _ ih =>
    rw [List.cons_append, List.append_assoc, pieces_named name (stops_append hcs hb), pieces_named name hcs, ih]
    rfl

/-! ### Brackets and ancestors -/

theorem levelAfter?_append {depth between : Nat} {ps : List Piece} (h : levelAfter? depth ps = some between)
    (qs : List Piece) : levelAfter? depth (ps ++ qs) = levelAfter? between qs := by
  induction ps generalizing depth with
  | nil =>
    obtain rfl := Option.some.inj h
    rfl
  | cons p ps ih =>
    rw [levelAfter?] at h
    split at h
    · cases h
    · rename_i hinside
      rw [List.cons_append, levelAfter?, if_neg hinside, ih h]

theorem itemsAt_append {depth between : Nat} {ps : List Piece} (h : levelAfter? depth ps = some between)
    (qs : List Piece) : itemsAt depth (ps ++ qs) = (itemsAt between qs).modifyHead (ps ++ ·) := by
  induction ps generalizing depth with
  | nil =>
    obtain rfl := Option.some.inj h
    cases hitems : itemsAt depth qs <;> simp [hitems]
  | cons p ps ih =>
    rw [levelAfter?] at h
    split at h
    · cases h
    · rename_i hinside
      rw [List.cons_append, itemsAt, if_neg hinside, ih h, List.modifyHead_modifyHead]
      rfl

theorem ancestorCount_signs (name : String) (cs : List Char) (ps : List Piece) :
    ancestorCount name (cs.map .sign ++ ps) = ancestorCount name ps := by
  induction cs with
  | nil => rfl
  | cons c cs ih => simp [ancestorCount, ih]

/-- Text that stands in one complex selector and closes the brackets that it opens. -/
structure Undivided (cs : List Char) : Prop where
  stops : Stops cs
  written : ∃ names, Written cs names
  level : levelAfter? 0 (pieces cs) = some 0

structure Counts (name : String) (n : Nat) (cs : List Char) : Prop extends Undivided cs where
  count : ∀ ps, ancestorCount name (pieces cs ++ ps) = n + ancestorCount name ps

/-- Text without classes that may follow a class and does not end a complex selector. -/
structure Ending (s : String) : Prop extends Tail s where
  level : levelAfter? 0 (s.toList.map .sign) = some 0

namespace Ending

theorem empty : Ending "" := ⟨.empty, rfl⟩

theorem append {s t : String} (hs : Ending s) (ht : Ending t) : Ending (s ++ t) := by
  refine ⟨hs.toTail.append ht.toTail, ?_⟩
  rw [String.toList_append, List.map_append, levelAfter?_append hs.level, ht.level]

theorem join {texts : List String} (h : ∀ s ∈ texts, Ending s) : Ending (String.join texts) := by
  induction texts with
  | nil => exact empty
  | cons s texts ih =>
    rw [String.join_cons]
    exact (h s List.mem_cons_self).append (ih fun t ht => h t (List.mem_cons_of_mem s ht))

end Ending

namespace Counts

variable {name : String} {n m : Nat} {a b : List Char}

theorem append (ha : Counts name n a) (hb : Counts name m b) : Counts name (n + m) (a ++ b) := by
  obtain ⟨names, hwritten⟩ := ha.written
  obtain ⟨others, hothers⟩ := hb.written
  have hpieces := pieces_append hwritten hb.stops
  refine ⟨⟨stops_append ha.stops hb.stops, ⟨_, hwritten.append hothers hb.stops⟩, ?_⟩, fun ps => ?_⟩
  · rw [hpieces, levelAfter?_append ha.level, hb.level]
  · rw [hpieces, List.append_assoc, ha.count, hb.count, Nat.add_assoc]

theorem ending {s : String} (h : Ending s) : Counts name 0 s.toList := by
  have hpieces := pieces_of_quiet h.quiet
  refine ⟨⟨h.stops, ⟨[], h.written⟩, ?_⟩, fun ps => ?_⟩
  · rw [hpieces, h.level]
  · rw [hpieces, ancestorCount_signs, Nat.zero_add]

theorem named {other after : String} (hempty : other ≠ "") (hother : other.toList.map legible ≠ name.toList)
    (h : Ending after) : Counts name 0 ("." ++ escape other ++ after).toList := by
  rw [dot_escape_append]
  have hpieces := pieces_named other.toList h.stops
  refine ⟨⟨stops_cons (by decide) (by decide) _,
    ⟨_, .named (by simpa using hempty) h.stops h.written⟩, ?_⟩, fun ps => ?_⟩
  · rw [hpieces, pieces_of_quiet h.quiet]
    exact h.level
  · rw [hpieces, pieces_of_quiet h.quiet, List.cons_append, ancestorCount, ancestorCount_signs,
      if_neg fun hsame => hother (Piece.named.inj hsame.1)]

theorem ancestor (hempty : name ≠ "") (hlegible : name.toList.map legible = name.toList) :
    Counts name 1 ("." ++ escape name ++ " ").toList := by
  have hspace : Ending " " := ⟨.ofCons rfl rfl, rfl⟩
  rw [dot_escape_append]
  have hpieces := pieces_named name.toList hspace.stops
  refine ⟨⟨stops_cons (by decide) (by decide) _,
    ⟨_, .named (by simpa using hempty) hspace.stops hspace.written⟩, ?_⟩, fun ps => ?_⟩
  · rw [hpieces, pieces_of_quiet hspace.quiet]
    rfl
  · rw [hpieces, hlegible, pieces_of_quiet hspace.quiet, List.cons_append, ancestorCount,
      ancestorCount_signs]
    rw [if_pos ⟨rfl, rfl⟩]

end Counts

theorem complexes_listed {s : String} {selectors : List String} (hs : Undivided s.toList)
    (h : ∀ t ∈ selectors, Undivided t.toList) :
    complexes (listed (s :: selectors)) =
      pieces s.toList :: selectors.map fun t => .sign ' ' :: pieces t.toList := by
  induction selectors generalizing s with
  | nil =>
    rw [complexes, listed, String.intercalate_singleton, ← List.append_nil (pieces s.toList),
      itemsAt_append hs.level]
    rfl
  | cons t selectors ih =>
    have ht := h t List.mem_cons_self
    have hrest := ih ht fun u hu => h u (List.mem_cons_of_mem t hu)
    obtain ⟨names, hwritten⟩ := hs.written
    have hlist : (listed (s :: t :: selectors)).toList =
        s.toList ++ ',' :: ' ' :: (listed (t :: selectors)).toList := by
      rw [listed, String.intercalate_cons_cons]
      simp [listed]
    have hcomma : Stops (',' :: ' ' :: (listed (t :: selectors)).toList) :=
      stops_cons (by decide) (by decide) _
    rw [complexes] at hrest ⊢
    rw [hlist, pieces_append hwritten hcomma, pieces_sign (by decide), pieces_sign (by decide),
      itemsAt_append hs.level, itemsAt, if_pos ⟨rfl, rfl⟩, itemsAt, if_neg (by simp)]
    change List.modifyHead _ ([] :: List.modifyHead _ (itemsAt 0 _)) = _
    rw [hrest]
    simp

theorem listed_append {selectors others : List String} (h : selectors ≠ []) (h' : others ≠ []) :
    listed (selectors ++ others) = listed selectors ++ ", " ++ listed others := by
  induction selectors with
  | nil => exact absurd rfl h
  | cons s selectors ih =>
    cases selectors with
    | nil =>
      obtain ⟨t, rest, rfl⟩ := List.exists_cons_of_ne_nil h'
      simp [listed, String.intercalate_cons_cons]
    | cons t selectors =>
      have hrest := ih (List.cons_ne_nil t selectors)
      simp only [listed] at hrest
      simp only [listed, List.cons_append, String.intercalate_cons_cons] at hrest ⊢
      rw [hrest]
      simp only [String.append_assoc]

theorem listed_map_listed {lists : List (List String)} (h : ∀ selectors ∈ lists, selectors ≠ []) :
    listed (lists.map listed) = listed lists.flatten := by
  induction lists with
  | nil => rfl
  | cons selectors lists ih =>
    have hfirst := h selectors List.mem_cons_self
    have hrest := ih fun others hmem => h others (List.mem_cons_of_mem selectors hmem)
    cases lists with
    | nil => simp [listed]
    | cons others lists =>
      have hothers := h others (List.mem_cons_of_mem selectors List.mem_cons_self)
      rw [List.flatten_cons, listed_append hfirst (by simp [hothers]), ← hrest]
      simp [listed, String.intercalate_cons_cons]

theorem mem_complexes_listed {selectors : List String} (hne : selectors ≠ [])
    (h : ∀ s ∈ selectors, Undivided s.toList) {complex : List Piece}
    (hcomplex : complex ∈ complexes (listed selectors)) :
    ∃ s ∈ selectors, complex = pieces s.toList ∨ complex = .sign ' ' :: pieces s.toList := by
  obtain ⟨s, others, rfl⟩ := List.exists_cons_of_ne_nil hne
  rw [complexes_listed (h s List.mem_cons_self)
    fun t ht => h t (List.mem_cons_of_mem s ht)] at hcomplex
  rcases List.mem_cons.1 hcomplex with rfl | hcomplex
  · exact ⟨s, List.mem_cons_self, .inl rfl⟩
  · obtain ⟨t, ht, rfl⟩ := List.mem_map.1 hcomplex
    exact ⟨t, List.mem_cons_of_mem s ht, .inr rfl⟩

theorem Counts.of_complex {name : String} {n : Nat} {cs : List Char} (h : Counts name n cs)
    {complex : List Piece} (hcomplex : complex = pieces cs ∨ complex = .sign ' ' :: pieces cs) :
    ancestorCount name complex = n := by
  have hcount : ancestorCount name (pieces cs) = n := by
    simpa [ancestorCount] using h.count []
  rcases hcomplex with rfl | rfl
  · exact hcount
  · rw [ancestorCount, hcount]
    simp

theorem itemsAt_ne_nil (depth : Nat) (ps : List Piece) : itemsAt depth ps ≠ [] := by
  induction ps generalizing depth with
  | nil => exact List.cons_ne_nil _ _
  | cons p ps ih =>
    rw [itemsAt]
    split
    · exact List.cons_ne_nil _ _
    · obtain ⟨first, others, heq⟩ := List.exists_cons_of_ne_nil (ih (p.depthAfter depth))
      rw [heq]
      exact List.cons_ne_nil _ _

theorem mem_of_mem_itemsAt {depth : Nat} {ps complex : List Piece} (h : complex ∈ itemsAt depth ps) :
    ∀ p ∈ complex, p ∈ ps := by
  induction ps generalizing depth complex with
  | nil =>
    obtain rfl := List.mem_singleton.1 h
    exact List.forall_mem_nil _
  | cons q ps ih =>
    rw [itemsAt] at h
    split at h
    · rcases List.mem_cons.1 h with rfl | h
      · exact List.forall_mem_nil _
      · exact fun p hp => List.mem_cons_of_mem q (ih h p hp)
    · obtain ⟨first, others, hitems⟩ :=
        List.exists_cons_of_ne_nil (itemsAt_ne_nil (q.depthAfter depth) ps)
      have hmem : ∀ item ∈ first :: others, ∀ p ∈ item, p ∈ ps := by
        rw [← hitems]
        exact fun item hitem => ih hitem
      rw [hitems] at h
      rcases List.mem_cons.1 h with rfl | h
      · exact List.forall_mem_cons.2 ⟨List.mem_cons_self,
          fun p hp => List.mem_cons_of_mem q (hmem first List.mem_cons_self p hp)⟩
      · exact fun p hp => List.mem_cons_of_mem q (hmem complex (List.mem_cons_of_mem first h) p hp)

theorem ancestorCount_of_quiet (name : String) {s : String} (h : MadeOf isQuiet s) {complex : List Piece}
    (hcomplex : complex ∈ complexes s) : ancestorCount name complex = 0 := by
  have hsigns : ∀ p ∈ complex, ∃ c, p = .sign c := by
    intro p hp
    have hmem := mem_of_mem_itemsAt hcomplex p hp
    rw [pieces_of_quiet h] at hmem
    obtain ⟨c, -, rfl⟩ := List.mem_map.1 hmem
    exact ⟨c, rfl⟩
  clear hcomplex
  induction complex with
  | nil => rfl
  | cons p ps ih =>
    obtain ⟨c, rfl⟩ := hsigns p List.mem_cons_self
    rw [ancestorCount, if_neg (by simp), ih fun q hq => hsigns q (List.mem_cons_of_mem _ hq)]

end UtilityCss.Selector
