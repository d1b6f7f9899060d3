import UtilityCss.Proofs.OneLine

/-!
# Blocks

A block of a style sheet runs from an opening bracket to the closing bracket of its kind. Strings, comments and
escaped characters are passed over. So is a closing bracket that does not fit the innermost open block, which
is why one bracket that is left open takes in everything after it. `Leads` is the grammar of the texts that
the utilities write: what such a text opens it closes again, up to the blocks that it is said to leave open.
-/

namespace UtilityCss.Block
open Text

inductive Bracket
  | round
  | square
  | curly
  deriving DecidableEq

def opened? : Char → Option Bracket
  | '(' => some .round
  | '[' => some .square
  | '\x7b' => some .curly
  | _ => none

def closed? : Char → Option Bracket
  | ')' => some .round
  | ']' => some .square
  | '\x7d' => some .curly
  | _ => none

def afterString (quote : Char) : List Char → List Char
  | [] => []
  | '\\' :: _ :: cs => afterString quote cs
  | c :: cs => if c = quote ∨ c = '\n' then cs else afterString quote cs

def afterComment : List Char → List Char
  | [] => []
  | '*' :: '/' :: cs => cs
  | _ :: cs => afterComment cs

theorem afterString_length_le (quote : Char) (cs : List Char) :
    (afterString quote cs).length ≤ cs.length := by
  fun_induction afterString quote cs with
  | case1 => exact Nat.le_refl _
  | case2 c cs ih => simp only [List.length_cons]; omega
  | case3 c cs _ h => simp
  | case4 c cs _ h ih => simp only [List.length_cons]; omega

theorem afterComment_length_le (cs : List Char) : (afterComment cs).length ≤ cs.length := by
  fun_induction afterComment cs with
  | case1 => exact Nat.le_refl _
  | case2 cs => simp only [List.length_cons]; omega
  | case3 c cs _ ih => simp only [List.length_cons]; omega

def after? (blocks : List Bracket) : List Char → Option (List Char)
  | [] => none
  | '\\' :: _ :: cs => after? blocks cs
  | '/' :: '*' :: cs => after? blocks (afterComment cs)
  | c :: cs =>
    if c = '"' ∨ c = '\'' then after? blocks (afterString c cs)
    else match opened? c with
      | some bracket => after? (bracket :: blocks) cs
      | none =>
        if (closed? c).isSome ∧ blocks.head? = closed? c then
          if blocks.tail.isEmpty then some cs else after? blocks.tail cs
        else after? blocks cs
termination_by cs => cs.length
decreasing_by
  all_goals simp only [List.length_cons]
  all_goals have := afterComment_length_le cs
  all_goals have := fun quote => afterString_length_le quote cs
  all_goals grind

/-! ### Texts that close what they open -/

def isPlain (c : Char) : Bool :=
  !(['\\', '"', '\'', '*', '\n', '(', '[', '\x7b', ')', ']', '\x7d'].contains c)

/-- A text after which the blocks `after` are open where the blocks `before` were. A star stands behind a blank
only, where it begins no comment, and strings are plain inside. -/
inductive Leads : List Bracket → List Char → List Bracket → Prop
  | nil {blocks : List Bracket} : Leads blocks [] blocks
  | plain {before after : List Bracket} {c : Char} {cs : List Char} (hc : isPlain c)
      (h : Leads before cs after) : Leads before (c :: cs) after
  | times {before after : List Bracket} {cs : List Char} (h : Leads before cs after) :
      Leads before (' ' :: '*' :: cs) after
  | quoted {before after : List Bracket} {inside cs : List Char} (hi : ∀ c ∈ inside, isPlain c)
      (h : Leads before cs after) : Leads before ('"' :: (inside ++ '"' :: cs)) after
  | opening {before after : List Bracket} {bracket : Bracket} {c : Char} {cs : List Char}
      (hc : opened? c = some bracket) (h : Leads (bracket :: before) cs after) :
      Leads before (c :: cs) after
  | closing {before after : List Bracket} {bracket : Bracket} {c : Char} {cs : List Char}
      (hc : closed? c = some bracket) (h : Leads before cs after) :
      Leads (bracket :: before) (c :: cs) after

theorem opened?_of_isPlain {c : Char} (h : isPlain c) : opened? c = none := by
  unfold opened?
  split
  · simp [isPlain] at h
  · simp [isPlain] at h
  · simp [isPlain] at h
  · rfl

theorem closed?_of_isPlain {c : Char} (h : isPlain c) : closed? c = none := by
  unfold closed?
  split
  · simp [isPlain] at h
  · simp [isPlain] at h
  · simp [isPlain] at h
  · rfl

theorem ne_of_isPlain {c d : Char} (h : isPlain c) (hd : isPlain d = false) : c ≠ d := by
  rintro rfl
  rw [hd] at h
  cases h

theorem afterString_append {inside : List Char} (h : ∀ c ∈ inside, isPlain c) (rest : List Char) :
    afterString '"' (inside ++ '"' :: rest) = rest := by
  induction inside with
  | nil => simp [afterString]
  | cons c inside ih =>
    have hc := h c List.mem_cons_self
    rw [List.cons_append, afterString, if_neg]
    · exact ih fun d hd => h d (List.mem_cons_of_mem c hd)
    · exact not_or.2 ⟨ne_of_isPlain hc (by decide), ne_of_isPlain hc (by decide)⟩
    · intro d cs hslash
      exact absurd hslash (ne_of_isPlain hc (by decide))

namespace Leads

variable {before between after : List Bracket} {cs ds : List Char}

theorem append (h : Leads before cs between) (h' : Leads between ds after) :
    Leads before (cs ++ ds) after := by
  induction h with
  | nil => exact h'
  | plain hc _ ih => exact .plain hc (ih h')
  | times _ ih => exact .times (ih h')
  | quoted hi _ ih =>
    rw [List.cons_append, List.append_assoc]
    exact .quoted hi (ih h')
  | opening hc _ ih => exact .opening hc (ih h')
  | closing hc _ ih => exact .closing hc (ih h')

theorem inside (h : Leads before cs after) (outer : List Bracket) :
    Leads (before ++ outer) cs (after ++ outer) := by
  induction h with
  | nil => exact .nil
  | plain hc _ ih => exact .plain hc ih
  | times _ ih => exact .times ih
  | quoted hi _ ih => exact .quoted hi ih
  | opening hc _ ih => exact .opening hc ih
  | closing hc _ ih => exact .closing hc ih

theorem of_isPlain (h : ∀ c ∈ cs, isPlain c) (blocks : List Bracket) : Leads blocks cs blocks := by
  induction cs with
  | nil => exact .nil
  | cons c cs ih =>
    exact .plain (h c List.mem_cons_self) (ih fun d hd => h d (List.mem_cons_of_mem c hd))

theorem isInline (h : Leads before cs after) : ∀ c ∈ cs, isInline c := by
  have hplain {c : Char} (hc : isPlain c) : Text.isInline c := by
    simpa [Text.isInline] using ne_of_isPlain (d := '\n') hc (by decide)
  induction h with
  | nil => simp
  | plain hc _ ih => exact List.forall_mem_cons.2 ⟨hplain hc, ih⟩
  | times _ ih =>
    exact List.forall_mem_cons.2 ⟨by decide, List.forall_mem_cons.2 ⟨by decide, ih⟩⟩
  | @quoted _ _ inside cs hi _ ih =>
    intro c hc
    simp only [List.mem_cons, List.mem_append] at hc
    rcases hc with rfl | hc | rfl | hc
    · decide
    · exact hplain (hi c hc)
    · decide
    · exact ih c hc
  | opening hc _ ih =>
    refine List.forall_mem_cons.2 ⟨?_, ih⟩
    rw [Text.isInline, bne_iff_ne]
    rintro rfl
    cases hc
  | closing hc _ ih =>
    refine List.forall_mem_cons.2 ⟨?_, ih⟩
    rw [Text.isInline, bne_iff_ne]
    rintro rfl
    cases hc

theorem head?_ne (h : Leads before cs after) {rest : List Char} (hrest : rest.head? ≠ some '*') :
    (cs ++ rest).head? ≠ some '*' := by
  cases h with
  | nil => exact hrest
  | plain hc _ => simpa using ne_of_isPlain (d := '*') hc (by decide)
  | times _ => simp
  | quoted _ _ => simp
  | opening hc _ =>
    rintro hstar
    obtain rfl := Option.some.inj hstar
    cases hc
  | closing hc _ =>
    rintro hstar
    obtain rfl := Option.some.inj hstar
    cases hc

end Leads

/-! ### Reading past such texts -/

section Reading

variable {blocks : List Bracket} {c : Char} {cs : List Char}

theorem after?_of_isPlain (hc : isPlain c) (hcs : cs.head? ≠ some '*') :
    after? blocks (c :: cs) = after? blocks cs := by
  rw [after?]
  · rw [if_neg, opened?_of_isPlain hc, closed?_of_isPlain hc]
    · simp
    · exact not_or.2 ⟨ne_of_isPlain hc (by decide), ne_of_isPlain hc (by decide)⟩
  · intro d ds hslash
    exact absurd hslash (ne_of_isPlain hc (by decide))
  · rintro ds - rfl
    exact hcs rfl

theorem after?_star : after? blocks ('*' :: cs) = after? blocks cs := by
  rw [after?]
  · simp [opened?, closed?]
  · simp
  · simp

theorem after?_quote : after? blocks ('"' :: cs) = after? blocks (afterString '"' cs) := by
  rw [after?]
  · simp
  · simp
  · simp

theorem after?_of_opened? {bracket : Bracket} (hc : opened? c = some bracket) :
    after? blocks (c :: cs) = after? (bracket :: blocks) cs := by
  have hne : c = '(' ∨ c = '[' ∨ c = '\x7b' := by
    unfold opened? at hc
    split at hc <;> simp_all
  rw [after?]
  · rw [hc, if_neg]
    rcases hne with rfl | rfl | rfl <;> decide
  · rcases hne with rfl | rfl | rfl <;> simp
  · rcases hne with rfl | rfl | rfl <;> simp

theorem after?_of_closed? {bracket : Bracket} (hc : closed? c = some bracket) :
    after? blocks (c :: cs) =
      if blocks.head? = some bracket then
        if blocks.tail.isEmpty then some cs else after? blocks.tail cs
      else after? blocks cs := by
  have hne : c = ')' ∨ c = ']' ∨ c = '\x7d' := by
    unfold closed? at hc
    split at hc <;> simp_all
  have hopened : opened? c = none := by rcases hne with rfl | rfl | rfl <;> rfl
  rw [after?]
  · rw [hc, hopened, if_neg]
    · simp
    · rcases hne with rfl | rfl | rfl <;> decide
  · rcases hne with rfl | rfl | rfl <;> simp
  · rcases hne with rfl | rfl | rfl <;> simp

end Reading

theorem Leads.after? {before after outer : List Bracket} {cs : List Char} (h : Leads before cs after)
    (houter : outer ≠ []) {rest : List Char} (hrest : rest.head? ≠ some '*') :
    Block.after? (before ++ outer) (cs ++ rest) = Block.after? (after ++ outer) rest := by
  induction h with
  | nil => rfl
  | plain hc h ih => rw [List.cons_append, after?_of_isPlain hc (h.head?_ne hrest), ih]
  | @times _ _ cs h ih =>
    rw [List.cons_append, List.cons_append, Block.after?]
    · simp [opened?, closed?, after?_star, ih]
    · simp
    · simp
  | quoted hi _ ih =>
    rw [List.cons_append, List.append_assoc, List.cons_append, after?_quote,
      afterString_append hi, ih]
  | opening hc _ ih => rw [List.cons_append, after?_of_opened? hc, ← List.cons_append, ih]
  | @closing before _ bracket c cs hc _ ih =>
    have hopen : (before ++ outer).isEmpty = false := by simp [houter]
    rw [List.cons_append, List.cons_append, after?_of_closed? hc, List.head?_cons, if_pos rfl,
      List.tail_cons, hopen, if_neg Bool.false_ne_true, ih]

/-! ### Round and square brackets -/

def nests : List Bracket → List Char → Bool
  | blocks, [] => blocks.isEmpty
  | blocks, '(' :: cs => nests (.round :: blocks) cs
  | blocks, '[' :: cs => nests (.square :: blocks) cs
  | blocks, ')' :: cs => blocks.head? = some .round && nests blocks.tail cs
  | blocks, ']' :: cs => blocks.head? = some .square && nests blocks.tail cs
  | blocks, _ :: cs => nests blocks cs

def Nested (cs : List Char) : Prop := nests [] cs

instance (cs : List Char) : Decidable (Nested cs) := inferInstanceAs (Decidable (_ = true))

theorem nests_cons_of_ne {blocks : List Bracket} {c : Char} {cs : List Char}
    (h : c ∉ ['(', '[', ')', ']']) : nests blocks (c :: cs) = nests blocks cs := by
  simp only [List.mem_cons, List.not_mem_nil, or_false, not_or] at h
  obtain ⟨h1, h2, h3, h4⟩ := h
  rw [nests]
  all_goals assumption

theorem nests_cons_of_isPlain {blocks : List Bracket} {c : Char} {cs : List Char} (h : isPlain c) :
    nests blocks (c :: cs) = nests blocks cs := by
  refine nests_cons_of_ne fun hmem => ?_
  simp only [List.mem_cons, List.not_mem_nil, or_false] at hmem
  rcases hmem with rfl | rfl | rfl | rfl <;> exact absurd h (by decide)

theorem nests_append_of_isPlain {blocks : List Bracket} {cs : List Char} (h : ∀ c ∈ cs, isPlain c)
    (rest : List Char) : nests blocks (cs ++ rest) = nests blocks rest := by
  induction cs with
  | nil => rfl
  | cons c cs ih =>
    rw [List.cons_append, nests_cons_of_isPlain (h c List.mem_cons_self)]
    exact ih fun d hd => h d (List.mem_cons_of_mem c hd)

def uncurled (blocks : List Bracket) : List Bracket := blocks.filter (· ≠ .curly)

theorem Leads.nests {before after : List Bracket} {cs : List Char} (h : Leads before cs after)
    (rest : List Char) :
    Block.nests (uncurled before) (cs ++ rest) = Block.nests (uncurled after) rest := by
  induction h with
  | nil => rfl
  | plain hc _ ih => rw [List.cons_append, nests_cons_of_isPlain hc, ih]
  | times _ ih =>
    rw [List.cons_append, List.cons_append, nests_cons_of_ne (by decide), nests_cons_of_ne (by decide),
      ih]
  | quoted hi _ ih =>
    rw [List.cons_append, List.append_assoc, List.cons_append, nests_cons_of_ne (by decide),
      nests_append_of_isPlain hi, nests_cons_of_ne (by decide), ih]
  | @opening _ _ bracket c _ hc _ ih =>
    rw [← ih]
    unfold opened? at hc
    split at hc
    · obtain rfl := Option.some.inj hc
      rfl
    · obtain rfl := Option.some.inj hc
      rfl
    · obtain rfl := Option.some.inj hc
      exact nests_cons_of_ne (by decide)
    · cases hc
  | @closing _ _ bracket c _ hc _ ih =>
    rw [← ih]
    unfold closed? at hc
    split at hc
    · obtain rfl := Option.some.inj hc
      rfl
    · obtain rfl := Option.some.inj hc
      rfl
    · obtain rfl := Option.some.inj hc
      exact nests_cons_of_ne (by decide)
    · cases hc

theorem Leads.nested {cs : List Char} (h : Leads [] cs []) : Nested cs := by
  have hnests := h.nests []
  rwa [List.append_nil] at hnests

/-! ### Checking a literal -/

def leads? : Bool → List Bracket → List Char → Option (List Bracket)
  | false, blocks, [] => some blocks
  | true, _, [] => none
  | true, blocks, c :: cs =>
    if isPlain c then leads? true blocks cs
    else if c = '"' then leads? false blocks cs else none
  | false, blocks, ' ' :: '*' :: cs => leads? false blocks cs
  | false, blocks, c :: cs =>
    if isPlain c then leads? false blocks cs
    else if c = '"' then leads? true blocks cs
    else match opened? c, closed? c with
      | some bracket, _ => leads? false (bracket :: blocks) cs
      | none, some bracket => if blocks.head? = some bracket then leads? false blocks.tail cs else none
      | none, none => none

theorem leads_of_leads? (quoted : Bool) (before : List Bracket) (cs : List Char) :
    ∀ {after : List Bracket}, leads? quoted before cs = some after →
      if quoted then ∃ inside rest, cs = inside ++ '"' :: rest ∧ (∀ c ∈ inside, isPlain c) ∧
        Leads before rest after
      else Leads before cs after := by
  fun_induction leads? quoted before cs with
  | case1 blocks =>
    intro after h
    obtain rfl := Option.some.inj h
    exact .nil
  | case2 => simp
  | case3 blocks c cs hc ih =>
    intro after h
    obtain ⟨inside, rest, rfl, hi, hrest⟩ := ih h
    exact ⟨c :: inside, rest, rfl, List.forall_mem_cons.2 ⟨hc, hi⟩, hrest⟩
  | case4 blocks cs _ ih =>
    intro after h
    exact ⟨[], cs, rfl, List.forall_mem_nil _, ih h⟩
  | case5 => simp
  | case6 blocks cs ih => exact fun h => .times (ih h)
  | case7 blocks c cs _ hc ih => exact fun h => .plain hc (ih h)
  | case8 blocks cs _ _ ih =>
    intro after h
    obtain ⟨inside, rest, rfl, hi, hrest⟩ := ih h
    exact .quoted hi hrest
  | case9 blocks c cs _ _ _ bracket hc ih => exact fun h => .opening hc (ih h)
  | case10 blocks c cs _ _ _ bracket hc _ hhead ih =>
    intro after h
    obtain ⟨rest, rfl⟩ := List.head?_eq_some_iff.1 hhead
    exact .closing hc (ih h)
  | case11 => simp
  | case12 => simp

/-! ### Texts -/

def Passes (before : List Bracket) (s : String) (after : List Bracket) : Prop :=
  Leads before s.toList after

abbrev Contained (s : String) : Prop := Passes [] s []

namespace Passes

variable {before between after : List Bracket} {a b : String}

theorem append (ha : Passes before a between) (hb : Passes between b after) :
    Passes before (a ++ b) after := by
  rw [Passes, String.toList_append]
  exact Leads.append ha hb

theorem ofList {cs : List Char} (h : leads? false before cs = some after) :
    Passes before (String.ofList cs) after := by
  rw [Passes, String.toList_ofList]
  exact leads_of_leads? false before cs h

theorem within (h : Contained a) (blocks : List Bracket) : Passes blocks a blocks :=
  Leads.inside h blocks

theorem of_isPlain (h : MadeOf isPlain a) : Contained a := Leads.of_isPlain h []

theorem oneLine (h : Contained a) : OneLine a := Leads.isInline h

theorem intercalate {separator : String} (hs : Contained separator) {texts : List String}
    (h : ∀ s ∈ texts, Contained s) : Contained (separator.intercalate texts) := by
  induction texts with
  | nil => exact .ofList rfl
  | cons s texts ih =>
    have hfirst := h s List.mem_cons_self
    cases texts with
    | nil =>
      rw [String.intercalate_singleton]
      exact hfirst
    | cons t texts =>
      have hrest := ih fun u hu => h u (List.mem_cons_of_mem s hu)
      rw [String.intercalate_cons_cons]
      exact (hfirst.append hs).append hrest

end Passes

theorem isPlain_of_isNamePart {c : Char} (h : isNamePart c) : isPlain c := by
  by_contra hc
  simp only [isPlain, Bool.not_eq_true', Bool.not_eq_false, List.contains_iff_mem, List.mem_cons,
    List.not_mem_nil, or_false] at hc
  rcases hc with rfl | rfl | rfl | rfl | rfl | rfl | rfl | rfl | rfl | rfl | rfl <;>
    exact absurd h (by decide)

theorem contained_of_nameText {s : String} (h : NameText s) : Contained s :=
  .of_isPlain (h.mono fun _ => isPlain_of_isNamePart)

/-- What is true of all texts that close what they open, and stays true when texts are joined and when a text
is put between two others of which the second closes what the first opens. -/
structure Lasting (p : String → Prop) : Prop where
  contained {s : String} (h : Contained s) : p s
  append {a b : String} (ha : p a) (hb : p b) : p (a ++ b)
  around {before s after : String} {blocks : List Bracket} (hb : Passes [] before blocks)
    (ha : Passes blocks after []) (h : p s) : p (before ++ s ++ after)

theorem lasting_oneLine : Lasting OneLine where
  contained h := h.oneLine
  append ha hb := ha.append hb
  around hb ha h := (MadeOf.append (Leads.isInline hb) h).append (Leads.isInline ha)

theorem lasting_contained : Lasting Contained where
  contained h := h
  append ha hb := ha.append hb
  around hb ha h := (hb.append (h.within _)).append ha

namespace Lasting

variable {p : String → Prop} (hp : Lasting p)

include hp

theorem declaration {property value : String} (hproperty : Contained property) (hv : p value) :
    p (property ++ ": " ++ value ++ ";") :=
  hp.around (hproperty.append (.ofList rfl)) (.ofList rfl) hv

theorem declare {properties : List String} (hproperties : ∀ property ∈ properties, Contained property)
    {value : String} (hv : p value) : p (declare properties value) := by
  rw [UtilityCss.declare]
  induction properties with
  | nil => exact hp.contained (.ofList rfl)
  | cons property properties ih =>
    have hfirst := hp.declaration (hproperties property List.mem_cons_self) hv
    cases properties with
    | nil => simpa using hfirst
    | cons next properties =>
      have hrest := ih fun q hq => hproperties q (List.mem_cons_of_mem property hq)
      rw [List.map_cons, List.map_cons, String.intercalate_cons_cons]
      exact hp.append (hp.append hfirst (hp.contained (.ofList rfl))) hrest

theorem declare_singleton {property value : String} (hproperty : Contained property) (hv : p value) :
    p (UtilityCss.declare [property] value) :=
  hp.declare (by simpa using hproperty) hv

end Lasting

theorem contained_declare {properties : List String} {value : String}
    (h : ∀ property ∈ properties, Contained property) (hv : Contained value) :
    Contained (declare properties value) :=
  lasting_contained.declare h hv

theorem contained_declare_singleton {property value : String} (h : Contained property)
    (hv : Contained value) : Contained (declare [property] value) :=
  lasting_contained.declare_singleton h hv

end UtilityCss.Block
