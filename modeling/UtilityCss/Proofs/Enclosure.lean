import Mathlib.Logic.Function.Iterate
import UtilityCss.Proofs.CompiledRules
import UtilityCss.Proofs.Discovery

/-!
# Rules that close themselves

The declarations of a utility without a bracketed value close every bracket that they open. A bracketed value
is copied as it stands, once for each property, so that its square brackets decide: the declarations are nested
exactly when the value is, and the block of the rule ends where the rule does exactly when the value leaves no
bracket open. The scanner lets values pass that do neither.
-/

namespace UtilityCss.Block
open Text

def isSquared (c : Char) : Bool := isPlain c || c == '[' || c == ']'

def levelAfter? (depth : Nat) (c : Char) : Option Nat :=
  if c = '[' then some (depth + 1)
  else if c = ']' then if depth = 0 then none else some (depth - 1)
  else some depth

def level? (cs : List Char) (depth : Nat) : Option Nat := cs.foldlM levelAfter? depth

/-- How many square brackets a text leaves open when closing ones that fit none are passed over. -/
def leftOpen (cs : List Char) (depth : Nat) : Nat := cs.foldl Token.depthAfter depth

theorem squared_cases {c : Char} (h : isSquared c) : isPlain c ∨ c = '[' ∨ c = ']' := by
  simpa [isSquared, or_assoc] using h

theorem levelAfter?_of_isPlain {c : Char} (h : isPlain c) (depth : Nat) :
    levelAfter? depth c = some depth := by
  rw [levelAfter?, if_neg (ne_of_isPlain h (by decide)), if_neg (ne_of_isPlain h (by decide))]

theorem depthAfter_of_isPlain {c : Char} (h : isPlain c) (depth : Nat) :
    Token.depthAfter depth c = depth := by
  rw [Token.depthAfter, if_neg (ne_of_isPlain h (by decide)), if_neg (ne_of_isPlain h (by decide))]

theorem level?_cons (c : Char) (cs : List Char) (depth : Nat) :
    level? (c :: cs) depth = (levelAfter? depth c).bind (level? cs) := by
  rw [level?, List.foldlM_cons]
  rfl

theorem level?_append (a b : List Char) (depth : Nat) :
    level? (a ++ b) depth = (level? a depth).bind (level? b) := by
  rw [level?, List.foldlM_append]
  rfl

theorem level?_of_isPlain {cs : List Char} (h : ∀ c ∈ cs, isPlain c) (depth : Nat) :
    level? cs depth = some depth := by
  induction cs with
  | nil => rfl
  | cons c cs ih =>
    rw [level?_cons, levelAfter?_of_isPlain (h c List.mem_cons_self)]
    exact ih fun d hd => h d (List.mem_cons_of_mem c hd)

theorem leftOpen_of_isPlain {cs : List Char} (h : ∀ c ∈ cs, isPlain c) (depth : Nat) :
    leftOpen cs depth = depth := by
  induction cs with
  | nil => rfl
  | cons c cs ih =>
    rw [leftOpen, List.foldl_cons, depthAfter_of_isPlain (h c List.mem_cons_self)]
    exact ih fun d hd => h d (List.mem_cons_of_mem c hd)

theorem level?_add {cs : List Char} {depth level : Nat} (h : level? cs depth = some level) (k : Nat) :
    level? cs (depth + k) = some (level + k) := by
  induction cs generalizing depth with
  | nil =>
    obtain rfl := Option.some.inj h
    rfl
  | cons c cs ih =>
    rw [level?_cons] at h ⊢
    obtain ⟨between, hbetween, h⟩ := Option.bind_eq_some_iff.1 h
    have hstep : levelAfter? (depth + k) c = some (between + k) := by
      simp only [levelAfter?] at hbetween ⊢
      split_ifs at hbetween ⊢ <;> simp at hbetween ⊢ <;> omega
    rw [hstep]
    exact ih h

theorem leftOpen_mono (cs : List Char) {depth deeper : Nat} (h : depth ≤ deeper) :
    leftOpen cs depth ≤ leftOpen cs deeper := by
  induction cs generalizing depth deeper with
  | nil => exact h
  | cons c cs ih =>
    refine ih ?_
    simp only [Token.depthAfter]
    split_ifs <;> omega

theorem leftOpen_of_level? {cs : List Char} {depth level : Nat} (h : level? cs depth = some level) :
    leftOpen cs depth = level := by
  induction cs generalizing depth with
  | nil => exact Option.some.inj h
  | cons c cs ih =>
    rw [level?_cons] at h
    obtain ⟨between, hbetween, h⟩ := Option.bind_eq_some_iff.1 h
    have hstep : Token.depthAfter depth c = between := by
      simp only [levelAfter?] at hbetween
      simp only [Token.depthAfter]
      split_ifs at hbetween ⊢ <;> simp at hbetween <;> omega
    rw [leftOpen, List.foldl_cons, hstep]
    exact ih h

/-! ### Reading texts of square brackets -/

theorem nests_replicate {cs : List Char} (h : ∀ c ∈ cs, isSquared c) (depth : Nat) :
    nests (List.replicate depth .square) cs ↔ level? cs depth = some 0 := by
  induction cs generalizing depth with
  | nil => cases depth <;> simp [nests, level?]
  | cons c cs ih =>
    have hrest := ih fun d hd => h d (List.mem_cons_of_mem c hd)
    rw [level?_cons]
    rcases squared_cases (h c List.mem_cons_self) with hc | rfl | rfl
    · rw [nests_cons_of_isPlain hc, levelAfter?_of_isPlain hc]
      exact hrest depth
    · exact hrest (depth + 1)
    · cases depth with
      | zero => simp [nests, levelAfter?]
      | succ depth =>
        simpa [nests, levelAfter?, List.replicate_succ] using hrest depth

theorem nested_iff_level? {cs : List Char} (h : ∀ c ∈ cs, isSquared c) :
    Nested cs ↔ level? cs 0 = some 0 :=
  nests_replicate h 0

theorem after?_squared {cs rest : List Char} (h : ∀ c ∈ cs, isSquared c) (hrest : rest.head? ≠ some '*')
    (depth : Nat) :
    after? (List.replicate depth .square ++ [.curly]) (cs ++ rest) =
      after? (List.replicate (leftOpen cs depth) .square ++ [.curly]) rest := by
  induction cs generalizing depth with
  | nil => rfl
  | cons c cs ih =>
    have ih := ih fun d hd => h d (List.mem_cons_of_mem c hd)
    rw [leftOpen, List.foldl_cons, List.cons_append]
    rcases squared_cases (h c List.mem_cons_self) with hc | rfl | rfl
    · have hhead : (cs ++ rest).head? ≠ some '*' := by
        cases cs with
        | nil => exact hrest
        | cons d cs =>
          have hd := h d (List.mem_cons_of_mem c List.mem_cons_self)
          rintro hstar
          obtain rfl := Option.some.inj hstar
          exact absurd hd (by decide)
      rw [after?_of_isPlain hc hhead, depthAfter_of_isPlain hc, ih]
      rfl
    · rw [after?_of_opened? (rfl : opened? '[' = some .square)]
      exact ih (depth + 1)
    · rw [after?_of_closed? (rfl : closed? ']' = some .square)]
      cases depth with
      | zero => exact ih 0
      | succ depth =>
        have hopen : (List.replicate depth Bracket.square ++ [Bracket.curly]).isEmpty = false := by simp
        rw [List.replicate_succ, List.cons_append, List.head?_cons, if_pos rfl, List.tail_cons, hopen,
          if_neg Bool.false_ne_true]
        exact ih depth

/-! ### The same value for several properties -/

theorem act_declare {α : Type} (act : List Char → α → α)
    (happend : ∀ a b x, act (a ++ b) x = act b (act a x))
    (hplain : ∀ cs, (∀ c ∈ cs, isPlain c) → ∀ x, act cs x = x) {properties : List String}
    (hproperties : ∀ property ∈ properties, NameText property) (value : String) (x : α) :
    act (declare properties value).toList x = (act value.toList)^[properties.length] x := by
  induction properties generalizing x with
  | nil => exact hplain _ (by simp [declare]) x
  | cons property properties ih =>
    have hname : ∀ c ∈ property.toList, isPlain c :=
      fun c hc => isPlain_of_isNamePart (hproperties property List.mem_cons_self c hc)
    have ih := fun y => ih (fun q hq => hproperties q (List.mem_cons_of_mem property hq)) y
    have hfirst (y : α) : act (property ++ ": " ++ value ++ ";").toList y = act value.toList y := by
      simp only [String.toList_append, happend]
      rw [hplain _ hname, hplain ": ".toList (List.all_eq_true.1 (by decide)),
        hplain ";".toList (List.all_eq_true.1 (by decide))]
    rw [List.length_cons, Function.iterate_succ_apply, ← ih]
    cases properties with
    | nil =>
      have hnone : (declare [] value).toList = [] := by simp [declare]
      have hone : declare [property] value = property ++ ": " ++ value ++ ";" := by simp [declare]
      rw [hnone, hplain [] (by simp), hone, hfirst]
    | cons next properties =>
      have hmore : declare (property :: next :: properties) value =
          property ++ ": " ++ value ++ ";" ++ " " ++ declare (next :: properties) value := by
        simp [declare]
      rw [hmore, String.toList_append, String.toList_append, happend, happend, hfirst,
        hplain " ".toList (List.all_eq_true.1 (by decide))]

theorem squared_declare {properties : List String}
    (hproperties : ∀ property ∈ properties, NameText property) {value : String}
    (hvalue : MadeOf isSquared value) : MadeOf isSquared (declare properties value) := by
  rw [declare]
  refine MadeOf.intercalate (.ofList rfl) fun declaration hdeclaration => ?_
  obtain ⟨property, hmem, rfl⟩ := List.mem_map.1 hdeclaration
  have hproperty : MadeOf isSquared property := (hproperties property hmem).mono fun c hc => by
    rw [isSquared, isPlain_of_isNamePart hc]
    rfl
  exact ((hproperty.append (.ofList rfl)).append hvalue).append (.ofList rfl)

section Declared

variable {properties : List String} (hne : properties ≠ [])
  (hproperties : ∀ property ∈ properties, NameText property) {value : String}

include hne hproperties

theorem level?_declare :
    level? (declare properties value).toList 0 = some 0 ↔ level? value.toList 0 = some 0 := by
  have hact := act_declare (fun cs (depth : Option Nat) => depth.bind (level? cs))
    (fun a b depth => by cases depth <;> simp [level?_append])
    (fun cs h depth => by cases depth <;> simp [level?_of_isPlain h]) hproperties value (some 0)
  rw [Option.bind_some] at hact
  obtain ⟨n, hn⟩ := Nat.exists_eq_succ_of_ne_zero (List.length_eq_zero_iff.not.2 hne)
  rw [hact, hn, Function.iterate_succ_apply, Option.bind_some]
  cases hlevel : level? value.toList 0 with
  | none => simp [Function.iterate_fixed (x := none) (f := fun depth : Option Nat =>
      depth.bind (level? value.toList)) rfl]
  | some level =>
    -- Every further copy of the value leaves as many brackets open once more.
    have hcopies (k depth : Nat) : (fun depth : Option Nat => depth.bind (level? value.toList))^[k]
        (some depth) = some (depth + k * level) := by
      induction k generalizing depth with
      | zero => simp
      | succ k ih =>
        have hcopy := level?_add hlevel depth
        rw [Nat.zero_add] at hcopy
        rw [Function.iterate_succ_apply, Option.bind_some, hcopy, ih, Nat.succ_mul]
        congr 1
        omega
    rw [hcopies, Option.some_inj, Option.some_inj]
    constructor
    · intro h
      omega
    · rintro rfl
      simp

theorem leftOpen_declare :
    leftOpen (declare properties value).toList 0 = 0 ↔ leftOpen value.toList 0 = 0 := by
  have hact := act_declare leftOpen (fun a b depth => List.foldl_append)
    (fun cs h depth => leftOpen_of_isPlain h depth) hproperties value 0
  obtain ⟨n, hn⟩ := Nat.exists_eq_succ_of_ne_zero (List.length_eq_zero_iff.not.2 hne)
  rw [hact, hn]
  constructor
  · intro h
    rw [Function.iterate_succ_apply'] at h
    have hlast := leftOpen_mono value.toList (Nat.zero_le ((leftOpen value.toList)^[n] 0))
    omega
  · intro h
    exact Function.iterate_fixed h _

end Declared

end UtilityCss.Block

namespace UtilityCss.Rule
open Block

def block (rule : Rule) : List Char := rule.body.toList.drop (rule.selector.length + 1)

/-- The closing brace of a rule ends the block that its opening brace begins, whatever follows. -/
def Closes (rule : Rule) : Prop := ∀ rest, after? [] (rule.block ++ rest) = some rest

theorem block_eq (rule : Rule) :
    rule.block = '\x7b' :: ' ' :: (rule.declarations.toList ++ [' ', '\x7d']) := by
  have hbody : rule.body.toList =
      (rule.selector.toList ++ [' ']) ++ '\x7b' :: ' ' :: (rule.declarations.toList ++ [' ', '\x7d']) := by
    simp [body]
  have hlength : rule.selector.length + 1 = (rule.selector.toList ++ [' ']).length := by
    rw [List.length_append, String.length_toList]
    rfl
  rw [block, hbody, hlength, List.drop_left]

theorem after?_block (rule : Rule) (rest : List Char) :
    after? [] (rule.block ++ rest) =
      after? [.curly] (' ' :: rule.declarations.toList ++ ' ' :: '\x7d' :: rest) := by
  rw [block_eq, List.cons_append, after?_of_opened? (rfl : opened? '\x7b' = some .curly)]
  simp

theorem closes_of_contained {rule : Rule} (h : Contained rule.declarations) : rule.Closes := by
  intro rest
  have hinside : Leads [] (' ' :: rule.declarations.toList ++ [' ']) [] :=
    (Leads.plain (by decide) h).append (.of_isPlain (List.all_eq_true.1 (by decide)) [])
  have hhead : ('\x7d' :: rest).head? ≠ some '*' := by simp
  have hread := hinside.after? (List.cons_ne_nil Bracket.curly []) hhead
  rw [after?_block]
  rw [List.append_assoc] at hread
  rw [show ' ' :: rule.declarations.toList ++ ' ' :: '\x7d' :: rest =
    ' ' :: rule.declarations.toList ++ ([' '] ++ '\x7d' :: rest) from rfl, ← List.nil_append [Bracket.curly],
    hread, List.nil_append, after?_of_closed? (rfl : closed? '\x7d' = some .curly)]
  rfl

theorem closes_iff_leftOpen {rule : Rule} (h : ∀ c ∈ rule.declarations.toList, isSquared c) :
    rule.Closes ↔ leftOpen rule.declarations.toList 0 = 0 := by
  have hread (rest : List Char) : after? [] (rule.block ++ rest) =
      after? (List.replicate (leftOpen rule.declarations.toList 0) .square ++ [.curly])
        ('\x7d' :: rest) := by
    have hinside : ∀ c ∈ ' ' :: rule.declarations.toList ++ [' '], isSquared c := by
      simpa using ⟨by decide, fun c hc => hc.elim (h c) (by rintro rfl; decide)⟩
    have hlevel : leftOpen (' ' :: rule.declarations.toList ++ [' ']) 0 =
        leftOpen rule.declarations.toList 0 := by
      simp [leftOpen, Token.depthAfter]
    have hhead : ('\x7d' :: rest).head? ≠ some '*' := by simp
    have hafter := after?_squared hinside hhead 0
    rw [hlevel] at hafter
    rw [after?_block, ← hafter]
    simp
  constructor
  · intro hcloses
    by_contra hopen
    obtain ⟨n, hn⟩ := Nat.exists_eq_succ_of_ne_zero hopen
    have hnone := hcloses []
    rw [hread, hn, after?_of_closed? (rfl : closed? '\x7d' = some .curly), List.replicate_succ,
      List.cons_append, List.head?_cons, if_neg (by decide), after?] at hnone
    cases hnone
  · intro hclosed rest
    rw [hread, hclosed, after?_of_closed? (rfl : closed? '\x7d' = some .curly)]
    rfl

end UtilityCss.Rule

namespace UtilityCss.Token
open Block Scan Text

variable {naming : Naming} {text base key value : String} {token : Token} {resolution : Resolution}
  {rule : Rule}

theorem Known.contained (h : Known naming token resolution) (hpre : Contained naming.classPrefix)
    (hrule : rule ∈ token.rules naming resolution) : Contained rule.declarations := by
  rw [rules, List.mem_append, List.mem_cons] at hrule
  rcases hrule with hrule | rfl | hrule
  · exact (animates_of_mem_keyframesRules hrule).declarations
  · exact h.declarations lasting_contained (Naming.lasting_variablePrefix lasting_contained hpre)
  · obtain ⟨companion, hcompanion, rfl⟩ := List.mem_map.1 hrule
    exact (h.companions companion hcompanion).declarations

theorem Bracketing.declarations_eq (h : Bracketing token resolution key value)
    (hrule : rule ∈ token.rules naming resolution) :
    ∃ properties, properties ≠ [] ∧ (∀ property ∈ properties, NameText property) ∧
      rule.declarations = declare properties value := by
  obtain ⟨properties, hne, hproperties, rfl⟩ := h.resolution
  simp only [rules, Resolution.keyframesRules, companionRules, List.filterMap_nil, List.nil_append,
    List.map_nil, List.mem_singleton] at hrule
  exact ⟨properties, hne, hproperties, by rw [hrule]; rfl⟩

theorem Parts.mem_of_mem_value (h : Parts naming text token base)
    (harbitrary : token.arbitrary = some (key, value)) {c : Char} (hc : c ∈ value.toList) :
    c ∈ text.toList := by
  obtain ⟨front, -, hbase⟩ := exists_front h.name_eq
  obtain ⟨ending, hname, -⟩ := h.bracketed_name harbitrary
  have hmem : c ∈ base.toList := by
    rw [hbase, hname]
    simp [hc]
  rcases h.text_cases with ⟨-, htext⟩ | ⟨-, -, before, after, -, -, htext, -⟩
  · rwa [htext]
  · rw [htext]
    simp [hmem]

end UtilityCss.Token

namespace UtilityCss.Naming
open Block Scan Text Token

theorem isPlain_of_isPrefixChar {c : Char} (h : isPrefixChar c) : isPlain c := by
  by_contra hc
  simp only [isPlain, Bool.not_eq_true', Bool.not_eq_false, List.contains_iff_mem, List.mem_cons,
    List.not_mem_nil, or_false] at hc
  rcases hc with rfl | rfl | rfl | rfl | rfl | rfl | rfl | rfl | rfl | rfl | rfl <;>
    exact absurd h (by decide)

theorem isSquared_of_isNameChar {c : Char} (h : isNameChar c) : isSquared c := by
  by_contra hc
  simp only [isSquared, isPlain, Bool.or_eq_true, Bool.not_eq_true', not_or, Bool.not_eq_false,
    List.contains_iff_mem, List.mem_cons, List.not_mem_nil, or_false, beq_iff_eq] at hc
  obtain ⟨⟨hmem, hopen⟩, hclose⟩ := hc
  rcases hmem with rfl | rfl | rfl | rfl | rfl | rfl | rfl | rfl | rfl | rfl | rfl
  all_goals first
    | exact absurd h (by decide)
    | exact hopen rfl
    | exact hclose rfl

/-- The brackets of a class name that the scanner can find, and of its rules. The declarations of a rule are
nested, and its closing brace is its own, unless the name has a bracketed value; then the value decides, by its
nesting for the one and by what it leaves open for the other. -/
theorem nested_and_closes_iff (naming : Naming) (hpre : ∀ c ∈ naming.classPrefix.toList, isPrefixChar c)
    (text : String) (htext : ∀ c ∈ text.toList, isNameChar c) (rule : Rule)
    (hrule : rule ∈ naming.rules text) :
    ∃ token, Token.ofText? naming text = some token ∧
      (Nested rule.declarations.toList ↔ ∀ p ∈ token.arbitrary, Nested p.2.toList) ∧
      (rule.Closes ↔ ∀ p ∈ token.arbitrary, leftOpen p.2.toList 0 = 0) ∧
      (Nested rule.declarations.toList → rule.Closes) := by
  obtain ⟨token, base, resolution, hparts, hresolve, hrules⟩ := exists_resolution hrule
  rw [hrules] at hrule
  refine ⟨token, hparts.ofText?_eq, ?_⟩
  rcases known_or_bracketing hparts hresolve with ⟨hnone, hknown⟩ | ⟨key, value, hvalue, hbracketing⟩
  · have hpre : Contained naming.classPrefix :=
      .of_isPlain fun c hc => isPlain_of_isPrefixChar (hpre c hc)
    have hcontained := hknown.contained hpre hrule
    rw [hnone]
    simp [Leads.nested hcontained, Rule.closes_of_contained hcontained]
  · obtain ⟨properties, hne, hproperties, hdeclarations⟩ := hbracketing.declarations_eq hrule
    have hsquared : ∀ c ∈ value.toList, isSquared c :=
      fun c hc => isSquared_of_isNameChar (htext c (hparts.mem_of_mem_value hvalue hc))
    have hall : ∀ c ∈ rule.declarations.toList, isSquared c := by
      rw [hdeclarations]
      exact squared_declare hproperties hsquared
    have hnested : Nested rule.declarations.toList ↔ Nested value.toList := by
      rw [nested_iff_level? hall, nested_iff_level? hsquared, hdeclarations,
        level?_declare hne hproperties]
    have hcloses : rule.Closes ↔ leftOpen value.toList 0 = 0 := by
      rw [Rule.closes_iff_leftOpen hall, hdeclarations, leftOpen_declare hne hproperties]
    have hclosed (h : Nested value.toList) : leftOpen value.toList 0 = 0 :=
      leftOpen_of_level? ((nested_iff_level? hsquared).1 h)
    rw [hvalue, hnested, hcloses]
    simpa using hclosed

theorem nested_and_closes_size :
    ∃ rule, ({} : Naming).rules "vibe-size-[a[1]]" = [rule] ∧
      rule.declarations = "width: a[1]; height: a[1];" ∧
        Nested rule.declarations.toList ∧ rule.Closes := by
  let rule : Rule := {
    selector := ".vibe-size-\\[a\\[1\\]\\]", declarations := "width: a[1]; height: a[1];" }
  have hrules : ({} : Naming).rules "vibe-size-[a[1]]" = [rule] := by decide +kernel
  have htoken : Token.ofText? {} "vibe-size-[a[1]]" = some {
      text := "vibe-size-[a[1]]", variants := [], name := "size-[a[1]]",
      arbitrary := some ("size", "a[1]") } := by
    decide +kernel
  obtain ⟨token, htoken', hnested, -, hcloses⟩ := nested_and_closes_iff {}
    (List.all_eq_true.1 (by decide +kernel)) "vibe-size-[a[1]]"
    (List.all_eq_true.1 (by decide +kernel)) rule (by rw [hrules]; exact List.mem_singleton_self rule)
  obtain rfl := Option.some.inj (htoken.symm.trans htoken')
  have hdeclarations : Nested rule.declarations.toList := hnested.2 fun p hp => by
    obtain rfl := Option.some.inj hp
    decide
  exact ⟨rule, hrules, rfl, hdeclarations, hcloses hdeclarations⟩

/-- The rule of a class name that the scanner can find takes in the rule behind it. -/
theorem rule_not_closed :
    (∀ c ∈ "vibe-w-[[]".toList, isNameChar c) ∧
      ∃ rule ∈ ({} : Naming).rules "vibe-w-[[]", rule.declarations = "width: [;" ∧
        ¬Nested rule.declarations.toList ∧ ¬rule.Closes ∧
          ∀ next ∈ ({} : Naming).rules "vibe-p-4",
            after? [] (rule.block ++ '\n' :: next.body.toList) = none := by
  let rule : Rule := { selector := ".vibe-w-\\[\\[\\]", declarations := "width: [;" }
  have hrules : ({} : Naming).rules "vibe-w-[[]" = [rule] := by decide +kernel
  have hnext : ({} : Naming).rules "vibe-p-4" =
      [{ selector := ".vibe-p-4", declarations := "padding: 1rem;" }] := by
    decide +kernel
  refine ⟨List.all_eq_true.1 (by decide +kernel), rule, ?_, rfl, by decide, ?_, ?_⟩
  · rw [hrules]
    exact List.mem_singleton_self rule
  · rw [Rule.closes_iff_leftOpen (List.all_eq_true.1 (by decide +kernel))]
    decide
  · intro next hmem
    rw [hnext, List.mem_singleton] at hmem
    subst hmem
    decide +kernel

end UtilityCss.Naming
