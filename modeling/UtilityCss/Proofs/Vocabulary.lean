import Mathlib.Data.List.Forall2
import Mathlib.Data.List.Perm.Basic
import UtilityCss.Proofs.Equivariance

/-!
# Each name has one family

Three families know a fixed list of names. The others are known by the first word of a name, and no first word
belongs to two of them; where a name of the lists begins with such a word, what follows is not what the family
of the word reads. So the name alone tells which family can resolve it, and the order in which families are
tried decides nothing.
-/

namespace UtilityCss
open Text

section Lists

variable {α β γ : Type}

theorem countP_eq_zero_of_owners {p : α → Bool} {owner : γ} {l : List α} {owners : List γ}
    (h : List.Forall₂ (fun a c => p a → some owner = some c) l owners) (hother : owner ∉ owners) :
    l.countP p = 0 := by
  induction h with
  | nil => rfl
  | @cons a c l owners hfirst _ ih =>
    obtain ⟨hne, hrest⟩ := not_or.1 (mt List.mem_cons.2 hother)
    rw [List.countP_cons_of_neg fun ha => hne (Option.some.inj (hfirst ha)), ih hrest]

theorem countP_le_one_of_owners {p : α → Bool} {owner : Option γ} {l : List α} {owners : List γ}
    (h : List.Forall₂ (fun a c => p a → owner = some c) l owners) (hnodup : owners.Nodup) :
    l.countP p ≤ 1 := by
  induction h with
  | nil => exact Nat.zero_le 1
  | @cons a c l owners hfirst hrest ih =>
    obtain ⟨hc, howners⟩ := List.nodup_cons.1 hnodup
    by_cases ha : p a
    · obtain rfl := hfirst ha
      rw [List.countP_cons_of_pos ha]
      exact Nat.succ_le_succ (Nat.le_of_eq (countP_eq_zero_of_owners hrest hc))
    · rw [List.countP_cons_of_neg ha]
      exact ih howners

theorem findSome?_eq_of_owner {f : α → Option β} {owner : γ} {l : List α} {owners : List γ}
    (h : List.Forall₂ (fun a c => (f a).isSome → some owner = some c) l owners) (hnodup : owners.Nodup)
    {a : α} (hmem : (a, owner) ∈ l.zip owners) : l.findSome? f = f a := by
  induction h with
  | nil => cases hmem
  | @cons b c l owners hfirst hrest ih =>
    obtain ⟨hc, howners⟩ := List.nodup_cons.1 hnodup
    rw [Token.findSome?_cons_eq_or]
    rcases List.mem_cons.1 hmem with heq | hmem
    · obtain ⟨rfl, rfl⟩ := Prod.mk.inj heq
      have hnone := countP_eq_zero_of_owners (p := fun a => (f a).isSome) hrest hc
      have hlater : l.findSome? f = none := by
        simpa using hnone
      rw [hlater, Option.or_none]
    · have hother : f b = none := by
        by_contra hsome
        have howner := Option.some.inj (hfirst (Option.isSome_iff_ne_none.2 hsome))
        exact hc (howner ▸ (List.of_mem_zip hmem).2)
      rw [hother, Option.none_or, ih howners hmem]

theorem findSome?_perm {f : α → Option β} {l l' : List α} (h : l.Perm l')
    (hone : (l.countP fun a => (f a).isSome) ≤ 1) : l.findSome? f = l'.findSome? f := by
  induction h with
  | nil => rfl
  | @cons a l l' _ ih =>
    have hrest : (l.countP fun a => (f a).isSome) ≤ 1 := by
      rw [List.countP_cons] at hone
      omega
    rw [Token.findSome?_cons_eq_or, Token.findSome?_cons_eq_or, ih hrest]
  | swap a b l =>
    simp only [Token.findSome?_cons_eq_or]
    cases ha : f a with
    | none => simp
    | some x =>
      cases hb : f b with
      | none => simp
      | some y =>
        exfalso
        simp [ha, hb] at hone
  | trans hfirst _ ih ih' =>
    rw [ih hone, ih' (hfirst.countP_eq _ ▸ hone)]

end Lists

namespace Vocabulary

/-! ### Words -/

def bytesOf (text : String) : List Nat := text.toByteArray.data.toList.map UInt8.toNat

theorem bytesOf_append (text other : String) : bytesOf (text ++ other) = bytesOf text ++ bytesOf other := by
  simp [bytesOf]

theorem bytesOf_of_cut {name head tail : String} (h : name.toList = head.toList ++ '-' :: tail.toList) :
    bytesOf name = bytesOf head ++ '-'.toNat :: bytesOf tail := by
  have hname : name = head ++ "-" ++ tail := by
    rw [← String.toList_inj, h]
    simp
  have hdash : bytesOf "-" = ['-'.toNat] := by decide
  rw [hname, bytesOf_append, bytesOf_append, hdash, List.append_assoc, List.singleton_append]

/-- Bytes as one number, since numbers are compared at once. -/
def spell (bytes : List Nat) : Nat := bytes.foldr (fun byte number => number * 256 + byte) 0

def isAmong (words : List Nat) (word : Nat) : Bool := words.any word.beq

theorem isAmong_of_mem {words : List Nat} {word : Nat} (h : word ∈ words) : isAmong words word :=
  List.any_eq_true.2 ⟨word, h, Nat.beq_refl word⟩

def isInside (byte : Nat) : Bool := !(byte.beq '-'.toNat || byte.beq '/'.toNat)

def firstWord (bytes : List Nat) : Nat := spell (bytes.takeWhile isInside)

def secondWord (bytes : List Nat) : Nat := firstWord ((bytes.dropWhile isInside).drop 1)

theorem firstWord_append_cons {byte : Nat} (h : isInside byte = false) (before after : List Nat) :
    firstWord (before ++ byte :: after) = firstWord before := by
  rw [firstWord, firstWord, List.takeWhile_append, List.takeWhile_cons_of_neg (by simp [h]),
    List.append_nil]
  split
  · rename_i hlength
    rw [(List.takeWhile_prefix isInside).eq_of_length hlength]
  · rfl

theorem firstWord_append {before : List Nat} (h : '-'.toNat ∈ before) (after : List Nat) :
    firstWord (before ++ after) = firstWord before := by
  obtain ⟨start, rest, rfl⟩ := List.append_of_mem h
  have hdash : isInside '-'.toNat = false := by decide
  rw [List.append_assoc, List.cons_append, firstWord_append_cons hdash, firstWord_append_cons hdash]

theorem secondWord_append {before : List Nat} (h : before.all isInside) (after : List Nat) :
    secondWord (before ++ '-'.toNat :: after) = firstWord after := by
  have hdash : isInside '-'.toNat = false := by decide
  rw [secondWord, List.dropWhile_append_of_pos (List.all_eq_true.1 h),
    List.dropWhile_cons_of_neg (by rw [hdash]; decide)]
  rfl

/-! ### Names that are known as a whole -/

def fixedNames : List String :=
  Keyword.declarations.map Prod.fst ++ Composite.named.map Prod.fst ++ Effect.named.map Prod.fst

def isListed (names : List String) (name : String) : Bool :=
  isAmong (names.map fun other => spell (bytesOf other)) (spell (bytesOf name))

theorem not_mem_of_isListed {names : List String} {name : String} (h : isListed names name = false) :
    name ∉ names := by
  intro hmem
  rw [isListed, isAmong_of_mem (List.mem_map_of_mem hmem)] at h
  cases h

theorem tables_apart :
    (∀ p ∈ Composite.named, isListed (Keyword.declarations.map Prod.fst) p.1 = false) ∧
      ∀ p ∈ Effect.named, isListed (Keyword.declarations.map Prod.fst) p.1 = false ∧
        isListed (Composite.named.map Prod.fst) p.1 = false := by
  decide +kernel

/-! ### The words of the families -/

def beginnings : Strategy → List String
  | .scale => ScaleFamily.named.map Prod.fst
  | .color => ColorFamily.named.map Prod.fst
  | .formula => Formula.named.map Prod.fst
  | .transform => ["translate-x-", "translate-y-", "rotate-", "scale-"]
  | .gradient => ["from", "via", "to"]
  | _ => []

def familyWords : List (Nat × Strategy) :=
  [.scale, .color, .formula, .transform, .gradient].flatMap fun strategy =>
    (beginnings strategy).map fun beginning => (firstWord (bytesOf beginning), strategy)

def wordStrategy? (word : Nat) : Option Strategy :=
  (familyWords.find? fun p => word.beq p.1).map Prod.snd

def colorNames : List String :=
  Palette.semantic ++ Palette.special.map Prod.fst ++ Palette.families.map Prod.fst

def colorWords : List Nat := colorNames.map fun name => firstWord (bytesOf name)

def strategyOf? (name : String) : Option Strategy :=
  if name ∈ Keyword.declarations.map Prod.fst then some .exact
  else if name ∈ Composite.named.map Prod.fst then some .composite
  else if name ∈ Effect.named.map Prod.fst then some .multi
  else if beginsWith "bg-gradient-to-" name then some .gradient
  else wordStrategy? (firstWord (bytesOf name))

theorem wordStrategy?_of_mem : ∀ p ∈ familyWords, wordStrategy? p.1 = some p.2 := by decide

/-- Whether the family to which the first word of a name belongs may read the whole name. -/
def mayRead (name : String) : Strategy → Bool
  | .scale => ((cutLast? '-' name).bind fun p =>
      (ScaleFamily.named.lookup p.1).bind fun family => family.scale.value? p.2).isSome
  | .color => isAmong colorWords (secondWord (bytesOf name))
  | .formula => (Formula.declarations? name).isSome
  | _ => true

def isGradient (name : String) : Bool :=
  (firstWord (bytesOf name)).beq (firstWord (bytesOf "bg")) &&
    (secondWord (bytesOf name)).beq (firstWord (bytesOf "gradient"))

theorem not_read_of_mem_fixedNames : ∀ name ∈ fixedNames,
    ((wordStrategy? (firstWord (bytesOf name))).any (mayRead name) || isGradient name) = false := by
  decide +kernel

theorem words_of_gradient {name : String} (h : beginsWith "bg-gradient-to-" name) :
    firstWord (bytesOf name) = firstWord (bytesOf "bg") ∧
      secondWord (bytesOf name) = firstWord (bytesOf "gradient") := by
  obtain ⟨rest, hrest⟩ := List.isPrefixOf_iff_prefix.1 h
  have hname : name = "bg-gradient-to-" ++ String.ofList rest := by
    rw [← String.toList_inj, ← hrest, String.toList_append]
    exact congrArg _ String.toList_ofList.symm
  have hbytes : bytesOf "bg-gradient-to-" =
      bytesOf "bg" ++ '-'.toNat :: (bytesOf "gradient" ++ '-'.toNat :: bytesOf "to-") := by decide
  have hdash : isInside '-'.toNat = false := by decide
  rw [hname, bytesOf_append, hbytes, List.append_assoc, List.cons_append]
  constructor
  · exact firstWord_append_cons hdash _ _
  · rw [secondWord_append (by decide), List.append_assoc, List.cons_append, firstWord_append_cons hdash]

theorem isGradient_of_beginsWith {name : String} (h : beginsWith "bg-gradient-to-" name) :
    isGradient name := by
  obtain ⟨hfirst, hsecond⟩ := words_of_gradient h
  rw [isGradient, hfirst, hsecond, Nat.beq_refl, Nat.beq_refl, Bool.and_self]

theorem wordStrategy?_beginning {strategy : Strategy} {beginning : String}
    (h : beginning ∈ beginnings strategy) :
    wordStrategy? (firstWord (bytesOf beginning)) = some strategy := by
  have hstrategy : strategy ∈ [Strategy.scale, .color, .formula, .transform, .gradient] := by
    cases strategy with
    | scale | color | formula | transform | gradient => decide
    | arbitrary | exact | composite | multi => cases h
  exact wordStrategy?_of_mem _ (List.mem_flatMap.2 ⟨strategy, hstrategy, List.mem_map_of_mem h⟩)

theorem wordStrategy?_of_cut {name head tail : String} {strategy : Strategy}
    (hname : name.toList = head.toList ++ '-' :: tail.toList) (h : head ∈ beginnings strategy) :
    wordStrategy? (firstWord (bytesOf name)) = some strategy := by
  rw [bytesOf_of_cut hname, firstWord_append_cons (by decide)]
  exact wordStrategy?_beginning h

theorem strategyOf?_of_word {name : String} {strategy : Strategy}
    (hword : wordStrategy? (firstWord (bytesOf name)) = some strategy) (hreads : mayRead name strategy) :
    strategyOf? name = some strategy := by
  have hfixed : name ∉ fixedNames := by
    intro hmem
    have hany := (Bool.or_eq_false_iff.1 (not_read_of_mem_fixedNames name hmem)).1
    rw [hword, Option.any_some, hreads] at hany
    cases hany
  have hgradient : ¬beginsWith "bg-gradient-to-" name := by
    intro hbegins
    obtain ⟨hfirst, hsecond⟩ := words_of_gradient hbegins
    have hcolor : wordStrategy? (firstWord (bytesOf "bg")) = some .color :=
      wordStrategy?_beginning (by decide)
    have hother : isAmong colorWords (firstWord (bytesOf "gradient")) = false := by decide
    rw [hfirst, hcolor] at hword
    obtain rfl := Option.some.inj hword
    rw [mayRead, hsecond, hother] at hreads
    cases hreads
  simp only [fixedNames, List.mem_append, not_or] at hfixed
  rw [strategyOf?, if_neg hfixed.1.1, if_neg hfixed.1.2, if_neg hfixed.2, if_neg hgradient, hword]

/-! ### The words of colors -/

theorem exists_word_of_ofName? {naming : Naming} {name : String} {color : Color}
    (h : Color.ofName? naming name = some color) :
    ∃ word ∈ colorNames, name = word ∨ ∃ ending, name = word ++ "-" ++ ending ∧ '/' ∉ ending.toList := by
  rw [Color.ofName?] at h
  split at h
  · rename_i hsemantic
    have hsurface : Palette.surface name ∈ colorNames :=
      List.mem_append_left _ (List.mem_append_left _ (List.contains_iff_mem.1 hsemantic))
    refine ⟨Palette.surface name, hsurface, ?_⟩
    rcases Color.eq_surface name with hname | hname
    · exact .inl hname
    · refine .inr ⟨"foreground", ?_, by decide⟩
      rw [← String.toList_inj, hname, String.append_assoc, String.toList_append]
      rfl
  · split at h
    · rename_i value hvalue
      have hword := List.mem_map_of_mem (f := Prod.fst) (mem_of_lookup_eq_some hvalue)
      exact ⟨name, List.mem_append_left _ (List.mem_append_right _ hword), .inl rfl⟩
    · simp only [Option.bind_eq_bind, Option.bind_eq_some_iff] at h
      obtain ⟨⟨family, shade⟩, hcut, h⟩ := h
      obtain ⟨value, hvalue, rfl⟩ := Option.map_eq_some_iff.1 h
      simp only [Palette.hex?, Option.bind_eq_bind, Option.bind_eq_some_iff] at hvalue
      obtain ⟨wanted, hwanted, colors, hcolors, -⟩ := hvalue
      have hword := List.mem_map_of_mem (f := Prod.fst) (mem_of_lookup_eq_some hcolors)
      refine ⟨family, List.mem_append_right _ hword, .inr ⟨shade, ?_, fun hslash => ?_⟩⟩
      · rw [← String.toList_inj, (cutLast?_eq_some hcut).1]
        simp
      · exact absurd (isDigit_of_digits? hwanted '/' hslash) (by decide)

theorem firstWord_of_ofName? {naming : Naming} {name : String} {color : Color}
    (h : Color.ofName? naming name = some color) : firstWord (bytesOf name) ∈ colorWords := by
  obtain ⟨word, hword, rfl | ⟨ending, rfl, -⟩⟩ := exists_word_of_ofName? h
  · exact List.mem_map_of_mem hword
  · have hname : (word ++ "-" ++ ending).toList = word.toList ++ '-' :: ending.toList := by simp
    rw [bytesOf_of_cut hname, firstWord_append_cons (by decide)]
    exact List.mem_map_of_mem hword

theorem slash_not_mem_of_ofName? {naming : Naming} {name : String} {color : Color}
    (h : Color.ofName? naming name = some color) : '/' ∉ name.toList := by
  have hwords : ∀ word ∈ colorNames, '/' ∉ word.toList := by decide
  obtain ⟨word, hword, rfl | ⟨ending, rfl, hending⟩⟩ := exists_word_of_ofName? h
  · exact hwords name hword
  · simpa using ⟨hwords word hword, hending⟩

theorem firstWord_of_colorAfter? {naming : Naming} {token : Token} {head rest value : String}
    (hopacity : token.EndsInOpacity) (hcut : cutFirst? '-' token.name = some (head, rest))
    (h : token.colorAfter? naming rest = some value) :
    firstWord (bytesOf rest) ∈ colorWords := by
  rw [Token.colorAfter?_eq] at h
  obtain ⟨color, hcolor, -⟩ := Option.bind_eq_some_iff.1 h
  have hword := firstWord_of_ofName? hcolor
  have hrest := Token.eq_colorIn_append hopacity hcut
  rw [hrest, bytesOf_append]
  cases token.opacity with
  | none =>
    have hempty : bytesOf "" = [] := by decide
    rwa [Option.elim_none, hempty, List.append_nil]
  | some digits =>
    have hslash : bytesOf "/" = ['/'.toNat] := by decide
    rw [Option.elim_some, bytesOf_append, hslash, List.singleton_append,
      firstWord_append_cons (by decide)]
    exact hword

end Vocabulary

/-! ### The families -/

namespace Token
open Vocabulary

variable {naming : Naming} {token : Token} {resolution : Resolution}

theorem strategyOf?_keyword (h : token.keyword? = some resolution) :
    strategyOf? token.name = some .exact := by
  rw [keyword?] at h
  split at h
  · cases h
  · obtain ⟨declarations, hlookup, -⟩ := Option.map_eq_some_iff.1 h
    exact if_pos (List.mem_map_of_mem (mem_of_lookup_eq_some hlookup))

theorem strategyOf?_composite (h : token.composite? = some resolution) :
    strategyOf? token.name = some .composite := by
  rw [composite?] at h
  split at h
  · cases h
  · obtain ⟨composite, hlookup, -⟩ := Option.map_eq_some_iff.1 h
    have hentry := mem_of_lookup_eq_some hlookup
    have hkeyword := not_mem_of_isListed (tables_apart.1 _ hentry)
    rw [strategyOf?, if_neg hkeyword, if_pos (List.mem_map_of_mem hentry)]

theorem strategyOf?_effect (h : token.effect? = some resolution) :
    strategyOf? token.name = some .multi := by
  rw [effect?] at h
  split at h
  · cases h
  · obtain ⟨effect, hlookup, -⟩ := Option.map_eq_some_iff.1 h
    have hentry := mem_of_lookup_eq_some hlookup
    obtain ⟨hkeyword, hcomposite⟩ := tables_apart.2 _ hentry
    rw [strategyOf?, if_neg (not_mem_of_isListed hkeyword), if_neg (not_mem_of_isListed hcomposite),
      if_pos (List.mem_map_of_mem hentry)]

theorem strategyOf?_scaled (h : token.scaled? = some resolution) :
    strategyOf? token.name = some .scale := by
  simp only [scaled?, Option.bind_eq_bind, Option.bind_eq_some_iff] at h
  obtain ⟨⟨head, key⟩, hcut, family, hfamily, positive, hpositive, -⟩ := h
  apply strategyOf?_of_word
  · exact wordStrategy?_of_cut (cutLast?_eq_some hcut).1 (List.mem_map_of_mem (mem_of_lookup_eq_some hfamily))
  · rw [mayRead, hcut, Option.bind_some, hfamily, Option.bind_some, hpositive, Option.isSome_some]

theorem wordStrategy?_colored (h : token.colored? naming = some resolution) :
    wordStrategy? (firstWord (bytesOf token.name)) = some .color := by
  simp only [colored?, Option.bind_eq_bind, Option.bind_eq_some_iff] at h
  obtain ⟨-, -, ⟨head, rest⟩, hcut, family, hfamily, -⟩ := h
  exact wordStrategy?_of_cut (cutFirst?_eq_some hcut).1 (List.mem_map_of_mem (mem_of_lookup_eq_some hfamily))

theorem strategyOf?_colored (hopacity : token.EndsInOpacity)
    (h : token.colored? naming = some resolution) : strategyOf? token.name = some .color := by
  have hinside : ∀ p ∈ ColorFamily.named, (bytesOf p.1).all isInside := by decide
  refine strategyOf?_of_word (wordStrategy?_colored h) ?_
  simp only [colored?, Option.bind_eq_bind, Option.bind_eq_some_iff] at h
  obtain ⟨-, -, ⟨head, rest⟩, hcut, family, hfamily, value, hvalue, -⟩ := h
  rw [mayRead, bytesOf_of_cut (cutFirst?_eq_some hcut).1,
    secondWord_append (hinside _ (mem_of_lookup_eq_some hfamily))]
  exact isAmong_of_mem (firstWord_of_colorAfter? hopacity hcut hvalue)

theorem firstWord_of_argument? {beginning name argument : String} (hdash : '-'.toNat ∈ bytesOf beginning)
    (h : Formula.argument? beginning name = some argument) :
    firstWord (bytesOf name) = firstWord (bytesOf beginning) := by
  obtain ⟨rest, hrest, -⟩ := Option.map_eq_some_iff.1 h
  have hname : name = beginning ++ rest := by
    rw [← String.toList_inj, after?_eq_some hrest, String.toList_append]
  rw [hname, bytesOf_append, firstWord_append hdash]

theorem strategyOf?_formula (h : token.formula? = some resolution) :
    strategyOf? token.name = some .formula := by
  have hdash : ∀ p ∈ Formula.named, '-'.toNat ∈ bytesOf p.1 := by decide
  rw [formula?] at h
  split at h
  · cases h
  · obtain ⟨declarations, hdeclarations, -⟩ := Option.map_eq_some_iff.1 h
    obtain ⟨⟨beginning, property, value?⟩, hentry, hvalue⟩ :=
      List.exists_of_findSome?_eq_some hdeclarations
    obtain ⟨argument, hargument, -⟩ := Option.bind_eq_some_iff.1 hvalue
    apply strategyOf?_of_word
    · rw [firstWord_of_argument? (hdash _ hentry) hargument]
      exact wordStrategy?_beginning (List.mem_map_of_mem hentry)
    · rw [mayRead, hdeclarations, Option.isSome_some]

theorem exists_argument_of_property? {negative : Bool} {name property : String}
    (h : Transform.property? negative name = some property) :
    ∃ beginning ∈ beginnings .transform, ∃ argument,
      Formula.argument? beginning name = some argument := by
  simp only [Transform.property?, Option.orElse_eq_orElse, Option.orElse_eq_or, Option.or_eq_some_iff] at h
  rcases h with h | ⟨-, h | ⟨-, h | ⟨-, h⟩⟩⟩
  · obtain ⟨argument, hargument, -⟩ := Option.bind_eq_some_iff.1 h
    exact ⟨"translate-x-", by decide, argument, hargument⟩
  · obtain ⟨argument, hargument, -⟩ := Option.bind_eq_some_iff.1 h
    exact ⟨"translate-y-", by decide, argument, hargument⟩
  · obtain ⟨argument, hargument, -⟩ := Option.bind_eq_some_iff.1 h
    exact ⟨"rotate-", by decide, argument, hargument⟩
  · obtain ⟨-, -, h⟩ := Option.bind_eq_some_iff.1 h
    obtain ⟨argument, hargument, -⟩ := Option.bind_eq_some_iff.1 h
    exact ⟨"scale-", by decide, argument, hargument⟩

theorem wordStrategy?_transform (h : token.transform? = some resolution) :
    wordStrategy? (firstWord (bytesOf token.name)) = some .transform := by
  have hdash : ∀ beginning ∈ beginnings .transform, '-'.toNat ∈ bytesOf beginning := by decide
  obtain ⟨property, hproperty, -⟩ := Option.map_eq_some_iff.1 h
  obtain ⟨beginning, hbeginning, argument, hargument⟩ := exists_argument_of_property? hproperty
  rw [firstWord_of_argument? (hdash beginning hbeginning) hargument]
  exact wordStrategy?_beginning hbeginning

theorem strategyOf?_transform (h : token.transform? = some resolution) :
    strategyOf? token.name = some .transform :=
  strategyOf?_of_word (wordStrategy?_transform h) rfl

theorem strategyOf?_of_gradient {name : String} (h : beginsWith "bg-gradient-to-" name) :
    strategyOf? name = some .gradient := by
  have hfixed : name ∉ fixedNames := by
    intro hmem
    have hother := (Bool.or_eq_false_iff.1 (not_read_of_mem_fixedNames name hmem)).2
    rw [isGradient_of_beginsWith h] at hother
    cases hother
  simp only [fixedNames, List.mem_append, not_or] at hfixed
  rw [strategyOf?, if_neg hfixed.1.1, if_neg hfixed.1.2, if_neg hfixed.2, if_pos h]

theorem mem_beginnings_of_stop {head : String} {stop : Gradient.Stop}
    (h : Gradient.Stop.ofName? head = some stop) : head ∈ beginnings .gradient := by
  rw [Gradient.Stop.ofName?.eq_def] at h
  split at h
  · exact List.mem_cons_self
  · decide
  · decide
  · cases h

theorem strategyOf?_gradient (h : token.gradient? naming = some resolution) :
    strategyOf? token.name = some .gradient := by
  simp only [gradient?, Option.bind_eq_bind, Option.bind_eq_some_iff] at h
  obtain ⟨-, -, h⟩ := h
  split at h
  · rename_i corner hcorner
    apply strategyOf?_of_gradient
    rw [beginsWith, after?_eq_some hcorner]
    exact List.isPrefixOf_iff_prefix.2 (List.prefix_append _ _)
  · simp only [Option.bind_eq_some_iff] at h
    obtain ⟨⟨head, rest⟩, hcut, stop, hstop, -⟩ := h
    have hword := wordStrategy?_of_cut (cutFirst?_eq_some hcut).1 (mem_beginnings_of_stop hstop)
    exact strategyOf?_of_word hword rfl

theorem owners_families (naming : Naming) (hopacity : token.EndsInOpacity) :
    List.Forall₂ (fun family strategy => (family token).isSome → strategyOf? token.name = some strategy)
      (families naming)
      [.exact, .scale, .color, .composite, .formula, .transform, .gradient, .multi] := by
  have howner {family : Token → Option Resolution} {strategy : Strategy}
      (hfamily : ∀ resolution, family token = some resolution → strategyOf? token.name = some strategy)
      (hsome : (family token).isSome) : strategyOf? token.name = some strategy := by
    obtain ⟨resolution, hresolution⟩ := Option.isSome_iff_exists.1 hsome
    exact hfamily resolution hresolution
  refine .cons (howner fun _ => strategyOf?_keyword) ?_
  refine .cons (howner fun _ => strategyOf?_scaled) ?_
  refine .cons (howner fun _ => strategyOf?_colored hopacity) ?_
  refine .cons (howner fun _ => strategyOf?_composite) ?_
  refine .cons (howner fun _ => strategyOf?_formula) ?_
  refine .cons (howner fun _ => strategyOf?_transform) ?_
  refine .cons (howner fun _ => strategyOf?_gradient) ?_
  exact .cons (howner fun _ => strategyOf?_effect) .nil

theorem resolve?_eq_family (hopacity : token.EndsInOpacity) (harbitrary : token.arbitrary = none)
    {family : Token → Option Resolution} {strategy : Strategy} (hname : strategyOf? token.name = some strategy)
    (hmem : (family, strategy) ∈ (families naming).zip
      [.exact, .scale, .color, .composite, .formula, .transform, .gradient, .multi]) :
    token.resolve? naming = family token := by
  have howners := owners_families naming hopacity
  rw [hname] at howners
  rw [resolve?, harbitrary]
  exact findSome?_eq_of_owner howners (by decide) hmem

theorem resolve?_eq_colored? (hopacity : token.EndsInOpacity) (harbitrary : token.arbitrary = none)
    (hname : strategyOf? token.name = some .color) : token.resolve? naming = token.colored? naming :=
  resolve?_eq_family hopacity harbitrary hname (.tail _ (.tail _ (.head _)))

theorem resolve?_eq_gradient? (hopacity : token.EndsInOpacity) (harbitrary : token.arbitrary = none)
    (hname : strategyOf? token.name = some .gradient) : token.resolve? naming = token.gradient? naming :=
  resolve?_eq_family hopacity harbitrary hname
    (.tail _ (.tail _ (.tail _ (.tail _ (.tail _ (.tail _ (.head _)))))))

theorem strategy_of_unsigned {α : Type} {found : Option α} {make : α → Resolution} {strategy : Strategy}
    {negative : Bool} (h : (if negative then none else found.map make) = some resolution)
    (hmake : ∀ a, (make a).strategy = strategy) : resolution.strategy = strategy := by
  split at h
  · cases h
  · obtain ⟨a, -, rfl⟩ := Option.map_eq_some_iff.1 h
    exact hmake a

theorem strategyOf?_of_resolve? (hopacity : token.EndsInOpacity) (harbitrary : token.arbitrary = none)
    (h : token.resolve? naming = some resolution) : strategyOf? token.name = some resolution.strategy := by
  rw [resolve?, harbitrary] at h
  obtain ⟨family, hfamily, hfound⟩ := List.exists_of_findSome?_eq_some h
  simp only [families, List.mem_cons, List.not_mem_nil, or_false] at hfamily
  rcases hfamily with rfl | rfl | rfl | rfl | rfl | rfl | rfl | rfl
  · have hstrategy : resolution.strategy = .exact := strategy_of_unsigned hfound fun _ => rfl
    rw [strategyOf?_keyword hfound, hstrategy]
  · rw [strategyOf?_scaled hfound, strategy_of_scaled? hfound]
  · rw [strategyOf?_colored hopacity hfound]
    simp only [colored?, Option.bind_eq_bind, Option.bind_eq_some_iff] at hfound
    obtain ⟨-, -, cut, -, family, -, value, -, hfound⟩ := hfound
    rw [← Option.some.inj hfound]
  · have hstrategy : resolution.strategy = .composite := strategy_of_unsigned hfound fun _ => rfl
    rw [strategyOf?_composite hfound, hstrategy]
  · have hstrategy : resolution.strategy = .formula := strategy_of_unsigned hfound fun _ => rfl
    rw [strategyOf?_formula hfound, hstrategy]
  · rw [strategyOf?_transform hfound]
    obtain ⟨property, -, rfl⟩ := Option.map_eq_some_iff.1 hfound
    rfl
  · rw [strategyOf?_gradient hfound]
    simp only [gradient?, Option.bind_eq_bind, Option.bind_eq_some_iff] at hfound
    obtain ⟨-, -, hfound⟩ := hfound
    split at hfound
    · obtain ⟨direction, -, hfound⟩ := Option.bind_eq_some_iff.1 hfound
      rw [← Option.some.inj hfound]
    · simp only [Option.bind_eq_some_iff] at hfound
      obtain ⟨cut, -, stop, -, color, -, hfound⟩ := hfound
      rw [← Option.some.inj hfound]
  · have hstrategy : resolution.strategy = .multi := strategy_of_unsigned hfound fun _ => rfl
    rw [strategyOf?_effect hfound, hstrategy]

/-- At most one family resolves a token without brackets, so that in whatever order the families are tried, the
token is resolved alike. -/
theorem one_family {text : String} (h : ofText? naming text = some token)
    (harbitrary : token.arbitrary = none) :
    ((families naming).countP fun family => (family token).isSome) ≤ 1 ∧
      ∀ order : List (Token → Option Resolution), order.Perm (families naming) →
        (order.findSome? fun family => family token) = token.resolve? naming := by
  obtain ⟨base, hparts⟩ := exists_parts h
  have howners := owners_families naming (hparts.endsInOpacity harbitrary)
  have hone := countP_le_one_of_owners howners (by decide)
  refine ⟨hone, fun order horder => ?_⟩
  have hresolve : token.resolve? naming = (families naming).findSome? fun family => family token := by
    rw [resolve?, harbitrary]
    rfl
  rw [hresolve]
  exact (findSome?_perm horder.symm hone).symm

theorem one_family_animated :
    let token : Token := {
      text := "hover:vibe-text-gradient-animated"
      variants := ["hover"]
      name := "text-gradient-animated" }
    ofText? {} "hover:vibe-text-gradient-animated" = some token ∧ token.arbitrary = none ∧
      ((families {}).countP fun family => (family token).isSome) ≤ 1 ∧
      ((families {}).reverse.findSome? fun family => family token) = token.resolve? {} := by
  intro token
  have htoken : ofText? {} "hover:vibe-text-gradient-animated" = some token := by decide
  obtain ⟨hone, horder⟩ := one_family htoken rfl
  exact ⟨htoken, rfl, hone, horder _ (List.reverse_perm _)⟩

end Token

end UtilityCss
