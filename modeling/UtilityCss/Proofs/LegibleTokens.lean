import UtilityCss.Proofs.CompiledRules

/-!
# Tokens that read alike

Identifiers hold no null characters, so two texts read alike when they agree up to reading a null character as
the replacement character. Two tokens that read alike and resolve are the same token, but for one way: the
class prefix itself holds a null character, and what one token has as its marked prefix, the other has
inside its bracketed value.
-/

namespace UtilityCss.Identifier
open Text

def isClear (c : Char) : Bool := c != '\x00' && c != '\uFFFD'

def Clear (cs : List Char) : Prop := ∀ c ∈ cs, isClear c

theorem legible_eq_iff {c d : Char} (hd : isClear d) : legible c = d ↔ c = d := by
  simp only [isClear, Bool.and_eq_true, bne_iff_ne] at hd
  by_cases hc : c = '\x00'
  · subst hc
    exact ⟨fun h => absurd h.symm hd.2, fun h => absurd h.symm hd.1⟩
  · rw [legible_of_ne hc]

theorem map_legible_of_notMem {cs : List Char} (h : '\x00' ∉ cs) : cs.map legible = cs := by
  rw [List.map_congr_left (g := id), List.map_id]
  intro c hc
  exact legible_of_ne fun heq => h (heq ▸ hc)

theorem Clear.notMem {cs : List Char} (h : Clear cs) : '\x00' ∉ cs :=
  fun hmem => absurd (h _ hmem) (by decide)

theorem Clear.append {a b : List Char} (ha : Clear a) (hb : Clear b) : Clear (a ++ b) :=
  fun c hc => (List.mem_append.1 hc).elim (ha c) (hb c)

theorem eq_of_map_legible {cs ds : List Char} (hclear : Clear cs)
    (h : cs.map legible = ds.map legible) : cs = ds := by
  induction cs generalizing ds with
  | nil => simpa using h.symm
  | cons c cs ih =>
    cases ds with
    | nil => simp at h
    | cons d ds =>
      rw [List.map_cons, List.map_cons, List.cons.injEq] at h
      have hc := hclear c List.mem_cons_self
      have hne : c ≠ '\x00' := fun heq => hclear.notMem (List.mem_cons.2 (Or.inl heq.symm))
      rw [legible_of_ne hne, eq_comm, legible_eq_iff hc] at h
      rw [h.1, ih (fun e he => hclear e (List.mem_cons_of_mem c he)) h.2]

theorem isClear_of_isNamePart {c : Char} (h : isNamePart c) : isClear c := by
  rw [isClear, Bool.and_eq_true, bne_iff_ne, bne_iff_ne]
  constructor <;> rintro rfl <;> exact absurd h (by decide)

theorem clear_of_nameText {s : String} (h : NameText s) : Clear s.toList :=
  fun c hc => isClear_of_isNamePart (h c hc)

theorem clear_of_plain {cs : List Char} (h : Plain cs) : Clear cs := by
  obtain ⟨ending, heq, hending⟩ := exists_eq_withoutFinalNewline_append cs
  rw [heq]
  refine Clear.append (fun c hc => isClear_of_isNamePart (h c hc)) ?_
  intro c hc
  rcases hending with rfl | rfl
  · cases hc
  · obtain rfl := List.mem_singleton.1 hc
    decide

def EndsInBracket (cs : List Char) : Prop := (withoutFinalNewline cs).getLast? = some ']'

theorem withoutFinalNewline_map_legible (cs : List Char) :
    withoutFinalNewline (cs.map legible) = (withoutFinalNewline cs).map legible := by
  fun_induction withoutFinalNewline cs with
  | case1 => rfl
  | case2 => rfl
  | case3 c cs hlast ih =>
    rw [List.map_cons, withoutFinalNewline, ih, List.map_cons]
    intro hc hcs
    exact hlast ((legible_eq_iff (by decide)).1 hc) (by simpa using hcs)

theorem endsInBracket_map_legible {cs : List Char} :
    EndsInBracket (cs.map legible) ↔ EndsInBracket cs := by
  rw [EndsInBracket, EndsInBracket, withoutFinalNewline_map_legible, List.getLast?_map,
    Option.map_eq_some_iff]
  constructor
  · rintro ⟨c, hlast, hc⟩
    rw [hlast, (legible_eq_iff (by decide)).1 hc]
  · intro hlast
    exact ⟨']', hlast, rfl⟩

end UtilityCss.Identifier

namespace UtilityCss.Token
open Text Identifier

theorem segmentsAt_map_legible (depth : Nat) (cs : List Char) :
    segmentsAt depth (cs.map legible) = (segmentsAt depth cs).map (List.map legible) := by
  have hcolon (c : Char) : legible c = ':' ↔ c = ':' := legible_eq_iff (by decide)
  have hopen (c : Char) : legible c = '[' ↔ c = '[' := legible_eq_iff (by decide)
  have hclose (c : Char) : legible c = ']' ↔ c = ']' := legible_eq_iff (by decide)
  induction cs generalizing depth with
  | nil => rfl
  | cons c cs ih =>
    have hdepth : depthAfter depth (legible c) = depthAfter depth c := by
      simp only [depthAfter, hopen, hclose]
    rw [List.map_cons, segmentsAt, segmentsAt]
    simp only [hcolon, hdepth, ih]
    split
    · rfl
    · cases hcs : segmentsAt (depthAfter depth c) cs with
      | nil => exact absurd hcs (segmentsAt_ne_nil _ _)
      | cons part parts => rfl

variable {naming : Naming} {text other base base' : String} {token token' : Token}

theorem Parts.clear_variants (h : Parts naming text token base) :
    ∀ variant ∈ token.variants, Clear variant.toList := by
  intro name hname
  obtain ⟨variant, hvariant⟩ := Option.isSome_iff_exists.1 (h.variants name hname)
  exact clear_of_nameText (Selector.fits_of_ofName? hvariant).1

theorem eq_of_map_map_legible {names others : List String} (hclear : ∀ s ∈ names, Clear s.toList)
    (h : names.map (fun s => s.toList.map legible) = others.map (fun s => s.toList.map legible)) :
    names = others := by
  induction names generalizing others with
  | nil => simpa using h.symm
  | cons s names ih =>
    cases others with
    | nil => simp at h
    | cons t others =>
      rw [List.map_cons, List.map_cons, List.cons.injEq] at h
      have hhead := eq_of_map_legible (hclear s List.mem_cons_self) h.1
      have htail := ih (fun u hu => hclear u (List.mem_cons_of_mem s hu)) h.2
      rw [String.toList_inj.1 hhead, htail]

theorem parts_of_legible_eq (h : Parts naming text token base) (h' : Parts naming other token' base')
    (heq : text.toList.map legible = other.toList.map legible) :
    token.variants = token'.variants ∧
      base.toList.map legible = base'.toList.map legible ∧ (base = base' → text = other) := by
  have hsegments := congrArg (segmentsAt 0) heq
  rw [segmentsAt_map_legible, segmentsAt_map_legible, h.segmentsAt_eq, h'.segmentsAt_eq,
    List.map_append, List.map_append] at hsegments
  have hvariants := List.append_inj_left' hsegments rfl
  have hbases := List.append_inj_right' hsegments rfl
  rw [List.map_map, List.map_map] at hvariants
  have hnames := eq_of_map_map_legible h.clear_variants hvariants
  refine ⟨hnames, by simpa using hbases, fun hbase => ?_⟩
  rw [← String.toList_inj, h.toList_eq, h'.toList_eq, hbase, hnames]

theorem front_cases {negative : Bool} {front : List Char} (h : Front naming negative front) :
    (front = [] ∨ front = ['-']) ∨
      (∃ sign, (sign = [] ∨ sign = ['-']) ∧ front = naming.marker.toList ++ sign) ∨
        front = '-' :: naming.marker.toList := by
  cases h with
  | plain => exact Or.inl (Or.inl rfl)
  | minus => exact Or.inl (Or.inr rfl)
  | marked => exact Or.inr (Or.inl ⟨[], Or.inl rfl, (List.append_nil _).symm⟩)
  | markedMinus => exact Or.inr (Or.inl ⟨['-'], Or.inr rfl, rfl⟩)
  | minusMarked => exact Or.inr (Or.inr rfl)

theorem clear_sign {sign : List Char} (h : sign = [] ∨ sign = ['-']) : Clear sign := by
  intro c hc
  rcases h with rfl | rfl
  · cases hc
  · obtain rfl := List.mem_singleton.1 hc
    decide

/-- How the base of a token is spelled when its name holds nothing but clear characters. -/
inductive Spelling (marker : List Char) : List Char → Prop
  | clear {base : List Char} (h : Clear base) : Spelling marker base
  | marked {rest : List Char} (h : Clear rest) : Spelling marker (marker ++ rest)
  | minusMarked {rest : List Char} (h : Clear rest) : Spelling marker ('-' :: (marker ++ rest))

theorem Parts.spelling (h : Parts naming text token base) (hname : Clear token.name.toList) :
    Spelling naming.marker.toList base.toList := by
  obtain ⟨front, hfront, hbase⟩ := exists_front h.name_eq
  rw [hbase]
  rcases front_cases hfront with hsign | ⟨sign, hsign, rfl⟩ | rfl
  · exact .clear ((clear_sign hsign).append hname)
  · rw [List.append_assoc]
    exact .marked ((clear_sign hsign).append hname)
  · exact .minusMarked hname

theorem eq_of_append_eq_cons_append {α : Type} {a : α} {l x y : List α}
    (h : l ++ x = a :: (l ++ y)) : ∀ b ∈ l, b = a := by
  induction l with
  | nil => exact List.forall_mem_nil _
  | cons c l ih =>
    rw [List.cons_append, List.cons_append, List.cons.injEq] at h
    obtain ⟨rfl, h⟩ := h
    exact List.forall_mem_cons.2 ⟨rfl, ih h⟩

theorem clear_of_marked_eq_minusMarked {marker rest rest' : List Char}
    (h : (marker ++ rest).map legible = ('-' :: (marker ++ rest')).map legible) : Clear marker := by
  rw [List.map_cons, List.map_append, List.map_append] at h
  have hdashes := eq_of_append_eq_cons_append (l := marker.map legible) h
  intro c hc
  have hc' := hdashes (legible c) (List.mem_map_of_mem hc)
  obtain rfl := (legible_eq_iff (d := '-') (by decide)).1 hc'
  decide

theorem Spelling.eq_of_legible_eq {marker cs ds : List Char} (h : Spelling marker cs)
    (h' : Spelling marker ds) (heq : cs.map legible = ds.map legible) : cs = ds := by
  cases h with
  | clear h => exact eq_of_map_legible h heq
  | marked h =>
    cases h' with
    | clear h' => exact (eq_of_map_legible h' heq.symm).symm
    | marked h' =>
      rw [List.map_append, List.map_append] at heq
      rw [eq_of_map_legible h (List.append_cancel_left heq)]
    | minusMarked h' =>
      exact eq_of_map_legible ((clear_of_marked_eq_minusMarked heq).append h) heq
  | minusMarked h =>
    cases h' with
    | clear h' => exact (eq_of_map_legible h' heq.symm).symm
    | marked h' =>
      have hclear := (clear_of_marked_eq_minusMarked heq.symm).append h'
      exact (eq_of_map_legible hclear heq.symm).symm
    | minusMarked h' =>
      rw [List.map_cons, List.map_cons, List.map_append, List.map_append, List.cons.injEq] at heq
      rw [eq_of_map_legible h (List.append_cancel_left heq.2)]

variable {resolution resolution' : Resolution} {key value : String}

theorem front_getLast? {negative : Bool} {front : List Char} (h : Front naming negative front) :
    ∀ c ∈ front.getLast?, c = '-' := by
  intro c hc
  cases h with
  | plain => cases hc
  | minus => exact (Option.some.inj hc).symm
  | marked => simpa [Naming.marker] using hc.symm
  | markedMinus => simpa [Naming.marker] using hc.symm
  | minusMarked =>
    rw [Naming.marker, String.toList_append, ← List.cons_append, List.getLast?_append] at hc
    exact (Option.some.inj hc).symm

theorem Parts.not_endsInBracket (h : Parts naming text token base)
    (hname : Plain token.name.toList) : ¬EndsInBracket base.toList := by
  obtain ⟨front, hfront, hbase⟩ := exists_front h.name_eq
  have hlast := front_getLast? hfront
  have hne : token.name.toList ≠ [] := by simpa using h.name_ne
  obtain ⟨c, cs, hcs⟩ := List.exists_cons_of_ne_nil hne
  intro hend
  rw [EndsInBracket, hbase, hcs, withoutFinalNewline_append_cons, ← hcs, List.getLast?_append] at hend
  cases hname' : (withoutFinalNewline token.name.toList).getLast? with
  | none =>
    rw [hname', Option.none_or] at hend
    exact absurd (hlast _ hend) (by decide)
  | some d =>
    rw [hname', Option.some_or, Option.some.injEq] at hend
    have hpart := hname d (List.mem_of_getLast? hname')
    rw [hend] at hpart
    exact absurd hpart (by decide)

theorem endsInBracket_append {before ending : List Char} (h : ending = [] ∨ ending = ['\n']) :
    EndsInBracket (before ++ ']' :: ending) := by
  rw [EndsInBracket, withoutFinalNewline_append_cons]
  rcases h with rfl | rfl
  · simp [withoutFinalNewline]
  · simp [withoutFinalNewline]

theorem Parts.endsInBracket (h : Parts naming text token base)
    (harbitrary : token.arbitrary = some (key, value)) : EndsInBracket base.toList := by
  obtain ⟨front, -, hbase⟩ := exists_front h.name_eq
  obtain ⟨ending, hname, hending⟩ := h.bracketed_name harbitrary
  rw [hbase, hname, ← List.append_assoc]
  exact endsInBracket_append hending

theorem Parts.notMem_name (h : Parts naming text token base)
    (harbitrary : token.arbitrary = some (key, value))
    (hb : Bracketing token resolution key value) : '\x00' ∉ token.name.toList := by
  obtain ⟨ending, hname, hending⟩ := h.bracketed_name harbitrary
  have hkey := (clear_of_nameText hb.key).notMem
  have hvalue := Bracketed.not_mem_of_isAllowed hb.allowed (c := '\x00') (by decide)
  have hend : '\x00' ∉ ending := by rcases hending with rfl | rfl <;> decide
  rw [hname]
  simp [hkey, hvalue, hend]

theorem Parts.bracketed_front (h : Parts naming text token base)
    (hb : Bracketing token resolution key value) :
    (base = token.name ∧ (naming.classPrefix = "" ∨ naming.permissive)) ∨
      (base.toList = naming.marker.toList ++ token.name.toList ∧ naming.classPrefix ≠ "") := by
  obtain ⟨front, hfront, hbase⟩ := exists_front h.name_eq
  have hpositive := hb.positive
  generalize token.negative = negative at hfront hpositive
  subst hpositive
  cases hfront with
  | plain h => exact Or.inl ⟨String.toList_inj.1 hbase, h⟩
  | marked h => exact Or.inr ⟨hbase, h⟩

/-- Two bracketed tokens, the class prefix of the first standing inside the value of the second. -/
structure Mirrored (naming : Naming) (token token' : Token) (resolution resolution' : Resolution) :
    Prop where
  permissive : naming.permissive
  null : '\x00' ∈ naming.classPrefix.toList
  bracketings : ∃ key value key' value', Bracketing token resolution key value ∧
    Bracketing token' resolution' key' value' ∧ value.length < value'.length

theorem length_lt_of_append_eq_append {α : Type} {a : α} {x y z w : List α} (h : x ++ y = z ++ w)
    (hx : a ∈ x) (hz : a ∉ z) : z.length < x.length := by
  by_contra hle
  have hpre : x <+: z := List.prefix_of_prefix_length_le (List.prefix_append x y)
    (h ▸ List.prefix_append z w) (Nat.le_of_not_lt hle)
  exact hz (hpre.subset hx)

theorem length_lt_of_bracketed_eq {before key value ending key' value' ending' : List Char}
    (h : before ++ '-' :: (key ++ '-' :: '[' :: value ++ ']' :: ending) =
      key' ++ '-' :: '[' :: value' ++ ']' :: ending')
    (hbefore : '\uFFFD' ∈ before) (hkey : Clear key') (hending : ending = [] ∨ ending = ['\n'])
    (hending' : ending' = [] ∨ ending' = ['\n']) : value.length < value'.length := by
  have hopening : '\uFFFD' ∉ key' ++ ['-', '['] := by
    intro hmem
    rcases List.mem_append.1 hmem with hmem | hmem
    · exact absurd (hkey _ hmem) (by decide)
    · exact absurd hmem (by decide)
  have hsplit : before ++ '-' :: (key ++ '-' :: '[' :: value ++ ']' :: ending) =
      (key' ++ ['-', '[']) ++ (value' ++ ']' :: ending') := by
    rw [h]
    simp
  have hlength := length_lt_of_append_eq_append hsplit hbefore hopening
  have htotal := congrArg List.length hsplit
  simp only [List.length_append, List.length_cons, List.length_nil] at hlength htotal
  have hone : ending.length ≤ 1 := by rcases hending with rfl | rfl <;> simp
  have hone' : ending'.length ≤ 1 := by rcases hending' with rfl | rfl <;> simp
  omega

theorem null_mem_of_marked (hname : '\x00' ∉ token.name.toList) (hplain : '\x00' ∉ base'.toList)
    (hmarked : base.toList = naming.marker.toList ++ token.name.toList)
    (hlegible : base.toList.map legible = base'.toList.map legible) (hne : base ≠ base') :
    '\x00' ∈ naming.classPrefix.toList := by
  by_contra hnull
  have hbase : '\x00' ∉ base.toList := by
    rw [hmarked]
    simp [Naming.marker, hnull, hname]
  rw [map_legible_of_notMem hbase, map_legible_of_notMem hplain] at hlegible
  exact hne (String.toList_inj.1 hlegible)

theorem mirrored_of_marked {key' value' : String} (h : Parts naming text token base)
    (h' : Parts naming other token' base') (harbitrary : token.arbitrary = some (key, value))
    (harbitrary' : token'.arbitrary = some (key', value'))
    (hb : Bracketing token resolution key value) (hb' : Bracketing token' resolution' key' value')
    (hmarked : base.toList = naming.marker.toList ++ token.name.toList)
    (hpre : naming.classPrefix ≠ "") (hplain : base' = token'.name)
    (hnaming : naming.classPrefix = "" ∨ naming.permissive)
    (hlegible : base.toList.map legible = base'.toList.map legible) (hne : base ≠ base') :
    Mirrored naming token token' resolution resolution' := by
  have hname := h.notMem_name harbitrary hb
  have hname' := h'.notMem_name harbitrary' hb'
  have hnull := null_mem_of_marked hname (by rwa [hplain]) hmarked hlegible hne
  obtain ⟨ending, heq, hending⟩ := h.bracketed_name harbitrary
  obtain ⟨ending', heq', hending'⟩ := h'.bracketed_name harbitrary'
  -- The prefix reads as a part of the value of the other token, which is longer for that.
  have hsplit : naming.classPrefix.toList.map legible ++
      '-' :: (key.toList ++ '-' :: '[' :: value.toList ++ ']' :: ending) =
        key'.toList ++ '-' :: '[' :: value'.toList ++ ']' :: ending' := by
    rw [hmarked, hplain, map_legible_of_notMem hname', List.map_append,
      map_legible_of_notMem hname, heq, heq'] at hlegible
    simpa [Naming.marker, legible] using hlegible
  have hlength := length_lt_of_bracketed_eq hsplit (List.mem_map_of_mem (f := legible) hnull)
    (clear_of_nameText hb'.key) hending hending'
  exact {
    permissive := hnaming.resolve_left hpre
    null := hnull
    bracketings := ⟨key, value, key', value', hb, hb', by simpa only [String.length_toList] using hlength⟩ }

theorem mirrored_of_legible_eq (h : Parts naming text token base)
    (h' : Parts naming other token' base') (hresolve : token.resolve? naming = some resolution)
    (hresolve' : token'.resolve? naming = some resolution') (hne : text ≠ other)
    (hlegible : text.toList.map legible = other.toList.map legible) :
    Mirrored naming token token' resolution resolution' ∨
      Mirrored naming token' token resolution' resolution := by
  obtain ⟨-, hbases, hsame⟩ := parts_of_legible_eq h h' hlegible
  have hbase : base ≠ base' := fun heq => hne (hsame heq)
  have hbracket : EndsInBracket base.toList ↔ EndsInBracket base'.toList := by
    rw [← endsInBracket_map_legible, hbases, endsInBracket_map_legible]
  rcases known_or_bracketing h hresolve with ⟨-, hknown⟩ | ⟨key, value, harbitrary, hb⟩
  · rcases known_or_bracketing h' hresolve' with ⟨-, hknown'⟩ | ⟨key', value', harbitrary', hb'⟩
    · have hspelling := h.spelling (clear_of_plain hknown.name)
      have hspelling' := h'.spelling (clear_of_plain hknown'.name)
      exact absurd (String.toList_inj.1 (hspelling.eq_of_legible_eq hspelling' hbases)) hbase
    · exact absurd (hbracket.2 (h'.endsInBracket harbitrary')) (h.not_endsInBracket hknown.name)
  · rcases known_or_bracketing h' hresolve' with ⟨-, hknown'⟩ | ⟨key', value', harbitrary', hb'⟩
    · exact absurd (hbracket.1 (h.endsInBracket harbitrary)) (h'.not_endsInBracket hknown'.name)
    · have hname := h.notMem_name harbitrary hb
      have hname' := h'.notMem_name harbitrary' hb'
      rcases h.bracketed_front hb with ⟨hplain, hnaming⟩ | ⟨hmarked, hpre⟩
      · rcases h'.bracketed_front hb' with ⟨hplain', -⟩ | ⟨hmarked', hpre'⟩
        · rw [hplain, hplain', map_legible_of_notMem hname, map_legible_of_notMem hname',
            ← hplain, ← hplain'] at hbases
          exact absurd (String.toList_inj.1 hbases) hbase
        · exact Or.inr (mirrored_of_marked h' h harbitrary' harbitrary hb' hb hmarked' hpre'
            hplain hnaming hbases.symm hbase.symm)
      · rcases h'.bracketed_front hb' with ⟨hplain', hnaming'⟩ | ⟨hmarked', -⟩
        · exact Or.inl (mirrored_of_marked h h' harbitrary harbitrary' hb hb' hmarked hpre
            hplain' hnaming' hbases hbase)
        · rw [hmarked, hmarked', List.map_append, List.map_append] at hbases
          have hnames := List.append_cancel_left hbases
          rw [map_legible_of_notMem hname, map_legible_of_notMem hname'] at hnames
          rw [hnames, ← hmarked'] at hmarked
          exact absurd (String.toList_inj.1 hmarked) hbase

end UtilityCss.Token
