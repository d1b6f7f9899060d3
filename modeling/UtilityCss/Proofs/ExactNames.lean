import UtilityCss.Proofs.CompiledRules

/-!
# What follows a name

A recognized token is what the grammar of tokens says and nothing more, but for one line feed: where a name is
read by a pattern, the pattern also ends before a line feed at the end of the text. Everything else in a token
is known letter by letter, so that white space has no other place in it.
-/

namespace UtilityCss
open Text

theorem Text.isBlank_of_isNamePart {c : Char} (h : isNamePart c) : isBlank c = false := by
  have hrange : 45 ≤ c.toNat ∧ c.toNat ≤ 122 := by
    simp only [isNamePart, Bool.or_eq_true, beq_iff_eq, isLower_iff, isDigit_iff] at h
    rcases h with (((h | h) | rfl) | rfl) | rfl
    · omega
    · omega
    all_goals decide
  simp [isBlank]
  omega

namespace Token

variable {naming : Naming} {text base : String} {token : Token} {resolution : Resolution}

/-- Nothing follows the bracket of a bracketed name, and in any other token there is no white space. -/
def Exact (token : Token) : Prop :=
  match token.arbitrary with
  | some (key, value) => token.name = key ++ "-[" ++ value ++ "]"
  | none => ∀ c ∈ token.text.toList, isBlank c = false

theorem Front.isBlank_eq_false {negative : Bool} {front : List Char} (h : Front naming negative front)
    (hclass : ∀ c ∈ naming.classPrefix.toList, isBlank c = false) :
    ∀ c ∈ front, isBlank c = false := by
  have hminus : ∀ c ∈ ['-'], isBlank c = false := List.forall_mem_singleton.2 (by decide)
  have hmarker : ∀ c ∈ naming.marker.toList, isBlank c = false := by
    rw [Naming.marker, String.toList_append]
    exact List.forall_mem_append.2 ⟨hclass, hminus⟩
  cases h with
  | plain => exact List.forall_mem_nil _
  | minus => exact hminus
  | marked => exact hmarker
  | markedMinus => exact List.forall_mem_append.2 ⟨hmarker, hminus⟩
  | minusMarked => exact List.forall_mem_cons.2 ⟨rfl, hmarker⟩

theorem exists_before_last {variants : List String} (h : ∀ variant ∈ variants, Variant.isName variant)
    (base : List Char) : ∃ before, [':'].intercalate (variants.map String.toList ++ [base]) = before ++ base ∧
      ∀ c ∈ before, isBlank c = false := by
  induction variants with
  | nil => exact ⟨[], by simp, List.forall_mem_nil _⟩
  | cons variant variants ih =>
    obtain ⟨before, hbase, hbefore⟩ := ih fun v hv => h v (List.mem_cons_of_mem variant hv)
    obtain ⟨known, hknown⟩ := Option.isSome_iff_exists.1 (h variant List.mem_cons_self)
    have hvariant : ∀ c ∈ variant.toList, isBlank c = false :=
      fun c hc => isBlank_of_isNamePart ((Selector.fits_of_ofName? hknown).1 c hc)
    refine ⟨variant.toList ++ ':' :: before, ?_, ?_⟩
    · obtain ⟨part, parts, hparts⟩ :=
        List.exists_cons_of_ne_nil (List.append_ne_nil_of_right_ne_nil (variants.map String.toList)
          (List.cons_ne_nil base []))
      rw [List.map_cons, List.cons_append, hparts, List.intercalate_cons_cons, ← hparts, hbase]
      simp
    · exact List.forall_mem_append.2 ⟨hvariant, List.forall_mem_cons.2 ⟨rfl, hbefore⟩⟩

theorem Parts.exists_before_name (h : Parts naming text token base)
    (hclass : ∀ c ∈ naming.classPrefix.toList, isBlank c = false) :
    ∃ before, text.toList = before ++ token.name.toList ∧ ∀ c ∈ before, isBlank c = false := by
  obtain ⟨front, hfront, hbase⟩ := exists_front h.name_eq
  obtain ⟨before, htext, hbefore⟩ := exists_before_last h.variants base.toList
  refine ⟨before ++ front, ?_, ?_⟩
  · rw [h.toList_eq, htext, hbase, List.append_assoc]
  · exact List.forall_mem_append.2 ⟨hbefore, hfront.isBlank_eq_false hclass⟩

def patterned : List Strategy := [.arbitrary, .scale, .formula, .transform]

/-- What follows a name: nothing, or a line feed behind a pattern. -/
def MayFollow (ending : String) (strategy : Strategy) : Prop :=
  ending = "" ∨ ending = "\n" ∧ strategy ∈ patterned

theorem MayFollow.eq_empty_iff {ending stem : String} {strategy : Strategy} (h : MayFollow ending strategy)
    (hstem : stem.toList.getLast? ≠ some '\n') :
    ending = "" ↔ (stem ++ ending).toList.getLast? ≠ some '\n' := by
  rcases h with rfl | ⟨rfl, -⟩
  · simpa using hstem
  · simp

theorem Known.exists_ending (h : Known naming token resolution) :
    ∃ stem ending, MayFollow ending resolution.strategy ∧ token.name = stem ++ ending ∧ NameText stem := by
  obtain ⟨ending, hname, hending⟩ := exists_eq_withoutFinalNewline_append token.name.toList
  refine ⟨String.ofList (withoutFinalNewline token.name.toList), String.ofList ending, ?_, ?_, ?_⟩
  · rcases hending with rfl | rfl
    · exact .inl rfl
    · refine .inr ⟨rfl, ?_⟩
      rcases h.unbroken with hstrategy | hwritten
      · exact List.mem_cons_of_mem _ hstrategy
      · have hline : '\n' ∈ token.name.toList := by
          rw [hname]
          simp
        exact absurd (hwritten _ hline) (by decide)
  · rw [← String.toList_inj, String.toList_append, String.toList_ofList, String.toList_ofList, ← hname]
  · intro c hc
    rw [String.toList_ofList] at hc
    exact h.name c hc

theorem Bracketing.exists_ending {key value : String} (h : Bracketing token resolution key value)
    (hparts : Parts naming text token base) (harbitrary : token.arbitrary = some (key, value)) :
    ∃ ending, MayFollow ending resolution.strategy ∧ token.name = key ++ "-[" ++ value ++ "]" ++ ending := by
  obtain ⟨ending, hname, hending⟩ := hparts.bracketed_name harbitrary
  obtain ⟨properties, -, -, rfl⟩ := h.resolution
  refine ⟨String.ofList ending, ?_, ?_⟩
  · rcases hending with rfl | rfl
    · exact .inl rfl
    · exact .inr ⟨rfl, List.mem_cons_self⟩
  · rw [← String.toList_inj, hname]
    simp

end Token

namespace Naming
open Token

variable {naming : Naming} {text : String}

/-- Nothing but one line feed ever follows a name, and only where a pattern reads the name. A token is exactly
what the grammar says when it does not end in a line feed. -/
theorem exact_iff (hclass : ∀ c ∈ naming.classPrefix.toList, isBlank c = false)
    (h : naming.recognizes text) :
    ∃ token resolution ending, Token.ofText? naming text = some token ∧
      token.resolve? naming = some resolution ∧ MayFollow ending resolution.strategy ∧
      (match token.arbitrary with
        | some (key, value) => token.name = key ++ "-[" ++ value ++ "]" ++ ending
        | none => ∃ stem, text = stem ++ ending ∧ ∀ c ∈ stem.toList, isBlank c = false) ∧
      (token.Exact ↔ ending = "") ∧ (ending = "" ↔ text.toList.getLast? ≠ some '\n') := by
  obtain ⟨own, hown⟩ := Option.isSome_iff_exists.1 h
  obtain ⟨token, base, resolution, hparts, hresolve, -⟩ :=
    exists_resolution (List.mem_of_find?_eq_some hown)
  obtain ⟨before, htext, hbefore⟩ := hparts.exists_before_name hclass
  rcases known_or_bracketing hparts hresolve with ⟨hnone, hknown⟩ | ⟨key, value, harbitrary, hb⟩
  · obtain ⟨stem, ending, hending, hname, hstem⟩ := hknown.exists_ending
    have hwhole : text = String.ofList before ++ stem ++ ending := by
      rw [← String.toList_inj, htext, hname]
      simp
    have hclear : ∀ c ∈ (String.ofList before ++ stem).toList, isBlank c = false := by
      rw [String.toList_append, String.toList_ofList]
      exact List.forall_mem_append.2 ⟨hbefore, fun c hc => isBlank_of_isNamePart (hstem c hc)⟩
    have hlast : (String.ofList before ++ stem).toList.getLast? ≠ some '\n' :=
      fun hline => absurd (hclear _ (List.mem_of_getLast? hline)) (by decide)
    refine ⟨token, resolution, ending, hparts.ofText?_eq, hresolve, hending, ?_, ?_, ?_⟩
    · rw [hnone]
      exact ⟨_, hwhole, hclear⟩
    · rw [Exact, hnone, hparts.text_eq, hwhole, String.toList_append]
      rcases hending with rfl | ⟨rfl, -⟩
      · simpa using hclear
      · refine iff_of_false (fun hall => ?_) (by decide)
        exact absurd (hall '\n' (List.mem_append_right _ List.mem_cons_self)) (by decide)
    · rw [hwhole]
      exact hending.eq_empty_iff hlast
  · obtain ⟨ending, hending, hname⟩ := hb.exists_ending hparts harbitrary
    have hwhole : text = String.ofList before ++ (key ++ "-[" ++ value ++ "]") ++ ending := by
      rw [← String.toList_inj, htext, hname]
      simp
    have hlast : (String.ofList before ++ (key ++ "-[" ++ value ++ "]")).toList.getLast? ≠ some '\n' := by
      have hbracket : "]".toList.getLast? = some ']' := by decide
      rw [← String.append_assoc, String.toList_append, List.getLast?_append, hbracket, Option.some_or]
      decide
    refine ⟨token, resolution, ending, hparts.ofText?_eq, hresolve, hending, ?_, ?_, ?_⟩
    · rw [harbitrary]
      exact hname
    · rw [Exact, harbitrary, hname]
      simp only [← String.toList_inj, String.toList_append]
      simp
    · rw [hwhole]
      exact hending.eq_empty_iff hlast

theorem exact_iff_fraction :
    let naming : Naming := { classPrefix := "my-app" }
    let text := "hover:my-app-w-1/2\n"
    naming.recognizes text ∧
    ∃ token resolution ending, Token.ofText? naming text = some token ∧
      token.resolve? naming = some resolution ∧ MayFollow ending resolution.strategy ∧
      (match token.arbitrary with
        | some (key, value) => token.name = key ++ "-[" ++ value ++ "]" ++ ending
        | none => ∃ stem, text = stem ++ ending ∧ ∀ c ∈ stem.toList, isBlank c = false) ∧
      (token.Exact ↔ ending = "") ∧ (ending = "" ↔ text.toList.getLast? ≠ some '\n') := by
  intro naming text
  have hrecognized : naming.recognizes text := by decide
  have hclass : (naming.classPrefix.toList.all fun c => !isBlank c) = true := by decide
  exact ⟨hrecognized, exact_iff (by simpa using hclass) hrecognized⟩

/-- Two recognized tokens that go on behind their names, one without a bracketed value and one with. -/
theorem recognized_not_exact :
    (recognizes {} "vibe-order-1\n" ∧
      ∃ token, Token.ofText? {} "vibe-order-1\n" = some token ∧ ¬token.Exact) ∧
    (recognizes {} "vibe-w-[3px]\n" ∧
      ∃ token, Token.ofText? {} "vibe-w-[3px]\n" = some token ∧ ¬token.Exact) := by
  have hformula : Token.ofText? {} "vibe-order-1\n" =
      some { text := "vibe-order-1\n", variants := [], name := "order-1\n" } := by decide
  have hbracketed : Token.ofText? {} "vibe-w-[3px]\n" = some {
      text := "vibe-w-[3px]\n", variants := [], name := "w-[3px]\n", arbitrary := some ("w", "3px") } := by
    decide
  refine ⟨⟨by decide, _, hformula, ?_⟩, ⟨by decide, _, hbracketed, ?_⟩⟩
  · simp [Exact, isBlank]
  · simp [Exact]

end Naming

end UtilityCss
