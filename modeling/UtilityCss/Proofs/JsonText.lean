import Mathlib.Data.List.TakeWhile
import Mathlib.Tactic.IntervalCases
import UtilityCss.Log.Record
import UtilityCss.Proofs.PlainNumbers

/-!
# JSON text is read back

A value made of nulls, truth values, integers, texts, lists and mappings with texts as keys is written as JSON
without control characters, unless a number in it is too long, and reading the text gives the value back. So a log
record has no line feed in it, and neither its message nor its data lose anything.
-/

namespace UtilityCss.Json
open Text

variable {c d : Char} {cs rest : List Char}

/-! ### Texts -/

theorem le_toNat_digitChar {n : Nat} (h : n < 16) : 48 ≤ (Nat.digitChar n).toNat := by
  interval_cases n <;> decide

theorem hexValue?_hexDigit : ∀ n < 16, hexValue? (hexDigit n) = some n := by decide

theorem escaped?_control (h : c.toNat < 32) (rest : List Char) :
    escaped? ('u' :: '0' :: '0' :: hexDigit (c.toNat / 16) :: hexDigit (c.toNat % 16) :: rest) = some (c, rest) := by
  have hhigh := hexValue?_hexDigit (c.toNat / 16) (by omega)
  have hlow := hexValue?_hexDigit (c.toNat % 16) (by omega)
  have hzero : hexValue? '0' = some 0 := rfl
  have hunit : unit? ('0' :: '0' :: hexDigit (c.toNat / 16) :: hexDigit (c.toNat % 16) :: rest) =
      some (c.toNat, rest) := by
    simp only [unit?, hzero, hhigh, hlow, Option.bind_eq_bind, Option.bind_some, Option.some.injEq, Prod.mk.injEq,
      and_true]
    omega
  rw [escaped?, unicode?, hunit, Option.bind_eq_bind, Option.bind_some]
  dsimp only
  rw [if_neg (by omega), Char.ofNat_toNat]

theorem escape_cases (c : Char) :
    (∃ signs, escape c = '\\' :: signs ∧ (∀ d ∈ signs, 32 ≤ d.toNat) ∧
      ∀ rest, escaped? (signs ++ rest) = some (c, rest)) ∨
    escape c = [c] ∧ c ≠ '"' ∧ c ≠ '\\' ∧ 32 ≤ c.toNat := by
  rcases eq_or_ne c '"' with rfl | hquote
  · exact .inl ⟨['"'], rfl, List.forall_mem_singleton.2 (by decide), fun _ => rfl⟩
  rcases eq_or_ne c '\\' with rfl | hslash
  · exact .inl ⟨['\\'], rfl, List.forall_mem_singleton.2 (by decide), fun _ => rfl⟩
  rcases eq_or_ne c '\n' with rfl | hfeed
  · exact .inl ⟨['n'], rfl, List.forall_mem_singleton.2 (by decide), fun _ => rfl⟩
  rcases eq_or_ne c '\r' with rfl | hreturn
  · exact .inl ⟨['r'], rfl, List.forall_mem_singleton.2 (by decide), fun _ => rfl⟩
  rcases eq_or_ne c '\t' with rfl | htab
  · exact .inl ⟨['t'], rfl, List.forall_mem_singleton.2 (by decide), fun _ => rfl⟩
  rcases eq_or_ne c (Char.ofNat 8) with rfl | hback
  · exact .inl ⟨['b'], rfl, List.forall_mem_singleton.2 (by decide), fun _ => rfl⟩
  rcases eq_or_ne c (Char.ofNat 12) with rfl | hpage
  · exact .inl ⟨['f'], rfl, List.forall_mem_singleton.2 (by decide), fun _ => rfl⟩
  have hback : c.toNat ≠ 8 := fun h => hback (by rw [← h, Char.ofNat_toNat])
  have hpage : c.toNat ≠ 12 := fun h => hpage (by rw [← h, Char.ofNat_toNat])
  rw [escape, if_neg hquote, if_neg hslash, if_neg hfeed, if_neg hreturn, if_neg htab, if_neg hback, if_neg hpage]
  by_cases hlow : c.toNat < 32
  · have hhigh := le_toNat_digitChar (show c.toNat / 16 < 16 by omega)
    have hlast := le_toNat_digitChar (show c.toNat % 16 < 16 by omega)
    rw [if_pos hlow]
    refine .inl ⟨_, rfl, ?_, escaped?_control hlow⟩
    simp only [hexDigit, List.forall_mem_cons]
    exact ⟨by decide, by decide, by decide, by omega, by omega, List.forall_mem_nil _⟩
  · rw [if_neg hlow]
    exact .inr ⟨rfl, hquote, hslash, by omega⟩

theorem le_toNat_of_mem_escape (h : d ∈ escape c) : 32 ≤ d.toNat := by
  rcases escape_cases c with ⟨signs, hescape, hsigns, -⟩ | ⟨hescape, -, -, hlow⟩
  · rw [hescape] at h
    rcases List.mem_cons.1 h with rfl | h
    · decide
    · exact hsigns d h
  · rw [hescape, List.mem_singleton] at h
    rwa [h]

theorem length_le_length_escaped (cs : List Char) : cs.length ≤ (cs.flatMap escape).length := by
  induction cs with
  | nil => exact Nat.le_refl 0
  | cons c cs ih =>
    have hfirst : 1 ≤ (escape c).length := by
      rcases escape_cases c with ⟨signs, hescape, -⟩ | ⟨hescape, -⟩ <;> simp [hescape]
    rw [List.flatMap_cons, List.length_append, List.length_cons]
    omega

theorem textRest?_escape (c : Char) (fuel : Nat) (done rest : List Char) :
    textRest? (fuel + 1) done (escape c ++ rest) = textRest? fuel (c :: done) rest := by
  rcases escape_cases c with ⟨signs, hescape, -, hread⟩ | ⟨hescape, hquote, hslash, hlow⟩
  · rw [hescape, List.cons_append, textRest?, hread]
    rfl
  · rw [hescape, List.singleton_append, textRest?, if_neg (by omega)]
    · exact hquote
    · exact hslash

theorem textRest?_quoted (cs : List Char) (fuel : Nat) (done rest : List Char) (h : cs.length < fuel) :
    textRest? fuel done (cs.flatMap escape ++ '"' :: rest) = some (String.ofList (done.reverse ++ cs), rest) := by
  induction cs generalizing fuel done with
  | nil =>
    obtain ⟨fuel, rfl⟩ := Nat.exists_eq_add_of_lt h
    rw [List.flatMap_nil, List.nil_append, textRest?, List.append_nil]
  | cons c cs ih =>
    obtain ⟨fuel, rfl⟩ := Nat.exists_eq_succ_of_ne_zero (Nat.ne_zero_of_lt h)
    rw [List.flatMap_cons, List.append_assoc, textRest?_escape, ih fuel (c :: done) (Nat.lt_of_succ_lt_succ h),
      List.reverse_cons, List.append_assoc, List.singleton_append]

theorem textRest?_text (s : String) (rest : List Char) :
    textRest? ((s.toList.flatMap escape ++ '"' :: rest).length + 1) [] (s.toList.flatMap escape ++ '"' :: rest) =
      some (s, rest) := by
  have hlength := length_le_length_escaped s.toList
  rw [textRest?_quoted _ _ _ _ (by simp only [List.length_append, List.length_cons]; omega), List.reverse_nil,
    List.nil_append, String.ofList_toList]

/-! ### Integers -/

/-- Nothing in what follows can belong to a number. -/
def EndsNumber (rest : List Char) : Prop := ∀ c ∈ rest.head?, isNumberChar c = false

theorem endsNumber_cons (h : isNumberChar c = false) (cs : List Char) : EndsNumber (c :: cs) := by
  intro d hd
  rwa [← Option.some.inj hd]

theorem toList_toString (n : Int) :
    (toString n).toList = (if n < 0 then ['-'] else []) ++ Nat.toDigits 10 n.natAbs := by
  have hdigits (m : Nat) : (toString m).toList = Nat.toDigits 10 m := by
    rw [Nat.toString_eq_ofList_toDigits, String.toList_ofList]
  cases n with
  | ofNat m =>
    rw [if_neg (by simp), List.nil_append]
    exact hdigits m
  | negSucc m =>
    have htext : toString (Int.negSucc m) = "-" ++ toString (m + 1) := rfl
    rw [if_pos (Int.negSucc_lt_zero m), htext, String.toList_append, hdigits]
    rfl

theorem isNumeral_digits {digits : List Char} (hdigits : ∀ c ∈ digits, c.isDigit) (hne : digits ≠ [])
    (hzero : digits = ['0'] ∨ digits.head? ≠ some '0') {sign : List Char} (hsign : sign = [] ∨ sign = ['-']) :
    isNumeral (sign ++ digits) = true := by
  have htake : digits.takeWhile Char.isDigit = digits := List.takeWhile_eq_self_iff.2 hdigits
  have hdrop : digits.dropWhile Char.isDigit = [] := List.dropWhile_eq_nil_iff.2 hdigits
  have hall : isDigits digits = true := by
    rw [isDigits, Bool.and_eq_true, List.all_eq_true]
    exact ⟨by simpa using hne, hdigits⟩
  have hfirst : (digits == ['0'] || digits.head? != some '0') = true := by simpa using hzero
  rcases hsign with rfl | rfl
  · obtain ⟨d, rest, rfl⟩ := List.exists_cons_of_ne_nil hne
    have hminus : d ≠ '-' := by
      rintro rfl
      exact notMem_of_isDigit hdigits (by decide) List.mem_cons_self
    rw [List.nil_append, isNumeral, htake, hdrop, hall, hfirst]
    · rfl
    · exact fun other h => hminus (List.cons.inj h).1
  · rw [List.singleton_append, isNumeral, htake, hdrop, hall, hfirst]
    rfl

theorem ofChars?_of_digits {digits : List Char} (hdigits : ∀ c ∈ digits, c.isDigit) (hne : digits ≠ [])
    {negative : Bool} (hsigned : Decimal.signed cs = (negative, digits)) :
    Decimal.ofChars? cs = some { negative, coefficient := Nat.ofDigitChars 10 digits 0 } := by
  have hpointed : Decimal.signed cs = (negative, Decimal.pointed digits []) := hsigned
  have hread := Decimal.ofChars?_of_signed hne (by rwa [List.append_nil]) hpointed
  rwa [List.append_nil] at hread

theorem minus_or_isDigit_toString (n : Int) : ∀ c ∈ (toString n).toList, c = '-' ∨ c.isDigit := by
  intro c hc
  rw [toList_toString, List.mem_append] at hc
  rcases hc with hc | hc
  · split at hc
    · exact .inl (List.mem_singleton.1 hc)
    · cases hc
  · exact .inr (Nat.isDigit_of_mem_toDigits (by decide) (by decide) hc)

theorem exists_toList_toString (n : Int) : ∃ c cs, (toString n).toList = c :: cs ∧ (c = '-' ∨ c.isDigit) := by
  have hne : (toString n).toList ≠ [] := by
    rw [toList_toString]
    exact List.append_ne_nil_of_right_ne_nil _ Nat.toDigits_ne_nil
  obtain ⟨c, cs, htext⟩ := List.exists_cons_of_ne_nil hne
  exact ⟨c, cs, htext, minus_or_isDigit_toString n c (htext ▸ List.mem_cons_self)⟩

theorem ne_of_minus_or_isDigit (h : c = '-' ∨ c.isDigit) (hd : d ≠ '-' ∧ d.isDigit = false) : c ≠ d := by
  rintro rfl
  rcases h with h | h
  · exact hd.1 h
  · rw [hd.2] at h
    cases h

theorem isSpace_of_minus_or_isDigit (h : c = '-' ∨ c.isDigit) : isSpace c = false := by
  have hne {d : Char} (hd : d ≠ '-' ∧ d.isDigit = false) : (c == d) = false :=
    beq_eq_false_iff_ne.2 (ne_of_minus_or_isDigit h hd)
  rw [isSpace, @hne ' ' (by decide), @hne '\n' (by decide), @hne '\r' (by decide), @hne '\t' (by decide)]
  rfl

theorem ofText?_toString (n : Int) :
    Decimal.ofText? (toString n) = some { negative := decide (n < 0), coefficient := n.natAbs } := by
  have hchars := minus_or_isDigit_toString n
  have hblank : ∀ c ∈ (toString n).toList, isBlank c = false := by
    intro c hc
    rcases hchars c hc with rfl | hdigit
    · decide
    · exact Scan.isBlank_of_isNameChar (by simp [Scan.isNameChar, Char.isAlphanum, hdigit])
  have hplain : ∀ c ∈ (toString n).toList, (c != '_') = true := by
    intro c hc
    rw [bne_iff_ne]
    rintro rfl
    rcases hchars '_' hc with h | h <;> exact absurd h (by decide)
  have hdigits : ∀ c ∈ Nat.toDigits 10 n.natAbs, c.isDigit :=
    fun c hc => Nat.isDigit_of_mem_toDigits (by decide) (by decide) hc
  have hsigned : Decimal.signed (toString n).toList = (decide (n < 0), Nat.toDigits 10 n.natAbs) := by
    rw [toList_toString]
    by_cases h : n < 0
    · rw [if_pos h, decide_eq_true h]
      rfl
    · rw [if_neg h, decide_eq_false h, List.nil_append, Decimal.signed]
      · exact fun rest hrest => notMem_of_isDigit hdigits (by decide) (hrest ▸ List.mem_cons_self)
      · exact fun rest hrest => notMem_of_isDigit hdigits (by decide) (hrest ▸ List.mem_cons_self)
  rw [Decimal.ofText?, strip_of_none hblank, List.filter_eq_self.2 hplain,
    ofChars?_of_digits hdigits Nat.toDigits_ne_nil hsigned, Nat.ofDigitChars_ten_toDigits]

theorem number?_toString (n : Int) : number? (toString n).toList = some (.int n) := by
  have hnumeral : isNumeral (toString n).toList = true := by
    rw [toList_toString]
    refine isNumeral_digits (fun c hc => Nat.isDigit_of_mem_toDigits (by decide) (by decide) hc)
      Nat.toDigits_ne_nil ?_ ?_
    · rcases Nat.eq_zero_or_pos n.natAbs with hzero | hpos
      · exact .inl (by rw [hzero]; rfl)
      · exact .inr (head?_toDigits_ne hpos)
    · split
      · exact .inr rfl
      · exact .inl rfl
  have hwhole : ((toString n).toList.any fun c => c == '.' || c == 'e' || c == 'E') = false := by
    rw [List.any_eq_false]
    intro c hc hmark
    simp only [Bool.or_eq_true, beq_iff_eq] at hmark
    rcases hmark with (rfl | rfl) | rfl <;> rcases minus_or_isDigit_toString n _ hc with h | h <;>
      exact absurd h (by decide)
  have hamount : (if decide (n < 0) = true then -Int.ofNat n.natAbs else (n.natAbs : Int)) = n := by
    rw [Int.ofNat_eq_natCast]
    split
    · rename_i h
      rw [decide_eq_true_eq] at h
      omega
    · rename_i h
      rw [decide_eq_true_eq] at h
      omega
  rw [number?, if_pos hnumeral, String.ofList_toList, ofText?_toString, Option.map_some, hwhole, hamount]
  rfl

/-! ### One step of reading -/

theorem skipSpace_cons (h : isSpace c = false) (cs : List Char) : skipSpace (c :: cs) = c :: cs := by
  rw [skipSpace, List.dropWhile_cons_of_neg (by simp [h])]

theorem value?_quote (fuel : Nat) (rest : List Char) : value? (fuel + 1) ('"' :: rest) =
    (textRest? (rest.length + 1) [] rest).map fun p => (.text p.1, p.2) := by
  rw [value?.eq_def, skipSpace_cons (by decide)]
  rfl

theorem value?_bracket (fuel : Nat) (h : isSpace c = false) (hclose : c ≠ ']') (rest : List Char) :
    value? (fuel + 1) ('[' :: c :: rest) = (items? fuel (c :: rest)).map fun p => (.list p.1, p.2) := by
  rw [value?.eq_def, skipSpace_cons (by decide)]
  simp only [skipSpace_cons h]
  split
  · rename_i heq
    exact absurd (List.cons.inj heq).1 hclose
  · rfl

theorem value?_brace (fuel : Nat) (h : isSpace c = false) (hclose : c ≠ '\x7d') (rest : List Char) :
    value? (fuel + 1) ('\x7b' :: c :: rest) = (entries? fuel [] (c :: rest)).map fun p => (.mapping p.1, p.2) := by
  rw [value?.eq_def, skipSpace_cons (by decide)]
  simp only [skipSpace_cons h]
  split
  · rename_i heq
    exact absurd (List.cons.inj heq).1 hclose
  · rfl

theorem value?_word (fuel : Nat) (rest : List Char) :
    value? (fuel + 1) ("null".toList ++ rest) = some (.null, rest) ∧
      value? (fuel + 1) ("true".toList ++ rest) = some (.bool true, rest) ∧
      value? (fuel + 1) ("false".toList ++ rest) = some (.bool false, rest) :=
  ⟨rfl, rfl, rfl⟩

theorem word?_eq_none {w : Char} {word : List Char} (h : w ≠ c) (scalar : Scalar) (cs : List Char) :
    word? (String.ofList (w :: word)) scalar (c :: cs) = none := by
  rw [word?, String.toList_ofList, List.isPrefixOf?, if_neg (by simpa using h)]
  rfl

theorem value?_numberChar (fuel : Nat) (h : c = '-' ∨ c.isDigit) (cs : List Char) :
    value? (fuel + 1) (c :: cs) = (number? ((c :: cs).takeWhile isNumberChar)).map fun n =>
      (.scalar n, (c :: cs).dropWhile isNumberChar) := by
  rw [value?.eq_def, skipSpace_cons (isSpace_of_minus_or_isDigit h)]
  split
  · rename_i heq
    exact absurd heq (Nat.succ_ne_zero fuel)
  · rename_i heq _
    cases heq
  · rename_i heq
    exact absurd (List.cons.inj heq).1 (ne_of_minus_or_isDigit h (by decide))
  · rename_i heq
    exact absurd (List.cons.inj heq).1 (ne_of_minus_or_isDigit h (by decide))
  · rename_i heq
    exact absurd (List.cons.inj heq).1 (ne_of_minus_or_isDigit h (by decide))
  · have hletter {w : Char} (hw : w ≠ '-' ∧ w.isDigit = false) : w ≠ c := (ne_of_minus_or_isDigit h hw).symm
    have hnull : word? "null" .null (c :: cs) = none := word?_eq_none (hletter (by decide)) _ _
    have htrue : word? "true" (.bool true) (c :: cs) = none := word?_eq_none (hletter (by decide)) _ _
    have hfalse : word? "false" (.bool false) (c :: cs) = none := word?_eq_none (hletter (by decide)) _ _
    rw [hnull, htrue, hfalse]
    rfl

theorem value?_number (fuel : Nat) (n : Int) (h : EndsNumber rest) :
    value? (fuel + 1) ((toString n).toList ++ rest) = some (.int n, rest) := by
  have hnumber : ∀ c ∈ (toString n).toList, isNumberChar c = true := by
    intro c hc
    rcases minus_or_isDigit_toString n c hc with rfl | hdigit
    · decide
    · simp [isNumberChar, hdigit]
  have htake : rest.takeWhile isNumberChar = [] := by
    cases rest with
    | nil => rfl
    | cons c rest => rw [List.takeWhile_cons_of_neg (by simp [h c rfl])]
  have hdrop : rest.dropWhile isNumberChar = rest := by
    cases rest with
    | nil => rfl
    | cons c rest => rw [List.dropWhile_cons_of_neg (by simp [h c rfl])]
  have hread := number?_toString n
  obtain ⟨c, cs, htext, hc⟩ := exists_toList_toString n
  rw [htext] at hnumber hread ⊢
  rw [List.cons_append, value?_numberChar fuel hc, ← List.cons_append, List.takeWhile_append_of_pos hnumber,
    List.dropWhile_append_of_pos hnumber, htake, hdrop, List.append_nil, hread]
  rfl

theorem value?_empty (fuel : Nat) (rest : List Char) :
    value? (fuel + 1) ('[' :: ']' :: rest) = some (.list [], rest) ∧
      value? (fuel + 1) ('\x7b' :: '\x7d' :: rest) = some (.mapping [], rest) := by
  constructor
  · rw [value?.eq_def, skipSpace_cons (by decide)]
    simp only [skipSpace_cons (show isSpace ']' = false by decide)]
  · rw [value?.eq_def, skipSpace_cons (by decide)]
    simp only [skipSpace_cons (show isSpace '\x7d' = false by decide)]

section Parts

variable {fuel : Nat} {v : Value} {more : List Char}

theorem items?_last (h : value? fuel cs = some (v, ']' :: rest)) : items? (fuel + 1) cs = some ([v], rest) := by
  rw [items?, h]
  simp only [Option.bind_eq_bind, Option.bind_some, skipSpace_cons (show isSpace ']' = false by decide)]

theorem items?_comma (h : value? fuel cs = some (v, ',' :: more)) :
    items? (fuel + 1) cs = (items? fuel more).map fun p => (v :: p.1, p.2) := by
  rw [items?, h]
  simp only [Option.bind_eq_bind, Option.bind_some, skipSpace_cons (show isSpace ',' = false by decide)]

variable {s : String} {after : List Char} (hkey : textRest? (cs.length + 1) [] cs = some (s, ':' :: after))

include hkey

theorem entries?_last (h : value? fuel after = some (v, '\x7d' :: rest)) (done : Entries) :
    entries? (fuel + 1) done ('"' :: cs) = some (Entries.set (.text s) v done, rest) := by
  rw [entries?.eq_def, skipSpace_cons (by decide)]
  simp only [hkey, h, Option.bind_eq_bind, Option.bind_some, skipSpace_cons (show isSpace ':' = false by decide),
    skipSpace_cons (show isSpace '\x7d' = false by decide)]

theorem entries?_comma (h : value? fuel after = some (v, ',' :: more)) (done : Entries) :
    entries? (fuel + 1) done ('"' :: cs) = entries? fuel (Entries.set (.text s) v done) more := by
  rw [entries?.eq_def, skipSpace_cons (by decide)]
  simp only [hkey, h, Option.bind_eq_bind, Option.bind_some, skipSpace_cons (show isSpace ':' = false by decide),
    skipSpace_cons (show isSpace ',' = false by decide)]

end Parts

end UtilityCss.Json

namespace UtilityCss.Entries

theorem set_of_notMem {entries : Entries} {key : Scalar} (h : key ∉ entries.map Prod.fst) (value : Value) :
    set key value entries = entries ++ [(key, value)] := by
  induction entries with
  | nil => rfl
  | cons entry entries ih =>
    rw [List.map_cons, List.mem_cons, not_or] at h
    rw [set, if_neg (Ne.symm h.1), ih h.2, List.cons_append]

end UtilityCss.Entries

namespace UtilityCss.Value
open Json

/-- Nulls, truth values, integers, texts, and lists of such values and mappings of distinct texts to them. -/
inductive IsPlain : Value → Prop
  | null : IsPlain .null
  | bool (b : Bool) : IsPlain (.bool b)
  | int (n : Int) : IsPlain (.int n)
  | text (s : String) : IsPlain (.text s)
  | list {items : List Value} (items_plain : ∀ v ∈ items, IsPlain v) : IsPlain (.list items)
  | mapping {entries : Entries} (keys_text : ∀ entry ∈ entries, ∃ s, entry.1 = .text s)
      (keys_nodup : (entries.map Prod.fst).Nodup) (values_plain : ∀ entry ∈ entries, IsPlain entry.2) :
      IsPlain (.mapping entries)

/-- An integer stands in a value, at any depth. Keys are texts here. -/
inductive Contains (n : Int) : Value → Prop
  | here : Contains n (.int n)
  | item {items : List Value} {v : Value} (hv : v ∈ items) (h : Contains n v) : Contains n (.list items)
  | entry {entries : Entries} {entry : Scalar × Value} (hentry : entry ∈ entries) (h : Contains n entry.2) :
    Contains n (.mapping entries)

def Reads (v : Value) : Prop :=
  ∀ fuel rest, v.json.toList.length ≤ fuel → EndsNumber rest → value? fuel (v.json.toList ++ rest) = some (v, rest)

variable {v : Value} {items : List Value} {entries : Entries}

/-! ### The texts of values -/

def joined (texts : List String) : List Char := (", ".intercalate texts).toList

theorem joined_singleton (text : String) : joined [text] = text.toList := by
  rw [joined, String.intercalate_singleton]

theorem joined_cons_cons (text other : String) (texts : List String) :
    joined (text :: other :: texts) = text.toList ++ ',' :: ' ' :: joined (other :: texts) := by
  rw [joined, joined, String.intercalate_cons_cons, String.toList_append, String.toList_append, List.append_assoc]
  rfl

theorem exists_joined_cons (text : String) (texts : List String) :
    ∃ more, joined (text :: texts) = text.toList ++ more := by
  cases texts with
  | nil => exact ⟨[], by rw [joined_singleton, List.append_nil]⟩
  | cons other texts => exact ⟨_, joined_cons_cons text other texts⟩

theorem toList_quoted (s : String) : (quoted s).toList = '"' :: (s.toList.flatMap escape ++ ['"']) := by
  rw [quoted, String.toList_ofList, List.cons_append]

def entryText (entry : Scalar × Value) : String := quoted ((key? entry.1).getD "") ++ ": " ++ entry.2.json

theorem toList_entryText (s : String) (v : Value) : (entryText (.text s, v)).toList =
    '"' :: (s.toList.flatMap escape ++ '"' :: ':' :: ' ' :: v.json.toList) := by
  have hkey : (key? (.text s)).getD "" = s := rfl
  rw [entryText, hkey, String.toList_append, String.toList_append, toList_quoted]
  simp

theorem jsonItems_eq_map (items : List Value) : jsonItems items = items.map json := by
  induction items with
  | nil => rfl
  | cons v items ih => rw [jsonItems, ih, List.map_cons]

theorem jsonEntries_eq_map (entries : Entries) : jsonEntries entries = entries.map entryText := by
  induction entries with
  | nil => rfl
  | cons entry entries ih => rw [jsonEntries, ih, List.map_cons, entryText]

theorem toList_json_list (items : List Value) :
    (Value.list items).json.toList = '[' :: (joined (items.map json) ++ [']']) := by
  rw [json, jsonItems_eq_map, joined]
  simp

theorem toList_json_mapping (entries : Entries) :
    (Value.mapping entries).json.toList = '\x7b' :: (joined (entries.map entryText) ++ ['\x7d']) := by
  rw [json, jsonEntries_eq_map, joined]
  simp

theorem IsPlain.exists_cons (h : v.IsPlain) : ∃ c cs, v.json.toList = c :: cs ∧ isSpace c = false ∧ c ≠ ']' := by
  cases h with
  | null => exact ⟨'n', "ull".toList, by rw [json]; rfl, by decide, by decide⟩
  | bool b => cases b with
    | false => exact ⟨'f', "alse".toList, by rw [json]; rfl, by decide, by decide⟩
    | true => exact ⟨'t', "rue".toList, by rw [json]; rfl, by decide, by decide⟩
  | int n =>
    obtain ⟨c, cs, htext, hc⟩ := exists_toList_toString n
    exact ⟨c, cs, by rw [json]; exact htext, isSpace_of_minus_or_isDigit hc, ne_of_minus_or_isDigit hc (by decide)⟩
  | text s => exact ⟨'"', _, by rw [json]; exact toList_quoted s, by decide, by decide⟩
  | list => exact ⟨'[', _, toList_json_list _, by decide, by decide⟩
  | mapping => exact ⟨'\x7b', _, toList_json_mapping _, by decide, by decide⟩

/-! ### Reading them -/

theorem IsPlain.reads_of_succ (h : v.IsPlain)
    (hstep : ∀ fuel rest, v.json.toList.length ≤ fuel + 1 → EndsNumber rest →
      value? (fuel + 1) (v.json.toList ++ rest) = some (v, rest)) : v.Reads := by
  obtain ⟨c, cs, htext, -⟩ := h.exists_cons
  intro fuel rest hfuel hrest
  cases fuel with
  | zero =>
    rw [htext] at hfuel
    cases hfuel
  | succ fuel => exact hstep fuel rest hfuel hrest

theorem items?_joined (hne : items ≠ []) (hreads : ∀ v ∈ items, v.Reads) (fuel : Nat) (rest : List Char)
    (hfuel : (joined (items.map json)).length < fuel) :
    items? fuel (joined (items.map json) ++ ']' :: rest) = some (items, rest) := by
  -- One unit of fuel is for the item, and it is paid for by the comma or the bracket behind it.
  induction items generalizing fuel with
  | nil => exact absurd rfl hne
  | cons v items ih =>
    obtain ⟨fuel, rfl⟩ := Nat.exists_eq_succ_of_ne_zero (Nat.ne_zero_of_lt hfuel)
    have hfirst : v.Reads := hreads v List.mem_cons_self
    cases items with
    | nil =>
      rw [List.map_singleton, joined_singleton] at hfuel ⊢
      exact items?_last (hfirst fuel _ (by omega) (endsNumber_cons (by decide) rest))
    | cons w items =>
      have hrest := ih (List.cons_ne_nil w items) (fun v hv => hreads v (List.mem_cons_of_mem _ hv)) fuel
      rw [List.map_cons, List.map_cons, joined_cons_cons, ← List.map_cons] at hfuel ⊢
      rw [List.length_append, List.length_cons, List.length_cons] at hfuel
      rw [List.append_assoc, List.cons_append, List.cons_append,
        items?_comma (hfirst fuel _ (by omega) (endsNumber_cons (by decide) _)), items?_space, hrest (by omega)]
      rfl

theorem reads_list (h : (Value.list items).IsPlain) (hreads : ∀ v ∈ items, v.Reads) : (Value.list items).Reads := by
  refine h.reads_of_succ fun fuel rest hfuel _ => ?_
  rw [toList_json_list, List.length_cons, List.length_append, List.length_singleton] at hfuel
  rw [toList_json_list, List.cons_append, List.append_assoc, List.singleton_append]
  cases h with
  | list items_plain =>
    cases items with
    | nil => exact (value?_empty fuel rest).1
    | cons v items =>
      obtain ⟨c, cs, hfirst, hspace, hclose⟩ := (items_plain v List.mem_cons_self).exists_cons
      obtain ⟨more, hmore⟩ := exists_joined_cons v.json (items.map json)
      have hbegin : joined ((v :: items).map json) ++ ']' :: rest = c :: (cs ++ more ++ ']' :: rest) := by
        rw [List.map_cons, hmore, hfirst]
        rfl
      rw [hbegin, value?_bracket fuel hspace hclose, ← hbegin,
        items?_joined (List.cons_ne_nil v items) hreads fuel rest (by omega)]
      rfl

theorem entries?_joined (hne : entries ≠ []) (hkeys : ∀ entry ∈ entries, ∃ s, entry.1 = .text s)
    (hreads : ∀ entry ∈ entries, entry.2.Reads) (done : Entries) (hdistinct : ((done ++ entries).map Prod.fst).Nodup)
    (fuel : Nat) (rest : List Char) (hfuel : (joined (entries.map entryText)).length < fuel) :
    Json.entries? fuel done (joined (entries.map entryText) ++ '\x7d' :: rest) = some (done ++ entries, rest) := by
  -- Each entry is set behind those that are done, because its key is not among theirs.
  induction entries generalizing fuel done with
  | nil => exact absurd rfl hne
  | cons entry entries ih =>
    obtain ⟨k, v⟩ := entry
    obtain ⟨s, rfl⟩ : ∃ s, k = .text s := hkeys _ List.mem_cons_self
    obtain ⟨fuel, rfl⟩ := Nat.exists_eq_succ_of_ne_zero (Nat.ne_zero_of_lt hfuel)
    have hfirst : v.Reads := hreads _ List.mem_cons_self
    have hkey := textRest?_text s
    have hnew : .text s ∉ done.map Prod.fst := by
      rw [List.map_append, List.nodup_append] at hdistinct
      exact fun hold => hdistinct.2.2 _ hold _ List.mem_cons_self rfl
    have hlength := congrArg List.length (toList_entryText s v)
    simp only [List.length_cons, List.length_append] at hlength
    cases entries with
    | nil =>
      rw [List.map_singleton, joined_singleton] at hfuel ⊢
      have hvalue : value? fuel (' ' :: (v.json.toList ++ '\x7d' :: rest)) = some (v, '\x7d' :: rest) := by
        rw [value?_space]
        exact hfirst fuel _ (by omega) (endsNumber_cons (by decide) rest)
      rw [toList_entryText, List.cons_append, List.append_assoc]
      exact (entries?_last (hkey _) hvalue done).trans (by rw [Entries.set_of_notMem hnew])
    | cons other entries =>
      have hrest := ih (List.cons_ne_nil other entries) (fun e he => hkeys e (List.mem_cons_of_mem _ he))
        (fun e he => hreads e (List.mem_cons_of_mem _ he)) (done ++ [(.text s, v)])
        (by rwa [List.append_assoc, List.singleton_append]) fuel
      rw [List.map_cons, List.map_cons, joined_cons_cons, ← List.map_cons] at hfuel ⊢
      generalize joined ((other :: entries).map entryText) = later at hfuel hrest ⊢
      rw [List.length_append, List.length_cons, List.length_cons] at hfuel
      have hvalue : value? fuel (' ' :: (v.json.toList ++ ',' :: ' ' :: (later ++ '\x7d' :: rest))) =
          some (v, ',' :: ' ' :: (later ++ '\x7d' :: rest)) := by
        rw [value?_space]
        exact hfirst fuel _ (by omega) (endsNumber_cons (by decide) _)
      have hnext : (entryText (.text s, v)).toList ++ ',' :: ' ' :: later ++ '\x7d' :: rest =
          '"' :: (s.toList.flatMap escape ++ '"' :: ':' :: ' ' ::
            (v.json.toList ++ ',' :: ' ' :: (later ++ '\x7d' :: rest))) := by
        rw [toList_entryText]
        simp
      rw [hnext, entries?_comma (hkey _) hvalue, Entries.set_of_notMem hnew, entries?_space, hrest (by omega),
        List.append_assoc, List.singleton_append]

theorem reads_mapping (h : (Value.mapping entries).IsPlain) (hreads : ∀ entry ∈ entries, entry.2.Reads) :
    (Value.mapping entries).Reads := by
  refine h.reads_of_succ fun fuel rest hfuel _ => ?_
  rw [toList_json_mapping, List.length_cons, List.length_append, List.length_singleton] at hfuel
  rw [toList_json_mapping, List.cons_append, List.append_assoc, List.singleton_append]
  cases h with
  | mapping keys_text keys_nodup =>
    cases entries with
    | nil => exact (value?_empty fuel rest).2
    | cons entry entries =>
      obtain ⟨k, v⟩ := entry
      obtain ⟨s, rfl⟩ : ∃ s, k = .text s := keys_text _ List.mem_cons_self
      obtain ⟨more, hmore⟩ := exists_joined_cons (entryText (.text s, v)) (entries.map entryText)
      obtain ⟨cs, hbegin⟩ : ∃ cs, joined (((.text s, v) :: entries).map entryText) ++ '\x7d' :: rest = '"' :: cs := by
        rw [List.map_cons, hmore, toList_entryText]
        exact ⟨_, rfl⟩
      rw [hbegin, value?_brace fuel (by decide) (by decide), ← hbegin,
        entries?_joined (List.cons_ne_nil _ entries) keys_text hreads [] keys_nodup fuel rest (by omega)]
      rfl

theorem IsPlain.reads (h : v.IsPlain) : v.Reads := by
  induction h with
  | null => exact IsPlain.null.reads_of_succ fun fuel rest _ _ => (value?_word fuel rest).1
  | bool b =>
    refine (IsPlain.bool b).reads_of_succ fun fuel rest _ _ => ?_
    cases b with
    | false => exact (value?_word fuel rest).2.2
    | true => exact (value?_word fuel rest).2.1
  | int n => exact (IsPlain.int n).reads_of_succ fun fuel rest _ hrest => value?_number fuel n hrest
  | text s =>
    refine (IsPlain.text s).reads_of_succ fun fuel rest _ _ => ?_
    have hjson : (Value.text s).json = quoted s := by
      rw [json]
      rfl
    rw [hjson, toList_quoted, List.cons_append, List.append_assoc, List.singleton_append, value?_quote, textRest?_text,
      Option.map_some]
  | list items_plain ih => exact reads_list (.list items_plain) ih
  | mapping keys_text keys_nodup values_plain ih => exact reads_mapping (.mapping keys_text keys_nodup values_plain) ih

def HasNoControl (text : String) : Prop := ∀ c ∈ text.toList, 32 ≤ c.toNat

instance (text : String) : Decidable (HasNoControl text) :=
  decidable_of_iff ((text.toList.all fun c => decide (32 ≤ c.toNat)) = true) (by simp [HasNoControl])

theorem hasNoControl_append {one two : String} (hone : HasNoControl one) (htwo : HasNoControl two) :
    HasNoControl (one ++ two) := by
  intro c hc
  rw [String.toList_append, List.mem_append] at hc
  exact hc.elim (hone c) (htwo c)

theorem hasNoControl_intercalate {texts : List String} (h : ∀ text ∈ texts, HasNoControl text) :
    HasNoControl (", ".intercalate texts) := by
  induction texts with
  | nil => exact fun c hc => absurd hc List.not_mem_nil
  | cons text texts ih =>
    have hfirst := h text List.mem_cons_self
    have hrest := ih fun text htext => h text (List.mem_cons_of_mem _ htext)
    cases texts with
    | nil => rwa [String.intercalate_singleton]
    | cons other texts =>
      rw [String.intercalate_cons_cons]
      exact hasNoControl_append (hasNoControl_append hfirst (by decide)) hrest

theorem hasNoControl_quoted (s : String) : HasNoControl (quoted s) := by
  intro c hc
  rw [toList_quoted, List.mem_cons, List.mem_append, List.mem_flatMap, List.mem_singleton] at hc
  rcases hc with rfl | ⟨d, -, hd⟩ | rfl
  · decide
  · exact le_toNat_of_mem_escape hd
  · decide

theorem hasNoControl_int (n : Int) : HasNoControl (toString n) := by
  intro c hc
  rcases minus_or_isDigit_toString n c hc with rfl | hdigit
  · decide
  · exact Nat.le_trans (by decide) (Char.isDigit_iff_toNat.1 hdigit).1

theorem IsPlain.hasNoControl {v : Value} (h : v.IsPlain) : HasNoControl v.json := by
  have hsigns : ∀ sign ∈ ["[", "]", "\x7b", "\x7d", ": ", "null", "true", "false"], HasNoControl sign := by decide
  simp only [List.forall_mem_cons] at hsigns
  obtain ⟨hopen, hclose, hbegin, hend, hcolon, hnull, htrue, hfalse, -⟩ := hsigns
  induction h with
  | null => rwa [json]
  | bool b => cases b <;> rwa [json]
  | int n =>
    rw [json]
    exact hasNoControl_int n
  | text s =>
    rw [json]
    exact hasNoControl_quoted s
  | list _ ih =>
    rw [json, jsonItems_eq_map]
    refine hasNoControl_append (hasNoControl_append hopen (hasNoControl_intercalate ?_)) hclose
    rw [List.forall_mem_map]
    exact ih
  | mapping _ _ _ ih =>
    rw [json, jsonEntries_eq_map]
    refine hasNoControl_append (hasNoControl_append hbegin (hasNoControl_intercalate ?_)) hend
    rw [List.forall_mem_map]
    exact fun entry hentry => hasNoControl_append (hasNoControl_append (hasNoControl_quoted _) hcolon) (ih entry hentry)

theorem IsPlain.ofJson?_json {v : Value} (h : v.IsPlain) : ofJson? v.json = some v := by
  have hread := h.reads (2 * v.json.length + 2) [] (by rw [String.length_toList]; omega) (by simp [EndsNumber])
  rw [List.append_nil] at hread
  rw [ofJson?, hread]
  rfl

/-! ### Which values have a text -/

theorem haveJson_eq_all (items : List Value) : haveJson items = items.all hasJson := by
  induction items with
  | nil => rfl
  | cons v items ih => rw [haveJson, ih, List.all_cons]

theorem areShowable_eq_all (items : List Value) : areShowable items = items.all isShowable := by
  induction items with
  | nil => rfl
  | cons v items ih => rw [areShowable, ih, List.all_cons]

theorem entriesHaveJson_eq_all (entries : Entries) :
    entriesHaveJson entries = entries.all fun entry => (key? entry.1).isSome && entry.2.hasJson := by
  induction entries with
  | nil => rfl
  | cons entry entries ih => rw [entriesHaveJson, ih, List.all_cons]

theorem entriesAreShowable_eq_all (entries : Entries) :
    entriesAreShowable entries = entries.all fun entry => entry.1.isShowable && entry.2.isShowable := by
  induction entries with
  | nil => rfl
  | cons entry entries ih => rw [entriesAreShowable, ih, List.all_cons]

theorem isWritable_iff {n : Int} : Numeral.isWritable n = true ↔ n.natAbs < Nat.pow 10 4300 := by
  have hlimit : Numeral.greatestLength = 4300 := rfl
  rw [← hlimit]
  exact decide_eq_true_iff

/-- A text can always be a key, so that only the length of a number is in the way. -/
theorem IsPlain.hasJson_iff {v : Value} (h : v.IsPlain) :
    v.hasJson = true ↔ ∀ n, v.Contains n → n.natAbs < Nat.pow 10 4300 := by
  induction h with
  | null | bool | text =>
    rw [hasJson]
    exact iff_of_true rfl fun n hn => nomatch hn
  | int n =>
    rw [hasJson]
    refine isWritable_iff.trans ⟨fun h other hother => ?_, fun h => h n .here⟩
    cases hother
    exact h
  | list _ ih =>
    rw [hasJson, haveJson_eq_all, List.all_eq_true]
    refine ⟨fun h n hn => ?_, fun h v hv => (ih v hv).2 fun n hn => h n (.item hv hn)⟩
    cases hn with
    | item hv hn => exact (ih _ hv).1 (h _ hv) n hn
  | mapping keys_text _ _ ih =>
    rw [hasJson, entriesHaveJson_eq_all, List.all_eq_true]
    refine ⟨fun h n hn => ?_, fun h entry hentry => ?_⟩
    · cases hn with
      | entry hentry hn => exact (ih _ hentry).1 ((Bool.and_eq_true _ _).mp (h _ hentry)).2 n hn
    · obtain ⟨s, hkey⟩ := keys_text entry hentry
      rw [hkey, (ih entry hentry).2 fun n hn => h n (.entry hentry hn)]
      rfl

theorem IsPlain.hasJson_eq_isShowable {v : Value} (h : v.IsPlain) : v.hasJson = v.isShowable := by
  induction h with
  | null | bool | int | text => rw [hasJson, isShowable]
  | list _ ih =>
    rw [hasJson, isShowable, haveJson_eq_all, areShowable_eq_all, Bool.eq_iff_iff, List.all_eq_true, List.all_eq_true]
    exact forall₂_congr fun v hv => by rw [ih v hv]
  | mapping keys_text _ _ ih =>
    rw [hasJson, isShowable, entriesHaveJson_eq_all, entriesAreShowable_eq_all, Bool.eq_iff_iff, List.all_eq_true,
      List.all_eq_true]
    refine forall₂_congr fun entry hentry => ?_
    obtain ⟨s, hkey⟩ := keys_text entry hentry
    rw [ih entry hentry, hkey]
    rfl

end UtilityCss.Value

namespace UtilityCss.Log.Record
open Value

variable {record : Record} {event time : String}

theorem fields_cases (record : Record) (event time : String) :
    let common : Entries := [(.text "timestamp", .text time), (.text "level", .text (levelName record.level)),
      (.text "event", .text event)]
    record.data = .null ∧ record.fields event time = common ∨
      record.data ≠ .null ∧ record.fields event time = common ++ [(.text "data", record.data)] := by
  by_cases hnull : record.data = .null
  · refine .inl ⟨hnull, ?_⟩
    rw [fields, hnull]
    rfl
  · refine .inr ⟨hnull, ?_⟩
    rw [fields]
    split
    · rename_i hdata
      exact absurd hdata hnull
    · rfl

theorem isPlain_fields (h : record.data.IsPlain) (event time : String) :
    (Value.mapping (record.fields event time)).IsPlain := by
  rcases fields_cases record event time with ⟨-, hfields⟩ | ⟨-, hfields⟩ <;> rw [hfields]
  · refine .mapping ?_ (by simp) ?_
    · simp
    · simp only [List.forall_mem_cons]
      exact ⟨.text _, .text _, .text _, List.forall_mem_nil _⟩
  · refine .mapping ?_ (by simp) ?_
    · simp
    · simp only [List.cons_append, List.nil_append, List.forall_mem_cons]
      exact ⟨.text _, .text _, .text _, h, List.forall_mem_nil _⟩

theorem hasJson_fields (record : Record) (event time : String) :
    (Value.mapping (record.fields event time)).hasJson = record.data.hasJson := by
  have htext (s : String) : (Value.text s).hasJson = true := by rw [hasJson]; rfl
  have hkey (s : String) : (Json.key? (.text s)).isSome = true := rfl
  rcases fields_cases record event time with ⟨hnull, hfields⟩ | ⟨-, hfields⟩ <;>
    rw [hfields, hasJson, entriesHaveJson_eq_all]
  · rw [hnull, hasJson]
    simp [htext, hkey, Scalar.isShowable]
  · simp [htext, hkey]

theorem json?_eq_some_iff {text : String} : record.json? time = some text ↔
    ∃ event, record.event? = some event ∧ record.data.hasJson = true ∧
      (Value.mapping (record.fields event time)).json = text := by
  rw [json?]
  simp only [bind, Option.bind_eq_some_iff, Value.json?, hasJson_fields, ite_eq_iff, reduceCtorEq, and_false, or_false,
    Option.some.injEq]

theorem isSome_json? : (record.json? time).isSome = (record.event?.isSome && record.data.hasJson) := by
  rw [json?]
  cases record.event? with
  | none => rfl
  | some event =>
    simp only [bind, Option.bind_some, Value.json?, hasJson_fields, Option.isSome_some, Bool.true_and]
    split <;> simp_all

/-- A record with data that are made of nulls, truth values, integers, texts, lists and mappings of texts is written
exactly if there is a message and no number is too long. Then it is written without control characters, and nothing
of it is lost. It has data exactly when there are any. -/
theorem json_lossless (record : Record) (time : String) (h : record.data.IsPlain) :
    ((record.json? time).isSome ↔
      record.event?.isSome ∧ ∀ n, record.data.Contains n → n.natAbs < Nat.pow 10 4300) ∧
    (record.arguments = [] →
      record.event? = if record.level.natAbs < Nat.pow 10 4300 then some record.message else none) ∧
    ∀ text, record.json? time = some text →
      (∀ c ∈ text.toList, 0x20 ≤ c.toNat) ∧
        ∃ entries, Value.ofJson? text = some (.mapping entries) ∧
          Entries.get? entries "timestamp" = some (.text time) ∧
          Entries.get? entries "level" = some (.text (levelName record.level)) ∧
          Entries.get? entries "event" = record.event?.map .text ∧
          ∀ data, Entries.get? entries "data" = some data ↔ data = record.data ∧ data ≠ .null := by
  refine ⟨?_, fun hnone => ?_, fun text htext => ?_⟩
  · rw [isSome_json?, Bool.and_eq_true, h.hasJson_iff]
  · rw [event?, hnone, if_congr isWritable_iff rfl rfl]
    rfl
  obtain ⟨event, hevent, -, rfl⟩ := json?_eq_some_iff.1 htext
  have hplain := isPlain_fields h event time
  refine ⟨hplain.hasNoControl, record.fields event time, hplain.ofJson?_json, rfl, rfl, ?_, fun data => ?_⟩
  · rw [hevent]
    rfl
  rcases fields_cases record event time with ⟨hnull, hfields⟩ | ⟨hnull, hfields⟩ <;> rw [hfields]
  · have hnone : Entries.get? [(.text "timestamp", .text time), (.text "level", .text (levelName record.level)),
        (.text "event", .text event)] "data" = none := rfl
    rw [hnone, hnull]
    exact ⟨fun hdata => absurd hdata.symm (Option.some_ne_none data), fun hdata => absurd hdata.1 hdata.2⟩
  · have hsome : Entries.get? ([(.text "timestamp", .text time), (.text "level", .text (levelName record.level)),
        (.text "event", .text event)] ++ [(.text "data", record.data)]) "data" = some record.data := rfl
    rw [hsome, Option.some.injEq]
    exact ⟨fun hdata => ⟨hdata.symm, fun hvalue => hnull (hdata.trans hvalue)⟩, fun hdata => hdata.1.symm⟩

theorem json_lossless_pass :
    let data := Value.mapping [(.text "files", .list [.text "a\tb\"c\\", .text "é\r\n"]), (.text "pass", .int (-3)),
      (.text "done", .bool true), (.text "", .null)]
    let record : Record := { message := "two\nlines", data }
    data.IsPlain ∧ ∃ text entries, record.json? "12:00" = some text ∧ '\n' ∉ text.toList ∧
      Value.ofJson? text = some (.mapping entries) ∧
        Entries.get? entries "event" = some (.text "two\nlines") ∧ Entries.get? entries "data" = some data := by
  intro data record
  have hfiles : (Value.list [.text "a\tb\"c\\", .text "é\r\n"]).IsPlain :=
    .list (List.forall_mem_cons.2 ⟨.text _, List.forall_mem_singleton.2 (.text _)⟩)
  have hplain : data.IsPlain := by
    refine .mapping (by simp) (by decide) ?_
    simp only [List.forall_mem_cons]
    exact ⟨hfiles, .int _, .bool _, .null, List.forall_mem_nil _⟩
  obtain ⟨hwritten, hmessage, hread⟩ := json_lossless record "12:00" hplain
  have hlevel : record.level.natAbs < Nat.pow 10 4300 := by decide +kernel
  have hevent : record.event? = some "two\nlines" := by rw [hmessage rfl, if_pos hlevel]
  obtain ⟨text, htext⟩ := Option.isSome_iff_exists.1
    (hwritten.2 ⟨by rw [hevent]; rfl, hplain.hasJson_iff.1 (by decide +kernel)⟩)
  obtain ⟨hline, entries, hentries, -, -, htold, hdata⟩ := hread text htext
  refine ⟨hplain, text, entries, htext, fun hmem => ?_, hentries, ?_, (hdata data).2 ⟨rfl, Value.noConfusion⟩⟩
  · exact absurd (hline '\n' hmem) (by decide)
  · rw [htold, hevent]
    rfl

/-- A number with one digit too many is not written, and the line separator of Unicode is written as it is. -/
theorem json_exceptions :
    let long : Value := .mapping [(.text "n", .ofNat (Nat.pow 10 Numeral.greatestLength))]
    let separated : Record := { message := "a\u2028b" }
    long.IsPlain ∧ ({ message := "m", data := long } : Record).json? "12:00" = none ∧
      (separated.json? "12:00").any (fun text => text.toList.contains '\u2028') := by
  intro long separated
  refine ⟨.mapping (by simp) (by simp) (List.forall_mem_singleton.2 (.int _)), ?_, ?_⟩
  · decide +kernel
  · decide +kernel

end UtilityCss.Log.Record
