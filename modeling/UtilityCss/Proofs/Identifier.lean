import UtilityCss.Proofs.OneLine
import UtilityCss.Rgb
import UtilityCss.Selector

/-!
# Identifiers in a style sheet

The syntax of style sheets reads an identifier character by character. Letters, digits, dashes, underscores
and everything beyond ASCII stand for themselves; a backslash begins an escape, which is a code point in up
to six hexadecimal digits with at most one white space behind them, or any other character. `begins` tells
where an identifier starts and `read` reads one.

An escaped class name starts an identifier, and reading gives the name back and stops exactly behind the
escape, whatever follows that could not be part of an identifier.
-/

namespace UtilityCss.Identifier
open Text Selector

def isStart (c : Char) : Bool := c.isAlpha || c == '_' || 0x80 ≤ c.toNat

def isPart (c : Char) : Bool := isStart c || c.isDigit || c == '-'

def endsLine (c : Char) : Bool := c == '\n' || c == '\r' || c == '\x0c'

def isSpace (c : Char) : Bool := endsLine c || c == '\t' || c == ' '

def hexRun : Nat → List Char → List Nat × List Char
  | limit + 1, c :: cs => match Rgb.hexDigit? c with
    | some d => (d :: (hexRun limit cs).1, (hexRun limit cs).2)
    | none => ([], c :: cs)
  | _, cs => ([], cs)

def skipSpace : List Char → List Char
  | c :: cs => if isSpace c then cs else c :: cs
  | [] => []

def ofCodePoint (n : Nat) : Char := if n = 0 ∨ ¬ n.isValidChar then '\uFFFD' else Char.ofNat n

def readEscape : List Char → Char × List Char
  | [] => ('\uFFFD', [])
  | c :: cs => match Rgb.hexDigit? c with
    | some d =>
      let (digits, rest) := hexRun 5 cs
      (ofCodePoint ((d :: digits).foldl (fun n d => 16 * n + d) 0), skipSpace rest)
    | none => (c, cs)

def isEscape : List Char → Bool
  | '\\' :: c :: _ => !endsLine c
  | ['\\'] => true
  | _ => false

def begins : List Char → Bool
  | '-' :: c :: cs => isStart c || c == '-' || isEscape (c :: cs)
  | c :: cs => isStart c || isEscape (c :: cs)
  | [] => false

theorem hexRun_length_le (limit : Nat) (cs : List Char) :
    (hexRun limit cs).2.length ≤ cs.length := by
  induction limit generalizing cs with
  | zero => simp [hexRun]
  | succ limit ih =>
    cases cs with
    | nil => simp [hexRun]
    | cons c cs =>
      have := ih cs
      simp only [hexRun]
      split
      · simp only [List.length_cons]
        omega
      · exact Nat.le_refl _

theorem skipSpace_length_le (cs : List Char) : (skipSpace cs).length ≤ cs.length := by
  cases cs with
  | nil => simp [skipSpace]
  | cons c cs =>
    simp only [skipSpace]
    split <;> simp

theorem readEscape_length_le (cs : List Char) : (readEscape cs).2.length ≤ cs.length := by
  cases cs with
  | nil => simp [readEscape]
  | cons c cs =>
    simp only [readEscape]
    split
    · have h := hexRun_length_le 5 cs
      have h' := skipSpace_length_le (hexRun 5 cs).2
      simp only [List.length_cons]
      omega
    · simp

def read : List Char → List Char × List Char
  | [] => ([], [])
  | c :: cs =>
    if isPart c then
      let (word, rest) := read cs
      (c :: word, rest)
    else if isEscape (c :: cs) then
      let (word, rest) := read (readEscape cs).2
      ((readEscape cs).1 :: word, rest)
    else ([], c :: cs)
termination_by cs => cs.length
decreasing_by
  · simp
  · have := readEscape_length_le cs
    simp only [List.length_cons]
    omega

/-- Whether an identifier before a text ends where the text begins. -/
def Stops (rest : List Char) : Prop := ∀ c ∈ rest.head?, isPart c = false ∧ c ≠ '\\'

/-- A null character cannot be written; it is read as the replacement character. -/
def legible (c : Char) : Char := if c = '\x00' then '\uFFFD' else c

theorem read_cons_of_isPart {c : Char} (h : isPart c) (cs : List Char) :
    read (c :: cs) = (c :: (read cs).1, (read cs).2) := by
  rw [read, if_pos h]

theorem read_backslash {cs : List Char} (h : isEscape ('\\' :: cs)) :
    read ('\\' :: cs) =
      ((readEscape cs).1 :: (read (readEscape cs).2).1, (read (readEscape cs).2).2) := by
  rw [read, if_neg (by decide), if_pos h]

theorem read_of_stops {rest : List Char} (h : Stops rest) : read rest = ([], rest) := by
  cases rest with
  | nil => rw [read]
  | cons c cs =>
    obtain ⟨hpart, hslash⟩ := h c rfl
    have hescape : isEscape (c :: cs) = false := by
      cases cs <;> simp [isEscape, hslash]
    rw [read, if_neg (by simp [hpart]), if_neg (by simp [hescape])]

theorem legible_of_ne {c : Char} (h : c ≠ '\x00') : legible c = c := if_neg h

theorem isEscape_backslash {c : Char} (h : endsLine c = false) (cs : List Char) :
    isEscape ('\\' :: c :: cs) := by
  simp [isEscape, h]

theorem toDigits_cases {n : Nat} (h : n < 256) :
    (n < 16 ∧ Nat.toDigits 16 n = [n.digitChar]) ∨
      ∃ high low, high < 16 ∧ low < 16 ∧ 16 * high + low = n ∧
        Nat.toDigits 16 n = [high.digitChar, low.digitChar] := by
  by_cases hlt : n < 16
  · exact Or.inl ⟨hlt, Nat.toDigits_of_lt_base hlt⟩
  · have hhigh : n / 16 < 16 := by omega
    have hlow : n % 16 < 16 := Nat.mod_lt _ (by decide)
    refine Or.inr ⟨n / 16, n % 16, hhigh, hlow, Nat.div_add_mod n 16, ?_⟩
    rw [Nat.toDigits_of_base_le (by decide) (by omega), Nat.toDigits_of_lt_base hhigh]
    rfl

theorem hexDigit?_digitChar : ∀ d, d < 16 → Rgb.hexDigit? d.digitChar = some d := by decide

theorem endsLine_digitChar : ∀ d, d < 16 → endsLine d.digitChar = false := by decide

theorem readEscape_toDigits {n : Nat} (hn : n < 256) (rest : List Char) :
    readEscape (Nat.toDigits 16 n ++ ' ' :: rest) = (ofCodePoint n, rest) := by
  have hspace : Rgb.hexDigit? ' ' = none := by decide
  have hskip : skipSpace (' ' :: rest) = rest := by simp [skipSpace, isSpace]
  rcases toDigits_cases hn with ⟨hlt, heq⟩ | ⟨high, low, hhigh, hlow, hvalue, heq⟩
  · rw [heq]
    simp [readEscape, hexRun, hexDigit?_digitChar n hlt, hspace, hskip]
  · rw [heq]
    simp [readEscape, hexRun, hexDigit?_digitChar _ hhigh, hexDigit?_digitChar _ hlow, hspace,
      hskip, hvalue]

theorem isEscape_toDigits {n : Nat} (hn : n < 256) (rest : List Char) :
    isEscape ('\\' :: (Nat.toDigits 16 n ++ rest)) := by
  rcases toDigits_cases hn with ⟨hlt, heq⟩ | ⟨high, low, hhigh, -, -, heq⟩
  · rw [heq]
    exact isEscape_backslash (endsLine_digitChar n hlt) rest
  · rw [heq]
    exact isEscape_backslash (endsLine_digitChar high hhigh) (low.digitChar :: rest)

theorem hexEscape_append (c : Char) (rest : List Char) :
    hexEscape c ++ rest = '\\' :: (Nat.toDigits 16 c.toNat ++ ' ' :: rest) := by
  simp [hexEscape]

theorem isEscape_hexEscape {c : Char} (h : c.toNat < 256) (rest : List Char) :
    isEscape (hexEscape c ++ rest) := by
  rw [hexEscape_append]
  exact isEscape_toDigits h (' ' :: rest)

theorem ofCodePoint_toNat {c : Char} (h : c ≠ '\x00') : ofCodePoint c.toNat = c := by
  have hvalid : c.toNat.isValidChar := c.valid
  have hzero : c.toNat ≠ 0 := fun heq => h (Char.toNat_inj.1 heq)
  simp [ofCodePoint, hzero, hvalid]

theorem read_hexEscape {c : Char} (hnull : c ≠ '\x00') (h : c.toNat < 256) (rest : List Char) :
    read (hexEscape c ++ rest) = (c :: (read rest).1, (read rest).2) := by
  have hescape := isEscape_toDigits h (' ' :: rest)
  rw [hexEscape_append, read_backslash hescape, readEscape_toDigits h, ofCodePoint_toNat hnull]

theorem isAlphanum_of_hexDigit? {c : Char} {d : Nat} (h : Rgb.hexDigit? c = some d) :
    c.isAlphanum := by
  rw [isAlphanum_iff]
  rw [Rgb.hexDigit?] at h
  split at h
  · rename_i hdigit
    have := isDigit_iff.1 hdigit
    omega
  · split at h
    · rename_i hlower
      have hrange : 97 ≤ c.toNat ∧ c.toNat ≤ 102 := hlower
      omega
    · split at h
      · rename_i hupper
        have hrange : 65 ≤ c.toNat ∧ c.toNat ≤ 70 := hupper
        omega
      · cases h

theorem isStart_or_dash_of_isPlain {c : Char} (h : isPlain c) (hdigit : ¬c.isDigit) :
    isStart c ∨ c = '-' := by
  simp only [isPlain, Char.isAlphanum, Bool.or_eq_true, decide_eq_true_eq, beq_iff_eq] at h
  rcases h with ((h | h | h) | h) | h
  · exact Or.inl (by simp [isStart, h])
  · exact Or.inl (by simp [isStart, h])
  · exact absurd h hdigit
  · exact Or.inr h
  · exact Or.inl (by simp [isStart, h])

theorem isPart_of_isPlain {c : Char} (h : isPlain c) : isPart c := by
  by_cases hdigit : c.isDigit
  · simp [isPart, hdigit]
  · rcases isStart_or_dash_of_isPlain h hdigit with hstart | rfl
    · simp [isPart, hstart]
    · decide

theorem hexDigit?_eq_none {c : Char} (h : isPlain c = false) : Rgb.hexDigit? c = none := by
  cases hd : Rgb.hexDigit? c with
  | none => rfl
  | some d => simp [isPlain, isAlphanum_of_hexDigit? hd] at h

theorem read_backslash_char {c : Char} (hhex : Rgb.hexDigit? c = none) (hline : endsLine c = false)
    (rest : List Char) : read ('\\' :: c :: rest) = (c :: (read rest).1, (read rest).2) := by
  rw [read_backslash (isEscape_backslash hline rest)]
  simp [readEscape, hhex]

theorem endsLine_eq_false {c : Char} (h : ¬(c.toNat < 0x20 ∨ c.toNat = 0x7F)) :
    endsLine c = false := by
  simp only [endsLine, Bool.or_eq_false_iff, beq_eq_false_iff_ne]
  refine ⟨⟨?_, ?_⟩, ?_⟩ <;> rintro rfl <;> exact h (by decide)

theorem escapeChar_cases {c : Char} (hnull : c ≠ '\x00') :
    (c.toNat < 256 ∧ escapeChar c = hexEscape c) ∨ (isPlain c ∧ escapeChar c = [c]) ∨
      (isPlain c = false ∧ endsLine c = false ∧ escapeChar c = ['\\', c]) := by
  have hzero : c.toNat ≠ 0 := fun h => hnull (Char.toNat_inj.1 h)
  rw [escapeChar, if_neg hzero]
  by_cases hcontrol : c.toNat < 0x20 ∨ c.toNat = 0x7F
  · rw [if_pos hcontrol]
    exact Or.inl ⟨by omega, rfl⟩
  · rw [if_neg hcontrol]
    by_cases hplain : isPlain c
    · rw [if_pos hplain]
      exact Or.inr (Or.inl ⟨hplain, rfl⟩)
    · rw [if_neg hplain]
      exact Or.inr (Or.inr ⟨by simpa using hplain, endsLine_eq_false hcontrol, rfl⟩)

theorem read_escapeChar (c : Char) (rest : List Char) :
    read (escapeChar c ++ rest) = (legible c :: (read rest).1, (read rest).2) := by
  by_cases hnull : c = '\x00'
  · subst hnull
    exact read_cons_of_isPart (by decide) rest
  rw [legible_of_ne hnull]
  rcases escapeChar_cases hnull with ⟨hsmall, heq⟩ | ⟨hplain, heq⟩ | ⟨hplain, hline, heq⟩
  · rw [heq]
    exact read_hexEscape hnull hsmall rest
  · rw [heq]
    exact read_cons_of_isPart (isPart_of_isPlain hplain) rest
  · rw [heq]
    exact read_backslash_char (hexDigit?_eq_none hplain) hline rest

theorem read_escapeStart (c : Char) (rest : List Char) :
    read (escapeStart c ++ rest) = (legible c :: (read rest).1, (read rest).2) := by
  rw [escapeStart]
  split
  · rename_i hdigit
    have hsmall := isDigit_iff.1 hdigit
    have hnull : c ≠ '\x00' := by
      rintro rfl
      exact absurd hdigit (by decide)
    rw [legible_of_ne hnull, read_hexEscape hnull (by omega)]
  · exact read_escapeChar c rest

theorem read_flatMap_escapeChar (cs rest : List Char) :
    read (cs.flatMap escapeChar ++ rest) = (cs.map legible ++ (read rest).1, (read rest).2) := by
  induction cs with
  | nil => rfl
  | cons c cs ih =>
    rw [List.flatMap_cons, List.append_assoc, read_escapeChar, ih]
    rfl

theorem read_escapeChars_append (name rest : List Char) :
    read (escapeChars name ++ rest) = (name.map legible ++ (read rest).1, (read rest).2) := by
  fun_cases escapeChars name with
  | case1 => rfl
  | case2 => exact read_backslash_char (by decide) (by decide) rest
  | case3 c cs =>
    rw [List.cons_append, List.cons_append, List.append_assoc, read_cons_of_isPart (by decide),
      read_escapeStart, read_flatMap_escapeChar]
    rfl
  | case4 c cs =>
    rw [List.append_assoc, read_escapeStart, read_flatMap_escapeChar]
    rfl

theorem read_escapeChars (name : List Char) {rest : List Char} (h : Stops rest) :
    read (escapeChars name ++ rest) = (name.map legible, rest) := by
  rw [read_escapeChars_append, read_of_stops h, List.append_nil]

theorem begins_of_start {c : Char} {cs : List Char} (h : isStart c ∨ isEscape (c :: cs)) :
    begins (c :: cs) := by
  rw [begins]
  · simpa using h
  · rintro d ds rfl rfl
    rcases h with h | h
    · exact absurd h (by decide)
    · simp [isEscape] at h

theorem starts_escapeStart (c : Char) (rest : List Char) :
    ∃ d ds, escapeStart c ++ rest = d :: ds ∧
      (isStart d ∨ isEscape (d :: ds) ∨ d = '-' ∧ c = '-') := by
  by_cases hdigit : c.isDigit
  · have hsmall := isDigit_iff.1 hdigit
    rw [escapeStart, if_pos hdigit]
    exact ⟨_, _, rfl, Or.inr (Or.inl (isEscape_hexEscape (by omega) rest))⟩
  rw [escapeStart, if_neg hdigit]
  by_cases hnull : c = '\x00'
  · subst hnull
    exact ⟨_, _, rfl, Or.inl (by decide)⟩
  rcases escapeChar_cases hnull with ⟨hsmall, heq⟩ | ⟨hplain, heq⟩ | ⟨-, hline, heq⟩
  · rw [heq]
    exact ⟨_, _, rfl, Or.inr (Or.inl (isEscape_hexEscape hsmall rest))⟩
  · rw [heq]
    refine ⟨_, _, rfl, ?_⟩
    rcases isStart_or_dash_of_isPlain hplain hdigit with hstart | hdash
    · exact Or.inl hstart
    · exact Or.inr (Or.inr ⟨hdash, hdash⟩)
  · rw [heq]
    exact ⟨_, _, rfl, Or.inr (Or.inl (isEscape_backslash hline rest))⟩

theorem begins_escapeChars {name : List Char} (h : name ≠ []) (rest : List Char) :
    begins (escapeChars name ++ rest) := by
  fun_cases escapeChars name with
  | case1 => exact absurd rfl h
  | case2 => exact begins_of_start (Or.inr rfl)
  | case3 c cs =>
    obtain ⟨d, ds, heq, hd⟩ := starts_escapeStart c (cs.flatMap escapeChar ++ rest)
    rw [List.cons_append, List.cons_append, List.append_assoc, heq, begins]
    rcases hd with hd | hd | ⟨hd, -⟩ <;> simp [hd]
  | case4 c cs hlone hdash =>
    obtain ⟨d, ds, heq, hd⟩ := starts_escapeStart c (cs.flatMap escapeChar ++ rest)
    rw [List.append_assoc, heq]
    rcases hd with hd | hd | ⟨-, rfl⟩
    · exact begins_of_start (Or.inl hd)
    · exact begins_of_start (Or.inr hd)
    · cases cs with
      | nil => exact absurd rfl (hlone rfl)
      | cons e es => exact absurd rfl (hdash e es rfl)

/-- An escaped class name is an identifier of its own: whatever follows it that could not belong to one is
left, and what is read is the name, but for the null characters that no identifier can hold. -/
theorem begins_and_reads_escape {name : String} (hname : name ≠ "") {rest : List Char}
    (hrest : Stops rest) :
    begins ((escape name).toList ++ rest) ∧
      read ((escape name).toList ++ rest) = (name.toList.map legible, rest) := by
  have hne : name.toList ≠ [] := by simpa using hname
  rw [escape, String.toList_ofList]
  exact ⟨begins_escapeChars hne rest, read_escapeChars name.toList hrest⟩

theorem begins_and_reads_escape_dash_digit :
    "-1\x00\t2" ≠ "" ∧ Stops " > p".toList ∧
      begins ((escape "-1\x00\t2").toList ++ " > p".toList) ∧
        read ((escape "-1\x00\t2").toList ++ " > p".toList) =
          ("-1\uFFFD\t2".toList, " > p".toList) := by
  have hname : "-1\x00\t2" ≠ "" := by decide
  have hrest : Stops " > p".toList := by
    intro c hc
    obtain rfl : ' ' = c := by simpa using hc
    decide
  have h := begins_and_reads_escape hname hrest
  exact ⟨hname, hrest, h.1, h.2⟩

end UtilityCss.Identifier
