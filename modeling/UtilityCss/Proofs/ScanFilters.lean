import UtilityCss.Proofs.Recognition

/-!
# What a scanner leaves out

A scanner keeps a name by looking at the name alone. So the ignore list and the demand for a prefix are filters
on what is found: they take names away, and the same names wherever these stand in a text. In code the demand for
a prefix also passes over whole literals. A scanner that is called again and again ignores whatever it has been
told to ignore, and does not remember what it has scanned.
-/

namespace UtilityCss.Scanner
open Text Scan

/-- One scanner keeps the names that another one keeps and that pass a test. -/
def Narrows (narrow wide : Scanner) (passes : String → Bool) : Prop :=
  ∀ name, narrow.keeps name = (wide.keeps name && passes name)

section Narrows

variable {narrow wide : Scanner} {passes : String → Bool}

namespace Narrows

theorem extract (h : narrow.Narrows wide passes) (classList : List Char) :
    narrow.extract classList = (wide.extract classList).filter passes := by
  rw [Scanner.extract, Scanner.extract, List.filter_filter]
  refine List.filter_congr fun name _ => ?_
  rw [h name, Bool.and_comm]

theorem flatMap_extract (h : narrow.Narrows wide passes) (classLists : List (List Char)) :
    classLists.flatMap narrow.extract = (classLists.flatMap wide.extract).filter passes := by
  rw [List.filter_flatMap, funext h.extract]

theorem fromExpression (h : narrow.Narrows wide passes) (expression : List Char) :
    narrow.fromExpression expression = (wide.fromExpression expression).filter passes :=
  h.flatMap_extract (literals expression)

theorem fromValue (h : narrow.Narrows wide passes) (value : List Char) :
    narrow.fromValue value = (wide.fromValue value).filter passes := by
  rw [Scanner.fromValue, Scanner.fromValue, List.filter_append, h.extract]
  split
  · rw [h.fromExpression]
  · rw [List.filter_nil]

theorem fromMarkup (h : narrow.Narrows wide passes) (content : List Char) :
    narrow.fromMarkup content = (wide.fromMarkup content).filter passes := by
  simp only [Scanner.fromMarkup, List.filter_append, List.filter_flatMap, funext h.fromValue,
    funext h.fromExpression]

theorem fromCode_sublist (h : narrow.Narrows wide passes)
    (htakes : ∀ literal, narrow.looksLikeClasses literal = true → wide.looksLikeClasses literal = true)
    (content : List Char) :
    (narrow.fromCode content).Sublist ((wide.fromCode content).filter passes) := by
  have hliterals : ((literals content).filter narrow.looksLikeClasses).Sublist
      ((literals content).filter wide.looksLikeClasses) :=
    List.monotone_filter_right _ htakes
  rw [Scanner.fromCode, Scanner.fromCode, List.filter_append, ← h.flatMap_extract, ← h.flatMap_extract]
  exact (hliterals.flatMap _).append_right _

theorem fromCode (h : narrow.Narrows wide passes)
    (htakes : narrow.looksLikeClasses = wide.looksLikeClasses) (content : List Char) :
    narrow.fromCode content = (wide.fromCode content).filter passes := by
  rw [Scanner.fromCode, Scanner.fromCode, List.filter_append, ← h.flatMap_extract, ← h.flatMap_extract, htakes]

theorem scan_markup (h : narrow.Narrows wide passes) (content : String) :
    narrow.scan content .markup = (wide.scan content .markup).filter passes := by
  rw [scan, scan, Classification.filter_orderedSet, found, found, h.fromMarkup]

theorem scan_code_subset (h : narrow.Narrows wide passes)
    (htakes : ∀ literal, narrow.looksLikeClasses literal = true → wide.looksLikeClasses literal = true)
    (content : String) : narrow.scan content .code ⊆ (wide.scan content .code).filter passes := by
  intro name hname
  rw [scan, Classification.filter_orderedSet, mem_orderedSet, found]
  rw [scan, mem_orderedSet, found] at hname
  exact (h.fromCode_sublist htakes content.toList).subset hname

theorem scan (h : narrow.Narrows wide passes) (htakes : narrow.looksLikeClasses = wide.looksLikeClasses)
    (content : String) (kind : ContentKind) :
    narrow.scan content kind = (wide.scan content kind).filter passes := by
  cases kind with
  | markup => exact h.scan_markup content
  | code => rw [Scanner.scan, Scanner.scan, Classification.filter_orderedSet, found, found, h.fromCode htakes]

end Narrows

end Narrows

theorem narrows_ignored (naming : Naming) (ignored : List String) :
    Narrows { naming, ignored } { naming } fun name => !ignored.contains name := by
  intro name
  simp only [keeps, List.contains_nil, Bool.not_false, Bool.true_and]
  cases ignored.contains name <;> simp

theorem narrows_strict (naming : Naming) (ignored : List String) :
    Narrows { naming := { naming with permissive := false }, ignored }
      { naming := { naming with permissive := true }, ignored } (looksPrefixed naming) := by
  intro name
  have hmode (permissive : Bool) :
      looksPrefixed { naming with permissive } name = looksPrefixed naming name := rfl
  simp only [keeps, hmode, Bool.false_or, Bool.true_or, Bool.and_true]

/-! ### Calls one after another -/

inductive Call
  | ignore (names : List String)
  | scan (content : String) (kind : ContentKind)

def perform (scanner : Scanner) : Call → Option (List String) × Scanner
  | .ignore names => (none, scanner.ignore names)
  | .scan content kind => (some (scanner.scan content kind), scanner)

def run (scanner : Scanner) : List Call → List (Option (List String)) × Scanner
  | [] => ([], scanner)
  | call :: calls =>
    let (answer, next) := scanner.perform call
    let (answers, last) := next.run calls
    (answer :: answers, last)

def Call.ignored : Call → List String
  | ignore names => names
  | scan .. => []

variable (scanner : Scanner)

theorem perform_snd (call : Call) :
    (scanner.perform call).2 = { scanner with ignored := scanner.ignored ++ call.ignored } := by
  cases call with
  | ignore names => rfl
  | scan content kind => rw [perform, Call.ignored, List.append_nil]

theorem run_snd (calls : List Call) :
    (scanner.run calls).2 =
      { scanner with ignored := scanner.ignored ++ calls.flatMap Call.ignored } := by
  induction calls generalizing scanner with
  | nil => rw [run, List.flatMap_nil, List.append_nil]
  | cons call calls ih =>
    simp only [run, ih, perform_snd, List.flatMap_cons, List.append_assoc]

theorem run_fst_append (calls later : List Call) :
    (scanner.run (calls ++ later)).1 = (scanner.run calls).1 ++ ((scanner.run calls).2.run later).1 := by
  induction calls generalizing scanner with
  | nil => rfl
  | cons call calls ih =>
    simp only [List.cons_append, run, ih]

theorem length_run_fst (calls : List Call) : (scanner.run calls).1.length = calls.length := by
  induction calls generalizing scanner with
  | nil => rfl
  | cons call calls ih =>
    simp only [run, List.length_cons, ih]

/-- What is ignored is taken from what is found, in markup and in code. Where utilities need their prefix, what
does not look prefixed is taken from what is found otherwise, in markup; in code at least that is. In a series of
calls the names ignored so far are all that the calls before a scan change about it. -/
theorem scan_filters (naming : Naming) (ignored : List String) :
    let strict : Naming := { naming with permissive := false }
    let permissive : Naming := { naming with permissive := true }
    (∀ content kind, ({ naming, ignored } : Scanner).scan content kind =
      (({ naming } : Scanner).scan content kind).filter fun name => name ∉ ignored) ∧
    (∀ content, ({ naming := strict, ignored } : Scanner).scan content .markup =
      (({ naming := permissive, ignored } : Scanner).scan content .markup).filter (looksPrefixed naming)) ∧
    (∀ content, ({ naming := strict, ignored } : Scanner).scan content .code ⊆
      (({ naming := permissive, ignored } : Scanner).scan content .code).filter (looksPrefixed naming)) ∧
    ∀ before after : List Call,
      let scanner : Scanner := { naming, ignored }
      let sofar := ignored ++ before.flatMap Call.ignored
      (scanner.run before).2 = { naming, ignored := sofar } ∧
      ∀ content kind, (scanner.run (before ++ .scan content kind :: after)).1[before.length]? =
        some (some ((({ naming } : Scanner).scan content kind).filter fun name => name ∉ sofar)) := by
  intro strict permissive
  have hignored (ignored : List String) (content : String) (kind : ContentKind) :
      ({ naming, ignored } : Scanner).scan content kind =
        (({ naming } : Scanner).scan content kind).filter fun name => name ∉ ignored := by
    rw [(narrows_ignored naming ignored).scan rfl]
    refine List.filter_congr fun name _ => ?_
    rw [List.contains_eq_mem, decide_not]
  have hstrict := narrows_strict naming ignored
  refine ⟨hignored ignored, hstrict.scan_markup, hstrict.scan_code_subset fun literal hliteral => ?_, ?_⟩
  · rw [looksLikeClasses, Bool.and_eq_true] at hliteral ⊢
    exact ⟨hliteral.1, rfl⟩
  · intro before after scanner sofar
    refine ⟨scanner.run_snd before, fun content kind => ?_⟩
    rw [run_fst_append, List.getElem?_append_right (Nat.le_of_eq (length_run_fst scanner before)),
      length_run_fst, Nat.sub_self, run, List.getElem?_cons_zero, run_snd, perform, hignored]

/-- In code a name may be missing although it looks prefixed, because of what its literal begins with. -/
example : ({} : Scanner).scan "\"card vibe-flex\"" .code = [] ∧
    (({ naming := { permissive := true } } : Scanner).scan "\"card vibe-flex\"" .code).filter
      (looksPrefixed {}) = ["vibe-flex"] :=
  ⟨by decide +kernel, by decide +kernel⟩

end UtilityCss.Scanner
