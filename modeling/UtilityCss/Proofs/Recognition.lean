import UtilityCss.Proofs.PassOutcomes
import UtilityCss.Proofs.Recency
import UtilityCss.Proofs.Regeneration

/-!
# Telling utilities from other classes

A scan asks a compiler for the rule of each token, and a token without one is unknown. A style sheet is made
from all the rules of each token, and a token that gives none is unknown. The two agree: among the rules of a
token there is always one that is no keyframes rule, since the selector of a class begins with a dot or with an
ancestor. So a pass that only scans a project counts the same classes as one that writes its style sheet.
-/

namespace UtilityCss

namespace Naming

variable {naming : Naming} {text : String}

@[simp] theorem rules_empty (naming : Naming) : naming.rules "" = [] := by
  refine List.eq_nil_iff_forall_not_mem.2 fun rule hrule => ?_
  obtain ⟨token, base, resolution, hparts, -⟩ := exists_resolution hrule
  exact hparts.text_ne.1 rfl

theorem exists_own_rule (h : naming.rules text ≠ []) :
    ∃ rule ∈ naming.rules text, rule.isKeyframes = false := by
  obtain ⟨rule, hrule⟩ := List.exists_mem_of_ne_nil _ h
  obtain ⟨token, base, resolution, hparts, hresolve, hrules⟩ := exists_resolution hrule
  have hfits := Token.fits_of_resolve hparts hresolve
  refine ⟨token.ruleOf naming resolution, ?_, (Token.styles_ruleOf hparts hfits).isKeyframes⟩
  rw [hrules, Token.rules]
  exact List.mem_append_cons_self

theorem isSome_ownRule? (naming : Naming) (text : String) :
    (ownRule? (naming.rules text)).isSome = !(naming.rules text).isEmpty := by
  by_cases h : naming.rules text = []
  · rw [h]
    rfl
  · obtain ⟨rule, hrule, hown⟩ := exists_own_rule h
    have hsome : (ownRule? (naming.rules text)).isSome = true :=
      List.find?_isSome.2 ⟨rule, hrule, by rw [hown]; rfl⟩
    rw [hsome, List.isEmpty_eq_false_iff.2 h]
    rfl

end Naming

namespace Classification

variable {isUtility : String → Bool} {tokens others : List String}

theorem ofTokens_eq_ofCompiled (naming : Naming) (tokens : List String) :
    ofTokens naming tokens = ofCompiled naming tokens :=
  congrArg (split · tokens) (funext fun token => naming.isSome_ownRule? token)

theorem split_congr (h : ∀ token, token ∈ tokens ↔ token ∈ others) (isUtility : String → Bool) :
    split isUtility tokens = split isUtility others := by
  rw [split, split, Text.orderedSet_congr h]

def empty : Classification := { recognized := [], unknown := [] }

def put (classes : Classification) (token : String) (isUtility : Bool) : Classification :=
  if isUtility then { classes with recognized := Text.insertOrdered token classes.recognized }
  else { classes with unknown := Text.insertOrdered token classes.unknown }

theorem filter_orderedSet (p : String → Bool) (texts : List String) :
    (Text.orderedSet texts).filter p = Text.orderedSet (texts.filter p) :=
  ((Text.pairwise_orderedSet texts).filter p).eq_of_mem_iff (Text.pairwise_orderedSet _) fun text => by
    rw [List.mem_filter, Text.mem_orderedSet, Text.mem_orderedSet, List.mem_filter]

theorem split_cons (isUtility : String → Bool) (token : String) (tokens : List String) :
    split isUtility (token :: tokens) = (split isUtility tokens).put token (isUtility token) := by
  simp only [split, filter_orderedSet, put]
  cases h : isUtility token with
  | false => simp [h, Text.orderedSet]
  | true => simp [h, Text.orderedSet]

theorem split_concat (isUtility : String → Bool) (tokens : List String) (token : String) :
    split isUtility (tokens ++ [token]) = (split isUtility tokens).put token (isUtility token) := by
  rw [← split_cons]
  refine split_congr (fun other => ?_) isUtility
  rw [List.mem_append, List.mem_singleton, List.mem_cons, or_comm]

end Classification

/-! ### Asking a compiler about the tokens of a project -/

structure Draft where
  rules : List Rule := []
  classes : Classification := .empty

namespace Draft

def addRule (rules : List Rule) (rule : Rule) : List Rule :=
  if rule.declarations.isEmpty ∨ rule ∈ rules then rules else rules ++ [rule]

def add (draft : Draft) (token : String) (rules : List Rule) : Draft where
  rules := rules.foldl addRule draft.rules
  classes := draft.classes.put token (!rules.isEmpty)

def ofTokens (naming : Naming) (tokens : List String) : Draft where
  rules := ((tokens.flatMap naming.rules).filter fun rule => !rule.declarations.isEmpty).eraseDups
  classes := .ofCompiled naming tokens

theorem addRule_eraseDups (rules : List Rule) (rule : Rule) :
    addRule (rules.filter fun rule => !rule.declarations.isEmpty).eraseDups rule =
      ((rules ++ [rule]).filter fun rule => !rule.declarations.isEmpty).eraseDups := by
  rw [addRule, List.filter_append]
  cases hempty : rule.declarations.isEmpty with
  | true =>
    rw [if_pos (.inl rfl), List.filter_cons_of_neg (by simp [hempty]), List.filter_nil, List.append_nil]
  | false =>
    rw [List.filter_cons_of_pos (by simp [hempty]), List.filter_nil, eraseDups_concat]
    by_cases hmem : rule ∈ rules.filter fun rule => !rule.declarations.isEmpty
    · rw [if_pos (.inr (List.mem_eraseDups.2 hmem)), if_pos hmem]
    · rw [if_neg (by simpa using hmem), if_neg hmem]

theorem foldl_addRule (rules added : List Rule) :
    added.foldl addRule (rules.filter fun rule => !rule.declarations.isEmpty).eraseDups =
      ((rules ++ added).filter fun rule => !rule.declarations.isEmpty).eraseDups := by
  induction added generalizing rules with
  | nil => rw [List.append_nil, List.foldl_nil]
  | cons rule added ih =>
    rw [List.foldl_cons, addRule_eraseDups, ih, List.append_assoc, List.singleton_append]

theorem ofTokens_concat (naming : Naming) (tokens : List String) (token : String) :
    ofTokens naming (tokens ++ [token]) = (ofTokens naming tokens).add token (naming.rules token) := by
  rw [ofTokens, add, Classification.ofCompiled, Classification.split_concat]
  simp only [ofTokens, foldl_addRule, List.flatMap_append, List.flatMap_singleton]
  rfl

end Draft

namespace Compiler

def classify (compiler : Compiler) (classes : Classification) : List String → Classification × Compiler
  | [] => (classes, compiler)
  | token :: tokens =>
    let (rules, next) := compiler.rules (.text token)
    next.classify (classes.put token (Naming.ownRule? rules).isSome) tokens

def build (compiler : Compiler) (draft : Draft) : List String → Draft × Compiler
  | [] => (draft, compiler)
  | token :: tokens =>
    let (rules, next) := compiler.rules (.text token)
    next.build (draft.add token rules) tokens

variable {compiler : Compiler} {naming : Naming} {size : Option Int} {uses : List String}

namespace Reflects

theorem rules_text (h : compiler.Reflects naming size uses) (text : String) :
    (compiler.rules (.text text)).1 = naming.rules text := by
  rw [h.rules_fst]
  by_cases hempty : text = ""
  · rw [hempty, Naming.rules_empty]
    rfl
  · have htoken : token? (.text text) = some text :=
      Option.filter_eq_some_iff.2 ⟨rfl, by simpa using hempty⟩
    rw [htoken]
    rfl

theorem classify (h : compiler.Reflects naming size uses) (before tokens : List String) :
    (compiler.classify (.ofTokens naming before) tokens).1 = .ofTokens naming (before ++ tokens) := by
  induction tokens generalizing compiler uses before with
  | nil => rw [List.append_nil]; rfl
  | cons token tokens ih =>
    have hput : (Classification.ofTokens naming before).put token
        (Naming.ownRule? (naming.rules token)).isSome = .ofTokens naming (before ++ [token]) :=
      (Classification.split_concat ..).symm
    rw [Compiler.classify]
    simp only [h.rules_text, hput, ih (h.rules_snd _), List.append_assoc, List.singleton_append]

theorem build (h : compiler.Reflects naming size uses) (before tokens : List String) :
    (compiler.build (.ofTokens naming before) tokens).1 = .ofTokens naming (before ++ tokens) := by
  induction tokens generalizing compiler uses before with
  | nil => rw [List.append_nil]; rfl
  | cons token tokens ih =>
    rw [Compiler.build]
    simp only [h.rules_text, ← Draft.ofTokens_concat, ih (h.rules_snd _), List.append_assoc,
      List.singleton_append]

end Reflects

def stylesheet (compiler : Compiler) (order : List String) (base : String) : Stylesheet × Classification :=
  let draft := (compiler.build {} order).1
  ({ base, rules := draft.rules }, draft.classes)

theorem classify_of_reflects (h : compiler.Reflects naming size uses) (tokens : List String) :
    (compiler.classify .empty tokens).1 = .ofTokens naming tokens :=
  h.classify [] tokens

theorem stylesheet_of_reflects (h : compiler.Reflects naming size uses) (order : List String)
    (base : String) :
    compiler.stylesheet order base =
      ({ base, rules := (Draft.ofTokens naming order).rules }, .ofCompiled naming order) := by
  have hdraft : (compiler.build {} order).1 = .ofTokens naming order := h.build [] order
  rw [stylesheet, hdraft]
  rfl

end Compiler

namespace Pass

variable {session after : Session} {root output : Path} {options : Options} {report : Report}

theorem classify_of_classes {found : List String} {files : Nat}
    (h : projectClasses session.space root options = .ok (found, files)) :
    ∃ after, classify root options session = .ok (.ofTokens options.naming found) after := by
  simp only [classify, Task.bind_apply, scan_apply, h]
  exact ⟨_, rfl⟩

theorem classify_of_succeeded (h : generate root output options session = .ok report after)
    (hsucceeded : report.succeeded = true) {scanning : Session} (hspace : scanning.space = session.space)
    (includeBase : Bool) (baseCss : Option String) :
    ∃ found files classes size later,
      projectClasses session.space root options = .ok (found, files) ∧ classes.total = found.length ∧
      report.outcome = .written classes size ∧
      classify root { options with includeBase, baseCss } scanning = .ok classes later := by
  obtain ⟨found, files, base, noted, saved, hfound, -, rfl⟩ := wrote_of_succeeded h hsucceeded
  have hscanned : projectClasses scanning.space root { options with includeBase, baseCss } =
      .ok (found, files) := hspace ▸ hfound
  obtain ⟨later, hlater⟩ := classify_of_classes hscanned
  obtain ⟨texts, rfl⟩ := exists_of_projectClasses hfound
  refine ⟨_, files, _, _, later, hfound, ?_, rfl, ?_⟩
  · rw [Classification.total_ofCompiled, Text.orderedSet_orderedSet]
  · rw [hlater, Classification.ofTokens_eq_ofCompiled]

end Pass

/-- Whatever two compilers of one naming have been asked before, one tells the tokens apart as the other does
that makes a style sheet of them, on any base and in any order. So a pass that writes a style sheet counts the
classes as a scan of the same files does, whatever the scan is told about a base sheet. -/
theorem scan_agrees_with_generation :
    (∀ (naming : Naming) (size otherSize : Option Int) (earlier others : List Compiler.Call)
      (tokens order : List String) (base : String), (∀ token, token ∈ order ↔ token ∈ tokens) →
      (((Compiler.fresh naming otherSize).run others).2.stylesheet order base).2 =
        (((Compiler.fresh naming size).run earlier).2.classify .empty tokens).1) ∧
    ∀ (session scanning after : Session) (root output : Path) (options : Options) (report : Report)
      (includeBase : Bool) (baseCss : Option String), scanning.space = session.space →
      Pass.generate root output options session = .ok report after → report.succeeded = true →
      ∃ found files classes size later,
        Pass.projectClasses session.space root options = .ok (found, files) ∧ classes.total = found.length ∧
        report.outcome = .written classes size ∧
        Pass.classify root { options with includeBase, baseCss } scanning = .ok classes later := by
  refine ⟨?_, ?_⟩
  · intro naming size otherSize earlier others tokens order base horder
    have hsorts := ((Compiler.reflects_fresh naming size).run
      (Compiler.reflects_fresh naming size) earlier).2
    have hdrafts := ((Compiler.reflects_fresh naming otherSize).run
      (Compiler.reflects_fresh naming otherSize) others).2
    rw [Compiler.classify_of_reflects hsorts, Compiler.stylesheet_of_reflects hdrafts,
      Classification.ofTokens_eq_ofCompiled]
    exact Classification.split_congr horder _
  · intro session scanning after root output options report includeBase baseCss hspace h hsucceeded
    exact Pass.classify_of_succeeded h hsucceeded hspace includeBase baseCss

theorem scan_agrees_with_generation_page :
    let used := ((Compiler.fresh {} (some 1)).run [⟨.rule, .text "vibe-flex"⟩]).2
    let session := Pass.recorded Log.debug [
      (["p"], .folder),
      (["p", "a.html"], .file "<p class=\"vibe-flex vibe-btn\">".toUTF8)]
    (used.stylesheet ["vibe-btn", "vibe-flex"] "").2 =
      ((Compiler.fresh {} none).classify .empty ["vibe-flex", "vibe-btn", "vibe-btn"]).1 ∧
    ∃ report after size later,
      Pass.generate (Path.ofText "p") (Path.ofText "p/out.css") { includeBase := false } session =
        .ok report after ∧
      report.outcome = .written { recognized := ["vibe-flex"], unknown := ["vibe-btn"] } size ∧
      Pass.classify (Path.ofText "p") {} session =
        .ok { recognized := ["vibe-flex"], unknown := ["vibe-btn"] } later := by
  intro used session
  refine ⟨scan_agrees_with_generation.1 {} none (some 1) [] [⟨.rule, .text "vibe-flex"⟩]
    ["vibe-flex", "vibe-btn", "vibe-btn"] ["vibe-btn", "vibe-flex"] "" ?_, ?_⟩
  · intro token
    simp [or_comm]
  · have hreport : (Pass.generate (Path.ofText "p") (Path.ofText "p/out.css")
        { includeBase := false }).run' session = some {
          output := Path.ofText "p/out.css"
          outcome := .written { recognized := ["vibe-flex"], unknown := ["vibe-btn"] } 30 } := by
      decide +kernel
    rw [EStateM.run', EStateM.run] at hreport
    cases hgenerate : Pass.generate (Path.ofText "p") (Path.ofText "p/out.css") { includeBase := false }
        session with
    | error failure after =>
      rw [hgenerate] at hreport
      cases hreport
    | ok report after =>
      rw [hgenerate] at hreport
      obtain rfl := Option.some.inj hreport
      obtain ⟨-, -, classes, size, later, -, -, houtcome, hlater⟩ :=
        scan_agrees_with_generation.2 session session after _ _ _ _ true none rfl hgenerate rfl
      obtain ⟨rfl, -⟩ := Outcome.written.inj houtcome
      exact ⟨_, after, _, later, rfl, rfl, hlater⟩

end UtilityCss
