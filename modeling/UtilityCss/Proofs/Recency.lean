import UtilityCss.Compiler
import UtilityCss.Proofs.Assembly
import Mathlib.Data.Finset.Card
import Mathlib.Data.List.Basic

/-!
# What a compiler remembers

A compiler is asked one call after another. Its memory holds the tokens that it used most recently, as many
as there is room for, each with the rules that the token compiles to. So a call finds its token in the memory
exactly when the token is among these, and no answer depends on the calls before it.
-/

namespace UtilityCss

section Lists

variable {α : Type} [DecidableEq α]

theorem eraseDups_filter (p : α → Bool) (l : List α) :
    (l.filter p).eraseDups = l.eraseDups.filter p := by
  induction hlength : l.length using Nat.strong_induction_on generalizing l with
  | _ length ih =>
    cases l with
    | nil => rfl
    | cons a l =>
      have hrest := ih (l.filter fun b => !b == a).length
        (hlength ▸ Nat.lt_succ_of_le (List.length_filter_le _ _)) _ rfl
      rw [List.eraseDups_cons]
      cases hp : p a with
      | false =>
        have hsame : l.filter p = (l.filter fun b => !b == a).filter p := by
          rw [List.filter_filter]
          refine List.filter_congr fun b _ => ?_
          by_cases hb : b = a
          · rw [hb, hp, Bool.false_and]
          · rw [beq_false_of_ne hb, Bool.not_false, Bool.and_true]
        rw [List.filter_cons_of_neg (by simp [hp]), List.filter_cons_of_neg (by simp [hp]), hsame, hrest]
      | true =>
        rw [List.filter_cons_of_pos hp, List.filter_cons_of_pos hp, List.eraseDups_cons, ← hrest,
          List.filter_filter, List.filter_filter]
        simp only [Bool.and_comm]

theorem filter_ne_take_succ {l : List α} {a : α} {limit : Nat} (hnodup : l.Nodup)
    (h : a ∈ l.take (limit + 1)) :
    (l.take (limit + 1)).filter (· ≠ a) = (l.filter (· ≠ a)).take limit := by
  induction l generalizing limit with
  | nil => simp
  | cons b l ih =>
    obtain ⟨hb, hl⟩ := List.nodup_cons.1 hnodup
    rw [List.take_succ_cons] at h ⊢
    by_cases hba : b = a
    · subst hba
      have hself : ∀ c ∈ l, (decide (c ≠ b)) = true := fun c hc =>
        decide_eq_true fun heq => hb (heq ▸ hc)
      rw [List.filter_cons_of_neg (by simp), List.filter_cons_of_neg (by simp),
        List.filter_eq_self.2 hself, List.filter_eq_self.2 fun c hc => hself c (List.mem_of_mem_take hc)]
    · have hmem : a ∈ l.take limit := (List.mem_cons.1 h).resolve_left (Ne.symm hba)
      rw [List.filter_cons_of_pos (by simpa using hba), List.filter_cons_of_pos (by simpa using hba)]
      cases limit with
      | zero => simp at hmem
      | succ limit => rw [List.take_succ_cons, ih hl hmem]

theorem take_filter_ne {l : List α} {a : α} {limit : Nat} (h : a ∉ l.take (limit + 1)) :
    (l.filter (· ≠ a)).take limit = l.take limit := by
  induction l generalizing limit with
  | nil => rfl
  | cons b l ih =>
    rw [List.take_succ_cons, List.mem_cons, not_or] at h
    rw [List.filter_cons_of_pos (by simpa using Ne.symm h.1)]
    cases limit with
    | zero => rfl
    | succ limit => rw [List.take_succ_cons, List.take_succ_cons, ih h.2]

end Lists

/-- The different tokens of a series of uses, the one used last in front. -/
def recency (uses : List String) : List String := uses.reverse.eraseDups

def upTo {α : Type} (capacity : Option Nat) (l : List α) : List α :=
  match capacity with
  | none => l
  | some limit => l.take limit

def mostRecent (capacity : Option Nat) (uses : List String) : List String :=
  upTo capacity (recency uses)

section Recency

variable {token : String} {uses : List String}

theorem nodup_recency (uses : List String) : (recency uses).Nodup := nodup_eraseDups _

theorem recency_append (uses : List String) (token : String) :
    recency (uses ++ [token]) = token :: (recency uses).filter (· ≠ token) := by
  rw [recency, List.reverse_append, List.reverse_singleton, List.singleton_append, List.eraseDups_cons,
    eraseDups_filter, recency]
  congr 1
  refine List.filter_congr fun other _ => ?_
  by_cases h : other = token <;> simp [h]

theorem length_recency (uses : List String) : (recency uses).length = uses.toFinset.card := by
  rw [← List.toFinset_card_of_nodup (nodup_recency uses)]
  congr 1
  ext token
  rw [List.mem_toFinset, List.mem_toFinset, recency, List.mem_eraseDups, List.mem_reverse]

theorem length_mostRecent (capacity : Option Nat) (uses : List String) :
    (mostRecent capacity uses).length =
      capacity.elim uses.toFinset.card fun limit => min limit uses.toFinset.card := by
  cases capacity with
  | none => exact length_recency uses
  | some limit =>
    rw [mostRecent, upTo, List.length_take, length_recency]
    rfl

theorem mostRecent_append_of_mem {capacity : Option Nat} (h : token ∈ mostRecent capacity uses) :
    mostRecent capacity (uses ++ [token]) = token :: (mostRecent capacity uses).filter (· ≠ token) := by
  cases capacity with
  | none => exact recency_append uses token
  | some limit =>
    cases limit with
    | zero => exact absurd h List.not_mem_nil
    | succ limit =>
      simp only [mostRecent, upTo] at h ⊢
      rw [recency_append, List.take_succ_cons, filter_ne_take_succ (nodup_recency uses) h]

theorem mostRecent_append_of_notMem {capacity : Option Nat} (h : token ∉ mostRecent capacity uses) :
    mostRecent capacity (uses ++ [token]) = upTo capacity (token :: mostRecent capacity uses) := by
  cases capacity with
  | none =>
    have hself : ∀ other ∈ recency uses, (decide (other ≠ token)) = true := fun other hother =>
      decide_eq_true fun heq => h (heq ▸ hother)
    exact (recency_append uses token).trans (congrArg (token :: ·) (List.filter_eq_self.2 hself))
  | some limit =>
    cases limit with
    | zero => rfl
    | succ limit =>
      simp only [mostRecent, upTo] at h ⊢
      rw [recency_append, List.take_succ_cons, List.take_succ_cons, take_filter_ne h, List.take_take,
        Nat.min_eq_left (Nat.le_succ limit)]

end Recency

namespace Memory

variable {memory : Memory} {compile : String → List Rule} {uses : List String} {token : String}

theorem map_kept {α : Type} (f : String × List Rule → α) (capacity : Option Nat)
    (entries : List (String × List Rule)) :
    (kept capacity entries).map f = upTo capacity (entries.map f) := by
  cases capacity with
  | none => rfl
  | some limit => exact List.map_take

theorem mem_of_mem_kept {capacity : Option Nat} {entries : List (String × List Rule)}
    {entry : String × List Rule} (h : entry ∈ kept capacity entries) : entry ∈ entries := by
  cases capacity with
  | none => exact h
  | some limit => exact List.mem_of_mem_take h

/-- The memory after a series of uses: it holds the most recent tokens with their rules, and every use
counts. -/
structure Reflects (memory : Memory) (compile : String → List Rule) (uses : List String) : Prop where
  tokens : memory.recent.map Prod.fst = mostRecent memory.capacity uses
  rules : ∀ entry ∈ memory.recent, entry.2 = compile entry.1
  counted : memory.hits + memory.misses = uses.length

theorem reflects_ofSize (size : Option Int) (compile : String → List Rule) :
    (ofSize size).Reflects compile [] where
  tokens := by
    cases size with
    | none => rfl
    | some limit => exact List.take_nil.symm
  rules := fun _ h => absurd h List.not_mem_nil
  counted := rfl

namespace Reflects

theorem length_recent (h : memory.Reflects compile uses) :
    memory.recent.length =
      memory.capacity.elim uses.toFinset.card fun limit => min limit uses.toFinset.card := by
  rw [← List.length_map Prod.fst, h.tokens, length_mostRecent]

theorem mem_iff (h : memory.Reflects compile uses) :
    token ∈ mostRecent memory.capacity uses ↔ ∃ rules, (token, rules) ∈ memory.recent := by
  rw [← h.tokens, List.mem_map]
  exact ⟨fun ⟨(_, rules), hmem, rfl⟩ => ⟨rules, hmem⟩, fun ⟨rules, hmem⟩ => ⟨_, hmem, rfl⟩⟩

theorem lookup_of_mem (h : memory.Reflects compile uses) (hmem : token ∈ mostRecent memory.capacity uses) :
    memory.recent.lookup token = some (compile token) := by
  obtain ⟨rules, hentry⟩ := h.mem_iff.1 hmem
  cases hlookup : memory.recent.lookup token with
  | none => exact absurd (List.lookup_eq_none_iff.1 hlookup _ hentry) (by simp)
  | some found =>
    obtain ⟨before, after, hrecent, -⟩ := List.lookup_eq_some_iff.1 hlookup
    exact congrArg some (h.rules (token, found) (hrecent ▸ List.mem_append_cons_self))

theorem lookup_of_notMem (h : memory.Reflects compile uses)
    (hmem : token ∉ mostRecent memory.capacity uses) : memory.recent.lookup token = none :=
  List.lookup_eq_none_iff.2 fun (_, rules) hentry =>
    bne_iff_ne.2 fun heq => hmem (h.mem_iff.2 ⟨rules, heq ▸ hentry⟩)

theorem use_fst (h : memory.Reflects compile uses) (token : String) :
    (memory.use compile token).1 = compile token := by
  by_cases hmem : token ∈ mostRecent memory.capacity uses
  · rw [use, h.lookup_of_mem hmem]
  · rw [use, h.lookup_of_notMem hmem]

theorem use (h : memory.Reflects compile uses) (token : String) :
    (memory.use compile token).2.Reflects compile (uses ++ [token]) := by
  by_cases hmem : token ∈ mostRecent memory.capacity uses
  · simp only [Memory.use, h.lookup_of_mem hmem]
    refine ⟨?_, ?_, ?_⟩
    · rw [List.map_cons, mostRecent_append_of_mem hmem, ← h.tokens, List.filter_map]
      rfl
    · rintro entry hentry
      rcases List.mem_cons.1 hentry with rfl | hold
      · rfl
      · exact h.rules entry (List.mem_filter.1 hold).1
    · rw [List.length_append, ← h.counted, List.length_singleton]
      exact Nat.add_right_comm ..
  · simp only [Memory.use, h.lookup_of_notMem hmem]
    refine ⟨?_, ?_, ?_⟩
    · rw [mostRecent_append_of_notMem hmem, map_kept, List.map_cons, h.tokens]
    · rintro entry hentry
      rcases List.mem_cons.1 (mem_of_mem_kept hentry) with rfl | hold
      · rfl
      · exact h.rules entry hold
    · rw [List.length_append, ← h.counted, List.length_singleton]
      rfl

theorem use_counts (h : memory.Reflects compile uses) (token : String) :
    if token ∈ mostRecent memory.capacity uses then
      (memory.use compile token).2.hits = memory.hits + 1 ∧
        (memory.use compile token).2.misses = memory.misses
    else
      (memory.use compile token).2.hits = memory.hits ∧
        (memory.use compile token).2.misses = memory.misses + 1 := by
  split
  · rename_i hmem
    rw [Memory.use, h.lookup_of_mem hmem]
    exact ⟨rfl, rfl⟩
  · rename_i hmem
    rw [Memory.use, h.lookup_of_notMem hmem]
    exact ⟨rfl, rfl⟩

end Reflects

theorem capacity_use (memory : Memory) (compile : String → List Rule) (token : String) :
    (memory.use compile token).2.capacity = memory.capacity := by
  rw [use]
  split <;> rfl

end Memory

namespace Compiler

structure Call where
  query : Query
  value : Value

def token? (value : Value) : Option String := value.text?.filter (· ≠ "")

def Call.token? (call : Call) : Option String :=
  match call.query with
  | .rule | .rules | .recognition => Compiler.token? call.value
  | .token | .explanation => none

def fresh (naming : Naming) (size : Option Int) : Compiler := { naming, memory := .ofSize size }

def run (compiler : Compiler) : List Call → List Answer × Compiler
  | [] => ([], compiler)
  | call :: calls =>
    let (answer, next) := compiler.ask call.query call.value
    let (answers, last) := next.run calls
    (answer :: answers, last)

/-- What the calls so far have made of a compiler. -/
structure Reflects (compiler : Compiler) (naming : Naming) (size : Option Int) (uses : List String) :
    Prop where
  sameNaming : compiler.naming = naming
  capacity : compiler.memory.capacity = size.map Int.toNat
  memory : compiler.memory.Reflects naming.rules uses

variable {compiler other : Compiler} {naming : Naming} {size otherSize : Option Int}
  {uses otherUses : List String} {value : Value} {call : Call}

theorem rules_of_token? {token : String} (h : token? value = some token) (compiler : Compiler) :
    compiler.rules value = ((compiler.memory.use compiler.naming.rules token).1,
      { compiler with memory := (compiler.memory.use compiler.naming.rules token).2 }) := by
  obtain ⟨htext, hne⟩ := Option.filter_eq_some_iff.1 h
  cases value with
  | scalar scalar =>
    cases scalar with
    | text text =>
      obtain rfl := Option.some.inj htext
      rw [rules]
      simpa using hne
    | _ => cases htext
  | _ => cases htext

theorem rules_of_token?_eq_none (h : token? value = none) (compiler : Compiler) :
    compiler.rules value = ([], compiler) := by
  cases value with
  | scalar scalar =>
    cases scalar with
    | text text =>
      have hempty : text = "" := by simpa using Option.filter_eq_none_iff.1 h text rfl
      rw [hempty]
      rfl
    | _ => rfl
  | _ => rfl

theorem reflects_fresh (naming : Naming) (size : Option Int) :
    (fresh naming size).Reflects naming size [] where
  sameNaming := rfl
  capacity := rfl
  memory := Memory.reflects_ofSize size naming.rules

namespace Reflects

theorem rules_fst (h : compiler.Reflects naming size uses) (value : Value) :
    (compiler.rules value).1 = (token? value).elim [] naming.rules := by
  cases htoken : token? value with
  | none => rw [rules_of_token?_eq_none htoken]; rfl
  | some token =>
    rw [rules_of_token? htoken, h.sameNaming]
    exact h.memory.use_fst token

theorem rules_snd (h : compiler.Reflects naming size uses) (value : Value) :
    (compiler.rules value).2.Reflects naming size (uses ++ (token? value).toList) := by
  cases htoken : token? value with
  | none =>
    rw [rules_of_token?_eq_none htoken, Option.toList_none, List.append_nil]
    exact h
  | some token =>
    rw [rules_of_token? htoken, h.sameNaming]
    exact ⟨rfl, (Memory.capacity_use ..).trans h.capacity, h.memory.use token⟩

theorem ask_fst (h : compiler.Reflects naming size uses) (hother : other.Reflects naming otherSize otherUses)
    (query : Query) (value : Value) : (compiler.ask query value).1 = (other.ask query value).1 := by
  cases query with
  | rule | rules | recognition => simp only [ask, h.rules_fst, hother.rules_fst]
  | token | explanation => simp only [ask, h.sameNaming, hother.sameNaming]

theorem ask_snd (h : compiler.Reflects naming size uses) (call : Call) :
    (compiler.ask call.query call.value).2.Reflects naming size (uses ++ call.token?.toList) := by
  obtain ⟨query, value⟩ := call
  cases query with
  | rule | rules | recognition => exact h.rules_snd value
  | token | explanation => exact (List.append_nil uses).symm ▸ h

theorem run (h : compiler.Reflects naming size uses) (hother : other.Reflects naming otherSize otherUses)
    (calls : List Call) :
    (compiler.run calls).1 = calls.map (fun call => (other.ask call.query call.value).1) ∧
      (compiler.run calls).2.Reflects naming size (uses ++ calls.filterMap Call.token?) := by
  induction calls generalizing compiler uses with
  | nil => exact ⟨rfl, (List.append_nil uses).symm ▸ h⟩
  | cons call calls ih =>
    obtain ⟨hanswers, hlast⟩ := ih (h.ask_snd call)
    refine ⟨?_, ?_⟩
    · rw [List.map_cons, ← hanswers, ← h.ask_fst hother]
      rfl
    · have huses : uses ++ (call :: calls).filterMap Call.token? =
          uses ++ call.token?.toList ++ calls.filterMap Call.token? := by
        rw [List.append_assoc]
        cases htoken : call.token? with
        | none => rw [List.filterMap_cons_none htoken]; rfl
        | some token => rw [List.filterMap_cons_some htoken]; rfl
      rw [huses]
      exact hlast

end Reflects

theorem memory_ask_of_token?_eq_none (h : call.token? = none) (compiler : Compiler) :
    (compiler.ask call.query call.value).2.memory = compiler.memory := by
  obtain ⟨query, value⟩ := call
  cases query with
  | rule | rules | recognition =>
    exact congrArg (fun result => result.2.memory) (rules_of_token?_eq_none h compiler)
  | token | explanation => rfl

theorem memory_ask_of_token? {token : String} (h : call.token? = some token) (compiler : Compiler) :
    (compiler.ask call.query call.value).2.memory =
      (compiler.memory.use compiler.naming.rules token).2 := by
  obtain ⟨query, value⟩ := call
  cases query with
  | rule | rules | recognition =>
    exact congrArg (fun result => result.2.memory) (rules_of_token? h compiler)
  | token | explanation => cases h

/-- What the memory of a compiler shows that has used these tokens: its counts, its size, and how the next
call changes them. -/
structure KeepsMostRecent (compiler : Compiler) (size : Option Int) (uses : List String) : Prop where
  capacity : compiler.memory.capacity = size.map Int.toNat
  counted : compiler.memory.hits + compiler.memory.misses = uses.length
  length : compiler.memory.recent.length =
    (size.map Int.toNat).elim uses.toFinset.card fun limit => min limit uses.toFinset.card
  next (call : Call) :
    let after := (compiler.ask call.query call.value).2.memory
    match call.token? with
    | none => after = compiler.memory
    | some token =>
      if token ∈ mostRecent (size.map Int.toNat) uses then
        after.hits = compiler.memory.hits + 1 ∧ after.misses = compiler.memory.misses
      else
        after.hits = compiler.memory.hits ∧ after.misses = compiler.memory.misses + 1

theorem Reflects.keepsMostRecent (h : compiler.Reflects naming size uses) :
    compiler.KeepsMostRecent size uses where
  capacity := h.capacity
  counted := h.memory.counted
  length := h.capacity ▸ h.memory.length_recent
  next call := by
    cases htoken : call.token? with
    | none => exact memory_ask_of_token?_eq_none htoken compiler
    | some token =>
      simp only [memory_ask_of_token? htoken, h.sameNaming, ← h.capacity]
      exact h.memory.use_counts token

/-- A compiler answers every call as a new one would. A call that looks up a token is a hit exactly when the
token is among those used most recently, as many as there is room for; the other calls do not change the
memory. -/
theorem run_fresh (naming : Naming) (size otherSize : Option Int) (calls : List Call) :
    ((fresh naming size).run calls).1 =
        calls.map (fun call => ((fresh naming otherSize).ask call.query call.value).1) ∧
      ((fresh naming size).run calls).2.KeepsMostRecent size (calls.filterMap Call.token?) := by
  obtain ⟨hanswers, hlast⟩ := (reflects_fresh naming size).run (reflects_fresh naming otherSize) calls
  exact ⟨hanswers, hlast.keepsMostRecent⟩

end Compiler

end UtilityCss
