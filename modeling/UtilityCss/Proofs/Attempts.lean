import Mathlib.Data.List.Forall2

/-!
# Attempts

An attempt gives a result or an error. A sequence of attempts gives a result exactly when each of them does,
and trying something for every element of a list gives the results of all elements, in order.
-/

namespace UtilityCss

variable {ε α β : Type}

theorem bind_eq_ok {r : Except ε α} {f : α → Except ε β} {y : β} :
    (r >>= f) = .ok y ↔ ∃ x, r = .ok x ∧ f x = .ok y := by
  cases r with
  | error fault => simp [bind, Except.bind]
  | ok x => simp [bind, Except.bind]

theorem map_eq_ok {r : Except ε α} {f : α → β} {y : β} :
    r.map f = .ok y ↔ ∃ x, r = .ok x ∧ f x = y := by
  cases r with
  | error fault => simp [Except.map]
  | ok x => simp [Except.map]

theorem mapError_eq_ok {ε' : Type} {r : Except ε α} {f : ε → ε'} {y : α} :
    r.mapError f = .ok y ↔ r = .ok y := by
  cases r <;> simp [Except.mapError]

theorem mapM_eq_ok {f : α → Except ε β} {xs : List α} {ys : List β} :
    xs.mapM f = .ok ys ↔ List.Forall₂ (fun x y => f x = .ok y) xs ys := by
  induction xs generalizing ys with
  | nil =>
    rw [List.mapM_nil, List.forall₂_nil_left_iff]
    exact ⟨fun h => (Except.ok.inj h).symm, fun h => congrArg Except.ok h.symm⟩
  | cons x xs ih =>
    rw [List.mapM_cons, bind_eq_ok, List.forall₂_cons_left_iff]
    refine exists_congr fun y => ?_
    rw [bind_eq_ok]
    constructor
    · rintro ⟨hy, rest, hrest, heq⟩
      exact ⟨rest, hy, ih.1 hrest, (Except.ok.inj heq).symm⟩
    · rintro ⟨rest, hy, hrest, rfl⟩
      exact ⟨hy, rest, ih.2 hrest, rfl⟩

theorem mapM_eq_ok_map {f : α → Except ε β} {g : α → β} {xs : List α} (h : ∀ x ∈ xs, f x = .ok (g x)) :
    xs.mapM f = .ok (xs.map g) :=
  mapM_eq_ok.2 (List.forall₂_map_right_iff.2 (List.forall₂_same.2 h))

theorem mapM_map {γ : Type} (f : α → Except ε β) (g : β → γ) (xs : List α) :
    xs.mapM (fun x => (f x).map g) = (xs.mapM f).map (List.map g) := by
  induction xs with
  | nil => rfl
  | cons x xs ih =>
    rw [List.mapM_cons, List.mapM_cons, ih]
    cases f x with
    | error fault => rfl
    | ok y => cases xs.mapM f <;> rfl

theorem mapM_eq_ok_filterMap {f : α → Except ε β} {g : α → Option β} {xs : List α}
    (h : ∀ x ∈ xs, ∃ y, f x = .ok y ∧ g x = some y) : xs.mapM f = .ok (xs.filterMap g) := by
  rw [mapM_eq_ok]
  induction xs with
  | nil => exact .nil
  | cons x xs ih =>
    obtain ⟨⟨y, hf, hg⟩, hrest⟩ := List.forall_mem_cons.1 h
    rw [List.filterMap_cons_some hg]
    exact .cons hf (ih hrest)

theorem mem_mapM {f : α → Except ε β} {xs : List α} {ys : List β} (h : xs.mapM f = .ok ys) {y : β} :
    y ∈ ys ↔ ∃ x ∈ xs, f x = .ok y := by
  induction mapM_eq_ok.1 h with
  | nil => simp
  | @cons x z xs zs hz hrest ih =>
    rw [List.mem_cons, List.exists_mem_cons_iff, ih (mapM_eq_ok.2 hrest), hz, Except.ok.injEq,
      @eq_comm _ y z]

theorem exists_mapM_eq_ok {f : α → Except ε β} {xs : List α} :
    (∃ ys, xs.mapM f = .ok ys) ↔ ∀ x ∈ xs, ∃ y, f x = .ok y := by
  induction xs with
  | nil => simp [pure, Except.pure]
  | cons x xs ih =>
    rw [List.forall_mem_cons, ← ih]
    constructor
    · rintro ⟨ys, h⟩
      rw [List.mapM_cons] at h
      obtain ⟨y, hy, h⟩ := bind_eq_ok.1 h
      obtain ⟨rest, hrest, -⟩ := bind_eq_ok.1 h
      exact ⟨⟨y, hy⟩, rest, hrest⟩
    · rintro ⟨⟨y, hy⟩, rest, hrest⟩
      exact ⟨y :: rest, mapM_eq_ok.2 (.cons hy (mapM_eq_ok.1 hrest))⟩

theorem bind_eq_error {r : Except ε α} {f : α → Except ε β} {fault : ε} :
    (r >>= f) = .error fault ↔ r = .error fault ∨ ∃ x, r = .ok x ∧ f x = .error fault := by
  cases r with
  | error other => simp [bind, Except.bind]
  | ok x => simp [bind, Except.bind]

theorem map_eq_error {r : Except ε α} {f : α → β} {fault : ε} :
    r.map f = .error fault ↔ r = .error fault := by
  cases r <;> simp [Except.map]

theorem mapError_eq_error {ε' : Type} {r : Except ε α} {f : ε → ε'} {fault : ε'} :
    r.mapError f = .error fault ↔ ∃ other, r = .error other ∧ f other = fault := by
  cases r <;> simp [Except.mapError]

theorem mapM_eq_error {f : α → Except ε β} {xs : List α} {fault : ε} :
    xs.mapM f = .error fault ↔ ∃ before x after, xs = before ++ x :: after ∧
      (∀ y ∈ before, ∃ z, f y = .ok z) ∧ f x = .error fault := by
  induction xs with
  | nil => simp [pure, Except.pure]
  | cons first xs ih =>
    rw [List.mapM_cons, bind_eq_error]
    constructor
    · rintro (hfirst | ⟨y, hy, h⟩)
      · exact ⟨[], first, xs, rfl, List.forall_mem_nil _, hfirst⟩
      · rcases bind_eq_error.1 h with hrest | ⟨ys, -, h⟩
        · obtain ⟨before, x, after, rfl, hbefore, hx⟩ := ih.1 hrest
          exact ⟨first :: before, x, after, rfl, List.forall_mem_cons.2 ⟨⟨y, hy⟩, hbefore⟩, hx⟩
        · cases h
    · rintro ⟨before, x, after, heq, hbefore, hx⟩
      cases before with
      | nil =>
        obtain ⟨rfl, rfl⟩ := List.cons.inj heq
        exact .inl hx
      | cons y before =>
        obtain ⟨rfl, rfl⟩ := List.cons.inj heq
        obtain ⟨⟨z, hz⟩, hbefore⟩ := List.forall_mem_cons.1 hbefore
        exact .inr ⟨z, hz, bind_eq_error.2 (.inl (ih.2 ⟨before, x, after, rfl, hbefore, hx⟩))⟩

theorem exists_of_mapM_eq_error {f : α → Except ε β} {xs : List α} {fault : ε}
    (h : xs.mapM f = .error fault) : ∃ x ∈ xs, f x = .error fault := by
  obtain ⟨before, x, after, rfl, -, hx⟩ := mapM_eq_error.1 h
  exact ⟨x, List.mem_append_right _ List.mem_cons_self, hx⟩

end UtilityCss
