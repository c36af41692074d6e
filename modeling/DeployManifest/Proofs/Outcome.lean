import Mathlib.Data.List.Forall2

/-! # Rows of steps that may fail

A row of steps goes on until the first one fails, whose error is that of the row. `mapM_eq_ok_iff`
and `foldlM_eq_error_iff` take such a row apart; the other lemmas do so for a single step.
-/

namespace DeployManifest.Outcome

universe u v w

variable {ε : Type u} {ε' : Type w} {α β : Type v}

theorem pure_eq_ok_iff {a b : α} : (pure a : Except ε α) = .ok b ↔ a = b := by
  simp only [pure, Except.pure, Except.ok.injEq]

theorem bind_eq_ok_iff {x : Except ε α} {f : α → Except ε β} {b : β} :
    (x >>= f) = .ok b ↔ ∃ a, x = .ok a ∧ f a = .ok b := by
  cases x <;> simp [bind, Except.bind]

theorem bind_eq_error_iff {x : Except ε α} {f : α → Except ε β} {e : ε} :
    (x >>= f) = .error e ↔ x = .error e ∨ ∃ a, x = .ok a ∧ f a = .error e := by
  cases x <;> simp [bind, Except.bind]

theorem map_eq_ok_iff {x : Except ε α} {f : α → β} {b : β} :
    x.map f = .ok b ↔ ∃ a, x = .ok a ∧ f a = b := by
  cases x <;> simp [Except.map]

theorem map_eq_error_iff {x : Except ε α} {f : α → β} {e : ε} :
    x.map f = .error e ↔ x = .error e := by
  cases x <;> simp [Except.map]

theorem mapError_eq_ok_iff {x : Except ε α} {f : ε → ε'} {a : α} :
    x.mapError f = .ok a ↔ x = .ok a := by
  cases x <;> simp [Except.mapError]

theorem exists_ok_of_toOption {x : Except ε α} {f : α → β} {b : β}
    (computed : x.toOption.map f = some b) : ∃ a, x = .ok a ∧ f a = b := by
  cases x with
  | error e => cases computed
  | ok a => exact ⟨a, rfl, Option.some.inj computed⟩

theorem eq_ok_of_toOption {x : Except ε α} {a : α} (given : x.toOption = some a) : x = .ok a := by
  cases x with
  | error e => cases given
  | ok b => exact congrArg _ (Option.some.inj given)

/-- A row succeeds when each step does, with the results in order. -/
theorem mapM_eq_ok_iff {f : α → Except ε β} {xs : List α} {ys : List β} :
    xs.mapM f = .ok ys ↔ List.Forall₂ (fun x y => f x = .ok y) xs ys := by
  induction xs generalizing ys with
  | nil => rw [List.mapM_nil, pure_eq_ok_iff, List.forall₂_nil_left_iff, eq_comm]
  | cons x xs ih =>
    simp only [List.mapM_cons, bind_eq_ok_iff, pure_eq_ok_iff, List.forall₂_cons_left_iff, ih]
    constructor
    · rintro ⟨y, first, rest, tail, rfl⟩
      exact ⟨y, rest, first, tail, rfl⟩
    · rintro ⟨y, rest, first, tail, rfl⟩
      exact ⟨y, first, rest, tail, rfl⟩

theorem mapM_congr {f g : α → Except ε β} {xs : List α} (same : ∀ x ∈ xs, f x = g x) :
    xs.mapM f = xs.mapM g := by
  induction xs with
  | nil => rfl
  | cons x xs ih =>
    obtain ⟨first, same⟩ := List.forall_mem_cons.mp same
    rw [List.mapM_cons, List.mapM_cons, first, ih same]

theorem exists_ok_of_mapM {f : α → Except ε β} {xs : List α} {ys : List β}
    (succeeded : xs.mapM f = .ok ys) : ∀ x ∈ xs, ∃ y, f x = .ok y := by
  have each := mapM_eq_ok_iff.mp succeeded
  clear succeeded
  induction each with
  | nil => simp
  | cons first _ ih => exact List.forall_mem_cons.mpr ⟨⟨_, first⟩, ih⟩

theorem mem_of_mapM {f : α → Except ε β} {xs : List α} {ys : List β}
    (succeeded : xs.mapM f = .ok ys) {x : α} (member : x ∈ xs) {y : β} (given : f x = .ok y) :
    y ∈ ys := by
  have each := mapM_eq_ok_iff.mp succeeded
  clear succeeded
  induction each with
  | nil => cases member
  | cons first _ ih =>
    rcases List.mem_cons.mp member with rfl | member
    · obtain rfl := Except.ok.inj (given.symm.trans first)
      exact List.mem_cons_self ..
    · exact List.mem_cons_of_mem _ (ih member)

theorem exists_of_mem_of_forall₂ {R : α → β → Prop} {xs : List α} {ys : List β}
    (each : List.Forall₂ R xs ys) {y : β} (member : y ∈ ys) : ∃ x ∈ xs, R x y := by
  induction each with
  | nil => cases member
  | @cons x _ xs _ first _ ih =>
    rcases List.mem_cons.mp member with rfl | member
    · exact ⟨x, List.mem_cons_self .., first⟩
    · obtain ⟨x, inside, found⟩ := ih member
      exact ⟨x, List.mem_cons_of_mem _ inside, found⟩

theorem exists_of_mem_of_mapM {f : α → Except ε β} {xs : List α} {ys : List β}
    (succeeded : xs.mapM f = .ok ys) {y : β} (member : y ∈ ys) : ∃ x ∈ xs, f x = .ok y :=
  exists_of_mem_of_forall₂ (mapM_eq_ok_iff.mp succeeded) member

/-- A row fails with the error of one step; the steps before it succeed. -/
theorem mapM_eq_error_iff {f : α → Except ε β} {xs : List α} {e : ε} :
    xs.mapM f = .error e ↔
      ∃ earlier x later, xs = earlier ++ x :: later ∧ (∀ y ∈ earlier, ∃ b, f y = .ok b) ∧
        f x = .error e := by
  induction xs with
  | nil =>
    rw [List.mapM_nil]
    constructor
    · intro failed
      cases failed
    · rintro ⟨earlier, x, later, split, -⟩
      cases earlier <;> cases split
  | cons x xs ih =>
    simp only [List.mapM_cons, bind_eq_error_iff, ih]
    constructor
    · rintro (failed | ⟨y, first, failed | ⟨ys, -, failed⟩⟩)
      · exact ⟨[], x, xs, rfl, by simp, failed⟩
      · obtain ⟨earlier, z, later, rfl, succeeded, failed⟩ := failed
        exact ⟨x :: earlier, z, later, rfl,
          List.forall_mem_cons.mpr ⟨⟨y, first⟩, succeeded⟩, failed⟩
      · cases failed
    · rintro ⟨earlier, z, later, split, succeeded, failed⟩
      cases earlier with
      | nil =>
        obtain ⟨rfl, -⟩ := List.cons.inj split
        exact .inl failed
      | cons _ earlier =>
        obtain ⟨rfl, rfl⟩ := List.cons.inj split
        obtain ⟨⟨y, first⟩, succeeded⟩ := List.forall_mem_cons.mp succeeded
        exact .inr ⟨y, first, .inl ⟨earlier, z, later, rfl, succeeded, failed⟩⟩

/-- A row that carries a state fails with the error of one step; the steps before it succeed. -/
theorem foldlM_eq_error_iff {step : β → α → Except ε β} {xs : List α} {start : β} {e : ε} :
    xs.foldlM step start = .error e ↔
      ∃ earlier x later state, xs = earlier ++ x :: later ∧
        earlier.foldlM step start = .ok state ∧ step state x = .error e := by
  constructor
  · intro failed
    induction xs generalizing start with
    | nil => cases failed
    | cons x xs ih =>
      rw [List.foldlM_cons, bind_eq_error_iff] at failed
      rcases failed with failed | ⟨next, first, failed⟩
      · exact ⟨[], x, xs, start, rfl, rfl, failed⟩
      · obtain ⟨earlier, y, later, state, rfl, reached, failed⟩ := ih failed
        refine ⟨x :: earlier, y, later, state, rfl, ?_, failed⟩
        rw [List.foldlM_cons, bind_eq_ok_iff]
        exact ⟨next, first, reached⟩
  · rintro ⟨earlier, x, later, state, rfl, reached, failed⟩
    rw [List.foldlM_append, reached]
    simp only [bind, Except.bind, List.foldlM_cons, failed]

end DeployManifest.Outcome
