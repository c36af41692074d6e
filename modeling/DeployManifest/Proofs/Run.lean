import Mathlib.Data.List.Induction

/-! # Runs of steps that are answered

Steps are taken one after the other from a state. Each has an answer, and a run goes on behind a
step that is refused. What holds of a state and the steps that led to it is shown step by step
(`runAll_reaches`), and each answer is that of its step (`getElem?_runAll`).
-/

namespace DeployManifest

variable {σ ι γ : Type}

/-- Takes steps one after the other: the state at the end, and the answer to each. -/
def runAll (step : σ → ι → σ × γ) (start : σ) : List ι → σ × List γ
  | [] => (start, [])
  | x :: xs =>
    let (next, answer) := step start x
    let (last, answers) := runAll step next xs
    (last, answer :: answers)

variable {step : σ → ι → σ × γ} {start : σ}

theorem runAll_cons (x : ι) (xs : List ι) :
    runAll step start (x :: xs) = ((runAll step (step start x).1 xs).1,
      (step start x).2 :: (runAll step (step start x).1 xs).2) := rfl

theorem runAll_append (xs ys : List ι) :
    runAll step start (xs ++ ys) = ((runAll step (runAll step start xs).1 ys).1,
      (runAll step start xs).2 ++ (runAll step (runAll step start xs).1 ys).2) := by
  induction xs generalizing start with
  | nil => rfl
  | cons x xs ih => rw [List.cons_append, runAll_cons, ih, runAll_cons, List.cons_append]

/-- One more step starts where the others have led to. -/
theorem runAll_concat (xs : List ι) (x : ι) :
    (runAll step start (xs ++ [x])).1 = (step (runAll step start xs).1 x).1 := by
  rw [runAll_append]
  rfl

theorem length_runAll (xs : List ι) : (runAll step start xs).2.length = xs.length := by
  induction xs generalizing start with
  | nil => rfl
  | cons x xs ih => rw [runAll_cons, List.length_cons, List.length_cons, ih]

/-- The answer to a step stands in its place. -/
theorem getElem?_runAll (earlier : List ι) (x : ι) (later : List ι) :
    (runAll step start (earlier ++ x :: later)).2[earlier.length]? =
      some (step (runAll step start earlier).1 x).2 := by
  have position : (runAll step start earlier).2.length = earlier.length := length_runAll earlier
  rw [runAll_append]
  dsimp only
  rw [List.getElem?_append_right (by omega), position, Nat.sub_self, runAll_cons]
  rfl

/-- What a step keeps of a state and the steps up to it holds at the end of a run. -/
theorem runAll_reaches {holds : List ι → σ → Prop} (initial : holds [] start)
    (kept : ∀ xs s x, holds xs s → holds (xs ++ [x]) (step s x).1) (xs : List ι) :
    holds xs (runAll step start xs).1 := by
  induction xs using List.reverseRecOn with
  | nil => exact initial
  | append_singleton xs x ih =>
    rw [runAll_concat]
    exact kept xs _ x ih

end DeployManifest
