import DeployManifest.Text.Blank

/-! # Cutting a text at a separator

`cut sep cs` is the list of the pieces between the separators. Joining the pieces gives the text
back (`join_cut`), and no piece holds a separator (`not_mem_of_mem_cut`). A text is a list of
characters here, or one of bytes.
-/

namespace DeployManifest.Text

variable {α : Type} [DecidableEq α]

/-- The pieces of a text between the occurrences of a separator; there is always at least one. -/
def cut (sep : α) : List α → List (List α)
  | [] => [[]]
  | c :: cs =>
    if c = sep then [] :: cut sep cs
    else
      match cut sep cs with
      | [] => [[c]]
      | piece :: pieces => (c :: piece) :: pieces

/-- The pieces of a text with a separator between each two. -/
def join {α : Type} (sep : List α) : List (List α) → List α
  | [] => []
  | [piece] => piece
  | piece :: pieces => piece ++ sep ++ join sep pieces

theorem cut_ne_nil (sep : α) (cs : List α) : cut sep cs ≠ [] := by
  cases cs with
  | nil => simp [cut]
  | cons c cs =>
    simp only [cut]
    split
    · simp
    · split <;> simp

theorem join_cut (sep : α) (cs : List α) : join [sep] (cut sep cs) = cs := by
  induction cs with
  | nil => rfl
  | cons c cs ih =>
    obtain ⟨piece, pieces, h⟩ := List.exists_cons_of_ne_nil (cut_ne_nil sep cs)
    rw [h] at ih
    by_cases hc : c = sep
    · simp [cut, hc, h, join, ih]
    · cases pieces <;> simp_all [cut, join]

theorem not_mem_of_mem_cut {sep : α} {cs piece : List α} (member : piece ∈ cut sep cs) :
    sep ∉ piece := by
  induction cs generalizing piece with
  | nil => simp_all [cut]
  | cons c cs ih =>
    by_cases hc : c = sep
    · simp only [cut, hc, if_true, List.mem_cons] at member
      rcases member with rfl | member
      · simp
      · exact ih member
    · simp only [cut, hc, if_false] at member
      cases h : cut sep cs with
      | nil => exact absurd h (cut_ne_nil sep cs)
      | cons first rest =>
        simp only [h, List.mem_cons] at member
        rcases member with rfl | member
        · simp only [List.mem_cons, not_or]
          exact ⟨fun eq => hc eq.symm, ih (by simp [h])⟩
        · exact ih (by simp [h, member])

/-- The text after a given start, when it has that start. -/
def after? (start : List α) (cs : List α) : Option (List α) :=
  if start.isPrefixOf cs then some (cs.drop start.length) else none

def before? (ending : List α) (cs : List α) : Option (List α) :=
  if ending.isSuffixOf cs then some (cs.take (cs.length - ending.length)) else none

end DeployManifest.Text
