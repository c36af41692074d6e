import DeployManifest.Text.Cut
import Mathlib.Data.List.DropRight

/-! # Stripped and cut texts

Letters and digits are ranges of code points. A stripped text has no character of the class at
either end, so stripping it again changes nothing. The pieces of a cut text are joined by the
library's `List.intercalate`, and pieces without a separator come back out of the text that they are
joined to (`cut_join`).
-/

namespace DeployManifest.Text

/-! ### Classes of characters -/

theorem isDigit_iff {c : Char} : c.isDigit = true ↔ 48 ≤ c.toNat ∧ c.toNat ≤ 57 :=
  Bool.and_eq_true_iff.trans (and_congr decide_eq_true_iff decide_eq_true_iff)

theorem isLower_iff {c : Char} : c.isLower = true ↔ 97 ≤ c.toNat ∧ c.toNat ≤ 122 :=
  Bool.and_eq_true_iff.trans (and_congr decide_eq_true_iff decide_eq_true_iff)

theorem isUpper_iff {c : Char} : c.isUpper = true ↔ 65 ≤ c.toNat ∧ c.toNat ≤ 90 :=
  decide_eq_true_iff

/-! ### Stripped texts -/

variable {p : Char → Bool}

theorem dropEndWhile_eq_rdropWhile (p : Char → Bool) (cs : List Char) :
    dropEndWhile p cs = cs.rdropWhile p := rfl

/-- A text stays as it is when neither end is of the class. -/
theorem stripEnds_eq_self {cs : List Char} (front : ∀ c ∈ cs.head?, p c = false)
    (back : ∀ c ∈ cs.getLast?, p c = false) : stripEnds p cs = cs := by
  cases cs with
  | nil => rfl
  | cons c cs =>
    have kept : (c :: cs).dropWhile p = c :: cs := by
      rw [List.dropWhile_cons, if_neg (by simp [front c rfl])]
    rw [stripEnds, kept, dropEndWhile_eq_rdropWhile, List.rdropWhile_eq_self_iff]
    intro nonempty
    simp [back _ (List.getLast?_eq_some_getLast nonempty)]

/-- No character of the class is left in front. -/
theorem head?_stripEnds (p : Char → Bool) (cs : List Char) :
    ∀ c ∈ (stripEnds p cs).head?, p c = false := by
  intro c first
  have start : stripEnds p cs <+: cs.dropWhile p := List.rdropWhile_prefix p _
  obtain ⟨rest, same⟩ := start
  apply head?_dropWhile p cs
  rw [← same]
  exact List.mem_head?_append_of_mem_head? first

/-- No character of the class is left at the end. -/
theorem getLast?_stripEnds (p : Char → Bool) (cs : List Char) :
    ∀ c ∈ (stripEnds p cs).getLast?, p c = false := by
  intro c last
  obtain ⟨nonempty, rfl⟩ := List.mem_getLast?_eq_getLast last
  exact Bool.eq_false_iff.mpr (List.rdropWhile_last_not p (cs.dropWhile p) nonempty)

@[simp]
theorem stripEnds_stripEnds (p : Char → Bool) (cs : List Char) :
    stripEnds p (stripEnds p cs) = stripEnds p cs :=
  stripEnds_eq_self (head?_stripEnds p cs) (getLast?_stripEnds p cs)

/-- Characters of the class at either end make no difference. -/
theorem stripEnds_append {front cs back : List Char} (before : ∀ c ∈ front, p c = true)
    (behind : ∀ c ∈ back, p c = true) : stripEnds p (front ++ cs ++ back) = stripEnds p cs := by
  have dropped (kept : List Char) : dropEndWhile p (kept ++ back) = dropEndWhile p kept := by
    rw [dropEndWhile, List.reverse_append, List.dropWhile_append_of_pos (by simpa using behind),
      dropEndWhile]
  rw [stripEnds, List.append_assoc, List.dropWhile_append_of_pos before, List.dropWhile_append]
  split
  · rename_i nothing
    have whole : back.dropWhile p = [] := List.dropWhile_eq_nil_iff.mpr behind
    rw [whole, stripEnds, List.isEmpty_iff.mp nothing]
  · exact dropped _

/-! ### Cut and joined texts -/

variable {α : Type}

theorem join_cons_cons (sep first second : List α) (pieces : List (List α)) :
    join sep (first :: second :: pieces) = first ++ sep ++ join sep (second :: pieces) := rfl

theorem join_eq_intercalate (sep : List α) (pieces : List (List α)) :
    join sep pieces = sep.intercalate pieces := by
  induction pieces with
  | nil => rfl
  | cons piece pieces ih =>
    cases pieces with
    | nil => rw [join, List.intercalate_singleton]
    | cons next rest =>
      rw [join_cons_cons, ih, List.intercalate_cons_cons]

theorem join_eq_nil_iff {sep : α} {pieces : List (List α)} :
    join [sep] pieces = [] ↔ pieces = [] ∨ pieces = [[]] := by
  match pieces with
  | [] => simp [join]
  | [piece] => simp [join]
  | first :: second :: rest => simp [join_cons_cons]

/-- Joined pieces start within a piece, if the first is not empty. -/
theorem mem_of_head?_join {sep : α} {pieces : List (List α)}
    (front : ∀ piece ∈ pieces.head?, piece ≠ []) :
    ∀ c ∈ (join [sep] pieces).head?, ∃ piece ∈ pieces, c ∈ piece := by
  intro c first
  cases pieces with
  | nil => cases first
  | cons piece pieces =>
    refine ⟨piece, List.mem_cons_self .., ?_⟩
    cases pieces with
    | nil => exact List.mem_of_mem_head? first
    | cons next rest =>
      rw [join_cons_cons, List.append_assoc, List.head?_append_of_ne_nil _ (front piece rfl)] at first
      exact List.mem_of_mem_head? first

/-- Joined pieces end within a piece, if the last is not empty. -/
theorem mem_of_getLast?_join {sep : α} {pieces : List (List α)}
    (back : ∀ piece ∈ pieces.getLast?, piece ≠ []) :
    ∀ c ∈ (join [sep] pieces).getLast?, ∃ piece ∈ pieces, c ∈ piece := by
  intro c last
  induction pieces with
  | nil => cases last
  | cons piece pieces ih =>
    cases pieces with
    | nil => exact ⟨piece, List.mem_cons_self .., List.mem_of_mem_getLast? last⟩
    | cons next rest =>
      rw [List.getLast?_cons_cons] at back
      have some : join [sep] (next :: rest) ≠ [] := by
        rw [Ne, join_eq_nil_iff]
        rintro (nothing | single)
        · cases nothing
        · exact back [] (by rw [single]; rfl) rfl
      rw [join_cons_cons, List.getLast?_append_of_ne_nil _ some] at last
      obtain ⟨inside, member, found⟩ := ih back last
      exact ⟨inside, List.mem_cons_of_mem _ member, found⟩

/-- A text that does not start with the separator has something in front of the first one. -/
theorem ne_nil_of_mem_head?_pieces {sep : α} {pieces : List (List α)} (more : pieces ≠ [[]])
    (front : ∀ c ∈ (join [sep] pieces).head?, c ≠ sep) : ∀ piece ∈ pieces.head?, piece ≠ [] := by
  rintro piece first rfl
  obtain ⟨rest, rfl⟩ := List.head?_eq_some_iff.mp first
  cases rest with
  | nil => exact more rfl
  | cons next rest => exact front sep rfl rfl

theorem join_concat {sep : List α} {pieces : List (List α)} (some : pieces ≠ [])
    (piece : List α) : join sep (pieces ++ [piece]) = join sep pieces ++ sep ++ piece := by
  induction pieces with
  | nil => exact absurd rfl some
  | cons first pieces ih =>
    cases pieces with
    | nil => rfl
    | cons next rest =>
      rw [join_cons_cons, List.cons_append, List.cons_append, join_cons_cons, ← List.cons_append,
        ih (by simp)]
      simp only [List.append_assoc]

/-- A text that does not end with the separator has something behind the last one. -/
theorem ne_nil_of_mem_getLast?_pieces {sep : α} {pieces : List (List α)}
    (more : pieces ≠ [[]]) (back : ∀ c ∈ (join [sep] pieces).getLast?, c ≠ sep) :
    ∀ piece ∈ pieces.getLast?, piece ≠ [] := by
  rintro piece last rfl
  obtain ⟨front, rfl⟩ := List.getLast?_eq_some_iff.mp last
  cases front with
  | nil => exact more rfl
  | cons first front =>
    rw [join_concat (by simp), List.append_nil, List.getLast?_concat] at back
    exact back sep rfl rfl

variable [DecidableEq α]

theorem cut_of_not_mem {sep : α} {piece : List α} (free : sep ∉ piece) :
    cut sep piece = [piece] := by
  induction piece with
  | nil => rfl
  | cons c cs ih =>
    rw [List.mem_cons, not_or] at free
    obtain ⟨differs, free⟩ := free
    rw [cut, if_neg (Ne.symm differs), ih free]

theorem cut_append {sep : α} {piece rest : List α} (free : sep ∉ piece) :
    cut sep (piece ++ sep :: rest) = piece :: cut sep rest := by
  induction piece with
  | nil => rw [List.nil_append, cut, if_pos rfl]
  | cons c cs ih =>
    rw [List.mem_cons, not_or] at free
    obtain ⟨differs, free⟩ := free
    rw [List.cons_append, cut, if_neg (Ne.symm differs), ih free]

/-- Pieces that hold no separator come back out of the text that they are joined to. -/
theorem cut_join {sep : α} {pieces : List (List α)} (some : pieces ≠ [])
    (free : ∀ piece ∈ pieces, sep ∉ piece) : cut sep (join [sep] pieces) = pieces := by
  induction pieces with
  | nil => exact absurd rfl some
  | cons piece pieces ih =>
    obtain ⟨first, others⟩ := List.forall_mem_cons.mp free
    cases pieces with
    | nil => exact cut_of_not_mem first
    | cons next rest =>
      rw [join_cons_cons, List.append_assoc, List.singleton_append, cut_append first,
        ih (by simp) others]

theorem after?_eq_some_iff {start cs rest : List α} :
    after? start cs = some rest ↔ cs = start ++ rest := by
  rw [after?]
  constructor
  · intro found
    split at found
    · obtain ⟨tail, rfl⟩ := List.isPrefixOf_iff_prefix.mp ‹_›
      simpa using found
    · cases found
  · rintro rfl
    rw [if_pos (List.isPrefixOf_iff_prefix.mpr (List.prefix_append ..))]
    simp

theorem before?_eq_some_iff {ending cs rest : List α} :
    before? ending cs = some rest ↔ cs = rest ++ ending := by
  rw [before?]
  constructor
  · intro found
    split at found
    · obtain ⟨front, rfl⟩ := List.isSuffixOf_iff_suffix.mp ‹_›
      simpa using found
    · cases found
  · rintro rfl
    rw [if_pos (List.isSuffixOf_iff_suffix.mpr (List.suffix_append ..))]
    simp

/-- Joined pieces stay as they are when the separator is stripped, if neither the first nor the last
is empty. -/
theorem stripEnds_join {sep : Char} {pieces : List (List Char)}
    (free : ∀ piece ∈ pieces, sep ∉ piece) (front : ∀ piece ∈ pieces.head?, piece ≠ [])
    (back : ∀ piece ∈ pieces.getLast?, piece ≠ []) :
    stripEnds (· == sep) (join [sep] pieces) = join [sep] pieces := by
  have inside {c : Char} (found : ∃ piece ∈ pieces, c ∈ piece) : (c == sep) = false := by
    obtain ⟨piece, member, holds⟩ := found
    rw [beq_eq_false_iff_ne]
    rintro rfl
    exact free piece member holds
  exact stripEnds_eq_self (fun c first => inside (mem_of_head?_join front c first))
    (fun c last => inside (mem_of_getLast?_join back c last))

end DeployManifest.Text
