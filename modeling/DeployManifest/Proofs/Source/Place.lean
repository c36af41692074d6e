import DeployManifest.Proofs.Scan.Order
import DeployManifest.Proofs.Source.Lines
import DeployManifest.Proofs.Span.Statement
import Mathlib.Data.Prod.Basic

/-! # Places in a module

Each character leads to a later place, by line and then by column, so places ascend with the offsets
between characters. What is reported at different offsets is reported at different locations. Main
statement: `locatesExactly_and_reportsApart`.
-/

namespace DeployManifest

open Cursor (byteCount)

/-- The location that is reported of a call or a decorator. -/
def Finding.location? : Finding → Option Location
  | .registration r => some r.location
  | .declaration d => some d.location
  | .globalCall g => some g.location
  | .localName _ => none
  | .importedName _ => none

namespace SourceModule

variable {m : SourceModule} {front back : List Char}

/-! ### Character by character -/

/-- The line and column behind one more character. -/
def advance (place : Nat × Nat) (c : Char) : Nat × Nat :=
  if c = '\n' then (place.1 + 1, 1) else (place.1, place.2 + 1)

theorem placeFrom_append (line column : Nat) (front back : List Char) :
    placeFrom line column (front ++ back) (byteCount front) =
      front.foldl advance (line, column) := by
  induction front generalizing line column with
  | nil => cases back <;> rfl
  | cons c front ih =>
    have some := c.utf8Size_pos
    rw [byteCount_cons, List.cons_append, placeFrom, if_neg (by omega), Nat.add_sub_cancel_left,
      ih, ih, List.foldl_cons, advance]
    split <;> rfl

theorem foldl_advance (front : List Char) : front.foldl advance (1, 1) = placeBehind front := by
  induction front using List.reverseRecOn with
  | nil => rfl
  | append_singleton front c ih =>
    rw [List.foldl_concat, ih, advance, placeBehind, placeBehind, List.count_append]
    split
    · rename_i feed
      subst feed
      rw [List.rtakeWhile_concat_neg _ _ _ (by simp)]
      rfl
    · rename_i other
      rw [List.rtakeWhile_concat_pos _ _ _ (by simpa using other), List.length_append]
      simp [other]

theorem place_eq (whole : m.text = front ++ back) :
    m.place (byteCount front) = placeBehind front := by
  rw [place, whole, placeFrom_append, foldl_advance]

theorem lex_advance (place : Nat × Nat) (c : Char) :
    Prod.Lex (· < ·) (· < ·) place (advance place c) := by
  rw [advance]
  split
  · exact .left _ _ (Nat.lt_succ_self _)
  · exact .right _ (Nat.lt_succ_self _)

theorem lex_foldl_advance (place : Nat × Nat) {more : List Char} (some : more ≠ []) :
    Prod.Lex (· < ·) (· < ·) place (more.foldl advance place) := by
  induction more generalizing place with
  | nil => exact absurd rfl some
  | cons c more ih =>
    rw [List.foldl_cons]
    by_cases last : more = []
    · subst last
      exact lex_advance place c
    · exact (lex_advance place c).trans (ih _ last)

/-! ### Offsets -/

theorem offsetAt?_place {offset : Nat} (boundary : m.IsBoundary offset) :
    m.offsetAt? (m.place offset) = some offset := by
  obtain ⟨front, back, whole, rfl⟩ := boundary
  rw [place_eq whole, offsetAt?_eq whole]

/-- Places ascend with the offsets. -/
theorem place_lex_place {offset later : Nat} (first : m.IsBoundary offset)
    (second : m.IsBoundary later) (less : offset < later) :
    Prod.Lex (· < ·) (· < ·) (m.place offset) (m.place later) := by
  obtain ⟨front, back, whole, rfl⟩ := first
  obtain ⟨front', back', whole', rfl⟩ := second
  obtain ⟨more, rfl⟩ : front <+: front' := by
    rcases List.prefix_or_prefix_of_prefix (whole ▸ List.prefix_append ..)
      (whole' ▸ List.prefix_append ..) with inside | ⟨more, rfl⟩
    · exact inside
    · rw [byteCount_append] at less
      omega
  have some : more ≠ [] := by
    rintro rfl
    rw [List.append_nil] at less
    exact absurd less (Nat.lt_irrefl _)
  rw [place_eq whole, place_eq whole', ← foldl_advance, ← foldl_advance, List.foldl_append]
  exact lex_foldl_advance _ some

theorem location_injective {offset other : Nat} (first : m.IsBoundary offset)
    (second : m.IsBoundary other) (same : m.location offset = m.location other) :
    offset = other := by
  have places : m.place offset = m.place other :=
    Prod.ext (congrArg Location.line same) (congrArg Location.column same)
  have found := offsetAt?_place first
  rw [places, offsetAt?_place second] at found
  exact (Option.some.inj found).symm

/-! ### Reports -/

theorem location?_of_marks {n : Node} {found : Finding} (marks : m.Marks n found) :
    found.location? = some (m.location n.start) := by
  rcases marks with records | ⟨function, recorded⟩
  · cases found with
    | registration _ | declaration _ | globalCall _ => exact congrArg some records.2.2.1
    | localName _ | importedName _ => cases records
  · obtain ⟨_, _, rfl⟩ := Option.map_eq_some_iff.mp recorded
    rfl

theorem location?_of_name {found : Finding} (name : found.offset? = none) :
    found.location? = none := by
  cases found with
  | registration _ | declaration _ | globalCall _ => cases name
  | localName _ | importedName _ => rfl

/-- Nodes at different offsets have different locations, and so has everything that is recorded. -/
structure ReportsApart (m : SourceModule) (tree : Node) : Prop where
  nodes : ∀ n ∈ tree.subtrees, ∀ other ∈ tree.subtrees, n.start ≠ other.start →
    m.location n.start ≠ m.location other.start
  recorded : ((m.findings tree).filterMap (·.location?)).Nodup

theorem reportsApart {tree : Node} (ordered : tree.IsOrdered)
    (bounded : ∀ n ∈ tree.subtrees, m.IsBoundary n.start) : m.ReportsApart tree := by
  refine ⟨fun n member other member' differs same => ?_, ?_⟩
  · exact differs (location_injective (bounded n member) (bounded other member') same)
  · obtain ⟨marked, inside, apart, recorded⟩ := spans_findings m tree ordered
    rw [filterMap_eq_of_marks (fun _ _ => location?_of_marks) (fun _ => location?_of_name)
      recorded]
    refine List.pairwise_map.mpr (apart.imp_of_mem fun {n later} member member' behind same => ?_)
    have filled := (inside n member).2.2.1
    have starts := location_injective (bounded n (inside n member).1)
      (bounded later (inside later member').1) same
    omega

/-- What is recorded of a text that is read stands apart, in source order. -/
theorem recordsApart_of_ofText? {tree : Node} (read : Node.ofText? m.text = some tree) :
    m.RecordsApart tree :=
  m.recordsApart (Node.liesIn_ofText? read).ordered

theorem reportsApart_of_ofText? {tree : Node} (read : Node.ofText? m.text = some tree) :
    m.ReportsApart tree := by
  have lies := Node.liesIn_ofText? read
  exact reportsApart lies.ordered fun n member => (lies.bounded n member).1

/-- Every offset between characters is located by its line and its column there, which ascend with
the offset and lead back to it; so it is reported. The index has a line for any offset at all. -/
structure LocatesExactly (m : SourceModule) : Prop where
  counts : ∀ front back, m.text = front ++ back →
    m.locate? (byteCount front) =
      some (front.count '\n' + 1, (front.rtakeWhile (· != '\n')).length + 1)
  ascends : ∀ offset later, m.IsBoundary offset → m.IsBoundary later → offset < later →
    ∃ place place', m.locate? offset = some place ∧ m.locate? later = some place' ∧
      Prod.Lex (· < ·) (· < ·) place place'
  recovers : ∀ offset, m.IsBoundary offset →
    ∃ place, m.locate? offset = some place ∧ m.offsetAt? place = some offset
  reported : ∀ offset, m.IsBoundary offset → m.locate? offset = some (m.place offset)
  indexed : ∀ offset, ∃ place, m.locate? offset = some place

/-- A module is located exactly. In a tree of it whose nodes stand in source order and start between
characters, nothing is reported where something else is; and the tree that its text is read to is
one. -/
theorem locatesExactly_and_reportsApart (m : SourceModule) :
    m.LocatesExactly ∧
      (∀ tree : Node, tree.IsOrdered → (∀ n ∈ tree.subtrees, m.IsBoundary n.start) →
        m.ReportsApart tree) ∧
      ∀ tree, Node.ofText? m.text = some tree → m.ReportsApart tree := by
  have reported (offset : Nat) (boundary : m.IsBoundary offset) :
      m.locate? offset = some (m.place offset) := by
    obtain ⟨front, back, whole, rfl⟩ := boundary
    rw [locate?_eq whole, place_eq whole]
  refine ⟨⟨fun front back => locate?_eq, ?_, ?_, reported, m.exists_locate?⟩,
    fun tree => reportsApart, fun tree => reportsApart_of_ofText?⟩
  · intro offset later first second less
    exact ⟨_, _, reported offset first, reported later second, place_lex_place first second less⟩
  · intro offset boundary
    exact ⟨_, reported offset boundary, offsetAt?_place boundary⟩

/-- A module with two declarations in a line, and with characters of more than one byte. -/
def accented : SourceModule :=
  ⟨"main.py", ("é = \"ü\"\n\n" ++
    "ä = params.defineInt(\"A\"); b = params.defineInt(\"B\")\n").toList⟩

set_option maxRecDepth 100000 in
/-- The declarations are reported at places of their own. -/
theorem locatesExactly_and_reportsApart_accented :
    ∃ tree, Node.ofText? accented.text = some tree ∧ tree.IsOrdered ∧
      (∀ n ∈ tree.subtrees, accented.IsBoundary n.start) ∧
      (accented.searched tree).declarations.map (·.offset) = [16, 43] ∧
      accented.locate? 16 = some (3, 5) ∧ accented.locate? 43 = some (3, 32) ∧
      accented.ReportsApart tree := by
  have computed : (Node.ofText? accented.text).map (fun tree =>
      decide (tree.IsOrdered ∧ (∀ n ∈ tree.subtrees, accented.IsBoundary n.start) ∧
        (accented.searched tree).declarations.map (·.offset) = [16, 43])) = some true := by
    decide +kernel
  obtain ⟨tree, read, holds⟩ := Option.map_eq_some_iff.mp computed
  obtain ⟨ordered, bounded, declared⟩ := of_decide_eq_true holds
  obtain ⟨exactly, -, apart⟩ := locatesExactly_and_reportsApart accented
  refine ⟨tree, read, ordered, bounded, declared, ?_, ?_, apart tree read⟩
  · exact (exactly.reported 16 (by decide +kernel)).trans (by decide +kernel)
  · exact (exactly.reported 43 (by decide +kernel)).trans (by decide +kernel)

end SourceModule

end DeployManifest
