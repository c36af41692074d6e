import DeployManifest.Proofs.Address.Capture

/-! # Gaps in paths

Two slashes in a row leave a gap in a path, a part with nothing in it. A pattern has none, but a
capture or wildcard takes the gap of a path like any other part. Neither end of a path is a gap, so
only segments that stand inside can do so. Main statement: `gapless_iff`.
-/

namespace DeployManifest

namespace PathPattern

variable {p : PathPattern} {pattern path : String} {captures : KeyMap String}

/-- At this place, which is neither the first nor the last, stands a capture or a wildcard. -/
structure OpensAt (p : PathPattern) (i : Nat) : Prop where
  behind : 0 < i
  before : i + 1 < p.segments.length
  isOpen : ∃ s, p.segments[i]? = some s ∧ s.IsOpen

/-- The parts of the path and the values of its captures all have something in them, and the path is
not refused for a gap when it is read as a pattern. -/
structure IsGapless (path : String) (captures : KeyMap String) : Prop where
  parts : ∀ part ∈ parts path, IsPart part
  values : ∀ name value, captures.get? name = some value → IsPart value.toList
  readable : parse path ≠ .error .emptySegment

/-- The first and the last part of a path are no gaps. -/
theorem ne_nil_of_end {i : Nat} {part : List Char} (here : (parts path)[i]? = some part)
    (atEnd : i = 0 ∨ i + 1 = (parts path).length) : part ≠ [] := by
  have joined := intercalate_parts path
  rw [← Text.join_eq_intercalate] at joined
  have more : parts path ≠ [[]] := by
    intro single
    rw [single] at joined
    rw [parts, ← joined] at single
    cases single
  rcases atEnd with rfl | last
  · have front : ∀ c ∈ (Text.join ['/'] (parts path)).head?, c ≠ '/' := by
      intro c first
      rw [joined] at first
      simpa using Text.head?_stripEnds (· == '/') path.toList c first
    rw [← List.head?_eq_getElem?] at here
    exact Text.ne_nil_of_mem_head?_pieces more front part here
  · have back : ∀ c ∈ (Text.join ['/'] (parts path)).getLast?, c ≠ '/' := by
      intro c last
      rw [joined] at last
      simpa using Text.getLast?_stripEnds (· == '/') path.toList c last
    rw [Nat.eq_sub_of_add_eq last, ← List.getLast?_eq_getElem?] at here
    exact Text.ne_nil_of_mem_getLast?_pieces more back part here

theorem takes_of_getElem? (matched : p.match? path = some captures) {i : Nat} {part : List Char}
    (here : (parts path)[i]? = some part) : ∃ s, p.segments[i]? = some s ∧ s.Takes part := by
  obtain ⟨aligned, each⟩ := List.forall₂_iff_get.mp (matches_of_match? matched)
  obtain ⟨inside, rfl⟩ := List.getElem?_eq_some_iff.mp here
  have bound : i < p.segments.length := aligned ▸ inside
  exact ⟨p.segments[i], List.getElem?_eq_getElem bound, each i bound inside⟩

/-- A gap stands inside, in the place of a capture or wildcard. -/
theorem opensAt_of_gap (read : parse pattern = .ok p) (matched : p.match? path = some captures)
    {i : Nat} (gap : (parts path)[i]? = some []) : p.OpensAt i := by
  have aligned := (matches_of_match? matched).length_eq
  obtain ⟨s, there, takes⟩ := takes_of_getElem? matched gap
  obtain ⟨inside, -⟩ := List.getElem?_eq_some_iff.mp gap
  refine ⟨Nat.pos_of_ne_zero fun first => ne_nil_of_end gap (.inl first) rfl, ?_, s, there, ?_⟩
  · have notLast : i + 1 ≠ (parts path).length := fun last => ne_nil_of_end gap (.inr last) rfl
    omega
  · cases s with
    | literal text => exact absurd takes (isPart_of_literal read (List.mem_of_getElem? there)).1
    | capture _ | wildcard => trivial

/-- The value of a capture is a part of the path. -/
theorem exists_part_of_get? (matched : p.match? path = some captures) {name value : String}
    (bound : captures.get? name = some value) :
    ∃ i : Nat, p.segments[i]? = some (.capture name) ∧ (parts path)[i]? = some value.toList := by
  rw [get?_of_match? matched] at bound
  obtain ⟨i, here⟩ := List.getElem?_of_mem (mem_of_lastHeld? bound)
  rw [placed, List.getElem?_zip_eq_some] at here
  exact ⟨i, here⟩

theorem eq_nil_of_emptySegment {raw : List Char} (refused : segment raw = .error .emptySegment) :
    raw = [] := by
  rw [segment] at refused
  split at refused
  · rename_i nothing
    exact List.isEmpty_iff.mp nothing
  · split at refused
    · cases refused
    · split at refused
      · split at refused
        · cases refused
        · split at refused <;> cases refused
      · cases refused

theorem gap_of_emptySegment (refused : parse path = .error .emptySegment) : [] ∈ parts path := by
  rw [parse, Outcome.map_eq_error_iff, Outcome.mapM_eq_error_iff] at refused
  obtain ⟨earlier, raw, later, split, -, failed⟩ := refused
  rw [split, eq_nil_of_emptySegment failed]
  simp

theorem isGapless_iff (matched : p.match? path = some captures) :
    IsGapless path captures ↔ [] ∉ parts path := by
  constructor
  · intro gapless gap
    exact (gapless.parts [] gap).1 rfl
  · intro filled
    have each : ∀ part ∈ parts path, IsPart part := by
      intro part member
      exact ⟨fun nothing => filled (nothing ▸ member), slash_not_mem_of_mem_parts member⟩
    refine ⟨each, fun name value bound => ?_, fun refused => filled (gap_of_emptySegment refused)⟩
    obtain ⟨i, -, here⟩ := exists_part_of_get? matched bound
    exact each _ (List.mem_of_getElem? here)

/-- Nothing in one place and something in the others. -/
def gapAt (i j : Nat) : List Char := if j = i then [] else ['x']

theorem slash_not_mem_gapAt (i j : Nat) : '/' ∉ gapAt i j := by
  by_cases same : j = i <;> simp [gapAt, same]

/-- The pattern matches a path with a gap in this place. -/
theorem OpensAt.exists_gap {i : Nat} (opens : p.OpensAt i) (read : parse pattern = .ok p) :
    ∃ path captures, p.match? path = some captures ∧ [] ∈ parts path := by
  have ends (j : Nat) (atEnd : j = 0 ∨ j + 1 = p.segments.length) : gapAt i j ≠ [] := by
    have differs : j ≠ i := by
      have behind := opens.behind
      have before := opens.before
      omega
    simp [gapAt, differs]
  obtain ⟨captures, matched⟩ := exists_match?_samplePath read (slash_not_mem_gapAt i) ends
  refine ⟨_, captures, matched, ?_⟩
  obtain ⟨s, there, isOpen⟩ := opens.isOpen
  rw [parts_samplePath read (slash_not_mem_gapAt i) ends]
  exact List.mem_of_getElem? ((getElem?_samples there isOpen).trans (by rw [gapAt, if_pos rfl]))

/-- A pattern finds nothing but real parts in the paths that it matches, if and only if captures and
wildcards stand at its ends alone. In any case values have no slash, and gaps stand inside, in the
places of captures and wildcards. -/
theorem gapless_iff (read : parse pattern = .ok p) :
    ((∀ path captures, p.match? path = some captures → IsGapless path captures) ↔
        ∀ i, ¬ p.OpensAt i) ∧
      ∀ path captures, p.match? path = some captures →
        (∀ i, (parts path)[i]? = some [] → p.OpensAt i) ∧
        ∀ name value, captures.get? name = some value → '/' ∉ value.toList ∧
          ∃ i : Nat, p.segments[i]? = some (.capture name) ∧ (parts path)[i]? = some value.toList := by
  refine ⟨⟨?_, ?_⟩, ?_⟩
  · intro always i opens
    obtain ⟨path, captures, matched, gap⟩ := opens.exists_gap read
    exact (isGapless_iff matched).mp (always _ _ matched) gap
  · intro closed path captures matched
    rw [isGapless_iff matched]
    intro gap
    obtain ⟨i, here⟩ := List.getElem?_of_mem gap
    exact closed i (opensAt_of_gap read matched here)
  · intro path captures matched
    refine ⟨fun i gap => opensAt_of_gap read matched gap, fun name value bound => ?_⟩
    obtain ⟨i, there, here⟩ := exists_part_of_get? matched bound
    exact ⟨slash_not_mem_of_mem_parts (List.mem_of_getElem? here), i, there, here⟩

/-- A capture in the middle is bound to a gap. -/
theorem not_isGapless_nested :
    ∃ p, parse "\x7ba\x7d/\x7bb\x7d/\x7bc\x7d" = .ok p ∧
      p.match? "x//y" = some [("a", "x"), ("b", ""), ("c", "y")] ∧ p.OpensAt 1 ∧
      ¬ (∀ path captures, p.match? path = some captures → IsGapless path captures) ∧
      ¬ IsGapless "x//y" [("a", "x"), ("b", ""), ("c", "y")] := by
  have read : parse "\x7ba\x7d/\x7bb\x7d/\x7bc\x7d" =
      .ok ⟨[.capture "a", .capture "b", .capture "c"]⟩ := by
    decide +kernel
  have opens : OpensAt ⟨[.capture "a", .capture "b", .capture "c"]⟩ 1 :=
    ⟨by decide, by decide, _, rfl, trivial⟩
  refine ⟨_, read, by decide +kernel, opens, ?_, ?_⟩
  · exact fun always => (gapless_iff read).1.mp always 1 opens
  · exact fun gapless => (gapless.values "b" "" rfl).1 rfl

end PathPattern

end DeployManifest
