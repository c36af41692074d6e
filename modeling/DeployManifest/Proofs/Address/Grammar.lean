import DeployManifest.Proofs.Address.Instance

/-! # The grammar of patterns

Between the slashes at either end, a pattern is a row of written segments with a slash between each
two (`PathPattern.IsSpelled`). Reading accepts exactly these texts, and writing gives back what was
read. Main statement: `reads_and_writes`.
-/

namespace DeployManifest

/-- A letter or an underscore, and behind it letters, digits and underscores. -/
def IsIdentifier (name : List Char) : Prop :=
  ∃ c cs, name = c :: cs ∧ (c.isAlpha ∨ c = '_') ∧ ∀ d ∈ cs, d.isAlphanum ∨ d = '_'

theorem isIdentifier_iff {name : List Char} :
    PathPattern.isIdentifier name = true ↔ IsIdentifier name := by
  rw [PathPattern.isIdentifier.eq_def, IsIdentifier]
  cases name with
  | nil => simp
  | cons c cs => simp

namespace Segment

/-- A name between braces. -/
def braced (name : List Char) : List Char := '\x7b' :: name ++ ['\x7d']

/-- How a segment is written. A text stands for itself if it has no braces. -/
inductive IsWritten : Segment → List Char → Prop where
  | wildcard : IsWritten .wildcard ['*']
  | capture {name : List Char} (identifier : IsIdentifier name) :
      IsWritten (.capture (String.ofList name)) (braced name)
  | literal {text : List Char} (differs : text ≠ ['*']) (unopened : '\x7b' ∉ text)
      (unclosed : '\x7d' ∉ text) : IsWritten (.literal (String.ofList text)) text

theorem exists_isWritten_iff {piece : List Char} :
    (∃ s : Segment, s.IsWritten piece) ↔
      piece = ['*'] ∨ (∃ name, IsIdentifier name ∧ piece = braced name) ∨
        ('\x7b' ∉ piece ∧ '\x7d' ∉ piece) := by
  constructor
  · rintro ⟨s, written⟩
    cases written with
    | wildcard => exact .inl rfl
    | capture identifier => exact .inr (.inl ⟨_, identifier, rfl⟩)
    | literal _ unopened unclosed => exact .inr (.inr ⟨unopened, unclosed⟩)
  · rintro (rfl | ⟨name, identifier, rfl⟩ | ⟨unopened, unclosed⟩)
    · exact ⟨_, .wildcard⟩
    · exact ⟨_, .capture identifier⟩
    · by_cases star : piece = ['*']
      · exact ⟨.wildcard, star ▸ IsWritten.wildcard⟩
      · exact ⟨_, .literal star unopened unclosed⟩

end Segment

namespace PathPattern

variable {pattern : String} {p : PathPattern}

/-- What stands between two braces that enclose the whole. -/
theorem enclosed_eq_some_iff {raw name : List Char} :
    (Text.after? ['\x7b'] raw).bind (Text.before? ['\x7d']) = some name ↔ raw = Segment.braced name := by
  simp only [Option.bind_eq_some_iff, Text.after?_eq_some_iff, Text.before?_eq_some_iff]
  constructor
  · rintro ⟨inside, rfl, rfl⟩
    rfl
  · rintro rfl
    exact ⟨name ++ ['\x7d'], rfl, rfl⟩

theorem segment_eq_ok_iff {raw : List Char} {s : Segment} :
    segment raw = .ok s ↔ raw ≠ [] ∧ s.IsWritten raw := by
  constructor
  · intro read
    rw [segment] at read
    split at read
    · cases read
    · rename_i some
      refine ⟨by simpa using some, ?_⟩
      split at read
      · rename_i star
        cases read
        exact star ▸ .wildcard
      · rename_i differs
        split at read
        · split at read
          · cases read
          · rename_i name enclosed
            split at read
            · rename_i identifier
              cases read
              rw [enclosed_eq_some_iff.mp enclosed]
              exact .capture (isIdentifier_iff.mp identifier)
            · cases read
        · rename_i unbraced
          cases read
          simp only [Bool.or_eq_true, List.contains_iff_mem, not_or] at unbraced
          exact .literal differs unbraced.1 unbraced.2
  · rintro ⟨some, written⟩
    cases written with
    | wildcard => rfl
    | @capture name identifier =>
      rw [segment, if_neg (by simp [Segment.braced]), if_neg (by simp [Segment.braced]),
        if_pos (by simp [Segment.braced]), enclosed_eq_some_iff.mpr rfl]
      exact if_pos (isIdentifier_iff.mpr identifier)
    | literal differs unopened unclosed =>
      rw [segment, if_neg (by simpa using some), if_neg differs,
        if_neg (by simp [unopened, unclosed])]

/-- The segments, as they are written between slashes. -/
def IsSpelled (p : PathPattern) (cs : List Char) : Prop :=
  ∃ pieces, cs = ['/'].intercalate pieces ∧
    List.Forall₂ (fun piece s => IsPart piece ∧ s.IsWritten piece) pieces p.segments

/-- Segments that can be written, between slashes: a star, a name in braces, or a text without
braces. -/
def IsPattern (cs : List Char) : Prop :=
  ∃ pieces, cs = ['/'].intercalate pieces ∧ ∀ piece ∈ pieces, IsPart piece ∧
    (piece = ['*'] ∨ (∃ name, IsIdentifier name ∧ piece = Segment.braced name) ∨
      ('\x7b' ∉ piece ∧ '\x7d' ∉ piece))

/-- Reading takes a text apart into what its segments are written as. -/
theorem parse_eq_ok_iff_isSpelled :
    parse pattern = .ok p ↔ p.IsSpelled (Text.stripEnds (· == '/') pattern.toList) := by
  rw [parse_eq_ok_iff, IsSpelled]
  constructor
  · intro read
    refine ⟨parts pattern, (intercalate_parts pattern).symm, ?_⟩
    refine List.forall₂_iff_zip.mpr ⟨read.length_eq, fun {piece s} member => ?_⟩
    obtain ⟨some, written⟩ := segment_eq_ok_iff.mp (List.forall₂_zip read member)
    exact ⟨⟨some, slash_not_mem_of_mem_parts (List.of_mem_zip member).1⟩, written⟩
  · rintro ⟨pieces, whole, spelled⟩
    have each : ∀ piece ∈ pieces, IsPart piece := by
      intro piece member
      obtain ⟨s, -, isPart, -⟩ := Outcome.exists_of_mem_of_forall₂ spelled.flip member
      exact isPart
    -- Pieces that have no slash are the parts, since a text can be cut in one way only.
    rw [parts_of_isPart whole each]
    exact spelled.imp fun piece s spelled => segment_eq_ok_iff.mpr ⟨spelled.1.1, spelled.2⟩

theorem exists_isSpelled_iff {cs : List Char} :
    (∃ p : PathPattern, p.IsSpelled cs) ↔ IsPattern cs := by
  constructor
  · rintro ⟨p, pieces, whole, spelled⟩
    refine ⟨pieces, whole, fun piece member => ?_⟩
    obtain ⟨s, -, isPart, written⟩ := Outcome.exists_of_mem_of_forall₂ spelled.flip member
    exact ⟨isPart, Segment.exists_isWritten_iff.mp ⟨s, written⟩⟩
  · rintro ⟨pieces, whole, each⟩
    suffices ∃ segments : List Segment,
        List.Forall₂ (fun piece s => IsPart piece ∧ s.IsWritten piece) pieces segments by
      obtain ⟨segments, spelled⟩ := this
      exact ⟨⟨segments⟩, pieces, whole, spelled⟩
    clear whole
    induction pieces with
    | nil => exact ⟨[], .nil⟩
    | cons piece pieces ih =>
      obtain ⟨⟨isPart, form⟩, each⟩ := List.forall_mem_cons.mp each
      obtain ⟨s, written⟩ := Segment.exists_isWritten_iff.mpr form
      obtain ⟨segments, spelled⟩ := ih each
      exact ⟨s :: segments, .cons ⟨isPart, written⟩ spelled⟩

/-- What reading a pattern gives: the segments it is written with, a text that is the pattern
without the slashes at either end, and that reads and makes a key like the pattern itself. -/
structure IsReadFrom (p : PathPattern) (pattern : String) : Prop where
  spelled : p.IsSpelled (Text.stripEnds (· == '/') pattern.toList)
  text : p.text = String.ofList (Text.stripEnds (· == '/') pattern.toList)
  again : parse p.text = .ok p
  key : KeyScheme.sanitizeAddress p.text = KeyScheme.sanitizeAddress pattern

/-- Exactly the texts of the grammar are patterns, and writing undoes reading. -/
theorem reads_and_writes (pattern : String) :
    ((∃ p, parse pattern = .ok p) ↔ IsPattern (Text.stripEnds (· == '/') pattern.toList)) ∧
      ∀ p, parse pattern = .ok p → p.IsReadFrom pattern := by
  constructor
  · simp only [parse_eq_ok_iff_isSpelled]
    exact exists_isSpelled_iff
  · intro p read
    refine ⟨parse_eq_ok_iff_isSpelled.mp read, ?_, parse_text read, sanitizeAddress_text read⟩
    rw [← toList_text_of_parse read, String.ofList_toList]

/-- A pattern with all kinds of segments is written without its outer slashes; one with a capture
inside a segment is none. -/
theorem reads_and_writes_users :
    parse "//users/\x7bid\x7d/*/" = .ok ⟨[.literal "users", .capture "id", .wildcard]⟩ ∧
      IsReadFrom ⟨[.literal "users", .capture "id", .wildcard]⟩ "//users/\x7bid\x7d/*/" ∧
      ¬ IsPattern (Text.stripEnds (· == '/') "users/pre\x7bid\x7d".toList) := by
  have read : parse "//users/\x7bid\x7d/*/" =
      .ok ⟨[.literal "users", .capture "id", .wildcard]⟩ := by
    decide +kernel
  have refused : parse "users/pre\x7bid\x7d" = .error .braces := by
    decide +kernel
  refine ⟨read, (reads_and_writes _).2 _ read, ?_⟩
  rw [← (reads_and_writes _).1, refused]
  simp

end PathPattern

end DeployManifest
