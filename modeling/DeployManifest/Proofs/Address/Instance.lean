import DeployManifest.Proofs.Address.Pattern
import DeployManifest.Proofs.KeyMap

/-! # Instances of patterns

An instance of a pattern is the pattern with its captures and wildcards filled in, and with slashes
at either end as one likes. The pattern matches each of its instances, and finds the captures again
(`match?_of_isInstance`).
-/

namespace DeployManifest

/-- What stands for one segment of a path: a text that is not empty and has no slash. -/
def IsPart (part : List Char) : Prop := part ≠ [] ∧ '/' ∉ part

namespace Segment

/-- May the part stand where the segment stands? -/
def Takes : Segment → List Char → Prop
  | .literal text, part => text.toList = part
  | .capture _, _ => True
  | .wildcard, _ => True

/-- What a segment becomes under the values of the captures. -/
inductive Fills (values : String → String) : Segment → List Char → Prop where
  | literal (text : String) : Fills values (.literal text) text.toList
  | capture (name : String) : Fills values (.capture name) (values name).toList
  | wildcard {part : List Char} (isPart : IsPart part) : Fills values .wildcard part

end Segment

namespace PathPattern

/-- As many parts as segments, and each of them stands where it may. -/
def Matches (p : PathPattern) (path : String) : Prop :=
  List.Forall₂ Segment.Takes p.segments (parts path)

/-- The pattern filled in, between slashes. -/
inductive IsInstance (p : PathPattern) (values : String → String) : String → Prop where
  | of {front back : List Char} {pieces : List (List Char)} (before : ∀ c ∈ front, c = '/')
      (behind : ∀ c ∈ back, c = '/')
      (filled : List.Forall₂ (Segment.Fills values) p.segments pieces) :
      IsInstance p values (String.ofList (front ++ ['/'].intercalate pieces ++ back))

variable {p : PathPattern} {values : String → String} {path pattern : String}

/-! ### Matching -/

theorem exists_bind?_iff {segments : List Segment} {parts : List (List Char)}
    {bound : KeyMap String} :
    (∃ captures, bind? segments parts bound = some captures) ↔
      List.Forall₂ Segment.Takes segments parts := by
  induction segments generalizing parts bound with
  | nil => cases parts <;> simp [bind?]
  | cons s segments ih =>
    cases parts with
    | nil => cases s <;> simp [bind?]
    | cons part parts =>
      rw [List.forall₂_cons]
      cases s with
      | literal text =>
        by_cases same : text.toList = part
        · simp [bind?, Segment.Takes, same, ih]
        · simp [bind?, Segment.Takes, same]
      | capture name => simp [bind?, Segment.Takes, ih]
      | wildcard => simp [bind?, Segment.Takes, ih]

theorem exists_match?_iff : (∃ captures, p.match? path = some captures) ↔ p.Matches path :=
  exists_bind?_iff

/-! ### Finding the captures again -/

/-- The parts of a path come back out of what stands between the slashes at either end. -/
theorem parts_of_stripEnds {path : String} {pieces : List (List Char)}
    (whole : Text.stripEnds (· == '/') path.toList = ['/'].intercalate pieces)
    (free : ∀ piece ∈ pieces, '/' ∉ piece) (some : pieces ≠ [[]]) : parts path = pieces := by
  rw [parts, whole, ← Text.join_eq_intercalate]
  split
  · rename_i nothing
    exact ((Text.join_eq_nil_iff.mp nothing).resolve_right some).symm
  · rename_i filled
    refine Text.cut_join (fun nothing => filled ?_) free
    rw [nothing, Text.join]

theorem parts_of_isPart {path : String} {pieces : List (List Char)}
    (whole : Text.stripEnds (· == '/') path.toList = ['/'].intercalate pieces)
    (each : ∀ piece ∈ pieces, IsPart piece) : parts path = pieces := by
  refine parts_of_stripEnds whole (fun piece member => (each piece member).2) ?_
  rintro rfl
  exact (each [] (List.mem_singleton_self _)).1 rfl

/-- Whatever slashes stand at either end, the parts of a path come back out of it. -/
theorem parts_of_join {front back : List Char} {pieces : List (List Char)}
    (before : ∀ c ∈ front, c = '/') (behind : ∀ c ∈ back, c = '/')
    (each : ∀ piece ∈ pieces, IsPart piece) :
    parts (String.ofList (front ++ ['/'].intercalate pieces ++ back)) = pieces := by
  refine parts_of_isPart ?_ each
  rw [String.toList_ofList, Text.stripEnds_append (by simpa using before) (by simpa using behind),
    ← Text.join_eq_intercalate]
  exact Text.stripEnds_join (fun piece member => (each piece member).2)
    (fun piece first => (each piece (List.mem_of_mem_head? first)).1)
    (fun piece last => (each piece (List.mem_of_mem_getLast? last)).1)

theorem slash_not_mem_of_mem_parts {part : List Char} (member : part ∈ parts path) :
    '/' ∉ part := by
  rw [parts] at member
  split at member
  · cases member
  · exact Text.not_mem_of_mem_cut member

/-- A segment that stands for itself was read from a part. -/
theorem isPart_of_literal (read : parse pattern = .ok p) {text : String}
    (member : .literal text ∈ p.segments) : IsPart text.toList := by
  obtain ⟨raw, cutOut, made⟩ :=
    Outcome.exists_of_mem_of_forall₂ (parse_eq_ok_iff.mp read) member
  rw [← toList_segmentText made, segmentText] at cutOut
  refine ⟨?_, slash_not_mem_of_mem_parts cutOut⟩
  intro nothing
  rw [← toList_segmentText made, segmentText, nothing] at made
  cases made

theorem isPart_of_fills {s : Segment} {part : List Char} (filled : s.Fills values part)
    (literal : ∀ text, s = .literal text → IsPart text.toList)
    (capture : ∀ name, s = .capture name → IsPart (values name).toList) : IsPart part := by
  cases filled with
  | literal text => exact literal text rfl
  | capture name => exact capture name rfl
  | wildcard isPart => exact isPart

theorem mem_captureNames {name : String} : name ∈ p.captureNames ↔ .capture name ∈ p.segments := by
  rw [captureNames, List.mem_filterMap]
  constructor
  · rintro ⟨s, member, named⟩
    cases s with
    | capture other =>
      cases named
      exact member
    | literal _ | wildcard => cases named
  · intro member
    exact ⟨_, member, rfl⟩

theorem bind?_of_fills {segments : List Segment} {parts : List (List Char)}
    {bound : KeyMap String} {names : String → Prop}
    (filled : List.Forall₂ (Segment.Fills values) segments parts)
    (graph : bound.IsGraph values names) :
    ∃ captures, bind? segments parts bound = some captures ∧
      captures.IsGraph values fun name => names name ∨ .capture name ∈ segments := by
  induction filled generalizing bound names with
  | nil => exact ⟨bound, rfl, by simpa using graph⟩
  | @cons s part segments parts first _ ih =>
    cases first with
    | literal text =>
      obtain ⟨captures, matched, found⟩ := ih graph
      refine ⟨captures, by rw [bind?, if_pos rfl, matched], ?_⟩
      simpa using found
    | wildcard _ =>
      obtain ⟨captures, matched, found⟩ := ih graph
      refine ⟨captures, by rw [bind?, matched], ?_⟩
      simpa using found
    | capture name =>
      obtain ⟨captures, matched, found⟩ := ih (graph.insert name)
      refine ⟨captures, by rw [bind?, String.ofList_toList, matched], ?_⟩
      simpa [or_assoc, or_left_comm] using found

/-- A pattern matches its instances, and binds its captures to the values they were filled in
with. -/
theorem match?_of_isInstance (read : parse pattern = .ok p)
    (proper : ∀ name ∈ p.captureNames, IsPart (values name).toList)
    (instanced : p.IsInstance values path) :
    ∃ captures, p.match? path = some captures ∧
      captures.IsGraph values (· ∈ p.captureNames) := by
  obtain @⟨front, back, pieces, before, behind, filled⟩ := instanced
  have each : ∀ piece ∈ pieces, IsPart piece := by
    intro piece member
    obtain ⟨s, inside, filled⟩ := Outcome.exists_of_mem_of_forall₂ filled member
    refine isPart_of_fills filled ?_ ?_
    · rintro text rfl
      exact isPart_of_literal read inside
    · rintro name rfl
      exact proper name (mem_captureNames.mpr inside)
  obtain ⟨captures, matched, graph⟩ := bind?_of_fills filled KeyMap.IsGraph.nil
  refine ⟨captures, by rw [match?, parts_of_join before behind each, matched], ?_⟩
  simpa [mem_captureNames] using graph

end PathPattern

end DeployManifest
