import DeployManifest.Address.Key
import DeployManifest.Address.Pattern
import DeployManifest.Proofs.Outcome
import DeployManifest.Proofs.Text
import DeployManifest.Value.Setting

/-! # Written patterns

A pattern is written as the text that it was read from, without the slashes at either end
(`toList_text_of_parse`). So it can be read again, and it gives a key the same part as that text. A
substitution text, in contrast, never is a pattern (`parse_braced`).
-/

namespace DeployManifest.PathPattern

theorem toList_segmentText {raw : List Char} {s : Segment} (read : segment raw = .ok s) :
    (segmentText s).toList = raw := by
  rw [segment] at read
  split at read
  · cases read
  · split at read
    · cases read
      simp_all [segmentText]
    · split at read
      · split at read
        · cases read
        · rename_i name enclosed
          split at read
          · cases read
            obtain ⟨inside, opened, closed⟩ := Option.bind_eq_some_iff.mp enclosed
            rw [Text.after?_eq_some_iff] at opened
            rw [Text.before?_eq_some_iff] at closed
            simp [segmentText, opened, closed]
          · cases read
      · cases read
        exact String.toList_ofList

theorem intercalate_parts (path : String) :
    ['/'].intercalate (parts path) = Text.stripEnds (· == '/') path.toList := by
  rw [parts]
  split
  · rename_i empty
    rw [empty, List.intercalate_nil]
  · rw [← Text.join_eq_intercalate, Text.join_cut]

theorem parse_eq_ok_iff {pattern : String} {p : PathPattern} :
    parse pattern = .ok p ↔
      List.Forall₂ (fun raw s => segment raw = .ok s) (parts pattern) p.segments := by
  rw [parse, Outcome.map_eq_ok_iff, ← Outcome.mapM_eq_ok_iff]
  constructor
  · rintro ⟨segments, read, rfl⟩
    exact read
  · intro read
    exact ⟨p.segments, read, rfl⟩

/-- A pattern is written as it was read, without the slashes at either end. -/
theorem toList_text_of_parse {pattern : String} {p : PathPattern} (read : parse pattern = .ok p) :
    p.text.toList = Text.stripEnds (· == '/') pattern.toList := by
  have pieces : (p.segments.map segmentText).map String.toList = parts pattern := by
    have each := parse_eq_ok_iff.mp read
    generalize parts pattern = raws, p.segments = segments at each ⊢
    induction each with
    | nil => rfl
    | cons first _ ih => rw [List.map_cons, List.map_cons, toList_segmentText first, ih]
  rw [text, String.toList_intercalate, pieces]
  exact intercalate_parts pattern

/-- Reading depends only on what stands between the slashes at either end. -/
theorem parse_congr {first second : String}
    (same : Text.stripEnds (· == '/') first.toList = Text.stripEnds (· == '/') second.toList) :
    parse first = parse second := by
  rw [parse, parse, parts, parts, same]

theorem parse_text {pattern : String} {p : PathPattern} (read : parse pattern = .ok p) :
    parse p.text = .ok p := by
  rw [← read]
  apply parse_congr
  rw [toList_text_of_parse read, Text.stripEnds_stripEnds]

theorem sanitizeAddress_text {pattern : String} {p : PathPattern} (read : parse pattern = .ok p) :
    KeyScheme.sanitizeAddress p.text = KeyScheme.sanitizeAddress pattern := by
  rw [KeyScheme.sanitizeAddress, KeyScheme.sanitizeAddress, toList_text_of_parse read,
    Text.stripEnds_stripEnds]

/-- Behind an opening brace only a name may follow, and no name starts with another one. -/
theorem segment_doubledBrace_ne_ok (rest : List Char) (s : Segment) :
    segment ('\x7b' :: '\x7b' :: rest) ≠ .ok s := by
  intro read
  rw [segment, if_neg (by simp), if_neg (by simp), if_pos (by simp)] at read
  split at read
  · cases read
  · rename_i name enclosed
    obtain ⟨inside, opened, closed⟩ := Option.bind_eq_some_iff.mp enclosed
    rw [Text.after?_eq_some_iff] at opened
    rw [Text.before?_eq_some_iff] at closed
    have notName : isIdentifier name = false := by
      cases name with
      | nil => rfl
      | cons c cs =>
        obtain rfl : '\x7b' = c := by
          simp only [List.singleton_append, List.cons.injEq, true_and] at opened
          rw [← opened, List.cons_append, List.cons.injEq] at closed
          exact closed.1
        rfl
    rw [notName] at read
    cases read

theorem parts_braced (inside : String) :
    ∃ rest later, parts (Setting.braced inside) = ('\x7b' :: '\x7b' :: rest) :: later := by
  have whole : (Setting.braced inside).toList =
      ['\x7b', '\x7b', ' '] ++ inside.toList ++ [' ', '\x7d', '\x7d'] := by
    rw [Setting.braced, String.toList_append, String.toList_append]
    rfl
  have kept : Text.stripEnds (· == '/') (Setting.braced inside).toList =
      '\x7b' :: '\x7b' :: ([' '] ++ inside.toList ++ [' ', '\x7d', '\x7d']) := by
    rw [Text.stripEnds_eq_self, whole]
    · rfl
    · rw [whole]
      simp
    · intro c last
      rw [whole, List.getLast?_append_of_ne_nil _ (by simp)] at last
      cases last
      rfl
  obtain ⟨piece, pieces, cutRest⟩ := List.exists_cons_of_ne_nil
    (Text.cut_ne_nil '/' ([' '] ++ inside.toList ++ [' ', '\x7d', '\x7d']))
  refine ⟨piece, pieces, ?_⟩
  rw [parts, kept]
  change Text.cut '/' ('\x7b' :: '\x7b' :: _) = _
  rw [Text.cut, if_neg (by decide), Text.cut, if_neg (by decide), cutRest]

/-- A substitution text is no pattern. -/
theorem parse_braced (inside : String) (p : PathPattern) :
    parse (Setting.braced inside) ≠ .ok p := by
  intro read
  obtain ⟨rest, later, pieces⟩ := parts_braced inside
  rw [parse_eq_ok_iff, pieces, List.forall₂_cons_left_iff] at read
  obtain ⟨s, _, first, -⟩ := read
  exact segment_doubledBrace_ne_ok rest s first

end DeployManifest.PathPattern
