import DeployManifest.Manifest.Format
import Mathlib.Data.List.Infix

/-! # Where JSON has `null`

A JSON text has a `null` where the word stands outside of quotes (`Json.HasNull`). The text of a
document does so exactly for the leaves that have no other form: a null, or a floating point number
that is not finite. Main statement: `Json.hasNull_render_iff`.
-/

namespace DeployManifest

/-! ### Leaves that become `null` -/

/-- Some leaf of the document is written as `null`. -/
inductive Document.PrintsNull : Document → Prop where
  | null : PrintsNull .null
  | float {x : Binary64} (endless : x.isFinite = false) : PrintsNull (.float x)
  | item {items : List Document} {d : Document} (member : d ∈ items) (inside : PrintsNull d) :
      PrintsNull (.list items)
  | field {fields : List (String × Document)} {field : String × Document}
      (member : field ∈ fields) (inside : PrintsNull field.2) : PrintsNull (.record fields)

/-- One of the fields is written with a `null`. -/
def Document.AnyNull (fields : List (String × Document)) : Prop :=
  ∃ field ∈ fields, field.2.PrintsNull

namespace Document

@[simp] theorem anyNull_nil : ¬ AnyNull [] := by
  rintro ⟨_, member, -⟩
  cases member

@[simp] theorem anyNull_cons {name : String} {d : Document} {fields : List (String × Document)} :
    AnyNull ((name, d) :: fields) ↔ d.PrintsNull ∨ AnyNull fields := by
  simp [AnyNull]

@[simp] theorem anyNull_append {first second : List (String × Document)} :
    AnyNull (first ++ second) ↔ AnyNull first ∨ AnyNull second := by
  simp [AnyNull, or_and_right, exists_or]

@[simp] theorem printsNull_null : null.PrintsNull := .null

@[simp] theorem not_printsNull_bool {b : Bool} : ¬ (bool b).PrintsNull := fun inside => by
  cases inside

@[simp] theorem not_printsNull_int {n : Int} : ¬ (int n).PrintsNull := fun inside => by
  cases inside

@[simp] theorem not_printsNull_text {s : String} : ¬ (text s).PrintsNull := fun inside => by
  cases inside

@[simp] theorem printsNull_float {x : Binary64} : (float x).PrintsNull ↔ x.isFinite = false := by
  constructor
  · rintro ⟨⟩
    assumption
  · exact .float

@[simp] theorem printsNull_list {items : List Document} :
    (list items).PrintsNull ↔ ∃ d ∈ items, d.PrintsNull := by
  constructor
  · rintro ⟨⟩
    exact ⟨_, ‹_›, ‹_›⟩
  · rintro ⟨d, member, inside⟩
    exact .item member inside

@[simp] theorem printsNull_record {fields : List (String × Document)} :
    (record fields).PrintsNull ↔ AnyNull fields := by
  constructor
  · rintro ⟨⟩
    exact ⟨_, ‹_›, ‹_›⟩
  · rintro ⟨field, member, inside⟩
    exact .field member inside

end Document

/-! ### Digits -/

namespace Numeral

/-- Every digit of a number in a base is one below the base. -/
theorem exists_of_mem_digits {base : Nat} (large : 2 ≤ base) {c : Char} {n : Nat}
    (member : c ∈ digits base n) : ∃ d < base, c = digitChar d := by
  induction n using Nat.strongRecOn with
  | ind n ih =>
    unfold digits at member
    split at member
    · have small : n < base := by omega
      exact ⟨n, small, List.mem_singleton.mp member⟩
    · have smaller : n / base < n := Nat.div_lt_self (by omega) (by omega)
      rcases List.mem_append.mp member with member | member
      · exact ih _ smaller member
      · exact ⟨n % base, Nat.mod_lt _ (by omega), List.mem_singleton.mp member⟩

end Numeral

namespace Json

/-- Is it a character of a written number? -/
def isNumeric (c : Char) : Bool := c.isDigit || c == '-' || c == '+' || c == '.' || c == 'e'

theorem isNumeric_digitChar : ∀ d < 10, isNumeric (Numeral.digitChar d) = true := by decide

theorem isNumeric_decimal {n : Nat} : ∀ c ∈ Numeral.decimal n, isNumeric c = true := by
  intro c member
  obtain ⟨d, small, rfl⟩ := Numeral.exists_of_mem_digits (by omega) member
  exact isNumeric_digitChar d small

theorem isNumeric_signed {n : Int} : ∀ c ∈ Numeral.signed n, isNumeric c = true := by
  intro c member
  unfold Numeral.signed at member
  split at member
  · exact isNumeric_decimal c member
  · rcases List.mem_cons.mp member with rfl | member
    · decide
    · exact isNumeric_decimal c member

theorem isNumeric_exponent {style : FloatText} {e : Int} :
    ∀ c ∈ style.exponent e, isNumeric c = true := by
  intro c member
  rw [FloatText.exponent] at member
  rcases List.mem_cons.mp member with rfl | member
  · decide
  · split at member
    · rcases List.mem_cons.mp member with rfl | member
      · decide
      · exact isNumeric_signed c member
    · exact isNumeric_signed c member

theorem isNumeric_layout {style : FloatText} {ds : List Char} {e : Int}
    (digits : ∀ c ∈ ds, isNumeric c = true) : ∀ c ∈ style.layout ds e, isNumeric c = true := by
  have zeros (n : Nat) : ∀ c ∈ List.replicate n '0', isNumeric c = true := by
    intro c member
    rw [List.eq_of_mem_replicate member]
    decide
  have point : isNumeric '.' = true := by decide
  have zero : isNumeric '0' = true := by decide
  unfold FloatText.layout
  dsimp only
  split_ifs
  · simp only [List.forall_mem_append, List.forall_mem_cons]
    exact ⟨⟨digits, zeros _⟩, point, zero, by simp⟩
  · simp only [List.forall_mem_append, List.forall_mem_cons]
    exact ⟨fun c member => digits c (List.mem_of_mem_take member), point,
      fun c member => digits c (List.mem_of_mem_drop member)⟩
  · simp only [List.forall_mem_append, List.forall_mem_cons]
    exact ⟨zero, point, zeros _, digits⟩
  · rcases ds with _ | ⟨first, _ | ⟨second, rest⟩⟩
    · simp
    · exact List.forall_mem_cons.mpr ⟨digits first (by simp), isNumeric_exponent⟩
    · simp only [← List.cons_append, List.forall_mem_append, List.forall_mem_cons] at digits ⊢
      exact ⟨⟨digits.1, point, digits.2⟩, isNumeric_exponent⟩

theorem isNumeric_write {style : FloatText} {x : Binary64} :
    ∀ c ∈ style.write x, isNumeric c = true := by
  have body : ∀ c ∈ style.layout (Numeral.decimal x.shortest.digits) x.shortest.exponent,
      isNumeric c = true := isNumeric_layout isNumeric_decimal
  rw [FloatText.write]
  split
  · exact List.forall_mem_cons.mpr ⟨by decide, body⟩
  · exact body

/-! ### Outside of quotes -/

/-- The characters outside of quotes, and the quotes. -/
def outside : Bool → List Char → List Char
  | _, [] => []
  | false, c :: cs => c :: outside (c == '"') cs
  | true, '\\' :: _ :: cs => outside true cs
  | true, c :: cs => if c = '"' then c :: outside false cs else outside true cs

/-- The text has a `null`. Inside of quotes the word is part of a text. -/
def HasNull (text : String) : Prop := ['n', 'u', 'l', 'l'] <:+: outside false text.toList

/-- A part of a JSON text that closes the quotes it opens, and has a `null` exactly if a condition
holds. -/
structure Shows (null : Prop) (cs : List Char) : Prop where
  whole : ∀ rest, outside false (cs ++ rest) = outside false cs ++ outside false rest
  only : 'n' ∈ outside false cs → null
  found : null → ['n', 'u', 'l', 'l'] <:+: outside false cs

namespace Shows

variable {p q : Prop} {cs ds : List Char}

theorem hasNull_iff (shows : Shows p cs) : HasNull (String.ofList cs) ↔ p := by
  rw [HasNull, String.toList_ofList]
  constructor
  · intro found
    exact shows.only (found.subset (by simp))
  · exact shows.found

theorem congr (shows : Shows p cs) (same : p ↔ q) : Shows q cs :=
  ⟨shows.whole, fun inside => same.mp (shows.only inside), fun holds => shows.found (same.mpr holds)⟩

theorem append (first : Shows p cs) (second : Shows q ds) : Shows (p ∨ q) (cs ++ ds) where
  whole rest := by
    rw [List.append_assoc, first.whole, second.whole, first.whole, List.append_assoc]
  only inside := by
    rw [first.whole] at inside
    exact (List.mem_append.mp inside).imp first.only second.only
  found := by
    rw [first.whole]
    rintro (holds | holds)
    · exact (first.found holds).trans (List.prefix_append ..).isInfix
    · exact (second.found holds).trans (List.suffix_append ..).isInfix

theorem outside_plain {cs : List Char} (plain : ∀ c ∈ cs, c ≠ '"') (rest : List Char) :
    outside false (cs ++ rest) = cs ++ outside false rest := by
  induction cs with
  | nil => rfl
  | cons c cs ih =>
    obtain ⟨first, others⟩ := List.forall_mem_cons.mp plain
    rw [List.cons_append, List.cons_append, outside, beq_false_of_ne first, ih others]

/-- A part without quotes. -/
theorem plain (bare : ∀ c ∈ cs, c ≠ '"') (only : 'n' ∈ cs → p)
    (found : p → ['n', 'u', 'l', 'l'] <:+: cs) : Shows p cs := by
  have same : outside false cs = cs := by
    have empty := outside_plain bare []
    rwa [List.append_nil, outside, List.append_nil] at empty
  refine ⟨fun rest => ?_, ?_, ?_⟩
  · rw [same, outside_plain bare]
  · rwa [same]
  · rwa [same]

/-- A part without quotes or the letter that `null` starts with. -/
theorem silent (bare : ∀ c ∈ cs, c ≠ '"' ∧ c ≠ 'n') : Shows False cs :=
  plain (fun c member => (bare c member).1) (fun inside => (bare _ inside).2 rfl) False.elim

/-- Inside of quotes a character that ends or escapes nothing is passed over. -/
theorem outside_hidden {hidden : List Char} (bare : ∀ c ∈ hidden, c ≠ '"' ∧ c ≠ '\\')
    (rest : List Char) : outside true (hidden ++ rest) = outside true rest := by
  induction hidden with
  | nil => rfl
  | cons c hidden ih =>
    obtain ⟨⟨noQuote, noEscape⟩, others⟩ := List.forall_mem_cons.mp bare
    rw [List.cons_append, outside, if_neg noQuote, ih others]
    exact fun _ _ same => absurd same noEscape

theorem bare_hexadecimal {width n : Nat} :
    ∀ c ∈ Numeral.hexadecimal width n, c ≠ '"' ∧ c ≠ '\\' := by
  have digits : ∀ d < 16, Numeral.digitChar d ≠ '"' ∧ Numeral.digitChar d ≠ '\\' := by decide
  intro c member
  rw [Numeral.hexadecimal] at member
  rcases List.mem_append.mp member with member | member
  · rw [List.eq_of_mem_replicate member]
    decide
  · obtain ⟨d, small, rfl⟩ := Numeral.exists_of_mem_digits (by omega) member
    exact digits d small

/-- A character of a text, as it is written, ends no quotes. -/
theorem outside_escape (c : Char) (rest : List Char) :
    outside true (escape c ++ rest) = outside true rest := by
  unfold escape
  split_ifs with isQuote isEscape
  -- a character that has a mark of its own
  case pos | pos | pos | pos | pos | pos | pos => rfl
  case pos => exact outside_hidden bare_hexadecimal rest
  case neg => exact outside_hidden (List.forall_mem_singleton.mpr ⟨isQuote, isEscape⟩) rest

theorem outside_escapes (s rest : List Char) :
    outside true (s.flatMap escape ++ rest) = outside true rest := by
  induction s with
  | nil => rfl
  | cons c s ih => rw [List.flatMap_cons, List.append_assoc, outside_escape, ih]

/-- A text in quotes. -/
theorem quote (s : List Char) : Shows False (quote s) := by
  have same (rest : List Char) :
      outside false (Json.quote s ++ rest) = '"' :: '"' :: outside false rest := by
    rw [Json.quote, List.cons_append, List.append_assoc, outside]
    exact congrArg _ (outside_escapes s _)
  have alone : outside false (Json.quote s) = ['"', '"'] := by
    have empty := same []
    rwa [List.append_nil] at empty
  refine ⟨fun rest => ?_, ?_, False.elim⟩
  · rw [same, alone]
    rfl
  · rw [alone]
    decide

theorem nil : Shows False [] := silent (by simp)

theorem null : Shows True ['n', 'u', 'l', 'l'] :=
  plain (by simp) (fun _ => trivial) fun _ => List.infix_rfl

theorem numeric (all : ∀ c ∈ cs, isNumeric c = true) : Shows False cs := by
  refine silent fun c member => ⟨?_, ?_⟩
  · rintro rfl
    exact absurd (all _ member) (by decide)
  · rintro rfl
    exact absurd (all _ member) (by decide)

theorem newline (level : Nat) : Shows False (Json.newline level) := by
  refine silent fun c member => ?_
  rw [Json.newline] at member
  rcases List.mem_cons.mp member with rfl | member
  · decide
  · rw [List.eq_of_mem_replicate member]
    decide

/-- A mark of the notation in front of a part. -/
theorem cons {c : Char} (bare : c ≠ '"' ∧ c ≠ 'n') (rest : Shows p cs) : Shows p (c :: cs) := by
  have mark : Shows False [c] := silent (List.forall_mem_singleton.mpr bare)
  exact (mark.append rest).congr (by simp)

theorem scalar (d : Document) (flat : ∀ items, d ≠ .list items)
    (bare : ∀ fields, d ≠ .record fields) : Shows d.PrintsNull (Json.scalar d) := by
  cases d with
  | null => exact null.congr (by simp)
  | bool b =>
    cases b with
    | true => exact (silent (by simp [Json.scalar])).congr (by simp)
    | false => exact (silent (by simp [Json.scalar])).congr (by simp)
  | int n => exact (numeric isNumeric_signed).congr (by simp)
  | float x =>
    rw [Json.scalar, Json.float]
    split
    · exact (numeric isNumeric_write).congr (by simp_all)
    · exact null.congr (by simp_all)
  | text s => exact (quote s.toList).congr (by simp)
  | list items => exact absurd rfl (flat items)
  | record fields => exact absurd rfl (bare fields)

end Shows

mutual

/-- The indented text of a document. -/
theorem shows_indentedChars (level : Nat) :
    (d : Document) → Shows d.PrintsNull (indentedChars level d)
  | .null => by
    rw [indentedChars]
    exact .scalar _ (by simp) (by simp)
  | .bool b => by
    rw [indentedChars]
    exact .scalar _ (by simp) (by simp)
  | .int n => by
    rw [indentedChars]
    exact .scalar _ (by simp) (by simp)
  | .float x => by
    rw [indentedChars]
    exact .scalar _ (by simp) (by simp)
  | .text s => by
    rw [indentedChars]
    exact .scalar _ (by simp) (by simp)
  | .list [] => by
    rw [indentedChars]
    exact (Shows.silent (by simp)).congr (by simp)
  | .list (item :: items) => by
    rw [indentedChars]
    have first := shows_indentedChars (level + 1) item
    have rest := shows_indentedItems (level + 1) items
    refine .cons (by decide) ?_
    refine (((((Shows.newline _).append first).append rest).append (.newline _)).append
      (.silent (by simp))).congr ?_
    simp
  | .record [] => by
    rw [indentedChars]
    exact (Shows.silent (by simp)).congr (by simp)
  | .record ((name, value) :: fields) => by
    rw [indentedChars]
    have first := shows_indentedChars (level + 1) value
    have rest := shows_indentedFields (level + 1) fields
    refine .cons (by decide) ?_
    refine (((((((Shows.newline _).append (.quote name.toList)).append (.silent (by simp))).append
      first).append rest).append (.newline _)).append (.silent (by simp))).congr ?_
    simp

theorem shows_indentedItems (level : Nat) :
    (items : List Document) → Shows (∃ d ∈ items, d.PrintsNull) (indentedItems level items)
  | [] => by
    rw [indentedItems]
    exact Shows.nil.congr (by simp)
  | item :: items => by
    rw [indentedItems]
    have first := shows_indentedChars level item
    have rest := shows_indentedItems level items
    refine .cons (by decide) ?_
    exact (((Shows.newline _).append first).append rest).congr (by simp)

theorem shows_indentedFields (level : Nat) : (fields : List (String × Document)) →
    Shows (Document.AnyNull fields) (indentedFields level fields)
  | [] => by
    rw [indentedFields]
    exact Shows.nil.congr (by simp)
  | (name, value) :: fields => by
    rw [indentedFields]
    have first := shows_indentedChars level value
    have rest := shows_indentedFields level fields
    refine .cons (by decide) ?_
    exact (((((Shows.newline _).append (.quote name.toList)).append (.silent (by simp))).append
      first).append rest).congr (by simp)

end

/-- A document that is written as JSON has a `null` exactly if some leaf has no other form. -/
theorem hasNull_render_iff (d : Document) : HasNull (d.render .json) ↔ d.PrintsNull := by
  have written := shows_indentedChars 0 d
  rw [Document.render, withFinalNewline]
  split
  · exact written.hasNull_iff
  · have ended : Shows d.PrintsNull (indentedChars 0 d ++ ['\n']) :=
      (written.append (.silent (by simp))).congr (by simp)
    have same : indented d ++ "\n" = String.ofList (indentedChars 0 d ++ ['\n']) := by
      rw [indented, String.ofList_append]
    rw [same]
    exact ended.hasNull_iff

end Json

end DeployManifest
