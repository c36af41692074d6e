import DeployManifest.Options.Field
import DeployManifest.Proofs.Number.Signed
import DeployManifest.Proofs.Text

/-! # Sizes of memory

A text is a size exactly if it is an amount and a unit, and the megabytes are their product
(`parse?_eq_some_iff`). No unit ends with another one, so a text is read in one unit at most, and it
does not matter which one is tried first (`findSome?_inUnit?_of_perm`).
-/

namespace DeployManifest

/-- Where at most one result is given, a search finds it whatever comes before. -/
theorem findSome?_eq_some_iff_of_unique {α β : Type} {f : α → Option β} {xs : List α} {b : β}
    (unique : ∀ x ∈ xs, ∀ y ∈ xs, ∀ a b, f x = some a → f y = some b → a = b) :
    xs.findSome? f = some b ↔ ∃ x ∈ xs, f x = some b := by
  constructor
  · intro found
    exact List.exists_of_findSome?_eq_some found
  · rintro ⟨x, member, given⟩
    have found : (xs.findSome? f).isSome = true :=
      List.findSome?_isSome_iff.mpr ⟨x, member, by rw [given]; rfl⟩
    obtain ⟨a, found⟩ := Option.isSome_iff_exists.mp found
    obtain ⟨y, other, given'⟩ := List.exists_of_findSome?_eq_some found
    rw [found, unique y other x member a b given' given]

namespace MemorySize

variable {cs : List Char} {n amount : Int} {unit : String × Int}

/-- The text is an amount and a unit, perhaps with white space between them. -/
def Writes (cs : List Char) (amount : Int) (unit : String) : Prop :=
  ∃ written gap, cs = written ++ gap ++ unit.toList ∧ Numeral.Denotes written amount ∧
    ∀ c ∈ gap, Text.isBlank c = true

theorem isBlank_of_isDigit {c : Char} (digit : c.isDigit = true) : Text.isBlank c = false := by
  obtain ⟨low, high⟩ := Text.isDigit_iff.mp digit
  simp [Text.isBlank]
  omega

/-- There is no white space in a number. -/
theorem isBlank_of_denotes {written : List Char} (denotes : Numeral.Denotes written amount) :
    ∀ c ∈ written, Text.isBlank c = false := by
  intro c member
  rcases denotes.characters.2 c member with digit | rfl | rfl
  · exact isBlank_of_isDigit digit
  · decide
  · decide

/-- White space behind a number is no part of it. -/
theorem trim_append_gap {written gap : List Char} (denotes : Numeral.Denotes written amount)
    (blank : ∀ c ∈ gap, Text.isBlank c = true) : Text.trim (written ++ gap) = written := by
  have free := isBlank_of_denotes denotes
  have cut : Text.stripEnds Text.isBlank ([] ++ written ++ gap) =
      Text.stripEnds Text.isBlank written := Text.stripEnds_append nofun blank
  rw [List.nil_append] at cut
  rw [Text.trim, cut]
  exact Text.stripEnds_eq_self (fun c first => free c (List.mem_of_mem_head? first))
    fun c last => free c (List.mem_of_mem_getLast? last)

/-- The number in front of a unit is the text there, without the white space at its end. -/
theorem exists_gap {front : List Char} (start : ∀ c ∈ front.head?, Text.isBlank c = false) :
    ∃ gap, front = Text.trim front ++ gap ∧ ∀ c ∈ gap, Text.isBlank c = true := by
  have kept : front.dropWhile Text.isBlank = front := by
    cases front with
    | nil => rfl
    | cons c cs => rw [List.dropWhile_cons, if_neg (by simp [start c rfl])]
  refine ⟨front.rtakeWhile Text.isBlank, ?_, fun c => List.mem_rtakeWhile_imp⟩
  rw [Text.trim, Text.stripEnds, kept, Text.dropEndWhile_eq_rdropWhile,
    List.rdropWhile_append_rtakeWhile]

theorem inUnit?_eq_some_iff (start : ∀ c ∈ cs.head?, Text.isBlank c = false) :
    inUnit? cs unit = some n ↔ ∃ amount, Writes cs amount unit.1 ∧ Word.fits amount = true ∧
      Word.fits (amount * unit.2) = true ∧ n = amount * unit.2 := by
  rw [inUnit?]
  constructor
  · intro parsed
    obtain ⟨amount, read, product⟩ := Option.bind_eq_some_iff.mp parsed
    obtain ⟨front, split, read⟩ := Option.bind_eq_some_iff.mp read
    rw [Text.before?_eq_some_iff] at split
    obtain ⟨denotes, inRange⟩ := Word.read?_ten_eq_some_iff.mp read
    obtain ⟨fits, rfl⟩ := Word.ofInt?_eq_some_iff.mp product
    have starts : ∀ c ∈ front.head?, Text.isBlank c = false := by
      intro c first
      exact start c (split ▸ List.mem_head?_append_of_mem_head? first)
    obtain ⟨gap, whole, blank⟩ := exists_gap starts
    exact ⟨amount, ⟨Text.trim front, gap, by rw [← whole, split], denotes, blank⟩, inRange, fits,
      rfl⟩
  · rintro ⟨amount, ⟨written, gap, rfl, denotes, blank⟩, inRange, fits, rfl⟩
    rw [Text.before?_eq_some_iff.mpr rfl, Option.bind_some, trim_append_gap denotes blank,
      Word.read?_ten_eq_some_iff.mpr ⟨denotes, inRange⟩, Option.bind_some]
    exact Word.ofInt?_eq_some_iff.mpr ⟨fits, rfl⟩

/-! ### The order of the units -/

theorem suffix_of_inUnit? (parsed : inUnit? cs unit = some n) : unit.1.toList <:+ cs := by
  obtain ⟨_, read, -⟩ := Option.bind_eq_some_iff.mp parsed
  obtain ⟨front, split, -⟩ := Option.bind_eq_some_iff.mp read
  exact ⟨front, (Text.before?_eq_some_iff.mp split).symm⟩

/-- No unit ends with another one. -/
theorem eq_of_suffix_units :
    ∀ unit ∈ units, ∀ other ∈ units, unit.1.toList <:+ other.1.toList → unit = other := by
  decide

/-- A text has one unit at most. -/
theorem unit_eq {other : String × Int} {k : Int} (listed : unit ∈ units) (listed' : other ∈ units)
    (parsed : inUnit? cs unit = some n) (parsed' : inUnit? cs other = some k) : unit = other := by
  rcases List.suffix_or_suffix_of_suffix (suffix_of_inUnit? parsed) (suffix_of_inUnit? parsed')
    with short | long
  · exact eq_of_suffix_units unit listed other listed' short
  · exact (eq_of_suffix_units other listed' unit listed long).symm

/-- In whichever order the units are tried, the one that a text has is found. -/
theorem findSome?_inUnit?_eq_some_iff {order : List (String × Int)} (perm : order.Perm units) :
    order.findSome? (inUnit? cs) = some n ↔ ∃ unit ∈ units, inUnit? cs unit = some n := by
  rw [findSome?_eq_some_iff_of_unique]
  · exact exists_congr fun unit => and_congr_left fun _ => perm.mem_iff
  · intro unit listed other listed' a b parsed parsed'
    obtain rfl := unit_eq (perm.mem_iff.mp listed) (perm.mem_iff.mp listed') parsed parsed'
    exact Option.some.inj (parsed.symm.trans parsed')

theorem findSome?_inUnit?_of_perm {order : List (String × Int)} (perm : order.Perm units) :
    order.findSome? (inUnit? (Text.trim cs)) = parse? cs := by
  refine Option.ext fun n => ?_
  rw [findSome?_inUnit?_eq_some_iff perm, parse?, findSome?_inUnit?_eq_some_iff (.refl units)]

theorem parse?_eq_some_iff :
    parse? cs = some n ↔ ∃ amount, ∃ unit ∈ units, Writes (Text.trim cs) amount unit.1 ∧
      Word.fits amount = true ∧ Word.fits (amount * unit.2) = true ∧ n = amount * unit.2 := by
  rw [parse?, findSome?_inUnit?_eq_some_iff (.refl units)]
  have start := Text.head?_stripEnds Text.isBlank cs
  constructor
  · rintro ⟨unit, listed, parsed⟩
    obtain ⟨amount, written⟩ := (inUnit?_eq_some_iff start).mp parsed
    exact ⟨amount, unit, listed, written⟩
  · rintro ⟨amount, unit, listed, written⟩
    exact ⟨unit, listed, (inUnit?_eq_some_iff start).mpr ⟨amount, written⟩⟩

/-! ### Sizes that are written -/

/-- The decimal text of a number with the unit of one megabyte. -/
def megabytes (n : Int) : List Char := Numeral.signed n ++ "MiB".toList

theorem trim_megabytes (n : Int) : Text.trim (megabytes n) = megabytes n := by
  have denotes := Numeral.denotes_signed n
  have filled := denotes.characters.1
  refine Text.stripEnds_eq_self (fun c first => ?_) fun c last => ?_
  · rw [megabytes, List.head?_append_of_ne_nil _ filled] at first
    exact isBlank_of_denotes denotes c (List.mem_of_mem_head? first)
  · rw [megabytes, List.getLast?_append_of_ne_nil _ (by decide)] at last
    cases last
    decide

theorem parse?_megabytes (inRange : Word.fits n = true) : parse? (megabytes n) = some n := by
  rw [parse?_eq_some_iff, trim_megabytes]
  refine ⟨n, ("MiB", 1), List.mem_cons_self .., ?_, inRange, ?_, (mul_one n).symm⟩
  · exact ⟨Numeral.signed n, [], by rw [List.append_nil]; rfl, Numeral.denotes_signed n, nofun⟩
  · rwa [mul_one]

theorem memory_text (f : Field) (s : String) : f.memory (.literal (.text s)) =
    match parse? s.toList with
    | some n => .ok (.literal (.int n))
    | none => .error (f.invalid (.memorySize s)) := by
  rw [Field.memory, Field.mapLiterals, Field.memoryLiteral]
  cases parse? s.toList <;> rfl

/-- A text is a size exactly if it is, apart from white space at its ends, an amount that fits into
64 bits and a unit, with white space between them or not, such that the product fits as well; this
is the number of megabytes. In which order the units are tried makes no difference, and a number of
megabytes is read back from its decimal text. -/
theorem reads_amounts :
    (∀ cs n, parse? cs = some n ↔ ∃ amount, ∃ unit ∈ units,
      Writes (Text.trim cs) amount unit.1 ∧ Word.fits amount = true ∧
        Word.fits (amount * unit.2) = true ∧ n = amount * unit.2) ∧
    (∀ (cs : List Char) (order : List (String × Int)), order.Perm units →
      order.findSome? (inUnit? (Text.trim cs)) = parse? cs) ∧
    (∀ n, Word.fits n = true → parse? (megabytes n) = some n) ∧
    ∀ (f : Field) n, Word.fits n = true →
      f.memory (.literal (.text (String.ofList (megabytes n)))) = .ok (.literal (.int n)) := by
  refine ⟨fun cs n => parse?_eq_some_iff, fun cs order => findSome?_inUnit?_of_perm,
    fun n => parse?_megabytes, fun f n inRange => ?_⟩
  rw [memory_text, String.toList_ofList, parse?_megabytes inRange]

/-- The lowest number of megabytes is read back. Out of range, a size is none in the opposite order of
the units either. -/
theorem reads_amounts_lowest :
    Word.fits (-0x8000000000000000) = true ∧
      parse? "-9223372036854775808MiB".toList = some (-0x8000000000000000) ∧
      units.reverse.findSome? (inUnit? (Text.trim "9007199254740993GiB".toList)) =
        parse? "9007199254740993GiB".toList ∧
      parse? "9007199254740993GiB".toList = none := by
  have inRange : Word.fits (-0x8000000000000000) = true := by decide
  have written : megabytes (-0x8000000000000000) = "-9223372036854775808MiB".toList := by
    decide +kernel
  refine ⟨inRange, ?_, reads_amounts.2.1 _ _ (List.reverse_perm units), by decide +kernel⟩
  rw [← written]
  exact reads_amounts.2.2.1 _ inRange

end MemorySize

end DeployManifest
