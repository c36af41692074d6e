import DeployManifest.Proofs.Number.Positional
import DeployManifest.Proofs.Text
import Mathlib.Data.List.Basic

/-! # Decimal numbers with a sign

What a decimal number with or without a sign stands for, by its characters alone (`Denotes`). Just
these numbers are read, if they are in range (`Word.read?_ten_eq_some_iff`), and the decimal text of a
number denotes it (`denotes_signed`).
-/

namespace DeployManifest

namespace Numeral

variable {cs ds : List Char} {n : Nat}

/-- The number that decimal digits stand for. -/
def ofDecimal (ds : List Char) : Nat :=
  Nat.ofDigits 10 (ds.map fun c => c.toNat - '0'.toNat).reverse

theorem digit?_ten (c : Char) :
    digit? 10 c = if c.isDigit then some (c.toNat - '0'.toNat) else none := by
  have zero : '0'.toNat = 48 := rfl
  rw [digit?]
  split
  · rename_i digit
    have high := (Text.isDigit_iff.mp digit).2
    exact if_pos (by omega)
  · -- A letter counts as ten at least.
    refine if_neg ?_
    split_ifs <;> omega

theorem areDigits_ten_iff : AreDigits 10 ds ↔ ∀ c ∈ ds, c.isDigit = true := by
  refine forall₂_congr fun c _ => ?_
  rw [digit?_ten, Option.isSome_ite]

theorem positional_ten (digits : ∀ c ∈ ds, c.isDigit = true) : positional 10 ds = ofDecimal ds := by
  have values : ds.filterMap (digit? 10) = ds.map fun c => c.toNat - '0'.toNat := by
    rw [← List.filterMap_eq_map]
    refine List.filterMap_congr fun c member => ?_
    rw [digit?_ten, if_pos (digits c member)]
    rfl
  rw [positional, values, ofDecimal]

/-- What is no digit ends the reading of a number. -/
theorem areDigits_of_extend? {base seen : Nat} (read : extend? base seen cs = some n) :
    AreDigits base cs := by
  induction cs generalizing seen with
  | nil => exact nofun
  | cons c cs ih =>
    rw [extend?] at read
    split at read
    · rename_i d here
      exact List.forall_mem_cons.mpr ⟨Option.isSome_iff_exists.mpr ⟨d, here⟩, ih read⟩
    · cases read

theorem value?_ten_eq_some_iff :
    value? 10 cs = some n ↔ cs ≠ [] ∧ (∀ c ∈ cs, c.isDigit = true) ∧ n = ofDecimal cs := by
  constructor
  · intro read
    have filled : cs ≠ [] := by
      rintro rfl
      cases read
    have digits : AreDigits 10 cs := by
      rw [value?, if_neg (by simpa using filled)] at read
      exact areDigits_of_extend? read
    rw [value?_eq_positional filled digits, Option.some.injEq] at read
    have decimal := areDigits_ten_iff.mp digits
    exact ⟨filled, decimal, by rw [← read, positional_ten decimal]⟩
  · rintro ⟨filled, digits, rfl⟩
    rw [value?_eq_positional filled (areDigits_ten_iff.mpr digits), positional_ten digits]

/-- Decimal digits behind at most one sign, and the number that they stand for. -/
inductive Denotes : List Char → Int → Prop where
  | unsigned {ds : List Char} (filled : ds ≠ []) (digits : ∀ c ∈ ds, c.isDigit = true) :
    Denotes ds (ofDecimal ds)
  | plus {ds : List Char} (filled : ds ≠ []) (digits : ∀ c ∈ ds, c.isDigit = true) :
    Denotes ('+' :: ds) (ofDecimal ds)
  | minus {ds : List Char} (filled : ds ≠ []) (digits : ∀ c ∈ ds, c.isDigit = true) :
    Denotes ('-' :: ds) (-ofDecimal ds)

/-- There are only digits and signs in a number. -/
theorem Denotes.characters {v : Int} (denotes : Denotes cs v) :
    cs ≠ [] ∧ ∀ c ∈ cs, c.isDigit = true ∨ c = '+' ∨ c = '-' := by
  cases denotes with
  | unsigned filled digits => exact ⟨filled, fun c member => .inl (digits c member)⟩
  | plus _ digits =>
    refine ⟨List.cons_ne_nil _ _, List.forall_mem_cons.mpr ⟨.inr (.inl rfl), ?_⟩⟩
    exact fun c member => .inl (digits c member)
  | minus _ digits =>
    refine ⟨List.cons_ne_nil _ _, List.forall_mem_cons.mpr ⟨.inr (.inr rfl), ?_⟩⟩
    exact fun c member => .inl (digits c member)

/-- The decimal text of a number denotes it. -/
theorem denotes_signed (v : Int) : Denotes (signed v) v := by
  cases v with
  | ofNat m =>
    obtain ⟨filled, digits, same⟩ := value?_ten_eq_some_iff.mp (value?_decimal m)
    have denotes := Denotes.unsigned filled digits
    rwa [← same] at denotes
  | negSucc m =>
    obtain ⟨filled, digits, same⟩ := value?_ten_eq_some_iff.mp (value?_decimal (m + 1))
    have denotes := Denotes.minus filled digits
    rwa [← same] at denotes

end Numeral

namespace Word

/-- Just the numbers that are in range are read. -/
theorem read?_ten_eq_some_iff {cs : List Char} {v : Int} :
    read? 10 cs = some v ↔ Numeral.Denotes cs v ∧ fits v = true := by
  constructor
  · intro read
    refine ⟨?_, fits_of_read? read⟩
    unfold read? at read
    split at read
    all_goals
      obtain ⟨n, value, inRange⟩ := Option.bind_eq_some_iff.mp read
      obtain ⟨filled, digits, rfl⟩ := Numeral.value?_ten_eq_some_iff.mp value
      obtain ⟨-, rfl⟩ := ofInt?_eq_some_iff.mp inRange
    · exact .minus filled digits
    · exact .plus filled digits
    · exact .unsigned filled digits
  · rintro ⟨denotes, inRange⟩
    have kept : ofInt? v = some v := ofInt?_eq_some_iff.mpr ⟨inRange, rfl⟩
    cases denotes with
    | unsigned filled digits =>
      rw [read?_eq_ofInt? filled (Numeral.areDigits_ten_iff.mpr digits),
        Numeral.positional_ten digits]
      exact kept
    | plus filled digits | minus filled digits =>
      rw [read?, Numeral.value?_ten_eq_some_iff.mpr ⟨filled, digits, rfl⟩, Option.bind_some]
      exact kept

end Word

end DeployManifest
