import DeployManifest.Number.Word
import Mathlib.Data.Nat.Digits.Defs

/-! # What digits stand for

The number that digits in a base stand for, by their places. `value?_eq_positional` says that it is
the number that is read from them, and `read?_eq_ofInt?` that it is read whole or not at all.
-/

namespace DeployManifest

namespace Numeral

/-- The number that digits stand for by their places. Characters that are no digits do not count. -/
def positional (base : Nat) (cs : List Char) : Nat :=
  Nat.ofDigits base (cs.filterMap (digit? base)).reverse

/-- Are there only digits? -/
def AreDigits (base : Nat) (cs : List Char) : Prop := ∀ c ∈ cs, (digit? base c).isSome = true

instance (base : Nat) (cs : List Char) : Decidable (AreDigits base cs) :=
  List.decidableBAll _ cs

theorem extend?_eq_positional {base : Nat} {cs : List Char} (digits : AreDigits base cs)
    (seen : Nat) : extend? base seen cs = some (seen * base ^ cs.length + positional base cs) := by
  induction cs generalizing seen with
  | nil => simp [extend?, positional]
  | cons c cs ih =>
    rw [AreDigits, List.forall_mem_cons] at digits
    obtain ⟨d, here⟩ := Option.isSome_iff_exists.mp digits.1
    have count : (cs.filterMap (digit? base)).length = cs.length :=
      List.filterMap_length_eq_length.mpr digits.2
    have places : positional base (c :: cs) = positional base cs + base ^ cs.length * d := by
      rw [positional, List.filterMap_cons_some here, List.reverse_cons, Nat.ofDigits_append,
        List.length_reverse, count, Nat.ofDigits_singleton, positional]
    rw [extend?, here]
    dsimp only
    rw [ih digits.2, places, List.length_cons, pow_succ]
    congr 1
    ring

theorem value?_eq_positional {base : Nat} {cs : List Char} (some : cs ≠ [])
    (digits : AreDigits base cs) : value? base cs = .some (positional base cs) := by
  rw [value?, if_neg (by simpa using some), extend?_eq_positional digits, Nat.zero_mul,
    Nat.zero_add]

end Numeral

namespace Word

/-- Digits without a sign are read exactly, if their number is in range. -/
theorem read?_eq_ofInt? {base : Nat} {cs : List Char} (some : cs ≠ [])
    (digits : Numeral.AreDigits base cs) :
    read? base cs = ofInt? (Numeral.positional base cs) := by
  have value := Numeral.value?_eq_positional some digits
  unfold read?
  split
  · exact absurd (digits '-' (List.mem_cons_self ..)) (by simp [Numeral.digit?])
  · exact absurd (digits '+' (List.mem_cons_self ..)) (by simp [Numeral.digit?])
  · rw [value, Option.bind_some]

theorem fits_natCast_iff {n : Nat} : fits n = true ↔ n ≤ 0x7fffffffffffffff := by
  have below : (-0x8000000000000000 : Int) ≤ n := by omega
  rw [fits, Bool.and_eq_true, decide_eq_true_iff, decide_eq_true_iff, and_iff_right below]
  omega

end Word

end DeployManifest
