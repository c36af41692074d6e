import DeployManifest.Number.Numeral

/-! # Signed 64-bit integers

Integers are kept exactly; a reader refuses a number outside the range of 64 bits, so no value is
ever wrapped. `fits_of_read?` says that what is read is in range.
-/

namespace DeployManifest.Word

/-- Is the number in the range of signed 64-bit integers? -/
def fits (n : Int) : Bool := -0x8000000000000000 ≤ n && n < 0x8000000000000000

/-- The number, when it is in range. -/
def ofInt? (n : Int) : Option Int := if fits n then some n else none

/-- Reads one or more digits after at most one sign, when the number is in range. -/
def read? (base : Nat) (cs : List Char) : Option Int :=
  match cs with
  | '-' :: ds => (Numeral.value? base ds).bind fun n => ofInt? (-(n : Int))
  | '+' :: ds => (Numeral.value? base ds).bind fun n => ofInt? n
  | ds => (Numeral.value? base ds).bind fun n => ofInt? n

def mul? (a b : Int) : Option Int := ofInt? (a * b)

theorem ofInt?_eq_some_iff {n m : Int} : ofInt? n = some m ↔ fits n = true ∧ n = m := by
  unfold ofInt?
  split <;> simp_all

theorem fits_of_read? {base : Nat} {cs : List Char} {n : Int} (read : read? base cs = some n) :
    fits n = true := by
  unfold read? at read
  split at read <;>
    (obtain ⟨m, -, inRange⟩ := Option.bind_eq_some_iff.mp read
     obtain ⟨fit, rfl⟩ := ofInt?_eq_some_iff.mp inRange
     exact fit)

end DeployManifest.Word
