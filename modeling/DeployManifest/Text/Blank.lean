/-! # White space

The characters that the Unicode standard gives the property `White_Space`, and the text left when
they are cut from both ends. `head?_dropWhile` says that nothing of a class stays in front.
-/

namespace DeployManifest.Text

/-- A character with the Unicode property `White_Space`. -/
def isBlank (c : Char) : Bool :=
  let n := c.toNat
  (0x09 ≤ n && n ≤ 0x0D) || n == 0x20 || n == 0x85 || n == 0xA0 || n == 0x1680
    || (0x2000 ≤ n && n ≤ 0x200A) || n == 0x2028 || n == 0x2029 || n == 0x202F
    || n == 0x205F || n == 0x3000

def dropEndWhile (p : Char → Bool) (cs : List Char) : List Char :=
  (cs.reverse.dropWhile p).reverse

def stripEnds (p : Char → Bool) (cs : List Char) : List Char :=
  dropEndWhile p (cs.dropWhile p)

def trim (cs : List Char) : List Char := stripEnds isBlank cs

@[simp]
theorem stripEnds_nil (p : Char → Bool) : stripEnds p [] = [] := rfl

/-- Nothing of the class is left in front. -/
theorem head?_dropWhile (p : Char → Bool) (cs : List Char) :
    ∀ c ∈ (cs.dropWhile p).head?, p c = false := by
  induction cs with
  | nil => simp
  | cons c cs ih =>
    by_cases hc : p c
    · simpa [List.dropWhile_cons, hc] using ih
    · simp [hc]

end DeployManifest.Text
