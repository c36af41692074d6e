import DeployManifest.Text.Utf8
import Mathlib.Data.String.Basic

/-! # Texts and their bytes

The bytes of a text are shown as the text (`lossy_bytes`). Bytes that encode no text are shown as a
text as well, which other bytes may share. A character below 128 only stands in it where its byte
does (`mem_of_mem_lossy`), since longer characters have greater numbers: that is so from their first
byte on (`Begun.IsLong`).
-/

namespace DeployManifest.Text

variable {b : UInt8} {bs : List UInt8} {begun : Begun} {state : Option Begun} {n v : Nat} {c : Char}
  {s t : String}

theorem bytes_eq_flatMap (s : String) : bytes s = s.toList.flatMap String.utf8EncodeChar := by
  conv => lhs; rw [← String.ofList_toList (s := s)]
  rw [bytes, String.toUTF8_eq_toByteArray, String.toByteArray_ofList, List.utf8Encode,
    List.toList_data_toByteArray]

theorem decode_cons (state : Option Begun) (b : UInt8) (bs : List UInt8) :
    decode state (b :: bs) = (read state b).1 ++ decode (read state b).2 bs := by
  rw [decode]

/-! ### Characters read back from their bytes -/

theorem toNat_ofNat (small : n < 256) : (UInt8.ofNat n).toNat = n := by
  rw [UInt8.toNat_ofNat', Nat.mod_eq_of_lt small]

theorem readFirst_one (small : v ≤ 0x7F) : readFirst (UInt8.ofNat v) = ([Char.ofNat v], none) := by
  have number : (UInt8.ofNat v).toNat = v := toNat_ofNat (by omega)
  rw [readFirst, if_pos, number]
  simp only [UInt8.lt_iff_toNat_lt, number, UInt8.reduceToNat]
  omega

theorem readFirst_two (great : 0x7F < v) (small : v ≤ 0x7FF) :
    readFirst (UInt8.ofNat (v / 64 % 32 + 0xC0)) = ([], some ⟨v / 64, 0x80, 0xBF, 0⟩) := by
  have number : (UInt8.ofNat (v / 64 % 32 + 0xC0)).toNat = v / 64 + 0xC0 := by
    rw [toNat_ofNat (by omega)]
    omega
  simp only [readFirst, begin?, UInt8.lt_iff_toNat_lt, number, UInt8.reduceToNat]
  rw [if_neg (by omega), if_neg (by omega), if_pos (by omega), Nat.add_sub_cancel]

theorem readFirst_three (great : 0x7FF < v) (small : v ≤ 0xFFFF) :
    readFirst (UInt8.ofNat (v / 4096 % 16 + 0xE0)) =
      ([], some ⟨v / 4096, if v / 4096 = 0 then 0xA0 else 0x80,
        if v / 4096 = 13 then 0x9F else 0xBF, 1⟩) := by
  have number : (UInt8.ofNat (v / 4096 % 16 + 0xE0)).toNat = v / 4096 + 0xE0 := by
    rw [toNat_ofNat (by omega)]
    omega
  simp only [readFirst, begin?, UInt8.lt_iff_toNat_lt, ← UInt8.toNat_inj, number,
    UInt8.reduceToNat]
  rw [if_neg (by omega), if_neg (by omega), if_neg (by omega), if_pos (by omega),
    Nat.add_sub_cancel]
  simp

theorem readFirst_four (great : 0xFFFF < v) (small : v < 0x110000) :
    readFirst (UInt8.ofNat (v / 262144 % 8 + 0xF0)) =
      ([], some ⟨v / 262144, if v / 262144 = 0 then 0x90 else 0x80,
        if v / 262144 = 4 then 0x8F else 0xBF, 2⟩) := by
  have number : (UInt8.ofNat (v / 262144 % 8 + 0xF0)).toNat = v / 262144 + 0xF0 := by
    rw [toNat_ofNat (by omega)]
    omega
  simp only [readFirst, begin?, UInt8.lt_iff_toNat_lt, ← UInt8.toNat_inj, number,
    UInt8.reduceToNat]
  rw [if_neg (by omega), if_neg (by omega), if_neg (by omega), if_neg (by omega),
    if_pos (by omega), Nat.add_sub_cancel]
  simp

/-- The byte for the last six bits of a number continues those in front of them. -/
theorem readNext_last (bits : begun.bits = v / 64) (above : begun.least.toNat ≤ v % 64 + 0x80)
    (below : v % 64 + 0x80 ≤ begun.greatest.toNat) :
    readNext begun (UInt8.ofNat (v % 64 + 0x80)) = continued v begun.more := by
  have number : (UInt8.ofNat (v % 64 + 0x80)).toNat = v % 64 + 0x80 := toNat_ofNat (by omega)
  have whole : 64 * begun.bits + (v % 64 + 0x80 - 0x80) = v := by omega
  rw [readNext, if_pos (by simpa only [UInt8.le_iff_toNat_le, number] using ⟨above, below⟩), number,
    whole]

theorem decode_end {least greatest : UInt8} (above : least.toNat ≤ v % 64 + 0x80)
    (below : v % 64 + 0x80 ≤ greatest.toNat) (bs : List UInt8) :
    decode (some ⟨v / 64, least, greatest, 0⟩) (UInt8.ofNat (v % 64 + 0x80) :: bs) =
      Char.ofNat v :: decode none bs := by
  rw [decode_cons, read, readNext_last rfl above below]
  rfl

theorem decode_onward {least greatest : UInt8} {more : Nat} (above : least.toNat ≤ v % 64 + 0x80)
    (below : v % 64 + 0x80 ≤ greatest.toNat) (bs : List UInt8) :
    decode (some ⟨v / 64, least, greatest, more + 1⟩) (UInt8.ofNat (v % 64 + 0x80) :: bs) =
      decode (some ⟨v, 0x80, 0xBF, more⟩) bs := by
  rw [decode_cons, read, readNext_last rfl above below]
  rfl

theorem decode_encode (c : Char) (bs : List UInt8) :
    decode none (String.utf8EncodeChar c ++ bs) = c :: decode none bs := by
  have valid : c.val.toNat.isValidChar := c.valid
  have same : Char.ofNat c.val.toNat = c := c.ofNat_toNat
  unfold String.utf8EncodeChar
  generalize c.val.toNat = v at valid same ⊢
  have scalar : v < 0xD800 ∨ 0xDFFF < v ∧ v < 0x110000 := valid
  have tail (n : Nat) :
      (0x80 : UInt8).toNat ≤ n % 64 + 0x80 ∧ n % 64 + 0x80 ≤ (0xBF : UInt8).toNat := by
    simp only [UInt8.reduceToNat]
    omega
  have second : v / 4096 = v / 64 / 64 := by omega
  have third : v / 262144 = v / 64 / 64 / 64 := by omega
  dsimp only
  split_ifs with one two three
  · rw [List.singleton_append, decode_cons, read, readFirst_one one, same]
    rfl
  · rw [List.cons_append, decode_cons, read, readFirst_two (by omega) two]
    exact (decode_end (tail v).1 (tail v).2 bs).trans (by rw [same])
  · rw [List.cons_append, decode_cons, read, readFirst_three (by omega) three]
    simp only [second, List.cons_append, List.nil_append]
    rw [decode_onward, decode_end (tail v).1 (tail v).2, same]
    · split_ifs <;> simp only [UInt8.reduceToNat] <;> omega
    · split_ifs <;> simp only [UInt8.reduceToNat] <;> omega
  · rw [List.cons_append, decode_cons, read, readFirst_four (by omega) (by omega)]
    simp only [second, third, List.cons_append, List.nil_append]
    rw [decode_onward, decode_onward (tail (v / 64)).1 (tail (v / 64)).2,
      decode_end (tail v).1 (tail v).2, same]
    · split_ifs <;> simp only [UInt8.reduceToNat] <;> omega
    · split_ifs <;> simp only [UInt8.reduceToNat] <;> omega

@[simp]
theorem lossy_bytes (s : String) : lossy (bytes s) = s := by
  have read (cs : List Char) : decode none (cs.flatMap String.utf8EncodeChar) = cs := by
    induction cs with
    | nil => rfl
    | cons c cs ih => rw [List.flatMap_cons, decode_encode, ih]
  rw [lossy, bytes_eq_flatMap, read, String.ofList_toList]

theorem ofBytes?_eq_some_iff : ofBytes? bs = some s ↔ bs = bytes s := by
  rw [ofBytes?, String.fromUTF8?]
  constructor
  · intro found
    split at found
    · cases found
      rfl
    · cases found
  · rintro rfl
    exact dif_pos s.isValidUTF8

/-! ### Characters of any bytes -/

namespace Begun

/-- The least number that a begun character may have. -/
def low (begun : Begun) : Nat := (64 * begun.bits + (begun.least.toNat - 0x80)) * 64 ^ begun.more

/-- A number that is too great for it. -/
def high (begun : Begun) : Nat :=
  (64 * begun.bits + (begun.greatest.toNat - 0x80) + 1) * 64 ^ begun.more

/-- Its number is one of a character, but not of one that is a single byte. -/
def IsLong (begun : Begun) : Prop :=
  0x80 ≤ begun.low ∧ (begun.high ≤ 0xD800 ∨ 0xE000 ≤ begun.low ∧ begun.high ≤ 0x110000)

/-- Each byte narrows the range of the number. -/
theorem IsLong.narrow {next : Begun} (long : begun.IsLong) (low : begun.low ≤ next.low)
    (high : next.high ≤ begun.high) : next.IsLong := by
  obtain ⟨least, range⟩ := long
  exact ⟨least.trans low, range.imp high.trans fun ⟨above, below⟩ =>
    ⟨above.trans low, high.trans below⟩⟩

end Begun

theorem isLong_of_begin? (begins : begin? b = some begun) : begun.IsLong := by
  simp only [begin?, UInt8.lt_iff_toNat_lt, ← UInt8.toNat_inj, UInt8.reduceToNat] at begins
  split at begins
  · cases begins
  · split at begins
    · obtain rfl := Option.some.inj begins
      simp only [Begun.IsLong, Begun.low, Begun.high, UInt8.reduceToNat]
      omega
    · split at begins
      · obtain rfl := Option.some.inj begins
        simp only [Begun.IsLong, Begun.low, Begun.high]
        split_ifs <;> simp only [UInt8.reduceToNat] <;> omega
      · split at begins
        · obtain rfl := Option.some.inj begins
          simp only [Begun.IsLong, Begun.low, Begun.high]
          split_ifs <;> simp only [UInt8.reduceToNat] <;> omega
        · cases begins

/-- What is read with a byte: short characters are the byte itself. -/
def Reads (b : UInt8) (result : List Char × Option Begun) : Prop :=
  (∀ c ∈ result.1, c.toNat < 0x80 → b = UInt8.ofNat c.toNat) ∧ ∀ begun ∈ result.2, begun.IsLong

theorem toNat_of_isValidChar (valid : n.isValidChar) : (Char.ofNat n).toNat = n := by
  rw [Char.ofNat, dif_pos valid]
  rfl

theorem toNat_replacement : ¬ replacement.toNat < 0x80 := by decide

theorem reads_readFirst (b : UInt8) : Reads b (readFirst b) := by
  rw [readFirst]
  split
  · rename_i short
    have small : b.toNat < 0x80 := UInt8.lt_iff_toNat_lt.mp short
    have valid : b.toNat.isValidChar := .inl (by omega)
    refine ⟨List.forall_mem_singleton.mpr fun _ => ?_, nofun⟩
    rw [toNat_of_isValidChar valid, UInt8.ofNat_toNat]
  · split
    · rename_i begun begins
      refine ⟨nofun, fun _ member => ?_⟩
      cases member
      exact isLong_of_begin? begins
    · exact ⟨List.forall_mem_singleton.mpr fun short => absurd short toNat_replacement, nofun⟩

theorem reads_readNext (long : begun.IsLong) (b : UInt8) : Reads b (readNext begun b) := by
  obtain ⟨bits, least, greatest, more⟩ := begun
  rw [readNext]
  split
  · rename_i fits
    obtain ⟨above, below⟩ : least.toNat ≤ b.toNat ∧ b.toNat ≤ greatest.toNat := fits
    cases more with
    | zero =>
      obtain ⟨least, range⟩ := long
      simp only [Begun.low, Begun.high, pow_zero, mul_one] at least range
      have valid : (64 * bits + (b.toNat - 0x80)).isValidChar := by
        rw [Nat.isValidChar]
        omega
      refine ⟨List.forall_mem_singleton.mpr fun short => ?_, nofun⟩
      rw [toNat_of_isValidChar valid] at short
      omega
    | succ more =>
      refine ⟨nofun, fun _ member => ?_⟩
      obtain rfl := Option.mem_some.mp member
      have power : 64 ^ (more + 1) = 64 * 64 ^ more := Nat.pow_succ'
      refine long.narrow ?_ ?_
      · simp only [Begun.low, UInt8.reduceToNat, power, ← mul_assoc]
        exact Nat.mul_le_mul_right _ (by omega)
      · simp only [Begun.high, UInt8.reduceToNat, power, ← mul_assoc]
        exact Nat.mul_le_mul_right _ (by omega)
  · obtain ⟨chars, next⟩ := reads_readFirst b
    exact ⟨List.forall_mem_cons.mpr ⟨fun short => absurd short toNat_replacement, chars⟩, next⟩

theorem mem_of_mem_decode (long : ∀ begun ∈ state, begun.IsLong) (short : c.toNat < 0x80)
    (member : c ∈ decode state bs) : UInt8.ofNat c.toNat ∈ bs := by
  induction bs generalizing state with
  | nil =>
    cases state with
    | none => cases member
    | some begun =>
      obtain rfl := List.mem_singleton.mp member
      exact absurd short toNat_replacement
  | cons b bs ih =>
    have reads : Reads b (read state b) := by
      cases state with
      | none => exact reads_readFirst b
      | some begun => exact reads_readNext (long begun rfl) b
    rw [decode_cons] at member
    rcases List.mem_append.mp member with here | later
    · rw [← reads.1 c here short]
      exact List.mem_cons_self ..
    · exact List.mem_cons_of_mem _ (ih reads.2 later)

/-- A character below 128 stands for its byte alone. -/
theorem mem_of_mem_lossy (short : c.toNat < 0x80) (member : c ∈ (lossy bs).toList) :
    UInt8.ofNat c.toNat ∈ bs := by
  rw [lossy, String.toList_ofList] at member
  have between : ∀ begun ∈ (none : Option Begun), begun.IsLong := nofun
  exact mem_of_mem_decode between short member

theorem decode_some_ne_nil (begun : Begun) (bs : List UInt8) : decode (some begun) bs ≠ [] := by
  induction bs generalizing begun with
  | nil => exact List.cons_ne_nil _ _
  | cons b bs ih =>
    rw [decode_cons, read, readNext]
    split
    · cases begun.more with
      | zero => exact List.cons_ne_nil _ _
      | succ more => exact ih _
    · exact List.cons_ne_nil _ _

/-- Any bytes show something. -/
theorem lossy_ne_empty (some : bs ≠ []) : lossy bs ≠ "" := by
  obtain ⟨b, bs, rfl⟩ := List.exists_cons_of_ne_nil some
  rw [lossy, Ne, String.ofList_eq_empty_iff, decode_cons, read, readFirst]
  split
  · exact List.cons_ne_nil _ _
  · cases begin? b with
    | none => exact List.cons_ne_nil _ _
    | some begun => exact decode_some_ne_nil begun bs

end DeployManifest.Text
