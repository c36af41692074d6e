import DeployManifest.Proofs.Number.Positional
import DeployManifest.Proofs.Text
import DeployManifest.Expr.Constant
import DeployManifest.Tree.Token

/-! # Whole numbers as tokens

A whole number is cut from the text where it ends, so what is cut is one by itself
(`isInteger_take`). Its digits may be decimal or follow the mark of a base, and one letter may stand
behind them. `integer?_eq_ofInt?` says that without such a letter its value is read from the digits
by their places, if it has 64 bits.
-/

namespace DeployManifest.Token

/-- Is it a whole number, as it is cut from the text? -/
def IsInteger (cs : List Char) : Prop := cs ≠ [] ∧ integerLength cs = cs.length

/-! ### Rows of digits -/

/-- A digit of a class, or what groups digits. -/
def Groups (p : Char → Bool) (cs : List Char) : Prop := ∀ c ∈ cs, p c = true ∨ c = '_'

variable {p : Char → Bool} {cs : List Char} {count : Nat}

theorem digitsLength_of_not {c : Char} (other : ¬c.isDigit = true) :
    digitsLength (c :: cs) = 0 := by
  rw [digitsLength.eq_def]
  exact if_neg other

theorem basedLength_of_digit {c : Char} (digit : p c = true) :
    basedLength p (c :: cs) = 1 + basedLength p cs := by
  rw [basedLength.eq_def]
  exact if_pos digit

theorem basedLength_grouped {d : Char} (other : ¬p '_' = true) (digit : p d = true) :
    basedLength p ('_' :: d :: cs) = 2 + basedLength p cs := by
  rw [basedLength.eq_def]
  simp [other, digit]

theorem basedLength_of_not {c : Char} (other : ¬p c = true)
    (ends : c = '_' → ∀ d ∈ cs.head?, ¬p d = true) : basedLength p (c :: cs) = 0 := by
  rw [basedLength.eq_def]
  cases cs <;> simp_all

theorem digitsLength_le : digitsLength cs ≤ cs.length := by
  induction cs using digitsLength.induct with
  | case1 => exact Nat.le_refl _
  | case2 c digit rest ih =>
    simp only [digitsLength, digit, if_true, List.length_cons]
    omega
  | case3 c digit cs other ih =>
    rw [digitsLength.eq_3 _ _ other, if_pos digit, List.length_cons]
    omega
  | case4 c cs digit =>
    rw [digitsLength_of_not digit]
    exact Nat.zero_le _

theorem digitsLength_take (covers : digitsLength cs ≤ count) :
    digitsLength (cs.take count) = digitsLength cs := by
  induction cs using digitsLength.induct generalizing count with
  | case1 => rw [List.take_nil]
  | case2 c digit rest ih =>
    simp only [digitsLength, digit, if_true] at covers ⊢
    obtain ⟨count, rfl⟩ := Nat.exists_eq_add_of_le' (show 2 ≤ count by omega)
    simp only [List.take_succ_cons, digitsLength, digit, if_true]
    rw [ih (by omega)]
  | case3 c digit cs other ih =>
    rw [digitsLength.eq_3 _ _ other, if_pos digit] at covers ⊢
    obtain ⟨count, rfl⟩ := Nat.exists_eq_add_of_le' (show 1 ≤ count by omega)
    rw [List.take_succ_cons, digitsLength.eq_3 _ _ fun rest cut => ?_, if_pos digit, ih (by omega)]
    cases cs with
    | nil => simp at cut
    | cons d cs =>
      cases count with
      | zero => cases cut
      | succ count => exact other cs (by rw [(List.cons.inj cut).1])
  | case4 c cs digit =>
    cases count with
    | zero => rw [List.take_zero, digitsLength, digitsLength_of_not digit]
    | succ count => rw [List.take_succ_cons, digitsLength_of_not digit, digitsLength_of_not digit]

theorem groups_digitsLength (cs : List Char) : Groups Char.isDigit (cs.take (digitsLength cs)) := by
  induction cs using digitsLength.induct with
  | case1 => nofun
  | case2 c digit rest ih =>
    simp only [digitsLength, digit, if_true, Nat.add_comm 2, List.take_succ_cons]
    exact List.forall_mem_cons.mpr ⟨.inl digit, List.forall_mem_cons.mpr ⟨.inr rfl, ih⟩⟩
  | case3 c digit cs other ih =>
    rw [digitsLength.eq_3 _ _ other, if_pos digit, Nat.add_comm, List.take_succ_cons]
    exact List.forall_mem_cons.mpr ⟨.inl digit, ih⟩
  | case4 c cs digit =>
    rw [digitsLength_of_not digit]
    nofun

theorem exists_digit (some : digitsLength cs ≠ 0) :
    ∃ c rest, cs = c :: rest ∧ c.isDigit = true := by
  cases cs with
  | nil => exact absurd rfl some
  | cons c cs =>
    refine ⟨c, cs, rfl, ?_⟩
    by_contra other
    exact some (digitsLength_of_not other)

theorem basedLength_take (covers : basedLength p cs ≤ count) :
    basedLength p (cs.take count) = basedLength p cs := by
  induction cs using basedLength.induct p generalizing count with
  | case1 => rw [List.take_nil]
  | case2 c rest digit ih =>
    rw [basedLength_of_digit digit] at covers ⊢
    obtain ⟨count, rfl⟩ := Nat.exists_eq_add_of_le' (show 1 ≤ count by omega)
    rw [List.take_succ_cons, basedLength_of_digit digit, ih (by omega)]
  | case3 d rest digit other ih =>
    rw [basedLength_grouped other digit] at covers ⊢
    obtain ⟨count, rfl⟩ := Nat.exists_eq_add_of_le' (show 2 ≤ count by omega)
    rw [List.take_succ_cons, List.take_succ_cons, basedLength_grouped other digit, ih (by omega)]
  | case4 d rest digit other =>
    rcases count with _ | _ | count <;> simp [basedLength, digit, other]
  | case5 other => cases count <;> simp [basedLength, other]
  | case6 c rest digit other =>
    have none (ds : List Char) : basedLength p (c :: ds) = 0 :=
      basedLength_of_not digit fun is => absurd is other
    cases count with
    | zero => rw [List.take_zero, basedLength, none]
    | succ count => rw [List.take_succ_cons, none, none]

theorem groups_basedLength (cs : List Char) : Groups p (cs.take (basedLength p cs)) := by
  induction cs using basedLength.induct p with
  | case1 => nofun
  | case2 c rest digit ih =>
    rw [basedLength_of_digit digit, Nat.add_comm, List.take_succ_cons]
    exact List.forall_mem_cons.mpr ⟨.inl digit, ih⟩
  | case3 d rest digit other ih =>
    rw [basedLength_grouped other digit, Nat.add_comm, List.take_succ_cons, List.take_succ_cons]
    exact List.forall_mem_cons.mpr ⟨.inr rfl, List.forall_mem_cons.mpr ⟨.inl digit, ih⟩⟩
  | case4 d rest digit other => simp [basedLength, digit, other, Groups]
  | case5 other => simp [basedLength, other, Groups]
  | case6 c rest digit other =>
    rw [basedLength_of_not digit fun is => absurd is other]
    nofun

theorem basedLength_le : basedLength p cs ≤ cs.length := by
  induction cs using basedLength.induct p with
  | case1 => exact Nat.le_refl _
  | case2 c rest digit ih =>
    rw [basedLength_of_digit digit, List.length_cons]
    omega
  | case3 d rest digit other ih =>
    rw [basedLength_grouped other digit, List.length_cons, List.length_cons]
    omega
  | case4 d rest digit other => simp [basedLength, digit, other]
  | case5 other => simp [basedLength, other]
  | case6 c rest digit other =>
    rw [basedLength_of_not digit fun is => absurd is other]
    exact Nat.zero_le _

/-! ### Marks in front and letters behind -/

/-- The base that a letter behind a zero stands for. -/
def markBase? (c : Char) : Option Nat :=
  match c with
  | 'x' => some 16
  | 'X' => some 16
  | 'o' => some 8
  | 'O' => some 8
  | 'b' => some 2
  | 'B' => some 2
  | _ => none

theorem not_digit_of_markBase? {c : Char} {base : Nat} (marks : markBase? c = some base) :
    ¬(c.isDigit = true ∨ c = '_') := by
  unfold markBase? at marks
  split at marks <;> first | decide | cases marks

/-- The base that is marked in front. -/
def base? (cs : List Char) : Option Nat :=
  match cs with
  | '0' :: c :: _ => markBase? c
  | _ => none

/-- Is it a digit in the base? -/
def digitIn (base : Nat) (c : Char) : Bool := (Numeral.digit? base c).isSome

theorem digitIn_iff {base : Nat} {c : Char} : digitIn base c = true ↔
    48 ≤ c.toNat ∧ c.toNat ≤ 57 ∧ c.toNat < base + 48 ∨
    97 ≤ c.toNat ∧ c.toNat ≤ 122 ∧ c.toNat < base + 87 ∨
    65 ≤ c.toNat ∧ c.toNat ≤ 90 ∧ c.toNat < base + 55 := by
  simp only [digitIn, Numeral.digit?, Char.isDigit, Text.isLower_iff, Text.isUpper_iff, ge_iff_le,
    UInt32.le_iff_toNat_le, Bool.and_eq_true, decide_eq_true_iff, Option.isSome_ite, Char.toNat_val]
  simp only [Char.reduceToNat]
  split_ifs <;> omega

theorem isHexDigit_eq : isHexDigit = digitIn 16 := by
  funext c
  rw [Bool.eq_iff_iff, digitIn_iff]
  simp [isHexDigit, Char.isDigit, Char.le_def, UInt32.le_iff_toNat_le]
  omega

theorem isOctalDigit_eq : isOctalDigit = digitIn 8 := by
  funext c
  rw [Bool.eq_iff_iff, digitIn_iff]
  simp [isOctalDigit, Char.le_def, UInt32.le_iff_toNat_le]
  omega

theorem isBinaryDigit_eq : isBinaryDigit = digitIn 2 := by
  funext c
  rw [Bool.eq_iff_iff, digitIn_iff]
  simp [isBinaryDigit, ← Char.toNat_inj]
  omega

theorem isDigit_eq : Char.isDigit = digitIn 10 := by
  funext c
  rw [Bool.eq_iff_iff, digitIn_iff]
  simp [Char.isDigit, UInt32.le_iff_toNat_le]
  omega

/-- The length of the number by the mark of its base. -/
def based? (cs : List Char) : Option Nat :=
  (base? cs).bind fun base => markedLength? (digitIn base) cs

theorem integerLength_eq (cs : List Char) : integerLength cs =
    (based? cs).getD (if digitsLength cs = 0 then 0
      else withSuffix ['L', 'l', 'j', 'J'] cs (digitsLength cs)) := by
  unfold integerLength
  dsimp only
  rw [isHexDigit_eq, isOctalDigit_eq, isBinaryDigit_eq]
  split
  · rename_i count marked
    have same : based? cs = some count := by
      split at marked
      all_goals try exact marked
      cases marked
    rw [same, Option.getD_some]
  · rename_i marked
    have same : based? cs = none := by
      split at marked
      all_goals try exact marked
      unfold based? base?
      split
      · unfold markBase?
        split <;> simp_all
      · rfl
    rw [same, Option.getD_none]
    split
    · rename_i none
      rw [if_pos none]
    · rename_i other
      rw [if_neg fun none => other none]

variable {letters : List Char}

theorem le_withSuffix (letters cs : List Char) (count : Nat) :
    count ≤ withSuffix letters cs count := by
  unfold withSuffix
  split
  · split <;> omega
  · exact Nat.le_refl _

theorem withSuffix_le (within : count ≤ cs.length) : withSuffix letters cs count ≤ cs.length := by
  unfold withSuffix
  split
  · rename_i c rest behind
    have more := congrArg List.length behind
    rw [List.length_drop, List.length_cons] at more
    split <;> omega
  · exact within

theorem withSuffix_take (letters cs : List Char) (count : Nat) :
    withSuffix letters (cs.take (withSuffix letters cs count)) count =
      withSuffix letters cs count := by
  unfold withSuffix
  rw [List.drop_take]
  cases behind : cs.drop count with
  | nil => rw [List.take_nil]
  | cons c rest =>
    dsimp only
    by_cases listed : letters.contains c = true
    · simp only [listed, if_true, Nat.add_sub_cancel_left, List.take_succ_cons]
    · simp only [listed, Nat.sub_self, List.take_zero, Bool.false_eq_true, if_false]

theorem mem_of_withSuffix (ends : withSuffix letters cs count = cs.length) :
    ∀ c ∈ cs.drop count, c ∈ letters := by
  unfold withSuffix at ends
  split at ends
  · rename_i c rest behind
    have more := congrArg List.length behind
    rw [List.length_drop, List.length_cons] at more
    split at ends
    · rename_i listed
      obtain rfl : rest = [] := List.length_eq_zero_iff.mp (by omega)
      rw [behind]
      exact List.forall_mem_singleton.mpr (List.contains_iff_mem.mp listed)
    · omega
  · rename_i behind
    rw [behind]
    nofun

theorem exists_of_base? {base : Nat} (found : base? cs = some base) :
    ∃ c ds, cs = '0' :: c :: ds ∧ markBase? c = some base := by
  unfold base? at found
  split at found
  · exact ⟨_, _, rfl, found⟩
  · cases found

theorem based?_marked {c : Char} {ds : List Char} {base : Nat} (marks : markBase? c = some base) :
    based? ('0' :: c :: ds) =
      if basedLength (digitIn base) ds = 0 then none
      else some (withSuffix ['L', 'l'] ('0' :: c :: ds) (2 + basedLength (digitIn base) ds)) := by
  have found : base? ('0' :: c :: ds) = some base := marks
  rw [based?, found, Option.bind_some, markedLength?, List.drop_succ_cons, List.drop_succ_cons,
    List.drop_zero]
  split <;> rename_i count
  · rw [if_pos count]
  · rw [if_neg count]

theorem exists_of_based? (found : based? cs = some count) : ∃ c ds base, cs = '0' :: c :: ds ∧
    markBase? c = some base ∧ basedLength (digitIn base) ds ≠ 0 ∧
      count = withSuffix ['L', 'l'] cs (2 + basedLength (digitIn base) ds) := by
  obtain ⟨base, marked, -⟩ := Option.bind_eq_some_iff.mp found
  obtain ⟨c, ds, rfl, marks⟩ := exists_of_base? marked
  rw [based?_marked marks] at found
  split at found
  · cases found
  · rename_i some
    exact ⟨c, ds, base, rfl, marks, some, (Option.some.inj found).symm⟩

/-! ### The whole token -/

theorem integerLength_le (cs : List Char) : integerLength cs ≤ cs.length := by
  rw [integerLength_eq]
  cases found : based? cs with
  | some count =>
    obtain ⟨c, ds, base, rfl, -, -, rfl⟩ := exists_of_based? found
    refine withSuffix_le ?_
    have within := @basedLength_le (digitIn base) ds
    rw [List.length_cons, List.length_cons]
    omega
  | none =>
    rw [Option.getD_none]
    split
    · exact Nat.zero_le _
    · exact withSuffix_le digitsLength_le

theorem based?_take_of_none (none : based? cs = none) (count : Nat) :
    based? (cs.take count) = .none := by
  cases marked : base? (cs.take count) with
  | none => rw [based?, marked, Option.bind_none]
  | some base =>
    obtain ⟨c, ds, cut, marks⟩ := exists_of_base? marked
    obtain ⟨rest, rfl⟩ : ∃ rest, cs = '0' :: c :: rest := by
      have whole := List.take_append_drop count cs
      rw [cut] at whole
      exact ⟨_, whole.symm⟩
    obtain ⟨count, rfl⟩ : ∃ n, count = n + 2 := by
      rcases count with _ | _ | count
      · cases cut
      · cases cut
      · exact ⟨count, rfl⟩
    rw [based?_marked marks] at none
    split at none
    · rename_i noDigit
      rw [List.take_succ_cons, List.take_succ_cons, based?_marked marks,
        basedLength_take (noDigit ▸ Nat.zero_le _), if_pos noDigit]
    · cases none

theorem integerLength_of_none (none : based? cs = none) (some : digitsLength cs ≠ 0) :
    integerLength cs = withSuffix ['L', 'l', 'j', 'J'] cs (digitsLength cs) := by
  rw [integerLength_eq, none, Option.getD_none, if_neg some]

theorem integerLength_of_based {c : Char} {ds : List Char} {base : Nat}
    (marks : markBase? c = some base) (some : basedLength (digitIn base) ds ≠ 0) :
    integerLength ('0' :: c :: ds) =
      withSuffix ['L', 'l'] ('0' :: c :: ds) (2 + basedLength (digitIn base) ds) := by
  rw [integerLength_eq, based?_marked marks, if_neg some, Option.getD_some]

theorem integerLength_take (cs : List Char) :
    integerLength (cs.take (integerLength cs)) = integerLength cs := by
  cases found : based? cs with
  | none =>
    by_cases noDigit : digitsLength cs = 0
    · rw [integerLength_eq cs, found, Option.getD_none, if_pos noDigit, List.take_zero]
      rfl
    · have cut := @digitsLength_take cs _ (le_withSuffix ['L', 'l', 'j', 'J'] cs (digitsLength cs))
      rw [integerLength_of_none found noDigit,
        integerLength_of_none (based?_take_of_none found _) (by rwa [cut]), cut, withSuffix_take]
  | some count =>
    obtain ⟨c, ds, base, rfl, marks, some, -⟩ := exists_of_based? found
    rw [integerLength_of_based marks some]
    have covers := le_withSuffix ['L', 'l'] ('0' :: c :: ds) (2 + basedLength (digitIn base) ds)
    have taken := withSuffix_take ['L', 'l'] ('0' :: c :: ds) (2 + basedLength (digitIn base) ds)
    obtain ⟨more, length⟩ := Nat.exists_eq_add_of_le' (Nat.le_of_add_right_le covers)
    rw [length, List.take_succ_cons, List.take_succ_cons] at taken ⊢
    have cut := @basedLength_take (digitIn base) ds more (by omega)
    rw [integerLength_of_based marks (by rwa [cut]), cut, taken]

/-- What is cut from the text as a whole number is one by itself. -/
theorem isInteger_take (some : 0 < integerLength cs) : IsInteger (cs.take (integerLength cs)) := by
  have length : (cs.take (integerLength cs)).length = integerLength cs := by
    rw [List.length_take, Nat.min_eq_left (integerLength_le cs)]
  refine ⟨List.ne_nil_of_length_pos (by rwa [length]), ?_⟩
  rw [integerLength_take, length]

/-! ### The value -/

/-- The letters that may stand behind a number. -/
def suffixes : List Char := ['L', 'l', 'j', 'J']

/-- Digits of a class, maybe grouped, and maybe letters behind them. -/
structure Spells (p : Char → Bool) (cs : List Char) : Prop where
  digit : ∃ c ∈ cs, p c = true
  all : ∀ c ∈ cs, p c = true ∨ c = '_' ∨ c ∈ suffixes

theorem spells {front : Nat} (groups : Groups p (cs.take front)) (digit : ∃ c ∈ cs, p c = true)
    (behind : ∀ c ∈ cs.drop front, c ∈ suffixes) : Spells p cs := by
  refine ⟨digit, fun c member => ?_⟩
  rw [← List.take_append_drop front cs, List.mem_append] at member
  rcases member with inFront | inBack
  · exact (groups c inFront).imp_right .inl
  · exact .inr (.inr (behind c inBack))

theorem exists_digitIn (some : basedLength p cs ≠ 0) : ∃ c ∈ cs, p c = true := by
  by_contra none
  push Not at none
  refine some ?_
  cases cs with
  | nil => rfl
  | cons c cs =>
    rw [List.forall_mem_cons] at none
    exact basedLength_of_not none.1 fun _ d head => none.2 d (List.mem_of_mem_head? head)

/-- How a whole number is written: with the mark of a base, or without. -/
theorem IsInteger.spells (is : IsInteger cs) : (∃ c ds base, cs = '0' :: c :: ds ∧
    markBase? c = some base ∧ Spells (digitIn base) ds) ∨ Spells (digitIn 10) cs := by
  obtain ⟨some, whole⟩ := is
  cases found : based? cs with
  | some count =>
    obtain ⟨c, ds, base, rfl, marks, digits, -⟩ := exists_of_based? found
    rw [integerLength_of_based marks digits] at whole
    have behind := mem_of_withSuffix whole
    rw [Nat.add_comm, List.drop_succ_cons, List.drop_succ_cons] at behind
    refine .inl ⟨c, ds, base, rfl, marks, Token.spells (groups_basedLength ds)
      (exists_digitIn digits) fun c member => ?_⟩
    have listed := behind c member
    simp only [List.mem_cons, List.not_mem_nil, or_false] at listed
    rcases listed with rfl | rfl <;> decide
  | none =>
    by_cases digits : digitsLength cs = 0
    · rw [integerLength_eq, found, Option.getD_none, if_pos digits] at whole
      exact absurd (List.length_eq_zero_iff.mp whole.symm) some
    · rw [integerLength_of_none found digits] at whole
      obtain ⟨c, rest, rfl, digit⟩ := exists_digit digits
      rw [← isDigit_eq]
      exact .inr (Token.spells (groups_digitsLength _) ⟨c, List.mem_cons_self .., digit⟩
        (mem_of_withSuffix whole))

/-- The number that a token stands for: its digits by their places, in the base that is marked in
front, and in base ten without a mark. -/
def magnitude (cs : List Char) : Nat :=
  match base? cs with
  | some base => Numeral.positional base (cs.drop 2)
  | none => Numeral.positional 10 cs

theorem toNat_small (c : Char) : (Constant.small c).toNat =
    if 65 ≤ c.toNat ∧ c.toNat ≤ 90 then c.toNat + 32 else c.toNat := by
  have above : 'A'.val ≤ c.val ↔ 65 ≤ c.toNat := UInt32.le_iff_toNat_le
  have below : c.val ≤ 'Z'.val ↔ c.toNat ≤ 90 := UInt32.le_iff_toNat_le
  unfold Constant.small Char.toLower
  split
  · rename_i capital
    have low : c.toNat ≤ 90 := below.mp capital.2
    rw [if_pos ⟨above.mp capital.1, low⟩]
    change (c.val + 32).toNat = _
    rw [UInt32.toNat_add, Nat.mod_eq_of_lt]
    · rfl
    · change c.toNat + 32 < 4294967296
      omega
  · rename_i other
    rw [if_neg fun capital => other ⟨above.mpr capital.1, below.mpr capital.2⟩]

theorem digit?_small (base : Nat) (c : Char) :
    Numeral.digit? base (Constant.small c) = Numeral.digit? base c := by
  have value := toNat_small c
  simp only [Numeral.digit?, Char.isDigit, Text.isLower_iff, Text.isUpper_iff, ge_iff_le,
    UInt32.le_iff_toNat_le, Bool.and_eq_true, decide_eq_true_iff, Char.toNat_val] at value ⊢
  rw [value]
  simp only [Char.reduceToNat]
  split_ifs <;> first | omega | rfl

theorem digit?_underscore (base : Nat) : Numeral.digit? base '_' = none := by
  simp [Numeral.digit?]

theorem filterMap_ungrouped (base : Nat) (ds : List Char) :
    ((Constant.ungrouped ds).map Constant.small).filterMap (Numeral.digit? base) =
      ds.filterMap (Numeral.digit? base) := by
  rw [List.filterMap_map, Constant.ungrouped, List.filterMap_filter]
  congr 1
  funext c
  by_cases groups : c = '_'
  · rw [groups, digit?_underscore]
    rfl
  · simp [groups, digit?_small]

/-- The digits without what groups them are read by their places. -/
theorem read?_ungrouped {base : Nat} {ds : List Char} (digit : ∃ c ∈ ds, digitIn base c = true)
    (groups : Groups (digitIn base) ds) :
    Word.read? base ((Constant.ungrouped ds).map Constant.small) =
      Word.ofInt? (Numeral.positional base ds) := by
  have kept {c : Char} (member : c ∈ ds) (other : c ≠ '_') :
      Constant.small c ∈ (Constant.ungrouped ds).map Constant.small :=
    List.mem_map_of_mem (List.mem_filter.mpr ⟨member, by simpa using other⟩)
  rw [Word.read?_eq_ofInt?, Numeral.positional, filterMap_ungrouped, Numeral.positional]
  · obtain ⟨c, member, digit⟩ := digit
    refine List.ne_nil_of_mem (kept member ?_)
    rintro rfl
    rw [digitIn, digit?_underscore] at digit
    cases digit
  · intro d among
    obtain ⟨c, inside, rfl⟩ := List.mem_map.mp among
    obtain ⟨member, other⟩ := List.mem_filter.mp inside
    rw [digit?_small]
    exact (groups c member).resolve_right (by simpa using other)

theorem integer?_eq_ofInt? (is : IsInteger cs) (plain : ∀ c ∈ cs, c ∉ suffixes) :
    Constant.integer? cs = Word.ofInt? (magnitude cs) := by
  rcases is.spells with ⟨c, ds, base, rfl, marks, digits⟩ | digits
  · have groups : Groups (digitIn base) ds := fun d member =>
      (digits.all d member).imp_right (·.resolve_right (plain d (by simp [member])))
    have value := read?_ungrouped digits.digit groups
    have found : base? ('0' :: c :: ds) = some base := marks
    rw [magnitude, found]
    refine Eq.trans ?_ value
    unfold markBase? at marks
    split at marks <;> cases marks <;> rfl
  · have groups : Groups (digitIn 10) cs := fun d member =>
      (digits.all d member).imp_right (·.resolve_right (plain d member))
    have value := read?_ungrouped digits.digit groups
    have decimal : ∀ d ∈ (Constant.ungrouped cs).map Constant.small, digitIn 10 d = true := by
      intro d among
      obtain ⟨c, inside, rfl⟩ := List.mem_map.mp among
      obtain ⟨member, other⟩ := List.mem_filter.mp inside
      rw [digitIn, digit?_small]
      exact (groups c member).resolve_right (by simpa using other)
    have unmarked : base? cs = none := by
      cases marked : base? cs with
      | none => rfl
      | some base =>
        obtain ⟨c, ds, rfl, marks⟩ := exists_of_base? marked
        exact absurd (isDigit_eq ▸ groups c (by simp)) (not_digit_of_markBase? marks)
    rw [magnitude, unmarked, ← value]
    unfold Constant.integer?
    split
    · rename_i found
      exact absurd (decimal 'x' (by simp [found])) (by decide)
    · rename_i found
      exact absurd (decimal 'o' (by simp [found])) (by decide)
    · rename_i found
      exact absurd (decimal 'b' (by simp [found])) (by decide)
    · rfl

theorem Spells.unsigned {base : Nat} (spells : Spells (digitIn base) cs) : '-' ∉ cs := by
  intro member
  rcases spells.all '-' member with digit | groups | letter
  · rw [digitIn_iff] at digit
    simp at digit
  · cases groups
  · exact absurd letter (by decide)

theorem IsInteger.unsigned (is : IsInteger cs) : '-' ∉ cs := by
  rcases is.spells with ⟨c, ds, base, rfl, marks, digits⟩ | digits
  · have other : '-' ≠ c := by
      rintro rfl
      cases marks
    simpa [other] using digits.unsigned
  · exact digits.unsigned

theorem small_eq_minus {c : Char} (small : Constant.small c = '-') : c = '-' := by
  have value := toNat_small c
  rw [small] at value
  refine Char.toNat_inj.mp ?_
  split at value
  · have minus : '-'.toNat = 45 := rfl
    omega
  · exact value.symm

/-- A whole number that has a value is not negative and below the half of what 64 bits hold. -/
theorem integer?_mem_range {n : Int} (is : IsInteger cs) (value : Constant.integer? cs = some n) :
    0 ≤ n ∧ n ≤ 0x7fffffffffffffff := by
  have unsigned : '-' ∉ (Constant.ungrouped cs).map Constant.small := by
    intro among
    obtain ⟨c, inside, small⟩ := List.mem_map.mp among
    exact is.unsigned (small_eq_minus small ▸ (List.mem_filter.mp inside).1)
  have bounded {base : Nat} {ds : List Char} (plain : '-' ∉ ds)
      (read : Word.read? base ds = some n) : 0 ≤ n ∧ n ≤ 0x7fffffffffffffff := by
    have fits := Word.fits_of_read? read
    rw [Word.fits, Bool.and_eq_true, decide_eq_true_iff, decide_eq_true_iff] at fits
    refine ⟨?_, by omega⟩
    unfold Word.read? at read
    split at read
    · exact absurd (List.mem_cons_self ..) plain
    all_goals
      obtain ⟨k, -, inRange⟩ := Option.bind_eq_some_iff.mp read
      obtain ⟨-, rfl⟩ := Word.ofInt?_eq_some_iff.mp inRange
      exact Int.natCast_nonneg k
  unfold Constant.integer? at value
  split at value
  · rename_i found
    exact bounded (by simp_all) value
  · rename_i found
    exact bounded (by simp_all) value
  · rename_i found
    exact bounded (by simp_all) value
  · exact bounded unsigned value

end DeployManifest.Token
