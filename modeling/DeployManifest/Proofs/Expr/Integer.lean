import DeployManifest.Proofs.Expr.Lower
import DeployManifest.Proofs.Tree.Statement

/-! # Whole numbers

What a whole number in the source stands for, also behind signs and inside parentheses. A number in
range stands for itself with the product of its signs, unless a joint of lines stands directly
inside one of the parentheses; nothing ever wraps around, since no number is below the lowest that
can be negated (`lower_integers`).
-/

namespace DeployManifest.SourceModule

variable {m : SourceModule} {n inner : Node} {sign : Int} {cs : List Char} {joined : Bool}

/-- The largest signed number of 64 bits. -/
def largest : Nat := 0x7fffffffffffffff

/-- A whole number without a letter behind it, in parentheses and behind signs: the product of the
signs, the text of the number, and whether a joint of lines stands directly inside some
parentheses. -/
inductive Counts (m : SourceModule) : Node → Int → List Char → Bool → Prop where
  | token {n : Node} (integer : n.kind = .integer)
      (plain : ∀ c ∈ m.slice n.start n.stop, c ∉ Token.suffixes) :
      Counts m n 1 (m.slice n.start n.stop) false
  | parentheses {n inner : Node} {sign : Int} {cs : List Char} {joined : Bool}
      (parens : n.kind = .parenthesizedExpression)
      (only : n.children.filter (·.kind ≠ .joint) = [inner])
      (inside : Counts m inner sign cs joined) :
      Counts m n sign cs (joined || n.children.any (·.kind = .joint))
  | plus {n inner : Node} {sign : Int} {cs : List Char} {joined : Bool}
      (signed : n.kind = .unaryOperator '+') (operand : n.child? .argument = some inner)
      (inside : Counts m inner sign cs joined) : Counts m n sign cs joined
  | minus {n inner : Node} {sign : Int} {cs : List Char} {joined : Bool}
      (signed : n.kind = .unaryOperator '-') (operand : n.child? .argument = some inner)
      (inside : Counts m inner sign cs joined) : Counts m n (-sign) cs joined

/-! ### One number -/

theorem form_lower_integer (integer : n.kind = .integer) :
    (m.lower n).form = constant .int (Constant.integer? (m.slice n.start n.stop)) := by
  obtain ⟨kind, role, start, stop, children⟩ := n
  obtain rfl : kind = .integer := integer
  rfl

theorem form_lower_unary {c : Char} (unary : n.kind = .unaryOperator c) : (m.lower n).form =
    match n.child? .argument with
    | some inner => signed c (m.lower inner).form
    | none => .unsupported := by
  obtain ⟨kind, role, start, stop, children⟩ := n
  obtain rfl : kind = .unaryOperator c := unary
  rw [lower_unaryOperator, lowerPart_eq_map_find?]
  change _ = match children.find? (·.role == .argument) with
    | some inner => _
    | none => _
  cases children.find? (·.role == .argument) <;> rfl

theorem lower_parentheses_one (parens : n.kind = .parenthesizedExpression)
    (one : n.children = [inner]) : m.lower n = m.lower inner := by
  obtain ⟨kind, role, start, stop, children⟩ := n
  obtain rfl : kind = .parenthesizedExpression := parens
  obtain rfl : children = [inner] := one
  rfl

theorem form_lower_parentheses_many (parens : n.kind = .parenthesizedExpression)
    (many : n.children.length ≠ 1) : (m.lower n).form = .unsupported := by
  obtain ⟨kind, role, start, stop, children⟩ := n
  obtain rfl : kind = .parenthesizedExpression := parens
  rcases children with _ | ⟨first, _ | _⟩
  · rfl
  · exact absurd rfl many
  · rfl

theorem form_lower_counts (fits : n.Fits m) (counts : m.Counts n sign cs joined) :
    (m.lower n).form = if joined = false ∧ Token.magnitude cs ≤ largest then
      .int (sign * Token.magnitude cs) else .unsupported := by
  induction counts with
  | @token n integer plain =>
    have value := Token.integer?_eq_ofInt? (fits.here.integer integer) plain
    rw [form_lower_integer integer, value, Word.ofInt?, one_mul]
    by_cases inRange : Token.magnitude (m.slice n.start n.stop) ≤ largest
    · rw [if_pos (Word.fits_natCast_iff.mpr inRange), if_pos ⟨rfl, inRange⟩]
      rfl
    · rw [if_neg fun fits => inRange (Word.fits_natCast_iff.mp fits),
        if_neg fun both => inRange both.2]
      rfl
  | @parentheses n inner sign cs joined parens only inside ih =>
    by_cases joint : n.children.any (·.kind = .joint) = true
    · -- Besides the expression there is a joint, so there are two parts at least.
      have many : n.children.length ≠ 1 := by
        intro one
        obtain ⟨first, alone⟩ := List.length_eq_one_iff.mp one
        rw [alone] at only joint
        simp_all
      rw [joint, Bool.or_true, if_neg (by simp), form_lower_parentheses_many parens many]
    · have none : ∀ part ∈ n.children, part.kind ≠ .joint := by simpa using joint
      have alone : n.children = [inner] := by
        rw [← only, List.filter_eq_self.mpr fun part member => by simpa using none part member]
      rw [Bool.eq_false_iff.mpr joint, Bool.or_false, lower_parentheses_one parens alone]
      exact ih (fits.parts _ (alone ▸ List.mem_singleton_self _))
  | @plus n inner sign cs joined unary operand inside ih =>
    have member := List.mem_of_find?_eq_some operand
    rw [form_lower_unary unary, operand]
    dsimp only
    rw [ih (fits.parts _ member)]
    split <;> rfl
  | @minus n inner sign cs joined unary operand inside ih =>
    have member := List.mem_of_find?_eq_some operand
    rw [form_lower_unary unary, operand]
    dsimp only
    rw [ih (fits.parts _ member)]
    split
    · rw [signed, neg_mul]
    · rfl

/-! ### All numbers -/

theorem constant_ne {α : Type} {form : α → ExprForm} {value : Option α} {other : ExprForm}
    (supported : other ≠ .unsupported) (ne : ∀ a, form a ≠ other) :
    constant form value ≠ other := by
  cases value with
  | none => exact Ne.symm supported
  | some a => exact ne a

/-- A number is one token, or parentheses or a sign around a number. -/
theorem cases_of_form_int {v : Int} (number : (m.lower n).form = .int v) :
    n.kind = .integer ∨ n.kind = .parenthesizedExpression ∨ ∃ c, n.kind = .unaryOperator c := by
  obtain ⟨kind, role, start, stop, children⟩ := n
  cases kind
  case integer => exact .inl rfl
  case parenthesizedExpression => exact .inr (.inl rfl)
  case unaryOperator sign => exact .inr (.inr ⟨sign, rfl⟩)
  case float | string | concatenatedString | dictionary =>
    exact absurd number (constant_ne nofun nofun)
  case member =>
    change SourceModule.member _ _ = _ at number
    unfold SourceModule.member at number
    split at number <;> cases number
  case call =>
    rw [lower_call] at number
    split at number <;> cases number
  all_goals cases number

/-- A number is never below the lowest one that can be negated. -/
theorem range_of_form_int (fits : n.Fits m) {v : Int} (number : (m.lower n).form = .int v) :
    -largest ≤ v ∧ v ≤ largest := by
  induction fits generalizing v with
  | @mk n here parts ih =>
    rcases cases_of_form_int number with integer | parens | ⟨c, unary⟩
    · rw [form_lower_integer integer] at number
      cases value : Constant.integer? (m.slice n.start n.stop) with
      | none =>
        rw [value] at number
        cases number
      | some w =>
        rw [value] at number
        obtain rfl := ExprForm.int.inj number
        have range := Token.integer?_mem_range (here.integer integer) value
        have top : (largest : Int) = 0x7fffffffffffffff := rfl
        omega
    · by_cases one : n.children.length = 1
      · obtain ⟨inner, alone⟩ := List.length_eq_one_iff.mp one
        rw [lower_parentheses_one parens alone] at number
        exact ih inner (alone ▸ List.mem_singleton_self _) number
      · rw [form_lower_parentheses_many parens one] at number
        cases number
    · rw [form_lower_unary unary] at number
      cases operand : n.child? .argument with
      | none =>
        rw [operand] at number
        cases number
      | some inner =>
        rw [operand] at number
        have below {w : Int} := ih inner (List.mem_of_find?_eq_some operand) (v := w)
        unfold signed at number
        dsimp only at number
        split at number
        · rename_i w given
          obtain rfl := ExprForm.int.inj number
          have range := below given
          omega
        · cases number
        · rename_i w given
          obtain rfl := ExprForm.int.inj number
          exact below given
        · cases number
        · cases number

/-- The numbers of a module. A whole number without a letter behind it, in any parentheses and
behind any signs, stands for itself with the product of the signs exactly if it has 63 bits and no
joint of lines stands directly inside the parentheses, and is unsupported otherwise. No number
anywhere in an expression is below the lowest that can be negated, so each sign that is applied to
one stays within 64 bits. -/
theorem lower_integers {tree : Node} (read : Node.ofText? m.text = some tree) :
    (∀ n ∈ tree.subtrees, ∀ sign cs joined, m.Counts n sign cs joined →
      (m.lower n).form = if joined = false ∧ Token.magnitude cs ≤ largest then
        .int (sign * Token.magnitude cs) else .unsupported) ∧
    (∀ n ∈ tree.subtrees, ∀ e, (m.lower n).Holds e → ∀ v, e.form = .int v →
      -largest ≤ v ∧ v ≤ largest) ∧
    ∀ n ∈ tree.subtrees, ∀ c inner, n.kind = .unaryOperator c → n.child? .argument = some inner →
      ∀ v, (m.lower inner).form = .int v → Word.fits (-v) = true := by
  have fits {n : Node} (inside : n ∈ tree.subtrees) : n.Fits m :=
    (Node.fits_ofText? read).of_mem_subtrees inside
  refine ⟨fun n inside sign cs joined counts => form_lower_counts (fits inside) counts, ?_, ?_⟩
  · intro n inside e holds v number
    obtain ⟨part, below, rfl⟩ := exists_of_holds holds rfl
    exact range_of_form_int (fits (Node.mem_subtrees_trans inside below)) number
  · intro n inside c inner _ operand v number
    have below := (fits inside).parts inner (List.mem_of_find?_eq_some operand)
    have range := range_of_form_int below number
    have top : (largest : Int) = 0x7fffffffffffffff := rfl
    rw [Word.fits, Bool.and_eq_true, decide_eq_true_iff, decide_eq_true_iff]
    omega

/-- A module with two numbers in parentheses, the second behind a joint of lines. -/
def numbered : SourceModule := ⟨"main.py", "x = -(0xF_f)\ny = (\\\n512)\n".toList⟩

/-- The kinds and the texts of the parts of a node. -/
def partTexts (m : SourceModule) (n : Node) : List (NodeKind × List Char) :=
  n.children.map fun part => (part.kind, m.slice part.start part.stop)

/-- The only part with a text is a number. -/
theorem counts_of_partTexts {text : List Char} (others : List (NodeKind × List Char))
    (parens : n.kind = .parenthesizedExpression)
    (parts : m.partTexts n = others ++ [(.integer, text)])
    (joints : ∀ entry ∈ others, entry.1 = .joint)
    (plain : ∀ c ∈ text, c ∉ Token.suffixes) : m.Counts n 1 text (!others.isEmpty) := by
  obtain ⟨front, back, split, inFront, inBack⟩ := List.map_eq_append_iff.mp parts
  obtain ⟨number, rfl, same⟩ := List.map_eq_singleton_iff.mp inBack
  obtain ⟨kind, slice⟩ := Prod.mk.inj same
  have between : ∀ part ∈ front, part.kind = .joint := fun part member =>
    joints _ (inFront ▸ List.mem_map_of_mem member)
  have only : n.children.filter (·.kind ≠ .joint) = [number] := by
    rw [split, List.filter_append, List.filter_eq_nil_iff.mpr fun part member => by
      simp [between part member], List.nil_append]
    simp [kind]
  have joined : n.children.any (·.kind = .joint) = !others.isEmpty := by
    rw [split, List.any_append, ← inFront]
    cases front with
    | nil => simp [kind]
    | cons part front => simp [between part (List.mem_cons_self ..)]
  rw [← slice] at plain ⊢
  have counts := Counts.parentheses parens only (.token kind plain)
  rwa [Bool.false_or, joined] at counts

set_option maxRecDepth 100000 in
/-- The first number is counted, and the second is not. -/
theorem lower_integers_numbered :
    ∃ tree first second, Node.ofText? numbered.text = some tree ∧ first ∈ tree.subtrees ∧
      second ∈ tree.subtrees ∧ numbered.Counts first (-1) "0xF_f".toList false ∧
      numbered.Counts second 1 "512".toList true ∧ (numbered.lower first).form = .int (-255) ∧
      (numbered.lower second).form = .unsupported := by
  have computed : (Node.ofText? numbered.text).bind (fun tree =>
      (tree.subtrees.find? (·.kind = .unaryOperator '-')).bind fun first =>
        (first.child? .argument).map fun inner => (inner.kind, numbered.partTexts inner)) =
      some (.parenthesizedExpression, [(.integer, "0xF_f".toList)]) := by
    decide +kernel
  have computed' : (Node.ofText? numbered.text).bind (fun tree =>
      (tree.subtrees.find? fun n =>
        n.kind = .parenthesizedExpression && n.children.length == 2).map numbered.partTexts) =
      some [(.joint, ['\\', '\n']), (.integer, "512".toList)] := by
    decide +kernel
  obtain ⟨tree, read, computed⟩ := Option.bind_eq_some_iff.mp computed
  obtain ⟨first, found, computed⟩ := Option.bind_eq_some_iff.mp computed
  obtain ⟨inner, operand, computed⟩ := Option.map_eq_some_iff.mp computed
  obtain ⟨kind, parts⟩ := Prod.mk.inj computed
  rw [read, Option.bind_some] at computed'
  obtain ⟨second, found', parts'⟩ := Option.map_eq_some_iff.mp computed'
  have inside := List.mem_of_find?_eq_some found
  have inside' := List.mem_of_find?_eq_some found'
  have minus : first.kind = .unaryOperator '-' := by simpa using List.find?_some found
  have kind' : second.kind = .parenthesizedExpression := by
    have chosen := List.find?_some found'
    simp_all
  have counts : numbered.Counts first (-1) "0xF_f".toList false :=
    .minus minus operand (counts_of_partTexts [] kind parts nofun (by simp [Token.suffixes]))
  have counts' : numbered.Counts second 1 "512".toList true :=
    counts_of_partTexts [(.joint, ['\\', '\n'])] kind' parts' (by decide) (by simp [Token.suffixes])
  obtain ⟨lowered, -, -⟩ := lower_integers read
  have value : Token.magnitude "0xF_f".toList = 255 := by decide +kernel
  refine ⟨tree, first, second, read, inside, inside', counts, counts', ?_, ?_⟩
  · rw [lowered first inside _ _ _ counts, value, if_pos ⟨rfl, by decide⟩]
    rfl
  · rw [lowered second inside' _ _ _ counts', if_neg fun both => nomatch both.1]

end DeployManifest.SourceModule
