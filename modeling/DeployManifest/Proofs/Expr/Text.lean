import DeployManifest.Expr.Lower
import DeployManifest.Proofs.Eval.Grammar
import DeployManifest.Proofs.Expr.Quoted
import DeployManifest.Proofs.Tree.Statement

/-! # Texts

What a quoted constant is read as, by the letters in front of it, and what several constants in a
row stand for. A text is read as it is meant unless one of its items is not kept; in a row, a joint
of lines between two texts leaves the whole without a value.
-/

namespace DeployManifest.SourceModule

open Constant

variable {m : SourceModule}

/-! ### Several texts in a row -/

theorem form_lower_string {part : Node} (string : part.kind = .string) :
    (m.lower part).form =
      constant .text ((Constant.text? (m.slice part.start part.stop)).map String.ofList) := by
  obtain ⟨kind, role, start, stop, children⟩ := part
  obtain rfl : kind = .string := string
  rfl

theorem form_lower_joint {part : Node} (joint : part.kind = .joint) :
    (m.lower part).form = .unsupported := by
  obtain ⟨kind, role, start, stop, children⟩ := part
  obtain rfl : kind = .joint := joint
  rfl

/-- A joint of lines holds no quote. -/
theorem text?_joint {cs : List Char} (joint : cs ∈ jointTexts) : Constant.text? cs = none := by
  simp only [jointTexts, List.mem_cons, List.not_mem_nil, or_false] at joint
  rcases joint with rfl | rfl | rfl <;> rfl

theorem joined_cons (part : Node) (parts : List Node) : m.joined (part :: parts) =
    (Constant.text? (m.slice part.start part.stop)).bind fun piece =>
      (m.joined parts).map (String.ofList piece ++ ·) := by
  rw [joined, joined, List.mapM_cons]
  cases Constant.text? (m.slice part.start part.stop) with
  | none => rfl
  | some piece =>
    cases parts.mapM fun part => Constant.text? (m.slice part.start part.stop) with
    | none => rfl
    | some pieces => exact congrArg some String.ofList_append

/-- A text stands for what it is read as, and a joint of lines for no text. -/
theorem form_eq_text_iff {part : Node} {s : String} (fits : part.Fits m)
    (kind : part.kind = .string ∨ part.kind = .joint) : (m.lower part).form = .text s ↔
      ∃ piece, Constant.text? (m.slice part.start part.stop) = some piece ∧
        s = String.ofList piece := by
  rcases kind with string | joint
  · rw [form_lower_string string]
    cases Constant.text? (m.slice part.start part.stop) with
    | none => exact iff_of_false nofun nofun
    | some piece =>
      constructor
      · rintro ⟨⟩
        exact ⟨piece, rfl, rfl⟩
      · rintro ⟨_, ⟨rfl⟩, rfl⟩
        rfl
  · rw [form_lower_joint joint, text?_joint (fits.here.joint joint)]
    exact iff_of_false nofun nofun

/-- Texts in a row stand for one text if each of them stands for one, and there is no joint of lines
between them. -/
theorem joined_eq_some_iff {parts : List Node} {s : String} (fits : ∀ part ∈ parts, part.Fits m)
    (kinds : ∀ part ∈ parts, part.kind = .string ∨ part.kind = .joint) :
    m.joined parts = some s ↔ ∃ texts : List String,
      parts.map (fun part => (m.lower part).form) = texts.map .text ∧ s = String.join texts := by
  induction parts generalizing s with
  | nil =>
    constructor
    · rintro ⟨⟩
      exact ⟨[], rfl, rfl⟩
    · rintro ⟨texts, none, rfl⟩
      rw [List.map_eq_nil_iff.mp none.symm]
      rfl
  | cons part parts ih =>
    rw [List.forall_mem_cons] at fits kinds
    have here {text : String} := form_eq_text_iff (s := text) fits.1 kinds.1
    have others {rest : String} := ih (s := rest) fits.2 kinds.2
    rw [joined_cons]
    constructor
    · intro read
      obtain ⟨piece, text, read⟩ := Option.bind_eq_some_iff.mp read
      obtain ⟨rest, more, rfl⟩ := Option.map_eq_some_iff.mp read
      obtain ⟨texts, forms, rfl⟩ := others.mp more
      have form := here.mpr ⟨piece, text, rfl⟩
      exact ⟨String.ofList piece :: texts, congrArg₂ List.cons form forms, String.join_cons.symm⟩
    · rintro ⟨texts, forms, rfl⟩
      cases texts with
      | nil => cases forms
      | cons first texts =>
        obtain ⟨form, behind⟩ := List.cons.inj forms
        obtain ⟨piece, text, rfl⟩ := here.mp form
        rw [text, Option.bind_some, others.mpr ⟨texts, behind, rfl⟩, Option.map_some,
          String.join_cons]

theorem form_lower_row {n : Node} (row : n.kind = .concatenatedString) :
    (m.lower n).form = constant .text (m.joined n.children) := by
  obtain ⟨kind, role, start, stop, children⟩ := n
  obtain rfl : kind = .concatenatedString := row
  rfl

/-! ### One text -/

/-- A text without letters in front that change how it is read is decoded item by item. -/
theorem text?_of_reads {q : Quoting} {body letters : List Char} {items : List Item}
    (reads : q.Reads body items) (plain : letters ∈ [[], ['u'], ['U']]) :
    Constant.text? (letters ++ (q.marks ++ body)) = some (items.flatMap (·.decoded)) := by
  obtain ⟨rfl, well⟩ := reads.written
  have known : (∀ c ∈ letters, isQuote c = false) ∧ 'f' ∉ letters.map small ∧
      'b' ∉ letters.map small ∧ (letters.map small).contains 'r' = false := by
    simp only [List.mem_cons, List.not_mem_nil, or_false] at plain
    rcases plain with rfl | rfl | rfl <;>
      exact ⟨by simp [isQuote], by decide +kernel, by decide +kernel, by decide +kernel⟩
  obtain ⟨noQuote, noFormat, noBytes, cooked⟩ := known
  rw [← List.append_assoc q.marks, Quoting.text?_enclosed reads.opens noQuote ⟨noFormat, noBytes⟩,
    cooked, if_neg Bool.false_ne_true, unescape_flatMap_written well]

/-- A raw text is what stands between the quotes. -/
theorem text?_raw {q : Quoting} {inner letters : List Char} (opens : q.Opens inner)
    (raw : letters ∈ [['r'], ['R']]) :
    Constant.text? (letters ++ (q.marks ++ inner ++ q.marks)) = some inner := by
  have known : (∀ c ∈ letters, isQuote c = false) ∧ 'f' ∉ letters.map small ∧
      'b' ∉ letters.map small ∧ (letters.map small).contains 'r' = true := by
    simp only [List.mem_cons, List.not_mem_nil, or_false] at raw
    rcases raw with rfl | rfl <;>
      exact ⟨by simp [isQuote], by decide +kernel, by decide +kernel, by decide +kernel⟩
  obtain ⟨noQuote, noFormat, noBytes, raw⟩ := known
  rw [Quoting.text?_enclosed opens noQuote ⟨noFormat, noBytes⟩, raw, if_pos rfl]

/-- Bytes and texts with substitutions are no constants. -/
theorem text?_eq_none {letters : List Char} (noQuote : ∀ c ∈ letters, isQuote c = false)
    (other : ∃ c ∈ letters, c ∈ ['f', 'F', 'b', 'B']) (body : List Char) :
    Constant.text? (letters ++ body) = none := by
  have passed : ∀ c ∈ letters, (!isQuote c) = true := by simpa using noQuote
  have listed : 'f' ∈ ((letters ++ body).takeWhile (!isQuote ·)).map small ∨
      'b' ∈ ((letters ++ body).takeWhile (!isQuote ·)).map small := by
    obtain ⟨c, member, letter⟩ := other
    rw [List.takeWhile_append_of_pos passed, List.map_append]
    have among : small c ∈ letters.map small := List.mem_map_of_mem member
    simp only [List.mem_cons, List.not_mem_nil, or_false] at letter
    rcases letter with rfl | rfl | rfl | rfl
    · exact .inl (List.mem_append_left _ among)
    · exact .inl (List.mem_append_left _ among)
    · exact .inr (List.mem_append_left _ among)
    · exact .inr (List.mem_append_left _ among)
  unfold Constant.text?
  dsimp only
  rw [if_pos]
  rcases listed with format | bytes
  · simp [format]
  · simp [bytes]

/-- What quoted constants are read as. A text is read as what it stands for exactly if each of its
items is kept; otherwise it is read as what its items are decoded to. A raw text is read as it
stands, and bytes and texts with substitutions have no value. A row of texts stands for one text if
each of them has a value and no joint of lines stands between them, and otherwise it is
unsupported. -/
theorem reads_texts (m : SourceModule) :
    (∀ (q : Quoting) (body : List Char) (items : List Item), q.Reads body items →
      ∀ letters ∈ [[], ['u'], ['U']],
        Constant.text? (letters ++ (q.marks ++ body)) = some (items.flatMap (·.decoded)) ∧
        (Constant.text? (letters ++ (q.marks ++ body)) = some (items.flatMap (·.value)) ↔
          ∀ item ∈ items, item.IsKept)) ∧
    (∀ (q : Quoting) (inner : List Char), q.Opens inner → ∀ letters ∈ [['r'], ['R']],
      Constant.text? (letters ++ (q.marks ++ inner ++ q.marks)) = some inner) ∧
    (∀ letters body : List Char, (∀ c ∈ letters, isQuote c = false) →
      (∃ c ∈ letters, c ∈ ['f', 'F', 'b', 'B']) → Constant.text? (letters ++ body) = none) ∧
    ∀ tree : Node, Node.ofText? m.text = some tree → ∀ n ∈ tree.subtrees,
      n.kind = .concatenatedString →
        (∀ part ∈ n.children, part.kind = .string ∨ part.kind = .joint) ∧
        ((∀ part ∈ n.children, part.kind = .string) →
          (∀ texts : List String,
            n.children.map (fun part => (m.lower part).form) = texts.map .text →
              (m.lower n).form = .text (String.join texts)) ∧
          ((∃ part ∈ n.children, (m.lower part).form = .unsupported) →
            (m.lower n).form = .unsupported)) ∧
        ((∃ part ∈ n.children, part.kind = .joint) → (m.lower n).form = .unsupported) := by
  refine ⟨fun q body items reads letters plain => ?_, fun q inner opens letters raw => ?_,
    fun letters body noQuote other => ?_, fun tree read n inside row => ?_⟩
  · have text := text?_of_reads reads plain
    refine ⟨text, ?_⟩
    rw [text, Option.some.injEq]
    exact flatMap_decoded_eq_iff reads.written.2
  · exact text?_raw opens raw
  · exact text?_eq_none noQuote other body
  · have fits := (Node.fits_ofText? read).of_mem_subtrees inside
    have kinds := fits.here.strings row
    have joins {s : String} := joined_eq_some_iff (s := s) fits.parts kinds
    -- A part without a value leaves the row without one.
    have lacks (part : Node) (member : part ∈ n.children)
        (none : (m.lower part).form = .unsupported) : (m.lower n).form = .unsupported := by
      rw [form_lower_row row]
      cases read : m.joined n.children with
      | none => rfl
      | some s =>
        obtain ⟨texts, forms, -⟩ := joins.mp read
        have form := List.mem_map_of_mem (f := fun part => (m.lower part).form) member
        rw [forms] at form
        obtain ⟨text, -, same⟩ := List.mem_map.mp form
        exact absurd (same.trans none) nofun
    refine ⟨kinds, fun strings => ⟨fun texts forms => ?_, ?_⟩, ?_⟩
    · rw [form_lower_row row, joins.mpr ⟨texts, forms, rfl⟩]
      rfl
    · rintro ⟨part, member, none⟩
      exact lacks part member none
    · rintro ⟨part, member, joint⟩
      exact lacks part member (form_lower_joint joint)

/-- A module with two texts in a row. -/
def rowed : SourceModule := ⟨"main.py", "x = \"a\" \"b\"\n".toList⟩

def doubleQuote : Quoting := ⟨'"', rfl, false⟩

/-- The escape of a letter in base sixteen is kept, and that in base eight is not. -/
theorem reads_texts_letter :
    (∃ tree n, Node.ofText? rowed.text = some tree ∧ n ∈ tree.subtrees ∧
      n.kind = .concatenatedString ∧ (rowed.lower n).form = .text "ab") ∧
    Constant.text? "u\"a\\x41\"".toList = some "aA".toList ∧
    Constant.text? "\"\\101\"".toList ≠ some "A".toList ∧
    Constant.text? "r\"\\101\"".toList = some "\\101".toList ∧
    Constant.text? "rb\"a\"".toList = none := by
  obtain ⟨cooked, raw, other, rows⟩ := reads_texts rowed
  have computed : (Node.ofText? rowed.text).map (fun tree =>
      (tree.subtrees.find? (·.kind = .concatenatedString)).map fun n =>
        (n.children.map (·.kind), n.children.map fun part => (rowed.lower part).text?)) =
      some (some ([.string, .string], [some "a", some "b"])) := by
    decide +kernel
  have empty : doubleQuote.Reads ['"'] [] := .closed
  have sixteen : doubleQuote.Reads ['\\', 'x', '4', '1', '"'] [.coded 'x' ['4', '1']] :=
    @Quoting.Reads.item _ (.coded 'x' ['4', '1']) _ _ (by decide +kernel) (.inr (by nofun))
      (by decide) (by decide) empty
  have letters : doubleQuote.Reads ['a', '\\', 'x', '4', '1', '"']
      [.plain 'a', .coded 'x' ['4', '1']] :=
    @Quoting.Reads.item _ (.plain 'a') _ _ (by decide) (.inr (by nofun)) (by decide)
      (by decide) sixteen
  have eight : doubleQuote.Reads ['\\', '1', '0', '1', '"'] [.octal ['1', '0', '1']] :=
    @Quoting.Reads.item _ (.octal ['1', '0', '1']) _ _ (by decide +kernel) (.inr (by nofun))
      (by decide) (by decide) empty
  refine ⟨?_, (cooked _ _ _ letters ['u'] (by decide)).2.mpr (by decide),
    fun same => absurd ((cooked _ _ _ eight [] (by decide)).2.mp same) (by decide),
    raw doubleQuote "\\101".toList (.inr (by decide)) ['r'] (by decide),
    other ['r', 'b'] _ (by simp [isQuote]) ⟨'b', by simp, by simp⟩⟩
  obtain ⟨tree, read, computed⟩ := Option.map_eq_some_iff.mp computed
  obtain ⟨n, found, computed⟩ := Option.map_eq_some_iff.mp computed
  obtain ⟨kinds, texts⟩ := Prod.mk.inj computed
  have inside := List.mem_of_find?_eq_some found
  have row : n.kind = .concatenatedString := by simpa using List.find?_some found
  have strings : ∀ part ∈ n.children, part.kind = .string := by
    intro part member
    have listed := List.mem_map_of_mem (f := (·.kind)) member
    rw [kinds] at listed
    simpa using listed
  refine ⟨tree, n, read, inside, row, ?_⟩
  refine ((rows tree read n inside row).2.1 strings).1 ["a", "b"] ?_
  obtain ⟨first, second, pair⟩ := List.length_eq_two.mp
    ((List.length_map _).symm.trans (congrArg List.length kinds))
  simp only [pair, List.map_cons, List.map_nil, List.cons.injEq, and_true] at texts ⊢
  exact ⟨Expr.text?_eq_some_iff.mp texts.1, Expr.text?_eq_some_iff.mp texts.2⟩

end DeployManifest.SourceModule
