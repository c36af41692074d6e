import DeployManifest.Proofs.Json
import DeployManifest.Proofs.Param.Run
import DeployManifest.Proofs.Text

/-! # Reading substitution texts

A substitution text can be read: a name goes on to the next space, and a quoted text to the first
quote that is not escaped, so nothing inside of quotes is taken for a separator. `Setting.read?`
does so, and gives back the reference or the choice that a text was written for
(`read?_expression?`). Main statement: `expression?_eq_iff`, no two of them have the same text.
-/

namespace DeployManifest

namespace Numeral

/-- The integer that decimal digits stand for, with a minus in front if it is negative. -/
def integer? : List Char → Option Int
  | '-' :: ds => (value? 10 ds).map fun n => -(n : Int)
  | ds => (value? 10 ds).map fun n => (n : Int)

theorem integer?_of_value? {ds : List Char} {n : Nat} (read : value? 10 ds = some n) :
    integer? ds = some (n : Int) := by
  unfold integer?
  split
  · cases read
  · rw [read]
    rfl

theorem integer?_signed (n : Int) : integer? (signed n) = some n := by
  cases n with
  | ofNat n => exact integer?_of_value? (value?_decimal n)
  | negSucc n =>
    change (value? 10 (decimal (n + 1))).map (fun n => -(n : Int)) = _
    rw [value?_decimal]
    rfl

/-- Four hexadecimal digits are enough for a control character. -/
theorem value?_hexadecimal :
    ∀ n < 32, (hexadecimal 4 n).length = 4 ∧ value? 16 (hexadecimal 4 n) = some n := by
  decide +kernel

end Numeral

namespace Json

/-! ### Quoted texts -/

/-- The character that a mark behind a backslash stands for. -/
def unmark? : Char → Option Char
  | '"' => some '"'
  | '\\' => some '\\'
  | 'n' => some '\n'
  | 'r' => some '\r'
  | 't' => some '\t'
  | 'b' => some '\x08'
  | 'f' => some '\x0c'
  | _ => none

/-- Reads a text inside of quotes, up to the closing one: the text, and what follows. -/
def unquote? : List Char → Option (List Char × List Char)
  | [] => none
  | '\\' :: 'u' :: a :: b :: c :: d :: cs =>
    (Numeral.value? 16 [a, b, c, d]).bind fun n =>
      (unquote? cs).map fun (text, rest) => (Char.ofNat n :: text, rest)
  | '\\' :: mark :: cs =>
    (unmark? mark).bind fun c => (unquote? cs).map fun (text, rest) => (c :: text, rest)
  | c :: cs =>
    if c = '"' then some ([], cs) else (unquote? cs).map fun (text, rest) => (c :: text, rest)

theorem unquote?_hexadecimal {c : Char} (control : c.toNat < 32) (cs : List Char) :
    unquote? ('\\' :: 'u' :: (Numeral.hexadecimal 4 c.toNat ++ cs)) =
      (unquote? cs).map fun (text, rest) => (c :: text, rest) := by
  obtain ⟨four, read⟩ := Numeral.value?_hexadecimal c.toNat control
  match digits : Numeral.hexadecimal 4 c.toNat, four with
  | [_, _, _, _], _ =>
    rw [digits] at read
    simp only [List.cons_append, List.nil_append, unquote?, read, Option.bind_some,
      Char.ofNat_toNat]

/-- A character is read back from its written form. -/
theorem unquote?_escape (c : Char) (cs : List Char) :
    unquote? (escape c ++ cs) = (unquote? cs).map fun (text, rest) => (c :: text, rest) := by
  unfold escape
  split_ifs with isQuote isEscape
  -- a character with a mark of its own
  case pos | pos | pos | pos | pos | pos | pos => subst_vars; rfl
  case pos control => exact unquote?_hexadecimal control cs
  case neg =>
    rw [List.singleton_append, unquote?, if_neg isQuote]
    · exact fun _ _ _ _ _ same _ => isEscape same
    · exact fun _ _ same _ => isEscape same

/-- A quoted text is read up to the quote behind it, whatever it holds. -/
theorem unquote?_escapes (cs rest : List Char) :
    unquote? (cs.flatMap escape ++ '"' :: rest) = some (cs, rest) := by
  induction cs with
  | nil => rfl
  | cons c cs ih => rw [List.flatMap_cons, List.append_assoc, unquote?_escape, ih]; rfl

end Json

namespace Setting

/-! ### Substitutions -/

/-- What may stand on a side of a choice: a reference, a truth value, an integer or a text. -/
inductive IsBranch : Setting → Prop where
  | param {name : String} (named : Param.IsWellNamed name) : IsBranch (.param name)
  | bool (b : Bool) : IsBranch (.bool b)
  | int (n : Int) : IsBranch (.literal (.int n))
  | text (s : String) : IsBranch (.text s)

/-- A reference, or a choice between such sides. -/
inductive IsSubstitution : Setting → Prop where
  | param {name : String} (named : Param.IsWellNamed name) : IsSubstitution (.param name)
  | choice {condition : String} {yes no : Setting} (named : Param.IsWellNamed condition)
      (first : yes.IsBranch) (second : no.IsBranch) : IsSubstitution (.choice condition yes no)

/-- Reads a side of a choice that is no text. -/
def readWord? (word : List Char) : Option Setting :=
  match Text.after? "params.".toList word with
  | some name => some (.param (String.ofList name))
  | none =>
    if word = "true".toList then some (.bool true)
    else if word = "false".toList then some (.bool false)
    else (Numeral.integer? word).map fun n => .literal (.int n)

/-- Reads a side of a choice: the setting, and what follows. -/
def readBranch? : List Char → Option (Setting × List Char)
  | '"' :: cs => (Json.unquote? cs).map fun (text, rest) => (.text (String.ofList text), rest)
  | cs => (readWord? (cs.takeWhile (· != ' '))).map fun word => (word, cs.dropWhile (· != ' '))

/-- Reads a substitution text. -/
def read? (text : String) : Option Setting :=
  (Text.after? "\x7b\x7b params.".toList text.toList).bind fun cs =>
    let name := String.ofList (cs.takeWhile (· != ' '))
    match Text.after? [' ', '?', ' '] (cs.dropWhile (· != ' ')) with
    | none => some (.param name)
    | some cs =>
      (readBranch? cs).bind fun (yes, cs) =>
        (Text.after? [' ', ':', ' '] cs).bind fun cs =>
          (readBranch? cs).map fun (no, _) => .choice name yes no

variable {v w branch : Setting} {name text : String} {word rest : List Char}

/-- A word ends at the space behind it. -/
theorem cut_word (noSpace : ' ' ∉ word) :
    (word ++ ' ' :: rest).takeWhile (· != ' ') = word ∧
      (word ++ ' ' :: rest).dropWhile (· != ' ') = ' ' :: rest := by
  have inside : ∀ c ∈ word, (c != ' ') = true := by
    intro c member
    exact bne_iff_ne.mpr fun same => noSpace (same ▸ member)
  constructor
  · rw [List.takeWhile_append_of_pos inside, List.takeWhile_cons_of_neg (by simp), List.append_nil]
  · rw [List.dropWhile_append_of_pos inside, List.dropWhile_cons_of_neg (by simp)]

/-- A name holds no space and no quote. -/
theorem plain_of_isWellNamed (named : Param.IsWellNamed name) :
    ' ' ∉ name.toList ∧ '"' ∉ name.toList := by
  obtain ⟨first, others, whole, capital, rest⟩ := named
  rw [whole]
  constructor <;>
  · intro member
    rcases List.mem_cons.mp member with rfl | member
    · exact absurd capital (by decide)
    · exact absurd (rest _ member) (by decide)

theorem readBranch?_word (noSpace : ' ' ∉ word) (noQuote : '"' ∉ word)
    (read : readWord? word = some branch) :
    readBranch? (word ++ ' ' :: rest) = some (branch, ' ' :: rest) := by
  unfold readBranch?
  split
  · rename_i cs starts
    cases word with
    | nil => cases starts
    | cons c word =>
      obtain ⟨rfl, -⟩ := List.cons.inj starts
      exact absurd (List.mem_cons_self ..) noQuote
  · rw [(cut_word noSpace).1, (cut_word noSpace).2, read]
    rfl

theorem readWord?_param (name : String) :
    readWord? ("params.".toList ++ name.toList) = some (.param name) := by
  rw [readWord?, Text.after?_eq_some_iff.mpr rfl]
  exact congrArg (fun name => some (Setting.param name)) String.ofList_toList

/-- No word that is made of letters is a number. -/
theorem ne_signed {word : List Char} (letter : ∃ c ∈ word, Json.isNumeric c = false) (n : Int) :
    Numeral.signed n ≠ word := by
  rintro rfl
  obtain ⟨c, member, other⟩ := letter
  rw [Json.isNumeric_signed c member] at other
  cases other

theorem readWord?_int (n : Int) :
    readWord? (Numeral.signed n) = some (.literal (.int n)) := by
  have noName : Text.after? "params.".toList (Numeral.signed n) = none := by
    rw [Option.eq_none_iff_forall_ne_some]
    intro rest found
    exact ne_signed ⟨'p', by simp, by decide⟩ n (Text.after?_eq_some_iff.mp found)
  rw [readWord?, noName]
  dsimp only
  rw [if_neg (ne_signed ⟨'t', by decide, by decide⟩ n),
    if_neg (ne_signed ⟨'f', by decide, by decide⟩ n), Numeral.integer?_signed]
  rfl

/-- A side of a choice is read up to the space behind it. -/
theorem readBranch?_branchText (side : branch.IsBranch) (rest : List Char) :
    readBranch? (branch.branchText.toList ++ ' ' :: rest) = some (branch, ' ' :: rest) := by
  cases side with
  | @param name named =>
    obtain ⟨noSpace, noQuote⟩ := plain_of_isWellNamed named
    have written : (Setting.param name).branchText.toList = "params.".toList ++ name.toList :=
      String.toList_append
    rw [written]
    refine readBranch?_word ?_ ?_ (readWord?_param name)
    · simp [noSpace]
    · simp [noQuote]
  | bool b =>
    cases b with
    | true =>
      have read : readWord? "true".toList = some (.bool true) := rfl
      exact readBranch?_word (by decide) (by decide) read
    | false =>
      have read : readWord? "false".toList = some (.bool false) := rfl
      exact readBranch?_word (by decide) (by decide) read
  | int n =>
    have numeric := Json.isNumeric_signed (n := n)
    have written : (literal (.int n)).branchText.toList = Numeral.signed n := String.toList_ofList
    rw [written]
    refine readBranch?_word ?_ ?_ (readWord?_int n)
    · exact fun member => absurd (numeric _ member) (by decide)
    · exact fun member => absurd (numeric _ member) (by decide)
  | text s =>
    have written : (Setting.text s).branchText.toList = Json.quote s.toList := String.toList_ofList
    rw [written, Json.quote, List.cons_append, List.append_assoc, readBranch?,
      List.singleton_append, Json.unquote?_escapes]
    exact congrArg (fun s => some (Setting.text s, ' ' :: rest)) String.ofList_toList

theorem after?_separator (mark : Char) (cs : List Char) :
    Text.after? [' ', mark, ' '] (' ' :: mark :: ' ' :: cs) = some cs :=
  Text.after?_eq_some_iff.mpr rfl

/-- A substitution text is read as the setting that it was written for. -/
theorem read?_expression? (substitution : v.IsSubstitution) :
    ∃ text, v.expression? = some text ∧ read? text = some v := by
  cases substitution with
  | @param name named =>
    refine ⟨_, rfl, ?_⟩
    obtain ⟨noSpace, -⟩ := plain_of_isWellNamed named
    have start : (braced ("params." ++ name)).toList =
        "\x7b\x7b params.".toList ++ (name.toList ++ ' ' :: "\x7d\x7d".toList) := by
      simp [braced]
    rw [read?, start, Text.after?_eq_some_iff.mpr rfl, Option.bind_some, (cut_word noSpace).1,
      (cut_word noSpace).2]
    exact congrArg (fun name => some (Setting.param name)) String.ofList_toList
  | @choice condition yes no named first second =>
    refine ⟨_, rfl, ?_⟩
    obtain ⟨noSpace, -⟩ := plain_of_isWellNamed named
    have start : (braced ("params." ++ condition ++ " ? " ++ yes.branchText ++ " : " ++
        no.branchText)).toList =
        "\x7b\x7b params.".toList ++ (condition.toList ++ ' ' :: '?' :: ' ' ::
          (yes.branchText.toList ++ ' ' :: ':' :: ' ' ::
            (no.branchText.toList ++ ' ' :: "\x7d\x7d".toList))) := by
      simp [braced]
    rw [read?, start, Text.after?_eq_some_iff.mpr rfl, Option.bind_some, (cut_word noSpace).1,
      (cut_word noSpace).2]
    dsimp only
    rw [after?_separator]
    dsimp only
    rw [readBranch?_branchText first, Option.bind_some]
    dsimp only
    rw [after?_separator, Option.bind_some, readBranch?_branchText second, String.ofList_toList]
    rfl

/-- Substitution texts are unambiguous: references and choices whose texts are equal are equal. -/
theorem expression?_eq_iff (first : v.IsSubstitution) (second : w.IsSubstitution) :
    (∃ text, v.expression? = some text) ∧ (v.expression? = w.expression? ↔ v = w) := by
  obtain ⟨text, written, read⟩ := read?_expression? first
  obtain ⟨text', written', read'⟩ := read?_expression? second
  refine ⟨⟨text, written⟩, fun same => ?_, fun same => by rw [same]⟩
  obtain rfl : text = text' := Option.some.inj (written.symm.trans (same.trans written'))
  exact Option.some.inj (read.symm.trans read')

/-- A separator inside of quotes leaves two choices apart. -/
theorem expression?_ne_quotedSeparator :
    (choice "FLAG" (.text "a\" : \"b") (.text "c")).IsSubstitution ∧
      (choice "FLAG" (.text "a") (.text "b\" : \"c")).IsSubstitution ∧
      (choice "FLAG" (.text "a\" : \"b") (.text "c")).expression? ≠
        (choice "FLAG" (.text "a") (.text "b\" : \"c")).expression? := by
  have flag : Param.IsWellNamed "FLAG" := Param.isName_iff.mp rfl
  have first : (choice "FLAG" (.text "a\" : \"b") (.text "c")).IsSubstitution :=
    .choice flag (.text _) (.text _)
  have second : (choice "FLAG" (.text "a") (.text "b\" : \"c")).IsSubstitution :=
    .choice flag (.text _) (.text _)
  refine ⟨first, second, fun same => ?_⟩
  have equal := (expression?_eq_iff first second).2.mp same
  simp [Setting.text] at equal

end Setting

end DeployManifest
