import DeployManifest.Proofs.Tree.Fits
import DeployManifest.Tree.Pattern

/-! # Reading expressions

One lemma for each parser of expressions, parameters, types and patterns: if the rules that it goes
back to yield what they should, it yields a part of an expression. What can be assigned to is one,
too, and so is what operands are joined to.
-/

namespace DeployManifest

open List (forall_mem_nil forall_mem_cons forall_mem_append forall_mem_singleton)

/-- What a rule has to yield. -/
def Rule.Gives (m : SourceModule) : Rule → Node → Prop
  | .typeNode _ _ _ => fun n => n.IsPart m ∧ n.role = .plain
  | .rightSide => Node.IsBranch m
  | .statement _ => Node.IsBranch m
  | .suite => Node.IsBranch m
  | _ => Node.IsPart m

/-- The rules yield what they should. -/
abbrev Rules.Sound (m : SourceModule) (rules : Rules) : Prop :=
  ∀ rule, (rules rule).Yields m (rule.Gives m)

namespace Parser

variable {m : SourceModule} {rules : Rules} {a first : Admits} {follow : Follow}

theorem Yields.toList {p : Parser Node} {Q : Node → Prop} (yields : p.Yields m Q) :
    (Parser.option p).Yields m fun found => ∀ x ∈ found.toList, Q x :=
  yields.option.mono fun _ holds _ member => holds _ (Option.mem_toList.mp member)

/-! ### Rows of expressions -/

theorem expressions_part (sound : Rules.Sound m rules) :
    (expressions rules first follow).Yields m (Node.IsPart m) := by
  refine (sound _).bind fun head part => ?_
  refine (Yields.many (stays_mark.bind fun _ _ => sound _)).bind fun rest parts => ?_
  refine stays_mark.option.bind fun comma _ => ?_
  split
  · exact .pure part
  · exact spanning_part (by decide) (forall_mem_cons.mpr ⟨part, parts⟩)

theorem yield_part (sound : Rules.Sound m rules) :
    (yield rules first follow).Yields m (Node.IsPart m) := by
  refine stays_startOf.bind fun start _ => stays_word.bind fun _ _ => ?_
  refine stays_atWord.bind fun delegates _ => ?_
  split
  · refine stays_word.bind fun _ _ => (sound _).bind fun value part => ?_
    exact finish_part (by decide) (forall_mem_singleton.mpr part)
  · exact (expressions_part sound).toList.bind fun value parts => finish_part (by decide) parts

theorem listSplat_part (sound : Rules.Sound m rules) :
    (listSplat rules a follow).Yields m (Node.IsPart m) := by
  refine stays_startOf.bind fun start _ => stays_mark.bind fun _ _ => ?_
  exact (sound _).bind fun value part => finish_part (by decide) (forall_mem_singleton.mpr part)

theorem dictionarySplat_part (sound : Rules.Sound m rules) :
    (dictionarySplat rules a follow).Yields m (Node.IsPart m) := by
  refine stays_startOf.bind fun start _ => stays_mark.bind fun _ _ => ?_
  exact (sound _).bind fun value part => finish_part (by decide) (forall_mem_singleton.mpr part)

theorem element_part (sound : Rules.Sound m rules) :
    (element rules a).Yields m (Node.IsPart m) := by
  refine stays_atMark.bind fun star _ => ?_
  split
  · exact listSplat_part sound
  · refine stays_atWord.bind fun yields _ => ?_
    split
    · exact yield_part sound
    · exact sound _

theorem moreElements_parts (sound : Rules.Sound m rules) :
    (moreElements rules).Yields m fun rest => ∀ part ∈ rest, part.IsPart m := by
  refine (Yields.many (stays_mark.bind fun _ _ => element_part sound)).bind fun rest parts => ?_
  exact stays_mark.option.bind fun _ _ => .pure parts

/-! ### Targets -/

mutual

theorem isPart_target? : ∀ {n target : Node}, target? n = some target → n.IsPart m →
    target.IsPart m
  | .mk kind role start stop children, target, found, part => by
    have parts (x : Node) (member : x ∈ children) : x.IsPart m :=
      ⟨part.fits.parts x member, part.fits.here.expression part.other x member⟩
    -- Rows of targets hold the targets of what they held, under another kind.
    have row (kind : NodeKind) (plain : kind ∉ NodeKind.statements ++ NodeKind.tokens)
        (read : (targets? children).map (.mk kind role start stop) = some target) :
        target.IsPart m := by
      obtain ⟨targets, rows, rfl⟩ := Option.map_eq_some_iff.mp read
      exact Node.isPart_mk plain (areParts_targets? rows parts)
    unfold target? at found
    split at found
    · exact Option.some.inj found ▸ part
    · exact Option.some.inj found ▸ part
    · exact Option.some.inj found ▸ part
    · split at found
      · cases found
        exact Node.isPart_mk (by decide) parts
      · cases found
    · exact row _ (by decide) found
    · exact row _ (by decide) found
    · exact row _ (by decide) found
    · exact row _ (by decide) found
    · exact Option.some.inj found ▸ part
    · cases found

theorem areParts_targets? : ∀ {nodes targets : List Node}, targets? nodes = some targets →
    (∀ x ∈ nodes, x.IsPart m) → ∀ x ∈ targets, x.IsPart m
  | [], targets, found, _ => by
    rw [targets?] at found
    cases found
    nofun
  | n :: nodes, targets, found, parts => by
    rw [forall_mem_cons] at parts
    unfold targets? at found
    split at found
    · rename_i target others first rest
      cases found
      exact forall_mem_cons.mpr
        ⟨isPart_target? first parts.1, areParts_targets? rest parts.2⟩
    · cases found

end

theorem asTarget_part {n : Node} (part : n.IsPart m) : (asTarget n).Yields m (Node.IsPart m) := by
  unfold asTarget
  split
  · rename_i found
    exact .pure (isPart_target? found part)
  · exact yields_refuse

/-! ### Names, numbers and strings -/

theorem wordKind_plain (word : String) :
    wordKind word ∉ NodeKind.statements ++ NodeKind.tokens := by
  unfold wordKind
  split
  · decide
  · split
    · decide
    · split <;> decide

theorem substitution_part (sound : Rules.Sound m rules) {q : Quotes} :
    (substitution rules q).Yields m (Node.IsPart m) := by
  intro c n c' stands read
  unfold substitution at read
  split at read
  · exact sound .interpolation _ n c' (stands.advance _) read
  · cases read

theorem quoted_part (sound : Rules.Sound m rules) {q : Quotes} {start : Nat} :
    (quoted rules q start).Yields m fun n => n.kind = .string ∧ n.IsPart m := by
  refine (substitution_part sound).many.bind fun parts hold => ?_
  refine yields_get.bind fun here stands => ?_
  split
  · rename_i rest _
    have behind : ({ here.advanceTo rest with inFormat := false } : Cursor).StandsIn m :=
      ⟨(stands.advance _).place, (stands.advance 0).joints⟩
    refine (stays_moveTo behind).bind fun _ _ => ?_
    refine yields_finish fun stop nodes among => ⟨rfl, Node.isPart_mk (by decide) ?_⟩
    exact fun x member => (among x member).elim (hold x) And.right
  · exact yields_refuse

theorem string_part (sound : Rules.Sound m rules) :
    (string rules a).Yields m fun n => n.kind = .string ∧ n.IsPart m := by
  refine yields_peek.bind fun found stands => ?_
  split
  · exact (stays_moveTo stands).bind fun _ _ => quoted_part sound
  · exact yields_refuse

theorem strings_part (sound : Rules.Sound m rules) :
    (strings rules a follow).Yields m (Node.IsPart m) := by
  refine (string_part sound).bind fun first part => ?_
  refine (string_part sound).many.bind fun rest parts => ?_
  split
  · exact .pure part.2
  · exact spanning_strings (forall_mem_cons.mpr ⟨part, parts⟩)

/-- A number is cut from the text where it ends. -/
theorem number_part : (number a).Yields m (Node.IsPart m) := by
  refine yields_token.bind fun here stands => ?_
  dsimp only
  split
  · exact (stays_moveTo (stands.advance _)).bind fun _ _ => finish_part (by decide) nofun
  · split
    · rename_i some
      rintro c _ _ - ⟨⟩
      have behind := stands.advance (Token.integerLength here.rest)
      have text := stands.slice_advance (Token.integerLength here.rest)
      exact ⟨behind, Node.isPart_integer (text ▸ Token.isInteger_take some) fun x member =>
        (mem_finished behind member).elim nofun And.right⟩
    · exact yields_refuse

/-! ### Substitutions in strings -/

theorem formatPieces_parts (sound : Rules.Sound m rules) :
    (formatPieces rules).Yields m fun pieces => ∀ x ∈ pieces, x.IsPart m := by
  refine Yields.many (yields_get.bind fun start stands => ?_)
  have here : start.skipSpace.StandsIn m := stands.advance _
  dsimp only
  split
  · exact (stays_moveTo here).bind fun _ _ => sound _
  · split
    · exact yields_refuse
    · exact (stays_moveTo (here.advance _)).bind fun _ _ => finish_part (by decide) nofun
  · exact yields_refuse

theorem stays_conversion : conversion.Stays m := by
  refine yields_token.bind fun here stands => ?_
  split
  · split
    · exact stays_moveTo (stands.advance _)
    · exact yields_refuse
  · exact yields_refuse

theorem interpolation_part (sound : Rules.Sound m rules) :
    (interpolation rules).Yields m (Node.IsPart m) := by
  refine yields_get.bind fun here stands => (stays_moveTo (stands.advance _)).bind fun _ _ => ?_
  refine stays_atWord.bind fun yields _ => ?_
  extract_lets behind
  have closed (value : Node) (part : value.IsPart m) : (behind value).Yields m (Node.IsPart m) := by
    refine stays_mark.option.bind fun _ _ => stays_conversion.option.bind fun _ _ => ?_
    refine stays_character.option.bind fun _ _ => ?_
    extract_lets last
    have finished (pieces : List Node) (parts : ∀ x ∈ pieces, x.IsPart m) :
        (last pieces).Yields m (Node.IsPart m) :=
      stays_character.bind fun _ _ =>
        finish_part (by decide) (forall_mem_cons.mpr ⟨part, parts⟩)
    split
    · exact (formatPieces_parts sound).bind finished
    · exact Yields.bind (.pure nofun) finished
  split
  · exact (yield_part sound).bind closed
  · exact (expressions_part sound).bind closed

/-! ### Comprehensions -/

theorem stays_atComprehension : atComprehension.Stays m := by
  refine stays_atWord.bind fun loops _ => ?_
  split
  · exact .pure trivial
  · refine yields_name?.bind fun found _ => ?_
    split
    · split <;> exact .pure trivial
    · exact .pure trivial

theorem loopTargets_part (sound : Rules.Sound m rules) :
    (loopTargets rules).Yields m (Node.IsPart m) := by
  refine (sound _).bind fun head part => ?_
  refine (Yields.many (stays_mark.bind fun _ _ => stays_noWord.bind fun _ _ => sound _)).bind
    fun rest parts => stays_mark.option.bind fun comma _ => ?_
  split
  · exact asTarget_part part
  · exact (spanning_part (by decide) (forall_mem_cons.mpr ⟨part, parts⟩)).bind
      fun row part => asTarget_part part

theorem forInClause_part (sound : Rules.Sound m rules) :
    (forInClause rules).Yields m (Node.IsPart m) := by
  refine stays_startOf.bind fun start _ => stays_word.option.bind fun _ _ => ?_
  refine stays_word.bind fun _ _ => (loopTargets_part sound).bind fun left target => ?_
  refine stays_word.bind fun _ _ => (sound _).bind fun first part => ?_
  refine (Yields.many (Q := Node.IsPart m) (stays_mark.bind fun _ _ => stays_noWord.bind fun _ _ =>
    stays_atComprehension.bind fun _ _ => ?_)).bind fun rest parts => ?_
  · split
    · exact yields_refuse
    · exact sound _
  · refine stays_mark.option.bind fun _ _ => finish_part (by decide) ?_
    have values : ∀ x ∈ first :: rest, x.IsPart m := forall_mem_cons.mpr ⟨part, parts⟩
    exact forall_mem_cons.mpr ⟨target.withRole _, List.forall_mem_map.mpr
      fun value member => (values value member).withRole _⟩

theorem ifClause_part (sound : Rules.Sound m rules) {conditional : Bool} :
    (ifClause rules first follow conditional).Yields m (Node.IsPart m) := by
  refine stays_startOf.bind fun start _ => stays_word.bind fun _ _ => ?_
  exact (sound _).bind fun condition part => finish_part (by decide) (forall_mem_singleton.mpr part)

theorem comprehension_parts (sound : Rules.Sound m rules) :
    (comprehension rules).Yields m fun clauses => ∀ x ∈ clauses, x.IsPart m :=
  (forInClause_part sound).bind fun _ part =>
    ((forInClause_part sound).or (ifClause_part sound)).many.bind fun _ parts =>
      .pure (forall_mem_cons.mpr ⟨part, parts⟩)

/-! ### Bracketed expressions -/

theorem parenthesized_part (sound : Rules.Sound m rules) {start : Nat} :
    (parenthesized rules start).Yields m (Node.IsPart m) := by
  refine stays_character.option.bind fun closed _ => ?_
  split
  · exact finish_part (by decide) nofun
  · refine (element_part sound).bind fun first part => stays_atComprehension.bind fun loops _ => ?_
    split
    · exact (comprehension_parts sound).bind fun clauses parts => stays_character.bind fun _ _ =>
        finish_part (by decide) (forall_mem_cons.mpr ⟨part, parts⟩)
    · refine stays_atMark.bind fun row _ => ?_
      split
      · exact (moreElements_parts sound).bind fun rest parts => stays_character.bind fun _ _ =>
          finish_part (by decide) (forall_mem_cons.mpr ⟨part, parts⟩)
      · exact stays_character.bind fun _ _ =>
          finish_part (by decide) (forall_mem_singleton.mpr part)

theorem list_part (sound : Rules.Sound m rules) {start : Nat} :
    (Parser.list rules start).Yields m (Node.IsPart m) := by
  refine stays_character.option.bind fun closed _ => ?_
  split
  · exact finish_part (by decide) nofun
  · refine (element_part sound).bind fun first part => stays_atComprehension.bind fun loops _ => ?_
    split
    · exact (comprehension_parts sound).bind fun clauses parts => stays_character.bind fun _ _ =>
        finish_part (by decide) (forall_mem_cons.mpr ⟨part, parts⟩)
    · exact (moreElements_parts sound).bind fun rest parts => stays_character.bind fun _ _ =>
        finish_part (by decide) (forall_mem_cons.mpr ⟨part, parts⟩)

theorem isPart_asValue {n : Node} (part : n.IsPart m) : (asValue n).IsPart m := by
  obtain ⟨kind, role, start, stop, children⟩ := n
  unfold asValue
  split
  · split
    · exact Node.isPart_mk (by decide) fun x member =>
        ⟨part.fits.parts x member, part.fits.here.expression part.other x member⟩
    · exact part
  · exact part

theorem pairValue_part (sound : Rules.Sound m rules) {key : Node} (part : key.IsPart m) :
    (pairValue rules key).Yields m (Node.IsPart m) := by
  refine stays_mark.bind fun _ _ => (sound _).bind fun value given => ?_
  exact spanning_part (by decide) (forall_mem_cons.mpr ⟨part.withRole _,
    forall_mem_singleton.mpr ((isPart_asValue given).withRole _)⟩)

theorem entry_part (sound : Rules.Sound m rules) : (entry rules a).Yields m (Node.IsPart m) := by
  refine stays_atMark.bind fun unpacks _ => ?_
  split
  · exact dictionarySplat_part sound
  · exact (sound _).bind fun key part => pairValue_part sound part

theorem moreEntries_part (sound : Rules.Sound m rules) {start : Nat} {entries : List Node}
    (parts : ∀ x ∈ entries, x.IsPart m) :
    (moreEntries rules start entries).Yields m (Node.IsPart m) := by
  refine (Yields.many (stays_mark.bind fun _ _ => entry_part sound)).bind fun rest others => ?_
  refine stays_mark.option.bind fun _ _ => stays_character.bind fun _ _ => ?_
  exact finish_part (by decide) (forall_mem_append.mpr ⟨parts, others⟩)

theorem braced_part (sound : Rules.Sound m rules) {start : Nat} :
    (braced rules start).Yields m (Node.IsPart m) := by
  refine stays_character.option.bind fun closed _ => ?_
  split
  · exact finish_part (by decide) nofun
  refine stays_atMark.bind fun comma _ => ?_
  split
  · exact moreEntries_part sound nofun
  refine stays_atMark.bind fun unpacks _ => ?_
  split
  · exact (dictionarySplat_part sound).bind fun first part =>
      moreEntries_part sound (forall_mem_singleton.mpr part)
  refine (element_part sound).bind fun first part => stays_atMark.bind fun paired _ => ?_
  have rows {kind : NodeKind} (plain : kind ∉ NodeKind.statements ++ NodeKind.tokens) {head : Node}
      (part : head.IsPart m) : (do
        let clauses ← comprehension rules
        character .closing '\x7d'
        finish kind start (head :: clauses) : Parser Node).Yields m (Node.IsPart m) :=
    (comprehension_parts sound).bind fun clauses parts => stays_character.bind fun _ _ =>
      finish_part plain (forall_mem_cons.mpr ⟨part, parts⟩)
  split
  · refine (pairValue_part sound part).bind fun pair part => ?_
    refine stays_atComprehension.bind fun loops _ => ?_
    split
    · exact rows (by decide) part
    · exact moreEntries_part sound (forall_mem_singleton.mpr part)
  · refine stays_atComprehension.bind fun loops _ => ?_
    split
    · exact rows (by decide) part
    · exact (moreElements_parts sound).bind fun rest parts => stays_character.bind fun _ _ =>
        finish_part (by decide) (forall_mem_cons.mpr ⟨part, parts⟩)

/-! ### Calls, subscripts and members -/

/-- A name is cut from the text as an identifier. -/
theorem identifier_mk {role : Role} {start stop : Nat} :
    (Node.mk .identifier role start stop []).IsPart m :=
  Node.isPart_mk (by decide) nofun

theorem keyword?_part : (keyword? a).Yields m fun found => ∀ name ∈ found, name.IsPart m := by
  intro c found c' stands read
  unfold keyword? at read
  split at read
  · rename_i here next
    have front : here.StandsIn m := by simpa [next] using stands.next a
    dsimp only at read
    split at read
    · cases read
      exact ⟨stands, nofun⟩
    · split at read
      · rename_i equals after
        have behind : equals.StandsIn m := by
          simpa [after] using (front.advance (Token.nameLength here.rest)).next .closing
        split at read
        · cases read
          exact ⟨behind.advance 1, fun _ same => Option.some.inj same ▸ identifier_mk⟩
        · cases read
          exact ⟨stands, nofun⟩
      · cases read
        exact ⟨stands, nofun⟩
  · cases read
    exact ⟨stands, nofun⟩

theorem argument_part (sound : Rules.Sound m rules) :
    (argument rules a).Yields m (Node.IsPart m) := by
  refine stays_atMark.bind fun star _ => ?_
  split
  · exact listSplat_part sound
  refine stays_atMark.bind fun stars _ => ?_
  split
  · exact dictionarySplat_part sound
  refine keyword?_part.bind fun found named => ?_
  split
  · exact (sound _).bind fun value part => spanning_part (by decide) (forall_mem_cons.mpr
      ⟨named _ rfl, forall_mem_singleton.mpr ((isPart_asValue part).withRole _)⟩)
  · exact sound _

theorem arguments_part (sound : Rules.Sound m rules) {start : Nat} :
    (Parser.arguments rules start).Yields m (Node.IsPart m) := by
  refine (argument_part sound).option.bind fun found parts => ?_
  split
  · exact stays_mark.option.bind fun _ _ => stays_character.bind fun _ _ =>
      finish_part (by decide) nofun
  · rename_i first
    refine stays_atComprehension.bind fun loops _ => ?_
    split
    · exact (comprehension_parts sound).bind fun clauses others => stays_character.bind fun _ _ =>
        finish_part (by decide) (forall_mem_cons.mpr ⟨parts _ rfl, others⟩)
    · exact (Yields.many (stays_mark.bind fun _ _ => argument_part sound)).bind fun rest others =>
        stays_mark.option.bind fun _ _ => stays_character.bind fun _ _ =>
          finish_part (by decide) (forall_mem_cons.mpr ⟨parts _ rfl, others⟩)

theorem argumentsAt_part (sound : Rules.Sound m rules) :
    (argumentsAt rules a).Yields m (Node.IsPart m) :=
  stays_startOf.bind fun _ _ => stays_character.bind fun _ _ => arguments_part sound

theorem subscriptItem_part (sound : Rules.Sound m rules) :
    (subscriptItem rules a).Yields m (Node.IsPart m) := by
  have index {b : Admits} : (Parser.option (rules (.expression b .bracket true))).Yields m
      fun found => ∀ x ∈ found.toList, x.IsPart m := Yields.toList (sound _)
  refine stays_startOf.bind fun start _ => index.bind fun lower parts => ?_
  refine stays_mark.option.bind fun colon _ => ?_
  split
  · refine index.bind fun upper above => stays_mark.option.bind fun second _ => ?_
    extract_lets last
    have finished (step : Option Node) (by_ : ∀ x ∈ step.toList, x.IsPart m) :
        (last step).Yields m (Node.IsPart m) :=
      finish_part (by decide)
        (forall_mem_append.mpr ⟨forall_mem_append.mpr ⟨parts, above⟩, by_⟩)
    split
    · exact index.bind finished
    · exact Yields.bind (.pure nofun) finished
  · split
    · exact .pure (parts _ (Option.mem_toList.mpr rfl))
    · exact yields_refuse

theorem trailer_part (sound : Rules.Sound m rules) {n : Node} (part : n.IsPart m) :
    (trailer rules follow n).Yields m (Node.IsPart m) := by
  refine yields_token.bind fun here stands => ?_
  have behind := stays_moveTo (stands.advance 1)
  split
  · exact behind.bind fun _ _ => identifier_part.bind fun name given => spanning_part (by decide)
      (forall_mem_cons.mpr ⟨part.withRole _, forall_mem_singleton.mpr (given.withRole _)⟩)
  · exact behind.bind fun _ _ => (arguments_part sound).bind fun args given =>
      spanning_part (by decide)
        (forall_mem_cons.mpr ⟨part.withRole _, forall_mem_singleton.mpr (given.withRole _)⟩)
  · refine behind.bind fun _ _ => (subscriptItem_part sound).bind fun first index => ?_
    refine (Yields.many (stays_mark.bind fun _ _ => subscriptItem_part sound)).bind
      fun rest more => ?_
    refine stays_mark.option.bind fun _ _ => stays_character.bind fun _ _ => ?_
    exact spanning_part (by decide)
      (forall_mem_cons.mpr ⟨part.withRole _, forall_mem_cons.mpr ⟨index, more⟩⟩)
  · exact yields_refuse

theorem trailers_part (sound : Rules.Sound m rules) {fuel : Nat} {n : Node} (part : n.IsPart m) :
    (trailers rules follow fuel n).Yields m (Node.IsPart m) := by
  induction fuel generalizing n with
  | zero => exact .pure part
  | succ fuel ih =>
    refine (trailer_part sound part).option.bind fun found parts => ?_
    split
    · exact ih (parts _ rfl)
    · exact .pure part

theorem atom_part (sound : Rules.Sound m rules) :
    (atom rules a follow).Yields m (Node.IsPart m) := by
  refine yields_peek.bind fun found stands => ?_
  split
  · exact strings_part sound
  · have behind (count : Nat) := stays_moveTo (stands.advance count)
    split
    · exact (behind 1).bind fun _ _ => parenthesized_part sound
    · exact (behind 1).bind fun _ _ => list_part sound
    · exact (behind 1).bind fun _ _ => braced_part sound
    · exact (behind 3).bind fun _ _ => finish_part (by decide) nofun
    · split
      · exact number_part
      · exact (behind _).bind fun _ _ => finish_part (wordKind_plain _) nofun
  · exact yields_refuse

theorem primary_part (sound : Rules.Sound m rules) :
    (primary rules a follow).Yields m (Node.IsPart m) :=
  (atom_part sound).bind fun _ part => yields_get.bind fun _ _ => trailers_part sound part

/-! ### Operators -/

theorem isPart_starred {start : Nat} : ∀ {n chain : Node}, starred start n = some chain →
    n.IsPart m → chain.IsPart m
  | .mk kind role from_ stop children, chain, found, part => by
    have parts (x : Node) (member : x ∈ children) : x.IsPart m :=
      ⟨part.fits.parts x member, part.fits.here.expression part.other x member⟩
    unfold starred at found
    split at found
    · cases found
      exact Node.isPart_mk (by decide) (forall_mem_singleton.mpr (part.withRole .plain))
    · split at found
      · rename_i function rest
        obtain ⟨inner, here, rfl⟩ := Option.map_eq_some_iff.mp found
        rw [forall_mem_cons] at parts
        exact Node.isPart_mk (by decide)
          (forall_mem_cons.mpr ⟨(isPart_starred here parts.1).withRole _, parts.2⟩)
      · cases found

theorem unary_part (sound : Rules.Sound m rules) :
    (unary rules first follow).Yields m (Node.IsPart m) := by
  unfold unary
  extract_lets power
  have powered : power.Yields m (Node.IsPart m) := by
    refine (primary_part sound).bind fun base part => stays_atMark.bind fun raised _ => ?_
    split
    · exact stays_mark.bind fun _ _ => (sound _).bind fun exponent given => spanning_part
        (by decide) (forall_mem_cons.mpr ⟨part, forall_mem_singleton.mpr given⟩)
    · exact .pure part
  refine yields_peek.bind fun found stands => ?_
  split
  · exact powered
  · rename_i here
    extract_lets sign
    have signed (c : Char) : (sign c).Yields m (Node.IsPart m) :=
      (stays_moveTo (stands.advance 1)).bind fun _ _ => (sound _).bind fun operand part => by
        refine yields_finish fun stop nodes among => Node.isPart_mk
          (by simp [NodeKind.statements, NodeKind.holders, NodeKind.tokens]) ?_
        exact fun x member => (among x member).elim
          (forall_mem_singleton.mpr (part.withRole _) x) And.right
    split
    · exact signed '+'
    · exact signed '-'
    · exact signed '~'
    · refine (stays_moveTo (stands.advance 1)).bind fun _ _ => ?_
      refine (primary_part sound).bind fun chain part => ?_
      split
      · rename_i star
        exact .pure (isPart_starred star part)
      · exact yields_refuse
    · split
      · exact (stays_moveTo (stands.advance _)).bind fun _ _ => (sound _).bind fun operand part =>
          finish_part (by decide) (forall_mem_singleton.mpr part)
      · exact powered
  · exact yields_refuse

/-- Two operands joined by an operator. -/
theorem isPart_pair {kind : NodeKind} (plain : kind ∉ NodeKind.statements ++ NodeKind.tokens)
    {left right : Node} (first : left.IsPart m) (second : right.IsPart m) :
    (Node.mk kind .plain left.start right.stop [left, right]).IsPart m :=
  Node.isPart_mk plain (forall_mem_cons.mpr ⟨first, forall_mem_singleton.mpr second⟩)

theorem joinLevel_parts {level : List String} {left : Node} {rest : List (String × Node)}
    (part : left.IsPart m) (parts : ∀ x ∈ rest, x.2.IsPart m) :
    (joinLevel level left rest).1.IsPart m ∧
      ∀ x ∈ (joinLevel level left rest).2, x.2.IsPart m := by
  induction rest generalizing left with
  | nil => exact ⟨part, nofun⟩
  | cons operand rest ih =>
    rw [forall_mem_cons] at parts
    rw [joinLevel]
    split
    · exact ih (isPart_pair (by decide) part parts.1) parts.2
    · obtain ⟨next, others⟩ := ih parts.1 parts.2
      exact ⟨part, forall_mem_cons.mpr ⟨next, others⟩⟩

theorem isPart_joinAll {left : Node} {rest : List (String × Node)} (part : left.IsPart m)
    (parts : ∀ x ∈ rest, x.2.IsPart m) : (joinAll left rest).IsPart m := by
  have levels (all : List (List String)) (row : Node × List (String × Node))
      (part : row.1.IsPart m) (parts : ∀ x ∈ row.2, x.2.IsPart m) :
      (all.foldl (fun row level => joinLevel level row.1 row.2) row).1.IsPart m := by
    induction all generalizing row with
    | nil => exact part
    | cons level all ih =>
      obtain ⟨next, others⟩ := joinLevel_parts part parts
      exact ih _ next others
  exact levels _ _ part parts

theorem arithmetic_part (sound : Rules.Sound m rules) :
    (arithmetic rules first follow).Yields m (Node.IsPart m) := by
  refine (sound _).bind fun left part => ?_
  refine (Yields.many (Q := fun x : String × Node => x.2.IsPart m)
    (stays_oneOf.bind fun op _ => (sound _).bind fun right given => ?_)).bind fun rest parts => ?_
  · exact .pure given
  · exact .pure (isPart_joinAll part parts)

theorem stays_comparator : (comparator follow).Stays m := by
  refine Yields.or (stays_oneOf.bind fun _ _ => .pure trivial) (stays_word.or (Yields.or ?_ ?_))
  · exact stays_word.bind fun _ _ => stays_word
  · exact stays_word.bind fun _ _ => stays_word.option.bind fun _ _ => .pure trivial

theorem comparison_part (sound : Rules.Sound m rules) :
    (comparison rules first follow).Yields m (Node.IsPart m) := by
  refine (arithmetic_part sound).bind fun left part => ?_
  refine (Yields.many (stays_comparator.bind fun _ _ => arithmetic_part sound)).bind
    fun rest parts => ?_
  split
  · exact .pure part
  · exact spanning_part (by decide) (forall_mem_cons.mpr ⟨part, parts⟩)

variable {parameter : Parser Node}

theorem lambda_part (sound : Rules.Sound m rules) (given : parameter.Yields m (Node.IsPart m)) :
    (lambda rules parameter first follow).Yields m (Node.IsPart m) := by
  refine stays_startOf.bind fun start _ => stays_word.bind fun _ _ => ?_
  refine stays_atMark.bind fun bare _ => ?_
  extract_lets behind
  have closed (parameters : List Node) (parts : ∀ x ∈ parameters, x.IsPart m) :
      (behind parameters).Yields m (Node.IsPart m) :=
    stays_mark.bind fun _ _ => (sound _).bind fun body part => finish_part (by decide)
      (forall_mem_append.mpr ⟨parts, forall_mem_singleton.mpr part⟩)
  split
  · exact Yields.bind (.pure nofun) closed
  · refine given.bind fun head part => ?_
    refine (Yields.many (stays_mark.bind fun _ _ => given)).bind fun rest parts => ?_
    refine stays_mark.option.bind fun _ _ => ?_
    refine (spanning_part (by decide) (forall_mem_cons.mpr ⟨part, parts⟩)).bind fun all whole => ?_
    exact Yields.bind (.pure (forall_mem_singleton.mpr whole)) closed

theorem namedBy?_part : (namedBy? a).Yields m fun found => ∀ name ∈ found, name.IsPart m := by
  intro c found c' stands read
  unfold namedBy? at read
  split at read
  · rename_i here next
    have front : here.StandsIn m := by simpa [next] using stands.next a
    dsimp only at read
    split at read
    · cases read
      exact ⟨stands, nofun⟩
    · split at read
      · rename_i mark after
        have behind : mark.StandsIn m := by
          simpa [after] using (front.advance (Token.nameLength here.rest)).next .nothing
        split at read
        · cases read
          exact ⟨behind.advance 2, fun _ same => Option.some.inj same ▸ identifier_mk⟩
        · cases read
          exact ⟨stands, nofun⟩
      · cases read
        exact ⟨stands, nofun⟩
  · cases read
    exact ⟨stands, nofun⟩

theorem negation_part (sound : Rules.Sound m rules) (given : parameter.Yields m (Node.IsPart m)) :
    (negation rules parameter first follow).Yields m (Node.IsPart m) := by
  refine stays_atWord.bind fun negates _ => ?_
  split
  · exact stays_startOf.bind fun start _ => stays_word.bind fun _ _ =>
      (sound _).bind fun operand part => finish_part (by decide) (forall_mem_singleton.mpr part)
  refine stays_atWord.bind fun isLambda _ => ?_
  split
  · exact lambda_part sound given
  refine namedBy?_part.bind fun found named => ?_
  split
  · exact (sound _).bind fun value part => spanning_part (by decide)
      (forall_mem_cons.mpr ⟨named _ rfl, forall_mem_singleton.mpr part⟩)
  · exact comparison_part sound

theorem booleans_part {op : String} {operand : Admits → Parser Node}
    (given : ∀ a, (operand a).Yields m (Node.IsPart m)) :
    (booleans op operand first follow).Yields m (Node.IsPart m) := by
  refine (given _).bind fun left part => ?_
  refine (Yields.many (stays_word.bind fun _ _ => given _)).bind fun rest parts => ?_
  exact .pure (List.foldlRecOn rest _ part fun _ whole _ member =>
    isPart_pair (by decide) whole (parts _ member))

theorem disjunction_part (sound : Rules.Sound m rules) :
    (disjunction rules first follow).Yields m (Node.IsPart m) :=
  booleans_part fun _ => booleans_part fun _ => sound _

theorem aliased_part (sound : Rules.Sound m rules) {n : Node} (part : n.IsPart m) :
    (aliased rules follow n).Yields m (Node.IsPart m) :=
  stays_word.bind fun _ _ => (disjunction_part sound).bind fun inner given => spanning_part
    (by decide) (forall_mem_cons.mpr ⟨part, forall_mem_singleton.mpr
      (Node.isPart_mk (by decide) (forall_mem_singleton.mpr given))⟩)

theorem aliases_part (sound : Rules.Sound m rules) {fuel : Nat} {n : Node} (part : n.IsPart m) :
    (aliases rules follow fuel n).Yields m (Node.IsPart m) := by
  induction fuel generalizing n with
  | zero => exact .pure part
  | succ fuel ih =>
    refine (aliased_part sound part).option.bind fun found parts => ?_
    split
    · exact ih (parts _ rfl)
    · exact .pure part

theorem expression_part (sound : Rules.Sound m rules) {conditional : Bool} :
    (expression rules first follow conditional).Yields m (Node.IsPart m) := by
  refine (disjunction_part sound).bind fun head part => yields_get.bind fun here _ => ?_
  refine (aliases_part sound part).bind fun head part => stays_atWord.bind fun asks _ => ?_
  split
  · refine stays_word.bind fun _ _ => (sound _).bind fun condition tested => ?_
    refine stays_word.bind fun _ _ => (sound _).bind fun otherwise other => ?_
    exact spanning_part (by decide)
      (forall_mem_cons.mpr ⟨part, forall_mem_cons.mpr ⟨tested, forall_mem_singleton.mpr other⟩⟩)
  · exact .pure part

/-! ### Types and parameters -/

theorem typeParameters_part (sound : Rules.Sound m rules) :
    (typeParameters rules a).Yields m (Node.IsPart m) := by
  refine stays_startOf.bind fun start _ => stays_character.bind fun _ _ => ?_
  refine (sound _).bind fun first part => ?_
  refine (Yields.many (stays_mark.bind fun _ _ => sound _)).bind fun rest parts => ?_
  refine stays_mark.option.bind fun _ _ => stays_character.bind fun _ _ => ?_
  exact finish_part (by decide) (forall_mem_cons.mpr ⟨part.1, fun x member => (parts x member).1⟩)

theorem stays_atGeneric : (atGeneric first follow).Stays m := by
  refine yields_name?.bind fun found _ => ?_
  split
  · split
    · exact .pure trivial
    · split <;> exact .pure trivial
  · exact .pure trivial

theorem simpleType_parts (sound : Rules.Sound m rules) :
    (simpleType rules first follow).Yields m fun types => ∀ x ∈ types, x.IsPart m := by
  refine stays_atGeneric.bind fun generic _ => ?_
  split
  · exact identifier_part.bind fun name part => (typeParameters_part sound).bind fun args given =>
      .pure (forall_mem_cons.mpr ⟨part, forall_mem_singleton.mpr given⟩)
  refine stays_atMark.bind fun stars _ => ?_
  split
  · exact stays_mark.bind fun _ _ => identifier_part.bind fun name part =>
      .pure (forall_mem_singleton.mpr part)
  · exact (sound _).bind fun type part => .pure (forall_mem_singleton.mpr part)

theorem typeNode_part (sound : Rules.Sound m rules) {constrained : Bool} :
    (typeNode rules first follow constrained).Yields m fun n => n.IsPart m ∧ n.role = .plain := by
  have type (f : Follow) (limited : Bool) : (rules (.typeNode .operand f limited)).Yields m
      (Node.IsPart m) := (sound _).mono fun _ => And.left
  refine stays_startOf.bind fun start _ => (simpleType_parts sound).bind fun base parts => ?_
  refine (Yields.many (Yields.or (stays_mark.bind fun _ _ => type _ _)
    (stays_mark.bind fun _ _ => identifier_part))).bind fun rest others => ?_
  extract_lets last
  have finished (bound : Option Node) (limit : ∀ x ∈ bound.toList, x.IsPart m) :
      (last bound).Yields m fun n => n.IsPart m ∧ n.role = .plain := by
    refine yields_finish fun stop nodes among =>
      ⟨Node.isPart_mk (by decide) fun x member => ?_, rfl⟩
    exact (among x member).elim (forall_mem_append.mpr
      ⟨forall_mem_append.mpr ⟨parts, others⟩, limit⟩ x) And.right
  split
  · exact (Yields.toList (stays_mark.bind fun _ _ => type _ _)).bind finished
  · exact Yields.bind (.pure nofun) finished

theorem starOperand_part (sound : Rules.Sound m rules) :
    (starOperand rules follow).Yields m (Node.IsPart m) := by
  refine (primary_part sound).bind fun n part => ?_
  split
  · exact .pure part
  · exact yields_refuse

theorem parameterName_part (sound : Rules.Sound m rules) :
    (parameterName rules a follow).Yields m fun found => found.1.IsPart m := by
  refine stays_startOf.bind fun start _ => stays_atMark.bind fun stars _ => ?_
  split
  · exact stays_mark.bind fun _ _ => (starOperand_part sound).bind fun operand part =>
      (finish_part (by decide) (forall_mem_singleton.mpr part)).bind fun _ whole => .pure whole
  refine stays_atMark.bind fun star _ => ?_
  split
  · refine stays_mark.bind fun _ _ => (starOperand_part sound).option.bind fun found parts => ?_
    split
    · exact (finish_part (by decide) (forall_mem_singleton.mpr (parts _ rfl))).bind
        fun _ whole => .pure whole
    · exact (finish_part (by decide) (forall_mem_nil _)).bind fun _ whole => .pure whole
  refine stays_atMark.bind fun slash _ => ?_
  split
  · exact stays_mark.bind fun _ _ => (finish_part (by decide) (forall_mem_nil _)).bind
      fun _ whole => .pure whole
  refine stays_atMark.bind fun row _ => ?_
  split
  · exact (atom_part sound).bind fun n part => (asTarget_part part).bind fun _ target =>
      .pure target
  · exact identifier_part.bind fun name part => .pure part

theorem defaultValue_part (sound : Rules.Sound m rules) :
    (defaultValue rules follow).Yields m (Node.IsPart m) :=
  stays_mark.bind fun _ _ => sound _

/-- A parameter that may have a default. -/
theorem withDefault_part (sound : Rules.Sound m rules) {name : Node} (part : name.IsPart m) :
    (if takesDefault name then do
      match ← option (defaultValue rules follow) with
      | some value => spanning .defaultParameter [name.withRole .name, value.withRole .value]
      | none => return name
    else return name : Parser Node).Yields m (Node.IsPart m) := by
  split
  · refine (defaultValue_part sound).option.bind fun found parts => ?_
    split
    · exact spanning_part (by decide) (forall_mem_cons.mpr
        ⟨part.withRole _, forall_mem_singleton.mpr ((parts _ rfl).withRole _)⟩)
    · exact .pure part
  · exact .pure part

theorem parameter_part (sound : Rules.Sound m rules) :
    (Parser.parameter rules a).Yields m (Node.IsPart m) := by
  refine (parameterName_part sound).bind ?_
  rintro ⟨name, typed⟩ (part : name.IsPart m)
  refine stays_atMark.bind fun colon _ => ?_
  split
  · refine stays_mark.bind fun _ _ => (sound _).bind fun annotation type => ?_
    have withoutDefault : (spanning .typedParameter [name, annotation]).Yields m (Node.IsPart m) :=
      spanning_part (by decide) (forall_mem_cons.mpr ⟨part, forall_mem_singleton.mpr type.1⟩)
    split
    · refine (defaultValue_part sound).option.bind fun found parts => ?_
      split
      · exact spanning_part (by decide) (forall_mem_cons.mpr ⟨part.withRole _, forall_mem_cons.mpr
          ⟨type.1, forall_mem_singleton.mpr ((parts _ rfl).withRole _)⟩⟩)
      · exact withoutDefault
    · exact withoutDefault
  · exact withDefault_part sound part

theorem lambdaParameter_part (sound : Rules.Sound m rules) :
    (lambdaParameter rules).Yields m (Node.IsPart m) :=
  (parameterName_part sound).bind fun (_, _) part => withDefault_part sound part

theorem parameters_part (sound : Rules.Sound m rules) :
    (Parser.parameters rules).Yields m (Node.IsPart m) := by
  refine stays_startOf.bind fun start _ => stays_character.bind fun _ _ => ?_
  refine (Yields.toList (parameter_part sound)).bind fun first parts => ?_
  extract_lets last
  have finished (rest : List Node) (others : ∀ x ∈ rest, x.IsPart m) :
      (last rest).Yields m (Node.IsPart m) :=
    stays_character.bind fun _ _ => finish_part (by decide) (forall_mem_append.mpr ⟨parts, others⟩)
  split
  · exact (Yields.many (stays_mark.bind fun _ _ => parameter_part sound)).bind fun rest others =>
      stays_mark.option.bind fun _ _ => Yields.bind (.pure others) finished
  · exact Yields.bind (.pure nofun) finished

/-! ### Patterns -/

theorem itemsUpTo_parts {closer : Char} {item : Admits → Parser Node}
    (given : ∀ a, (item a).Yields m (Node.IsPart m)) :
    (itemsUpTo closer item).Yields m fun items => ∀ x ∈ items, x.IsPart m := by
  refine (given _).option.bind fun found parts => ?_
  split
  · exact stays_character.bind fun _ _ => .pure nofun
  · refine (Yields.many (stays_mark.bind fun _ _ => given _)).bind fun rest others => ?_
    refine stays_mark.option.bind fun _ _ => stays_character.bind fun _ _ => ?_
    exact .pure (forall_mem_cons.mpr ⟨parts _ rfl, others⟩)

theorem splatPattern_part : (splatPattern a).Yields m (Node.IsPart m) :=
  stays_startOf.bind fun _ _ => stays_oneOf.bind fun _ _ => identifier_part.bind fun _ part =>
    finish_part (by decide) (forall_mem_singleton.mpr part)

theorem patternNumber_part : (patternNumber a follow).Yields m (Node.IsPart m) := by
  refine stays_startOf.bind fun start _ => stays_mark.option.bind fun sign _ => ?_
  refine number_part.bind fun first part => ?_
  exact (Yields.toList (stays_oneOf.bind fun _ _ => number_part)).bind fun second parts =>
    finish_part (by decide) (forall_mem_cons.mpr ⟨part, parts⟩)

theorem dottedName_part : (dottedName a follow).Yields m (Node.IsPart m) :=
  identifier_part.bind fun _ part =>
    (Yields.many (stays_mark.bind fun _ _ => identifier_part)).bind fun _ parts =>
      spanning_part (by decide) (forall_mem_cons.mpr ⟨part, parts⟩)

theorem patternName_part (sound : Rules.Sound m rules) :
    (patternName rules a follow).Yields m (Node.IsPart m) := by
  refine yields_name?.bind fun found _ => ?_
  split
  · exact identifier_part
  · refine dottedName_part.bind fun name part => stays_atMark.bind fun calls _ => ?_
    split
    · exact stays_mark.bind fun _ _ => (itemsUpTo_parts fun _ => sound _).bind fun args parts =>
        spanning_part (by decide) (forall_mem_cons.mpr ⟨part, parts⟩)
    · exact .pure part

theorem patternEntry_part (sound : Rules.Sound m rules) :
    (patternEntry rules a).Yields m (Node.IsPart m) := by
  refine splatPattern_part.option.bind fun found parts => ?_
  split
  · exact .pure (parts _ rfl)
  · refine (sound _).bind fun key part => stays_mark.bind fun _ _ => ?_
    exact (sound _).bind fun value given =>
      spanning_part (by decide) (forall_mem_cons.mpr ⟨part, forall_mem_singleton.mpr given⟩)

theorem simplePattern_part (sound : Rules.Sound m rules) :
    (simplePattern rules a follow).Yields m (Node.IsPart m) := by
  refine yields_peek.bind fun found stands => ?_
  split
  · exact strings_part sound
  · rename_i here
    extract_lets bracketed
    have rows (closer : Char) {item : Admits → Parser Node}
        (given : ∀ a, (item a).Yields m (Node.IsPart m)) :
        (bracketed closer item).Yields m (Node.IsPart m) :=
      (stays_moveTo (stands.advance 1)).bind fun _ _ => (itemsUpTo_parts given).bind
        fun items parts => finish_part (by decide) parts
    split
    · exact rows _ fun _ => sound _
    · exact rows _ fun _ => sound _
    · exact rows _ fun _ => patternEntry_part sound
    · exact splatPattern_part
    · exact splatPattern_part
    · split
      · exact patternNumber_part
      · extract_lets kind
        split
        · exact patternName_part sound
        · exact (stays_moveTo (stands.advance _)).bind fun _ _ =>
            finish_part (wordKind_plain _) nofun
  · exact yields_refuse

theorem patternChoice_part (sound : Rules.Sound m rules) :
    (patternChoice rules first follow).Yields m (Node.IsPart m) := by
  refine (simplePattern_part sound).bind fun head part => ?_
  refine (Yields.many (stays_mark.bind fun _ _ => simplePattern_part sound)).bind
    fun rest parts => ?_
  split
  · exact .pure part
  · exact spanning_part (by decide) (forall_mem_cons.mpr ⟨part, parts⟩)

theorem casePattern_part (sound : Rules.Sound m rules) :
    (casePattern rules first follow).Yields m (Node.IsPart m) := by
  refine keyword?_part.bind fun found named => ?_
  extract_lets behind
  have finished (base : Node) (part : base.IsPart m) : (behind base).Yields m (Node.IsPart m) := by
    refine (Yields.many (stays_word.bind fun _ _ => identifier_part)).bind fun aliases parts => ?_
    split
    · exact .pure part
    · exact spanning_part (by decide) (forall_mem_cons.mpr ⟨part, parts⟩)
  split
  · exact (patternChoice_part sound).bind fun value part => (spanning_part (by decide)
      (forall_mem_cons.mpr ⟨named _ rfl, forall_mem_singleton.mpr part⟩)).bind finished
  · exact (patternChoice_part sound).bind finished

end Parser

end DeployManifest
