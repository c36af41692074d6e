import DeployManifest.Proofs.Tree.Expression
import DeployManifest.Tree.Module

/-! # Reading statements

One lemma for each parser of imports, statements and blocks: it yields a statement, or what may
stand in its place. `ofRule_sound` closes the circle by induction on how deep rules go back to each
other, and `fits_ofText?` says that every tree that is read fits its text.
-/

namespace DeployManifest

open List (forall_mem_nil forall_mem_cons forall_mem_append forall_mem_singleton)

theorem Node.areBranches {m : SourceModule} {nodes : List Node} (parts : ∀ x ∈ nodes, x.IsPart m) :
    ∀ x ∈ nodes, x.IsBranch m :=
  fun x member => (parts x member).branch

namespace Parser

variable {m : SourceModule} {rules : Rules} {a first : Admits} {follow : Follow} {start : Nat}

/-! ### Imports -/

theorem importedName_part : (importedName first follow).Yields m (Node.IsPart m) := by
  refine dottedName_part.bind fun name part => stays_atWord.bind fun renamed _ => ?_
  split
  · refine stays_word.bind fun _ _ => identifier_part.bind fun given other => ?_
    exact spanning_part (by decide)
      (forall_mem_cons.mpr ⟨part.withRole _, forall_mem_singleton.mpr (other.withRole _)⟩)
  · exact .pure (part.withRole _)

theorem importedNames_parts :
    (importedNames follow).Yields m fun names => ∀ x ∈ names, x.IsPart m :=
  importedName_part.bind fun _ part =>
    (Yields.many (stays_mark.bind fun _ _ => importedName_part)).bind fun _ parts =>
      stays_mark.option.bind fun _ _ => .pure (forall_mem_cons.mpr ⟨part, parts⟩)

theorem importedList_parts : importedList.Yields m fun names => ∀ x ∈ names, x.IsPart m := by
  refine stays_character.option.bind fun opened _ => ?_
  split
  · exact importedNames_parts.bind fun names parts => stays_character.bind fun _ _ => .pure parts
  · exact importedNames_parts

theorem importedModule_part : importedModule.Yields m (Node.IsPart m) := by
  refine stays_startOf.bind fun start _ => (Yields.many stays_character).bind fun points _ => ?_
  split
  · exact dottedName_part
  · refine stays_atWord.bind fun bare _ => ?_
    split
    · exact finish_part (by decide) (forall_mem_nil _)
    · exact dottedName_part.bind fun name part =>
        finish_part (by decide) (forall_mem_singleton.mpr part)

theorem importFrom_branch : (importFrom start).Yields m (Node.IsBranch m) := by
  refine stays_atWord.bind fun future _ => ?_
  split
  · exact stays_word.bind fun _ _ => stays_word.bind fun _ _ => importedList_parts.bind
      fun names parts => finish_branch (by decide) (Node.areBranches parts)
  · refine importedModule_part.bind fun module part => stays_word.bind fun _ _ => ?_
    refine stays_atMark.bind fun all _ => ?_
    extract_lets last
    have finished (names : List Node) (parts : ∀ x ∈ names, x.IsPart m) :
        (last names).Yields m (Node.IsBranch m) :=
      finish_branch (by decide) (Node.areBranches (forall_mem_cons.mpr ⟨part.withRole _, parts⟩))
    split
    · exact stays_startOf.bind fun here _ => stays_mark.bind fun _ _ =>
        (finish_part (by decide) (forall_mem_nil _)).bind fun every whole =>
          Yields.bind (.pure (forall_mem_singleton.mpr whole)) finished
    · exact importedList_parts.bind finished

/-! ### Assignments -/

theorem assignmentTo_branch (sound : Rules.Sound m rules) {left : Node} (part : left.IsPart m) :
    (assignmentTo rules left).Yields m (Node.IsBranch m) := by
  have value : (rules .rightSide).Yields m fun right => (right.withRole .right).IsBranch m :=
    (sound .rightSide).mono fun _ branch => Node.IsBranch.withRole branch (by decide)
  refine yields_token.bind fun here stands => ?_
  extract_lets sign
  have behind (count : Nat) := stays_moveTo (stands.advance count)
  -- A target stands to the left, and so is not taken for the value.
  have noValue (target : Node) : (target.withRole .left).role ≠ .right := by
    rw [Node.role_withRole]
    decide
  split
  · exact (asTarget_part part).bind fun target given => (behind _).bind fun _ _ =>
      value.bind fun right branch =>
        spanning_assignment (forall_mem_singleton.mpr (given.withRole _))
          (forall_mem_singleton.mpr (noValue target)) (forall_mem_singleton.mpr branch)
          (forall_mem_singleton.mpr (Node.role_withRole ..)) le_rfl
  split
  · refine (asTarget_part part).bind fun target given => (behind _).bind fun _ _ => ?_
    refine (sound _).bind fun annotation type => ?_
    have parts : ∀ x ∈ [target.withRole .left, annotation], x.IsPart m :=
      forall_mem_cons.mpr ⟨given.withRole _, forall_mem_singleton.mpr type.1⟩
    have others : ∀ x ∈ [target.withRole .left, annotation], x.role ≠ .right :=
      forall_mem_cons.mpr ⟨noValue target, forall_mem_singleton.mpr (by rw [type.2]; decide)⟩
    refine stays_atMark.bind fun assigned _ => ?_
    split
    · exact stays_mark.bind fun _ _ => value.bind fun right branch =>
        spanning_assignment parts others (forall_mem_singleton.mpr branch)
          (forall_mem_singleton.mpr (Node.role_withRole ..)) le_rfl
    · exact spanning_assignment parts others (forall_mem_nil _) (forall_mem_nil _) (Nat.zero_le 1)
  split
  · exact (asTarget_part part).bind fun target given => (behind _).bind fun _ _ =>
      value.bind fun right branch => spanning_branch (by decide) (forall_mem_cons.mpr
        ⟨(given.withRole _).branch, forall_mem_singleton.mpr branch⟩)
  · exact yields_refuse

theorem rightSide_branch (sound : Rules.Sound m rules) :
    (rightSide rules).Yields m (Node.IsBranch m) := by
  refine stays_atWord.bind fun yields _ => ?_
  split
  · exact (yield_part sound).mono fun _ => Node.IsPart.branch
  · refine (expressions_part sound).bind fun value part => ?_
    refine (assignmentTo_branch sound part).option.bind fun found branch => ?_
    split
    · exact .pure (branch _ rfl)
    · exact .pure part.branch

theorem expressionStatement_branch (sound : Rules.Sound m rules) :
    (expressionStatement rules first).Yields m (Node.IsBranch m) := by
  have wraps {n : Node} (branch : n.IsBranch m) :
      (spanning .expressionStatement [n]).Yields m (Node.IsBranch m) :=
    spanning_branch (by decide) (forall_mem_singleton.mpr branch)
  refine stays_atWord.bind fun yields _ => ?_
  split
  · exact (yield_part sound).bind fun value part => wraps part.branch
  · refine (expressions_part sound).bind fun value part => ?_
    refine (assignmentTo_branch sound part).option.bind fun found branch => ?_
    split
    · exact wraps (branch _ rfl)
    · exact wraps part.branch

/-! ### Simple statements -/

theorem stays_statementEnd : statementEnd.Stays m := by
  refine yields_peek.bind fun found _ => ?_
  split
  · exact .pure trivial
  · split
    · exact .pure trivial
    · exact yields_refuse
  · exact yields_refuse

theorem Yields.whole {p : Parser Node} {Q : Node → Prop} (yields : p.Yields m Q) :
    (Parser.whole p).Yields m Q :=
  yields.bind fun _ holds => stays_statementEnd.bind fun _ _ => .pure holds

theorem valueList_parts (sound : Rules.Sound m rules) :
    (valueList rules follow).Yields m fun values => ∀ x ∈ values, x.IsPart m :=
  (sound _).bind fun _ part => (Yields.many (stays_mark.bind fun _ _ => sound _)).bind
    fun _ parts => .pure (forall_mem_cons.mpr ⟨part, parts⟩)

theorem printed_branch (sound : Rules.Sound m rules) :
    (printed rules start).Yields m (Node.IsBranch m) := by
  refine stays_atMark.bind fun redirected _ => ?_
  extract_lets behind
  have finished (target : List Node) (parts : ∀ x ∈ target, x.IsPart m) :
      (behind target).Yields m (Node.IsBranch m) :=
    (Yields.many (stays_mark.bind fun _ _ => sound _)).bind fun rest others =>
      stays_mark.option.bind fun _ _ => finish_branch (by decide)
        (Node.areBranches (forall_mem_append.mpr ⟨parts, others⟩))
  split
  · exact stays_mark.bind fun _ _ => (sound _).bind fun target part =>
      Yields.bind (.pure (forall_mem_singleton.mpr part)) finished
  · exact (sound _).bind fun target part =>
      Yields.bind (.pure (forall_mem_singleton.mpr part)) finished

theorem executed_branch (sound : Rules.Sound m rules) :
    (executed rules start).Yields m (Node.IsBranch m) := by
  refine (Yields.or ((string_part sound).mono fun _ => And.right) identifier_part).bind
    fun code part => stays_atWord.bind fun within _ => ?_
  split
  · exact stays_word.bind fun _ _ => (valueList_parts sound).bind fun values parts =>
      finish_branch (by decide) (Node.areBranches (forall_mem_cons.mpr ⟨part, parts⟩))
  · exact finish_branch (by decide) (forall_mem_singleton.mpr part.branch)

theorem typeAlias_branch (sound : Rules.Sound m rules) :
    (typeAlias rules start).Yields m (Node.IsBranch m) :=
  (sound _).bind fun _ part => stays_mark.bind fun _ _ => (sound _).bind fun _ other =>
    finish_branch (by decide)
      (forall_mem_cons.mpr ⟨part.1.branch, forall_mem_singleton.mpr other.1.branch⟩)

theorem plainNames_parts : plainNames.Yields m fun names => ∀ x ∈ names, x.IsPart m :=
  identifier_part.bind fun _ part => (Yields.many (stays_mark.bind fun _ _ => identifier_part)).bind
    fun _ parts => .pure (forall_mem_cons.mpr ⟨part, parts⟩)

theorem optionalValue_parts (sound : Rules.Sound m rules) :
    (optionalValue rules).Yields m fun values => ∀ x ∈ values, x.IsPart m :=
  (expressions_part sound).toList.bind fun _ parts => .pure parts

theorem raisedValue_part (sound : Rules.Sound m rules) :
    (raisedValue rules).Yields m (Node.IsPart m) := by
  refine stays_noWord.bind fun _ _ => (sound _).bind fun head part => ?_
  refine (Yields.many (stays_mark.bind fun _ _ => stays_noWord.bind fun _ _ => sound _)).bind
    fun rest parts => stays_mark.option.bind fun comma _ => ?_
  split
  · exact .pure part
  · exact spanning_part (by decide) (forall_mem_cons.mpr ⟨part, parts⟩)

theorem raised_branch (sound : Rules.Sound m rules) :
    (raised rules start).Yields m (Node.IsBranch m) := by
  refine (raisedValue_part sound).toList.bind fun value parts => ?_
  refine stays_atWord.bind fun caused _ => ?_
  split
  · exact stays_word.bind fun _ _ => (sound _).bind fun cause part => finish_branch (by decide)
      (Node.areBranches (forall_mem_append.mpr ⟨parts, forall_mem_singleton.mpr part⟩))
  · exact finish_branch (by decide) (Node.areBranches parts)

theorem keywordStatement?_branch (sound : Rules.Sound m rules) {word : String} {p : Parser Node}
    (found : keywordStatement? rules start word = some p) : p.Yields m (Node.IsBranch m) := by
  unfold keywordStatement? at found
  split at found
  · cases found
    exact importedNames_parts.bind fun names parts =>
      finish_branch (by decide) (Node.areBranches parts)
  · cases found
    exact importFrom_branch
  · cases found
    exact (valueList_parts sound).bind fun values parts =>
      finish_branch (by decide) (Node.areBranches parts)
  · cases found
    exact (optionalValue_parts sound).bind fun values parts =>
      finish_branch (by decide) (Node.areBranches parts)
  · cases found
    exact (expressions_part sound).bind fun value part =>
      finish_branch (by decide) (forall_mem_singleton.mpr part.branch)
  · cases found
    exact raised_branch sound
  · cases found
    exact finish_branch (by decide) (forall_mem_nil _)
  · cases found
    exact finish_branch (by decide) (forall_mem_nil _)
  · cases found
    exact finish_branch (by decide) (forall_mem_nil _)
  · cases found
    exact plainNames_parts.bind fun names parts =>
      finish_branch (by decide) (Node.areBranches parts)
  · cases found
    exact plainNames_parts.bind fun names parts =>
      finish_branch (by decide) (Node.areBranches parts)
  · cases found

theorem simple_branch (sound : Rules.Sound m rules) :
    (simple rules first).Yields m (Node.IsBranch m) := by
  have expression : (expressionStatement rules first).Yields m (Node.IsBranch m) :=
    expressionStatement_branch sound
  refine yields_name?.bind fun found stands => ?_
  split
  · exact expression
  · rename_i word behind
    refine stays_startOf.bind fun start _ => ?_
    extract_lets after
    have moved {p : Parser Node} (yields : p.Yields m (Node.IsBranch m)) :
        (after p).Yields m (Node.IsBranch m) :=
      (stays_moveTo (stands _ rfl)).bind fun _ _ => yields
    split
    · rename_i keyword
      exact moved (keywordStatement?_branch sound keyword)
    · split
      · exact expression.whole.or (moved (printed_branch sound))
      · exact expression.whole.or (moved (executed_branch sound))
      · exact (moved (typeAlias_branch sound)).whole.or expression
      · exact expression

theorem simpleLine_branch (sound : Rules.Sound m rules) :
    (simpleLine rules first).Yields m (Node.IsBranch m) := by
  refine (simple_branch sound).bind fun head branch => ?_
  refine (Yields.many (stays_mark.bind fun _ _ => simple_branch sound)).bind fun rest others => ?_
  refine stays_mark.option.bind fun _ _ => stays_newline.bind fun _ _ => ?_
  split
  · exact .pure branch
  · exact spanning_branch (by decide) (forall_mem_cons.mpr ⟨branch, others⟩)

/-! ### Blocks and clauses -/

theorem block_branch (sound : Rules.Sound m rules) :
    (block rules start).Yields m (Node.IsBranch m) := by
  refine (sound (.statement true)).oneOrMore.bind fun statements branches => ?_
  refine yields_peek.bind fun found stands => ?_
  split
  · exact (stays_moveTo stands).bind fun _ _ => finish_branch (by decide) branches
  · exact yields_refuse

theorem suite_branch (sound : Rules.Sound m rules) : (suite rules).Yields m (Node.IsBranch m) := by
  refine yields_peek.bind fun found stands => ?_
  split
  · exact (stays_moveTo stands).bind fun _ _ => stays_offset.bind fun _ _ => block_branch sound
  · exact yields_refuse
  · exact simpleLine_branch sound

theorem body_branch (sound : Rules.Sound m rules) : (body rules).Yields m (Node.IsBranch m) :=
  stays_mark.bind fun _ _ => sound _

theorem clause_branch (sound : Rules.Sound m rules) {kind : NodeKind} {keyword : String}
    (statement : kind ∈ NodeKind.holders) :
    (clause rules kind a keyword).Yields m (Node.IsBranch m) :=
  stays_startOf.bind fun _ _ => stays_word.bind fun _ _ => (body_branch sound).bind
    fun _ content => finish_branch statement (forall_mem_singleton.mpr content)

theorem guarded_branches (sound : Rules.Sound m rules) :
    (guarded rules).Yields m fun parts => ∀ x ∈ parts, x.IsBranch m :=
  (sound _).bind fun _ condition => (body_branch sound).bind fun _ content =>
    .pure (forall_mem_cons.mpr ⟨Node.IsPart.branch condition, forall_mem_singleton.mpr content⟩)

theorem elifClause_branch (sound : Rules.Sound m rules) :
    (elifClause rules a).Yields m (Node.IsBranch m) :=
  stays_startOf.bind fun _ _ => stays_word.bind fun _ _ => (guarded_branches sound).bind
    fun _ branches => finish_branch (by decide) branches

theorem elseClause?_branches (sound : Rules.Sound m rules) :
    (elseClause? rules a).Yields m fun clauses => ∀ x ∈ clauses, x.IsBranch m := by
  refine stays_atWord.bind fun otherwise _ => ?_
  split
  · exact (clause_branch sound (by decide)).bind fun _ branch =>
      .pure (forall_mem_singleton.mpr branch)
  · exact .pure (forall_mem_nil _)

theorem ifStatement_branch (sound : Rules.Sound m rules) {after : Admits} :
    (ifStatement rules after start).Yields m (Node.IsBranch m) := by
  refine (guarded_branches sound).bind fun head branches => ?_
  refine (elifClause_branch sound).many.bind fun others more => stays_noWord.bind fun _ _ => ?_
  exact (elseClause?_branches sound).bind fun otherwise last => finish_branch (by decide)
    (forall_mem_append.mpr ⟨forall_mem_append.mpr ⟨branches, more⟩, last⟩)

theorem whileStatement_branch (sound : Rules.Sound m rules) {after : Admits} :
    (whileStatement rules after start).Yields m (Node.IsBranch m) :=
  (guarded_branches sound).bind fun _ branches => (elseClause?_branches sound).bind
    fun _ last => finish_branch (by decide) (forall_mem_append.mpr ⟨branches, last⟩)

theorem forStatement_branch (sound : Rules.Sound m rules) {after : Admits} :
    (forStatement rules after start).Yields m (Node.IsBranch m) := by
  refine (loopTargets_part sound).bind fun left target => stays_word.bind fun _ _ => ?_
  refine (expressions_part sound).bind fun right values => ?_
  refine (body_branch sound).bind fun content branch => ?_
  refine (elseClause?_branches sound).bind fun otherwise last => finish_branch (by decide) ?_
  exact forall_mem_append.mpr ⟨forall_mem_cons.mpr ⟨(target.withRole _).branch,
    forall_mem_cons.mpr ⟨(values.withRole _).branch, forall_mem_singleton.mpr branch⟩⟩, last⟩

theorem exceptClause_branch (sound : Rules.Sound m rules) :
    (exceptClause rules a).Yields m (Node.IsBranch m) := by
  refine stays_startOf.bind fun start _ => stays_word.bind fun _ _ => ?_
  refine stays_atMark.bind fun bare _ => ?_
  extract_lets behind
  have finished (caught : List Node) (parts : ∀ x ∈ caught, x.IsPart m) :
      (behind caught).Yields m (Node.IsBranch m) :=
    (body_branch sound).bind fun content branch => finish_branch (by decide)
      (forall_mem_append.mpr ⟨Node.areBranches parts, forall_mem_singleton.mpr branch⟩)
  split
  · exact Yields.bind (.pure (forall_mem_nil _)) finished
  · refine (sound _).bind fun first part => stays_atMark.bind fun named _ => ?_
    split
    · exact stays_mark.bind fun _ _ => (sound _).bind fun second other => Yields.bind
        (.pure (forall_mem_cons.mpr ⟨part, forall_mem_singleton.mpr other⟩)) finished
    · exact Yields.bind (.pure (forall_mem_singleton.mpr part)) finished

theorem stays_atExceptGroup : (atExceptGroup a).Stays m := by
  refine yields_peek.bind fun found _ => ?_
  split <;> exact .pure trivial

theorem exceptGroupClause_branch (sound : Rules.Sound m rules) :
    (exceptGroupClause rules a).Yields m (Node.IsBranch m) := by
  refine yields_token.bind fun here stands => ?_
  split
  · exact (stays_moveTo (stands.advance _)).bind fun _ _ => (guarded_branches sound).bind
      fun _ branches => finish_branch (by decide) branches
  · exact yields_refuse

theorem finallyClause?_branches (sound : Rules.Sound m rules) :
    (finallyClause? rules a).Yields m fun clauses => ∀ x ∈ clauses, x.IsBranch m := by
  refine stays_atWord.bind fun always _ => ?_
  split
  · exact (clause_branch sound (by decide)).bind fun _ branch =>
      .pure (forall_mem_singleton.mpr branch)
  · exact .pure (forall_mem_nil _)

theorem tryStatement_branch (sound : Rules.Sound m rules) {inBlock : Bool} :
    (tryStatement rules inBlock start).Yields m (Node.IsBranch m) := by
  refine (body_branch sound).bind fun content branch => ?_
  -- The handlers of both kinds are followed by the same two clauses.
  have ends {b : Admits} {first : Node} {rest : List Node} (handler : first.IsBranch m)
      (handlers : ∀ x ∈ rest, x.IsBranch m) : (do
        let otherwise ← elseClause? rules b
        let last ← finallyClause? rules (.statement inBlock)
        finish .tryStatement start (content :: first :: rest ++ otherwise ++ last) :
          Parser Node).Yields m (Node.IsBranch m) :=
    (elseClause?_branches sound).bind fun _ otherwise => (finallyClause?_branches sound).bind
      fun _ last => finish_branch (by decide) (forall_mem_append.mpr ⟨forall_mem_append.mpr
        ⟨forall_mem_cons.mpr ⟨branch, forall_mem_cons.mpr ⟨handler, handlers⟩⟩, otherwise⟩, last⟩)
  refine stays_atExceptGroup.bind fun groups _ => ?_
  split
  · exact (exceptGroupClause_branch sound).bind fun first handler =>
      (exceptGroupClause_branch sound).many.bind fun rest handlers => ends handler handlers
  refine stays_atWord.bind fun handles _ => ?_
  split
  · exact (exceptClause_branch sound).bind fun first handler =>
      (exceptClause_branch sound).many.bind fun rest handlers => stays_noWord.bind fun _ _ =>
        ends handler handlers
  · exact (clause_branch sound (by decide)).bind fun last final => finish_branch (by decide)
      (forall_mem_cons.mpr ⟨branch, forall_mem_singleton.mpr final⟩)

theorem withStatement_branch (sound : Rules.Sound m rules) :
    (withStatement rules start).Yields m (Node.IsBranch m) := by
  refine (sound _).bind fun first part => ?_
  refine (Yields.many (stays_mark.bind fun _ _ => sound _)).bind fun rest parts => ?_
  refine stays_mark.option.bind fun _ _ => (body_branch sound).bind fun content branch => ?_
  exact finish_branch (by decide) (forall_mem_append.mpr
    ⟨Node.areBranches (forall_mem_cons.mpr ⟨part, parts⟩), forall_mem_singleton.mpr branch⟩)

/-! ### Functions, classes and choices -/

/-- Types, arguments or results that may be missing. -/
theorem optionalPart {p : Parser Node} {f : List Node → Parser Node} {present : Bool}
    (yields : p.Yields m (Node.IsPart m))
    (next : ∀ nodes : List Node, (∀ x ∈ nodes, x.IsPart m) → (f nodes).Yields m (Node.IsBranch m)) :
    (if present then do
      let n ← p
      let nodes ← pure [n]
      f nodes
    else do
      let nodes ← pure []
      f nodes : Parser Node).Yields m (Node.IsBranch m) := by
  split
  · exact yields.bind fun n part => Yields.bind (.pure (forall_mem_singleton.mpr part)) next
  · exact Yields.bind (.pure (forall_mem_nil _)) next

theorem functionDefinition_branch (sound : Rules.Sound m rules) :
    (functionDefinition rules start).Yields m (Node.IsBranch m) := by
  refine identifier_part.bind fun name part => stays_atMark.bind fun generic _ => ?_
  refine optionalPart (typeParameters_part sound) fun types typed => ?_
  refine (parameters_part sound).bind fun params given => stays_atMark.bind fun returns _ => ?_
  extract_lets last
  have finished (result : List Node) (parts : ∀ x ∈ result, x.IsPart m) :
      (last result).Yields m (Node.IsBranch m) := by
    refine (body_branch sound).bind fun content branch => finish_branch (by decide) ?_
    exact forall_mem_append.mpr ⟨Node.areBranches (forall_mem_append.mpr
      ⟨forall_mem_cons.mpr ⟨part.withRole _, typed⟩, forall_mem_cons.mpr ⟨given, parts⟩⟩),
      forall_mem_singleton.mpr branch⟩
  split
  · exact stays_mark.bind fun _ _ => (sound _).bind fun result type =>
      Yields.bind (.pure (forall_mem_singleton.mpr type.1)) finished
  · exact Yields.bind (.pure (forall_mem_nil _)) finished

theorem classDefinition_branch (sound : Rules.Sound m rules) :
    (classDefinition rules start).Yields m (Node.IsBranch m) := by
  refine identifier_part.bind fun name part => stays_atMark.bind fun generic _ => ?_
  refine optionalPart (typeParameters_part sound) fun types typed => ?_
  refine stays_atMark.bind fun derives _ => ?_
  refine optionalPart (argumentsAt_part sound) fun args given => ?_
  refine (body_branch sound).bind fun content branch => finish_branch (by decide) ?_
  exact forall_mem_append.mpr ⟨Node.areBranches (forall_mem_append.mpr
    ⟨forall_mem_cons.mpr ⟨part.withRole _, typed⟩, given⟩), forall_mem_singleton.mpr branch⟩

theorem caseClause_branch (sound : Rules.Sound m rules) :
    (caseClause rules).Yields m (Node.IsBranch m) := by
  refine stays_startOf.bind fun start _ => stays_word.bind fun _ _ => ?_
  refine (sound _).bind fun first part => ?_
  refine (Yields.many (stays_mark.bind fun _ _ => stays_noWord.bind fun _ _ => sound _)).bind
    fun rest parts => stays_mark.option.bind fun _ _ => stays_atWord.bind fun guarded _ => ?_
  refine optionalPart (ifClause_part sound) fun guard tests => ?_
  refine (body_branch sound).bind fun content branch => finish_branch (by decide) ?_
  exact forall_mem_append.mpr ⟨Node.areBranches (forall_mem_append.mpr
    ⟨forall_mem_cons.mpr ⟨part, parts⟩, tests⟩), forall_mem_singleton.mpr branch⟩

theorem matchStatement_branch (sound : Rules.Sound m rules) :
    (matchStatement rules start).Yields m (Node.IsBranch m) := by
  refine (sound _).bind fun first part => ?_
  refine (Yields.many (stays_mark.bind fun _ _ => sound _)).bind fun rest parts => ?_
  refine stays_mark.option.bind fun _ _ => stays_mark.bind fun _ _ => ?_
  refine yields_peek.bind fun found stands => ?_
  split
  · refine (stays_moveTo stands).bind fun _ _ => (caseClause_branch sound).oneOrMore.bind
      fun cases branches => yields_peek.bind fun found stands => ?_
    split
    · exact (stays_moveTo stands).bind fun _ _ => finish_branch (by decide) (forall_mem_append.mpr
        ⟨Node.areBranches (forall_mem_cons.mpr ⟨part, parts⟩), branches⟩)
    · exact yields_refuse
  · exact yields_refuse

theorem definition_branch (sound : Rules.Sound m rules) :
    (definition rules a).Yields m (Node.IsBranch m) := by
  refine stays_startOf.bind fun start _ => yields_name?.bind fun found stands => ?_
  split
  · exact (stays_moveTo (stands _ rfl)).bind fun _ _ => functionDefinition_branch sound
  · exact (stays_moveTo (stands _ rfl)).bind fun _ _ => classDefinition_branch sound
  · exact (stays_moveTo (stands _ rfl)).bind fun _ _ => stays_word.bind fun _ _ =>
      functionDefinition_branch sound
  · exact yields_refuse

theorem decorator_branch (sound : Rules.Sound m rules) :
    (decorator rules a).Yields m (Node.IsBranch m) :=
  stays_startOf.bind fun _ _ => stays_character.bind fun _ _ => (sound _).bind fun _ part =>
    (finish_decorator (forall_mem_singleton.mpr part)).bind
      fun _ branch => stays_newline.bind fun _ _ => .pure branch

theorem decoratedDefinition_branch (sound : Rules.Sound m rules) :
    (decoratedDefinition rules a).Yields m (Node.IsBranch m) := by
  refine (decorator_branch sound).bind fun first branch => ?_
  refine (decorator_branch sound).many.bind fun rest others => ?_
  refine (definition_branch sound).bind fun inner defined => spanning_branch (by decide) ?_
  exact forall_mem_append.mpr ⟨forall_mem_cons.mpr ⟨branch, others⟩,
    forall_mem_singleton.mpr (defined.withRole (by decide))⟩

/-! ### Statements and modules -/

theorem compound?_branch (sound : Rules.Sound m rules) {inBlock : Bool} {word : String}
    {p : Parser Node} (found : compound? rules inBlock start word = some p) :
    p.Yields m (Node.IsBranch m) := by
  unfold compound? at found
  split at found <;> cases found
  · exact ifStatement_branch sound
  · exact whileStatement_branch sound
  · exact forStatement_branch sound
  · exact tryStatement_branch sound
  · exact withStatement_branch sound
  · exact functionDefinition_branch sound
  · exact classDefinition_branch sound

theorem asyncStatement_branch (sound : Rules.Sound m rules) {inBlock : Bool} :
    (asyncStatement rules inBlock start).Yields m (Node.IsBranch m) := by
  refine yields_name?.bind fun found stands => ?_
  split
  · split
    · split
      · rename_i compound
        exact (stays_moveTo (stands _ rfl)).bind fun _ _ => compound?_branch sound compound
      · exact yields_refuse
    · exact yields_refuse
  · exact yields_refuse

theorem statement_branch (sound : Rules.Sound m rules) {inBlock : Bool} :
    (statement rules inBlock).Yields m (Node.IsBranch m) := by
  refine stays_atMark.bind fun decorated _ => ?_
  split
  · exact decoratedDefinition_branch sound
  refine yields_name?.bind fun found stands => ?_
  split
  · exact simpleLine_branch sound
  · rename_i word behind
    refine stays_startOf.bind fun start _ => ?_
    extract_lets after
    have moved {p : Parser Node} (yields : p.Yields m (Node.IsBranch m)) :
        (after p).Yields m (Node.IsBranch m) :=
      (stays_moveTo (stands _ rfl)).bind fun _ _ => yields
    split
    · rename_i compound
      exact moved (compound?_branch sound compound)
    · split
      · exact (moved (matchStatement_branch sound)).or (simpleLine_branch sound)
      · exact (moved (asyncStatement_branch sound)).or (simpleLine_branch sound)
      · exact simpleLine_branch sound

/-- A rule yields what it should if the rules that it goes back to do. -/
theorem step_sound (sound : Rules.Sound m rules) : Rules.Sound m (step rules)
  | .expression _ _ _ => expression_part sound
  | .negation _ _ => negation_part sound (lambdaParameter_part sound)
  | .unary _ _ => unary_part sound
  | .interpolation => interpolation_part sound
  | .typeNode _ _ _ => typeNode_part sound
  | .casePattern _ _ => casePattern_part sound
  | .patternChoice _ _ => patternChoice_part sound
  | .rightSide => rightSide_branch sound
  | .statement _ => statement_branch sound
  | .suite => suite_branch sound

theorem ofRule_sound (m : SourceModule) (fuel : Nat) : Rules.Sound m (ofRule fuel) := by
  induction fuel with
  | zero => exact fun _ => yields_refuse
  | succ fuel ih => exact step_sound ih

theorem wholeModule_branch (sound : Rules.Sound m rules) :
    (wholeModule rules).Yields m (Node.IsBranch m) := by
  refine (sound (.statement false)).many.bind fun statements branches => ?_
  refine yields_token.bind fun here _ => ?_
  split
  · exact .pure (Node.isBranch_mk (by decide) (by decide) branches)
  · exact yields_refuse

end Parser

/-- Every tree that is read fits its text. -/
theorem Node.fits_ofText? {m : SourceModule} {tree : Node} (read : ofText? m.text = some tree) :
    tree.Fits m := by
  obtain ⟨⟨_, c⟩, parsed, rfl⟩ := Option.map_eq_some_iff.mp read
  exact (Parser.wholeModule_branch (Parser.ofRule_sound m _) _ _ c (Cursor.standsIn_ofText m)
    parsed).2.fits

end DeployManifest
