import DeployManifest.Proofs.Span.Parameter
import DeployManifest.Tree.Module

/-! # Where statements lie

A statement lies behind the front, from its first word or part to where its last line ends. One step
of the rules keeps what they read in its place (`Parser.inPlace_step`), so at any depth they do
(`Parser.inPlace_ofRule`), and the tree of a text lies in it (`Node.liesIn_ofText?`).
-/

namespace DeployManifest

namespace Parser

variable {m : SourceModule} {rules : Rules} {a first : Admits} {follow : Follow} {c : Cursor}
  {start low high : Nat}

/-! ### Imports -/

theorem importedName_spans : (importedName first follow).Spans m c := by
  refine dottedName_spans.bind fun name c1 _ lies => .bind_keeps keeps_atWord fun renamed => ?_
  split
  · refine passes_word.bind fun _ c2 _ _ => identifier_spans.bind fun given c3 _ other => ?_
    exact spanning_spans (.cons (lies.withRole _)
      (.single (other.withRole _) ⟨le_rfl, le_rfl⟩) (by omega))
  · exact .pure (lies.withRole _)

theorem importedNames_fills : (importedNames follow).Fills m c := by
  refine importedName_spans.bind fun first c1 _ lies => ?_
  refine (rows_manyMarked fun _ => importedName_spans).bind fun rest c2 _ rows => ?_
  refine passes_mark.follows_option.bind fun _ c3 _ _ => ?_
  exact .pure ⟨by omega, .cons lies rows.2 (by omega)⟩

theorem importedList_fills : importedList.Fills m c := by
  refine passes_character.follows_option.bind fun opened c1 _ _ => ?_
  split
  · refine importedNames_fills.bind fun names c2 _ rows => passes_character.bind fun _ c3 _ _ => ?_
    exact .pure ⟨by omega, rows.2.mono (by omega)⟩
  · exact importedNames_fills.mono fun _ _ _ _ rows => ⟨by omega, rows.2.mono (by omega)⟩

theorem importedModule_spans : importedModule.Spans m c := by
  refine bind_startOf fun bound => (passes_many fun _ => passes_character).bind
    fun points c1 _ past => ?_
  split
  · exact dottedName_spans.mono fun _ _ _ _ lies => lies.mono (by omega)
  · rename_i some
    have passed := past.2 some
    refine .bind_keeps keeps_atWord fun bare => ?_
    split
    · exact finish_spans bound (by omega) .nil
    · refine dottedName_spans.bind fun name c2 _ lies => ?_
      exact finish_spans bound (by omega) (.single lies (by omega))

theorem importFrom_spans (bound : m.IsBoundary start) (le : start ≤ c.offset) :
    (importFrom start).SpansFrom m start c := by
  have front := c.offset_le_front
  refine .bind_keeps keeps_atWord fun future => ?_
  split
  · refine passes_word.bind fun _ c1 _ _ => passes_word.bind fun _ c2 _ _ => ?_
    refine importedList_fills.bind fun names c3 _ rows => ?_
    exact finish_spans bound (by omega) (rows.2.mono (by omega))
  · refine importedModule_spans.bind fun module c1 _ lies => passes_word.bind fun _ c2 _ _ => ?_
    refine .bind_keeps keeps_atMark fun all => ?_
    extract_lets last
    have finished {names : List Node} {c3 : Cursor} (moved : c2.offset ≤ c3.offset)
        (row : m.Row c2.front c3.offset names) :
        (last names).SpansFrom m start c3 :=
      finish_spans bound (by omega) (.cons (lies.withRole _) row (by omega))
    split
    · refine bind_startOf fun here => passes_mark.bind fun _ c3 _ _ => ?_
      refine (finish_spans here ⟨le_rfl, by omega⟩ .nil).bind fun every c4 _ whole => ?_
      exact finished (by omega) (.single whole ⟨le_rfl, le_rfl⟩)
    · exact importedList_fills.bind fun _ _ moved row => finished moved.1 row.2

/-! ### Assignments -/

theorem assignmentTo_spans (inPlace : rules.InPlace m) {left : Node} (lies : left.Spans m low high)
    (before : high ≤ c.offset) :
    (assignmentTo rules left).SpansFrom m low c := by
  refine bind_token fun there tracks starts => ?_
  extract_lets sign
  -- A target, a mark and what is read behind it.
  have targeted {f : Node → Parser Node} (count : Nat)
      (next : ∀ target here, high ≤ here.front → target.Spans m low high →
        (f target).SpansFrom m low here) :
      (do
        let target ← asTarget left
        moveTo (there.advance count)
        f target : Parser Node).SpansFrom m low c := by
    refine (asTarget_reads lies).bind fun target here _ found => ?_
    obtain ⟨rfl, lies⟩ := found
    exact (passes_advance tracks starts count).bind fun _ here _ _ =>
      next target here (by omega) lies
  have assigned {kind : NodeKind} (target : Node) (here : Cursor) (after : high ≤ here.front)
      (lies : target.Spans m low high) : (do
        let right ← rules .rightSide
        spanning kind [target.withRole .left, right.withRole .right] :
          Parser Node).SpansFrom m low here := by
    refine inPlace.rightSide.bind fun right c1 _ given => ?_
    exact spanning_spans (.cons (lies.withRole _)
      (.single (given.withRole _) ⟨le_rfl, le_rfl⟩) (by omega))
  split
  · exact targeted _ assigned
  split
  · refine targeted _ fun target here after lies => ?_
    refine inPlace.typeNode.bind fun type c1 _ limits => ?_
    refine .bind_keeps keeps_atMark fun valued => ?_
    split
    · refine passes_mark.bind fun _ c2 _ _ => inPlace.rightSide.bind fun right c3 _ given => ?_
      have behind : m.Row here.front c3.offset [type, right.withRole .right] :=
        .cons limits (.single (given.withRole _) ⟨le_rfl, le_rfl⟩) (by omega)
      exact spanning_spans (.cons (lies.withRole _) behind (by omega))
    · exact spanning_spans (.cons (lies.withRole _) (.single limits ⟨le_rfl, le_rfl⟩) (by omega))
  split
  · exact targeted _ assigned
  · exact reads_refuse

theorem rightSide_spans (inPlace : rules.InPlace m) : (rightSide rules).Spans m c := by
  refine .bind_keeps keeps_atWord fun yields => ?_
  split
  · exact yield_spans inPlace
  · refine (expressions_spans inPlace).bind fun value c1 _ lies => ?_
    exact (assignmentTo_spans inPlace lies le_rfl).bind_option (fun _ _ _ lies => .pure lies)
      (.pure lies)

theorem expressionStatement_spans (inPlace : rules.InPlace m) :
    (expressionStatement rules first).Spans m c := by
  have wraps {n : Node} {here : Cursor} (lies : n.Spans m c.front here.offset) :
      (spanning .expressionStatement [n]).SpansFrom m c.front here :=
    spanning_spans (.single lies ⟨le_rfl, le_rfl⟩)
  refine .bind_keeps keeps_atWord fun yields => ?_
  split
  · exact (yield_spans inPlace).bind fun _ _ _ => wraps
  · refine (expressions_spans inPlace).bind fun value c1 _ lies => ?_
    exact (assignmentTo_spans inPlace lies le_rfl).bind_option (fun _ _ _ => wraps) (wraps lies)

/-! ### Simple statements -/

theorem keeps_statementEnd : statementEnd.Keeps := by
  refine keeps_peek.bind fun found => ?_
  split
  · exact .pure
  · split
    · exact .pure
    · exact keeps_refuse
  · exact keeps_refuse

theorem ReadsFrom.whole {p : Parser Node} (spans : p.Spans m c) : (Parser.whole p).Spans m c :=
  spans.bind fun _ _ _ lies => .bind_keeps keeps_statementEnd fun _ => .pure lies

theorem valueList_fills (inPlace : rules.InPlace m) : (valueList rules follow).Fills m c := by
  refine inPlace.expression.bind fun first c1 _ lies => ?_
  refine (rows_manyMarked fun _ => inPlace.expression).bind fun rest c2 _ rows => ?_
  exact .pure ⟨by omega, .cons lies rows.2 (by omega)⟩

theorem printed_spans (inPlace : rules.InPlace m) (bound : m.IsBoundary start)
    (le : start ≤ c.offset) :
    (printed rules start).SpansFrom m start c := by
  have front := c.offset_le_front
  refine .bind_keeps keeps_atMark fun redirected => ?_
  extract_lets behind
  have finished {target : Node} {c1 : Cursor} (lies : target.Spans m c.front c1.offset) :
      (behind [target]).SpansFrom m start c1 := by
    have after := c1.offset_le_front
    refine (rows_manyMarked fun _ => inPlace.expression).bind fun rest c2 _ rows => ?_
    refine passes_mark.follows_option.bind fun _ c3 _ _ => ?_
    exact finish_spans bound (by omega) (.cons lies rows.2 (by omega))
  split
  · refine passes_mark.bind fun _ c1 _ _ => inPlace.expression.bind fun target c2 _ lies => ?_
    exact finished (lies.mono (by omega))
  · exact inPlace.expression.bind fun _ _ _ => finished

theorem executed_spans (inPlace : rules.InPlace m) (bound : m.IsBoundary start)
    (le : start ≤ c.offset) :
    (executed rules start).SpansFrom m start c := by
  have front := c.offset_le_front
  refine ((string_spans inPlace).or identifier_spans).bind fun code c1 _ lies => ?_
  refine .bind_keeps keeps_atWord fun within => ?_
  split
  · refine passes_word.bind fun _ c2 _ _ => ?_
    refine (valueList_fills inPlace).bind fun values c3 _ rows => ?_
    exact finish_spans bound (by omega) (.cons lies rows.2 (by omega))
  · exact finish_spans bound (by omega) (.single lies (by omega))

theorem typeAlias_spans (inPlace : rules.InPlace m) (bound : m.IsBoundary start)
    (le : start ≤ c.offset) :
    (typeAlias rules start).SpansFrom m start c := by
  have front := c.offset_le_front
  refine inPlace.typeNode.bind fun left c1 _ lies => passes_mark.bind fun _ c2 _ _ => ?_
  refine inPlace.typeNode.bind fun right c3 _ given => ?_
  have types : m.Row c.front c3.offset [left, right] :=
    .cons lies (.single given ⟨le_rfl, le_rfl⟩) (by omega)
  exact finish_spans bound (by omega) (types.mono (by omega))

theorem plainNames_fills : plainNames.Fills m c := by
  refine identifier_spans.bind fun first c1 _ lies => ?_
  refine (rows_manyMarked fun _ => identifier_spans).bind fun rest c2 _ rows => ?_
  exact .pure ⟨by omega, .cons lies rows.2 (by omega)⟩

theorem optionalValue_rows (inPlace : rules.InPlace m) : (optionalValue rules).Rows m c :=
  (expressions_spans inPlace).rows_option.bind fun _ _ _ rows => .pure rows

theorem raisedValue_spans (inPlace : rules.InPlace m) : (raisedValue rules).Spans m c := by
  refine .bind_keeps keeps_noWord fun _ => inPlace.expression.bind fun head c1 _ lies => ?_
  refine (rows_manyMarked fun _ =>
    .bind_keeps keeps_noWord fun _ => inPlace.expression).bind fun rest c2 _ rows => ?_
  refine passes_mark.follows_option.bind fun comma c3 _ _ => ?_
  split
  · exact .pure (lies.mono (by omega))
  · exact spanning_spans (.cons lies rows.2 (by omega))

theorem raised_spans (inPlace : rules.InPlace m) (bound : m.IsBoundary start)
    (le : start ≤ c.offset) :
    (raised rules start).SpansFrom m start c := by
  have front := c.offset_le_front
  refine (raisedValue_spans inPlace).rows_option.bind fun value c1 _ rows => ?_
  refine .bind_keeps keeps_atWord fun caused => ?_
  split
  · refine passes_word.bind fun _ c2 _ _ => inPlace.expression.bind fun cause c3 _ lies => ?_
    exact finish_spans bound (by omega)
      (rows.2.append (.single lies ⟨le_rfl, le_rfl⟩) (by omega))
  · exact finish_spans bound (by omega) (rows.2.mono (by omega))

/-- A statement of a keyword and the parts that are read behind it. -/
theorem finish_read_spans {kind : NodeKind} {p : Parser (List Node)} (bound : m.IsBoundary start)
    (le : start ≤ c.offset)
    (reads : p.ReadsFrom m c fun nodes here => m.Row c.front here.offset nodes) :
    (do finish kind start (← p) : Parser Node).SpansFrom m start c := by
  have front := c.offset_le_front
  exact reads.bind fun _ _ _ row => finish_spans bound (by omega) (row.mono (by omega))

theorem keywordStatement?_spans (inPlace : rules.InPlace m) {word : String} {p : Parser Node}
    (found : keywordStatement? rules start word = some p) (bound : m.IsBoundary start)
    (le : start ≤ c.offset) : p.SpansFrom m start c := by
  have front := c.offset_le_front
  have bare {kind : NodeKind} :
      (finish kind start []).SpansFrom m start c :=
    finish_spans bound ⟨le_rfl, le⟩ .nil
  unfold keywordStatement? at found
  split at found <;> cases found
  · exact finish_read_spans bound le (importedNames_fills.mono fun _ _ _ _ => And.right)
  · exact importFrom_spans bound le
  · exact finish_read_spans bound le ((valueList_fills inPlace).mono fun _ _ _ _ => And.right)
  · exact finish_read_spans bound le ((optionalValue_rows inPlace).mono fun _ _ _ _ => And.right)
  · refine (expressions_spans inPlace).bind fun value c1 _ lies => ?_
    exact finish_spans bound (by omega) (.single lies (by omega))
  · exact raised_spans inPlace bound le
  · exact bare
  · exact bare
  · exact bare
  · exact finish_read_spans bound le (plainNames_fills.mono fun _ _ _ _ => And.right)
  · exact finish_read_spans bound le (plainNames_fills.mono fun _ _ _ _ => And.right)

theorem simple_spans (inPlace : rules.InPlace m) : (simple rules first).Spans m c := by
  have expression : (expressionStatement rules first).Spans m c := expressionStatement_spans inPlace
  have front := c.offset_le_front
  refine bind_name? fun found given => ?_
  split
  · exact expression
  · rename_i word behind
    obtain ⟨tracks, past⟩ := given _ rfl
    refine bind_startOf fun bound => ?_
    extract_lets after
    have moved {p : Parser Node} (reads : p.SpansFrom m c.front behind) : (after p).Spans m c :=
      bind_moveTo tracks (front.trans past) reads
    split
    · rename_i keyword
      exact moved (keywordStatement?_spans inPlace keyword bound past)
    · split
      · exact expression.whole.or (moved (printed_spans inPlace bound past))
      · exact expression.whole.or (moved (executed_spans inPlace bound past))
      · exact ReadsFrom.or (moved (typeAlias_spans inPlace bound past)).whole expression
      · exact expression

theorem simpleLine_spans (inPlace : rules.InPlace m) : (simpleLine rules first).Spans m c := by
  refine (simple_spans inPlace).bind fun head c1 _ lies => ?_
  refine (rows_manyMarked fun _ => simple_spans inPlace).bind fun rest c2 _ rows => ?_
  refine passes_mark.follows_option.bind fun _ c3 _ _ => follows_newline.bind fun _ c4 _ _ => ?_
  split
  · exact .pure (lies.mono (by omega))
  · exact spanning_spans (.cons lies rows.2 (by omega))

/-! ### Blocks and clauses -/

theorem block_spans (inPlace : rules.InPlace m) (bound : m.IsBoundary start)
    (le : start ≤ c.offset) :
    (block rules start).SpansFrom m start c := by
  have front := c.offset_le_front
  refine (fills_oneOrMore fun _ => inPlace.statement).bind fun statements c1 _ rows => ?_
  refine bind_peek fun lexeme there tracks reaches => ?_
  split
  · rename_i same
    cases same
    refine bind_moveTo tracks reaches.1 (finish_spans bound (by have := reaches.1; omega) ?_)
    exact rows.2.mono ⟨by omega, reaches.1⟩
  · exact reads_refuse

theorem suite_spans (inPlace : rules.InPlace m) :
    (suite rules).SpansFrom m c.offset c := by
  refine bind_peek fun lexeme there tracks reaches => ?_
  split
  · rename_i same
    cases same
    refine bind_moveTo tracks reaches.1 (bind_offset fun bound => ?_)
    exact (block_spans inPlace bound le_rfl).mono fun _ _ _ _ lies => lies.mono ⟨reaches.1, le_rfl⟩
  · exact reads_refuse
  · have front := c.offset_le_front
    exact (simpleLine_spans inPlace).mono fun _ _ _ _ lies => lies.mono ⟨front, le_rfl⟩

theorem body_spans (inPlace : rules.InPlace m) : (body rules).Spans m c :=
  passes_mark.bind fun _ _ _ past => inPlace.suite.mono fun _ _ _ _ lies => lies.mono ⟨past, le_rfl⟩

theorem clause_spans (inPlace : rules.InPlace m) {kind : NodeKind} {keyword : String} :
    (clause rules kind a keyword).Spans m c := by
  refine bind_startOf fun bound => passes_word.bind fun _ c1 _ _ => ?_
  refine (body_spans inPlace).bind fun content c2 _ lies => ?_
  exact finish_spans bound (by omega) (.single lies (by omega))

theorem guarded_fills (inPlace : rules.InPlace m) : (guarded rules).Fills m c := by
  refine inPlace.expression.bind fun condition c1 _ lies => ?_
  refine (body_spans inPlace).bind fun content c2 _ given => ?_
  exact .pure ⟨by omega, .cons lies (.single given ⟨le_rfl, le_rfl⟩) (by omega)⟩

theorem elifClause_spans (inPlace : rules.InPlace m) : (elifClause rules a).Spans m c := by
  refine bind_startOf fun bound => passes_word.bind fun _ c1 _ _ => ?_
  refine (guarded_fills inPlace).bind fun parts c2 _ rows => ?_
  exact finish_spans bound (by omega) (rows.2.mono (by omega))

/-- A clause that may be missing. -/
theorem rows_clause? {p : Parser Node} {present : Bool} (spans : p.Spans m c) :
    (if present then do return [← p] else return [] : Parser (List Node)).Rows m c := by
  split
  · exact spans.bind fun _ _ _ lies => .pure ⟨by omega, .single lies ⟨le_rfl, le_rfl⟩⟩
  · exact .pure ⟨le_rfl, .nil⟩

theorem elseClause?_rows (inPlace : rules.InPlace m) : (elseClause? rules a).Rows m c :=
  .bind_keeps keeps_atWord fun _ => rows_clause? (clause_spans inPlace)

theorem finallyClause?_rows (inPlace : rules.InPlace m) : (finallyClause? rules a).Rows m c :=
  .bind_keeps keeps_atWord fun _ => rows_clause? (clause_spans inPlace)

theorem ifStatement_spans (inPlace : rules.InPlace m) {after : Admits} (bound : m.IsBoundary start)
    (le : start ≤ c.offset) :
    (ifStatement rules after start).SpansFrom m start c := by
  have front := c.offset_le_front
  refine (guarded_fills inPlace).bind fun head c1 _ rows => ?_
  refine (rows_many fun _ => elifClause_spans inPlace).bind fun others c2 _ more => ?_
  refine .bind_keeps keeps_noWord fun _ => ?_
  refine (elseClause?_rows inPlace).bind fun otherwise c3 _ last => ?_
  have clauses : m.Row c.front c2.offset (head ++ others) := rows.2.append more.2 (by omega)
  exact finish_spans bound (by omega) (clauses.append last.2 (by omega))

theorem whileStatement_spans (inPlace : rules.InPlace m) {after : Admits}
    (bound : m.IsBoundary start) (le : start ≤ c.offset) :
    (whileStatement rules after start).SpansFrom m start c := by
  have front := c.offset_le_front
  refine (guarded_fills inPlace).bind fun head c1 _ rows => ?_
  refine (elseClause?_rows inPlace).bind fun otherwise c2 _ last => ?_
  exact finish_spans bound (by omega) (rows.2.append last.2 (by omega))

theorem forStatement_spans (inPlace : rules.InPlace m) {after : Admits} (bound : m.IsBoundary start)
    (le : start ≤ c.offset) :
    (forStatement rules after start).SpansFrom m start c := by
  have front := c.offset_le_front
  refine (loopTargets_spans inPlace).bind fun left c1 _ target => ?_
  refine passes_word.bind fun _ c2 _ _ => ?_
  refine (expressions_spans inPlace).bind fun right c3 _ values => ?_
  refine (body_spans inPlace).bind fun content c4 _ lies => ?_
  refine (elseClause?_rows inPlace).bind fun otherwise c5 _ last => ?_
  have loop : m.Row c2.front c4.offset [right.withRole .right, content] :=
    .cons (values.withRole _) (.single lies ⟨le_rfl, le_rfl⟩) (by omega)
  have head : m.Row c.front c4.offset [left.withRole .left, right.withRole .right, content] :=
    .cons (target.withRole _) loop (by omega)
  exact finish_spans bound (by omega) (head.append last.2 (by omega))

theorem exceptClause_spans (inPlace : rules.InPlace m) : (exceptClause rules a).Spans m c := by
  refine bind_startOf fun bound => passes_word.bind fun _ c1 _ _ => ?_
  refine .bind_keeps keeps_atMark fun bare => ?_
  extract_lets behind
  have finished {caught : List Node} {c2 : Cursor} (moved : c1.offset ≤ c2.offset)
      (row : m.Row c1.front c2.offset caught) :
      (behind caught).SpansFrom m c.front c2 := by
    have after := c2.offset_le_front
    refine (body_spans inPlace).bind fun content c3 _ lies => ?_
    exact finish_spans bound (by omega) (row.append (.single lies ⟨le_rfl, le_rfl⟩) (by omega))
  split
  · exact finished le_rfl .nil
  · refine inPlace.expression.bind fun first c2 _ lies => .bind_keeps keeps_atMark fun named => ?_
    split
    · refine passes_mark.bind fun _ c3 _ _ => inPlace.expression.bind fun second c4 _ given => ?_
      exact finished (by omega) (.cons lies (.single given ⟨le_rfl, le_rfl⟩) (by omega))
    · exact finished (by omega) (.single lies ⟨le_rfl, le_rfl⟩)

theorem keeps_atExceptGroup : (atExceptGroup a).Keeps := by
  refine keeps_peek.bind fun found => ?_
  split <;> exact .pure

theorem exceptGroupClause_spans (inPlace : rules.InPlace m) :
    (exceptGroupClause rules a).Spans m c := by
  refine bind_token fun there tracks starts => ?_
  split
  · refine (passes_advance tracks starts 7).bind fun _ c1 _ _ => ?_
    refine (guarded_fills inPlace).bind fun parts c2 _ rows => ?_
    exact finish_spans tracks.stands.isBoundary_offset (by omega) (rows.2.mono (by omega))
  · exact reads_refuse

theorem tryStatement_spans (inPlace : rules.InPlace m) {inBlock : Bool} (bound : m.IsBoundary start)
    (le : start ≤ c.offset) :
    (tryStatement rules inBlock start).SpansFrom m start c := by
  have front := c.offset_le_front
  refine (body_spans inPlace).bind fun content c1 _ lies => ?_
  -- The handlers of both kinds are followed by the same two clauses.
  have ends {b : Admits} {handler : Node} {rest : List Node} {here : Cursor}
      (row : m.Row start here.offset (content :: handler :: rest)) (le : start ≤ here.offset) : (do
        let otherwise ← elseClause? rules b
        let last ← finallyClause? rules (.statement inBlock)
        finish .tryStatement start (content :: handler :: rest ++ otherwise ++ last) :
          Parser Node).SpansFrom m start here := by
    have front := here.offset_le_front
    refine (elseClause?_rows inPlace).bind fun otherwise c2 _ others => ?_
    refine (finallyClause?_rows inPlace).bind fun last c3 _ final => ?_
    have handled : m.Row start c2.offset (content :: handler :: rest ++ otherwise) :=
      row.append others.2 (by omega)
    exact finish_spans bound (by omega) (handled.append final.2 (by omega))
  refine .bind_keeps keeps_atExceptGroup fun groups => ?_
  split
  · refine (exceptGroupClause_spans inPlace).bind fun handler c2 _ given => ?_
    refine (rows_many fun _ => exceptGroupClause_spans inPlace).bind fun rest c3 _ rows => ?_
    have handlers : m.Row c1.front c3.offset (handler :: rest) := .cons given rows.2 (by omega)
    exact ends (.cons lies handlers (by omega)) (by omega)
  refine .bind_keeps keeps_atWord fun handles => ?_
  split
  · refine (exceptClause_spans inPlace).bind fun handler c2 _ given => ?_
    refine (rows_many fun _ => exceptClause_spans inPlace).bind fun rest c3 _ rows => ?_
    have handlers : m.Row c1.front c3.offset (handler :: rest) := .cons given rows.2 (by omega)
    exact .bind_keeps keeps_noWord fun _ => ends (.cons lies handlers (by omega)) (by omega)
  · refine (clause_spans inPlace).bind fun last c2 _ final => ?_
    exact finish_spans bound (by omega) (.cons lies (.single final ⟨le_rfl, le_rfl⟩) (by omega))

theorem withStatement_spans (inPlace : rules.InPlace m) (bound : m.IsBoundary start)
    (le : start ≤ c.offset) :
    (withStatement rules start).SpansFrom m start c := by
  have front := c.offset_le_front
  refine inPlace.expression.bind fun first c1 _ lies => ?_
  refine (rows_manyMarked fun _ => inPlace.expression).bind fun rest c2 _ rows => ?_
  refine passes_mark.follows_option.bind fun _ c3 _ _ => ?_
  refine (body_spans inPlace).bind fun content c4 _ given => ?_
  have items : m.Row c.front c2.offset (first :: rest) := .cons lies rows.2 (by omega)
  exact finish_spans bound (by omega) (items.append (.single given ⟨le_rfl, le_rfl⟩) (by omega))

/-! ### Functions, classes and choices -/

/-- Types, arguments or results that may be missing. -/
theorem reads_optionalPart {p : Parser Node} {f : List Node → Parser Node} {present : Bool}
    {S : Node → Cursor → Prop} (spans : p.Spans m c)
    (next : ∀ nodes here, c.offset ≤ here.offset ∧ here.offset ≤ here.front →
      m.Row c.front here.offset nodes → (f nodes).ReadsFrom m here S) :
    (if present then do
      let n ← p
      let nodes ← pure [n]
      f nodes
    else do
      let nodes ← pure []
      f nodes : Parser Node).ReadsFrom m c S := by
  split
  · exact spans.bind fun n here moved lies => next [n] here moved (.single lies ⟨le_rfl, le_rfl⟩)
  · exact next [] c ⟨le_rfl, c.offset_le_front⟩ .nil

theorem functionDefinition_spans (inPlace : rules.InPlace m) (bound : m.IsBoundary start)
    (le : start ≤ c.offset) :
    (functionDefinition rules start).SpansFrom m start c := by
  have front := c.offset_le_front
  refine identifier_spans.bind fun name c1 _ lies => .bind_keeps keeps_atMark fun generic => ?_
  refine reads_optionalPart (typeParameters_spans inPlace) fun types c2 _ typed => ?_
  refine (parameters_spans inPlace).bind fun params c3 _ given => ?_
  refine .bind_keeps keeps_atMark fun returns => ?_
  extract_lets last
  have finished {result : List Node} {c4 : Cursor} (moved : c3.offset ≤ c4.offset)
      (row : m.Row c3.front c4.offset result) :
      (last result).SpansFrom m start c4 := by
    have after := c4.offset_le_front
    refine (body_spans inPlace).bind fun content c5 _ block => ?_
    have head : m.Row c.front c2.offset (name.withRole .name :: types) :=
      .cons (lies.withRole _) typed (by omega)
    have signature : m.Row c2.front c4.offset (params :: result) := .cons given row (by omega)
    have parts : m.Row start c4.offset (name.withRole .name :: types ++ params :: result) :=
      head.append signature (by omega)
    exact finish_spans bound (by omega) (parts.append (.single block ⟨le_rfl, le_rfl⟩) (by omega))
  split
  · refine passes_mark.bind fun _ c4 _ _ => inPlace.typeNode.bind fun result c5 _ type => ?_
    exact finished (by omega) (.single type (by omega))
  · exact finished le_rfl .nil

theorem classDefinition_spans (inPlace : rules.InPlace m) (bound : m.IsBoundary start)
    (le : start ≤ c.offset) :
    (classDefinition rules start).SpansFrom m start c := by
  have front := c.offset_le_front
  refine identifier_spans.bind fun name c1 _ lies => .bind_keeps keeps_atMark fun generic => ?_
  refine reads_optionalPart (typeParameters_spans inPlace) fun types c2 _ typed => ?_
  refine .bind_keeps keeps_atMark fun derives => ?_
  refine reads_optionalPart (argumentsAt_spans inPlace) fun args c3 _ given => ?_
  refine (body_spans inPlace).bind fun content c4 _ block => ?_
  have head : m.Row c.front c2.offset (name.withRole .name :: types) :=
    .cons (lies.withRole _) typed (by omega)
  have parts : m.Row start c3.offset (name.withRole .name :: types ++ args) :=
    head.append given (by omega)
  exact finish_spans bound (by omega) (parts.append (.single block ⟨le_rfl, le_rfl⟩) (by omega))

theorem caseClause_spans (inPlace : rules.InPlace m) : (caseClause rules).Spans m c := by
  refine bind_startOf fun bound => passes_word.bind fun _ c1 _ _ => ?_
  refine inPlace.casePattern.bind fun first c2 _ lies => ?_
  refine (rows_manyMarked fun _ =>
    .bind_keeps keeps_noWord fun _ => inPlace.casePattern).bind fun rest c3 _ rows => ?_
  refine passes_mark.follows_option.bind fun _ c4 _ _ => .bind_keeps keeps_atWord fun guarded => ?_
  refine reads_optionalPart (ifClause_spans inPlace) fun guard c5 _ tests => ?_
  refine (body_spans inPlace).bind fun content c6 _ block => ?_
  have patterns : m.Row c1.front c3.offset (first :: rest) := .cons lies rows.2 (by omega)
  have head : m.Row c1.front c5.offset (first :: rest ++ guard) := patterns.append tests (by omega)
  exact finish_spans bound (by omega) (head.append (.single block ⟨le_rfl, le_rfl⟩) (by omega))

theorem matchStatement_spans (inPlace : rules.InPlace m) (bound : m.IsBoundary start)
    (le : start ≤ c.offset) :
    (matchStatement rules start).SpansFrom m start c := by
  have front := c.offset_le_front
  refine inPlace.expression.bind fun first c1 _ lies => ?_
  refine (rows_manyMarked fun _ => inPlace.expression).bind fun rest c2 _ rows => ?_
  refine passes_mark.follows_option.bind fun _ c3 _ _ => ?_
  refine passes_mark.bind fun _ c4 _ _ => bind_peek fun lexeme opened tracks opens => ?_
  split
  · rename_i same
    cases same
    refine bind_moveTo tracks opens.1 ?_
    refine (fills_oneOrMore fun _ => caseClause_spans inPlace).bind fun cases c5 _ clauses => ?_
    refine bind_peek fun lexeme closed tracks closes => ?_
    split
    · rename_i same
      cases same
      have between := opened.offset_le_front
      have entered := opens.1
      have behind := closes.1
      have head : m.Row c.front c2.offset (first :: rest) := .cons lies rows.2 (by omega)
      have parts : m.Row start c5.offset (first :: rest ++ cases) :=
        head.append clauses.2 (by omega)
      exact bind_moveTo tracks behind (finish_spans bound (by omega) (parts.mono ⟨le_rfl, behind⟩))
    · exact reads_refuse
  · exact reads_refuse

theorem definition_spans (inPlace : rules.InPlace m) : (definition rules a).Spans m c := by
  have front := c.offset_le_front
  refine bind_startOf fun bound => bind_name? fun found given => ?_
  have moved {behind : Cursor} {p : Parser Node} (tracks : behind.Tracks m)
      (past : c.front ≤ behind.offset) (reads : p.SpansFrom m c.front behind) :
      (do moveTo behind; p : Parser Node).Spans m c :=
    bind_moveTo tracks (front.trans past) reads
  split
  · obtain ⟨tracks, past⟩ := given _ rfl
    exact moved tracks past (functionDefinition_spans inPlace bound past)
  · obtain ⟨tracks, past⟩ := given _ rfl
    exact moved tracks past (classDefinition_spans inPlace bound past)
  · rename_i behind
    obtain ⟨tracks, past⟩ := given _ rfl
    refine moved tracks past (passes_word.bind fun _ c1 _ _ => ?_)
    exact functionDefinition_spans inPlace bound (past.trans (by dsimp only; omega))
  · exact reads_refuse

theorem decorator_spans (inPlace : rules.InPlace m) : (decorator rules a).Spans m c := by
  refine bind_startOf fun bound => passes_character.bind fun _ c1 _ _ => ?_
  refine inPlace.expression.bind fun value c2 _ lies => ?_
  have whole : (finish .decorator c.front [value]).SpansFrom m c.front c2 :=
    finish_spans bound ⟨le_rfl, by omega⟩ (.single lies (by omega))
  exact whole.bind fun n c3 _ whole => follows_newline.bind fun _ c4 _ _ =>
    .pure (whole.mono (by omega))

theorem decoratedDefinition_spans (inPlace : rules.InPlace m) :
    (decoratedDefinition rules a).Spans m c := by
  refine (decorator_spans inPlace).bind fun first c1 _ lies => ?_
  refine (rows_many fun _ => decorator_spans inPlace).bind fun rest c2 _ rows => ?_
  refine (definition_spans inPlace).bind fun inner c3 _ defined => ?_
  have decorators : m.Row c.front c2.offset (first :: rest) := .cons lies rows.2 (by omega)
  have parts : m.Row c.front c3.offset (first :: rest ++ [inner.withRole .definition]) :=
    decorators.append (.single (defined.withRole _) ⟨le_rfl, le_rfl⟩) (by omega)
  exact spanning_spans parts

/-! ### Statements and modules -/

theorem compound?_spans (inPlace : rules.InPlace m) {inBlock : Bool} {word : String}
    {p : Parser Node} (found : compound? rules inBlock start word = some p)
    (bound : m.IsBoundary start) (le : start ≤ c.offset) :
    p.SpansFrom m start c := by
  unfold compound? at found
  split at found <;> cases found
  · exact ifStatement_spans inPlace bound le
  · exact whileStatement_spans inPlace bound le
  · exact forStatement_spans inPlace bound le
  · exact tryStatement_spans inPlace bound le
  · exact withStatement_spans inPlace bound le
  · exact functionDefinition_spans inPlace bound le
  · exact classDefinition_spans inPlace bound le

theorem asyncStatement_spans (inPlace : rules.InPlace m) {inBlock : Bool}
    (bound : m.IsBoundary start) (le : start ≤ c.offset) :
    (asyncStatement rules inBlock start).SpansFrom m start c := by
  have front := c.offset_le_front
  refine bind_name? fun found given => ?_
  split
  · obtain ⟨tracks, past⟩ := given _ rfl
    split
    · split
      · rename_i compound
        exact bind_moveTo tracks (front.trans past)
          (compound?_spans inPlace compound bound (le.trans (front.trans past)))
      · exact reads_refuse
    · exact reads_refuse
  · exact reads_refuse

theorem statement_spans (inPlace : rules.InPlace m) {inBlock : Bool} :
    (statement rules inBlock).Spans m c := by
  have front := c.offset_le_front
  refine .bind_keeps keeps_atMark fun decorated => ?_
  split
  · exact decoratedDefinition_spans inPlace
  refine bind_name? fun found given => ?_
  split
  · exact simpleLine_spans inPlace
  · rename_i word behind
    obtain ⟨tracks, past⟩ := given _ rfl
    refine bind_startOf fun bound => ?_
    extract_lets after
    have moved {p : Parser Node} (reads : p.SpansFrom m c.front behind) : (after p).Spans m c :=
      bind_moveTo tracks (front.trans past) reads
    split
    · rename_i compound
      exact moved (compound?_spans inPlace compound bound past)
    · split
      · exact (moved (matchStatement_spans inPlace bound past)).or (simpleLine_spans inPlace)
      · exact (moved (asyncStatement_spans inPlace bound past)).or (simpleLine_spans inPlace)
      · exact simpleLine_spans inPlace

/-- What a rule reads lies in its place if what the rules that it goes back to read does. -/
theorem inPlace_step (inPlace : rules.InPlace m) : Rules.InPlace (step rules) m where
  expression := expression_spans inPlace
  negation := negation_spans inPlace fun _ => lambdaParameter_spans inPlace
  unary := unary_spans inPlace
  interpolation := interpolation_spans inPlace
  typeNode := typeNode_spans inPlace
  casePattern := casePattern_spans inPlace
  patternChoice := patternChoice_spans inPlace
  rightSide := rightSide_spans inPlace
  statement := statement_spans inPlace
  suite := suite_spans inPlace

theorem inPlace_ofRule (m : SourceModule) (fuel : Nat) : (ofRule fuel).InPlace m := by
  induction fuel with
  | zero => constructor <;> exact reads_refuse
  | succ fuel ih => exact inPlace_step ih

theorem wholeModule_liesIn (inPlace : rules.InPlace m) :
    (wholeModule rules).ReadsFrom m c fun n _ => n.LiesIn m := by
  refine (rows_many fun _ => inPlace.statement).bind fun statements c1 _ rows => ?_
  refine bind_token fun there tracks starts => ?_
  split
  · refine .pure (Node.liesIn_mk_iff.mpr ⟨⟨⟨[], m.text, rfl, rfl⟩, ?_⟩, Nat.zero_le _, ?_⟩)
    · exact tracks.stands.isBoundary_offset
    · exact rows.2.mono (by omega)
  · exact reads_refuse

end Parser

/-- Every tree that is read stands in source order, and its nodes start and stop between
characters. -/
theorem Node.liesIn_ofText? {m : SourceModule} {tree : Node} (read : ofText? m.text = some tree) :
    tree.LiesIn m := by
  obtain ⟨⟨_, c⟩, parsed, rfl⟩ := Option.map_eq_some_iff.mp read
  have inPlace := Parser.inPlace_ofRule m (4 * m.text.length + 16)
  exact (Parser.wholeModule_liesIn inPlace (Cursor.tracks_ofText m) _ c parsed).2.2

end DeployManifest
