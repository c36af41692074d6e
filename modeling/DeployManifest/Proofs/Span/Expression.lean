import DeployManifest.Proofs.Span.Reads
import DeployManifest.Tree.Pattern

/-! # Where expressions lie

`Rules.InPlace` says of the rules that an expression goes back to that what they read lies behind
the front. It follows for each form of expression: its parts are read one behind the other, so they
are a row between the front and the place where the last of them ends.
-/

namespace DeployManifest

/-- What the rules read lies behind the front. A substitution in a string lies behind the position,
and so does a block, which starts in front of its first line. -/
structure Rules.InPlace (rules : Rules) (m : SourceModule) : Prop where
  expression {first follow conditional c} : (rules (.expression first follow conditional)).Spans m c
  negation {first follow c} : (rules (.negation first follow)).Spans m c
  unary {first follow c} : (rules (.unary first follow)).Spans m c
  interpolation {c} : (rules .interpolation).SpansFrom m c.offset c
  typeNode {first follow constrained c} : (rules (.typeNode first follow constrained)).Spans m c
  casePattern {first follow c} : (rules (.casePattern first follow)).Spans m c
  patternChoice {first follow c} : (rules (.patternChoice first follow)).Spans m c
  rightSide {c} : (rules .rightSide).Spans m c
  statement {inBlock c} : (rules (.statement inBlock)).Spans m c
  suite {c} : (rules .suite).SpansFrom m c.offset c

namespace Parser

variable {m : SourceModule} {rules : Rules} {a first : Admits} {follow : Follow} {c : Cursor}

/-! ### Rows of expressions -/

theorem expressions_spans (inPlace : rules.InPlace m) :
    (expressions rules first follow).Spans m c := by
  refine inPlace.expression.bind fun head c1 _ lies => ?_
  refine (rows_manyMarked fun _ => inPlace.expression).bind fun rest c2 _ rows => ?_
  refine passes_mark.follows_option.bind fun comma c3 _ _ => ?_
  split
  · exact .pure (lies.mono (by omega))
  · exact spanning_spans (.cons lies rows.2 (by omega))

theorem yield_spans (inPlace : rules.InPlace m) : (yield rules first follow).Spans m c := by
  refine bind_startOf fun bound => passes_word.bind fun _ c1 _ _ => ?_
  refine .bind_keeps keeps_atWord fun delegates => ?_
  split
  · refine passes_word.bind fun _ c2 _ _ => inPlace.expression.bind fun value c3 _ lies => ?_
    exact finish_spans bound (by omega) (.single lies (by omega))
  · refine (expressions_spans inPlace).rows_option.bind fun value c2 moved rows => ?_
    exact finish_spans bound (by omega) (rows.2.mono (by omega))

theorem listSplat_spans (inPlace : rules.InPlace m) : (listSplat rules a follow).Spans m c := by
  refine bind_startOf fun bound => passes_mark.bind fun _ c1 _ _ => ?_
  refine inPlace.expression.bind fun value c2 _ lies => ?_
  exact finish_spans bound (by omega) (.single lies (by omega))

theorem dictionarySplat_spans (inPlace : rules.InPlace m) :
    (dictionarySplat rules a follow).Spans m c := by
  refine bind_startOf fun bound => passes_mark.bind fun _ c1 _ _ => ?_
  refine inPlace.expression.bind fun value c2 _ lies => ?_
  exact finish_spans bound (by omega) (.single lies (by omega))

theorem element_spans (inPlace : rules.InPlace m) : (element rules a).Spans m c := by
  refine .bind_keeps keeps_atMark fun star => ?_
  split
  · exact listSplat_spans inPlace
  · refine .bind_keeps keeps_atWord fun yields => ?_
    split
    · exact yield_spans inPlace
    · exact inPlace.expression

theorem moreElements_rows (inPlace : rules.InPlace m) : (moreElements rules).Rows m c := by
  refine (rows_manyMarked fun _ => element_spans inPlace).bind fun rest c1 _ rows => ?_
  refine passes_mark.follows_option.bind fun _ c2 _ _ => ?_
  exact .pure ⟨by omega, rows.2.mono (by omega)⟩

/-! ### Targets -/

theorem ends_target? {n target : Node} (found : target? n = some target) :
    target.start = n.start ∧ target.stop = n.stop := by
  obtain ⟨kind, role, start, stop, children⟩ := n
  have row {kind : NodeKind}
      (read : (targets? children).map (.mk kind role start stop) = some target) :
      target.start = start ∧ target.stop = stop := by
    obtain ⟨targets, -, rfl⟩ := Option.map_eq_some_iff.mp read
    exact ⟨rfl, rfl⟩
  unfold target? at found
  split at found
  · exact Option.some.inj found ▸ ⟨rfl, rfl⟩
  · exact Option.some.inj found ▸ ⟨rfl, rfl⟩
  · exact Option.some.inj found ▸ ⟨rfl, rfl⟩
  · split at found
    · cases found
      exact ⟨rfl, rfl⟩
    · cases found
  · exact row found
  · exact row found
  · exact row found
  · exact row found
  · exact Option.some.inj found ▸ ⟨rfl, rfl⟩
  · cases found

mutual

theorem liesIn_target? : ∀ {n target : Node}, target? n = some target → n.LiesIn m →
    target.LiesIn m
  | .mk kind role start stop children, target, found, lies => by
    have parts := Node.liesIn_mk_iff.mp lies
    have row {kind : NodeKind}
        (read : (targets? children).map (.mk kind role start stop) = some target) :
        target.LiesIn m := by
      obtain ⟨targets, rows, rfl⟩ := Option.map_eq_some_iff.mp read
      exact Node.liesIn_mk_iff.mpr ⟨parts.1, parts.2.1, row_targets? rows parts.2.2⟩
    unfold target? at found
    split at found
    · exact Option.some.inj found ▸ lies
    · exact Option.some.inj found ▸ lies
    · exact Option.some.inj found ▸ lies
    · split at found
      · cases found
        exact Node.liesIn_mk_iff.mpr parts
      · cases found
    · exact row found
    · exact row found
    · exact row found
    · exact row found
    · exact Option.some.inj found ▸ lies
    · cases found

theorem row_targets? : ∀ {nodes targets : List Node} {low high : Nat},
    targets? nodes = some targets → m.Row low high nodes → m.Row low high targets
  | [], targets, low, high, found, _ => by
    rw [targets?] at found
    cases found
    exact .nil
  | n :: nodes, targets, low, high, found, row => by
    obtain ⟨⟨after, filled, before, lies⟩, rest⟩ := row
    unfold targets? at found
    split at found
    · rename_i target others here behind
      cases found
      obtain ⟨start, stop⟩ := ends_target? here
      rw [← start] at after filled
      rw [← stop] at filled before rest
      exact ⟨⟨after, filled, before, liesIn_target? here lies⟩, row_targets? behind rest⟩
    · cases found

end

theorem asTarget_reads {n : Node} {low high : Nat} (lies : n.Spans m low high) :
    (asTarget n).ReadsFrom m c fun target here => here = c ∧ target.Spans m low high := by
  unfold asTarget
  split
  · rename_i target found
    obtain ⟨start, stop⟩ := ends_target? found
    obtain ⟨after, filled, before, lies⟩ := lies
    exact .pure ⟨rfl, by omega, by omega, by omega, liesIn_target? found lies⟩
  · exact reads_refuse

theorem asTarget_spans {n : Node} {low high : Nat} (lies : n.Spans m low high)
    (before : high ≤ c.offset) :
    (asTarget n).SpansFrom m low c :=
  (asTarget_reads lies).mono fun _ _ further _ found => found.2.mono ⟨le_rfl, before.trans further⟩

/-! ### Names, numbers and strings -/

theorem substitution_spans (inPlace : rules.InPlace m) {q : Quotes} :
    (substitution rules q).SpansFrom m c.offset c := by
  intro tracks n here read
  unfold substitution at read
  split at read
  · rename_i rest _
    have further : c.offset ≤ (c.advanceTo rest).offset := c.offset_le_advance _
    obtain ⟨behind, furthest, lies⟩ := inPlace.interpolation (tracks.advance _) n here read
    exact ⟨behind, further.trans furthest, lies.mono ⟨further, le_rfl⟩⟩
  · cases read

theorem quoted_spans (inPlace : rules.InPlace m) {q : Quotes} {start : Nat}
    (bound : m.IsBoundary start) (le : start ≤ c.offset) :
    (quoted rules q start).SpansFrom m start c := by
  refine (reads_many (fun _ => le_rfl) fun _ => substitution_spans inPlace).bind
    fun parts here _ rows => bind_get fun tracks => ?_
  split
  · rename_i rest _
    have further : here.offset ≤ (here.advanceTo rest).offset := here.offset_le_advance _
    refine bind_moveTo (.withFormat (tracks.advance _) _) further ?_
    exact finish_spans bound ⟨le_rfl, le.trans (rows.1.trans further)⟩ (rows.2.mono ⟨le, further⟩)
  · exact reads_refuse

theorem string_spans (inPlace : rules.InPlace m) : (string rules a).Spans m c := by
  refine .of_tracks fun here => bind_peek fun lexeme there tracks reaches => ?_
  split
  · rename_i q start behind same
    cases same
    obtain ⟨rfl, le⟩ := reaches
    exact bind_moveTo tracks (c.offset_le_front.trans le)
      (quoted_spans inPlace here.stands.isBoundary_front le)
  · exact reads_refuse

theorem strings_spans (inPlace : rules.InPlace m) : (strings rules a follow).Spans m c := by
  refine (string_spans inPlace).bind fun first c1 _ lies => ?_
  refine (rows_many fun _ => string_spans inPlace).bind fun rest c2 _ rows => ?_
  split
  · exact .pure (lies.mono (by omega))
  · exact spanning_spans (.cons lies rows.2 (by omega))

theorem number_spans : (number a).Spans m c := by
  refine bind_token fun there tracks starts => ?_
  dsimp only
  split
  · exact leaf_spans tracks starts _
  · split
    · exact leaf_spans tracks starts _
    · exact reads_refuse

/-! ### Substitutions in strings -/

theorem formatPieces_reads (inPlace : rules.InPlace m) : (formatPieces rules).ReadsFrom m c
    fun pieces here => c.offset ≤ here.offset ∧ m.Row c.offset here.offset pieces := by
  refine reads_many (fun _ => le_rfl) fun c => bind_get fun tracks => ?_
  have spaced : c.skipSpace.Tracks m := tracks.advance _
  have further : c.offset ≤ c.skipSpace.offset := c.offset_le_advance _
  dsimp only
  split
  · exact bind_moveTo spaced further
      (inPlace.interpolation.mono fun _ _ _ _ lies => lies.mono ⟨further, le_rfl⟩)
  · split
    · exact reads_refuse
    · have furthest := c.skipSpace.offset_le_advance
      refine bind_moveTo (spaced.advance _) (further.trans (furthest _)) ?_
      exact finish_spans spaced.stands.isBoundary_offset ⟨further, furthest _⟩ .nil
  · exact reads_refuse

theorem passes_conversion : conversion.Passes m c := by
  refine bind_token fun there tracks starts => ?_
  split
  · split
    · exact passes_advance tracks starts 2
    · exact reads_refuse
  · exact reads_refuse

theorem interpolation_spans (inPlace : rules.InPlace m) :
    (interpolation rules).SpansFrom m c.offset c := by
  refine bind_get fun tracks => bind_moveTo (tracks.advance 1) (c.offset_le_advance 1) ?_
  have opened := c.offset_le_advance 1
  have start := (c.advance 1).offset_le_front
  refine .bind_keeps keeps_atWord fun yields => ?_
  extract_lets behind
  have closed {value : Node} {c1 : Cursor} (lies : value.Spans m (c.advance 1).front c1.offset) :
      (behind value).SpansFrom m c.offset c1 := by
    refine passes_mark.follows_option.bind fun _ c2 _ _ => ?_
    refine passes_conversion.follows_option.bind fun _ c3 _ _ => ?_
    refine passes_character.follows_option.bind fun _ c4 _ _ => ?_
    extract_lets last
    have finished {pieces : List Node} {c5 : Cursor} (moved : c4.offset ≤ c5.offset)
        (row : m.Row c4.offset c5.offset pieces) :
        (last pieces).SpansFrom m c.offset c5 := by
      refine passes_character.bind fun _ c6 _ _ => ?_
      exact finish_spans tracks.stands.isBoundary_offset (by omega) (.cons lies row (by omega))
    split
    · exact (formatPieces_reads inPlace).bind fun _ _ _ pieces => finished pieces.1 pieces.2
    · exact finished le_rfl .nil
  split
  · exact (yield_spans inPlace).bind fun _ _ _ lies => closed lies
  · exact (expressions_spans inPlace).bind fun _ _ _ lies => closed lies

/-! ### Comprehensions -/

theorem keeps_atComprehension : atComprehension.Keeps := by
  refine keeps_atWord.bind fun loops => ?_
  split
  · exact .pure
  · refine keeps_name?.bind fun found => ?_
    split
    · split <;> exact .pure
    · exact .pure

theorem loopTargets_spans (inPlace : rules.InPlace m) : (loopTargets rules).Spans m c := by
  refine inPlace.unary.bind fun head c1 _ lies => ?_
  refine (rows_manyMarked fun _ =>
    .bind_keeps keeps_noWord fun _ => inPlace.unary).bind fun rest c2 _ rows => ?_
  refine passes_mark.follows_option.bind fun comma c3 _ _ => ?_
  split
  · exact asTarget_spans lies (by omega)
  · have row : m.Row c.front c3.offset (head :: rest) := .cons lies rows.2 (by omega)
    exact (spanning_spans row).bind fun _ _ _ lies => asTarget_spans lies le_rfl

theorem forInClause_spans (inPlace : rules.InPlace m) : (forInClause rules).Spans m c := by
  refine bind_startOf fun bound => passes_word.follows_option.bind fun _ c1 _ _ => ?_
  refine passes_word.bind fun _ c2 _ _ => ?_
  refine (loopTargets_spans inPlace).bind fun left c3 _ target => ?_
  refine passes_word.bind fun _ c4 _ _ => inPlace.expression.bind fun first c5 _ lies => ?_
  refine (rows_manyMarked fun _ => .bind_keeps keeps_noWord
    fun _ => .bind_keeps keeps_atComprehension fun _ => ?_).bind fun rest c6 _ rows => ?_
  · split
    · exact reads_refuse
    · exact inPlace.expression
  · refine passes_mark.follows_option.bind fun _ c7 _ _ => finish_spans bound (by omega) ?_
    have values : m.Row c4.front c6.offset (first :: rest) := .cons lies rows.2 (by omega)
    exact .cons (target.withRole _) (values.map_withRole _) (by omega)

theorem ifClause_spans (inPlace : rules.InPlace m) {conditional : Bool} :
    (ifClause rules first follow conditional).Spans m c := by
  refine bind_startOf fun bound => passes_word.bind fun _ c1 _ _ => ?_
  refine inPlace.expression.bind fun condition c2 _ lies => ?_
  exact finish_spans bound (by omega) (.single lies (by omega))

theorem comprehension_rows (inPlace : rules.InPlace m) : (comprehension rules).Rows m c := by
  refine (forInClause_spans inPlace).bind fun first c1 _ lies => ?_
  refine (rows_many fun _ => (forInClause_spans inPlace).or (ifClause_spans inPlace)).bind
    fun rest c2 _ rows => ?_
  exact .pure ⟨by omega, .cons lies rows.2 (by omega)⟩

/-! ### Bracketed expressions -/

section Bracketed

variable {kind : NodeKind} {start low high : Nat} {head : Node} {closer : Char}

/-- A bracketed expression of a part that has been read and the parts that are read behind it. -/
theorem bracketed_spans {p : Parser (List Node)} (bound : m.IsBoundary start)
    (lies : head.Spans m low high) (bounds : start ≤ low ∧ high ≤ c.offset) (rows : p.Rows m c) :
    (do let rest ← p; character .closing closer; finish kind start (head :: rest) :
      Parser Node).SpansFrom m start c := by
  have front := c.offset_le_front
  refine rows.bind fun rest c1 _ rows => passes_character.bind fun _ c2 _ _ => ?_
  exact finish_spans bound (by omega) (.cons lies rows.2 (by omega))

theorem parenthesized_spans (inPlace : rules.InPlace m) (bound : m.IsBoundary start)
    (le : start ≤ c.offset) :
    (parenthesized rules start).SpansFrom m start c := by
  refine passes_character.follows_option.bind fun closed c1 _ _ => ?_
  split
  · exact finish_spans bound (by omega) .nil
  · refine (element_spans inPlace).bind fun first c2 _ lies => ?_
    refine .bind_keeps keeps_atComprehension fun loops => ?_
    split
    · exact bracketed_spans bound lies (by omega) (comprehension_rows inPlace)
    · refine .bind_keeps keeps_atMark fun row => ?_
      split
      · exact bracketed_spans bound lies (by omega) (moreElements_rows inPlace)
      · refine passes_character.bind fun _ c3 _ _ => ?_
        exact finish_spans bound (by omega) (.single lies (by omega))

theorem list_spans (inPlace : rules.InPlace m) (bound : m.IsBoundary start)
    (le : start ≤ c.offset) :
    (Parser.list rules start).SpansFrom m start c := by
  refine passes_character.follows_option.bind fun closed c1 _ _ => ?_
  split
  · exact finish_spans bound (by omega) .nil
  · refine (element_spans inPlace).bind fun first c2 _ lies => ?_
    refine .bind_keeps keeps_atComprehension fun loops => ?_
    split
    · exact bracketed_spans bound lies (by omega) (comprehension_rows inPlace)
    · exact bracketed_spans bound lies (by omega) (moreElements_rows inPlace)

theorem spans_asValue {n : Node} (lies : n.Spans m low high) : (asValue n).Spans m low high := by
  obtain ⟨kind, role, start, stop, children⟩ := n
  obtain ⟨after, filled, before, lies⟩ := lies
  unfold asValue
  split
  · split
    · exact ⟨after, filled, before, lies.withKind .tuple⟩
    · exact ⟨after, filled, before, lies⟩
  · exact ⟨after, filled, before, lies⟩

theorem pairValue_spans (inPlace : rules.InPlace m) {key : Node} (lies : key.Spans m low high)
    (before : high ≤ c.offset) :
    (pairValue rules key).SpansFrom m low c := by
  refine passes_mark.bind fun _ c1 _ _ => inPlace.expression.bind fun value c2 _ given => ?_
  exact spanning_spans (.cons (lies.withRole _)
    (.single ((spans_asValue given).withRole _) ⟨le_rfl, le_rfl⟩) (by omega))

theorem entry_spans (inPlace : rules.InPlace m) : (entry rules a).Spans m c := by
  refine .bind_keeps keeps_atMark fun unpacks => ?_
  split
  · exact dictionarySplat_spans inPlace
  · exact inPlace.expression.bind fun key c1 _ lies => pairValue_spans inPlace lies le_rfl

theorem moreEntries_spans (inPlace : rules.InPlace m) {entries : List Node}
    (bound : m.IsBoundary start) (row : m.Row start high entries)
    (bounds : start ≤ c.offset ∧ high ≤ c.offset) :
    (moreEntries rules start entries).SpansFrom m start c := by
  have front := c.offset_le_front
  refine (rows_manyMarked fun _ => entry_spans inPlace).bind fun rest c1 _ rows => ?_
  refine passes_mark.follows_option.bind fun _ c2 _ _ => passes_character.bind fun _ c3 _ _ => ?_
  exact finish_spans bound (by omega) (row.append rows.2 (by omega))

theorem braced_spans (inPlace : rules.InPlace m) (bound : m.IsBoundary start)
    (le : start ≤ c.offset) :
    (braced rules start).SpansFrom m start c := by
  refine passes_character.follows_option.bind fun closed c1 _ _ => ?_
  split
  · exact finish_spans bound (by omega) .nil
  refine .bind_keeps keeps_atMark fun comma => ?_
  split
  · exact moreEntries_spans inPlace bound (.nil : m.Row start start []) (by omega)
  refine .bind_keeps keeps_atMark fun unpacks => ?_
  split
  · refine (dictionarySplat_spans inPlace).bind fun first c2 _ lies => ?_
    exact moreEntries_spans inPlace bound (.single lies ⟨by omega, le_rfl⟩) (by omega)
  refine (element_spans inPlace).bind fun first c2 _ lies => ?_
  refine .bind_keeps keeps_atMark fun paired => ?_
  split
  · refine (pairValue_spans inPlace lies le_rfl).bind fun pair c3 _ lies => ?_
    refine .bind_keeps keeps_atComprehension fun loops => ?_
    split
    · exact bracketed_spans bound lies (by omega) (comprehension_rows inPlace)
    · exact moreEntries_spans inPlace bound (.single lies ⟨by omega, le_rfl⟩) (by omega)
  · refine .bind_keeps keeps_atComprehension fun loops => ?_
    split
    · exact bracketed_spans bound lies (by omega) (comprehension_rows inPlace)
    · exact bracketed_spans bound lies (by omega) (moreElements_rows inPlace)

end Bracketed

/-! ### Calls, subscripts and members -/

section Calls

variable {start low high : Nat} {n : Node}

/-- A name that comes next lies between the front and the mark behind it. -/
theorem named_spans {here there : Cursor} {b : Admits} {length count : Nat} (tracks : c.Tracks m)
    (next : c.next a = (.token, here)) (after : (here.advance length).next b = (.token, there)) :
    (there.advance count).Tracks m ∧ c.offset ≤ (there.advance count).offset ∧
      (Node.mk .identifier .name here.offset (here.advance length).offset []).Spans m c.front
        (there.advance count).offset := by
  have front : here.Tracks m := tracks.of_next next
  have named := front.advance length
  have starts := Cursor.offset_of_next next
  have marks := Cursor.offset_of_next after
  have before := c.offset_le_front
  have inside := here.offset_le_advance length
  have between := (here.advance length).offset_le_front
  have last := there.offset_le_advance count
  refine ⟨(named.of_next after).advance count, by omega, starts.ge, inside, by
    change (here.advance length).offset ≤ _
    omega, ?_⟩
  exact Node.liesIn_mk_iff.mpr
    ⟨⟨front.stands.isBoundary_offset, named.stands.isBoundary_offset⟩, inside, .nil⟩

theorem keyword?_reads : (keyword? a).ReadsFrom m c fun found here =>
    (found = none → here = c) ∧ ∀ name ∈ found, name.Spans m c.front here.offset := by
  intro tracks found here read
  unfold keyword? at read
  split at read
  · rename_i there next
    dsimp only at read
    split at read
    · cases read
      exact ⟨tracks, le_rfl, fun _ => rfl, nofun⟩
    · split at read
      · rename_i mark after
        split at read
        · cases read
          obtain ⟨behind, further, lies⟩ := named_spans tracks next after
          exact ⟨behind, further, nofun, fun _ same => Option.some.inj same ▸ lies⟩
        · cases read
          exact ⟨tracks, le_rfl, fun _ => rfl, nofun⟩
      · cases read
        exact ⟨tracks, le_rfl, fun _ => rfl, nofun⟩
  · cases read
    exact ⟨tracks, le_rfl, fun _ => rfl, nofun⟩

theorem argument_spans (inPlace : rules.InPlace m) : (argument rules a).Spans m c := by
  refine .bind_keeps keeps_atMark fun star => ?_
  split
  · exact listSplat_spans inPlace
  refine .bind_keeps keeps_atMark fun stars => ?_
  split
  · exact dictionarySplat_spans inPlace
  refine keyword?_reads.bind_optional (fun name c1 _ named => ?_) inPlace.expression
  refine inPlace.expression.bind fun value c2 _ given => ?_
  exact spanning_spans (.cons named
    (.single ((spans_asValue given).withRole _) ⟨le_rfl, le_rfl⟩) (by omega))

theorem arguments_spans (inPlace : rules.InPlace m) (bound : m.IsBoundary start)
    (le : start ≤ c.offset) :
    (Parser.arguments rules start).SpansFrom m start c := by
  have front := c.offset_le_front
  refine (argument_spans inPlace).bind_option (fun first c1 _ lies => ?_) ?_
  · refine .bind_keeps keeps_atComprehension fun loops => ?_
    split
    · exact bracketed_spans bound lies (by omega) (comprehension_rows inPlace)
    · refine (rows_manyMarked fun _ => argument_spans inPlace).bind fun rest c2 _ rows => ?_
      refine passes_mark.follows_option.bind fun _ c3 _ _ => ?_
      refine passes_character.bind fun _ c4 _ _ => ?_
      exact finish_spans bound (by omega) (.cons lies rows.2 (by omega))
  · refine passes_mark.follows_option.bind fun _ c1 _ _ => passes_character.bind fun _ c2 _ _ => ?_
    exact finish_spans bound (by omega) .nil

theorem argumentsAt_spans (inPlace : rules.InPlace m) : (argumentsAt rules a).Spans m c :=
  bind_startOf fun bound => passes_character.bind fun _ _ _ past =>
    arguments_spans inPlace bound past

theorem subscriptItem_spans (inPlace : rules.InPlace m) : (subscriptItem rules a).Spans m c := by
  have index {b : Admits} {c : Cursor} :
      (Parser.option (rules (.expression b .bracket true))).ReadsFrom m c fun found here =>
        c.front ≤ here.front ∧ m.Row c.front here.offset found.toList :=
    inPlace.expression.rows_option
  refine bind_startOf fun bound => index.bind fun lower c1 _ below => ?_
  refine passes_mark.passes_option.bind fun colon c2 _ past => ?_
  split
  · rename_i found
    have passed := past.2 found
    refine index.bind fun upper c3 _ above => ?_
    refine passes_mark.follows_option.bind fun second c4 _ _ => ?_
    extract_lets last
    have finished {step : Option Node} {c5 : Cursor} (moved : c4.offset ≤ c5.offset)
        (row : m.Row c4.front c5.offset step.toList) :
        (last step).SpansFrom m c.front c5 := by
      have rows : m.Row c.front c4.offset (lower.toList ++ upper.toList) :=
        below.2.append above.2 (by omega)
      exact finish_spans bound (by omega) (rows.append row (by omega))
    split
    · exact index.bind fun _ _ moved row => finished moved.1 row.2
    · exact finished le_rfl .nil
  · split
    · obtain ⟨-, lies, -⟩ := below
      exact .pure (lies.mono (by omega))
    · exact reads_refuse

theorem trailer_spans (inPlace : rules.InPlace m) (lies : n.Spans m low high)
    (before : high ≤ c.offset) :
    (trailer rules follow n).SpansFrom m low c := by
  refine bind_token fun there tracks starts => ?_
  split
  · refine (passes_advance tracks starts 1).bind fun _ c1 _ _ => ?_
    refine identifier_spans.bind fun name c2 _ given => ?_
    exact spanning_spans (.cons (lies.withRole _)
      (.single (given.withRole _) ⟨le_rfl, le_rfl⟩) (by omega))
  · have front := c.offset_le_front
    refine (passes_advance tracks starts 1).bind fun _ c1 _ past => ?_
    refine (arguments_spans inPlace tracks.stands.isBoundary_offset (starts.trans_le past)).bind
      fun args c2 _ given => ?_
    exact spanning_spans (.cons (lies.withRole _)
      (.single (given.withRole _) ⟨le_rfl, le_rfl⟩) (by omega))
  · refine (passes_advance tracks starts 1).bind fun _ c1 _ _ => ?_
    refine (subscriptItem_spans inPlace).bind fun first c2 _ index => ?_
    refine (rows_manyMarked fun _ => subscriptItem_spans inPlace).bind fun rest c3 _ rows => ?_
    refine passes_mark.follows_option.bind fun _ c4 _ _ => passes_character.bind fun _ c5 _ _ => ?_
    have items : m.Row c1.front c5.offset (first :: rest) := .cons index rows.2 (by omega)
    exact spanning_spans (.cons (lies.withRole _) items (by omega))
  · exact reads_refuse

theorem trailers_spans (inPlace : rules.InPlace m) {fuel : Nat} (lies : n.Spans m low high)
    (before : high ≤ c.offset) :
    (trailers rules follow fuel n).SpansFrom m low c := by
  induction fuel generalizing n c high with
  | zero => exact .pure (lies.mono ⟨le_rfl, before⟩)
  | succ fuel ih =>
    exact (trailer_spans inPlace lies before).bind_option (fun _ _ _ lies => ih lies le_rfl)
      (.pure (lies.mono ⟨le_rfl, before⟩))

theorem atom_spans (inPlace : rules.InPlace m) : (atom rules a follow).Spans m c := by
  refine bind_peek fun lexeme there tracks reaches => ?_
  split
  · exact strings_spans inPlace
  · rename_i same
    cases same
    have front := c.offset_le_front
    have further := there.offset_le_advance 1
    have starts : there.offset = c.front := reaches
    have opened {p : Parser Node} (reads : p.SpansFrom m there.offset (there.advance 1)) :
        (do moveTo (there.advance 1); p : Parser Node).Spans m c :=
      bind_moveTo (tracks.advance 1) (by omega) (starts ▸ reads)
    have bound := tracks.stands.isBoundary_offset
    split
    · exact opened (parenthesized_spans inPlace bound further)
    · exact opened (list_spans inPlace bound further)
    · exact opened (braced_spans inPlace bound further)
    · exact leaf_spans tracks starts 3
    · split
      · exact number_spans
      · exact leaf_spans tracks starts _
  · exact reads_refuse

theorem primary_spans (inPlace : rules.InPlace m) : (primary rules a follow).Spans m c :=
  (atom_spans inPlace).bind fun _ _ _ lies => bind_get fun _ => trailers_spans inPlace lies le_rfl

end Calls

/-! ### Operators -/

section Operators

variable {start low high : Nat} {n left : Node}

theorem ends_starred {chain : Node} (found : starred start n = some chain) :
    chain.start = start ∧ chain.stop = n.stop := by
  obtain ⟨kind, role, from_, stop, children⟩ := n
  unfold starred at found
  split at found
  · cases found
    exact ⟨rfl, rfl⟩
  · split at found
    · obtain ⟨inner, -, rfl⟩ := Option.map_eq_some_iff.mp found
      exact ⟨rfl, rfl⟩
    · cases found

/-- A star in front of a chain lies where the chain does with the star. -/
theorem liesIn_starred (bound : m.IsBoundary start) : ∀ {n chain : Node},
    starred start n = some chain → start ≤ n.start → n.LiesIn m → chain.LiesIn m
  | .mk kind role from_ stop children, chain, found, (before : start ≤ from_), lies => by
    obtain ⟨⟨first, last⟩, filled, row⟩ := Node.liesIn_mk_iff.mp lies
    have within : start ≤ stop := before.trans filled
    unfold starred at found
    split at found
    · cases found
      have covered : (Node.mk kind .plain from_ stop children).LiesIn m :=
        Node.liesIn_mk_iff.mpr ⟨⟨first, last⟩, filled, row⟩
      exact Node.liesIn_mk_iff.mpr ⟨⟨bound, last⟩, within, ⟨before, filled, le_rfl, covered⟩, .nil⟩
    · split at found
      · rename_i function rest
        obtain ⟨inner, here, rfl⟩ := Option.map_eq_some_iff.mp found
        obtain ⟨⟨after, full, inside, function_lies⟩, behind⟩ := row
        obtain ⟨starts, stops⟩ := ends_starred here
        have inner_lies := liesIn_starred bound here (before.trans after) function_lies
        have spans : inner.Spans m start stop := ⟨starts.ge, by omega, by omega, inner_lies⟩
        refine Node.liesIn_mk_iff.mpr ⟨⟨bound, last⟩, within, spans.withRole _, ?_⟩
        rw [Node.stop_withRole, stops]
        exact behind
      · cases found

theorem unary_spans (inPlace : rules.InPlace m) : (unary rules first follow).Spans m c := by
  unfold unary
  extract_lets power
  have powered : power.Spans m c := by
    refine (primary_spans inPlace).bind fun base c1 _ lies => ?_
    refine .bind_keeps keeps_atMark fun raised => ?_
    split
    · refine passes_mark.bind fun _ c2 _ _ => inPlace.unary.bind fun exponent c3 _ given => ?_
      exact spanning_spans (.cons lies (.single given ⟨le_rfl, le_rfl⟩) (by omega))
    · exact .pure lies
  refine bind_peek fun lexeme there tracks reaches => ?_
  split
  · exact powered
  · rename_i same
    cases same
    have starts : there.offset = c.front := reaches
    have bound := tracks.stands.isBoundary_offset
    -- A word or sign and what it is put in front of.
    have prefixed {kind : NodeKind} {f : Node → Node} {p : Parser Node} (count : Nat)
        (reads : ∀ c, p.Spans m c)
        (kept : ∀ n low high, n.Spans m low high → (f n).Spans m low high) :
        (do
          moveTo (there.advance count)
          let operand ← p
          finish kind there.offset [f operand] : Parser Node).Spans m c := by
      refine (passes_advance tracks starts count).bind fun _ c1 _ _ => ?_
      refine (reads c1).bind fun operand c2 _ lies => ?_
      exact finish_spans bound (by omega) (.single (kept _ _ _ lies) (by omega))
    extract_lets sign
    have signed (c : Char) : (sign c).Spans m _ :=
      prefixed 1 (fun _ => inPlace.unary) fun _ _ _ lies => lies.withRole .argument
    split
    · exact signed '+'
    · exact signed '-'
    · exact signed '~'
    · refine (passes_advance tracks starts 1).bind fun _ c1 _ _ => ?_
      refine (primary_spans inPlace).bind fun chain c2 _ lies => ?_
      split
      · rename_i star found
        obtain ⟨starts, stops⟩ := ends_starred found
        obtain ⟨after, filled, before, lies⟩ := lies
        exact .pure ⟨by omega, by omega, by omega, liesIn_starred bound found (by omega) lies⟩
      · exact reads_refuse
    · split
      · exact prefixed (f := id) _ (fun _ => inPlace.unary) fun _ _ _ => id
      · exact powered
  · exact reads_refuse

theorem row_joinLevel {level : List String} {rest : List (String × Node)}
    (row : m.Row low high (left :: rest.map (·.2))) :
    m.Row low high ((joinLevel level left rest).1 :: (joinLevel level left rest).2.map (·.2)) := by
  -- What is joined takes the place of its two operands; what is not starts a row of its own.
  induction rest generalizing left low with
  | nil => exact row
  | cons operand rest ih =>
    rw [joinLevel]
    split
    · exact ih row.join
    · exact ⟨row.1, ih row.2⟩

theorem spans_joinAll {rest : List (String × Node)}
    (row : m.Row low high (left :: rest.map (·.2))) :
    (joinAll left rest).Spans m low high := by
  have levels (all : List (List String)) (given : Node × List (String × Node))
      (row : m.Row low high (given.1 :: given.2.map (·.2))) :
      (all.foldl (fun row level => joinLevel level row.1 row.2) given).1.Spans m low high := by
    induction all generalizing given with
    | nil => exact row.1
    | cons level all ih => exact ih _ (row_joinLevel row)
  exact levels _ _ row

theorem arithmetic_spans (inPlace : rules.InPlace m) :
    (arithmetic rules first follow).Spans m c := by
  refine inPlace.unary.bind fun left c1 _ lies => ?_
  refine (reads_manyWith (fun x : String × Node => x.2) Cursor.offset_le_front fun c =>
    passes_oneOf.bind fun op _ _ _ => inPlace.unary.bind fun right _ _ given => ?_).bind
      fun rest c2 _ rows => ?_
  · exact .pure (given.mono (by omega))
  · exact .pure (spans_joinAll (.cons lies rows.2 (by omega)))

theorem passes_comparator : (comparator follow).Passes m c := by
  refine ReadsFrom.or (passes_oneOf.bind fun _ _ _ past => .pure past)
    (passes_word.or (ReadsFrom.or ?_ ?_))
  · refine passes_word.bind fun _ c1 _ _ => passes_word.mono fun _ c2 _ _ past => ?_
    omega
  · refine passes_word.bind fun _ c1 _ _ => passes_word.follows_option.bind fun _ c2 _ _ => ?_
    exact .pure (by omega)

theorem comparison_spans (inPlace : rules.InPlace m) :
    (comparison rules first follow).Spans m c := by
  refine (arithmetic_spans inPlace).bind fun left c1 _ lies => ?_
  refine (rows_many fun _ => passes_comparator.follows.spans_bind fun _ _ =>
    arithmetic_spans inPlace).bind fun rest c2 _ rows => ?_
  split
  · exact .pure (lies.mono (by omega))
  · exact spanning_spans (.cons lies rows.2 (by omega))

theorem lambda_spans (inPlace : rules.InPlace m) {parameter : Parser Node}
    (given : ∀ c, parameter.Spans m c) : (lambda rules parameter first follow).Spans m c := by
  refine bind_startOf fun bound => passes_word.bind fun _ c1 _ _ => ?_
  refine .bind_keeps keeps_atMark fun bare => ?_
  extract_lets behind
  have closed {parameters : List Node} {c2 : Cursor} (moved : c1.offset ≤ c2.offset)
      (row : m.Row c1.front c2.offset parameters) :
      (behind parameters).SpansFrom m c.front c2 := by
    refine passes_mark.bind fun _ c3 _ _ => inPlace.expression.bind fun body c4 _ lies => ?_
    have whole : m.Row c.front c4.offset (parameters ++ [body]) :=
      row.append (.single lies ⟨le_rfl, le_rfl⟩) (by omega)
    exact finish_spans bound (by omega) whole
  split
  · exact closed le_rfl .nil
  · refine (given _).bind fun head c2 _ lies => ?_
    refine (rows_manyMarked fun _ => given _).bind fun rest c3 _ rows => ?_
    refine passes_mark.follows_option.bind fun _ c4 _ _ => ?_
    have row : m.Row c1.front c4.offset (head :: rest) := .cons lies rows.2 (by omega)
    refine (spanning_spans row).bind fun all c5 _ whole => ?_
    exact closed (by omega) (.single whole ⟨le_rfl, le_rfl⟩)

theorem namedBy?_reads : (namedBy? a).ReadsFrom m c fun found here =>
    (found = none → here = c) ∧ ∀ name ∈ found, name.Spans m c.front here.offset := by
  intro tracks found here read
  unfold namedBy? at read
  split at read
  · rename_i there next
    dsimp only at read
    split at read
    · cases read
      exact ⟨tracks, le_rfl, fun _ => rfl, nofun⟩
    · split at read
      · rename_i mark after
        split at read
        · cases read
          obtain ⟨behind, further, lies⟩ := named_spans tracks next after
          exact ⟨behind, further, nofun, fun _ same => Option.some.inj same ▸ lies⟩
        · cases read
          exact ⟨tracks, le_rfl, fun _ => rfl, nofun⟩
      · cases read
        exact ⟨tracks, le_rfl, fun _ => rfl, nofun⟩
  · cases read
    exact ⟨tracks, le_rfl, fun _ => rfl, nofun⟩

theorem negation_spans (inPlace : rules.InPlace m) {parameter : Parser Node}
    (given : ∀ c, parameter.Spans m c) : (negation rules parameter first follow).Spans m c := by
  refine .bind_keeps keeps_atWord fun negates => ?_
  split
  · refine bind_startOf fun bound => passes_word.bind fun _ c1 _ _ => ?_
    refine inPlace.negation.bind fun operand c2 _ lies => ?_
    exact finish_spans bound (by omega) (.single lies (by omega))
  refine .bind_keeps keeps_atWord fun isLambda => ?_
  split
  · exact lambda_spans inPlace given
  refine namedBy?_reads.bind_optional (fun name c1 _ named => ?_) (comparison_spans inPlace)
  refine inPlace.expression.bind fun value c2 _ lies => ?_
  exact spanning_spans (.cons named (.single lies ⟨le_rfl, le_rfl⟩) (by omega))

theorem booleans_spans {op : String} {operand : Admits → Parser Node}
    (given : ∀ a c, (operand a).Spans m c) : (booleans op operand first follow).Spans m c := by
  have joined {rest : List Node} {left : Node} {low high : Nat}
      (row : m.Row low high (left :: rest)) :
      (rest.foldl (fun left right => Node.mk .booleanOperator .plain left.start right.stop
        [left, right]) left).Spans m low high := by
    induction rest generalizing left with
    | nil => exact row.1
    | cons right rest ih => exact ih row.join
  refine (given _ _).bind fun left c1 _ lies => ?_
  refine (rows_many fun _ => passes_word.follows.spans_bind fun _ _ => given _ _).bind
    fun rest c2 _ rows => ?_
  exact .pure (joined (.cons lies rows.2 (by omega)))

theorem disjunction_spans (inPlace : rules.InPlace m) :
    (disjunction rules first follow).Spans m c :=
  booleans_spans fun _ _ => booleans_spans fun _ _ => inPlace.negation

theorem aliased_spans (inPlace : rules.InPlace m) (lies : n.Spans m low high)
    (before : high ≤ c.offset) :
    (aliased rules follow n).SpansFrom m low c := by
  refine passes_word.bind fun _ c1 _ _ => ?_
  refine (disjunction_spans inPlace).bind fun inner c2 _ given => ?_
  have target : (Node.mk .asPatternTarget .alias inner.start inner.stop [inner]).Spans m c1.front
      c2.offset := by
    obtain ⟨after, filled, before, lies⟩ := given
    exact ⟨after, filled, before, Node.liesIn_mk_iff.mpr
      ⟨lies.bounded _ inner.self_mem_subtrees, filled, ⟨le_rfl, filled, le_rfl, lies⟩, .nil⟩⟩
  exact spanning_spans (.cons lies (.single target ⟨le_rfl, le_rfl⟩) (by omega))

theorem aliases_spans (inPlace : rules.InPlace m) {fuel : Nat} (lies : n.Spans m low high)
    (before : high ≤ c.offset) :
    (aliases rules follow fuel n).SpansFrom m low c := by
  induction fuel generalizing n c high with
  | zero => exact .pure (lies.mono ⟨le_rfl, before⟩)
  | succ fuel ih =>
    exact (aliased_spans inPlace lies before).bind_option (fun _ _ _ lies => ih lies le_rfl)
      (.pure (lies.mono ⟨le_rfl, before⟩))

theorem expression_spans (inPlace : rules.InPlace m) {conditional : Bool} :
    (expression rules first follow conditional).Spans m c := by
  refine (disjunction_spans inPlace).bind fun head c1 _ lies => bind_get fun _ => ?_
  refine (aliases_spans inPlace lies le_rfl).bind fun head c2 _ lies => ?_
  refine .bind_keeps keeps_atWord fun asks => ?_
  split
  · refine passes_word.bind fun _ c3 _ _ => inPlace.expression.bind fun condition c4 _ tested => ?_
    refine passes_word.bind fun _ c5 _ _ => inPlace.expression.bind fun otherwise c6 _ other => ?_
    have branches : m.Row c3.front c6.offset [condition, otherwise] :=
      .cons tested (.single other ⟨le_rfl, le_rfl⟩) (by omega)
    exact spanning_spans (.cons lies branches (by omega))
  · exact .pure lies

end Operators

end Parser

end DeployManifest
