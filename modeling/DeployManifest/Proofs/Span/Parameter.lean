import DeployManifest.Proofs.Span.Expression

/-! # Where types, parameters and patterns lie

Types, parameters and the patterns of a choice are read as expressions are, part by part, and lie
behind the front for the same reason. A default or an annotation is put behind the name it is of.
-/

namespace DeployManifest.Parser

variable {m : SourceModule} {rules : Rules} {a first : Admits} {follow : Follow} {c : Cursor}

/-! ### Types -/

theorem typeParameters_spans (inPlace : rules.InPlace m) : (typeParameters rules a).Spans m c := by
  refine bind_startOf fun bound => passes_character.bind fun _ c1 _ _ => ?_
  refine inPlace.typeNode.bind fun first c2 _ lies => ?_
  refine (rows_manyMarked fun _ => inPlace.typeNode).bind fun rest c3 _ rows => ?_
  refine passes_mark.follows_option.bind fun _ c4 _ _ => passes_character.bind fun _ c5 _ _ => ?_
  exact finish_spans bound (by omega) (.cons lies rows.2 (by omega))

theorem keeps_atGeneric : (atGeneric first follow).Keeps := by
  refine keeps_name?.bind fun found => ?_
  split
  · split
    · exact .pure
    · split <;> exact .pure
  · exact .pure

theorem simpleType_fills (inPlace : rules.InPlace m) :
    (simpleType rules first follow).Fills m c := by
  refine .bind_keeps keeps_atGeneric fun generic => ?_
  split
  · refine identifier_spans.bind fun name c1 _ lies => ?_
    refine (typeParameters_spans inPlace).bind fun args c2 _ given => ?_
    exact .pure ⟨by omega, .cons lies (.single given ⟨le_rfl, le_rfl⟩) (by omega)⟩
  refine .bind_keeps keeps_atMark fun stars => ?_
  split
  · refine passes_mark.bind fun _ c1 _ _ => identifier_spans.bind fun name c2 _ lies => ?_
    exact .pure ⟨by omega, .single lies (by omega)⟩
  · exact inPlace.expression.bind fun type c1 _ lies => .pure ⟨by omega, .single lies (by omega)⟩

theorem typeNode_spans (inPlace : rules.InPlace m) {constrained : Bool} :
    (typeNode rules first follow constrained).Spans m c := by
  refine bind_startOf fun bound => (simpleType_fills inPlace).bind fun base c1 _ types => ?_
  refine (rows_many fun _ => ReadsFrom.or
    (passes_mark.follows.spans_bind fun _ _ => inPlace.typeNode)
    (passes_mark.follows.spans_bind fun _ _ => identifier_spans)).bind fun rest c2 _ rows => ?_
  extract_lets last
  have finished {limit : Option Node} {c3 : Cursor} (moved : c2.offset ≤ c3.offset)
      (row : m.Row c2.front c3.offset limit.toList) :
      (last limit).SpansFrom m c.front c3 := by
    have parts : m.Row c.front c2.offset (base ++ rest) := types.2.append rows.2 (by omega)
    exact finish_spans bound (by omega) (parts.append row (by omega))
  split
  · exact (passes_mark.follows.spans_bind fun _ _ => inPlace.typeNode).rows_option.bind
      fun _ _ moved row => finished moved.1 row.2
  · exact finished le_rfl .nil

/-! ### Parameters -/

theorem starOperand_spans (inPlace : rules.InPlace m) : (starOperand rules follow).Spans m c := by
  refine (primary_spans inPlace).bind fun n c1 _ lies => ?_
  split
  · exact .pure lies
  · exact reads_refuse

theorem parameterName_reads (inPlace : rules.InPlace m) :
    (parameterName rules a follow).ReadsFrom m c fun found here =>
      found.1.Spans m c.front here.offset := by
  have sealed {p : Parser Node} {typed : Bool} {here : Cursor}
      (reads : p.SpansFrom m c.front here) :
      (do return (← p, typed) : Parser (Node × Bool)).ReadsFrom m here
        fun found there => found.1.Spans m c.front there.offset :=
    reads.bind fun _ _ _ lies => .pure lies
  refine bind_startOf fun bound => .bind_keeps keeps_atMark fun stars => ?_
  split
  · refine passes_mark.bind fun _ c1 _ _ => ?_
    refine (starOperand_spans inPlace).bind fun operand c2 _ lies => ?_
    exact sealed (finish_spans bound (by omega) (.single lies (by omega)))
  refine .bind_keeps keeps_atMark fun star => ?_
  split
  · refine passes_mark.bind fun _ c1 _ _ => (starOperand_spans inPlace).bind_option
      (fun operand c2 _ lies => ?_) ?_
    · exact sealed (finish_spans bound (by omega) (.single lies (by omega)))
    · exact sealed (finish_spans bound (by omega) .nil)
  refine .bind_keeps keeps_atMark fun slash => ?_
  split
  · refine passes_mark.bind fun _ c1 _ _ => sealed (finish_spans bound (by omega) .nil)
  refine .bind_keeps keeps_atMark fun row => ?_
  split
  · exact (atom_spans inPlace).bind fun n c1 _ lies => sealed (asTarget_spans lies le_rfl)
  · exact sealed identifier_spans

theorem defaultValue_spans (inPlace : rules.InPlace m) : (defaultValue rules follow).Spans m c :=
  passes_mark.follows.spans_bind fun _ _ => inPlace.expression

/-- A parameter that may have a default. -/
theorem withDefault_spans (inPlace : rules.InPlace m) {name : Node} {low : Nat}
    (lies : name.Spans m low c.offset) :
    (if takesDefault name then do
      match ← option (defaultValue rules follow) with
      | some value => spanning .defaultParameter [name.withRole .name, value.withRole .value]
      | none => return name
    else return name : Parser Node).SpansFrom m low c := by
  have front := c.offset_le_front
  split
  · refine (defaultValue_spans inPlace).bind_option (fun value c1 _ given => ?_) (.pure lies)
    exact spanning_spans (.cons (lies.withRole _)
      (.single (given.withRole _) ⟨le_rfl, le_rfl⟩) (by omega))
  · exact .pure lies

theorem parameter_spans (inPlace : rules.InPlace m) : (Parser.parameter rules a).Spans m c := by
  refine (parameterName_reads inPlace).bind ?_
  rintro ⟨name, typed⟩ c1 - (lies : name.Spans m c.front c1.offset)
  refine .bind_keeps keeps_atMark fun colon => ?_
  split
  · refine passes_mark.bind fun _ c2 _ _ => inPlace.typeNode.bind fun type c3 _ limits => ?_
    have typed : m.Row c.front c3.offset [name, type] :=
      .cons lies (.single limits ⟨le_rfl, le_rfl⟩) (by omega)
    split
    · refine (defaultValue_spans inPlace).bind_option (fun value c4 _ given => ?_)
        (spanning_spans typed)
      have behind : m.Row c2.front c4.offset [type, value.withRole .value] :=
        .cons limits (.single (given.withRole _) ⟨le_rfl, le_rfl⟩) (by omega)
      exact spanning_spans (.cons (lies.withRole _) behind (by omega))
    · exact spanning_spans typed
  · exact withDefault_spans inPlace lies

theorem lambdaParameter_spans (inPlace : rules.InPlace m) : (lambdaParameter rules).Spans m c :=
  (parameterName_reads inPlace).bind fun (_, _) _ _ lies => withDefault_spans inPlace lies

theorem parameters_spans (inPlace : rules.InPlace m) : (Parser.parameters rules).Spans m c := by
  refine bind_startOf fun bound => passes_character.bind fun _ c1 _ _ => ?_
  refine (parameter_spans inPlace).rows_option.bind fun first c2 _ head => ?_
  extract_lets last
  have finished {rest : List Node} {c3 : Cursor} (moved : c2.offset ≤ c3.offset)
      (row : m.Row c2.front c3.offset rest) :
      (last rest).SpansFrom m c.front c3 := by
    refine passes_character.bind fun _ c4 _ _ => ?_
    exact finish_spans bound (by omega) (head.2.append row (by omega))
  split
  · refine (rows_manyMarked fun _ => parameter_spans inPlace).bind fun rest c3 _ rows => ?_
    refine passes_mark.follows_option.bind fun _ c4 _ _ => ?_
    exact finished (by omega) (rows.2.mono (by omega))
  · exact finished le_rfl .nil

/-! ### Patterns -/

theorem itemsUpTo_rows {closer : Char} {item : Admits → Parser Node}
    (given : ∀ a c, (item a).Spans m c) : (itemsUpTo closer item).Rows m c := by
  refine (given _ _).bind_option (fun first c1 _ lies => ?_) ?_
  · refine (rows_manyMarked fun _ => given _ _).bind fun rest c2 _ rows => ?_
    refine passes_mark.follows_option.bind fun _ c3 _ _ => passes_character.bind fun _ c4 _ _ => ?_
    exact .pure ⟨by omega, .cons lies rows.2 (by omega)⟩
  · exact passes_character.bind fun _ c1 _ _ => .pure ⟨by omega, .nil⟩

theorem splatPattern_spans : (splatPattern a).Spans m c := by
  refine bind_startOf fun bound => passes_oneOf.bind fun _ c1 _ _ => ?_
  refine identifier_spans.bind fun name c2 _ lies => ?_
  exact finish_spans bound (by omega) (.single lies (by omega))

theorem patternNumber_spans : (patternNumber a follow).Spans m c := by
  refine bind_startOf fun bound => passes_mark.follows_option.bind fun sign c1 _ _ => ?_
  refine number_spans.bind fun first c2 _ lies => ?_
  refine (passes_oneOf.follows.spans_bind fun _ _ => number_spans).rows_option.bind
    fun second c3 _ rows => ?_
  exact finish_spans bound (by omega) (.cons lies rows.2 (by omega))

theorem dottedName_spans : (dottedName a follow).Spans m c := by
  refine identifier_spans.bind fun head c1 _ lies => ?_
  refine (rows_manyMarked fun _ => identifier_spans).bind fun rest c2 _ rows => ?_
  exact spanning_spans (.cons lies rows.2 (by omega))

theorem patternName_spans (inPlace : rules.InPlace m) : (patternName rules a follow).Spans m c := by
  refine .bind_keeps keeps_name? fun found => ?_
  split
  · exact identifier_spans
  · refine dottedName_spans.bind fun name c1 _ lies => .bind_keeps keeps_atMark fun calls => ?_
    split
    · refine passes_mark.bind fun _ c2 _ _ => ?_
      refine (itemsUpTo_rows fun _ _ => inPlace.casePattern).bind fun args c3 _ rows => ?_
      exact spanning_spans (.cons lies rows.2 (by omega))
    · exact .pure lies

theorem patternEntry_spans (inPlace : rules.InPlace m) : (patternEntry rules a).Spans m c := by
  refine splatPattern_spans.bind_option (fun _ _ _ lies => .pure lies) ?_
  refine inPlace.patternChoice.bind fun key c1 _ lies => passes_mark.bind fun _ c2 _ _ => ?_
  refine inPlace.casePattern.bind fun value c3 _ given => ?_
  exact spanning_spans (.cons lies (.single given ⟨le_rfl, le_rfl⟩) (by omega))

theorem simplePattern_spans (inPlace : rules.InPlace m) :
    (simplePattern rules a follow).Spans m c := by
  refine bind_peek fun lexeme there tracks reaches => ?_
  split
  · exact strings_spans inPlace
  · rename_i same
    cases same
    have starts : there.offset = c.front := reaches
    extract_lets bracketed
    have rows (closer : Char) {item : Admits → Parser Node} (given : ∀ a c, (item a).Spans m c) :
        (bracketed closer item).Spans m c := by
      refine (passes_advance tracks starts 1).bind fun _ c1 _ _ => ?_
      refine (itemsUpTo_rows given).bind fun items c2 _ rows => ?_
      exact finish_spans tracks.stands.isBoundary_offset (by omega) (rows.2.mono (by omega))
    split
    · exact rows _ fun _ _ => inPlace.casePattern
    · exact rows _ fun _ _ => inPlace.casePattern
    · exact rows _ fun _ _ => patternEntry_spans inPlace
    · exact splatPattern_spans
    · exact splatPattern_spans
    · split
      · exact patternNumber_spans
      · extract_lets kind
        split
        · exact patternName_spans inPlace
        · exact leaf_spans tracks starts _
  · exact reads_refuse

theorem patternChoice_spans (inPlace : rules.InPlace m) :
    (patternChoice rules first follow).Spans m c := by
  refine (simplePattern_spans inPlace).bind fun head c1 _ lies => ?_
  refine (rows_manyMarked fun _ => simplePattern_spans inPlace).bind fun rest c2 _ rows => ?_
  split
  · exact .pure (lies.mono (by omega))
  · exact spanning_spans (.cons lies rows.2 (by omega))

theorem casePattern_spans (inPlace : rules.InPlace m) :
    (casePattern rules first follow).Spans m c := by
  refine keyword?_reads.bind fun found c1 _ given => ?_
  extract_lets behind
  have finished {base : Node} {c2 : Cursor} (lies : base.Spans m c.front c2.offset) :
      (behind base).SpansFrom m c.front c2 := by
    have front := c2.offset_le_front
    refine (rows_many fun _ => passes_word.follows.spans_bind fun _ _ => identifier_spans).bind
      fun aliases c3 _ rows => ?_
    split
    · exact .pure (lies.mono (by omega))
    · exact spanning_spans (.cons lies rows.2 (by omega))
  split
  · have named := given.2 _ rfl
    refine (patternChoice_spans inPlace).bind fun value c2 _ lies => ?_
    have row : m.Row c.front c2.offset [_, value] :=
      .cons named (.single lies ⟨le_rfl, le_rfl⟩) (by omega)
    exact (spanning_spans row).bind fun _ _ _ => finished
  · obtain rfl := given.1 rfl
    exact (patternChoice_spans inPlace).bind fun _ _ _ => finished

end DeployManifest.Parser
