import DeployManifest.Proofs.Span.Row

/-! # Reading from a position

A parser never goes back, and what it reads lies between the front of the position where it starts
and the position where it leaves off. `Parser.ReadsFrom` says what holds of a result and of the
position behind it; there is a lemma for each way in which parsers are put together, and for each of
the parsers that all others are made of. Unlike `Parser.Yields` it depends on where one starts.
-/

namespace DeployManifest

namespace Parser

variable {m : SourceModule} {α β : Type} {p q : Parser α} {f : α → Parser β}
  {Q R : α → Cursor → Prop} {S : β → Cursor → Prop} {c here there : Cursor} {a : Admits}

/-- From the position the parser leaves off at a place of the module, not in front of the position,
and its result and the place are as said. -/
def ReadsFrom (p : Parser α) (m : SourceModule) (c : Cursor) (Q : α → Cursor → Prop) : Prop :=
  c.Tracks m → ∀ x here, p c = some (x, here) → here.Tracks m ∧ c.offset ≤ here.offset ∧ Q x here

/-- A node is read, and it lies behind an offset. -/
abbrev SpansFrom (p : Parser Node) (m : SourceModule) (low : Nat) (c : Cursor) : Prop :=
  p.ReadsFrom m c fun n here => n.Spans m low here.offset

/-- A node is read, and it lies behind the front. -/
abbrev Spans (p : Parser Node) (m : SourceModule) (c : Cursor) : Prop := p.SpansFrom m c.front c

/-- A row of nodes is read, and it lies behind the front. -/
abbrev Rows (p : Parser (List Node)) (m : SourceModule) (c : Cursor) : Prop :=
  p.ReadsFrom m c fun nodes here => c.front ≤ here.front ∧ m.Row c.front here.offset nodes

/-- A row of nodes is read behind the front, and something is read. -/
abbrev Fills (p : Parser (List Node)) (m : SourceModule) (c : Cursor) : Prop :=
  p.ReadsFrom m c fun nodes here => c.front ≤ here.offset ∧ m.Row c.front here.offset nodes

/-- The parser leaves off behind the front. -/
abbrev Passes (p : Parser α) (m : SourceModule) (c : Cursor) : Prop :=
  p.ReadsFrom m c fun _ here => c.front ≤ here.offset

/-- The parser leaves off where the front is not in front of this one. -/
abbrev Follows (p : Parser α) (m : SourceModule) (c : Cursor) : Prop :=
  p.ReadsFrom m c fun _ here => c.front ≤ here.front

/-- The parser stays where it is. -/
def Keeps (p : Parser α) : Prop := ∀ c x here, p c = some (x, here) → here = c

/-! ### How parsers are put together -/

theorem ReadsFrom.mono (reads : p.ReadsFrom m c Q)
    (weaker : ∀ x here, c.offset ≤ here.offset → here.offset ≤ here.front → Q x here → R x here) :
    p.ReadsFrom m c R := by
  intro tracks x here read
  obtain ⟨behind, further, holds⟩ := reads tracks x here read
  exact ⟨behind, further, weaker x here further here.offset_le_front holds⟩

theorem ReadsFrom.of_tracks (reads : c.Tracks m → p.ReadsFrom m c Q) : p.ReadsFrom m c Q :=
  fun tracks => reads tracks tracks

theorem ReadsFrom.pure {x : α} (holds : Q x c) : (Pure.pure x : Parser α).ReadsFrom m c Q := by
  rintro tracks _ _ ⟨⟩
  exact ⟨tracks, le_rfl, holds⟩

theorem ReadsFrom.bind (first : p.ReadsFrom m c Q)
    (next : ∀ x here, c.offset ≤ here.offset ∧ here.offset ≤ here.front → Q x here →
      (f x).ReadsFrom m here S) : (p >>= f).ReadsFrom m c S := by
  intro tracks y there read
  obtain ⟨⟨x, here⟩, started, read⟩ := Option.bind_eq_some_iff.mp read
  obtain ⟨behind, further, holds⟩ := first tracks x here started
  obtain ⟨last, furthest, result⟩ :=
    next x here ⟨further, here.offset_le_front⟩ holds behind y there read
  exact ⟨last, further.trans furthest, result⟩

theorem reads_refuse : (refuse : Parser α).ReadsFrom m c Q := by
  rintro - x here ⟨⟩

theorem ReadsFrom.or (first : p.ReadsFrom m c Q) (second : q.ReadsFrom m c Q) :
    (Parser.or p q).ReadsFrom m c Q := by
  intro tracks x here read
  unfold Parser.or at read
  split at read
  · rename_i result started
    cases read
    exact first tracks x here started
  · exact second tracks x here read

theorem ReadsFrom.option {R : Option α → Cursor → Prop} (reads : p.ReadsFrom m c Q)
    (found : ∀ x here, Q x here → R (some x) here) (missing : R none c) :
    (Parser.option p).ReadsFrom m c R := by
  intro tracks x here read
  unfold Parser.option at read
  split at read
  · rename_i x behind started
    cases read
    obtain ⟨behind, further, holds⟩ := reads tracks x _ started
    exact ⟨behind, further, found x _ holds⟩
  · cases read
    exact ⟨tracks, le_rfl, missing⟩

/-- What is read may be missing, and then the parser stays where it is. -/
theorem ReadsFrom.bind_optional {p : Parser (Option α)} {f : Option α → Parser β}
    (optional : p.ReadsFrom m c fun given here => (given = none → here = c) ∧ ∀ x ∈ given, Q x here)
    (found : ∀ x here, c.offset ≤ here.offset ∧ here.offset ≤ here.front → Q x here →
      (f (some x)).ReadsFrom m here S) (missing : (f none).ReadsFrom m c S) :
    (p >>= f).ReadsFrom m c S := by
  refine optional.bind fun given here moved holds => ?_
  cases given with
  | none =>
    obtain rfl := holds.1 rfl
    exact missing
  | some x => exact found x here moved (holds.2 x rfl)

theorem ReadsFrom.bind_option {f : Option α → Parser β} (reads : p.ReadsFrom m c Q)
    (found : ∀ x here, c.offset ≤ here.offset ∧ here.offset ≤ here.front → Q x here →
      (f (some x)).ReadsFrom m here S) (missing : (f none).ReadsFrom m c S) :
    (Parser.option p >>= f).ReadsFrom m c S :=
  .bind_optional (reads.option
    (fun _ _ holds => ⟨nofun, fun _ same => Option.some.inj same ▸ holds⟩)
    ⟨fun _ => rfl, nofun⟩) found missing

/-- What may be passed is passed or not. -/
theorem ReadsFrom.passes_option (passes : p.Passes m c) : (Parser.option p).ReadsFrom m c
    fun found here => c.front ≤ here.front ∧ (found.isSome = true → c.front ≤ here.offset) := by
  have reads : p.ReadsFrom m c fun _ here => c.front ≤ here.front ∧ c.front ≤ here.offset :=
    passes.mono fun _ _ _ behind past => ⟨past.trans behind, past⟩
  exact reads.option (fun _ _ past => ⟨past.1, fun _ => past.2⟩) ⟨le_rfl, nofun⟩

theorem ReadsFrom.follows_option (passes : p.Passes m c) : (Parser.option p).Follows m c :=
  passes.passes_option.mono fun _ _ _ _ => And.left

theorem ReadsFrom.rows_option {p : Parser Node} (spans : p.Spans m c) :
    (Parser.option p).ReadsFrom m c fun found here =>
      c.front ≤ here.front ∧ m.Row c.front here.offset found.toList := by
  refine ReadsFrom.option (Q := fun n here => c.front ≤ here.front ∧ n.Spans m c.front here.offset)
    (spans.mono fun n here _ behind spans => ⟨by omega, spans⟩) ?_ ⟨le_rfl, .nil⟩
  exact fun n here spans => ⟨spans.1, .single spans.2 ⟨le_rfl, le_rfl⟩⟩

/-- What holds of nothing, and of one more in front of those it holds of, holds of all that is
read. -/
theorem ReadsFrom.many {step : Cursor → α → Cursor → Prop} {A : Cursor → List α → Cursor → Prop}
    (reads : ∀ c, p.ReadsFrom m c (step c)) (none : ∀ c, A c [] c)
    (more : ∀ c x here xs there, here.offset ≤ there.offset → step c x here → A here xs there →
      A c (x :: xs) there) : (Parser.many p).ReadsFrom m c (A c) := by
  -- Each round starts where the one before has left off, so the position is general.
  have within (fuel : Nat) (c : Cursor) : (Parser.repeatWithin p fuel).ReadsFrom m c (A c) := by
    induction fuel generalizing c with
    | zero =>
      rintro tracks _ _ ⟨⟩
      exact ⟨tracks, le_rfl, none c⟩
    | succ fuel ih =>
      intro tracks found there read
      unfold Parser.repeatWithin at read
      split at read
      · cases read
        exact ⟨tracks, le_rfl, none c⟩
      · rename_i x here started
        obtain ⟨tracks, further, holds⟩ := reads c tracks x here started
        split at read
        · rename_i others last others_read
          cases read
          obtain ⟨tracks, furthest, rest⟩ := ih here tracks others _ others_read
          exact ⟨tracks, further.trans furthest, more c x here others _ furthest holds rest⟩
        · cases read
  exact fun tracks found here read => within _ c tracks found here read

/-- What is read with nodes one by one, each behind an offset that depends on where it is read from,
makes a row behind the first of these offsets. -/
theorem reads_manyWith (node : α → Node) {low : Cursor → Nat} (behind : ∀ c, c.offset ≤ low c)
    (reads : ∀ c, p.ReadsFrom m c fun x here => (node x).Spans m (low c) here.offset) :
    (Parser.many p).ReadsFrom m c fun found here =>
      low c ≤ low here ∧ m.Row (low c) here.offset (found.map node) := by
  refine ReadsFrom.many (A := fun c found here =>
    low c ≤ low here ∧ m.Row (low c) here.offset (found.map node)) reads
    (fun _ => ⟨le_rfl, .nil⟩) ?_
  intro c x here xs there further lies rest
  have start := behind here
  exact ⟨by omega, .cons lies rest.2 (by omega)⟩

theorem passes_many (passes : ∀ c, p.Passes m c) : (Parser.many p).ReadsFrom m c
    fun found here => c.front ≤ here.front ∧ (found ≠ [] → c.front ≤ here.offset) := by
  refine ReadsFrom.many (A := fun c found here =>
    c.front ≤ here.front ∧ (found ≠ [] → c.front ≤ here.offset)) passes
    (fun _ => ⟨le_rfl, fun some => absurd rfl some⟩) ?_
  intro c x here xs there further past rest
  have start := here.offset_le_front
  exact ⟨by omega, fun _ => by omega⟩

theorem reads_many {p : Parser Node} {low : Cursor → Nat} (behind : ∀ c, c.offset ≤ low c)
    (reads : ∀ c, p.SpansFrom m (low c) c) :
    (Parser.many p).ReadsFrom m c fun nodes here =>
      low c ≤ low here ∧ m.Row (low c) here.offset nodes := by
  simpa using reads_manyWith id behind reads

theorem rows_many {p : Parser Node} (spans : ∀ c, p.Spans m c) : (Parser.many p).Rows m c :=
  reads_many Cursor.offset_le_front spans

theorem fills_oneOrMore {p : Parser Node} (spans : ∀ c, p.Spans m c) :
    (Parser.oneOrMore p).Fills m c :=
  (spans c).bind fun _ _ moved first => (rows_many spans).bind fun _ _ further rest =>
    .pure ⟨by omega, .cons first rest.2 (by omega)⟩

/-! ### Tests -/

theorem ReadsFrom.bind_keeps (keeps : p.Keeps) (next : ∀ x, (f x).ReadsFrom m c S) :
    (p >>= f).ReadsFrom m c S := by
  intro tracks y there read
  obtain ⟨⟨x, here⟩, started, continued⟩ := Option.bind_eq_some_iff.mp read
  obtain rfl := keeps c x here started
  exact next x tracks y there continued

theorem Keeps.bind (first : p.Keeps) (next : ∀ x, (f x).Keeps) : (p >>= f).Keeps := by
  intro c y there read
  obtain ⟨⟨x, here⟩, started, continued⟩ := Option.bind_eq_some_iff.mp read
  obtain rfl := first c x here started
  exact next x here y there continued

theorem Keeps.pure {x : α} : (Pure.pure x : Parser α).Keeps := by
  rintro c _ _ ⟨⟩
  rfl

theorem keeps_refuse : (refuse : Parser α).Keeps := by
  rintro c x here ⟨⟩

theorem keeps_peek : (peek a).Keeps := by
  rintro c _ _ ⟨⟩
  rfl

theorem keeps_name? : (name? a).Keeps := by
  intro c x here read
  unfold name? at read
  split at read
  · split at read <;>
    · cases read
      rfl
  · cases read
    rfl

theorem keeps_atMark {mark : String} : (atMark a mark).Keeps := by
  intro c x here read
  unfold atMark at read
  split at read <;>
  · cases read
    rfl

theorem keeps_atWord {text : String} : (atWord a text).Keeps := keeps_name?.bind fun _ => .pure

theorem keeps_noWord {words : List String} : (noWord a words).Keeps := by
  refine keeps_name?.bind fun _ => ?_
  split
  · exact keeps_refuse
  · exact .pure

/-! ### Positions and marks -/

theorem bind_peek {f : Lexeme × Cursor → Parser β} (next : ∀ lexeme there, there.Tracks m →
    c.Reaches (lexeme, there) → (f (lexeme, there)).ReadsFrom m c S) :
    (peek a >>= f).ReadsFrom m c S := by
  intro tracks y there read
  exact next _ _ (tracks.next a) (c.reaches_next a) tracks y there read

theorem bind_moveTo {f : Unit → Parser β} (tracks : there.Tracks m)
    (further : c.offset ≤ there.offset) (next : (f ()).ReadsFrom m there S) :
    (moveTo there >>= f).ReadsFrom m c S := by
  intro _ y last read
  obtain ⟨behind, furthest, holds⟩ := next tracks y last read
  exact ⟨behind, further.trans furthest, holds⟩

theorem reads_moveTo (tracks : there.Tracks m) (further : c.offset ≤ there.offset) :
    (moveTo there).ReadsFrom m c fun _ here => here = there := by
  rintro _ _ _ ⟨⟩
  exact ⟨tracks, further, rfl⟩

theorem bind_get {f : Cursor → Parser β} (next : c.Tracks m → (f c).ReadsFrom m c S) :
    (get >>= f : Parser β).ReadsFrom m c S :=
  fun tracks y there read => next tracks tracks y there read

theorem bind_offset {f : Nat → Parser β}
    (next : m.IsBoundary c.offset → (f c.offset).ReadsFrom m c S) :
    (offset >>= f).ReadsFrom m c S :=
  fun tracks y there read => next tracks.stands.isBoundary_offset tracks y there read

theorem bind_token {f : Cursor → Parser β}
    (next : ∀ there, there.Tracks m → there.offset = c.front → (f there).ReadsFrom m c S) :
    (token a >>= f).ReadsFrom m c S := by
  have reads : (token a).ReadsFrom m c fun there here =>
      here = c ∧ there.Tracks m ∧ there.offset = c.front := by
    refine bind_peek fun lexeme there tracks reaches => ?_
    split
    · rename_i same
      cases same
      exact .pure ⟨rfl, tracks, reaches⟩
    · exact reads_refuse
  refine reads.bind fun there here _ found => ?_
  obtain ⟨rfl, tracks, offset⟩ := found
  exact next there tracks offset

theorem bind_startOf {f : Nat → Parser β}
    (next : m.IsBoundary c.front → (f c.front).ReadsFrom m c S) :
    (startOf a >>= f).ReadsFrom m c S := by
  have reads : (startOf a).ReadsFrom m c fun start here => here = c ∧ start = c.front := by
    refine bind_peek fun lexeme there tracks reaches => ?_
    split
    · rename_i same
      cases same
      exact .pure ⟨rfl, reaches⟩
    · rename_i same
      cases same
      exact .pure ⟨rfl, reaches.1⟩
    · exact reads_refuse
  intro tracks
  refine (reads.bind fun start here _ found => ?_) tracks
  obtain ⟨rfl, rfl⟩ := found
  exact next tracks.stands.isBoundary_front

theorem bind_name? {f : Option (String × Cursor) → Parser β}
    (next : ∀ found, (∀ x ∈ found, x.2.Tracks m ∧ c.front ≤ x.2.offset) →
      (f found).ReadsFrom m c S) : (name? a >>= f).ReadsFrom m c S := by
  have reads : (name? a).ReadsFrom m c fun found here =>
      here = c ∧ ∀ x ∈ found, x.2.Tracks m ∧ c.front ≤ x.2.offset := by
    intro tracks found here read
    unfold name? at read
    split at read
    · rename_i there next
      split at read
      · cases read
        exact ⟨tracks, le_rfl, rfl, nofun⟩
      · cases read
        refine ⟨tracks, le_rfl, rfl, ?_⟩
        rintro _ ⟨⟩
        exact ⟨(tracks.of_next next).advance _,
          (Cursor.offset_of_next next).ge.trans (there.offset_le_advance _)⟩
    · cases read
      exact ⟨tracks, le_rfl, rfl, nofun⟩
  refine reads.bind fun found here _ given => ?_
  obtain ⟨rfl, given⟩ := given
  exact next found given

/-- What is read from the next token on is behind the front. -/
theorem passes_advance (tracks : there.Tracks m) (starts : there.offset = c.front) (count : Nat) :
    (moveTo (there.advance count)).Passes m c := by
  have further := there.offset_le_advance count
  have behind := c.offset_le_front
  refine (reads_moveTo (tracks.advance count) (by omega)).mono ?_
  rintro _ _ - - rfl
  omega

theorem passes_mark {text : String} : (mark a text).Passes m c := by
  refine bind_token fun there tracks starts => ?_
  split
  · exact passes_advance tracks starts _
  · exact reads_refuse

theorem passes_character {d : Char} : (character a d).Passes m c := by
  refine bind_token fun there tracks starts => ?_
  split
  · exact passes_advance tracks starts _
  · exact reads_refuse

theorem passes_oneOf {marks : List String} : (oneOf a marks).Passes m c := by
  refine bind_token fun there tracks starts => ?_
  dsimp only
  split
  · exact (passes_advance tracks starts _).bind fun _ _ _ past => .pure past
  · exact reads_refuse

theorem passes_word {text : String} : (word a text).Passes m c := by
  refine bind_name? fun found behind => ?_
  split
  · rename_i name there
    obtain ⟨tracks, past⟩ := behind _ rfl
    split
    · have start := c.offset_le_front
      refine (reads_moveTo tracks (by omega)).mono ?_
      rintro _ _ - - rfl
      exact past
    · exact reads_refuse
  · exact reads_refuse

theorem follows_newline : newline.Follows m c := by
  refine bind_peek fun lexeme there tracks reaches => ?_
  split
  · rename_i same
    cases same
    refine (reads_moveTo tracks reaches.1).mono ?_
    rintro _ _ - - rfl
    exact reaches.2.symm.le
  · exact reads_refuse

/-! ### One behind the other -/

theorem ReadsFrom.follows (passes : p.Passes m c) : p.Follows m c :=
  passes.mono fun _ _ _ behind past => past.trans behind

theorem ReadsFrom.spans_bind {f : α → Parser Node} (first : p.Follows m c)
    (next : ∀ x here, (f x).Spans m here) : (p >>= f).Spans m c :=
  first.bind fun x here _ after => (next x here).mono fun _ _ _ _ spans =>
    spans.mono ⟨after, le_rfl⟩

/-- Parts that are read behind a mark each. -/
theorem rows_manyMarked {text : String} {f : Unit → Parser Node}
    (spans : ∀ c, (f ()).Spans m c) : (Parser.many (mark a text >>= f)).Rows m c :=
  rows_many fun _ => passes_mark.follows.spans_bind fun _ => spans

/-! ### Nodes over what is read -/

variable {kind : NodeKind} {low start : Nat} {first : Node} {children : List Node}

theorem finish_spans (bound : m.IsBoundary start) (le : low ≤ start ∧ start ≤ c.offset)
    (row : m.Row start c.offset children) :
    (finish kind start children).SpansFrom m low c := by
  rintro tracks _ _ ⟨⟩
  exact ⟨tracks, le_rfl, le.1, le.2, le_rfl,
    Node.liesIn_mk_iff.mpr ⟨⟨bound, tracks.stands.isBoundary_offset⟩, le.2, row.finished tracks⟩⟩

theorem spanning_spans (row : m.Row low c.offset (first :: children)) :
    (spanning kind (first :: children)).SpansFrom m low c := by
  obtain ⟨⟨after, filled, before, lies⟩, rest⟩ := row
  exact finish_spans (lies.bounded _ first.self_mem_subtrees).1 ⟨after, filled.trans before⟩
    ⟨⟨le_rfl, filled, before, lies⟩, rest⟩

/-- A node over the next token alone. -/
theorem leaf_spans (tracks : there.Tracks m) (starts : there.offset = c.front) (count : Nat) :
    (do moveTo (there.advance count); finish kind there.offset [] : Parser Node).Spans m c := by
  refine (passes_advance tracks starts count).bind fun _ here _ past => ?_
  exact finish_spans tracks.stands.isBoundary_offset ⟨starts.ge, starts.trans_le past⟩ .nil

theorem identifier_spans : (identifier a).Spans m c := by
  refine bind_token fun there tracks starts => ?_
  split
  · exact reads_refuse
  · exact leaf_spans tracks starts _

end Parser

end DeployManifest
