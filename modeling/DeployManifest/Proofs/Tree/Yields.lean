import DeployManifest.Source.Module
import DeployManifest.Tree.Rule

/-! # What parsers yield

A parser that starts in a module stays in it: its position is always a place of the text, and the
joints of lines that it has passed are places of a backslash and a line end. `Parser.Yields` adds
what can be said of the result; there is a lemma for each way in which parsers are put together.
-/

namespace DeployManifest

namespace SourceModule

variable {m : SourceModule}

theorem byteCount_cons (c : Char) (cs : List Char) :
    Cursor.byteCount (c :: cs) = c.utf8Size + Cursor.byteCount cs := by
  have shifted (start : Nat) : cs.foldl (fun n c => n + c.utf8Size) start =
      start + cs.foldl (fun n c => n + c.utf8Size) 0 := by
    induction cs generalizing start with
    | nil => rfl
    | cons d cs ih =>
      rw [List.foldl_cons, ih (start + d.utf8Size), List.foldl_cons, ih (0 + d.utf8Size)]
      omega
  rw [Cursor.byteCount, List.foldl_cons, shifted, Nat.zero_add, Cursor.byteCount]

theorem byteCount_append (front back : List Char) :
    Cursor.byteCount (front ++ back) = Cursor.byteCount front + Cursor.byteCount back := by
  induction front with
  | nil => exact (Nat.zero_add _).symm
  | cons c front ih =>
    rw [List.cons_append, byteCount_cons, byteCount_cons, ih, Nat.add_assoc]

theorem dropBytes_append (front back : List Char) :
    dropBytes (Cursor.byteCount front) (front ++ back) = back := by
  induction front with
  | nil => cases back <;> rfl
  | cons c front ih =>
    have some := c.utf8Size_pos
    rw [byteCount_cons, List.cons_append, dropBytes, if_neg (by omega), Nat.add_sub_cancel_left, ih]

theorem takeBytes_append (front back : List Char) :
    takeBytes (Cursor.byteCount front) (front ++ back) = front := by
  induction front with
  | nil => cases back <;> rfl
  | cons c front ih =>
    have some := c.utf8Size_pos
    rw [byteCount_cons, List.cons_append, takeBytes, if_neg (by omega), Nat.add_sub_cancel_left, ih]

/-- The text between two places. -/
theorem slice_eq {front middle back : List Char} (whole : m.text = front ++ (middle ++ back)) :
    m.slice (Cursor.byteCount front) (Cursor.byteCount front + Cursor.byteCount middle) =
      middle := by
  rw [slice, whole, dropBytes_append, Nat.add_sub_cancel_left, takeBytes_append]

/-- What a joint of lines is written as; at the end of the module it is the backslash alone. -/
def jointTexts : List (List Char) := [['\\', '\n'], ['\\', '\r', '\n'], ['\\']]

end SourceModule

namespace Cursor

variable {m : SourceModule} {c : Cursor}

/-- The position is a place of the module, and so are the joints that have been passed. -/
structure StandsIn (m : SourceModule) (c : Cursor) : Prop where
  place : ∃ front, m.text = front ++ c.rest ∧ byteCount front = c.offset
  joints : ∀ joint ∈ c.joints, m.slice joint.1 joint.2 ∈ SourceModule.jointTexts

theorem standsIn_ofText (m : SourceModule) : (ofText m.text).StandsIn m := by
  unfold ofText
  split
  · rename_i rest marked
    exact ⟨⟨['\uFEFF'], marked, rfl⟩, nofun⟩
  · exact ⟨⟨[], rfl, rfl⟩, nofun⟩

theorem StandsIn.advance (stands : c.StandsIn m) (count : Nat) : (c.advance count).StandsIn m := by
  obtain ⟨⟨front, whole, bytes⟩, joints⟩ := stands
  refine ⟨⟨front ++ c.rest.take count, ?_, ?_⟩, joints⟩
  · rw [whole, List.append_assoc]
    exact congrArg (front ++ ·) (List.take_append_drop ..).symm
  · rw [SourceModule.byteCount_append, bytes]
    rfl

/-- The text that is read between two positions. -/
theorem StandsIn.slice_advance (stands : c.StandsIn m) (count : Nat) :
    m.slice c.offset (c.advance count).offset = c.rest.take count := by
  obtain ⟨⟨front, whole, bytes⟩, -⟩ := stands
  rw [Cursor.advance, ← bytes]
  exact SourceModule.slice_eq (by rw [whole, List.take_append_drop])

theorem StandsIn.skipJoint (stands : c.StandsIn m) {count : Nat}
    (joint : c.rest.take count ∈ SourceModule.jointTexts)
    (bytes : byteCount (c.rest.take count) = count) : (c.skipJoint count).StandsIn m := by
  have behind := stands.advance count
  have text := stands.slice_advance count
  rw [Cursor.advance, bytes] at text
  refine ⟨behind.place, List.forall_mem_cons.mpr ⟨?_, stands.joints⟩⟩
  rw [text]
  exact joint

/-- Marks of line structure change the open blocks only, and a string is entered behind its quotes. -/
theorem layout?_cases {a : Admits} {lexeme : Lexeme} {behind : Cursor}
    (found : c.layout? a = some (lexeme, behind)) :
    (∃ indents, behind = { c with indents := indents } ∧
      (lexeme = .newline ∨ lexeme = .indent ∨ lexeme = .dedent)) ∨
    ∃ comments gap quotes rest, measure comments ⟨0, false, none, []⟩ false c.rest = some gap ∧
      openQuotes? gap.rest = some (quotes, rest) ∧
      lexeme = .quotes quotes (c.advanceTo gap.rest).offset ∧
      behind = { c.advanceTo rest with inFormat := quotes.format } := by
  unfold Cursor.layout? at found
  dsimp only at found
  split at found
  · cases found
  · rename_i gap measured
    split at found
    · cases found
      exact .inl ⟨_, rfl, .inr (.inl rfl)⟩
    · split at found
      · cases found
        exact .inl ⟨_, rfl, .inr (.inr rfl)⟩
      · split at found
        · cases found
          exact .inl ⟨_, rfl, .inl rfl⟩
        · split at found
          · obtain ⟨⟨quotes, rest⟩, opens, opened⟩ := Option.map_eq_some_iff.mp found
            cases opened
            exact .inr ⟨_, gap, quotes, rest, measured, opens, rfl, rfl⟩
          · cases found

theorem StandsIn.layout? {a : Admits} {lexeme : Lexeme} {c' : Cursor} (stands : c.StandsIn m)
    (found : c.layout? a = some (lexeme, c')) : c'.StandsIn m := by
  rcases layout?_cases found with ⟨indents, rfl, -⟩ | ⟨_, _, quotes, rest, -, -, -, rfl⟩
  · exact ⟨stands.place, stands.joints⟩
  · have behind : (c.advanceTo rest).StandsIn m := stands.advance _
    exact ⟨behind.place, behind.joints⟩

theorem StandsIn.nextWithin {a : Admits} {fuel : Nat} (stands : c.StandsIn m) :
    (c.nextWithin a fuel).2.StandsIn m := by
  induction fuel generalizing c with
  | zero => exact stands
  | succ fuel ih =>
    have here : c.skipSpace.StandsIn m := stands.advance _
    unfold Cursor.nextWithin
    split
    · rename_i found
      exact stands.layout? found
    · dsimp only
      split
      · exact ih (here.advance _)
      · rename_i starts
        exact ih (here.skipJoint (by simp [starts, SourceModule.jointTexts]) (by rw [starts]; rfl))
      · rename_i starts
        exact ih (here.skipJoint (by simp [starts, SourceModule.jointTexts]) (by rw [starts]; rfl))
      · rename_i starts
        exact ih (here.skipJoint (by simp [starts, SourceModule.jointTexts]) (by rw [starts]; rfl))
      · exact here

theorem StandsIn.next (stands : c.StandsIn m) (a : Admits) : (c.next a).2.StandsIn m :=
  stands.nextWithin

end Cursor

namespace Parser

variable {m : SourceModule} {α β : Type} {p q : Parser α} {f : α → Parser β} {Q R : α → Prop}
  {S : β → Prop} {a : Admits}

/-- From a place of the module the parser leaves off at one, and its result is as said. -/
def Yields (m : SourceModule) (p : Parser α) (Q : α → Prop) : Prop :=
  ∀ c x c', c.StandsIn m → p c = some (x, c') → c'.StandsIn m ∧ Q x

/-- From a place of the module the parser leaves off at one. -/
abbrev Stays (m : SourceModule) (p : Parser α) : Prop := p.Yields m fun _ => True

theorem Yields.mono (yields : p.Yields m Q) (weaker : ∀ x, Q x → R x) : p.Yields m R :=
  fun c x c' stands read => (yields c x c' stands read).imp_right (weaker x)

/-! ### How parsers are put together -/

theorem Yields.pure {x : α} (holds : Q x) : (Pure.pure x : Parser α).Yields m Q := by
  rintro c _ _ stands ⟨⟩
  exact ⟨stands, holds⟩

theorem Yields.bind (first : p.Yields m Q) (next : ∀ x, Q x → (f x).Yields m S) :
    (p >>= f).Yields m S := by
  intro c y c' stands read
  obtain ⟨⟨x, here⟩, started, read⟩ := Option.bind_eq_some_iff.mp read
  obtain ⟨stands, holds⟩ := first c x here stands started
  exact next x holds here y c' stands read

theorem yields_refuse : (refuse : Parser α).Yields m Q := by
  rintro c x c' - ⟨⟩

theorem Yields.or (first : p.Yields m Q) (second : q.Yields m Q) :
    (Parser.or p q).Yields m Q := by
  intro c x c' stands read
  unfold Parser.or at read
  split at read
  · rename_i result started
    cases read
    exact first c x c' stands started
  · exact second c x c' stands read

theorem Yields.option (yields : p.Yields m Q) :
    (Parser.option p).Yields m fun found => ∀ x ∈ found, Q x := by
  intro c found c' stands read
  unfold Parser.option at read
  split at read
  · rename_i x here started
    cases read
    obtain ⟨stands, holds⟩ := yields c x _ stands started
    exact ⟨stands, fun y same => Option.some.inj same ▸ holds⟩
  · cases read
    exact ⟨stands, nofun⟩

theorem Yields.repeatWithin (yields : p.Yields m Q) (fuel : Nat) :
    (Parser.repeatWithin p fuel).Yields m fun found => ∀ x ∈ found, Q x := by
  induction fuel with
  | zero =>
    rintro c _ _ stands ⟨⟩
    exact ⟨stands, nofun⟩
  | succ fuel ih =>
    intro c found c' stands read
    unfold Parser.repeatWithin at read
    split at read
    · cases read
      exact ⟨stands, nofun⟩
    · rename_i x here started
      obtain ⟨stands, holds⟩ := yields c x here stands started
      split at read
      · rename_i others behind more
        cases read
        obtain ⟨stands, hold⟩ := ih here others _ stands more
        exact ⟨stands, List.forall_mem_cons.mpr ⟨holds, hold⟩⟩
      · cases read

theorem Yields.many (yields : p.Yields m Q) :
    (Parser.many p).Yields m fun found => ∀ x ∈ found, Q x :=
  fun c found c' stands read => yields.repeatWithin _ c found c' stands read

theorem Yields.oneOrMore (yields : p.Yields m Q) :
    (Parser.oneOrMore p).Yields m fun found => ∀ x ∈ found, Q x :=
  yields.bind fun _ first => yields.many.bind fun _ others =>
    .pure (List.forall_mem_cons.mpr ⟨first, others⟩)

/-! ### Positions and marks -/

theorem yields_peek : (peek a).Yields m fun found => found.2.StandsIn m := by
  rintro c _ _ stands ⟨⟩
  exact ⟨stands, stands.next a⟩

theorem stays_moveTo {here : Cursor} (stands : here.StandsIn m) : (moveTo here).Stays m := by
  rintro c _ _ - ⟨⟩
  exact ⟨stands, trivial⟩

theorem yields_get : (get : Parser Cursor).Yields m fun here => here.StandsIn m := by
  rintro c _ _ stands ⟨⟩
  exact ⟨stands, stands⟩

theorem stays_offset : offset.Stays m := by
  rintro c _ _ stands ⟨⟩
  exact ⟨stands, trivial⟩

theorem yields_token : (token a).Yields m fun here => here.StandsIn m := by
  refine yields_peek.bind fun found stands => ?_
  split
  · exact .pure stands
  · exact yields_refuse

theorem stays_startOf : (startOf a).Stays m := by
  refine yields_peek.bind fun _ _ => ?_
  split
  · exact .pure trivial
  · exact .pure trivial
  · exact yields_refuse

theorem stays_atMark {mark : String} : (atMark a mark).Stays m := by
  intro c x c' stands read
  unfold atMark at read
  split at read <;>
  · cases read
    exact ⟨stands, trivial⟩

theorem stays_mark {text : String} : (mark a text).Stays m := by
  refine yields_token.bind fun here stands => ?_
  split
  · exact stays_moveTo (stands.advance _)
  · exact yields_refuse

theorem stays_character {d : Char} : (character a d).Stays m := by
  refine yields_token.bind fun here stands => ?_
  split
  · exact stays_moveTo (stands.advance _)
  · exact yields_refuse

theorem stays_oneOf {marks : List String} : (oneOf a marks).Stays m := by
  refine yields_token.bind fun here stands => ?_
  dsimp only
  split
  · exact (stays_moveTo (stands.advance _)).bind fun _ _ => .pure trivial
  · exact yields_refuse

theorem yields_name? : (name? a).Yields m fun found => ∀ x ∈ found, x.2.StandsIn m := by
  intro c x c' stands read
  unfold name? at read
  split at read
  · rename_i here next
    have behind : here.StandsIn m := by simpa [next] using stands.next a
    split at read
    · cases read
      exact ⟨stands, nofun⟩
    · cases read
      refine ⟨stands, ?_⟩
      rintro _ ⟨⟩
      exact behind.advance _
  · cases read
    exact ⟨stands, nofun⟩

theorem stays_atWord {text : String} : (atWord a text).Stays m :=
  yields_name?.bind fun _ _ => .pure trivial

theorem stays_word {text : String} : (word a text).Stays m := by
  refine yields_name?.bind fun found stands => ?_
  split
  · split
    · exact stays_moveTo (stands _ rfl)
    · exact yields_refuse
  · exact yields_refuse

theorem stays_newline : newline.Stays m := by
  refine yields_peek.bind fun found stands => ?_
  split
  · exact stays_moveTo stands
  · exact yields_refuse

theorem stays_noWord {words : List String} : (noWord a words).Stays m := by
  refine yields_name?.bind fun _ _ => ?_
  split
  · exact yields_refuse
  · exact .pure trivial

end Parser

end DeployManifest
