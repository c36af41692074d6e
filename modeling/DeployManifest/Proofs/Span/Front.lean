import DeployManifest.Proofs.Source.Lines

/-! # Where the next token starts

White space, comments and joints of lines are passed over before a token. Where that ends depends on
the text alone: `Cursor.front` is the offset, whatever is admitted next. What `Cursor.next` comes to
starts there (`reaches_next`); marks of line structure leave it as it is.
-/

namespace DeployManifest.Cursor

open SourceModule (byteCount_cons byteCount_append)

variable {m : SourceModule} {c here : Cursor}

/-- The text behind white space, comments and joints of lines; it may start inside a comment. -/
def afterBlank : Bool → List Char → List Char
  | _, [] => []
  | true, d :: cs => if d = '\n' then afterBlank false cs else afterBlank true cs
  | false, d :: cs =>
    if isSpace d then afterBlank false cs
    else if d = '#' then afterBlank true cs
    else if d = '\\' then
      match cs with
      | '\n' :: cs => afterBlank false cs
      | '\r' :: '\n' :: cs => afterBlank false cs
      | [] => []
      | _ => d :: cs
    else d :: cs

theorem afterBlank_suffix (inComment : Bool) (cs : List Char) :
    afterBlank inComment cs <:+ cs := by
  fun_induction afterBlank inComment cs with
  | case1 | case8 => exact List.nil_suffix
  | case2 _ ih => exact ih.trans (List.suffix_cons ..)
  | case3 _ _ _ ih => exact ih.trans (List.suffix_cons ..)
  | case4 _ _ _ ih => exact ih.trans (List.suffix_cons ..)
  | case5 _ _ ih => exact ih.trans (List.suffix_cons ..)
  | case6 rest _ _ ih => exact ih.trans (List.suffix_append ['\\', '\n'] rest)
  | case7 rest _ _ ih => exact ih.trans (List.suffix_append ['\\', '\r', '\n'] rest)
  | case9 | case10 => exact List.suffix_rfl

theorem afterBlank_space {d : Char} (space : isSpace d = true) (cs : List Char) :
    afterBlank false (d :: cs) = afterBlank false cs := by
  simp [afterBlank.eq_def false (d :: cs), space]

theorem afterBlank_comment (cs : List Char) :
    afterBlank false ('#' :: cs) = afterBlank true cs := by
  simp [afterBlank.eq_def false ('#' :: cs), show isSpace '#' = false by decide]

theorem afterBlank_joint (cs : List Char) :
    afterBlank false ('\\' :: '\n' :: cs) = afterBlank false cs := by
  simp [afterBlank.eq_def false ('\\' :: _), show isSpace '\\' = false by decide]

theorem afterBlank_joint_return (cs : List Char) :
    afterBlank false ('\\' :: '\r' :: '\n' :: cs) = afterBlank false cs := by
  simp [afterBlank.eq_def false ('\\' :: _), show isSpace '\\' = false by decide]

/-- Is the character passed over neither as white space nor as the start of a comment or joint? -/
def startsToken (d : Char) : Bool := !isSpace d && d != '#' && d != '\\'

theorem afterBlank_token {d : Char} (starts : startsToken d = true) (cs : List Char) :
    afterBlank false (d :: cs) = d :: cs := by
  rw [startsToken, Bool.and_eq_true, Bool.and_eq_true] at starts
  obtain ⟨⟨other, noComment⟩, noJoint⟩ := starts
  simp_all [afterBlank.eq_def false (d :: cs)]

/-- Nothing is passed over where neither white space nor a comment or joint comes first. -/
theorem afterBlank_eq_self {cs : List Char} (spaced : cs.dropWhile isSpace = cs)
    (comment : ∀ rest, cs ≠ '#' :: rest) (joint : ∀ rest, cs ≠ '\\' :: '\n' :: rest)
    (joint' : ∀ rest, cs ≠ '\\' :: '\r' :: '\n' :: rest) (last : cs ≠ ['\\']) :
    afterBlank false cs = cs := by
  cases cs with
  | nil => rfl
  | cons d cs =>
    have other : ¬isSpace d = true := by
      intro space
      have shorter := (List.dropWhile_suffix isSpace (l := cs)).length_le
      rw [List.dropWhile_cons, if_pos space] at spaced
      rw [spaced, List.length_cons] at shorter
      omega
    have hash : d ≠ '#' := fun same => comment cs (same ▸ rfl)
    rw [afterBlank.eq_def]
    dsimp only
    rw [if_neg other, if_neg hash]
    split
    · rename_i slash
      subst slash
      split
      · exact absurd rfl (joint _)
      · exact absurd rfl (joint' _)
      · exact absurd rfl last
      · rfl
    · rfl

theorem afterBlank_dropWhile_isSpace (cs : List Char) :
    afterBlank false (cs.dropWhile isSpace) = afterBlank false cs := by
  induction cs with
  | nil => rfl
  | cons d cs ih =>
    rw [List.dropWhile_cons]
    split
    · rename_i space
      rw [ih, afterBlank_space space]
    · rfl

/-- A comment ends with its line. -/
theorem afterBlank_dropWhile_line (cs : List Char) :
    afterBlank false (cs.dropWhile (· != '\n')) = afterBlank true cs := by
  induction cs with
  | nil => rfl
  | cons d cs ih =>
    rw [List.dropWhile_cons, afterBlank.eq_2]
    split
    · rename_i other
      rw [ih, if_neg (by simpa using other)]
    · rename_i feed
      obtain rfl : d = '\n' := by simpa using feed
      rw [if_pos rfl, afterBlank_space (by decide)]

/-- The white space that is measured is passed over. -/
theorem afterBlank_measure {comments inComment : Bool} {gap found : Gap} {cs : List Char}
    (measured : measure comments gap inComment cs = some found) (more : found.rest ≠ []) :
    afterBlank inComment cs = afterBlank false found.rest := by
  fun_induction measure comments gap inComment cs with
  | case1 | case12 | case13 =>
    cases measured
    exact absurd rfl more
  | case2 _ _ ih => exact ih measured
  | case3 _ d cs other ih => rw [afterBlank.eq_2, if_neg other, ih measured]
  | case4 _ _ ih | case5 _ _ _ ih | case7 _ _ _ _ _ ih =>
    rw [afterBlank_space (by decide), ih measured]
  | case6 _ d _ _ _ space ih =>
    rw [afterBlank_space (by rcases space with rfl | rfl <;> decide), ih measured]
  | case8 _ d _ _ _ _ _ comment _ ih =>
    obtain ⟨rfl, -⟩ := comment
    rw [afterBlank_comment, ih measured]
  | case10 _ _ _ _ _ _ _ ih => exact ih measured
  | case11 _ _ _ _ _ _ _ ih => exact ih measured
  | case9 | case14 => cases measured
  | case15 =>
    cases measured
    rfl

theorem startsToken_of_isPrefixLetter {d : Char} (letter : isPrefixLetter d = true) :
    startsToken d = true := by
  simp only [isPrefixLetter, Bool.or_eq_true, beq_iff_eq] at letter
  rcases letter with ((((((rfl | rfl) | rfl) | rfl) | rfl) | rfl) | rfl) | rfl <;> decide

/-- Letters and a quote are passed over neither, and what is behind them is shorter. -/
theorem openQuotes?_spec {cs rest : List Char} {quotes : Quotes}
    (found : openQuotes? cs = some (quotes, rest)) :
    afterBlank false cs = cs ∧ cs ≠ [] ∧ rest.length ≤ cs.length := by
  have opened : ∃ d behind, cs.dropWhile isPrefixLetter = d :: behind ∧ startsToken d = true ∧
      rest.length ≤ behind.length := by
    unfold openQuotes? at found
    dsimp only at found
    split at found
    · rename_i quote
      cases found
      exact ⟨_, _, quote, by decide, by simp only [List.length_cons]; omega⟩
    · rename_i quote
      cases found
      exact ⟨_, _, quote, by decide, by simp only [List.length_cons]; omega⟩
    · rename_i quote
      cases found
      exact ⟨_, _, quote, by decide, le_rfl⟩
    · rename_i quote
      cases found
      exact ⟨_, _, quote, by decide, le_rfl⟩
    · rename_i d behind _ _ _ _ quote
      split at found
      · rename_i back
        obtain rfl : d = Char.ofNat 96 := by rw [← back, Char.ofNat_toNat]
        cases found
        exact ⟨_, _, quote, by decide, le_rfl⟩
      · cases found
    · cases found
  obtain ⟨d, behind, quote, starts, shorter⟩ := opened
  cases cs with
  | nil => cases quote
  | cons first cs =>
    have within := (List.dropWhile_suffix isPrefixLetter (l := first :: cs)).length_le
    rw [quote, List.length_cons, List.length_cons] at within
    refine ⟨afterBlank_token ?_ cs, nofun, by rw [List.length_cons]; omega⟩
    rw [List.dropWhile_cons] at quote
    split at quote
    · rename_i letter
      exact startsToken_of_isPrefixLetter letter
    · cases quote
      exact starts

/-! ### The front -/

/-- The offset where the next token starts: behind white space, comments and joints of lines. -/
def front (c : Cursor) : Nat := c.offset + (byteCount c.rest - byteCount (afterBlank false c.rest))

theorem byteCount_afterBlank_le (inComment : Bool) (cs : List Char) :
    byteCount (afterBlank inComment cs) ≤ byteCount cs := by
  obtain ⟨blank, whole⟩ := afterBlank_suffix inComment cs
  conv => rhs; rw [← whole, byteCount_append]
  exact Nat.le_add_left ..

theorem offset_le_front (c : Cursor) : c.offset ≤ c.front := Nat.le_add_right ..

theorem offset_le_advance (c : Cursor) (count : Nat) : c.offset ≤ (c.advance count).offset :=
  Nat.le_add_right ..

/-- Reading does not move the end of the text. -/
theorem advance_end (c : Cursor) (count : Nat) :
    (c.advance count).offset + byteCount (c.advance count).rest = c.offset + byteCount c.rest := by
  conv => rhs; rw [← List.take_append_drop count c.rest, byteCount_append]
  exact Nat.add_assoc ..

theorem front_advance {count : Nat}
    (passed : afterBlank false (c.advance count).rest = afterBlank false c.rest) :
    (c.advance count).front = c.front := by
  have whole := c.advance_end count
  have less := byteCount_afterBlank_le false c.rest
  have less' := byteCount_afterBlank_le false (c.advance count).rest
  rw [front, front, passed]
  rw [passed] at less'
  omega

theorem offset_eq_front (starts : afterBlank false c.rest = c.rest) : c.offset = c.front := by
  rw [front, starts, Nat.sub_self, Nat.add_zero]

theorem drop_length_takeWhile (p : Char → Bool) (cs : List Char) :
    cs.drop (cs.takeWhile p).length = cs.dropWhile p := by
  have behind : (cs.takeWhile p ++ cs.dropWhile p).drop (cs.takeWhile p).length =
      cs.dropWhile p := List.drop_left
  rwa [List.takeWhile_append_dropWhile] at behind

theorem rest_skipSpace (c : Cursor) : c.skipSpace.rest = c.rest.dropWhile isSpace :=
  drop_length_takeWhile ..

theorem front_skipSpace (c : Cursor) : c.skipSpace.front = c.front := by
  refine front_advance ?_
  change afterBlank false c.skipSpace.rest = _
  rw [rest_skipSpace, afterBlank_dropWhile_isSpace]

theorem rest_advanceTo {rest : List Char} (inside : rest <:+ c.rest) :
    (c.advanceTo rest).rest = rest :=
  (List.suffix_iff_eq_drop.mp inside).symm

theorem offset_advance_le (c : Cursor) {count further : Nat} (le : count ≤ further) :
    (c.advance count).offset ≤ (c.advance further).offset := by
  obtain ⟨more, rfl⟩ := Nat.exists_eq_add_of_le le
  have both : (c.advance (count + more)).offset =
      c.offset + (byteCount (c.rest.take count) + byteCount ((c.rest.drop count).take more)) := by
    rw [advance, List.take_add, byteCount_append]
  rw [both]
  exact Nat.add_le_add_left (Nat.le_add_right ..) _

/-! ### What comes next -/

/-- Where something that comes next stands: a token or a string starts at the front, and a mark of
line structure is in front of it. -/
def Reaches (c : Cursor) : Lexeme × Cursor → Prop
  | (.token, here) => here.offset = c.front
  | (.quotes _ start, here) => start = c.front ∧ start ≤ here.offset
  | (.newline, here) | (.indent, here) | (.dedent, here) =>
    c.offset ≤ here.offset ∧ here.front = c.front

theorem Reaches.of_front {found : Lexeme × Cursor} (reaches : here.Reaches found)
    (further : c.offset ≤ here.offset) (same : here.front = c.front) : c.Reaches found := by
  obtain ⟨lexeme, behind⟩ := found
  cases lexeme with
  | newline | indent | dedent => exact ⟨further.trans reaches.1, reaches.2.trans same⟩
  | quotes q start => exact ⟨reaches.1.trans same, reaches.2⟩
  | token => exact Eq.trans reaches same

theorem reaches_layout? {a : Admits} {lexeme : Lexeme} (next : c.layout? a = some (lexeme, here)) :
    c.Reaches (lexeme, here) := by
  rcases layout?_cases next with
    ⟨indents, rfl, rfl | rfl | rfl⟩ | ⟨_, gap, quotes, rest, measured, opened, rfl, rfl⟩
  · exact ⟨le_rfl, rfl⟩
  · exact ⟨le_rfl, rfl⟩
  · exact ⟨le_rfl, rfl⟩
  · obtain ⟨starts, more, shorter⟩ := openQuotes?_spec opened
    have passed : afterBlank false c.rest = gap.rest :=
      (afterBlank_measure measured more).trans starts
    have measuredTo : (c.advanceTo gap.rest).rest = gap.rest :=
      rest_advanceTo (passed ▸ afterBlank_suffix ..)
    refine ⟨?_, offset_advance_le c (Nat.sub_le_sub_left shorter _)⟩
    rw [offset_eq_front (by rw [measuredTo, starts]), advanceTo, front_advance]
    change afterBlank false (c.advanceTo gap.rest).rest = _
    rw [measuredTo, starts, passed]

theorem reaches_nextWithin {a : Admits} {fuel : Nat} (enough : c.rest.length < fuel) :
    c.Reaches (c.nextWithin a fuel) := by
  induction fuel generalizing c with
  | zero => exact absurd enough (Nat.not_lt_zero _)
  | succ fuel ih =>
    have spaced : c.skipSpace.rest.length ≤ c.rest.length := by
      rw [rest_skipSpace]
      exact (List.dropWhile_suffix _).length_le
    have further : c.offset ≤ c.skipSpace.offset := c.offset_le_advance _
    -- A comment or a joint is passed over, and what comes next is the same behind it.
    have passes (behind : Cursor) (shorter : behind.rest.length < c.skipSpace.rest.length)
        (after : c.skipSpace.offset ≤ behind.offset) (same : behind.front = c.skipSpace.front) :
        c.Reaches (behind.nextWithin a fuel) :=
      (ih (by omega)).of_front (further.trans after) (same.trans c.front_skipSpace)
    have joined (count : Nat) (cs : List Char) (behind : c.skipSpace.rest.drop count = cs)
        (blank : afterBlank false cs = afterBlank false c.skipSpace.rest)
        (shorter : cs.length < c.skipSpace.rest.length) :
        c.Reaches ((c.skipSpace.skipJoint count).nextWithin a fuel) := by
      subst behind
      exact passes _ shorter (c.skipSpace.offset_le_advance count) (front_advance blank)
    unfold nextWithin
    split
    · rename_i found
      exact reaches_layout? found
    · dsimp only
      split
      · rename_i cs starts
        have behind : (c.skipSpace.advance (1 + (cs.takeWhile (· != '\n')).length)).rest =
            cs.dropWhile (· != '\n') := by
          rw [← drop_length_takeWhile, advance, starts, Nat.add_comm, List.drop_succ_cons]
        refine passes _ ?_ (c.skipSpace.offset_le_advance _) (front_advance ?_)
        · rw [behind, starts, List.length_cons]
          exact Nat.lt_succ_of_le (List.dropWhile_suffix _).length_le
        · rw [behind, starts, afterBlank_comment, afterBlank_dropWhile_line]
      · rename_i cs starts
        exact joined 2 cs (by rw [starts]; rfl) (by rw [starts, afterBlank_joint])
          (by rw [starts, List.length_cons, List.length_cons]; omega)
      · rename_i cs starts
        exact joined 3 cs (by rw [starts]; rfl) (by rw [starts, afterBlank_joint_return])
          (by rw [starts, List.length_cons, List.length_cons, List.length_cons]; omega)
      · rename_i starts
        exact joined 1 [] (by rw [starts]; rfl) (by rw [starts]; rfl)
          (by rw [starts]; exact Nat.zero_lt_one)
      · rename_i comment joint joint' last
        refine (offset_eq_front (afterBlank_eq_self ?_ comment joint joint' last)).trans
          c.front_skipSpace
        rw [rest_skipSpace, List.dropWhile_idempotent]

theorem reaches_next (c : Cursor) (a : Admits) : c.Reaches (c.next a) :=
  reaches_nextWithin (Nat.lt_succ_self _)

theorem offset_of_next {a : Admits} (next : c.next a = (.token, here)) : here.offset = c.front := by
  have reaches := c.reaches_next a
  rw [next] at reaches
  exact reaches

/-! ### Positions in a module -/

/-- The position is a place of the module. The joints of lines that have been passed are stretches
in front of it, each behind those that have been passed before. -/
structure Tracks (m : SourceModule) (c : Cursor) : Prop where
  stands : c.StandsIn m
  behind : ∀ joint ∈ c.joints, joint.1 < joint.2 ∧ joint.2 ≤ c.offset
  bounded : ∀ joint ∈ c.joints, m.IsBoundary joint.1 ∧ m.IsBoundary joint.2
  apart : c.joints.Pairwise fun later earlier => earlier.2 ≤ later.1

theorem tracks_ofText (m : SourceModule) : (ofText m.text).Tracks m := by
  have none : (ofText m.text).joints = [] := by
    unfold ofText
    split <;> rfl
  refine ⟨standsIn_ofText m, ?_, ?_, ?_⟩ <;> simp [none]

theorem StandsIn.isBoundary_offset (stands : c.StandsIn m) : m.IsBoundary c.offset := by
  obtain ⟨before, whole, bytes⟩ := stands.place
  exact ⟨before, c.rest, whole, bytes⟩

theorem StandsIn.isBoundary_front (stands : c.StandsIn m) : m.IsBoundary c.front := by
  obtain ⟨before, whole, bytes⟩ := stands.place
  obtain ⟨blank, split⟩ := afterBlank_suffix false c.rest
  refine ⟨before ++ blank, afterBlank false c.rest, by rw [whole, List.append_assoc, split], ?_⟩
  have length := congrArg byteCount split
  rw [byteCount_append] at length
  rw [byteCount_append, bytes, front]
  omega

theorem Tracks.advance (tracks : c.Tracks m) (count : Nat) : (c.advance count).Tracks m where
  stands := tracks.stands.advance count
  behind joint member := (tracks.behind joint member).imp_right fun before =>
    before.trans (c.offset_le_advance count)
  bounded := tracks.bounded
  apart := tracks.apart

theorem Tracks.skipJoint (tracks : c.Tracks m) {count : Nat}
    (joint : c.rest.take count ∈ SourceModule.jointTexts)
    (bytes : byteCount (c.rest.take count) = count) : (c.skipJoint count).Tracks m := by
  have after := tracks.advance count
  have offset : (c.advance count).offset = c.offset + count := by rw [Cursor.advance, bytes]
  have taken : 0 < count := by
    rw [← bytes]
    simp only [SourceModule.jointTexts, List.mem_cons, List.not_mem_nil, or_false] at joint
    rcases joint with same | same | same <;> rw [same] <;> decide
  refine ⟨tracks.stands.skipJoint joint bytes, ?_, ?_, ?_⟩
  · exact List.forall_mem_cons.mpr ⟨⟨Nat.lt_add_of_pos_right taken, offset.ge⟩, after.behind⟩
  · exact List.forall_mem_cons.mpr ⟨⟨tracks.stands.isBoundary_offset,
      offset ▸ after.stands.isBoundary_offset⟩, tracks.bounded⟩
  · exact List.pairwise_cons.mpr ⟨fun earlier member => (tracks.behind earlier member).2,
      tracks.apart⟩

theorem Tracks.withFormat (tracks : c.Tracks m) (inFormat : Bool) :
    ({ c with inFormat := inFormat } : Cursor).Tracks m :=
  ⟨⟨tracks.stands.place, tracks.stands.joints⟩, tracks.behind, tracks.bounded, tracks.apart⟩

/-- Where line structure or a string is found, no joint is passed. -/
theorem Tracks.layout? {a : Admits} {lexeme : Lexeme} (tracks : c.Tracks m)
    (found : c.layout? a = some (lexeme, here)) : here.Tracks m := by
  rcases layout?_cases found with ⟨indents, rfl, -⟩ | ⟨_, _, quotes, rest, -, -, -, rfl⟩
  · exact ⟨tracks.stands.layout? found, tracks.behind, tracks.bounded, tracks.apart⟩
  · exact Tracks.withFormat (c := c.advanceTo rest) (tracks.advance _) quotes.format

theorem Tracks.nextWithin {a : Admits} {fuel : Nat} (tracks : c.Tracks m) :
    (c.nextWithin a fuel).2.Tracks m := by
  induction fuel generalizing c with
  | zero => exact tracks
  | succ fuel ih =>
    have spaced : c.skipSpace.Tracks m := tracks.advance _
    unfold Cursor.nextWithin
    split
    · rename_i found
      exact tracks.layout? found
    · dsimp only
      split
      · exact ih (spaced.advance _)
      · rename_i starts
        exact ih (spaced.skipJoint (by simp [starts, SourceModule.jointTexts])
          (by rw [starts]; rfl))
      · rename_i starts
        exact ih (spaced.skipJoint (by simp [starts, SourceModule.jointTexts])
          (by rw [starts]; rfl))
      · rename_i starts
        exact ih (spaced.skipJoint (by simp [starts, SourceModule.jointTexts])
          (by rw [starts]; rfl))
      · exact spaced

theorem Tracks.next (tracks : c.Tracks m) (a : Admits) : (c.next a).2.Tracks m :=
  tracks.nextWithin

theorem Tracks.of_next {a : Admits} {lexeme : Lexeme} (tracks : c.Tracks m)
    (next : c.next a = (lexeme, here)) : here.Tracks m := by
  simpa [next] using tracks.next a

end DeployManifest.Cursor
