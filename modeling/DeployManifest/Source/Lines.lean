import DeployManifest.Source.Module

/-! # Lines

An index of a text holds the offsets at which its lines start. A place is looked up by halving the
index, and the characters of its line are counted up to the offset.
-/

namespace DeployManifest

/-- The number of items that pass a test, where none passes behind one that fails. The list is
halved at its middle, and the half that is decided is left out. -/
def partitionPoint {α : Type} (test : α → Bool) (xs : List α) : Nat :=
  match split : xs.drop (xs.length / 2) with
  | [] => 0
  | middle :: behind =>
    if test middle then xs.length / 2 + 1 + partitionPoint test behind
    else partitionPoint test (xs.take (xs.length / 2))
termination_by xs.length
decreasing_by
  all_goals
    have whole := congrArg List.length split
    rw [List.length_drop, List.length_cons] at whole
  · omega
  · rw [List.length_take]
    omega

/-- A text up to a number of bytes and behind them, if a character ends there. -/
def splitBytes? : List Char → Nat → Option (List Char × List Char)
  | cs, 0 => some ([], cs)
  | [], _ + 1 => none
  | c :: cs, count + 1 =>
    if c.utf8Size ≤ count + 1 then
      (splitBytes? cs (count + 1 - c.utf8Size)).map fun (front, back) => (c :: front, back)
    else none

/-- The part of a text between two offsets, if they are in order and characters end at both. -/
def between? (text : List Char) (start stop : Nat) : Option (List Char) :=
  if start ≤ stop then
    (splitBytes? text start).bind fun (_, rest) => (splitBytes? rest (stop - start)).map (·.1)
  else none

/-- The offsets at which the lines of a text start, in ascending order. -/
structure LineIndex where
  starts : List Nat

namespace LineIndex

/-- The offsets behind the line feeds of a text that stands at an offset. -/
def behindFeeds (offset : Nat) : List Char → List Nat
  | [] => []
  | c :: cs =>
    if c = '\n' then (offset + 1) :: behindFeeds (offset + 1) cs
    else behindFeeds (offset + c.utf8Size) cs

/-- The first line starts with the text, and every other one behind a line feed. -/
def ofText (text : List Char) : LineIndex := ⟨0 :: behindFeeds 0 text⟩

/-- The line and column at an offset, if the index has a start for the line. An offset inside a
character, or behind the text, is put in the first column of its line. -/
def locate? (index : LineIndex) (text : List Char) (offset : Nat) : Option (Nat × Nat) :=
  let line := max (partitionPoint (fun start => decide (start ≤ offset)) index.starts) 1
  (index.starts[line - 1]?).map fun start =>
    (line, ((between? text start offset).map (·.length + 1)).getD 1)

end LineIndex

namespace SourceModule

def locate? (m : SourceModule) (offset : Nat) : Option (Nat × Nat) :=
  (LineIndex.ofText m.text).locate? m.text offset

end SourceModule

end DeployManifest
