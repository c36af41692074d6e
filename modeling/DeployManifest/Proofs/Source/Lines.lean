import DeployManifest.Proofs.Tree.Yields
import DeployManifest.Source.Lines
import Mathlib.Data.List.DropRight

/-! # Looking up lines

The starts of lines ascend, so halving the index counts those up to an offset
(`partitionPoint_starts`). At a place between characters the line is one more than the line feeds in
front of it, and the column one more than the characters behind the last of them (`locate?_eq`). The
offset is found again by going as far from the start of the line (`offsetAt?_eq`).
-/

namespace DeployManifest

open Cursor (byteCount)
open SourceModule (byteCount_cons byteCount_append)

/-! ### Halving -/

section Partition

variable {α : Type} {test : α → Bool} {xs : List α}

theorem take_append_middle {middle : α} {behind : List α}
    (split : xs.drop (xs.length / 2) = middle :: behind) :
    xs.take (xs.length / 2) ++ middle :: behind = xs := by
  rw [← split, List.take_append_drop]

theorem partitionPoint_le_length (test : α → Bool) (xs : List α) :
    partitionPoint test xs ≤ xs.length := by
  fun_induction partitionPoint test xs with
  | case1 xs _ => exact Nat.zero_le _
  | case2 xs middle behind split _ ih =>
    have whole := congrArg List.length split
    rw [List.length_drop, List.length_cons] at whole
    omega
  | case3 xs middle behind _ _ ih =>
    rw [List.length_take] at ih
    omega

/-- Where none passes behind one that fails, those that pass are counted. -/
theorem partitionPoint_eq_countP
    (parted : xs.Pairwise fun x y => test y = true → test x = true) :
    partitionPoint test xs = xs.countP test := by
  fun_induction partitionPoint test xs with
  | case1 xs split =>
    have none : xs.length = 0 := by
      have all := List.drop_eq_nil_iff.mp split
      omega
    rw [List.length_eq_zero_iff.mp none, List.countP_nil]
  | case2 xs middle behind split passes ih =>
    have whole := take_append_middle split
    rw [← whole, List.pairwise_append, List.pairwise_cons] at parted
    obtain ⟨-, ⟨-, parted⟩, across⟩ := parted
    have all : (xs.take (xs.length / 2)).countP test = xs.length / 2 := by
      have each := fun x member => across x member middle (List.mem_cons_self ..) passes
      rw [List.countP_eq_length.mpr each, List.length_take]
      omega
    conv => rhs; rw [← whole, List.countP_append, List.countP_cons_of_pos passes, all]
    rw [ih parted]
    omega
  | case3 xs middle behind split fails ih =>
    have whole := take_append_middle split
    rw [← whole, List.pairwise_append, List.pairwise_cons] at parted
    obtain ⟨parted, ⟨first, -⟩, -⟩ := parted
    have none : (middle :: behind).countP test = 0 := by
      refine List.countP_eq_zero.mpr (List.forall_mem_cons.mpr ⟨fails, fun y member passes => ?_⟩)
      exact fails (first y member passes)
    conv => rhs; rw [← whole, List.countP_append, none]
    exact ih parted

end Partition

/-! ### Parts of a text -/

theorem splitBytes?_append (front back : List Char) :
    splitBytes? (front ++ back) (byteCount front) = some (front, back) := by
  induction front with
  | nil => exact splitBytes?.eq_1 back
  | cons c front ih =>
    have some := c.utf8Size_pos
    obtain ⟨count, size⟩ := Nat.exists_eq_succ_of_ne_zero some.ne'
    have whole : byteCount (c :: front) = count + byteCount front + 1 := by
      rw [byteCount_cons, size]
      omega
    have rest : count + byteCount front + 1 - c.utf8Size = byteCount front := by omega
    rw [whole, List.cons_append, splitBytes?, if_pos (by omega), rest, ih]
    rfl

theorem splitBytes?_sound {cs front back : List Char} {count : Nat}
    (split : splitBytes? cs count = some (front, back)) :
    cs = front ++ back ∧ byteCount front = count := by
  fun_induction splitBytes? cs count generalizing front back with
  | case1 cs =>
    cases split
    exact ⟨rfl, rfl⟩
  | case2 => cases split
  | case3 c cs count fits ih =>
    obtain ⟨⟨rest, _⟩, found, same⟩ := Option.map_eq_some_iff.mp split
    cases same
    obtain ⟨rfl, bytes⟩ := ih found
    refine ⟨rfl, ?_⟩
    rw [byteCount_cons, bytes]
    omega
  | case4 => cases split

theorem between?_eq (front middle back : List Char) :
    between? (front ++ (middle ++ back)) (byteCount front) (byteCount (front ++ middle)) =
      some middle := by
  rw [between?, byteCount_append, if_pos (Nat.le_add_right ..), splitBytes?_append,
    Nat.add_sub_cancel_left]
  dsimp only [Option.bind_some]
  rw [splitBytes?_append, Option.map_some]

namespace LineIndex

theorem behindFeeds_append (front back : List Char) (offset : Nat) :
    behindFeeds offset (front ++ back) =
      behindFeeds offset front ++ behindFeeds (offset + byteCount front) back := by
  induction front generalizing offset with
  | nil => rfl
  | cons c front ih =>
    rw [List.cons_append, behindFeeds, behindFeeds, ih, ih, byteCount_cons]
    split
    · rename_i feed
      subst feed
      rw [List.cons_append, Nat.add_assoc]
      rfl
    · rw [Nat.add_assoc]

theorem length_behindFeeds (offset : Nat) (cs : List Char) :
    (behindFeeds offset cs).length = cs.count '\n' := by
  induction cs generalizing offset with
  | nil => rfl
  | cons c cs ih =>
    rw [behindFeeds, List.count_cons]
    split
    · rename_i feed
      simp [feed, ih]
    · rename_i other
      simp [other, ih]

/-- A line starts behind the offset of the text, and not behind its end. -/
theorem mem_behindFeeds {offset start : Nat} {cs : List Char}
    (member : start ∈ behindFeeds offset cs) :
    offset < start ∧ start ≤ offset + byteCount cs := by
  induction cs generalizing offset with
  | nil => cases member
  | cons c cs ih =>
    rw [behindFeeds] at member
    rw [byteCount_cons]
    split at member
    · rename_i feed
      have one : c.utf8Size = 1 := by rw [feed]; rfl
      rcases List.mem_cons.mp member with rfl | later
      · omega
      · have := ih later
        omega
    · have := ih member
      have := c.utf8Size_pos
      omega

theorem ascends_behindFeeds (offset : Nat) (cs : List Char) :
    (behindFeeds offset cs).Pairwise (· < ·) := by
  induction cs generalizing offset with
  | nil => exact .nil
  | cons c cs ih =>
    rw [behindFeeds]
    split
    · exact .cons (fun start member => (mem_behindFeeds member).1) (ih _)
    · exact ih _

/-- As many lines start up to a place as line feeds stand in front of it, and one more. -/
theorem partitionPoint_starts (front back : List Char) :
    partitionPoint (fun start => decide (start ≤ byteCount front)) (ofText (front ++ back)).starts =
      front.count '\n' + 1 := by
  have ascends : (ofText (front ++ back)).starts.Pairwise (· < ·) :=
    .cons (fun start member => (mem_behindFeeds member).1) (ascends_behindFeeds ..)
  have parted : (ofText (front ++ back)).starts.Pairwise fun start later =>
      decide (later ≤ byteCount front) = true → decide (start ≤ byteCount front) = true := by
    refine ascends.imp fun less early => ?_
    rw [decide_eq_true_iff] at early ⊢
    omega
  have before : (behindFeeds 0 front).countP (fun start => decide (start ≤ byteCount front)) =
      front.count '\n' := by
    rw [← length_behindFeeds 0 front, List.countP_eq_length]
    intro start member
    have within := (mem_behindFeeds member).2
    rw [decide_eq_true_iff]
    omega
  have behind : (behindFeeds (byteCount front) back).countP
      (fun start => decide (start ≤ byteCount front)) = 0 := by
    refine List.countP_eq_zero.mpr fun start member => ?_
    have later := (mem_behindFeeds member).1
    rw [decide_eq_true_iff]
    omega
  have starts : (ofText (front ++ back)).starts =
      0 :: (behindFeeds 0 front ++ behindFeeds (byteCount front) back) := by
    rw [ofText, behindFeeds_append, Nat.zero_add]
  rw [partitionPoint_eq_countP parted, starts,
    List.countP_cons_of_pos (p := fun start => decide (start ≤ byteCount front))
      (decide_eq_true (Nat.zero_le _)), List.countP_append, before, behind, Nat.add_zero]

/-- Where a text is empty or ends a line, the next line starts behind it. -/
theorem getElem?_starts {head : List Char} (ends : head = [] ∨ ∃ line, head = line ++ ['\n'])
    (rest : List Char) :
    (ofText (head ++ rest)).starts[head.count '\n']? = some (byteCount head) := by
  rcases ends with rfl | ⟨line, rfl⟩
  · rfl
  · have feeds : (line ++ ['\n']).count '\n' = line.count '\n' + 1 := by simp
    have bytes : byteCount (line ++ ['\n']) = byteCount line + 1 := byteCount_append line ['\n']
    rw [feeds, bytes, ofText, List.append_assoc, behindFeeds_append, List.getElem?_cons_succ,
      List.getElem?_append_right (Nat.le_of_eq (length_behindFeeds ..)), length_behindFeeds,
      Nat.sub_self, Nat.zero_add]
    rfl

end LineIndex

namespace SourceModule

variable {m : SourceModule} {front back : List Char}

/-! ### The last line of a text -/

/-- The text up to the start of its last line, and this line. -/
theorem exists_lastLine (front : List Char) : ∃ head,
    head ++ front.rtakeWhile (· != '\n') = front ∧ (head = [] ∨ ∃ line, head = line ++ ['\n']) ∧
      head.count '\n' = front.count '\n' := by
  have whole : front.rdropWhile (· != '\n') ++ front.rtakeWhile (· != '\n') = front :=
    List.rdropWhile_append_rtakeWhile
  refine ⟨front.rdropWhile (· != '\n'), whole, ?_, ?_⟩
  · rcases List.eq_nil_or_concat (front.rdropWhile (· != '\n')) with none | ⟨line, last, found⟩
    · exact .inl none
    · refine .inr ⟨line, ?_⟩
      have some : front.rdropWhile (· != '\n') ≠ [] := by simp [found]
      have feed := List.rdropWhile_last_not (· != '\n') front some
      simp only [found, List.concat_eq_append, List.getLast_append_singleton, bne_iff_ne,
        not_not] at feed
      rw [found, feed, List.concat_eq_append]
  · conv => rhs; rw [← whole, List.count_append]
    have none : (front.rtakeWhile (· != '\n')).count '\n' = 0 := by
      refine List.count_eq_zero.mpr fun member => ?_
      simpa using List.mem_rtakeWhile_imp member
    rw [none, Nat.add_zero]

/-- The line and column behind a text. -/
def placeBehind (front : List Char) : Nat × Nat :=
  (front.count '\n' + 1, (front.rtakeWhile (· != '\n')).length + 1)

theorem locate?_eq (whole : m.text = front ++ back) :
    m.locate? (byteCount front) = some (placeBehind front) := by
  obtain ⟨head, split, ends, feeds⟩ := exists_lastLine front
  have start := LineIndex.getElem?_starts ends (front.rtakeWhile (· != '\n') ++ back)
  have line := between?_eq head (front.rtakeWhile (· != '\n')) back
  rw [split] at line
  rw [← List.append_assoc, split, feeds] at start
  rw [← List.append_assoc, split] at line
  rw [locate?, LineIndex.locate?, whole, LineIndex.partitionPoint_starts,
    Nat.max_eq_left (Nat.le_add_left ..), Nat.add_sub_cancel, start, Option.map_some, line]
  rfl

/-- The index has a start for every line that is looked up. -/
theorem exists_locate? (m : SourceModule) (offset : Nat) :
    ∃ place, m.locate? offset = some place := by
  have within := partitionPoint_le_length (fun start => decide (start ≤ offset))
    (LineIndex.ofText m.text).starts
  have filled : 0 < (LineIndex.ofText m.text).starts.length := Nat.succ_pos _
  rw [locate?, LineIndex.locate?, List.getElem?_eq_getElem (by omega)]
  exact ⟨_, rfl⟩

/-! ### Offsets -/

/-- A character ends at the offset, or the text starts there. -/
def IsBoundary (m : SourceModule) (offset : Nat) : Prop :=
  ∃ front back, m.text = front ++ back ∧ byteCount front = offset

theorem isBoundary_iff {offset : Nat} :
    m.IsBoundary offset ↔ (splitBytes? m.text offset).isSome = true := by
  constructor
  · rintro ⟨front, back, whole, rfl⟩
    rw [whole, splitBytes?_append]
    rfl
  · intro found
    obtain ⟨⟨front, back⟩, split⟩ := Option.isSome_iff_exists.mp found
    exact ⟨front, back, splitBytes?_sound split⟩

instance (m : SourceModule) (offset : Nat) : Decidable (m.IsBoundary offset) :=
  decidable_of_iff _ isBoundary_iff.symm

/-- The offset of a line and column: as many characters behind the start of the line. -/
def offsetAt? (m : SourceModule) (place : Nat × Nat) : Option Nat :=
  ((LineIndex.ofText m.text).starts[place.1 - 1]?).map fun start =>
    start + byteCount ((dropBytes start m.text).take (place.2 - 1))

theorem offsetAt?_eq (whole : m.text = front ++ back) :
    m.offsetAt? (placeBehind front) = some (byteCount front) := by
  obtain ⟨head, split, ends, feeds⟩ := exists_lastLine front
  have start := LineIndex.getElem?_starts ends (front.rtakeWhile (· != '\n') ++ back)
  have line := dropBytes_append head (front.rtakeWhile (· != '\n') ++ back)
  rw [← List.append_assoc, split, ← whole] at start line
  simp only [offsetAt?, placeBehind, Nat.add_sub_cancel]
  rw [← feeds, start, Option.map_some, line, List.take_left, ← byteCount_append, split]

end SourceModule

end DeployManifest
