import DeployManifest.Proofs.Files.Disk

/-! # Directories on the way

The directories on the way to a file are made where they are not there, which fails exactly if
something on the way is a file (`exists_makeAlong_iff`); then the way leads to a directory. The
directory that a path lies in is taken from its text, and is the one that the parts in front of the
last one lead to (`makeParent_eq`).
-/

namespace DeployManifest

open Outcome

namespace FileTree

variable {t t' new : FileTree} {place rest : List FileName} {name : FileName} {content : ByteArray}

theorem hasDirectory_dropLast (there : t.HasDirectory place) : t.HasDirectory place.dropLast := by
  rcases List.eq_nil_or_concat place with rfl | ⟨front, name, rfl⟩
  · exact there
  · obtain ⟨entries, found⟩ := there
    rw [List.concat_eq_append] at found ⊢
    rw [List.dropLast_concat]
    exact hasDirectory_of_at?_append found

theorem not_hasFile_of_hasDirectory (there : t.HasDirectory place) : ¬ t.HasFile place content := by
  obtain ⟨entries, there⟩ := there
  intro file
  cases file.symm.trans there

/-- There is room for anything in a directory. -/
theorem exists_put? (there : t.HasDirectory place) (name : FileName) (new : FileTree) :
    ∃ t', t.put? (place ++ [name]) new = some t' := by
  induction place generalizing t with
  | nil =>
    obtain ⟨entries, ⟨⟩⟩ := there
    exact ⟨_, rfl⟩
  | cons first rest ih =>
    obtain ⟨entries, found⟩ := there
    cases t with
    | file => cases found
    | directory others =>
      rw [at?_directory_cons, Option.bind_eq_some_iff] at found
      obtain ⟨child, entered, found⟩ := found
      obtain ⟨child', put⟩ := ih ⟨entries, found⟩
      exact ⟨_, put?_cons_eq_some_iff.mpr ⟨child', rfl, .inr ⟨by simp, child, entered, put⟩⟩⟩

end FileTree

namespace Path

open FileTree (IsFileName)

variable {p : Path} {front : List FileName} {name : FileName} {cs rest : List UInt8}

/-! ### The text in front of the last part -/

theorem trimReversed_suffix (cs : List UInt8) : trimReversed cs <:+ cs := by
  fun_induction trimReversed cs with
  | case1 => exact List.suffix_rfl
  | case2 rest empty =>
    obtain rfl := List.isEmpty_iff.mp empty
    exact List.suffix_rfl
  | case3 rest _ ih => exact ih.trans (List.suffix_cons ..)
  | case4 b rest _ _ ih => exact ih.trans (List.suffix_cons ..)
  | case5 => exact List.suffix_rfl

theorem trimReversed_ne_nil (some : cs ≠ []) : trimReversed cs ≠ [] := by
  fun_induction trimReversed cs with
  | case1 => exact some
  | case2 => exact List.cons_ne_nil _ _
  | case3 rest more ih => exact ih (by simpa using more)
  | case4 b rest _ still ih =>
    refine ih ?_
    rintro rfl
    cases still.2
  | case5 => exact some

theorem isAbsolute_trimReversed (some : cs ≠ []) (behind : List UInt8) :
    (Path.mk (trimReversed cs).reverse).isAbsolute =
      (Path.mk (cs.reverse ++ behind)).isAbsolute := by
  obtain ⟨trimmed, whole⟩ := trimReversed_suffix cs
  have filled : (trimReversed cs).reverse ≠ [] := by simpa using trimReversed_ne_nil some
  rw [isAbsolute, isAbsolute]
  conv => rhs; rw [← whole, List.reverse_append, List.append_assoc,
    List.head?_append_of_ne_nil _ filled]

/-- Only parts that lead nowhere else are trimmed. -/
theorem filter_parts_trimReversed (cs : List UInt8) :
    (Path.mk (trimReversed cs).reverse).parts.filter (!Disk.isStill ·) =
      (Path.mk cs.reverse).parts.filter (!Disk.isStill ·) := by
  have last (cs : List UInt8) : (Path.mk (slash :: cs).reverse).parts.filter (!Disk.isStill ·) =
      (Path.mk cs.reverse).parts.filter (!Disk.isStill ·) := by
    rw [List.reverse_cons, parts_append, List.filter_append]
    exact List.append_nil _
  fun_induction trimReversed cs with
  | case1 => rfl
  | case2 rest empty => rw [List.isEmpty_iff.mp empty]
  | case3 rest _ ih => rw [ih, last]
  | case4 b rest _ still ih =>
    obtain ⟨rfl, starts⟩ := still
    obtain ⟨rest, rfl⟩ := List.head?_eq_some_iff.mp starts
    rw [ih, last, List.reverse_cons, List.reverse_cons, List.append_assoc, List.singleton_append,
      parts_append, List.filter_append]
    exact (List.append_nil _).symm
  | case5 => rfl

theorem reverse_ne_nil (named : IsFileName name) : name.reverse ≠ [] :=
  List.reverse_ne_nil_iff.mpr named.2.1

/-- A name at the end of a path is not trimmed. -/
theorem trimReversed_name (named : IsFileName name) (rest : List UInt8) :
    trimReversed (name.reverse ++ rest) = name.reverse ++ rest := by
  obtain ⟨noSlash, -, noPoint, -⟩ := id named
  have free : ∀ c ∈ name.reverse, c ≠ slash := by
    rintro c member rfl
    exact noSlash (List.mem_reverse.mp member)
  cases reversed : name.reverse with
  | nil => exact absurd reversed (reverse_ne_nil named)
  | cons last others =>
    rw [reversed] at free
    have moves : ¬ (last = point ∧ (others ++ rest).head? = some slash) := by
      rintro ⟨rfl, next⟩
      cases others with
      | nil =>
        have single : name = [point] := by
          rw [← List.reverse_reverse name, reversed]
          rfl
        exact noPoint single
      | cons other others => exact free other (by simp) (Option.some.inj next)
    rw [List.cons_append, trimReversed, if_neg (free last (List.mem_cons_self ..)), if_neg moves]

/-- In front of its last name a path leads to its parent. -/
theorem parent?_eq {bytes : List UInt8} (named : IsFileName name)
    (whole : p.bytes = bytes.reverse ++ name) (ends : ∀ c ∈ bytes.head?, c = slash) :
    p.parent? = some ⟨(trimReversed bytes).reverse⟩ := by
  have reversed : p.bytes.reverse = name.reverse ++ bytes := by
    rw [whole, List.reverse_append, List.reverse_reverse]
  have dropped : (name.reverse ++ bytes).dropWhile (· != slash) = bytes := by
    have inside : ∀ c ∈ name.reverse, (c != slash) = true := by
      intro c member
      exact bne_iff_ne.mpr fun slash => named.1 (slash ▸ List.mem_reverse.mp member)
    rw [List.dropWhile_append_of_pos inside]
    cases bytes with
    | nil => rfl
    | cons c bytes => rw [List.dropWhile_cons_of_neg (by simp [ends c rfl])]
  have more : ¬ (name.reverse ++ bytes = [] ∨ name.reverse ++ bytes = [slash]) := by
    rintro (nothing | root)
    · exact reverse_ne_nil named (List.append_eq_nil_iff.mp nothing).1
    · obtain ⟨last, others, filled⟩ := List.exists_cons_of_ne_nil (reverse_ne_nil named)
      rw [filled] at root
      have inside : slash ∈ name.reverse := by simp [filled, (List.cons.inj root).1]
      exact named.1 (List.mem_reverse.mp inside)
  rw [parent?, reversed, trimReversed_name named, if_neg more, dropped]

/-- A path is made of the parts in front, if there are any, and its last one. -/
theorem exists_bytes (whole : p.parts = front ++ [name]) :
    front = [] ∧ p.bytes = name ∨
      ∃ bytes, p.bytes = bytes ++ slash :: name ∧ (Path.mk bytes).parts = front := by
  have joined : Text.join [slash] (front ++ [name]) = p.bytes :=
    whole ▸ Text.join_cut slash p.bytes
  rcases List.eq_nil_or_concat front with rfl | some
  · exact .inl ⟨rfl, joined.symm⟩
  · have filled : front ≠ [] := by
      obtain ⟨others, last, rfl⟩ := some
      simp
    have free : ∀ part ∈ front, slash ∉ part := by
      intro part member
      have inside : part ∈ p.parts := whole ▸ List.mem_append_left _ member
      exact Text.not_mem_of_mem_cut inside
    refine .inr ⟨Text.join [slash] front, ?_, Text.cut_join filled free⟩
    rw [← joined, Text.join_concat filled, List.append_assoc, List.singleton_append]

/-- The directory of a path leads where the parts in front of the last one do. -/
theorem directory?_cases (whole : p.parts = front ++ [name]) (named : IsFileName name) :
    front = [] ∧ p.directory? = none ∨ ∃ parent, p.directory? = some parent ∧ parent.bytes ≠ [] ∧
      parent.isAbsolute = p.isAbsolute ∧
      parent.parts.filter (!Disk.isStill ·) = front.filter (!Disk.isStill ·) := by
  rcases exists_bytes whole with ⟨rfl, bytes⟩ | ⟨bytes, spelled, rfl⟩
  · refine .inl ⟨rfl, ?_⟩
    rw [directory?, @parent?_eq p name [] named bytes (by simp)]
    rfl
  · have reversed : p.bytes = (slash :: bytes.reverse).reverse ++ name := by
      rw [spelled, List.reverse_cons, List.reverse_reverse, List.append_assoc,
        List.singleton_append]
    have some : slash :: bytes.reverse ≠ [] := List.cons_ne_nil _ _
    have filled : (trimReversed (slash :: bytes.reverse)).reverse ≠ [] := by
      simpa using trimReversed_ne_nil some
    refine .inr ⟨⟨(trimReversed (slash :: bytes.reverse)).reverse⟩, ?_, filled, ?_, ?_⟩
    · rw [directory?, parent?_eq named reversed (by simp), Option.filter_some,
        if_pos (by simpa using filled)]
    · rw [isAbsolute_trimReversed some name, ← reversed]
    · rw [filter_parts_trimReversed, List.reverse_cons, List.reverse_reverse, parts_append,
        List.filter_append]
      exact List.append_nil _

end Path

namespace Disk

open FileTree

variable {root root' : FileTree} {place place' parts more : List FileName} {part : FileName}
  {apart : List FileName → Prop} {d d' : Disk} {p : Path}

theorem walk_append : walk place (parts ++ more) = walk (walk place parts) more := by
  induction parts generalizing place with
  | nil => rfl
  | cons part parts ih =>
    rw [List.cons_append, walk, walk, ih, ih, ih]
    split
    · rfl
    · split <;> rfl

/-- Nothing on a way is a file. -/
def IsFree (root : FileTree) (place parts : List FileName) : Prop :=
  ∀ front rest content, parts = front ++ rest → ¬ root.HasFile (walk place front) content

theorem isFree_nil (there : root.HasDirectory place) : IsFree root place [] := by
  intro front rest content split
  obtain ⟨rfl, -⟩ := List.append_eq_nil_iff.mp split.symm
  exact not_hasFile_of_hasDirectory there

theorem isFree_cons (there : root.HasDirectory place) :
    IsFree root place (part :: parts) ↔ IsFree root (walk place [part]) parts := by
  constructor
  · intro free front rest content split
    rw [← walk_append]
    exact free (part :: front) rest content (by rw [split, List.cons_append])
  · intro free front rest content split
    cases front with
    | nil => exact not_hasFile_of_hasDirectory there
    | cons first front =>
      obtain ⟨rfl, behind⟩ := List.cons.inj split
      have onward := free front rest content behind
      rwa [← walk_append] at onward

theorem isFree_of_agrees (agrees : root.Agrees (fun _ => False) root') :
    IsFree root' place parts ↔ IsFree root place parts := by
  simp only [IsFree, agrees.files _ _ not_false]

/-- A step on a way leads on, if it leads to a directory. -/
theorem follow_cons (there : root.HasDirectory place)
    (further : root.HasDirectory (walk place [part])) :
    follow root place (part :: parts) = follow root (walk place [part]) parts := by
  obtain ⟨entries, here⟩ := there
  rw [follow, here]
  rw [walk, walk, walk, walk] at further ⊢
  dsimp only
  split
  · rfl
  · rename_i moves
    rw [if_neg moves] at further
    split
    · rfl
    · rename_i down
      rw [if_neg down] at further
      obtain ⟨others, there⟩ := further
      rw [at?_append, here, Option.bind_some, at?_directory_cons, Option.bind_eq_some_iff] at there
      obtain ⟨child, entered, -⟩ := there
      rw [entered]

/-- A step on a way from a directory: it leads to a file, and the way ends there, or to a directory,
which is made if nothing is there. -/
theorem makeAlong_cons (there : root.HasDirectory place) (parts : List FileName) :
    (∃ content e, root.HasFile (walk place [part]) content ∧
      makeAlong root place (part :: parts) = .error e) ∨
    ∃ root', root.Agrees (fun _ => False) root' ∧ root'.HasDirectory (walk place [part]) ∧
      makeAlong root place (part :: parts) = makeAlong root' (walk place [part]) parts := by
  rw [makeAlong, walk, walk, walk, walk]
  split
  · exact .inr ⟨root, .refl, there, rfl⟩
  · split
    · exact .inr ⟨root, .refl, hasDirectory_dropLast there, rfl⟩
    · split
      · rename_i entries found
        exact .inr ⟨root, .refl, ⟨entries, found⟩, rfl⟩
      · rename_i content found
        exact .inl ⟨content, _, found, rfl⟩
      · rename_i free
        obtain ⟨made, put⟩ := exists_put? there part (.directory [])
        rw [put]
        exact .inr ⟨made, agrees_of_made put free _, ⟨[], at?_of_put? put⟩, rfl⟩

/-- The directories on a way can be made if and only if nothing on it is a file. -/
theorem exists_makeAlong_iff (there : root.HasDirectory place) :
    (∃ root', makeAlong root place parts = .ok root') ↔ IsFree root place parts := by
  induction parts generalizing root place with
  | nil => exact ⟨fun _ => isFree_nil there, fun _ => ⟨root, rfl⟩⟩
  | cons part parts ih =>
    rw [isFree_cons there]
    rcases makeAlong_cons there parts with ⟨content, e, file, failed⟩ | ⟨made, agrees, next, same⟩
    · rw [failed]
      constructor
      · rintro ⟨_, ⟨⟩⟩
      · intro free
        exact absurd file (free [] parts content rfl)
    · rw [same, ih next, isFree_of_agrees agrees]

/-- Once the directories on a way are made, it leads to a directory. -/
theorem follow_of_makeAlong (there : root.HasDirectory place)
    (made : makeAlong root place parts = .ok root') :
    root.Agrees (fun _ => False) root' ∧ follow root' place parts = .ok (walk place parts) ∧
      root'.HasDirectory (walk place parts) := by
  induction parts generalizing root place with
  | nil =>
    cases made
    exact ⟨.refl, rfl, there⟩
  | cons part parts ih =>
    have onward : walk place (part :: parts) = walk (walk place [part]) parts :=
      @walk_append place [part] parts
    rcases makeAlong_cons there parts with ⟨content, e, file, failed⟩ | ⟨next, agrees, first, same⟩
    · cases made.symm.trans failed
    · rw [same] at made
      obtain ⟨kept, reached, last⟩ := ih first made
      have whole := agrees.trans kept
      refine ⟨whole, ?_, onward ▸ last⟩
      rw [follow_cons (whole.directories _ there) (kept.directories _ first), reached, onward]

/-- Where a way leads to a directory, nothing has to be made. -/
theorem makeAlong_of_follow (led : follow root place parts = .ok place')
    (there : root.HasDirectory place') : makeAlong root place parts = .ok root := by
  induction parts generalizing place with
  | nil => rfl
  | cons part parts ih =>
    obtain ⟨entries, here⟩ := hasDirectory_of_follow led there
    rw [follow, here] at led
    rw [makeAlong]
    dsimp only at led
    split
    · rename_i still
      rw [if_pos still] at led
      exact ih led
    · rename_i moves
      rw [if_neg moves] at led
      split
      · rename_i back
        rw [if_pos back] at led
        exact ih led
      · rename_i down
        rw [if_neg down] at led
        split at led
        · cases led
        · obtain ⟨others, next⟩ := hasDirectory_of_follow led there
          rw [next]
          exact ih led

/-- Parts that lead nowhere else make no difference. -/
theorem makeAlong_filter (root : FileTree) (place parts : List FileName) :
    makeAlong root place (parts.filter (!isStill ·)) = makeAlong root place parts := by
  induction parts generalizing root place with
  | nil => rfl
  | cons part parts ih =>
    have still : (parts.filter (!isStill ·)).all isStill = parts.all isStill := by
      rw [Bool.eq_iff_iff, List.all_eq_true, List.all_eq_true]
      grind
    rw [List.filter_cons, makeAlong]
    split
    · rename_i moves
      rw [if_neg (by simpa using moves), makeAlong, if_neg (by simpa using moves), ih]
      simp only [ih, still]
    · rename_i moves
      rw [if_pos (by simpa using moves), ih]

/-- They make none for where a way leads, either, as long as that is a directory. -/
theorem follow_filter (there : root.HasDirectory place') :
    follow root place (parts.filter (!isStill ·)) = .ok place' ↔
      follow root place parts = .ok place' := by
  induction parts generalizing place with
  | nil => exact Iff.rfl
  | cons part parts ih =>
    by_cases still : isStill part = true
    · have stays (entries : List (FileName × FileTree))
          (here : root.at? place = some (directory entries)) :
          follow root place (part :: parts) = follow root place parts := by
        simp only [follow, here, if_pos still]
      rw [List.filter_cons_of_neg (by simp [still]), ih]
      constructor
      · intro led
        obtain ⟨entries, here⟩ := hasDirectory_of_follow led there
        rwa [stays entries here]
      · intro led
        obtain ⟨entries, here⟩ := hasDirectory_of_follow led there
        rwa [stays entries here] at led
    · rw [List.filter_cons_of_pos (by simp [still]), follow, follow]
      cases root.at? place with
      | none => exact Iff.rfl
      | some t =>
        cases t with
        | file => exact Iff.rfl
        | directory entries =>
          simp only [if_neg still]
          cases KeyMap.get? part entries with
          | none => split <;> simp [ih]
          | some => split <;> simp [ih]

/-- The directory of a path is made along the parts in front of the last one. -/
theorem makeParent_eq {front : List FileName} {name : FileName} (whole : p.parts = front ++ [name])
    (named : IsFileName name) :
    d.makeParent p = (makeAlong d.root (d.start p) front).map fun root => { d with root } := by
  rw [makeParent]
  rcases Path.directory?_cases whole named with ⟨rfl, alone⟩ |
    ⟨parent, lies, -, begins, same⟩
  · rw [alone]
    rfl
  · rw [lies]
    dsimp only
    rw [makeDirectory, ← makeAlong_filter, same, makeAlong_filter, start, start, begins]

/-- What lies at the end of a way lies in a directory. -/
theorem isDirectory_of_follow {front : List FileName} {name : FileName} {parent : Path}
    (whole : p.parts = front ++ [name]) (named : IsFileName name)
    (lies : p.directory? = some parent) (led : follow d.root (d.start p) front = .ok place)
    (there : d.root.HasDirectory place) : d.isDirectory parent = true := by
  rcases Path.directory?_cases whole named with ⟨-, alone⟩ | ⟨_, lies', some, begins, same⟩
  · cases lies.symm.trans alone
  · cases lies.symm.trans lies'
    have begins : d.start parent = d.start p := by rw [start, start, begins]
    have reached : follow d.root (d.start parent) parent.parts = .ok place := by
      rwa [← follow_filter there, same, follow_filter there, begins]
    obtain ⟨entries, found⟩ := there
    have led' : d.place parent = .ok place := place_eq_ok_iff.mpr ⟨some, reached⟩
    simp only [isDirectory, find, led', Except.bind, found, FileTree.isDirectory]

end Disk

end DeployManifest
