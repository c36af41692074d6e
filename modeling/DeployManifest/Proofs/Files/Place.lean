import DeployManifest.Files.Source
import DeployManifest.Proofs.Files.Tree
import DeployManifest.Proofs.Text

/-! # Following paths

Where a path leads can be read from its parts alone (`locate`); the disk decides whether it leads
there. A path that leads to a directory does so as long as no directory is lost (`place_of_agrees`).
Behind such a path, a path of file names leads to the place that they name (`place_join`).
-/

namespace DeployManifest

namespace Text

theorem cut_append_cons {α : Type} [DecidableEq α] (sep : α) (front back : List α) :
    cut sep (front ++ sep :: back) = cut sep front ++ cut sep back := by
  induction front with
  | nil => simp [cut]
  | cons c cs ih =>
    rw [List.cons_append, cut, cut, ih]
    split
    · rfl
    · obtain ⟨piece, pieces, whole⟩ := List.exists_cons_of_ne_nil (cut_ne_nil sep cs)
      rw [whole]
      rfl

end Text

namespace Path

variable {names : List FileName}

theorem parts_append (front back : List UInt8) :
    (Path.mk (front ++ slash :: back)).parts = (Path.mk front).parts ++ (Path.mk back).parts :=
  Text.cut_append_cons slash front back

theorem parts_ofNames (some : names ≠ []) (named : ∀ name ∈ names, FileTree.IsFileName name) :
    (ofNames names).parts = names :=
  Text.cut_join some fun name member => (named name member).1

theorem isAbsolute_ofNames (named : ∀ name ∈ names, FileTree.IsFileName name) :
    (ofNames names).isAbsolute = false := by
  have filled : ∀ name ∈ names.head?, name ≠ [] :=
    fun name first => (named name (List.mem_of_mem_head? first)).2.1
  rw [isAbsolute, Bool.eq_false_iff]
  intro first
  obtain ⟨name, member, found⟩ := Text.mem_of_head?_join filled slash (eq_of_beq first)
  exact (named name member).1 found

/-- A path that is read from another one starts where that one does. -/
theorem isAbsolute_join {base p : Path} (some : base.bytes ≠ []) (relative : p.isAbsolute = false) :
    (base.join p).isAbsolute = base.isAbsolute := by
  rw [join, relative, if_neg Bool.false_ne_true]
  split <;> simp [isAbsolute, List.head?_append_of_ne_nil _ some]

/-- Its parts are those of the first path, apart from an empty last one, and then its own. -/
theorem parts_join {base p : Path} (some : base.bytes ≠ []) (relative : p.isAbsolute = false) :
    (base.join p).parts = base.parts ++ p.parts ∨
      ∃ front, base.parts = front ++ [[]] ∧ (base.join p).parts = front ++ p.parts := by
  rw [join, relative, if_neg Bool.false_ne_true]
  split
  · rename_i ends
    obtain ⟨front, last⟩ : ∃ front, base.bytes = front ++ [slash] := by
      rw [Bool.or_eq_true, List.isEmpty_iff, or_iff_right some] at ends
      exact List.getLast?_eq_some_iff.mp (eq_of_beq ends)
    refine .inr ⟨(Path.mk front).parts, ?_, ?_⟩
    · rw [parts, last]
      exact parts_append front []
    · rw [last, List.append_assoc]
      exact parts_append front p.bytes
  · exact .inl (parts_append base.bytes p.bytes)

end Path

namespace Disk

open FileTree

variable {root root' : FileTree} {place place' : List FileName} {parts more names : List FileName}
  {apart : List FileName → Prop} {d d' : Disk} {p : Path}

/-- A part of a path is a file name if it leads further down. -/
theorem isFileName_iff {name : FileName} : IsFileName name ↔
    Path.slash ∉ name ∧ isStill name = false ∧ isBack name = false := by
  simp [IsFileName, isStill, isBack, and_assoc]

theorem not_isStill {name : FileName} (named : IsFileName name) : isStill name = false :=
  (isFileName_iff.mp named).2.1

theorem not_isBack {name : FileName} (named : IsFileName name) : isBack name = false :=
  (isFileName_iff.mp named).2.2

/-- The place that parts lead to from another one, if they lead anywhere. -/
def walk (place : List FileName) : List FileName → List FileName
  | [] => place
  | part :: parts =>
    if isStill part then walk place parts
    else if isBack part then walk place.dropLast parts
    else walk (place ++ [part]) parts

/-- The place of a path, whether something is there or not. -/
def locate (d : Disk) (p : Path) : List FileName := walk (d.start p) p.parts

theorem walk_concat {name : FileName} (named : IsFileName name) :
    walk place (parts ++ [name]) = walk place parts ++ [name] := by
  induction parts generalizing place with
  | nil => simp [walk, not_isStill named, not_isBack named]
  | cons part parts ih =>
    rw [List.cons_append, walk, walk, ih, ih, ih]
    split
    · rfl
    · split <;> rfl

theorem eq_walk_of_follow (led : follow root place parts = .ok place') :
    place' = walk place parts := by
  induction parts generalizing place with
  | nil =>
    cases led
    rfl
  | cons part parts ih =>
    rw [follow] at led
    rw [walk]
    split at led
    · cases led
    · cases led
    · split at led
      · rename_i still
        rw [if_pos still]
        exact ih led
      · rename_i moves
        rw [if_neg moves]
        split at led
        · rename_i back
          rw [if_pos back]
          exact ih led
        · rename_i down
          rw [if_neg down]
          split at led
          · cases led
          · exact ih led

theorem follow_append : follow root place (parts ++ more) =
    (follow root place parts).bind fun place => follow root place more := by
  induction parts generalizing place with
  | nil => rfl
  | cons part parts ih =>
    rw [List.cons_append, follow, follow]
    split
    · rfl
    · rfl
    · split
      · exact ih
      · split
        · exact ih
        · split
          · rfl
          · exact ih

/-- What leads to a directory starts at one. -/
theorem hasDirectory_of_follow (led : follow root place parts = .ok place')
    (there : root.HasDirectory place') : root.HasDirectory place := by
  cases parts with
  | nil =>
    cases led
    exact there
  | cons part parts =>
    rw [follow] at led
    split at led
    · cases led
    · cases led
    · exact ⟨_, ‹_›⟩

/-- A way to a directory stays, as long as no directory is lost. -/
theorem follow_of_agrees (agrees : root.Agrees apart root')
    (led : follow root place parts = .ok place') (there : root.HasDirectory place') :
    follow root' place parts = .ok place' := by
  induction parts generalizing place with
  | nil => exact led
  | cons part parts ih =>
    obtain ⟨entries, here⟩ := hasDirectory_of_follow led there
    obtain ⟨entries', here'⟩ := agrees.directories place ⟨entries, here⟩
    rw [follow, here] at led
    rw [follow, here']
    dsimp only at led ⊢
    split
    · rename_i still
      rw [if_pos still] at led
      exact ih led
    · rename_i moves
      rw [if_neg moves] at led
      split
      · rename_i back
        rw [if_pos back] at led
        exact ih led
      · rename_i down
        rw [if_neg down] at led
        split at led
        · cases led
        · obtain ⟨_, next⟩ := agrees.directories _ (hasDirectory_of_follow led there)
          have found : KeyMap.get? part entries' ≠ none := by
            intro missing
            rw [at?_append, here', Option.bind_some, at?_directory_cons, missing] at next
            cases next
          obtain ⟨t, found⟩ := Option.ne_none_iff_exists'.mp found
          rw [found]
          exact ih led

/-- File names lead down, where there is something. -/
theorem follow_names (named : ∀ name ∈ names, IsFileName name) {t : FileTree}
    (there : root.at? (place ++ names) = some t) :
    follow root place names = .ok (place ++ names) := by
  induction names generalizing place with
  | nil => rw [List.append_nil, follow]
  | cons name names ih =>
    obtain ⟨first, named⟩ := List.forall_mem_cons.mp named
    obtain ⟨entries, here⟩ := hasDirectory_of_at?_append there
    have found : KeyMap.get? name entries ≠ none := by
      intro missing
      rw [at?_append, here, Option.bind_some, at?_directory_cons, missing] at there
      cases there
    obtain ⟨child, found⟩ := Option.ne_none_iff_exists'.mp found
    have whole : place ++ name :: names = (place ++ [name]) ++ names := by simp
    rw [follow, here]
    dsimp only
    rw [if_neg (by simp [not_isStill first]), if_neg (by simp [not_isBack first]), found, whole]
    exact ih named (whole ▸ there)

theorem place_eq_ok_iff :
    d.place p = .ok place ↔ p.bytes ≠ [] ∧ follow d.root (d.start p) p.parts = .ok place := by
  rw [Disk.place]
  split
  · rename_i empty
    simp [List.isEmpty_iff.mp empty]
  · rename_i some
    simp [List.isEmpty_iff.not.mp some]

/-- A path to a directory still leads there, as long as no directory is lost. -/
theorem place_of_agrees (agrees : d.root.Agrees apart d'.root) (here : d'.here = d.here)
    (led : d.place p = .ok place) (there : d.root.HasDirectory place) : d'.place p = .ok place := by
  obtain ⟨some, led⟩ := place_eq_ok_iff.mp led
  have same : d'.start p = d.start p := by rw [start, start, here]
  exact place_eq_ok_iff.mpr ⟨some, same ▸ follow_of_agrees agrees led there⟩

/-- File names behind a path to a directory lead further down. -/
theorem place_join (led : d.place p = .ok place) (there : d.root.HasDirectory place)
    (more : names ≠ []) (named : ∀ name ∈ names, IsFileName name) {t : FileTree}
    (found : d.root.at? (place ++ names) = some t) :
    d.place (p.join (.ofNames names)) = .ok (place ++ names) := by
  obtain ⟨some, led⟩ := place_eq_ok_iff.mp led
  have relative := Path.isAbsolute_ofNames named
  have begins : d.start (p.join (.ofNames names)) = d.start p := by
    rw [start, start, Path.isAbsolute_join some relative]
  have down : follow d.root place names = .ok (place ++ names) := follow_names named found
  refine place_eq_ok_iff.mpr ⟨?_, ?_⟩
  · rw [Path.join, relative, if_neg Bool.false_ne_true]
    split <;> simp [some]
  · rw [begins]
    rcases Path.parts_join some relative with whole | ⟨front, whole, joined⟩
    · rw [whole, follow_append, led, Path.parts_ofNames more named]
      exact down
    · rw [joined, follow_append, Path.parts_ofNames more named]
      rw [whole, follow_append] at led
      -- the empty part behind the last slash stays where it is
      cases reached : follow d.root (d.start p) front with
      | error e =>
        rw [reached] at led
        cases led
      | ok place' =>
        rw [reached] at led
        have led : follow d.root place' [[]] = .ok place := led
        obtain ⟨entries, here⟩ := hasDirectory_of_follow led there
        rw [follow, here] at led
        obtain rfl : place' = place := Except.ok.inj led
        exact down

theorem eq_locate_of_place (led : d.place p = .ok place) : place = d.locate p :=
  eq_walk_of_follow (place_eq_ok_iff.mp led).2

theorem exists_of_isDirectory (directory : d.isDirectory p = true) :
    d.place p = .ok (d.locate p) ∧ d.root.HasDirectory (d.locate p) := by
  rw [Disk.isDirectory, find] at directory
  cases led : d.place p with
  | error e =>
    rw [led] at directory
    cases directory
  | ok place =>
    obtain rfl := eq_locate_of_place led
    rw [led] at directory
    simp only [Except.bind] at directory
    cases there : d.root.at? (d.locate p) with
    | none =>
      rw [there] at directory
      cases directory
    | some t =>
      rw [there] at directory
      cases t with
      | file => cases directory
      | directory entries => exact ⟨rfl, entries, there⟩

theorem locate_congr (here : d'.here = d.here) (p : Path) : d'.locate p = d.locate p := by
  rw [locate, locate, start, start, here]

theorem not_mem_of_mem_parts {part : FileName} (member : part ∈ p.parts) : Path.slash ∉ part :=
  Text.not_mem_of_mem_cut member

/-- A path to a file leads through its directory, which is there, to a file name. -/
theorem exists_of_target (led : d.target p = .ok place) :
    ∃ parts front name, p.bytes ≠ [] ∧ p.parts = parts ++ [name] ∧ IsFileName name ∧
      follow d.root (d.start p) parts = .ok front ∧ d.root.HasDirectory front ∧
      place = front ++ [name] := by
  rw [target] at led
  cases last : p.parts.getLast? with
  | none =>
    rw [last] at led
    cases led
  | some name =>
    rw [last] at led
    dsimp only at led
    split at led
    · cases led
    · rename_i some
      split at led
      · cases led
      · rename_i named
        obtain ⟨parts, whole⟩ := List.getLast?_eq_some_iff.mp last
        rw [whole, List.dropLast_concat] at led
        have noSlash : Path.slash ∉ name := not_mem_of_mem_parts (p := p) (by simp [whole])
        have file : IsFileName name := isFileName_iff.mpr ⟨noSlash, by simpa using named⟩
        cases reached : follow d.root (d.start p) parts with
        | error e =>
          rw [reached] at led
          cases led
        | ok front =>
          rw [reached] at led
          dsimp only [Except.bind] at led
          split at led
          · rename_i entries there
            exact ⟨parts, front, name, by simpa using some, whole, file, reached, ⟨entries, there⟩,
              (Except.ok.inj led).symm⟩
          · cases led

theorem eq_locate_of_target (led : d.target p = .ok place) : place = d.locate p := by
  obtain ⟨parts, front, name, -, whole, named, reached, -, rfl⟩ := exists_of_target led
  rw [locate, whole, walk_concat named, ← eq_walk_of_follow reached]

/-- What stands where a path to a file leads is found there, also after changes elsewhere. -/
theorem find_of_target (led : d.target p = .ok place) (here : d'.here = d.here)
    (agrees : d.root.Agrees apart d'.root) {t : FileTree} (there : d'.root.at? place = some t) :
    d'.find p = .ok t := by
  obtain ⟨parts, front, name, some, whole, named, reached, directory, rfl⟩ := exists_of_target led
  have same : d'.start p = d.start p := by rw [start, start, here]
  have reached' : follow d'.root (d.start p) parts = .ok front :=
    follow_of_agrees agrees reached directory
  have last : follow d'.root front [name] = .ok (front ++ [name]) :=
    follow_names (List.forall_mem_singleton.mpr named) there
  have led' : d'.place p = .ok (front ++ [name]) := by
    refine place_eq_ok_iff.mpr ⟨some, ?_⟩
    rw [same, whole, follow_append, reached']
    exact last
  simp only [find, led', Except.bind, there]

end Disk

end DeployManifest
