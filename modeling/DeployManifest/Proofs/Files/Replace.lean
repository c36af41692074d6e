import DeployManifest.Manifest.Format
import DeployManifest.Proofs.Files.Parent

/-! # Whole writes

A file is written whole or not at all: it is written under another name, which is then changed. Any
step may fail by accident, and may leave a file half written under the other name. What was there
before stays then, and nothing is left under the other name in any case (`isWhole_replaceFile`).
Without an accident a write succeeds exactly if nothing is in the way
(`replaceFile_ok_iff_not_blocks`).
-/

namespace DeployManifest

namespace FileTree

variable {t t' : FileTree} {place : List FileName} {name other : FileName} {content : ByteArray}

theorem IsFileName.temporary (named : IsFileName name) :
    IsFileName (name ++ Text.bytes ".tmp") := by
  have four : (Text.bytes ".tmp").length = 4 := rfl
  have differs (short : FileName) (few : short.length ≤ 2) : name ++ Text.bytes ".tmp" ≠ short := by
    rintro rfl
    rw [List.length_append, four] at few
    omega
  refine ⟨?_, differs _ (by decide), differs _ (by decide), differs _ (by decide)⟩
  rw [List.mem_append, not_or]
  exact ⟨named.1, by decide⟩

/-- Nothing is left where a file was removed. -/
theorem not_hasFile_remove (held : t.HasFile place content) (some : place ≠ [])
    (content' : ByteArray) : ¬ (t.remove place).HasFile place content' := by
  induction place generalizing t with
  | nil => exact absurd rfl some
  | cons name names ih =>
    cases t with
    | file => cases held
    | directory entries =>
      rw [HasFile, at?_directory_cons, Option.bind_eq_some_iff] at held
      obtain ⟨child, found, held⟩ := held
      cases names with
      | nil =>
        rw [remove, HasFile, at?_directory_cons, KeyMap.get?_filter_ne, if_pos rfl]
        rintro ⟨⟩
      | cons next names =>
        rw [remove, found]
        · rw [HasFile, at?_insert, if_pos rfl]
          exact ih held (List.cons_ne_nil _ _)
        · rintro ⟨⟩

/-- What is put beside something leaves it as it is. -/
theorem at?_put?_ne {new : FileTree} (put : t.put? (place ++ [name]) new = some t')
    (differs : name ≠ other) : t'.at? (place ++ [other]) = t.at? (place ++ [other]) := by
  induction place generalizing t t' with
  | nil =>
    cases t with
    | file => cases put
    | directory entries =>
      obtain ⟨child, rfl, -⟩ := put?_cons_eq_some_iff.mp put
      rw [List.nil_append, at?_insert, if_neg differs]
  | cons first rest ih =>
    cases t with
    | file => cases put
    | directory entries =>
      obtain ⟨child, rfl, ⟨nothing, -⟩ | ⟨-, child', found, put⟩⟩ := put?_cons_eq_some_iff.mp put
      · simp at nothing
      · rw [List.cons_append, at?_insert, if_pos rfl, ih put, at?_entry found]

end FileTree

namespace Path

open FileTree (IsFileName)

variable {p : Path} {front : List FileName} {name : FileName} {ending : String}

/-- The last part of the path is a file name. -/
def NamesFile (p : Path) : Prop := ∃ front name, p.parts = front ++ [name] ∧ IsFileName name

theorem NamesFile.bytes_ne_nil (named : p.NamesFile) : p.bytes ≠ [] := by
  obtain ⟨front, name, whole, file⟩ := named
  intro empty
  rw [parts, empty] at whole
  have alone : [] ++ [[]] = front ++ [name] := whole
  exact file.2.1 (List.append_singleton_inj.mp alone).2.symm

/-- What is written behind a path is written behind its last part. -/
theorem parts_append_ending (whole : p.parts = front ++ [name])
    (plain : slash ∉ Text.bytes ending) :
    (p.append ending).parts = front ++ [name ++ Text.bytes ending] := by
  have noSlash : slash ∉ name := Disk.not_mem_of_mem_parts (p := p) (by simp [whole])
  have last : (Path.mk (name ++ Text.bytes ending)).parts = [name ++ Text.bytes ending] :=
    Text.cut_of_not_mem (by simp [noSlash, plain])
  rcases exists_bytes whole with ⟨rfl, bytes⟩ | ⟨bytes, spelled, rfl⟩
  · rw [append, bytes, last, List.nil_append]
  · rw [append, spelled, List.append_assoc, List.cons_append, parts_append, last]

end Path

namespace Disk

open FileTree Outcome

variable {d d' d₁ d₂ : Disk} {p source : Path} {front way place : List FileName} {name : FileName}
  {content : ByteArray} {text : String} {outcome : Except FileError Unit}
  {apart : List FileName → Prop}

/-! ### The other name -/

theorem parts_temporary (whole : p.parts = front ++ [name]) :
    (temporary p).parts = front ++ [name ++ Text.bytes ".tmp"] :=
  Path.parts_append_ending whole (by decide)

theorem namesFile_temporary (named : p.NamesFile) : (temporary p).NamesFile := by
  obtain ⟨front, name, whole, file⟩ := named
  exact ⟨front, _, parts_temporary whole, file.temporary⟩

theorem start_temporary (named : p.NamesFile) : d.start (temporary p) = d.start p := by
  rw [start, start, temporary, Path.append, Path.isAbsolute,
    List.head?_append_of_ne_nil _ named.bytes_ne_nil, Path.isAbsolute]

theorem locate_of_parts (whole : p.parts = front ++ [name]) (named : IsFileName name) :
    d.locate p = walk (d.start p) front ++ [name] := by
  rw [locate, whole, walk_concat named]

theorem locate_ne_nil (named : p.NamesFile) : d.locate p ≠ [] := by
  obtain ⟨front, name, whole, file⟩ := named
  rw [locate_of_parts whole file]
  simp

theorem locate_temporary (whole : p.parts = front ++ [name]) (named : IsFileName name) :
    d.locate (temporary p) = walk (d.start p) front ++ [name ++ Text.bytes ".tmp"] := by
  rw [locate_of_parts (parts_temporary whole) named.temporary,
    start_temporary ⟨front, name, whole, named⟩]

theorem append_tmp_ne (name : FileName) : name ++ Text.bytes ".tmp" ≠ name := by
  have some : Text.bytes ".tmp" ≠ [] := by decide
  simpa using some

theorem locate_temporary_ne (named : p.NamesFile) : d.locate (temporary p) ≠ d.locate p := by
  obtain ⟨front, name, whole, file⟩ := named
  rw [locate_of_parts whole file, locate_temporary whole file]
  simpa using append_tmp_ne name

/-! ### What is found -/

/-- A path that ends with a file name leads there from the directory in front. -/
theorem target_eq_ok_iff (whole : p.parts = front ++ [name]) (named : IsFileName name) :
    d.target p = .ok place ↔ ∃ way, follow d.root (d.start p) front = .ok way ∧
      d.root.HasDirectory way ∧ place = way ++ [name] := by
  constructor
  · intro led
    obtain ⟨front', way, name', -, whole', -, reached, there, rfl⟩ := exists_of_target led
    obtain ⟨rfl, rfl⟩ := List.append_singleton_inj.mp (whole.symm.trans whole')
    exact ⟨way, reached, there, rfl⟩
  · rintro ⟨way, reached, ⟨entries, there⟩, rfl⟩
    have some := Path.NamesFile.bytes_ne_nil ⟨front, name, whole, named⟩
    rw [target, whole, List.getLast?_concat, List.dropLast_concat, reached]
    simp [some, not_isStill named, not_isBack named, Except.bind, there]

/-- The other name stands in the same directory. -/
theorem target_temporary_eq_ok_iff (whole : p.parts = front ++ [name]) (named : IsFileName name) :
    d.target (temporary p) = .ok place ↔ ∃ way, follow d.root (d.start p) front = .ok way ∧
      d.root.HasDirectory way ∧ place = way ++ [name ++ Text.bytes ".tmp"] := by
  rw [target_eq_ok_iff (parts_temporary whole) named.temporary,
    start_temporary ⟨front, name, whole, named⟩]

theorem target_of_agrees (named : p.NamesFile) (led : d.target p = .ok place)
    (changes : d.Changes apart d') : d'.target p = .ok place := by
  obtain ⟨front, name, whole, file⟩ := named
  obtain ⟨way, reached, there, rfl⟩ := (target_eq_ok_iff whole file).mp led
  have begins : d'.start p = d.start p := by rw [start, start, changes.here]
  refine (target_eq_ok_iff whole file).mpr ⟨way, ?_, changes.agrees.directories _ there, rfl⟩
  rw [begins]
  exact follow_of_agrees changes.agrees reached there

theorem find_eq_ok_iff {t : FileTree} :
    d.find p = .ok t ↔ ∃ place, d.place p = .ok place ∧ d.root.at? place = some t := by
  rw [find]
  cases d.place p with
  | error e => simp [Except.bind]
  | ok place => cases there : d.root.at? place <;> simp [Except.bind, there]

/-- What is found under a file name stands in a directory. -/
theorem target_of_find {t : FileTree} (named : p.NamesFile) (found : d.find p = .ok t) :
    d.target p = .ok (d.locate p) ∧ d.root.at? (d.locate p) = some t := by
  obtain ⟨front, name, whole, file⟩ := id named
  obtain ⟨place, led, there⟩ := find_eq_ok_iff.mp found
  obtain rfl := eq_locate_of_place led
  have reached := (place_eq_ok_iff.mp led).2
  rw [whole, follow_append] at reached
  obtain ⟨way, reached, last⟩ := bind_eq_ok_iff.mp reached
  have directory : d.root.HasDirectory way := by
    rw [follow] at last
    split at last
    · cases last
    · cases last
    · exact ⟨_, ‹_›⟩
  refine ⟨(target_eq_ok_iff whole file).mpr ⟨way, reached, directory, ?_⟩, there⟩
  rw [locate_of_parts whole file, eq_walk_of_follow reached]

theorem find_of_agrees (named : p.NamesFile) (found : d.find p = .ok (.file content))
    (changes : d.Changes apart d') (kept : ¬ apart (d.locate p)) :
    d'.find p = .ok (.file content) := by
  obtain ⟨led, there⟩ := target_of_find named found
  exact find_of_target led changes.here changes.agrees
    ((changes.agrees.files _ _ kept).mpr there)

theorem isDirectory_iff (led : d.target p = .ok place) :
    d.isDirectory p = true ↔ d.root.HasDirectory place := by
  constructor
  · intro directory
    rw [eq_locate_of_target led]
    exact (exists_of_isDirectory directory).2
  · rintro ⟨entries, there⟩
    rw [isDirectory, find_of_target led rfl (@Agrees.refl d.root fun _ => False) there]
    rfl

/-! ### When steps succeed -/

theorem exists_putFile_iff (there : d.root.HasDirectory way) (name : FileName)
    (content : ByteArray) : (∃ d', d.putFile (way ++ [name]) content = .ok d') ↔
      ¬ d.root.HasDirectory (way ++ [name]) := by
  obtain ⟨root, put⟩ := exists_put? there name (.file content)
  rw [putFile, put]
  split
  · rename_i entries found
    exact iff_of_false (by rintro ⟨_, ⟨⟩⟩) fun free => free ⟨entries, found⟩
  · rename_i free
    refine iff_of_true ⟨_, rfl⟩ ?_
    rintro ⟨entries, found⟩
    exact free entries found

/-- A file can be written where its directory is there, unless it is a directory itself. -/
theorem exists_write_iff (led : d.target p = .ok place) (text : String) :
    (∃ d', d.write p text = .ok d') ↔ ¬ d.isDirectory p = true := by
  obtain ⟨_, way, name, -, -, -, -, there, rfl⟩ := exists_of_target led
  rw [isDirectory_iff led, ← exists_putFile_iff there name text.toUTF8, write, led]
  rfl

/-- A path that ends with a file name does not end with a slash. -/
theorem moveTarget_eq (named : p.NamesFile) : d.moveTarget p = d.target p := by
  obtain ⟨front, name, whole, file⟩ := named
  have ends : p.bytes.getLast? = name.getLast? := by
    rcases Path.exists_bytes whole with ⟨-, bytes⟩ | ⟨bytes, spelled, -⟩
    · rw [bytes]
    · rw [spelled, List.getLast?_append_of_ne_nil _ (List.cons_ne_nil _ _),
        List.getLast?_cons_of_ne_nil file.2.1]
  have open_ : (p.bytes.getLast? == some Path.slash) = false := by
    rw [ends, beq_eq_false_iff_ne]
    exact fun slash => file.1 (List.mem_of_getLast? slash)
  rw [moveTarget, whole, List.reverse_append, List.reverse_singleton, List.singleton_append,
    List.dropWhile_cons_of_neg (by simpa using file.2.1)]
  simp [not_isStill file, not_isBack file, open_]

/-- A file can be moved where it could be written. -/
theorem exists_move_iff (named : p.NamesFile) (led : d.target p = .ok place)
    (found : d.find source = .ok (.file content)) :
    (∃ d', d.move source p = .ok d') ↔ ¬ d.isDirectory p = true := by
  obtain ⟨_, way, name, -, -, -, -, there, rfl⟩ := exists_of_target led
  obtain ⟨origin, from_, held⟩ := find_eq_ok_iff.mp found
  rw [isDirectory_iff led, ← exists_putFile_iff there name content]
  simp only [move, bind_eq_ok_iff, from_, moveTarget_eq named, led, Except.ok.injEq,
    exists_eq_left', held, pure_eq_ok_iff]
  constructor
  · rintro ⟨_, d', put, -⟩
    exact ⟨d', put⟩
  · rintro ⟨d', put⟩
    exact ⟨_, d', put, rfl⟩

/-- What is in the way of a whole write. The directories on the way are there by the time when its
ends are looked at: one of them may be the destination itself, as in `out/../out`. -/
inductive Blocks (d : Disk) (p : Path) : Prop where
  | component {front rest : List FileName} {content : ByteArray} (whole : p.parts = front ++ rest)
      (inFront : rest ≠ []) (file : d.root.HasFile (walk (d.start p) front) content)
  | temporary {d₁ : Disk} (made : d.makeParent p = .ok d₁)
      (directory : d₁.isDirectory (temporary p) = true)
  | destination {d₁ : Disk} (made : d.makeParent p = .ok d₁)
      (directory : d₁.isDirectory p = true)

/-- The directory of a path can be made unless a file is in the way. -/
theorem exists_makeParent_iff (whole : p.parts = front ++ [name]) (named : IsFileName name)
    (there : d.root.HasDirectory (d.start p)) :
    (∃ d₁, d.makeParent p = .ok d₁) ↔ IsFree d.root (d.start p) front := by
  rw [← exists_makeAlong_iff there, makeParent_eq whole named]
  simp only [map_eq_ok_iff]
  constructor
  · rintro ⟨_, root, made, -⟩
    exact ⟨root, made⟩
  · rintro ⟨root, made⟩
    exact ⟨_, root, made, rfl⟩

/-- Once its directory is made, a path leads there. -/
theorem target_of_makeParent (named : p.NamesFile) (there : d.root.HasDirectory (d.start p))
    (made : d.makeParent p = .ok d₁) :
    d₁.target p = .ok (d.locate p) ∧ d₁.target (temporary p) = .ok (d.locate (temporary p)) := by
  obtain ⟨front, name, whole, file⟩ := named
  rw [makeParent_eq whole file] at made
  obtain ⟨root, along, rfl⟩ := map_eq_ok_iff.mp made
  obtain ⟨-, reached, last⟩ := follow_of_makeAlong there along
  exact ⟨(target_eq_ok_iff whole file).mpr ⟨_, reached, last, locate_of_parts whole file⟩,
    (target_temporary_eq_ok_iff whole file).mpr ⟨_, reached, last, locate_temporary whole file⟩⟩

/-- What is written under the other name is found there, and the destination stays what it is. -/
theorem of_write_temporary (named : p.NamesFile) (led : d.target p = .ok place)
    (wrote : d.write (temporary p) text = .ok d') :
    d'.target p = .ok place ∧ d'.isDirectory p = d.isDirectory p ∧
      d'.find (temporary p) = .ok (.file text.toUTF8) := by
  obtain ⟨changes, written⟩ := of_write wrote
  have led' := target_of_agrees named led changes
  refine ⟨led', ?_, ?_⟩
  · rw [Bool.eq_iff_iff, isDirectory_iff led, isDirectory_iff led']
    obtain ⟨front, name, whole, file⟩ := named
    obtain ⟨place', beside, put⟩ := bind_eq_ok_iff.mp wrote
    obtain ⟨way, reached, -, rfl⟩ := (target_eq_ok_iff whole file).mp led
    obtain ⟨way', reached', -, rfl⟩ := (target_temporary_eq_ok_iff whole file).mp beside
    obtain rfl := Except.ok.inj (reached.symm.trans reached')
    rw [putFile] at put
    split at put
    · cases put
    · split at put
      · rename_i root filled
        cases put
        rw [HasDirectory, HasDirectory, at?_put?_ne filled (append_tmp_ne name)]
      · cases put
  · obtain ⟨place', beside, -⟩ := bind_eq_ok_iff.mp wrote
    rw [← eq_locate_of_target beside] at written
    exact find_of_target beside changes.here changes.agrees written

/-- Once the directory is made, only directories can be in the way. -/
theorem exists_replaceFile_iff (named : p.NamesFile) (there : d.root.HasDirectory (d.start p))
    (made : d.makeParent p = .ok d₁) (text : String) :
    (∃ d', d.replaceFile p text = (.ok (), d')) ↔
      ¬ d₁.isDirectory (temporary p) = true ∧ ¬ d₁.isDirectory p = true := by
  obtain ⟨led, beside⟩ := target_of_makeParent named there made
  rw [← exists_write_iff beside text]
  constructor
  · rintro ⟨d', replaced⟩
    obtain ⟨d₁', d₂, made', wrote, moved⟩ := replaceFile_eq_ok_iff.mp replaced
    cases made.symm.trans made'
    obtain ⟨led', same, found⟩ := of_write_temporary named led wrote
    exact ⟨⟨d₂, wrote⟩, same ▸ (exists_move_iff named led' found).mp ⟨d', moved⟩⟩
  · rintro ⟨⟨d₂, wrote⟩, free⟩
    obtain ⟨led', same, found⟩ := of_write_temporary named led wrote
    obtain ⟨d', moved⟩ := (exists_move_iff named led' found).mpr (same ▸ free)
    exact ⟨d', replaceFile_eq_ok_iff.mpr ⟨d₁, d₂, made, wrote, moved⟩⟩

/-- A whole write succeeds if and only if nothing is in the way. -/
theorem replaceFile_ok_iff_not_blocks (named : p.NamesFile)
    (there : d.root.HasDirectory (d.start p)) (text : String) :
    (∃ d', d.replaceFile p text = (.ok (), d')) ↔ ¬ d.Blocks p := by
  obtain ⟨front, name, whole, file⟩ := id named
  have free := exists_makeParent_iff whole file there
  constructor
  · rintro ⟨d', replaced⟩ blocks
    cases blocks with
    | @component way rest content whole' inFront held =>
      obtain ⟨d₁, -, made, -⟩ := replaceFile_eq_ok_iff.mp replaced
      refine free.mp ⟨d₁, made⟩ way rest.dropLast content ?_ held
      rw [← List.dropLast_append_of_ne_nil inFront, ← whole', whole, List.dropLast_concat]
    | temporary made directory =>
      exact ((exists_replaceFile_iff named there made text).mp ⟨d', replaced⟩).1 directory
    | destination made directory =>
      exact ((exists_replaceFile_iff named there made text).mp ⟨d', replaced⟩).2 directory
  · intro clear
    obtain ⟨d₁, made⟩ := free.mpr fun way rest content split held =>
      clear (@Blocks.component d p way (rest ++ [name]) content
        (by rw [whole, split, List.append_assoc]) (by simp) held)
    exact (exists_replaceFile_iff named there made text).mpr
      ⟨fun directory => clear (.temporary made directory),
        fun directory => clear (.destination made directory)⟩

/-! ### What a whole write leaves -/

/-- What a whole write leaves: nothing under the other name, the file with its text or what it was
before, and all other files. -/
structure IsWhole (d : Disk) (p : Path) (text : String) (outcome : Except FileError Unit)
    (d' : Disk) : Prop where
  cleared : ∀ content, d'.find (temporary p) ≠ .ok (.file content)
  written : outcome = .ok () → d'.find p = .ok (.file text.toUTF8)
  kept : ∀ e, outcome = .error e → ∀ content, d.find p = .ok (.file content) →
    d'.find p = .ok (.file content)
  others : d.Changes (fun place => place = d.locate (temporary p) ∨
    outcome = .ok () ∧ place = d.locate p) d'

theorem changes_removeFile (d : Disk) (p : Path) : d.Changes (· = d.locate p) (d.removeFile p) := by
  rw [removeFile]
  split
  · exact .refl
  · rename_i place led
    obtain rfl := eq_locate_of_target led
    split
    · rename_i held
      exact ⟨rfl, agrees_of_removed held, IsProper.remove⟩
    · exact .refl

theorem find_removeFile_ne (named : p.NamesFile) (content : ByteArray) :
    (d.removeFile p).find p ≠ .ok (.file content) := by
  intro found
  obtain ⟨led, there⟩ := target_of_find named found
  rw [(changes_removeFile d p).locate] at led there
  rw [removeFile] at led there
  cases reached : d.target p with
  | error e =>
    rw [reached] at led
    cases reached.symm.trans led
  | ok place =>
    obtain rfl := eq_locate_of_target reached
    rw [reached] at there
    dsimp only at there
    split at there
    · rename_i held
      exact not_hasFile_remove held (locate_ne_nil named) content there
    · rename_i free
      exact free content there

/-- A file that is moved to another place is gone from its own. -/
theorem not_hasFile_of_move (moved : d.move source p = .ok d')
    (held : d.root.HasFile (d.locate source) content) (named : source.NamesFile)
    (differs : d.locate source ≠ d.locate p) (content' : ByteArray) :
    ¬ d'.root.HasFile (d.locate source) content' := by
  obtain ⟨led, d₁, put, rfl⟩ := exists_of_move moved held
  have still := ((of_putFile put (named_of_target led)).1.agrees.files _ _ differs).mpr held
  rw [if_neg differs]
  exact not_hasFile_remove still (locate_ne_nil named) content'

/-- What is found under the other name has its directory. -/
theorem exists_of_find_temporary (named : p.NamesFile)
    (found : d.find (temporary p) = .ok (.file content)) :
    d.makeParent p = .ok d ∧ ∀ parent ∈ p.directory?, d.isDirectory parent = true := by
  obtain ⟨led, -⟩ := target_of_find (namesFile_temporary named) found
  obtain ⟨front, name, whole, file⟩ := named
  obtain ⟨way, reached, there, -⟩ := (target_temporary_eq_ok_iff whole file).mp led
  refine ⟨?_, fun parent lies => isDirectory_of_follow whole file lies reached there⟩
  rw [makeParent_eq whole file, makeAlong_of_follow reached there]
  rfl

theorem isWhole_of_unmade {e : FileError} (named : p.NamesFile)
    (left : d.Changes (fun _ => False) d')
    (clear : ∀ content, d'.find (temporary p) ≠ .ok (.file content)) :
    d.IsWhole p text (.error e) d' where
  cleared := clear
  written := nofun
  kept _ _ _ found := find_of_agrees named found left not_false
  others := left.mono fun _ => False.elim

/-- Whatever has become of the file under the other name, it is removed. -/
theorem isWhole_of_failed {e : FileError} (named : p.NamesFile)
    (left : d.Changes (· = d.locate (temporary p)) d') :
    d.IsWhole p text (.error e) (d'.removeFile (temporary p)) := by
  have removal := changes_removeFile d' (temporary p)
  rw [left.locate] at removal
  have changes := left.trans removal
  refine ⟨find_removeFile_ne (namesFile_temporary named), nofun, ?_, changes.mono fun _ => .inl⟩
  exact fun _ _ _ found =>
    find_of_agrees named found changes (locate_temporary_ne named).symm

theorem isWhole_of_moved (named : p.NamesFile) (made : d.makeParent p = .ok d₁)
    (wrote : d₁.write (temporary p) text = .ok d₂) (moved : d₂.move (temporary p) p = .ok d') :
    d.IsWhole p text (.ok ()) d' := by
  have differs : d.locate (temporary p) ≠ d.locate p := locate_temporary_ne named
  have named' := namesFile_temporary named
  have replaced : d.replaceFile p text = (.ok (), d') :=
    replaceFile_eq_ok_iff.mpr ⟨d₁, d₂, made, wrote, moved⟩
  obtain ⟨changes, found⟩ := of_replaceFile replaced
  refine ⟨?_, ?_, nofun, changes.mono fun _ => .imp_right (.intro rfl)⟩
  · -- the file under the other name has been moved away
    intro content there
    have parents : d.Changes (fun _ => False) d₁ := of_makeParent made
    obtain ⟨around, held⟩ := of_write wrote
    have same (q : Path) : d₂.locate q = d.locate q := (around.locate q).trans (parents.locate q)
    rw [← around.locate] at held
    have gone := not_hasFile_of_move moved held named' (by rwa [same, same]) content
    rw [same, ← changes.locate] at gone
    exact gone (target_of_find named' there).2
  · exact fun _ => found (fun _ => False) d' .refl not_false

/-- An accident leaves all files but that under the other name. Directories are only missing
afterwards if that is where it happens. -/
structure Accident.IsPossible (a : Accident) (d : Disk) (p : Path) : Prop where
  left : d.Changes (fun place => a.step ≠ .makeParent ∧ place = d.locate (temporary p)) a.left
  unmade : a.step = .makeParent → ∃ parent ∈ p.directory?, a.left.isDirectory parent = false

/-- A whole write goes one of three ways: its directory is not made, a later step fails, or all are
done. -/
theorem isWhole_replaceFile {accident : Option Accident} (named : p.NamesFile)
    (possible : ∀ a ∈ accident, a.IsPossible d p) :
    d.IsWhole p text (d.replaceFile p text accident).1 (d.replaceFile p text accident).2 := by
  have left (a : Accident) (happens : a ∈ accident) :
      d.Changes (· = d.locate (temporary p)) a.left :=
    (possible a happens).left.mono fun _ => And.right
  rw [replaceFile]
  rcases attempt_cases d accident .makeParent (·.makeParent p) with
    ⟨a, happens, step, run⟩ | ⟨e, stuck, run⟩ | ⟨d₁, made, run⟩
  · rw [run]
    obtain ⟨left, unmade⟩ := possible a happens
    refine isWhole_of_unmade named (left.mono fun _ later => later.1 step) fun content found => ?_
    obtain ⟨parent, lies, missing⟩ := unmade step
    cases missing.symm.trans ((exists_of_find_temporary named found).2 parent lies)
  · rw [run]
    refine isWhole_of_unmade named .refl fun content found => ?_
    cases stuck.symm.trans (exists_of_find_temporary named found).1
  · have parents : d.Changes (· = d.locate (temporary p)) d₁ := of_makeParent made
    rw [run]
    dsimp only
    rw [writeAndMove]
    rcases attempt_cases d₁ accident .write (·.write (temporary p) text) with
      ⟨a, happens, -, run⟩ | ⟨e, -, run⟩ | ⟨d₂, wrote, run⟩
    · rw [run]
      exact isWhole_of_failed named (left a happens)
    · rw [run]
      exact isWhole_of_failed named parents
    · rw [run]
      dsimp only
      rcases attempt_cases d₂ accident .move (·.move (temporary p) p) with
        ⟨a, happens, -, run⟩ | ⟨e, -, run⟩ | ⟨d₃, moved, run⟩
      · rw [run]
        exact isWhole_of_failed named (left a happens)
      · have written := (of_write wrote).1
        rw [parents.locate] at written
        rw [run]
        exact isWhole_of_failed named (parents.trans written)
      · rw [run]
        exact isWhole_of_moved named made wrote moved

/-- A manifest is written whole or not at all, also when a step fails by accident. Without one it is
written exactly if nothing is in the way. -/
theorem writes_whole (m : Manifest) (format : Format) (d : Disk) {p : Path}
    (named : p.NamesFile) :
    (∀ accident : Option Accident, (∀ a ∈ accident, a.IsPossible d p) →
      d.IsWhole p (m.render format) (d.replaceFile p (m.render format) accident).1
        (d.replaceFile p (m.render format) accident).2) ∧
      (d.root.HasDirectory (d.start p) →
        ((d.replaceFile p (m.render format)).1 = .ok () ↔ ¬ d.Blocks p)) := by
  refine ⟨fun accident possible => isWhole_replaceFile named possible, fun there => ?_⟩
  rw [← replaceFile_ok_iff_not_blocks named there (m.render format)]
  exact ⟨fun succeeded => ⟨_, Prod.ext succeeded rfl⟩,
    fun ⟨_, replaced⟩ => congrArg Prod.fst replaced⟩

/-- A disk with something in the place of the output, and a file that was left behind by a write. -/
def outputDisk (previous : FileTree) : Disk :=
  ⟨.directory [(Text.bytes "main.py", .file "".toUTF8), (Text.bytes "out", .directory
    [(Text.bytes "functions.yaml", previous),
      (Text.bytes "functions.yaml.tmp", .file "specVersion".toUTF8)])], []⟩

def outputPath : Path := .ofText "out/functions.yaml"

/-- An older manifest is replaced, and a directory is in the way. What was left behind is gone in
either case, and an older manifest outlasts a write that breaks off. -/
theorem writes_whole_outputPath :
    let old := outputDisk (.file "old".toUTF8)
    let taken := outputDisk (.directory [])
    let text := ManifestBuilder.new.build.render .yaml
    let accident : Accident := ⟨.write, .busy, old⟩
    outputPath.NamesFile ∧ taken.root.HasDirectory [] ∧
      ((old.replaceFile outputPath text).1 = .ok () ∧
        (old.replaceFile outputPath text).2.find outputPath = .ok (.file text.toUTF8)) ∧
      ((taken.replaceFile outputPath text).1 = .error .isADirectory ∧ taken.Blocks outputPath) ∧
      (accident.IsPossible old outputPath ∧
        (old.replaceFile outputPath text (some accident)).1 = .error .busy ∧
        (old.replaceFile outputPath text (some accident)).2.find outputPath =
          .ok (.file "old".toUTF8) ∧
        ∀ content, (old.replaceFile outputPath text (some accident)).2.find
          (temporary outputPath) ≠ .ok (.file content)) := by
  intro old taken text accident
  have named : outputPath.NamesFile :=
    ⟨[Text.bytes "out"], Text.bytes "functions.yaml", by decide, by decide⟩
  have there : taken.root.HasDirectory [] := ⟨_, rfl⟩
  have possible : accident.IsPossible old outputPath := ⟨.refl, nofun⟩
  have whole := (writes_whole ManifestBuilder.new.build .yaml old named).1
  have broken := whole (some accident) fun a happens => Option.mem_some.mp happens ▸ possible
  refine ⟨named, there, ⟨rfl, (whole none nofun).written rfl⟩, ⟨rfl, ?_⟩,
    possible, rfl, broken.kept _ rfl _ rfl, broken.cleared⟩
  by_contra clear
  cases ((writes_whole ManifestBuilder.new.build .yaml taken named).2 there).mpr clear

end Disk

end DeployManifest
