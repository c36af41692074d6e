import DeployManifest.Files.Tree
import DeployManifest.Proofs.KeyMap

/-! # Places in trees of files

A tree is known by what stands at its places. Putting a file, making a directory and removing a file
each touch one place: two trees agree apart from some places if all others hold the same files, and
no directory has been lost (`Agrees`). The names of a proper tree are those that a path can name, and
stand in order.
-/

namespace DeployManifest

namespace KeyMap

variable {α κ : Type} [DecidableEq κ] {map : KeyMap α κ} {key name : κ} {value : α}

theorem mem_of_get? (found : map.get? key = some value) : (key, value) ∈ map := by
  induction map with
  | nil => cases found
  | cons entry map ih =>
    obtain ⟨k, v⟩ := entry
    rw [get?] at found
    split at found
    · rename_i same
      cases found
      rw [same]
      exact List.mem_cons_self ..
    · exact List.mem_cons_of_mem _ (ih found)

theorem get?_filter_ne [BEq κ] [LawfulBEq κ] (map : KeyMap α κ) (name key : κ) :
    get? key (map.filter (·.1 != name)) = if name = key then none else get? key map := by
  induction map with
  | nil => simp [get?]
  | cons entry map ih =>
    obtain ⟨k, v⟩ := entry
    rw [List.filter_cons]
    by_cases removed : k = name
    · subst removed
      rw [if_neg (by simp), ih, get?]
      split <;> rfl
    · rw [if_pos (by simpa using removed), get?, ih, get?]
      split
      · rename_i same
        rw [if_neg fun other => removed (same.trans other.symm)]
      · rfl

end KeyMap

namespace FileTree

/-! ### What stands at a place -/

/-- A file with these bytes is at a place. -/
def HasFile (t : FileTree) (place : List FileName) (content : ByteArray) : Prop :=
  t.at? place = some (.file content)

/-- A directory is at a place. -/
def HasDirectory (t : FileTree) (place : List FileName) : Prop :=
  ∃ entries, t.at? place = some (.directory entries)

variable {t t' t'' new child : FileTree} {entries : List (FileName × FileTree)} {name : FileName}
  {names place rest : List FileName} {content : ByteArray} {apart apart' : List FileName → Prop}

theorem at?_append : t.at? (place ++ rest) = (t.at? place).bind (at? rest) := by
  induction place generalizing t with
  | nil => rfl
  | cons name place ih =>
    rw [List.cons_append, at?, at?]
    cases t.entry? name with
    | none => rfl
    | some child => exact ih

theorem at?_file_cons : (file content).at? (name :: rest) = none := rfl

theorem at?_directory_cons :
    (directory entries).at? (name :: rest) = (KeyMap.get? name entries).bind (at? rest) := rfl

theorem at?_entry (found : KeyMap.get? name entries = some t) (place : List FileName) :
    (directory entries).at? (name :: place) = t.at? place := by
  rw [at?_directory_cons, found]
  rfl

theorem at?_insert {other : FileName} :
    (directory (KeyMap.insert name child entries)).at? (other :: rest) =
      if name = other then child.at? rest else (directory entries).at? (other :: rest) := by
  rw [at?_directory_cons, KeyMap.get?_insert, at?_directory_cons]
  split <;> rfl

/-- Only directories have something in them. -/
theorem hasDirectory_of_at?_append (found : t.at? (place ++ name :: rest) = some new) :
    t.HasDirectory place := by
  rw [at?_append, Option.bind_eq_some_iff] at found
  obtain ⟨middle, there, found⟩ := found
  cases middle with
  | file => cases found
  | directory entries => exact ⟨entries, there⟩

/-! ### Trees that agree -/

/-- Apart from some places two trees have the same files. No directory of the first one is missing in
the second. -/
structure Agrees (apart : List FileName → Prop) (t t' : FileTree) : Prop where
  files : ∀ place content, ¬ apart place → (t'.HasFile place content ↔ t.HasFile place content)
  directories : ∀ place, t.HasDirectory place → t'.HasDirectory place

theorem Agrees.refl : t.Agrees apart t := ⟨fun _ _ _ => Iff.rfl, fun _ => id⟩

theorem Agrees.trans (first : t.Agrees apart t') (second : t'.Agrees apart t'') :
    t.Agrees apart t'' where
  files place content free :=
    (second.files place content free).trans (first.files place content free)
  directories place held := second.directories place (first.directories place held)

theorem Agrees.mono (agrees : t.Agrees apart t') (within : ∀ place, apart place → apart' place) :
    t.Agrees apart' t' where
  files place content free := agrees.files place content fun there => free (within place there)
  directories := agrees.directories

/-- Where neither of them has a file, they have the same. -/
theorem Agrees.found (agrees : t.Agrees apart t') : t.Agrees (fun place => apart place ∧
    ∃ content, t.HasFile place content ∨ t'.HasFile place content) t' where
  files place content free := by
    by_cases there : apart place
    · exact iff_of_false (fun held => free ⟨there, content, .inr held⟩)
        fun held => free ⟨there, content, .inl held⟩
    · exact agrees.files place content there
  directories := agrees.directories

/-- A directory agrees with itself after a change that is made in one of its entries. -/
theorem agrees_insert
    (files : ∀ place content, ¬ apart (name :: place) →
      (child.HasFile place content ↔ (directory entries).HasFile (name :: place) content))
    (directories : ∀ place, (directory entries).HasDirectory (name :: place) →
      child.HasDirectory place) :
    (directory entries).Agrees apart (directory (KeyMap.insert name child entries)) where
  files place content free := by
    cases place with
    | nil => exact ⟨nofun, nofun⟩
    | cons other rest =>
      rw [HasFile, at?_insert]
      split
      · rename_i same
        subst same
        exact files rest content free
      · exact Iff.rfl
  directories place held := by
    cases place with
    | nil => exact ⟨_, rfl⟩
    | cons other rest =>
      rw [HasDirectory, at?_insert]
      split
      · rename_i same
        subst same
        exact directories rest held
      · exact held

theorem agrees_entry (found : KeyMap.get? name entries = some t)
    (agrees : t.Agrees (· = names) child) : (directory entries).Agrees (· = name :: names)
      (directory (KeyMap.insert name child entries)) := by
  refine agrees_insert (fun place content apart => ?_) fun place held => ?_
  · rw [HasFile, HasFile, at?_entry found]
    exact agrees.files place content fun here => apart (by rw [here])
  · rw [HasDirectory, at?_entry found] at held
    exact agrees.directories place held

/-! ### Putting something in its place -/

/-- Something is put in a directory itself, or further down in one of its entries. -/
theorem put?_cons_eq_some_iff :
    (directory entries).put? (name :: names) new = some t' ↔
      ∃ child, t' = directory (KeyMap.insert name child entries) ∧
        (names = [] ∧ child = new ∨
          names ≠ [] ∧ ∃ t, KeyMap.get? name entries = some t ∧ t.put? names new = some child) := by
  cases names with
  | nil =>
    rw [put?]
    simp [eq_comm]
  | cons next names =>
    rw [put?]
    · cases found : KeyMap.get? name entries with
      | none => simp
      | some t =>
        simp only [Option.map_eq_some_iff]
        constructor
        · rintro ⟨child, put, rfl⟩
          exact ⟨child, rfl, .inr ⟨nofun, t, rfl, put⟩⟩
        · rintro ⟨child, rfl, ⟨none, -⟩ | ⟨-, t, ⟨⟩, put⟩⟩
          · cases none
          · exact ⟨child, put, rfl⟩
    · exact nofun

theorem at?_of_put? (put : t.put? place new = some t') : t'.at? place = some new := by
  induction place generalizing t t' with
  | nil =>
    cases t <;> cases put <;> rfl
  | cons name names ih =>
    cases t with
    | file => cases put
    | directory entries =>
      obtain ⟨child, rfl, ⟨rfl, rfl⟩ | ⟨-, t, -, put⟩⟩ := put?_cons_eq_some_iff.mp put
      · rw [at?_insert, if_pos rfl]
        rfl
      · rw [at?_insert, if_pos rfl]
        exact ih put

theorem at?_below (empty : ¬ (directory entries).HasDirectory [name]) {other : FileName} :
    (directory entries).at? (name :: other :: rest) = none := by
  by_contra found
  obtain ⟨t, found⟩ := Option.ne_none_iff_exists'.mp found
  have split : (directory entries).at? ([name] ++ other :: rest) = some t := found
  exact empty (hasDirectory_of_at?_append split)

/-- What is put in the place of a file, or where nothing is, changes no other place. -/
theorem agrees_of_put? (put : t.put? place new = some t')
    (leaf : ∀ name rest, new.at? (name :: rest) = none) (free : ¬ t.HasDirectory place) :
    t.Agrees (· = place) t' := by
  induction place generalizing t t' with
  | nil =>
    cases t with
    | directory entries => exact absurd ⟨entries, rfl⟩ free
    | file content =>
      obtain rfl : new = t' := by simpa [put?] using put
      refine ⟨fun place content apart => ?_, fun place held => ?_⟩
      · obtain ⟨name, rest, rfl⟩ := List.exists_cons_of_ne_nil apart
        rw [HasFile, HasFile, leaf, at?_file_cons]
      · obtain ⟨entries, held⟩ := held
        cases place <;> cases held
  | cons name names ih =>
    cases t with
    | file => cases put
    | directory entries =>
      obtain ⟨child, rfl, ⟨rfl, rfl⟩ | ⟨-, t, found, put⟩⟩ := put?_cons_eq_some_iff.mp put
      · refine agrees_insert (fun place content apart => ?_) fun place held => ?_
        · obtain ⟨other, rest, rfl⟩ : ∃ other rest, place = other :: rest :=
            List.exists_cons_of_ne_nil fun none => apart (by rw [none])
          rw [HasFile, HasFile, leaf, at?_below free]
        · cases place with
          | nil => exact absurd held free
          | cons other rest =>
            obtain ⟨entries', held⟩ := held
            rw [at?_below free] at held
            cases held
      · exact agrees_entry found (ih put (by rwa [HasDirectory, at?_entry found] at free))

/-- A directory that is made where nothing is changes no file. -/
theorem agrees_of_made (put : t.put? place (.directory []) = some t') (free : t.at? place = none)
    (apart : List FileName → Prop) : t.Agrees apart t' := by
  have agrees := agrees_of_put? put (fun _ _ => rfl) (by simp [HasDirectory, free])
  refine ⟨fun other content _ => ?_, agrees.directories⟩
  by_cases here : other = place
  · subst here
    simp [HasFile, at?_of_put? put, free]
  · exact agrees.files other content here

/-! ### Removing a file -/

/-- A directory without one of its files. -/
theorem agrees_filter_ne (found : KeyMap.get? name entries = some (file content)) :
    (directory entries).Agrees (· = [name]) (directory (entries.filter (·.1 != name))) where
  files place content' apart := by
    cases place with
    | nil => exact ⟨nofun, nofun⟩
    | cons other rest =>
      rw [HasFile, at?_directory_cons, KeyMap.get?_filter_ne]
      split
      · rename_i here
        subst here
        obtain ⟨next, rest, rfl⟩ : ∃ next later, rest = next :: later :=
          List.exists_cons_of_ne_nil fun none => apart (by rw [none])
        rw [HasFile, at?_entry found]
        exact Iff.rfl
      · exact Iff.rfl
  directories place held := by
    obtain ⟨entries', held⟩ := held
    cases place with
    | nil => exact ⟨_, rfl⟩
    | cons other rest =>
      rw [HasDirectory, at?_directory_cons, KeyMap.get?_filter_ne]
      split
      · rename_i here
        subst here
        rw [at?_entry found] at held
        cases rest <;> cases held
      · exact ⟨entries', held⟩

/-- A file that is removed changes no other place. -/
theorem agrees_of_removed (held : t.HasFile place content) :
    t.Agrees (· = place) (t.remove place) := by
  induction place generalizing t with
  | nil => exact .refl
  | cons name names ih =>
    cases t with
    | file => cases held
    | directory entries =>
      rw [HasFile, at?_directory_cons, Option.bind_eq_some_iff] at held
      obtain ⟨t, found, held⟩ := held
      cases names with
      | nil =>
        obtain rfl : t = file content := Option.some.inj held
        rw [remove]
        exact agrees_filter_ne found
      | cons next names =>
        rw [remove, found]
        · exact agrees_entry found (ih held)
        · exact nofun

/-! ### Proper trees -/

/-- A name that a path can name: it has no slash in it, and leads somewhere. -/
def IsFileName (name : FileName) : Prop :=
  Path.slash ∉ name ∧ name ≠ [] ∧ name ≠ [Path.point] ∧ name ≠ [Path.point, Path.point]

instance : DecidablePred IsFileName := fun _ => inferInstanceAs (Decidable (_ ∧ _ ∧ _ ∧ _))

mutual

/-- All names in the tree are file names, and those of a directory stand in order. -/
def IsProper : FileTree → Prop
  | file _ => True
  | directory entries => KeyMap.IsAscending entries ∧ AreProper entries

/-- What is in entries is proper. -/
def AreProper : List (FileName × FileTree) → Prop
  | [] => True
  | (name, t) :: rest => IsFileName name ∧ t.IsProper ∧ AreProper rest

end

theorem areProper_iff :
    AreProper entries ↔ ∀ entry ∈ entries, IsFileName entry.1 ∧ entry.2.IsProper := by
  induction entries with
  | nil => simp [AreProper]
  | cons entry entries ih =>
    obtain ⟨name, t⟩ := entry
    rw [AreProper, ih, List.forall_mem_cons, and_assoc]

theorem isProper_directory_iff : (directory entries).IsProper ↔
    KeyMap.IsAscending entries ∧ ∀ entry ∈ entries, IsFileName entry.1 ∧ entry.2.IsProper := by
  rw [IsProper, areProper_iff]

theorem isProper_cons_iff : (directory ((name, t) :: entries)).IsProper ↔
    (∀ entry ∈ entries, name < entry.1) ∧ IsFileName name ∧ t.IsProper ∧
      (directory entries).IsProper := by
  rw [isProper_directory_iff, isProper_directory_iff, KeyMap.IsAscending, List.pairwise_cons,
    List.forall_mem_cons]
  exact ⟨fun ⟨⟨first, ascending⟩, ⟨named, proper⟩, each⟩ => ⟨first, named, proper, ascending, each⟩,
    fun ⟨first, named, proper, ascending, each⟩ => ⟨⟨first, ascending⟩, ⟨named, proper⟩, each⟩⟩

theorem IsProper.insert (proper : (directory entries).IsProper) (named : IsFileName name)
    (inside : child.IsProper) : (directory (KeyMap.insert name child entries)).IsProper := by
  obtain ⟨ascending, each⟩ := isProper_directory_iff.mp proper
  exact isProper_directory_iff.mpr
    ⟨ascending.insert name child, KeyMap.forall_mem_insert ⟨named, inside⟩ each⟩

theorem IsProper.entry (proper : (directory entries).IsProper)
    (found : KeyMap.get? name entries = some child) : IsFileName name ∧ child.IsProper :=
  (isProper_directory_iff.mp proper).2 _ (KeyMap.mem_of_get? found)

theorem IsProper.at? (proper : t.IsProper) (found : t.at? place = some child) :
    child.IsProper ∧ ∀ name ∈ place, IsFileName name := by
  induction place generalizing t with
  | nil =>
    cases found
    exact ⟨proper, by simp⟩
  | cons name rest ih =>
    cases t with
    | file => cases found
    | directory entries =>
      rw [at?_directory_cons, Option.bind_eq_some_iff] at found
      obtain ⟨middle, there, found⟩ := found
      obtain ⟨named, inside⟩ := proper.entry there
      obtain ⟨proper, others⟩ := ih inside found
      exact ⟨proper, List.forall_mem_cons.mpr ⟨named, others⟩⟩

/-- A proper tree stays so when something proper is put in it under a file name. -/
theorem IsProper.put? (proper : t.IsProper) (put : t.put? place new = some t')
    (named : ∀ name ∈ place.getLast?, IsFileName name) (inside : new.IsProper) : t'.IsProper := by
  induction place generalizing t t' with
  | nil =>
    obtain rfl : new = t' := by cases t <;> simpa [FileTree.put?] using put
    exact inside
  | cons name names ih =>
    cases t with
    | file => cases put
    | directory entries =>
      obtain ⟨child, rfl, ⟨rfl, rfl⟩ | ⟨more, t, found, put⟩⟩ := put?_cons_eq_some_iff.mp put
      · exact proper.insert (named name rfl) inside
      · obtain ⟨here, below⟩ := proper.entry found
        refine proper.insert here (ih below put ?_)
        obtain ⟨next, rest, rfl⟩ := List.exists_cons_of_ne_nil more
        rwa [List.getLast?_cons_cons] at named

theorem IsProper.remove (proper : t.IsProper) : (t.remove place).IsProper := by
  induction place generalizing t with
  | nil =>
    rw [FileTree.remove]
    exact proper
  | cons name names ih =>
    cases t with
    | file =>
      rw [FileTree.remove]
      exact proper
    | directory entries =>
      obtain ⟨ascending, each⟩ := isProper_directory_iff.mp proper
      cases names with
      | nil =>
        rw [FileTree.remove]
        exact isProper_directory_iff.mpr ⟨ascending.filter _,
          fun entry member => each entry (List.mem_filter.mp member).1⟩
      | cons next names =>
        rw [FileTree.remove]
        · cases found : KeyMap.get? name entries with
          | none => exact proper
          | some t => exact proper.insert (proper.entry found).1 (ih (proper.entry found).2)
        · exact nofun

end FileTree

end DeployManifest
