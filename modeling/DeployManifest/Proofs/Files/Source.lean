import DeployManifest.Compile.Basic
import DeployManifest.Proofs.Files.Place
import DeployManifest.Proofs.Outcome
import Mathlib.Data.List.Lex
import Mathlib.Data.List.Sort

/-! # The modules of a source tree

A walk finds the files whose names are those of modules, in all directories that are not passed over
(`mem_sourcesOf_iff`), each once and in order (`ascends_sourcesOf`). So what is found, and in which
order, depends on the files alone, and empty directories change nothing.
-/

namespace DeployManifest

namespace FileTree

/-- The names on the way to a module: the last one is that of a module, and none of the others that
of a directory that is passed over. -/
def IsSourceWay (exclude : List String) : List FileName → Prop
  | [] => False
  | [name] => isSourceName name = true
  | name :: next :: rest => isExcluded exclude name = false ∧ IsSourceWay exclude (next :: rest)

variable {exclude : List String} {name : FileName} {names rest place : List FileName}
  {entries : List (FileName × FileTree)} {t : FileTree}

theorem IsSourceWay.ne_nil (way : IsSourceWay exclude names) : names ≠ [] := by
  rintro rfl
  exact way

theorem isSourceWay_cons_iff (more : rest ≠ []) :
    IsSourceWay exclude (name :: rest) ↔
      isExcluded exclude name = false ∧ IsSourceWay exclude rest := by
  obtain ⟨next, rest, rfl⟩ := List.exists_cons_of_ne_nil more
  rw [IsSourceWay]

mutual

theorem mem_sources_iff {name : FileName} {names : List FileName} (t : FileTree)
    (proper : t.IsProper) : names ∈ sources exclude name t ↔ ∃ rest content, names = name :: rest ∧
      IsSourceWay exclude names ∧ t.HasFile rest content := by
  cases t with
  | file content =>
    rw [sources]
    constructor
    · intro member
      split at member
      · obtain rfl := List.mem_singleton.mp member
        exact ⟨[], content, rfl, ‹_›, rfl⟩
      · cases member
    · rintro ⟨rest, content', rfl, way, held⟩
      cases rest with
      | nil =>
        have way : isSourceName name = true := way
        rw [if_pos way]
        exact List.mem_singleton_self _
      | cons => cases held
  | directory entries =>
    have inside (rest : List FileName) := @mem_sourcesOf_iff rest entries proper
    rw [sources]
    constructor
    · intro member
      split at member
      · cases member
      · rename_i entered
        obtain ⟨rest, found, rfl⟩ := List.mem_map.mp member
        obtain ⟨way, content, held⟩ := (inside rest).mp found
        have way := (isSourceWay_cons_iff way.ne_nil).mpr ⟨by simpa using entered, way⟩
        exact ⟨rest, content, rfl, way, held⟩
    · rintro ⟨rest, content, rfl, way, held⟩
      have more : rest ≠ [] := by
        rintro rfl
        cases held
      obtain ⟨entered, way⟩ := (isSourceWay_cons_iff more).mp way
      rw [if_neg (by simpa using entered)]
      exact List.mem_map_of_mem ((inside rest).mpr ⟨way, content, held⟩)

/-- The modules in a directory are the files on the ways that are walked. -/
theorem mem_sourcesOf_iff {names : List FileName} (entries : List (FileName × FileTree))
    (proper : (directory entries).IsProper) : names ∈ sourcesOf exclude entries ↔
      IsSourceWay exclude names ∧ ∃ content, (directory entries).HasFile names content := by
  cases entries with
  | nil =>
    rw [sourcesOf]
    constructor
    · nofun
    · rintro ⟨way, content, held⟩
      cases names <;> cases held
  | cons entry entries =>
    obtain ⟨name, t⟩ := entry
    obtain ⟨first, -, here, others⟩ := isProper_cons_iff.mp proper
    have looked (other : FileName) (rest : List FileName) :
        (directory ((name, t) :: entries)).at? (other :: rest) =
          if name = other then t.at? rest else (directory entries).at? (other :: rest) := by
      rw [at?_directory_cons, KeyMap.get?]
      split <;> rfl
    rw [sourcesOf, List.mem_append, mem_sources_iff t here, mem_sourcesOf_iff entries others]
    constructor
    · rintro (⟨rest, content, rfl, way, held⟩ | ⟨way, content, held⟩)
      · exact ⟨way, content, by rw [HasFile, looked, if_pos rfl]; exact held⟩
      · refine ⟨way, content, ?_⟩
        obtain ⟨other, rest, rfl⟩ := List.exists_cons_of_ne_nil way.ne_nil
        -- what stands behind the first entry has another name
        have differs : name ≠ other := by
          have held' := held
          rw [HasFile, at?_directory_cons, Option.bind_eq_some_iff] at held'
          obtain ⟨_, found, -⟩ := held'
          exact ne_of_irrefl (first _ (KeyMap.mem_of_get? found))
        rw [HasFile, looked, if_neg differs]
        exact held
    · rintro ⟨way, content, held⟩
      obtain ⟨other, rest, rfl⟩ := List.exists_cons_of_ne_nil way.ne_nil
      rw [HasFile, looked] at held
      split at held
      · rename_i same
        subst same
        exact .inl ⟨rest, content, rfl, way, held⟩
      · exact .inr ⟨way, content, held⟩

end

/-- Ways in the order of a walk. -/
def Precedes : List FileName → List FileName → Prop := List.Lex (· < ·)

instance : Std.Asymm Precedes := inferInstanceAs (Std.Asymm (List.Lex (· < ·)))

mutual

theorem ascends_sources {name : FileName} (t : FileTree) (proper : t.IsProper) :
    (sources exclude name t).Pairwise Precedes := by
  cases t with
  | file content =>
    rw [sources]
    split <;> simp
  | directory entries =>
    rw [sources]
    split
    · exact .nil
    · exact List.pairwise_map.mpr ((ascends_sourcesOf entries proper).imp fun less => .cons less)

/-- A walk finds the modules in order, each once. -/
theorem ascends_sourcesOf (entries : List (FileName × FileTree))
    (proper : (directory entries).IsProper) : (sourcesOf exclude entries).Pairwise Precedes := by
  cases entries with
  | nil =>
    rw [sourcesOf]
    exact .nil
  | cons entry entries =>
    obtain ⟨name, t⟩ := entry
    obtain ⟨first, -, here, others⟩ := isProper_cons_iff.mp proper
    rw [sourcesOf]
    refine List.pairwise_append.mpr ⟨ascends_sources t here, ascends_sourcesOf entries others, ?_⟩
    intro names member later behind
    obtain ⟨rest, _, rfl, -, -⟩ := (mem_sources_iff t here).mp member
    obtain ⟨way, _, held⟩ := (mem_sourcesOf_iff entries others).mp behind
    obtain ⟨other, rest', rfl⟩ := List.exists_cons_of_ne_nil way.ne_nil
    rw [HasFile, at?_directory_cons, Option.bind_eq_some_iff] at held
    obtain ⟨_, found, -⟩ := held
    exact .rel (first _ (KeyMap.mem_of_get? found))

end

/-! ### Trees with the same modules -/

section Agreeing

variable {t' : FileTree} {base : List FileName} {entries' : List (FileName × FileTree)}
  {apart : List FileName → Prop}

theorem hasFile_below_iff (here : t.at? base = some (directory entries)) {content : ByteArray} :
    (directory entries).HasFile names content ↔ t.HasFile (base ++ names) content := by
  rw [HasFile, HasFile, at?_append, here, Option.bind_some]

/-- The ways to modules, apart from some, are the same in trees that agree. -/
theorem mem_sourcesOf_of_agrees (agrees : t.Agrees apart t') (proper : t.IsProper)
    (proper' : t'.IsProper) (here : t.at? base = some (directory entries))
    (here' : t'.at? base = some (directory entries')) (free : ¬ apart (base ++ names)) :
    names ∈ sourcesOf exclude entries' ↔ names ∈ sourcesOf exclude entries := by
  rw [mem_sourcesOf_iff entries' (proper'.at? here').1,
    mem_sourcesOf_iff entries (proper.at? here).1]
  refine and_congr_right fun _ => exists_congr fun content => ?_
  rw [hasFile_below_iff here, hasFile_below_iff here', agrees.files _ content free]

theorem sourcesOf_of_agrees (agrees : t.Agrees apart t') (proper : t.IsProper)
    (proper' : t'.IsProper) (here : t.at? base = some (directory entries))
    (here' : t'.at? base = some (directory entries'))
    (unseen : ∀ names, IsSourceWay exclude names → ¬ apart (base ++ names)) :
    sourcesOf exclude entries' = sourcesOf exclude entries := by
  have inside' := (proper'.at? here').1
  have inside := (proper.at? here).1
  refine (ascends_sourcesOf entries' inside').eq_of_mem_iff (ascends_sourcesOf entries inside)
    fun names => ?_
  by_cases way : IsSourceWay exclude names
  · exact mem_sourcesOf_of_agrees agrees proper proper' here here' (unseen names way)
  · rw [mem_sourcesOf_iff entries' inside', mem_sourcesOf_iff entries inside]
    simp [way]

/-- One file more on such a way is one module more, in its place among the others. -/
theorem sourcesOf_of_added (agrees : t.Agrees (· = base ++ names) t') (proper : t.IsProper)
    (proper' : t'.IsProper) (here : t.at? base = some (directory entries))
    (here' : t'.at? base = some (directory entries')) (way : IsSourceWay exclude names)
    (added : ∃ content, t'.HasFile (base ++ names) content)
    (missing : ∀ content, ¬ t.HasFile (base ++ names) content) :
    ∃ before after, sourcesOf exclude entries' = before ++ names :: after ∧
      sourcesOf exclude entries = before ++ after := by
  have inside' := (proper'.at? here').1
  have inside := (proper.at? here).1
  have ascends' : (sourcesOf exclude entries').Pairwise Precedes :=
    ascends_sourcesOf entries' inside'
  have found : names ∈ sourcesOf exclude entries' := by
    obtain ⟨content, held⟩ := added
    exact (mem_sourcesOf_iff entries' inside').mpr ⟨way, content, (hasFile_below_iff here').mpr held⟩
  have unfound : names ∉ sourcesOf exclude entries := by
    intro member
    obtain ⟨-, content, held⟩ := (mem_sourcesOf_iff entries inside).mp member
    exact missing content ((hasFile_below_iff here).mp held)
  obtain ⟨before, after, whole⟩ := List.append_of_mem found
  refine ⟨before, after, whole, ?_⟩
  rw [whole] at ascends'
  refine (ascends_sourcesOf entries inside).eq_of_mem_iff
    (ascends'.sublist (List.Sublist.append_left (List.sublist_cons_self ..) _)) fun other => ?_
  by_cases same : other = names
  · subst same
    have unique : other ∉ before ++ after :=
      (List.nodup_cons.mp (List.nodup_middle.mp ascends'.nodup)).1
    exact iff_of_false unfound unique
  · have among : other ∈ sourcesOf exclude entries' ↔ other ∈ sourcesOf exclude entries :=
      mem_sourcesOf_of_agrees agrees proper proper' here here'
        fun there => same (List.append_cancel_left there)
    rw [← among, whole]
    simp [same]

end Agreeing

end FileTree

/-- A module that is found below a source root, on a way of names. -/
def SourceFile.below (root : Path) (names : List FileName) : SourceFile :=
  .ofPath root (root.join (.ofNames names))

namespace Disk

open FileTree

variable {d d' : Disk} {root : Path} {base names : List FileName} {exclude : List String}
  {entries entries' : List (FileName × FileTree)} {content : ByteArray}
  {apart : List FileName → Prop}

theorem find_of_place {p : Path} {place : List FileName} {t : FileTree} (led : d.place p = .ok place)
    (there : d.root.at? place = some t) : d.find p = .ok t := by
  simp only [find, led, Except.bind, there]

/-- The modules below a root that is a directory. -/
theorem sources_eq (led : d.place root = .ok base)
    (here : d.root.at? base = some (directory entries)) :
    d.sources root exclude = .ok ((sourcesOf exclude entries).map (SourceFile.below root)) := by
  rw [sources, find_of_place led here]
  rfl

theorem find_below (led : d.place root = .ok base) (proper : d.root.IsProper) (more : names ≠ [])
    (held : d.root.HasFile (base ++ names) content) :
    d.find (SourceFile.below root names).path = .ok (file content) := by
  have named : ∀ name ∈ names, IsFileName name :=
    fun name member => (proper.at? held).2 name (List.mem_append_right _ member)
  obtain ⟨name, rest, rfl⟩ := List.exists_cons_of_ne_nil more
  exact find_of_place (place_join led (hasDirectory_of_at?_append held) more named held) held

/-- A module is searched for what its file holds, in whichever tree that stands. -/
theorem scanSource_congr (led : d.place root = .ok base) (led' : d'.place root = .ok base)
    (proper : d.root.IsProper) (proper' : d'.root.IsProper) (more : names ≠ [])
    (held : d.root.HasFile (base ++ names) content)
    (held' : d'.root.HasFile (base ++ names) content) :
    d'.scanSource (.below root names) = d.scanSource (.below root names) := by
  rw [scanSource, scanSource, readSource, readSource, readText, readText,
    find_below led proper more held, find_below led' proper' more held']

end Disk

namespace Manifest

open FileTree

variable {d d' : Disk} {root : Path} {base : List FileName} {exclude : List String}
  {entries : List (FileName × FileTree)} {apart : List FileName → Prop}

/-- The manifest of a source tree, by the ways to its modules. -/
theorem ofDisk_eq (led : d.place root = .ok base)
    (here : d.root.at? base = some (directory entries)) :
    ofDisk d root exclude =
      ((sourcesOf exclude entries).mapM fun names => d.scanSource (.below root names)) >>=
        ofScans := by
  rw [ofDisk, Disk.sources_eq led here]
  exact congrArg (· >>= ofScans) List.mapM_map

/-- What is compiled is the same on disks that agree apart from files that are no modules. -/
theorem ofDisk_of_agrees (agrees : d.root.Agrees apart d'.root) (here : d'.here = d.here)
    (proper : d.root.IsProper) (proper' : d'.root.IsProper) (led : d.place root = .ok base)
    (there : d.root.HasDirectory base)
    (unseen : ∀ names, IsSourceWay exclude names → ¬ apart (base ++ names)) :
    ofDisk d' root exclude = ofDisk d root exclude := by
  have led' := Disk.place_of_agrees agrees here led there
  obtain ⟨entries', there'⟩ := agrees.directories base there
  obtain ⟨entries, there⟩ := there
  rw [ofDisk_eq led there, ofDisk_eq led' there',
    sourcesOf_of_agrees agrees proper proper' there there' unseen]
  congr 1
  refine Outcome.mapM_congr fun names member => ?_
  obtain ⟨way, content, held⟩ :=
    (mem_sourcesOf_iff entries (proper.at? there).1).mp member
  have held := (hasFile_below_iff there).mp held
  exact Disk.scanSource_congr led led' proper proper' way.ne_nil held
    ((agrees.files _ content (unseen names way)).mpr held)

end Manifest

end DeployManifest
