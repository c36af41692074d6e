import DeployManifest.Proofs.Files.Source
import DeployManifest.Proofs.Text.Utf8

/-! # What is found below a source root

Below a directory, a walk finds the files with the extension of sources, and none in an excluded
directory. They stand in the order of their paths, part by part and byte by byte; that is not the
order of the bytes of the paths, since a slash is no part. Two of them share a name exactly if their
parts are shown alike, so no two do where all parts are texts. Main statement: `discovers_sources`.
-/

namespace DeployManifest

open FileTree (IsFileName IsSourceWay)

/-- A name that is the encoding of a text. -/
def FileName.IsText (name : FileName) : Prop := ∃ text, name = Text.bytes text

/-! ### Names -/

variable {exclude : List String} {names others : List FileName} {name : FileName}

theorem isExcluded_iff :
    isExcluded exclude name = true ↔ ∃ text ∈ exclude, name = Text.bytes text := by
  simp only [isExcluded, List.any_eq_true, beq_iff_eq, Text.ofBytes?_eq_some_iff]

/-- The extension of sources stands behind something, which may be a point. -/
theorem isSourceName_iff :
    isSourceName name = true ↔ ∃ stem, stem ≠ [] ∧ name = stem ++ Text.bytes ".py" := by
  rw [isSourceName, Bool.and_eq_true, List.isSuffixOf_iff_suffix, decide_eq_true_iff]
  have three : (Text.bytes ".py").length = 3 := rfl
  constructor
  · rintro ⟨⟨stem, rfl⟩, long⟩
    refine ⟨stem, ?_, rfl⟩
    rintro rfl
    rw [List.nil_append, three] at long
    exact absurd long (by decide)
  · rintro ⟨stem, some, rfl⟩
    have filled : 0 < stem.length := List.length_pos_iff.mpr some
    refine ⟨List.suffix_append .., ?_⟩
    rw [List.length_append, three]
    omega

theorem isSourceWay_iff : IsSourceWay exclude names ↔
    (∃ stem, stem ≠ [] ∧ names.getLast? = some (stem ++ Text.bytes ".py")) ∧
      ∀ name ∈ names.dropLast, ∀ text ∈ exclude, name ≠ Text.bytes text := by
  induction names with
  | nil => simp [IsSourceWay]
  | cons name rest ih =>
    cases rest with
    | nil =>
      have here : IsSourceWay exclude [name] ↔ isSourceName name = true := Iff.rfl
      rw [here, isSourceName_iff]
      simp
    | cons next rest =>
      have entered : isExcluded exclude name = false ↔ ∀ text ∈ exclude, name ≠ Text.bytes text := by
        rw [← Bool.not_eq_true, isExcluded_iff]
        push Not
        exact Iff.rfl
      rw [FileTree.isSourceWay_cons_iff (List.cons_ne_nil next rest), ih, entered,
        List.getLast?_cons_cons, List.dropLast_cons_cons, List.forall_mem_cons]
      exact and_left_comm

namespace Path

variable {root p : Path}

/-- File names behind a path are its last components. -/
theorem components_join (some : root.bytes ≠ []) (more : names ≠ [])
    (named : ∀ name ∈ names, IsFileName name) :
    (root.join (.ofNames names)).components = root.components ++ names := by
  have relative := isAbsolute_ofNames named
  have kept : (names.filter fun part => part != [] && part != [point]) = names :=
    List.filter_eq_self.mpr fun name member => by
      obtain ⟨-, filled, noPoint, -⟩ := named name member
      simp [filled, noPoint]
  rw [components, components, isAbsolute_join some relative, List.append_assoc, Path.names,
    Path.names]
  rcases parts_join some relative with joined | ⟨front, whole, joined⟩
  · have begins : root.parts ≠ [] := Text.cut_ne_nil slash root.bytes
    rw [joined, parts_ofNames more named, List.filter_append, kept,
      List.head?_append_of_ne_nil _ begins]
  · rw [joined, whole, parts_ofNames more named, List.filter_append, List.filter_append, kept]
    have begins : ((front ++ names).head? == .some [point]) =
        ((front ++ [[]]).head? == .some [point]) := by
      cases front with
      | nil =>
        obtain ⟨name, rest, rfl⟩ := List.exists_cons_of_ne_nil more
        obtain ⟨-, -, noPoint, -⟩ := named name (List.mem_cons_self ..)
        simpa using noPoint
      | cons => rfl
    rw [begins]
    simp

theorem toList_shown (names : List FileName) : ("/".intercalate (names.map Text.lossy)).toList =
    Text.join ['/'] (names.map fun name => (Text.lossy name).toList) := by
  rw [Text.join_eq_intercalate, String.toList_intercalate, List.map_map]
  rfl

theorem shown_ne_empty (more : names ≠ []) (named : ∀ name ∈ names, IsFileName name) :
    "/".intercalate (names.map Text.lossy) ≠ "" := by
  intro nothing
  have empty := toList_shown names
  rw [nothing, String.toList_empty, eq_comm, Text.join_eq_nil_iff] at empty
  rcases empty with none | single
  · exact more (List.map_eq_nil_iff.mp none)
  · obtain ⟨name, rfl, blank⟩ := List.map_eq_singleton_iff.mp single
    exact Text.lossy_ne_empty (named name (List.mem_singleton_self _)).2.1
      (String.toList_eq_nil_iff.mp blank)

/-- A slash that is shown is one of the path. -/
theorem slash_not_mem_lossy (named : IsFileName name) : '/' ∉ (Text.lossy name).toList :=
  fun member => named.1 (Text.mem_of_mem_lossy (by decide) member)

/-- Names are shown alike if each of them is. -/
theorem shown_inj (more : names ≠ []) (named : ∀ name ∈ names, IsFileName name)
    (more' : others ≠ []) (named' : ∀ name ∈ others, IsFileName name) :
    "/".intercalate (names.map Text.lossy) = "/".intercalate (others.map Text.lossy) ↔
      names.map Text.lossy = others.map Text.lossy := by
  have pieces {ns : List FileName} (more : ns ≠ []) (named : ∀ name ∈ ns, IsFileName name) :
      Text.cut '/' ("/".intercalate (ns.map Text.lossy)).toList =
        (ns.map Text.lossy).map String.toList := by
    rw [toList_shown, Text.cut_join (by simpa using more), List.map_map]
    · rfl
    · exact List.forall_mem_map.mpr fun name member => slash_not_mem_lossy (named name member)
  constructor
  · intro same
    have cut := pieces more named
    rw [same, pieces more' named'] at cut
    exact (List.map_injective_iff.mpr (fun _ _ => String.toList_inj.mp) cut).symm
  · intro same
    rw [same]

theorem nameBelow_join (some : root.bytes ≠ []) (more : names ≠ [])
    (named : ∀ name ∈ names, IsFileName name) :
    root.nameBelow (root.join (.ofNames names)) = "/".intercalate (names.map Text.lossy) := by
  have inside : root.components.isPrefixOf (root.components ++ names) = true :=
    List.isPrefixOf_iff_prefix.mpr (List.prefix_append ..)
  rw [nameBelow, components_join some more named, inside, if_pos rfl, List.drop_left]
  exact if_neg (by simpa using shown_ne_empty more named)

end Path

theorem FileName.eq_of_map_lossy (texts : ∀ name ∈ names, IsText name)
    (texts' : ∀ name ∈ others, IsText name) (same : names.map Text.lossy = others.map Text.lossy) :
    names = others := by
  have read {ns : List FileName} (texts : ∀ name ∈ ns, IsText name) :
      (ns.map Text.lossy).map Text.bytes = ns := by
    have each : ∀ name ∈ ns, (Text.bytes ∘ Text.lossy) name = id name := by
      intro name member
      obtain ⟨text, rfl⟩ := texts name member
      rw [Function.comp_apply, Text.lossy_bytes, id]
    rw [List.map_map, List.map_congr_left each, List.map_id]
  rw [← read texts, same, read texts']

namespace Disk

open FileTree Outcome

variable {d : Disk} {root : Path} {base : List FileName} {files : List SourceFile}

/-- There is a module below a place: a file with the extension of sources behind something, and no
directory on the way to it has an excluded name. -/
def HasSource (d : Disk) (base : List FileName) (exclude : List String) (names : List FileName) :
    Prop :=
  (∃ content, d.root.HasFile (base ++ names) content) ∧
    (∃ stem, stem ≠ [] ∧ names.getLast? = some (stem ++ Text.bytes ".py")) ∧
    ∀ name ∈ names.dropLast, ∀ text ∈ exclude, name ≠ Text.bytes text

/-- The files found below a directory at a place are the modules there. -/
structure Discovers (d : Disk) (root : Path) (base : List FileName) (exclude : List String)
    (files : List SourceFile) : Prop where
  found_iff : ∀ names, (∃ file ∈ files, d.place file.path = .ok (base ++ names)) ↔
    d.HasSource base exclude names
  below : ∀ file ∈ files, ∃ names, d.place file.path = .ok (base ++ names) ∧
    file.path.components = root.components ++ names
  once : (files.map fun file => d.place file.path).Nodup
  ascends : files.Pairwise fun file later =>
    List.Lex (List.Lex (· < ·)) file.path.components later.path.components
  named : ∀ file ∈ files, file.name = root.nameBelow file.path
  /-- Two of them have the same name if and only if their paths are shown alike, part by part. -/
  sameName_iff : ∀ file ∈ files, ∀ other ∈ files, file.name = other.name ↔
    file.path.components.map Text.lossy = other.path.components.map Text.lossy
  apart : (∀ names, d.HasSource base exclude names → ∀ name ∈ names, FileName.IsText name) →
    ∀ file ∈ files, ∀ other ∈ files, file.name = other.name → file = other

section Walk

variable {entries : List (FileName × FileTree)}

theorem mem_sourcesOf_iff_hasSource (proper : d.root.IsProper)
    (here : d.root.at? base = some (directory entries)) :
    names ∈ sourcesOf exclude entries ↔ d.HasSource base exclude names := by
  rw [mem_sourcesOf_iff entries (proper.at? here).1, isSourceWay_iff, HasSource, and_comm]
  exact and_congr_left fun _ => exists_congr fun _ => hasFile_below_iff here

/-- A way that the walk takes is one of file names, and leads from the root to its place. -/
theorem place_of_mem_sourcesOf (proper : d.root.IsProper) (led : d.place root = .ok base)
    (here : d.root.at? base = some (directory entries))
    (taken : names ∈ sourcesOf exclude entries) : names ≠ [] ∧ (∀ name ∈ names, IsFileName name) ∧
      d.place (SourceFile.below root names).path = .ok (base ++ names) := by
  have inside := (proper.at? here).1
  obtain ⟨way, content, held⟩ := (mem_sourcesOf_iff entries inside).mp taken
  have named := (inside.at? held).2
  exact ⟨way.ne_nil, named,
    place_join led ⟨entries, here⟩ way.ne_nil named ((hasFile_below_iff here).mp held)⟩

theorem place_below_eq_iff (proper : d.root.IsProper) (led : d.place root = .ok base)
    (here : d.root.at? base = some (directory entries))
    (taken : names ∈ sourcesOf exclude entries) :
    d.place (SourceFile.below root names).path = .ok (base ++ others) ↔ names = others := by
  obtain ⟨-, -, reached⟩ := place_of_mem_sourcesOf proper led here taken
  rw [reached, Except.ok.injEq, List.append_cancel_left_eq]

theorem components_below (proper : d.root.IsProper) (led : d.place root = .ok base)
    (here : d.root.at? base = some (directory entries))
    (taken : names ∈ sourcesOf exclude entries) :
    (SourceFile.below root names).path.components = root.components ++ names := by
  obtain ⟨more, named, -⟩ := place_of_mem_sourcesOf proper led here taken
  exact Path.components_join (place_eq_ok_iff.mp led).1 more named

/-- Two ways that the walk takes give one name if their parts are shown alike. -/
theorem name_below_eq_iff (proper : d.root.IsProper) (led : d.place root = .ok base)
    (here : d.root.at? base = some (directory entries))
    (taken : names ∈ sourcesOf exclude entries) (taken' : others ∈ sourcesOf exclude entries) :
    (SourceFile.below root names).name = (SourceFile.below root others).name ↔
      names.map Text.lossy = others.map Text.lossy := by
  have some : root.bytes ≠ [] := (place_eq_ok_iff.mp led).1
  obtain ⟨more, named, -⟩ := place_of_mem_sourcesOf proper led here taken
  obtain ⟨more', named', -⟩ := place_of_mem_sourcesOf proper led here taken'
  change root.nameBelow (root.join _) = root.nameBelow (root.join _) ↔ _
  rw [Path.nameBelow_join some more named, Path.nameBelow_join some more' named',
    Path.shown_inj more named more' named']

end Walk

/-- Whatever is excluded, the modules below a directory are found, each once and in order. -/
theorem discovers_sources (proper : d.root.IsProper) (led : d.place root = .ok base)
    (there : d.root.HasDirectory base) (exclude : List String) :
    ∃ files, d.sources root exclude = .ok files ∧ d.Discovers root base exclude files := by
  obtain ⟨entries, here⟩ := there
  have found : d.sources root exclude = _ := sources_eq led here
  have ascends : (sourcesOf exclude entries).Pairwise Precedes :=
    ascends_sourcesOf entries (proper.at? here).1
  have components {names : List FileName} (taken : names ∈ sourcesOf exclude entries) :=
    components_below proper led here taken
  refine ⟨_, found, ⟨fun names => ?found, ?below, ?once, ?ascends,
    List.forall_mem_map.mpr fun _ _ => rfl, ?sameName, fun texts => ?apart⟩⟩
  case found =>
    rw [← mem_sourcesOf_iff_hasSource proper here]
    constructor
    · rintro ⟨_, member, reached⟩
      obtain ⟨others, taken, rfl⟩ := List.mem_map.mp member
      rwa [← (place_below_eq_iff proper led here taken).mp reached]
    · intro taken
      exact ⟨_, List.mem_map_of_mem taken, (place_below_eq_iff proper led here taken).mpr rfl⟩
  case below =>
    rw [List.forall_mem_map]
    intro names taken
    exact ⟨names, (place_below_eq_iff proper led here taken).mpr rfl, components taken⟩
  case once =>
    rw [List.map_map]
    refine List.Nodup.map_on (fun names taken others taken' same => ?_) ascends.nodup
    exact (place_below_eq_iff proper led here taken).mp
      (same.trans ((place_below_eq_iff proper led here taken').mpr rfl))
  case ascends =>
    refine List.pairwise_map.mpr (ascends.imp_of_mem fun taken taken' precedes => ?_)
    rw [components taken, components taken']
    exact .append_left _ precedes _
  case sameName =>
    rw [List.forall_mem_map]
    intro names taken
    rw [List.forall_mem_map]
    intro others taken'
    rw [name_below_eq_iff proper led here taken taken', components taken, components taken',
      List.map_append, List.map_append, List.append_cancel_left_eq]
  case apart =>
    have text (names : List FileName) (taken : names ∈ sourcesOf exclude entries) :=
      texts names ((mem_sourcesOf_iff_hasSource proper here).mp taken)
    rw [List.forall_mem_map]
    intro names taken
    rw [List.forall_mem_map]
    intro others taken' same
    have alike := (name_below_eq_iff proper led here taken taken').mp same
    rw [FileName.eq_of_map_lossy (text names taken) (text others taken') alike]

/-- A source root with the name of an excluded directory. In it are a directory with the extension
of sources, a file with the extension alone, and modules in a directory and beside it. -/
def nestedDisk : Disk :=
  let named (name : String) (t : FileTree) : FileName × FileTree := (Text.bytes name, t)
  ⟨.directory [named "venv" <| .directory [
    named ".py" <| .file "".toUTF8,
    named "a" <| .directory [named "b.py" <| .file "".toUTF8,
      named "venv" <| .directory [named "c.py" <| .file "".toUTF8]],
    named "a.py" <| .file "".toUTF8,
    named "d.py" <| .directory [named "é.py" <| .file "".toUTF8]]], []⟩

theorem isProper_nestedDisk : nestedDisk.root.IsProper := by
  have single {name : FileName} {t : FileTree} (named : IsFileName name) (proper : t.IsProper) :
      (directory [(name, t)]).IsProper :=
    isProper_cons_iff.mpr ⟨nofun, named, proper, .nil, trivial⟩
  have file (content : ByteArray) : (file content).IsProper := trivial
  refine single (by decide) (isProper_cons_iff.mpr ⟨?_, by decide, file _,
    isProper_cons_iff.mpr ⟨?_, by decide, isProper_cons_iff.mpr ⟨?_, by decide, file _,
      single (by decide) (single (by decide) (file _))⟩,
    isProper_cons_iff.mpr ⟨?_, by decide, file _,
      single (by decide) (single (by decide) (file _))⟩⟩⟩)
  -- the names of entries ascend
  all_goals exact List.forall_mem_map.mp (by decide)

/-- The root is not excluded, nor is a file by its own name. -/
theorem discovers_sources_nested :
    nestedDisk.root.IsProper ∧ nestedDisk.place (.ofText "venv") = .ok [Text.bytes "venv"] ∧
      nestedDisk.root.HasDirectory [Text.bytes "venv"] ∧
      ∃ files, nestedDisk.sources (.ofText "venv") ["venv", "a.py"] = .ok files ∧
        files.map (·.name) = ["a/b.py", "a.py", "d.py/é.py"] ∧
        nestedDisk.Discovers (.ofText "venv") [Text.bytes "venv"] ["venv", "a.py"] files := by
  have led : nestedDisk.place (.ofText "venv") = .ok [Text.bytes "venv"] := by rfl
  have there : nestedDisk.root.HasDirectory [Text.bytes "venv"] := ⟨_, rfl⟩
  have computed : (nestedDisk.sources (.ofText "venv") ["venv", "a.py"]).map
      (·.map (·.name)) = .ok ["a/b.py", "a.py", "d.py/é.py"] := by
    rfl
  obtain ⟨files, found, discovers⟩ :=
    discovers_sources isProper_nestedDisk led there ["venv", "a.py"]
  rw [found] at computed
  exact ⟨isProper_nestedDisk, led, there, files, found, Except.ok.inj computed, discovers⟩

/-- Two modules whose names encode no text. -/
def undecodableDisk : Disk :=
  let named (first : UInt8) : FileName × FileTree := (first :: Text.bytes ".py", .file "".toUTF8)
  ⟨.directory [named 0xFE, named 0xFF], []⟩

/-- Both of them are found, and both are named `�.py`. -/
theorem sources_share_name :
    undecodableDisk.root.IsProper ∧ undecodableDisk.place (.ofText ".") = .ok [] ∧
      undecodableDisk.root.HasDirectory [] ∧
      ∃ first second, undecodableDisk.sources (.ofText ".") [] = .ok [first, second] ∧
        first.path ≠ second.path ∧ first.name = second.name := by
  refine ⟨?_, rfl, ⟨_, rfl⟩, _, _, rfl, by decide, rfl⟩
  refine isProper_cons_iff.mpr ⟨?_, by decide, trivial,
    isProper_cons_iff.mpr ⟨nofun, by decide, trivial, .nil, trivial⟩⟩
  exact List.forall_mem_map.mp (by decide)

end Disk

end DeployManifest
