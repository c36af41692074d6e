import DeployManifest.Proofs.Files.Source
import DeployManifest.Proofs.Outcome

/-! # Modules that say nothing

A module without registrations, declarations and global options leaves no trace in what is compiled,
whatever it imports and assigns: what it binds is looked up only for its own expressions, and it has
none that are evaluated. So a source tree compiles to the same with it and without it
(`ofDisk_inert`).
-/

namespace DeployManifest

open Outcome

namespace ModuleScan

/-- Nothing is found in the module that is compiled. -/
structure IsInert (scan : ModuleScan) : Prop where
  registrations : scan.registrations = []
  declarations : scan.declarations = []
  globalCalls : scan.globalCalls = []

end ModuleScan

namespace Manifest

variable {before after : List ModuleScan} {scan : ModuleScan}

/-- A module that says nothing changes neither the manifest nor the error. -/
theorem ofScans_inert (inert : scan.IsInert) :
    ofScans (before ++ scan :: after) = ofScans (before ++ after) := by
  have params : ParamTable.ofScans (before ++ scan :: after) =
      ParamTable.ofScans (before ++ after) := by
    simp only [ParamTable.ofScans, List.flatMap_append, List.flatMap_cons, inert.declarations,
      List.nil_append]
  have globals : GlobalOptions.ofScans (before ++ scan :: after) =
      GlobalOptions.ofScans (before ++ after) := by
    funext table
    simp only [GlobalOptions.ofScans, List.flatMap_append, List.flatMap_cons, inert.globalCalls,
      List.map_nil, List.nil_append]
  have registered : sites (before ++ scan :: after) = sites (before ++ after) := by
    simp only [sites, List.flatMap_append, List.flatMap_cons, inert.registrations, List.map_nil,
      List.nil_append]
  rw [ofScans, ofScans, params, globals, registered]

/-- Neither does it where the modules are searched first, and one of them may fail. -/
theorem ofSearched_inert {α : Type} {search : α → Except CompileError ModuleScan}
    {earlier later : List α} {extra : α} (searched : search extra = .ok scan)
    (inert : scan.IsInert) :
    ((earlier ++ extra :: later).mapM search >>= ofScans) =
      ((earlier ++ later).mapM search >>= ofScans) := by
  rw [List.mapM_append, List.mapM_append, List.mapM_cons, searched]
  cases earlier.mapM search with
  | error e => rfl
  | ok before =>
    cases later.mapM search with
    | error e => rfl
    | ok after => exact ofScans_inert inert

end Manifest

namespace Disk

open FileTree

/-- A disk with one more file below a source root, on the way of names to a module. All other files
are the same, and there may be new directories. -/
structure AddsModule (d d' : Disk) (root : Path) (exclude : List String) (names : List FileName) :
    Prop where
  here : d'.here = d.here
  proper : d.root.IsProper
  proper' : d'.root.IsProper
  way : IsSourceWay exclude names
  added : ∃ base, d.place root = .ok base ∧ d.root.HasDirectory base ∧
    (∀ content, ¬ d.root.HasFile (base ++ names) content) ∧
    (∃ content, d'.root.HasFile (base ++ names) content) ∧
    d.root.Agrees (· = base ++ names) d'.root

end Disk

namespace Manifest

/-- A source tree compiles to the same, or fails with the same error, when a module is added that
says nothing. -/
theorem ofDisk_inert {d d' : Disk} {root : Path} {exclude : List String}
    {names : List FileName} {scan : ModuleScan} (adds : d.AddsModule d' root exclude names)
    (searched : d'.scanSource (.below root names) = .ok scan) (inert : scan.IsInert) :
    ofDisk d' root exclude = ofDisk d root exclude := by
  obtain ⟨base, led, ⟨entries, there⟩, missing, added, agrees⟩ := adds.added
  have led' := Disk.place_of_agrees agrees adds.here led ⟨entries, there⟩
  obtain ⟨entries', there'⟩ := agrees.directories base ⟨entries, there⟩
  obtain ⟨earlier, later, found', found⟩ := FileTree.sourcesOf_of_added agrees adds.proper
    adds.proper' there there' adds.way added missing
  have others : ∀ other ∈ earlier ++ later,
      d'.scanSource (.below root other) = d.scanSource (.below root other) := by
    intro other member
    rw [← found, FileTree.mem_sourcesOf_iff entries (adds.proper.at? there).1] at member
    obtain ⟨way, content, held⟩ := member
    have held := (FileTree.hasFile_below_iff there).mp held
    have differs : ¬ base ++ other = base ++ names := fun same => missing content (same ▸ held)
    exact Disk.scanSource_congr led led' adds.proper adds.proper' way.ne_nil held
      ((agrees.files _ content differs).mpr held)
  rw [ofDisk_eq led there, ofDisk_eq led' there', found, found',
    ← mapM_congr others]
  exact ofSearched_inert searched inert

/-! ### A module of names -/

def greeting : FileTree := .file "@https.onRequest(\"hello\")\ndef hello(request): pass\n".toUTF8

def aliases : FileTree := .file "from main import hello as COUNT\n\nREGION = COUNT\n".toUTF8

/-- A source tree with one registration. -/
def greetingDisk : Disk := ⟨.directory [(Text.bytes "main.py", greeting)], []⟩

/-- The same tree with a directory that has a module of names in it. -/
def aliasesDisk : Disk :=
  ⟨.directory [(Text.bytes "lib", .directory [(Text.bytes "names.py", aliases)]),
    (Text.bytes "main.py", greeting)], []⟩

/-- The way to it. -/
def aliasesWay : List FileName := [Text.bytes "lib", Text.bytes "names.py"]

theorem addsModule_aliasesDisk :
    greetingDisk.AddsModule aliasesDisk (.ofText ".") [] aliasesWay := by
  have proper : greetingDisk.root.IsProper := FileTree.isProper_cons_iff.mpr
    ⟨nofun, by decide, trivial, .nil, trivial⟩
  have made : greetingDisk.root.put? [Text.bytes "lib"] (.directory []) =
      some (.directory [(Text.bytes "lib", .directory []), (Text.bytes "main.py", greeting)]) := by
    rfl
  have put : (FileTree.directory [(Text.bytes "lib", .directory []),
      (Text.bytes "main.py", greeting)]).put? aliasesWay aliases = some aliasesDisk.root := by
    rfl
  have proper' := proper.put? made (by rintro _ ⟨⟩; decide) ⟨.nil, trivial⟩
  have agrees := (FileTree.agrees_of_made made rfl (· = aliasesWay)).trans
    (FileTree.agrees_of_put? put (fun _ _ => rfl) (by rintro ⟨_, ⟨⟩⟩))
  have ending := proper'.put? put (by rintro _ ⟨⟩; decide) trivial
  have isSource : isSourceName (Text.bytes "names.py") = true := by decide
  have way : FileTree.IsSourceWay [] aliasesWay := ⟨rfl, isSource⟩
  exact ⟨rfl, proper, ending, way, [], rfl, ⟨_, rfl⟩, nofun, ⟨_, rfl⟩, agrees⟩

set_option maxRecDepth 100000 in
/-- The names change nothing for the registration. -/
theorem ofDisk_inert_aliases :
    ∃ scan, greetingDisk.AddsModule aliasesDisk (.ofText ".") [] aliasesWay ∧
      aliasesDisk.scanSource (.below (.ofText ".") aliasesWay) = .ok scan ∧
      scan.IsInert ∧ scan.imports ≠ [] ∧ scan.locals ≠ [] ∧
      (ofDisk greetingDisk (.ofText ".") []).toOption.map (·.endpoints.values.length) = some 1 ∧
      ofDisk aliasesDisk (.ofText ".") [] = ofDisk greetingDisk (.ofText ".") [] := by
  have computed :
      (aliasesDisk.scanSource (.below (.ofText ".") aliasesWay)).toOption.map
        (fun scan => (scan.registrations.isEmpty && scan.declarations.isEmpty &&
          scan.globalCalls.isEmpty) && !scan.imports.isEmpty && !scan.locals.isEmpty) =
      some true := by
    decide +kernel
  obtain ⟨scan, searched, computed⟩ := exists_ok_of_toOption computed
  simp only [Bool.and_eq_true, List.isEmpty_iff, Bool.not_eq_true', List.isEmpty_eq_false_iff]
    at computed
  obtain ⟨⟨⟨⟨registrations, declarations⟩, globalCalls⟩, imports⟩, locals⟩ := computed
  have inert : scan.IsInert := ⟨registrations, declarations, globalCalls⟩
  exact ⟨scan, addsModule_aliasesDisk, searched, inert, imports, locals, by decide +kernel,
    ofDisk_inert addsModule_aliasesDisk searched inert⟩

end Manifest

end DeployManifest
