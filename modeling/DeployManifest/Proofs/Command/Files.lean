import DeployManifest.Proofs.Command.Perform
import DeployManifest.Proofs.Files.Disk

/-! # The files of a run

A run changes no file but its log and those that it is asked to write, and it writes nothing unless
the whole source tree has been compiled; then the file holds what the output stream would have shown
(`answer_files`). That messages go to the log while the tree is compiled does not matter, as long as
the log is none of the modules.
-/

namespace DeployManifest

open FileTree

variable {apart : List FileName → Prop} {origin s start last : Session} {env : Environment}
  {flags : Flags} {source : Path} {settings : Settings} {disk disk' : Disk} {m : Manifest}
  {task : Task} {result : Except CommandError Unit}

namespace Session

/-- A session goes on from another one: files change at some places only, and one of these is that
of the log. -/
structure GoesOn (apart : List FileName → Prop) (s s' : Session) : Prop where
  changes : s.disk.Changes apart s'.disk
  logs : ∀ p ∈ s'.console.log, apart (s.disk.locate p)

theorem goesOn_self (logs : ∀ p ∈ s.console.log, apart (s.disk.locate p)) : s.GoesOn apart s :=
  ⟨.refl, logs⟩

theorem GoesOn.tell (goes : origin.GoesOn apart s) (level : MessageLevel) (message : String) :
    origin.GoesOn apart (s.tell level message) where
  changes := by
    refine goes.changes.trans ?_
    rw [Session.tell]
    split
    · exact .refl
    · rename_i p logged
      split
      · rename_i appended
        refine (Disk.of_append appended).mono fun place here => ?_
        rw [here, goes.changes.locate]
        exact goes.logs p logged
      · exact .refl
  logs := goes.logs

theorem GoesOn.print (goes : origin.GoesOn apart s) (text : String) :
    origin.GoesOn apart (s.print text) := ⟨goes.changes, goes.logs⟩

/-- To keep a log changes no file, and prints nothing. -/
theorem of_configure {verbosity : Nat} {quiet : Bool} {log : Option Path}
    (configured : s.configure verbosity quiet log = .ok last) :
    (∀ apart, s.disk.Changes apart last.disk) ∧
      (last.console.log = s.console.log ∨ last.console.log = log) ∧ last.stdout = s.stdout := by
  unfold configure at configured
  split at configured
  · cases configured
    exact ⟨fun _ => .refl, .inl rfl, rfl⟩
  · dsimp only at configured
    split at configured
    · cases configured
      exact ⟨fun _ => .refl, .inr rfl, rfl⟩
    · split at configured
      · rename_i made
        cases configured
        exact ⟨fun _ => Disk.of_makeDirectory made, .inr rfl, rfl⟩
      · cases configured

/-- The session in which a source tree is compiled has changed nothing but the log. -/
theorem goesOn_begun (unlogged : s.console.log = none)
    (logs : ∀ p, settings.logPath env.home = some p → apart (s.disk.locate p)) :
    s.GoesOn apart (s.begun env flags settings source) := by
  have self : s.GoesOn apart s := goesOn_self (by simp [unlogged])
  rw [begun]
  refine GoesOn.tell (GoesOn.tell ?_ _ _) _ _
  split
  · rename_i configured
    obtain ⟨changes, log, -⟩ := of_configure configured
    refine ⟨changes apart, ?_⟩
    obtain log | log := log
    · simp [log, unlogged]
    · simpa [log] using logs
  · exact self.tell _ _

theorem stdout_begun : (s.begun env flags settings source).stdout = s.stdout := by
  rw [begun]
  dsimp only [tell]
  split
  · rename_i configured
    exact (of_configure configured).2.2
  · rfl

end Session

/-! ### The log and the other files -/

/-- The log of a source tree is kept at a place. -/
def IsLogPlace (env : Environment) (disk : Disk) (source : Path) (place : List FileName) : Prop :=
  ∃ settings p, Settings.load disk env.settings source = .ok settings ∧
    settings.logPath env.home = some p ∧ place = disk.locate p

/-- The log is none of the modules that are found in a source tree, before it is started or then. -/
def LogIsNoModule (env : Environment) (disk : Disk) (source : Path) : Prop :=
  ∀ (start : Session) flags settings names content, start.IsFresh disk →
    Settings.load disk env.settings source = .ok settings → IsSourceWay settings.excludes names →
    disk.root.HasFile (disk.locate source ++ names) content ∨
      (start.begun env flags settings source).disk.root.HasFile
        (disk.locate source ++ names) content →
    ¬ IsLogPlace env disk source (disk.locate source ++ names)

/-- No file has been made, changed or removed, except for the log. -/
def KeepsFiles (env : Environment) (disk : Disk) (source : Path) (disk' : Disk) : Prop :=
  ∀ place content, ¬ IsLogPlace env disk source place →
    (disk'.root.HasFile place content ↔ disk.root.HasFile place content)

/-- A source tree has a manifest. -/
structure Yields (env : Environment) (disk : Disk) (source : Path) (settings : Settings)
    (m : Manifest) : Prop where
  directory : disk.isDirectory source = true
  loaded : Settings.load disk env.settings source = .ok settings
  compiled : Manifest.ofDisk disk source settings.excludes = .ok m

/-- A source tree has no manifest: it is missing, its settings cannot be read, or it does not
compile. -/
inductive Fails (env : Environment) (disk : Disk) (source : Path) : Prop where
  | missing (absent : disk.isDirectory source = false)
  | unsettled {e : SettingsError} (failed : Settings.load disk env.settings source = .error e)
  | uncompiled {settings : Settings} {e : CompileError}
      (loaded : Settings.load disk env.settings source = .ok settings)
      (failed : Manifest.ofDisk disk source settings.excludes = .error e)

theorem Yields.not_fails (yields : Yields env disk source settings m) :
    ¬ Fails env disk source := by
  rintro (absent | failed | ⟨loaded, failed⟩)
  · cases yields.directory.symm.trans absent
  · cases yields.loaded.symm.trans failed
  · cases yields.loaded.symm.trans loaded
    cases yields.compiled.symm.trans failed

/-- The manifest is to be written to a file. -/
def Task.WritesFile : Task → Prop
  | .build (.file _) _ => True
  | _ => False

theorem goesOn_begun (flags : Flags) (fresh : start.IsFresh disk)
    (loaded : Settings.load disk env.settings source = .ok settings) :
    start.GoesOn (IsLogPlace env disk source) (start.begun env flags settings source) :=
  Session.goesOn_begun fresh.log fun p logged =>
    ⟨settings, p, loaded, logged, congrArg (·.locate p) fresh.disk⟩

/-- What is told while the tree is opened does not change what is compiled. -/
theorem ofDisk_begun (fresh : start.IsFresh disk) (proper : disk.root.IsProper)
    (distinct : LogIsNoModule env disk source) (directory : disk.isDirectory source = true)
    (loaded : Settings.load disk env.settings source = .ok settings) :
    Manifest.ofDisk (start.begun env flags settings source).disk source settings.excludes =
      Manifest.ofDisk disk source settings.excludes := by
  have changes := (goesOn_begun flags fresh loaded).changes
  rw [fresh.disk] at changes
  obtain ⟨led, there⟩ := Disk.exists_of_isDirectory directory
  refine Manifest.ofDisk_of_agrees changes.agrees.found changes.here proper (changes.proper proper)
    led there ?_
  rintro names way ⟨logged, content, found⟩
  exact distinct start flags settings names content fresh loaded way found logged

theorem Step.Compiles.yields (compiles : Step.Compiles env flags source start settings m)
    (fresh : start.IsFresh disk) (proper : disk.root.IsProper)
    (distinct : LogIsNoModule env disk source) : Yields env disk source settings m := by
  have directory := fresh.disk ▸ compiles.directory
  have loaded := fresh.disk ▸ compiles.loaded
  refine ⟨directory, loaded, ?_⟩
  rw [← ofDisk_begun fresh proper distinct directory loaded]
  exact compiles.compiled

namespace Step.Performs

/-- A task that writes no file, or cannot write one, changes nothing but the log. -/
theorem goesOn (performs : Performs env flags source start task result last)
    (fresh : start.IsFresh disk) (proper : disk.root.IsProper)
    (distinct : LogIsNoModule env disk source)
    (unwritten : ¬ task.WritesFile ∨ Fails env disk source) :
    start.GoesOn (IsLogPlace env disk source) last := by
  have begun {settings : Settings}
      (loaded : Settings.load start.disk env.settings source = .ok settings) :
      start.GoesOn (IsLogPlace env disk source) (start.begun env flags settings source) :=
    goesOn_begun flags fresh (fresh.disk ▸ loaded)
  have self : start.GoesOn (IsLogPlace env disk source) start :=
    Session.goesOn_self (by simp [fresh.log])
  cases performs with
  | missing | unsettled => exact self
  | uncompiled _ loaded => exact begun loaded
  | streamed compiles | listed compiles => exact (begun compiles.loaded).print _
  | checked compiles printed =>
    refine Session.GoesOn.tell ?_ _ _
    obtain rfl | ⟨text, rfl⟩ := printed
    · exact begun compiles.loaded
    · exact (begun compiles.loaded).print text
  | written compiles | unwritten compiles =>
    obtain stays | fails := unwritten
    · exact absurd trivial stays
    · exact absurd fails (compiles.yields fresh proper distinct).not_fails

/-- A task fails if the source tree has no manifest. -/
theorem eq_error_of_fails (performs : Performs env flags source start task result last)
    (fresh : start.IsFresh disk) (proper : disk.root.IsProper)
    (distinct : LogIsNoModule env disk source) (fails : Fails env disk source) :
    ∃ e, result = .error e := by
  cases performs with
  | missing | unsettled | uncompiled | unwritten => exact ⟨_, rfl⟩
  | streamed compiles | listed compiles | checked compiles | written compiles =>
    exact absurd fails (compiles.yields fresh proper distinct).not_fails

/-- The manifest of a source tree is printed when this is asked for. -/
theorem streamed_of_yields {format : Option Format} (yields : Yields env disk source settings m)
    (performs : Performs env flags source start (.build .stream format) result last)
    (fresh : start.IsFresh disk) (proper : disk.root.IsProper)
    (distinct : LogIsNoModule env disk source) :
    result = .ok () ∧ last.stdout = m.render (settings.formatOr format) := by
  cases performs with
  | missing absent =>
    rw [fresh.disk] at absent
    exact absurd (.missing absent) yields.not_fails
  | unsettled _ failed =>
    rw [fresh.disk] at failed
    exact absurd (.unsettled failed) yields.not_fails
  | uncompiled directory loaded failed =>
    rw [fresh.disk] at directory loaded
    rw [ofDisk_begun fresh proper distinct directory loaded] at failed
    exact absurd (.uncompiled loaded failed) yields.not_fails
  | streamed compiles =>
    have again := compiles.yields fresh proper distinct
    cases yields.loaded.symm.trans again.loaded
    cases yields.compiled.symm.trans again.compiled
    refine ⟨rfl, ?_⟩
    rw [Session.print, Session.stdout_begun, fresh.stdout]
    exact String.empty_append

/-- A file that has been written holds the manifest, unless it is the log. -/
theorem written_of_ok {path : Option Path} {format : Option Format}
    (performs : Performs env flags source start (.build (.file path) format) (.ok ()) last)
    (fresh : start.IsFresh disk) (proper : disk.root.IsProper)
    (distinct : LogIsNoModule env disk source) :
    ∃ settings m, Yields env disk source settings m ∧
      (¬ IsLogPlace env disk source
          (disk.locate (settings.outputOr source path (settings.formatOr format))) →
        last.disk.find (settings.outputOr source path (settings.formatOr format)) =
          .ok (.file (m.render (settings.formatOr format)).toUTF8)) := by
  cases performs with
  | @written _ _ settings m after message compiles replaced =>
    have yields := compiles.yields fresh proper distinct
    refine ⟨settings, m, yields, fun differs => ?_⟩
    have begun := goesOn_begun flags fresh yields.loaded
    obtain ⟨changes, found⟩ := Disk.of_replaceFile replaced
    have self : Session.GoesOn (IsLogPlace env disk source)
        { start.begun env flags settings source with disk := after }
        { start.begun env flags settings source with disk := after } := by
      refine Session.goesOn_self fun p logged => ?_
      rw [changes.locate, begun.changes.locate]
      exact begun.logs p logged
    refine found _ _ (self.tell .success message).changes ?_
    rwa [begun.changes.locate, fresh.disk]

end Step.Performs

namespace Request

variable {time : String} {chosen : Option Path} {status : UInt32}

theorem exists_answer (env : Environment) (disk : Disk) (time : String) (request : Option Request) :
    ∃ status s, answer env disk time request = (status, s) := ⟨_, _, rfl⟩

/-- What a run does to files. When the source tree has no manifest, it fails and changes none; a
check, a list of keys and a printed manifest change none; and a manifest that has been written is
the one that would have been printed. The log is not one of these files. -/
theorem answer_files (proper : disk.root.IsProper) (rooted : chosen.getD (.ofText ".") = source)
    (distinct : LogIsNoModule env disk source)
    (ran : answer env disk time (some (.run flags task chosen)) = (status, s)) :
    (Fails env disk source → status = 1 ∧ KeepsFiles env disk source s.disk) ∧
      (¬ task.WritesFile → KeepsFiles env disk source s.disk) ∧
      ∀ path format, task = .build (.file path) format → status = 0 →
        ∃ settings m, Yields env disk source settings m ∧
          (¬ IsLogPlace env disk source
              (disk.locate (settings.outputOr source path (settings.formatOr format))) →
            s.disk.find (settings.outputOr source path (settings.formatOr format)) =
              .ok (.file (m.render (settings.formatOr format)).toUTF8)) ∧
          ∀ flags' time' format', settings.formatOr format' = settings.formatOr format →
            ∃ s',
              answer env disk time' (some (.run flags' (.build .stream format') chosen)) = (0, s') ∧
                s'.stdout = m.render (settings.formatOr format) := by
  subst rooted
  obtain ⟨start, result, last, fresh, performs, ended⟩ := of_answer ran
  have keeps (unwritten : ¬ task.WritesFile ∨ Fails env disk (chosen.getD (.ofText "."))) :
      KeepsFiles env disk (chosen.getD (.ofText ".")) s.disk := by
    have goes := performs.goesOn fresh proper distinct unwritten
    have changes : start.disk.Changes (IsLogPlace env disk (chosen.getD (.ofText "."))) s.disk := by
      obtain ⟨-, -, rfl⟩ | ⟨e, -, -, rfl⟩ := ended
      · exact goes.changes
      · exact (goes.tell .error (e.message env.recovery)).changes
    rw [fresh.disk] at changes
    exact changes.agrees.files
  refine ⟨fun fails => ⟨?_, keeps (.inr fails)⟩, fun stays => keeps (.inl stays), ?_⟩
  · obtain ⟨e, rfl⟩ := performs.eq_error_of_fails fresh proper distinct fails
    obtain ⟨⟨⟩, -, -⟩ | ⟨-, -, failed, -⟩ := ended
    exact failed
  · rintro path format rfl rfl
    obtain ⟨rfl, -, rfl⟩ | ⟨-, -, ⟨⟩, -⟩ := ended
    obtain ⟨settings, m, yields, written⟩ := performs.written_of_ok fresh proper distinct
    refine ⟨settings, m, yields, written, fun flags' time' format' same => ?_⟩
    obtain ⟨status', s', ran'⟩ := exists_answer env disk time'
      (some (.run flags' (.build .stream format') chosen))
    obtain ⟨start', result', last', fresh', performs', ended'⟩ := of_answer ran'
    obtain ⟨rfl, printed⟩ := performs'.streamed_of_yields yields fresh' proper distinct
    obtain ⟨-, rfl, rfl⟩ | ⟨-, ⟨⟩, -⟩ := ended'
    exact ⟨_, ran', printed.trans (congrArg m.render same)⟩

/-! ### A source tree that keeps a log -/

def quietEnvironment : Environment := ⟨none, none, false, .whole⟩

/-- A source tree of one module, with a log. -/
def loggedDisk (text : String) : Disk :=
  ⟨.directory [(Text.bytes "main.py", .file text.toUTF8),
    (Text.bytes "trigr.toml", .file "log_file = \"run.log\"".toUTF8)], []⟩

theorem isProper_loggedDisk (text : String) : (loggedDisk text).root.IsProper := by
  refine isProper_cons_iff.mpr ⟨?_, by decide, trivial, isProper_cons_iff.mpr
    ⟨nofun, by decide, trivial, .nil, trivial⟩⟩
  exact List.forall_mem_singleton.mpr (by decide)

theorem isLogPlace_loggedDisk {text : String} {place : List FileName}
    (read : (Settings.load (loggedDisk text) none (.ofText ".")).toOption.map (·.logPath none) =
      some (some (.ofText "run.log")))
    (logged : IsLogPlace quietEnvironment (loggedDisk text) (.ofText ".") place) :
    place = [Text.bytes "run.log"] := by
  obtain ⟨settings, p, loaded, asked, rfl⟩ := logged
  obtain ⟨settings', loaded', asked'⟩ := Outcome.exists_ok_of_toOption read
  cases loaded.symm.trans loaded'
  cases asked.symm.trans asked'
  rfl

theorem logIsNoModule_loggedDisk {text : String}
    (read : (Settings.load (loggedDisk text) none (.ofText ".")).toOption.map (·.logPath none) =
      some (some (.ofText "run.log"))) :
    LogIsNoModule quietEnvironment (loggedDisk text) (.ofText ".") := by
  intro _ _ settings names _ _ _ way _ logged
  have here : (loggedDisk text).locate (.ofText ".") = [] := by rfl
  obtain rfl : names = [Text.bytes "run.log"] := by
    simpa [here] using isLogPlace_loggedDisk read logged
  have named : isSourceName (Text.bytes "run.log") = true := way
  exact absurd named (by decide)

def greetingText : String := "@https.onRequest(\"hello\")\ndef hello(request): pass\n"

def brokenText : String := "def hello(:\n"

/-- Builds a manifest into a file. -/
def buildOut : Task := .build (.file (some (.ofText "out.yaml"))) (some .yaml)

set_option maxRecDepth 100000 in
/-- The tree is built: the file holds what is printed. When it does not compile, no file is there but
the log and those that were there before. -/
theorem answer_files_logged :
    (loggedDisk greetingText).root.IsProper ∧ (loggedDisk brokenText).root.IsProper ∧
      LogIsNoModule quietEnvironment (loggedDisk greetingText) (.ofText ".") ∧
      LogIsNoModule quietEnvironment (loggedDisk brokenText) (.ofText ".") ∧
      (∃ s, ∃ m : Manifest, ∃ s', answer quietEnvironment (loggedDisk greetingText) "12:00"
          (some (.run ⟨false, 0, false⟩ buildOut none)) = (0, s) ∧
        s.disk.find (.ofText "out.yaml") = .ok (.file (m.render .yaml).toUTF8) ∧
        answer quietEnvironment (loggedDisk greetingText) "12:05"
          (some (.run ⟨true, 0, false⟩ (.build .stream (some .yaml)) none)) = (0, s') ∧
        s'.stdout = m.render .yaml) ∧
      ∃ s, answer quietEnvironment (loggedDisk brokenText) "12:00"
          (some (.run ⟨false, 0, false⟩ buildOut none)) = (1, s) ∧
        ∀ place content, place ≠ [Text.bytes "run.log"] →
          (s.disk.root.HasFile place content ↔
            (loggedDisk brokenText).root.HasFile place content) := by
  have read : (Settings.load (loggedDisk greetingText) none (.ofText ".")).toOption.map
      (·.logPath none) = some (some (.ofText "run.log")) := by
    decide +kernel
  have readBroken : (Settings.load (loggedDisk brokenText) none (.ofText ".")).toOption.map
      (·.logPath none) = some (some (.ofText "run.log")) := by
    decide +kernel
  have distinct := logIsNoModule_loggedDisk read
  have distinctBroken := logIsNoModule_loggedDisk readBroken
  have succeeds : (answer quietEnvironment (loggedDisk greetingText) "12:00"
      (some (.run ⟨false, 0, false⟩ buildOut none))).1 = 0 := by
    decide +kernel
  have broken : (Settings.load (loggedDisk brokenText) none (.ofText ".")).toOption.map
      (fun settings => (Manifest.ofDisk (loggedDisk brokenText) (.ofText ".")
        settings.excludes).toOption.isNone) = some true := by
    decide +kernel
  obtain ⟨settings, loaded, uncompiled⟩ := Outcome.exists_ok_of_toOption broken
  have fails : Fails quietEnvironment (loggedDisk brokenText) (.ofText ".") := by
    cases failed : Manifest.ofDisk (loggedDisk brokenText) (.ofText ".") settings.excludes with
    | ok m =>
      rw [failed] at uncompiled
      cases uncompiled
    | error e => exact .uncompiled loaded failed
  obtain ⟨status, s, ran⟩ := exists_answer quietEnvironment (loggedDisk greetingText) "12:00"
    (some (.run ⟨false, 0, false⟩ buildOut none))
  rw [ran] at succeeds
  obtain rfl : status = 0 := succeeds
  obtain ⟨-, -, written⟩ := answer_files (isProper_loggedDisk greetingText) rfl distinct ran
  obtain ⟨settings', m, -, found, streamed⟩ := written _ _ rfl rfl
  obtain ⟨s', ran', printed⟩ := streamed ⟨true, 0, false⟩ "12:05" (some .yaml) rfl
  obtain ⟨status, broken, ranBroken⟩ := exists_answer quietEnvironment (loggedDisk brokenText)
    "12:00" (some (.run ⟨false, 0, false⟩ buildOut none))
  obtain ⟨fruitless, -⟩ :=
    answer_files (isProper_loggedDisk brokenText) rfl distinctBroken ranBroken
  obtain ⟨rfl, keeps⟩ := fruitless fails
  refine ⟨isProper_loggedDisk _, isProper_loggedDisk _, distinct, distinctBroken,
    ⟨s, m, s', ran, found fun logged => ?_, ran', printed⟩,
    broken, ranBroken, fun place content differs => keeps place content fun logged => ?_⟩
  · have same : [Text.bytes "out.yaml"] = [Text.bytes "run.log"] := isLogPlace_loggedDisk read logged
    exact absurd same (by decide)
  · exact differs (isLogPlace_loggedDisk readBroken logged)

end Request

end DeployManifest
