import DeployManifest.Command.Run
import DeployManifest.Proofs.Files.Source

/-! # What a task does

A task opens its source tree and compiles it in a session in which only the log has been started
(`Session.begun`); what happens then depends on the task. `performs` says all that can happen, so
that nothing else has to look into the steps.
-/

namespace DeployManifest

/-- The session in which a source tree is compiled: its log is kept, and tells of the tree. -/
def Session.begun (s : Session) (env : Environment) (flags : Flags) (settings : Settings)
    (source : Path) : Session :=
  let opened :=
    match s.configure flags.verbosity flags.quiet (settings.logPath env.home) with
    | .ok s => s
    | .error e => s.tell .warn ("Failed to initialize log file: " ++ e.message)
  (opened.tell .step ("Source root: " ++ source.text)).tell .debug
    ("Excluded directories: " ++ ", ".intercalate settings.excludes)

namespace Step

/-- A source tree has settings, and compiles to a manifest. -/
structure Compiles (env : Environment) (flags : Flags) (source : Path) (s : Session)
    (settings : Settings) (m : Manifest) : Prop where
  directory : s.disk.isDirectory source = true
  loaded : Settings.load s.disk env.settings source = .ok settings
  compiled : Manifest.ofDisk (s.begun env flags settings source).disk source settings.excludes =
    .ok m

/-- What a task comes to: it fails before anything is changed, or the tree does not compile, or what
is made of the tree is printed or written. -/
inductive Performs (env : Environment) (flags : Flags) (source : Path) (s : Session) :
    Task → Except CommandError Unit → Session → Prop where
  | missing {task : Task} (absent : s.disk.isDirectory source = false) :
      Performs env flags source s task (.error (.missingSource source)) s
  | unsettled {task : Task} {e : SettingsError} (directory : s.disk.isDirectory source = true)
      (failed : Settings.load s.disk env.settings source = .error e) :
      Performs env flags source s task (.error (.settings e)) s
  | uncompiled {task : Task} {settings : Settings} {e : CompileError}
      (directory : s.disk.isDirectory source = true)
      (loaded : Settings.load s.disk env.settings source = .ok settings)
      (failed : Manifest.ofDisk (s.begun env flags settings source).disk source settings.excludes =
        .error e) :
      Performs env flags source s task (.error (.compile source e))
        (s.begun env flags settings source)
  | streamed {format : Option Format} {settings : Settings} {m : Manifest}
      (compiles : Compiles env flags source s settings m) :
      Performs env flags source s (.build .stream format) (.ok ())
        ((s.begun env flags settings source).print (m.render (settings.formatOr format)))
  | written {path : Option Path} {format : Option Format} {settings : Settings} {m : Manifest}
      {disk : Disk} {message : String} (compiles : Compiles env flags source s settings m)
      (replaced : (s.begun env flags settings source).disk.replaceFile
        (settings.outputOr source path (settings.formatOr format))
        (m.render (settings.formatOr format)) = (.ok (), disk)) :
      Performs env flags source s (.build (.file path) format) (.ok ())
        (Session.tell { s.begun env flags settings source with disk } .success message)
  | unwritten {path : Option Path} {format : Option Format} {settings : Settings} {m : Manifest}
      {disk : Disk} {e : FileError} (compiles : Compiles env flags source s settings m)
      (replaced : (s.begun env flags settings source).disk.replaceFile
        (settings.outputOr source path (settings.formatOr format))
        (m.render (settings.formatOr format)) = (.error e, disk)) :
      Performs env flags source s (.build (.file path) format)
        (.error (.write (settings.outputOr source path (settings.formatOr format)) e))
        { s.begun env flags settings source with disk }
  | checked {settings : Settings} {m : Manifest} {shown : Session} {message : String}
      (compiles : Compiles env flags source s settings m)
      (printed : shown = s.begun env flags settings source ∨
        ∃ text, shown = (s.begun env flags settings source).print text) :
      Performs env flags source s .check (.ok ()) (shown.tell .success message)
  | listed {settings : Settings} {m : Manifest} (compiles : Compiles env flags source s settings m) :
      Performs env flags source s .keys (.ok ())
        ((s.begun env flags settings source).print m.keyList)

variable {env : Environment} {flags : Flags} {task : Task} {source : Path} {s s' : Session}
  {settings : Settings} {result : Except CommandError Unit} {α β : Type}

theorem run_bind {x : Step α} {f : α → Step β} {a : α} (ran : x.run.run s = (.ok a, s')) :
    (x >>= f).run.run s = (f a).run.run s' := by
  simp only [ExceptT.run_bind, StateT.run_bind, ran]
  rfl

theorem run_bind_error {x : Step α} {f : α → Step β} {e : CommandError}
    (ran : x.run.run s = (.error e, s')) : (x >>= f).run.run s = (.error e, s') := by
  simp only [ExceptT.run_bind, StateT.run_bind, ran]
  rfl

theorem run_get : (get : Step Session).run.run s = (.ok s, s) := rfl

theorem run_tell {level : MessageLevel} {message : String} :
    (tell level message).run.run s = (.ok (), s.tell level message) := rfl

theorem run_openSource (flags : Flags) (directory : s.disk.isDirectory source = true)
    (loaded : Settings.load s.disk env.settings source = .ok settings) :
    ∃ opened : Session, (openSource env flags source).run.run s = (.ok settings, opened) ∧
      opened.tell .debug ("Excluded directories: " ++ ", ".intercalate settings.excludes) =
        s.begun env flags settings source := by
  refine ⟨_, ?_, rfl⟩
  rw [openSource, run_bind run_get, directory]
  simp only [loaded]
  cases s.configure flags.verbosity flags.quiet (settings.logPath env.home) <;> rfl

theorem run_openSource_missing (absent : s.disk.isDirectory source = false) :
    (openSource env flags source).run.run s = (.error (.missingSource source), s) := by
  rw [openSource, run_bind run_get, absent]
  rfl

theorem run_openSource_unsettled {e : SettingsError} (directory : s.disk.isDirectory source = true)
    (failed : Settings.load s.disk env.settings source = .error e) :
    (openSource env flags source).run.run s = (.error (.settings e), s) := by
  rw [openSource, run_bind run_get, directory]
  simp only [failed]
  rfl

/-- A source tree is compiled in the session that has begun. -/
theorem Compiles.run {m : Manifest} (compiles : Compiles env flags source s settings m)
    {next : Settings → Manifest → Step α} :
    (do
      let settings ← openSource env flags source
      let m ← compile settings source
      next settings m).run.run s =
        (next settings m).run.run (s.begun env flags settings source) := by
  have compiled := compiles.compiled
  obtain ⟨opened, ran, begun⟩ := run_openSource flags compiles.directory compiles.loaded
  rw [← begun] at compiled ⊢
  have made : (compile settings source).run.run opened = (.ok m, opened.tell .debug
      ("Excluded directories: " ++ ", ".intercalate settings.excludes)) := by
    rw [compile, run_bind run_tell, run_bind run_get, compiled]
    rfl
  rw [run_bind ran, run_bind made]

theorem run_uncompiled (directory : s.disk.isDirectory source = true)
    (loaded : Settings.load s.disk env.settings source = .ok settings) {e : CompileError}
    (failed : Manifest.ofDisk (s.begun env flags settings source).disk source settings.excludes =
      .error e) {next : Settings → Manifest → Step α} :
    (do
      let settings ← openSource env flags source
      let m ← compile settings source
      next settings m).run.run s =
        (.error (.compile source e), s.begun env flags settings source) := by
  obtain ⟨opened, ran, begun⟩ := run_openSource flags directory loaded
  rw [← begun] at failed ⊢
  have made : (compile settings source).run.run opened =
      (.error (.compile source e), opened.tell .debug
        ("Excluded directories: " ++ ", ".intercalate settings.excludes)) := by
    rw [compile, run_bind run_tell, run_bind run_get, failed]
    rfl
  rw [run_bind ran, run_bind_error made]

/-- What a task comes to once its source tree has been compiled. -/
theorem Compiles.performs {m : Manifest} (compiles : Compiles env flags source s settings m)
    (ran : (perform env flags task source).run.run s = (result, s')) :
    Performs env flags source s task result s' := by
  rw [perform, compiles.run] at ran
  cases task with
  | keys =>
    cases ran
    exact .listed compiles
  | check =>
    cases quiet : flags.quiet with
    | true =>
      simp only [quiet] at ran
      cases ran
      exact .checked compiles (.inl rfl)
    | false =>
      simp only [quiet] at ran
      cases ran
      exact .checked compiles (.inr ⟨_, rfl⟩)
  | build destination format =>
    cases destination with
    | stream =>
      cases ran
      exact .streamed compiles
    | file path =>
      simp only [write] at ran
      rw [run_bind run_get] at ran
      cases replaced : (s.begun env flags settings source).disk.replaceFile
          (settings.outputOr source path (settings.formatOr format))
          (m.render (settings.formatOr format)) with
      | mk outcome disk =>
        rw [replaced] at ran
        cases outcome with
        | error e =>
          cases ran
          exact .unwritten compiles replaced
        | ok written =>
          cases ran
          exact .written compiles replaced

/-- All that a task can come to. -/
theorem performs (ran : (perform env flags task source).run.run s = (result, s')) :
    Performs env flags source s task result s' := by
  cases directory : s.disk.isDirectory source with
  | false =>
    rw [perform, run_bind_error (run_openSource_missing directory)] at ran
    cases ran
    exact .missing directory
  | true =>
    cases loaded : Settings.load s.disk env.settings source with
    | error e =>
      rw [perform, run_bind_error (run_openSource_unsettled directory loaded)] at ran
      cases ran
      exact .unsettled directory loaded
    | ok settings =>
      cases compiled : Manifest.ofDisk (s.begun env flags settings source).disk source
          settings.excludes with
      | error e =>
        rw [perform, run_uncompiled directory loaded compiled] at ran
        cases ran
        exact .uncompiled directory loaded compiled
      | ok m => exact Compiles.performs ⟨directory, loaded, compiled⟩ ran

end Step

/-- A session of which nothing has been told or printed, on a disk. -/
structure Session.IsFresh (s : Session) (disk : Disk) : Prop where
  disk : s.disk = disk
  log : s.console.log = none
  stdout : s.stdout = ""

namespace Request

variable {env : Environment} {disk : Disk} {time : String} {flags : Flags} {task : Task}
  {source : Option Path} {status : UInt32} {s : Session}

/-- The exit status tells whether the task has failed; if so, that is told at last. -/
theorem of_answer (ran : answer env disk time (some (.run flags task source)) = (status, s)) :
    ∃ start result last, start.IsFresh disk ∧
      Step.Performs env flags (source.getD (.ofText ".")) start task result last ∧
      (result = .ok () ∧ status = 0 ∧ s = last ∨
        ∃ e, result = .error e ∧ status = 1 ∧
          s = (last.tell .error (e.message env.recovery)).tellLog) := by
  simp only [answer] at ran
  split at ran
  · rename_i performed
    cases ran
    exact ⟨_, _, s, ⟨rfl, rfl, rfl⟩, Step.performs performed, .inl ⟨rfl, rfl, rfl⟩⟩
  · rename_i e last performed
    cases ran
    exact ⟨_, _, last, ⟨rfl, rfl, rfl⟩, Step.performs performed, .inr ⟨e, rfl, rfl, rfl⟩⟩

end Request

end DeployManifest
