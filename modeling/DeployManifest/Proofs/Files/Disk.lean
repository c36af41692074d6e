import DeployManifest.Proofs.Files.Place
import DeployManifest.Proofs.Outcome

/-! # What operations change

Each operation on a disk changes the file that it names and no other; directories that it makes are
empty. `Changes` says so, for any number of operations, and that the tree stays a proper one.
`of_replaceFile` says what is there after a file has been written whole.
-/

namespace DeployManifest.Disk

open FileTree Outcome

/-- A disk has become another one by changes to files at some places. -/
structure Changes (apart : List FileName → Prop) (d d' : Disk) : Prop where
  here : d'.here = d.here
  agrees : d.root.Agrees apart d'.root
  proper : d.root.IsProper → d'.root.IsProper

variable {apart apart' : List FileName → Prop} {d d' d'' : Disk} {place : List FileName} {p : Path}
  {content : ByteArray} {text : String}

theorem Changes.refl : d.Changes apart d := ⟨rfl, .refl, id⟩

theorem Changes.trans (first : d.Changes apart d') (second : d'.Changes apart d'') :
    d.Changes apart d'' where
  here := second.here.trans first.here
  agrees := first.agrees.trans second.agrees
  proper := second.proper ∘ first.proper

theorem Changes.mono (changes : d.Changes apart d') (within : ∀ place, apart place → apart' place) :
    d.Changes apart' d' := ⟨changes.here, changes.agrees.mono within, changes.proper⟩

theorem Changes.locate (changes : d.Changes apart d') (p : Path) : d'.locate p = d.locate p :=
  locate_congr changes.here p

/-- A file that is put in its place is there, and no other has changed. -/
theorem of_putFile (put : d.putFile place content = .ok d')
    (named : ∀ name ∈ place.getLast?, IsFileName name) :
    d.Changes (· = place) d' ∧ d'.root.HasFile place content := by
  rw [putFile] at put
  split at put
  · cases put
  · rename_i free
    split at put
    · rename_i root made
      cases put
      refine ⟨⟨rfl, agrees_of_put? made (fun _ _ => rfl) ?_, fun proper => ?_⟩, at?_of_put? made⟩
      · rintro ⟨entries, there⟩
        exact free entries there
      · exact proper.put? made named trivial
    · cases put

theorem named_of_target (led : d.target p = .ok place) :
    ∀ name ∈ place.getLast?, IsFileName name := by
  obtain ⟨_, front, name, -, -, named, -, -, rfl⟩ := exists_of_target led
  intro last member
  rw [List.getLast?_concat] at member
  cases member
  exact named

theorem of_write (wrote : d.write p text = .ok d') :
    d.Changes (· = d.locate p) d' ∧ d'.root.HasFile (d.locate p) text.toUTF8 := by
  obtain ⟨place, led, put⟩ := bind_eq_ok_iff.mp wrote
  obtain rfl := eq_locate_of_target led
  exact of_putFile put (named_of_target led)

theorem of_append (appended : d.append p text = .ok d') : d.Changes (· = d.locate p) d' := by
  obtain ⟨place, led, put⟩ := bind_eq_ok_iff.mp appended
  obtain rfl := eq_locate_of_target led
  split at put
  · exact (of_putFile put (named_of_target led)).1
  · exact (of_putFile put (named_of_target led)).1

/-- Directories that are made on a way are empty ones. -/
theorem of_makeAlong {root root' : FileTree} {parts : List FileName}
    (made : makeAlong root place parts = .ok root') (noSlash : ∀ part ∈ parts, Path.slash ∉ part) :
    root.Agrees apart root' ∧ (root.IsProper → root'.IsProper) := by
  induction parts generalizing root place with
  | nil =>
    cases made
    exact ⟨.refl, id⟩
  | cons part parts ih =>
    obtain ⟨plain, noSlash⟩ := List.forall_mem_cons.mp noSlash
    rw [makeAlong] at made
    split at made
    · exact ih made noSlash
    · rename_i moves
      split at made
      · exact ih made noSlash
      · rename_i down
        split at made
        · exact ih made noSlash
        · cases made
        · rename_i free
          split at made
          · rename_i next put
            obtain ⟨agrees, proper⟩ := ih made noSlash
            refine ⟨(agrees_of_made put free apart).trans agrees, fun first => proper ?_⟩
            refine first.put? put ?_ ⟨.nil, trivial⟩
            intro name member
            rw [List.getLast?_concat] at member
            cases member
            exact isFileName_iff.mpr ⟨plain, by simpa using moves, by simpa using down⟩
          · cases made

theorem of_makeDirectory (made : d.makeDirectory p = .ok d') : d.Changes apart d' := by
  obtain ⟨root, along, rfl⟩ := map_eq_ok_iff.mp made
  obtain ⟨agrees, proper⟩ := of_makeAlong along fun part member => not_mem_of_mem_parts member
  exact ⟨rfl, agrees, proper⟩

theorem of_makeParent (made : d.makeParent p = .ok d') : d.Changes apart d' := by
  rw [makeParent] at made
  split at made
  · exact of_makeDirectory made
  · cases made
    exact .refl

theorem target_of_moveTarget (led : d.moveTarget p = .ok place) : d.target p = .ok place := by
  rw [moveTarget] at led
  split at led
  · cases led
  · split at led
    · cases led
    · split at led
      · cases led
      · exact led

/-- A file that is moved is put in its new place and, if that is another one, removed from its own. -/
theorem exists_of_move {source : Path} (moved : d.move source p = .ok d')
    (held : d.root.HasFile (d.locate source) content) :
    d.target p = .ok (d.locate p) ∧ ∃ d₁, d.putFile (d.locate p) content = .ok d₁ ∧
      d' = if d.locate source = d.locate p then d₁
        else { d₁ with root := d₁.root.remove (d.locate source) } := by
  simp only [move, bind_eq_ok_iff] at moved
  obtain ⟨origin, from_, place, to_, moved⟩ := moved
  obtain rfl := eq_locate_of_place from_
  have led := target_of_moveTarget to_
  obtain rfl := eq_locate_of_target led
  have there : d.root.at? (d.locate source) = some (.file content) := held
  simp only [there, bind_eq_ok_iff, pure_eq_ok_iff] at moved
  obtain ⟨d₁, put, rfl⟩ := moved
  exact ⟨led, d₁, put, rfl⟩

/-- A file that is moved stands in its new place. -/
theorem of_move {source : Path} (moved : d.move source p = .ok d')
    (held : d.root.HasFile (d.locate source) content) :
    d.target p = .ok (d.locate p) ∧ d'.root.HasFile (d.locate p) content ∧
      d.Changes (fun place => place = d.locate source ∨ place = d.locate p) d' := by
  obtain ⟨led, d₁, put, rfl⟩ := exists_of_move moved held
  obtain ⟨changes, arrived⟩ := of_putFile put (named_of_target led)
  have wide := changes.mono (fun place here =>
    (.inr here : place = d.locate source ∨ place = d.locate p))
  split
  · exact ⟨led, arrived, wide⟩
  · rename_i differs
    have still : d₁.root.HasFile (d.locate source) content :=
      (changes.agrees.files _ _ differs).mpr held
    have removed := agrees_of_removed still
    refine ⟨led, (removed.files _ _ (Ne.symm differs)).mpr arrived, wide.trans ⟨rfl, ?_, ?_⟩⟩
    · exact removed.mono fun place here => .inl here
    · exact IsProper.remove

/-! ### Steps of a whole write -/

variable {accident : Option Accident} {step : WriteStep} {act : Disk → Except FileError Disk}

/-- A step fails by accident or for what is on the disk, which stays then, or it is done. -/
theorem attempt_cases (d : Disk) (accident : Option Accident) (step : WriteStep)
    (act : Disk → Except FileError Disk) :
    (∃ a ∈ accident, a.step = step ∧ d.attempt accident step act = (.error a.cause, a.left)) ∨
      (∃ e, act d = .error e ∧ d.attempt accident step act = (.error e, d)) ∨
      ∃ d', act d = .ok d' ∧ d.attempt accident step act = (.ok (), d') := by
  rw [attempt]
  split
  · rename_i a happens
    obtain ⟨happens, here⟩ := Option.filter_eq_some_iff.mp happens
    exact .inl ⟨a, happens, by simpa using here, rfl⟩
  · cases act d with
    | error e => exact .inr (.inl ⟨e, rfl, rfl⟩)
    | ok d' => exact .inr (.inr ⟨d', rfl, rfl⟩)

/-- A whole write succeeds if its steps do. -/
theorem replaceFile_eq_ok_iff : d.replaceFile p text = (.ok (), d') ↔
    ∃ d₁ d₂, d.makeParent p = .ok d₁ ∧ d₁.write (temporary p) text = .ok d₂ ∧
      d₂.move (temporary p) p = .ok d' := by
  rw [replaceFile]
  cases made : d.makeParent p with
  | error e => simp [attempt, made]
  | ok d₁ =>
    cases wrote : d₁.write (temporary p) text with
    | error e => simp [writeAndMove, attempt, made, wrote]
    | ok d₂ =>
      cases moved : d₂.move (temporary p) p <;> simp [writeAndMove, attempt, made, wrote, moved]

/-- A file that is written whole changes no other file, except that under its other name. It is found
with its bytes, as long as what is done later changes other files. -/
theorem of_replaceFile (replaced : d.replaceFile p text = (.ok (), d')) :
    d.Changes (fun place => place = d.locate (temporary p) ∨ place = d.locate p) d' ∧
      ∀ apart d'', d'.Changes apart d'' → ¬ apart (d.locate p) →
        d''.find p = .ok (.file text.toUTF8) := by
  obtain ⟨d₁, d₂, made, wrote, moved⟩ := replaceFile_eq_ok_iff.mp replaced
  have parents (apart : List FileName → Prop) : d.Changes apart d₁ := of_makeParent made
  obtain ⟨changes, written⟩ := of_write wrote
  have same (q : Path) : d₂.locate q = d.locate q :=
    (changes.locate q).trans ((parents (fun _ => False)).locate q)
  rw [← changes.locate] at written
  obtain ⟨led, arrived, across⟩ := of_move moved written
  refine ⟨(parents _).trans ((changes.mono ?_).trans (across.mono ?_)), ?_⟩
  · rintro place rfl
    exact .inl ((parents (fun _ => False)).locate _)
  · rintro place (rfl | rfl)
    · exact .inl (same _)
    · exact .inr (same _)
  · intro apart d'' later kept
    rw [← same] at kept
    have held := (later.agrees.files _ _ kept).mpr arrived
    have whole : d₂.Changes (fun _ => True) d'' :=
      (across.mono fun _ _ => trivial).trans (later.mono fun _ _ => trivial)
    exact find_of_target led whole.here whole.agrees held

end DeployManifest.Disk
