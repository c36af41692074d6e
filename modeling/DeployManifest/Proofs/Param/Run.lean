import DeployManifest.Proofs.Eval.Literal
import DeployManifest.Proofs.Param.Declare
import DeployManifest.Proofs.Param.Index
import DeployManifest.Proofs.Run
import DeployManifest.Proofs.Text

/-! # Runs of declarations

Declarations are tried one after the other, and a run goes on behind one that is refused. What
becomes of each is said by the entries that are there already (`Declares`). Main statement:
`tabulates_attemptAll`, by which the table at the end of a run holds what was accepted, and its
indexes find in it what a search would.
-/

namespace DeployManifest

open Outcome

/-! ### Declared parameters -/

namespace Param

/-- A capital letter, and behind it capital letters, digits and underscores. -/
def IsWellNamed (name : String) : Prop :=
  ∃ c cs, name.toList = c :: cs ∧ ('A' ≤ c ∧ c ≤ 'Z') ∧
    ∀ d ∈ cs, ('A' ≤ d ∧ d ≤ 'Z') ∨ ('0' ≤ d ∧ d ≤ '9') ∨ d = '_'

theorem isName_iff {name : String} : isName name = true ↔ IsWellNamed name := by
  rw [isName, IsWellNamed]
  cases name.toList with
  | nil => simp
  | cons c cs =>
    have upper (c : Char) : c.isUpper = true ↔ 'A' ≤ c ∧ c ≤ 'Z' := Text.isUpper_iff
    have digit (c : Char) : c.isDigit = true ↔ '0' ≤ c ∧ c ≤ '9' := Text.isDigit_iff
    simp [isNameChar, upper, digit, or_assoc]

/-- The name is well formed, and the default, which a secret has none of, is a literal that the kind
accepts. -/
structure IsValid (p : Param) : Prop where
  named : IsWellNamed p.name
  default : ∀ v ∈ p.default, ∃ l, v = .literal l ∧ p.kind.accepts l = true
  secret : p.kind = .secret → p.default = none

end Param

theorem Declaration.isValid_of_param {d : Declaration} {p : Param} (declared : d.param = .ok p) :
    p.IsValid := by
  have accepted := default_of_param declared
  rw [← (of_param declared).1] at accepted
  refine ⟨?_, accepted, fun secret => ?_⟩
  · simp only [Declaration.param, bind_eq_ok_iff, pure_eq_ok_iff] at declared
    obtain ⟨_, -, name, named, _, -, _, -, _, -, rfl⟩ := declared
    rw [mapError_eq_ok_iff, DeclarationArguments.declaredName] at named
    split at named
    · cases named
    · split at named
      · cases named
      · split at named
        · cases named
          exact Param.isName_iff.mp ‹_›
        · cases named
  · cases given : p.default with
    | none => rfl
    | some v =>
      obtain ⟨l, -, accepts⟩ := accepted v given
      rw [secret] at accepts
      cases accepts

/-- A declaration is refused on its own for its arguments, or for a default that is no literal. -/
theorem Declaration.param_refused {d : Declaration} {fault : CompileError}
    (refused : d.param = .error fault) :
    (∃ cause, fault = d.invalid cause) ∨ fault.IsUnsupported := by
  have invalid {α : Type} {x : Except ParamFault α} (failed : x.mapError d.invalid = .error fault) :
      ∃ cause, fault = d.invalid cause := by
    cases x with
    | ok _ => cases failed
    | error cause => exact ⟨cause, (Except.error.inj failed).symm⟩
  simp only [param, bind_eq_error_iff, pure, Except.pure, reduceCtorEq, and_false, exists_false,
    or_false] at refused
  rcases refused with failed | ⟨_, -, failed | ⟨_, -, failed | ⟨_, -, failed | ⟨_, -, failed⟩⟩⟩⟩
  · exact .inl (invalid failed)
  · exact .inl (invalid failed)
  · rw [defaultOf] at failed
    split at failed
    · cases failed
    · split at failed
      · cases failed
        exact .inl ⟨_, rfl⟩
      · rcases bind_eq_error_iff.mp failed with failed | ⟨_, -, failed⟩
        · exact .inr (Expr.literal_refused _ failed)
        · split at failed
          · cases failed
          · cases failed
            exact .inl ⟨_, rfl⟩
  · exact .inl (invalid failed)
  · exact .inl (invalid failed)

/-! ### Runs -/

/-- What becomes of declarations behind the entries that are there: the answer to each, and the
entries at the end. A declaration that is refused changes nothing. -/
inductive Declares :
    List ParamEntry → List Declaration → List (Except CompileError Unit) → List ParamEntry → Prop
    where
  | done {entries : List ParamEntry} : Declares entries [] [] entries
  | accepted {entries last : List ParamEntry} {d : Declaration} {ds : List Declaration}
      {answers : List (Except CompileError Unit)} {p : Param} (given : d.param = .ok p)
      (fresh : ∀ holder ∈ entries, holder.param.name ≠ p.name)
      (rest : Declares (entries ++ [⟨p, d.binding, d.offset⟩]) ds answers last) :
      Declares entries (d :: ds) (.ok () :: answers) last
  | malformed {entries last : List ParamEntry} {d : Declaration} {ds : List Declaration}
      {answers : List (Except CompileError Unit)} {e : CompileError} (failed : d.param = .error e)
      (rest : Declares entries ds answers last) :
      Declares entries (d :: ds) (.error e :: answers) last
  /-- The answer names the place of the entry that holds the name. -/
  | taken {entries last : List ParamEntry} {d : Declaration} {ds : List Declaration}
      {answers : List (Except CompileError Unit)} {p : Param} {holder : ParamEntry}
      (given : d.param = .ok p) (member : holder ∈ entries) (same : holder.param.name = p.name)
      (rest : Declares entries ds answers last) :
      Declares entries (d :: ds)
        (.error (.duplicateParam p.name holder.param.location d.location) :: answers) last

namespace Declares

variable {entries last : List ParamEntry} {ds : List Declaration}
  {answers : List (Except CompileError Unit)}

/-- At the end stand the entries of the accepted declarations, in order, behind those that were
there. -/
theorem last_eq (declares : Declares entries ds answers last) :
    last = entries ++ (ds.zip answers).filterMap fun (d, answer) =>
      if answer.isOk then d.entry.toOption else none := by
  induction declares with
  | done => simp
  | accepted given _ _ ih =>
    rw [ih]
    simp [Declaration.entry, given, Except.isOk, Except.toBool, Except.map, Except.toOption]
  | malformed _ _ ih =>
    rw [ih]
    simp [Except.isOk, Except.toBool]
  | taken _ _ _ _ ih =>
    rw [ih]
    simp [Except.isOk, Except.toBool]

/-- The place that is named for a name that is taken is that of the entry with this name. -/
theorem duplicate (declares : Declares entries ds answers last) {name : String}
    {first second : Location}
    (answered : .error (.duplicateParam name first second) ∈ answers) :
    ∃ holder ∈ last, holder.param.name = name ∧ holder.param.location = first := by
  induction declares with
  | done => cases answered
  | accepted _ _ _ ih =>
    rcases List.mem_cons.mp answered with now | later
    · cases now
    · exact ih later
  | malformed failed _ ih =>
    rcases List.mem_cons.mp answered with now | later
    · obtain rfl := Except.error.inj now
      rcases Declaration.param_refused failed with ⟨cause, same⟩ | ⟨_, _, _, same⟩
      · cases same
      · cases same
    · exact ih later
  | @taken entries last d ds answers p holder _ member same rest ih =>
    rcases List.mem_cons.mp answered with now | later
    · cases now
      have kept : holder ∈ last := by
        rw [rest.last_eq]
        exact List.mem_append_left _ member
      exact ⟨holder, kept, same, rfl⟩
    · exact ih later

theorem isValid (declares : Declares entries ds answers last)
    (valid : ∀ entry ∈ entries, entry.param.IsValid) : ∀ entry ∈ last, entry.param.IsValid := by
  induction declares with
  | done => exact valid
  | accepted given _ _ ih =>
    refine ih (List.forall_mem_append.mpr ⟨valid, ?_⟩)
    simpa using Declaration.isValid_of_param given
  | malformed _ _ ih | taken _ _ _ _ ih => exact ih valid

end Declares

namespace ParamTable

/-- Tries a declaration. The table stays as it is if the declaration is refused. -/
def attempt (t : ParamTable) (d : Declaration) : ParamTable × Except CompileError Unit :=
  match t.declare d with
  | .ok next => (next, .ok ())
  | .error e => (t, .error e)

/-- Tries declarations one after the other: the table at the end, and the answer to each. -/
def attemptAll (t : ParamTable) (ds : List Declaration) :
    ParamTable × List (Except CompileError Unit) :=
  runAll attempt t ds

theorem attempt_of_ok {t next : ParamTable} {d : Declaration} (accepted : t.declare d = .ok next) :
    t.attempt d = (next, .ok ()) := by
  rw [attempt, accepted]

theorem attempt_of_error {t : ParamTable} {d : Declaration} {e : CompileError}
    (refused : t.declare d = .error e) : t.attempt d = (t, .error e) := by
  rw [attempt, refused]

theorem declares_attemptAll (t : ParamTable) (ds : List Declaration) :
    Declares t.entries ds (t.attemptAll ds).2 (t.attemptAll ds).1.entries := by
  induction ds generalizing t with
  | nil => exact .done
  | cons d ds ih =>
    rw [attemptAll, runAll_cons]
    cases given : d.param with
    | error e =>
      rw [attempt_of_error (declare_of_failed given)]
      exact .malformed given (ih t)
    | ok p =>
      cases found : t.holder? p.name with
      | some holder =>
        obtain ⟨member, same⟩ := holder?_eq_some_iff.mp found
        rw [attempt_of_error (declare_of_taken given found)]
        exact .taken given member same (ih t)
      | none =>
        have fresh : ∀ holder ∈ t.entries, holder.param.name ≠ p.name := by
          intro holder member same
          cases found.symm.trans (holder?_eq_some_iff.mpr ⟨member, same⟩)
        rw [attempt_of_ok (declare_of_free given found)]
        exact .accepted given fresh (ih (t.push _ found))

/-- The table holds what was accepted of a run of declarations, and its indexes find in it what a
search would. -/
structure Tabulates (ds : List Declaration) (answers : List (Except CompileError Unit))
    (t : ParamTable) : Prop where
  declares : Declares [] ds answers t.entries
  entries_eq : t.entries = (ds.zip answers).filterMap fun (d, answer) =>
    if answer.isOk then d.entry.toOption else none
  distinct : (t.params.map (·.name)).Nodup
  valid : ∀ p ∈ t.params, p.IsValid
  get? : ∀ name p, t.get? name = some p ↔ p ∈ t.params ∧ p.name = name
  binding? : ∀ name binding, t.binding? name = some binding ↔
    ∃ entry ∈ t.entries, entry.param.name = name ∧ entry.binding = some binding
  lookup : ∀ binding module offset target,
    t.lookup binding module offset = target ↔ Finds t.entries binding module offset target
  duplicate : ∀ name first second, .error (.duplicateParam name first second) ∈ answers →
    ∃ p ∈ t.params, p.name = name ∧ p.location = first
  /-- A further declaration that is refused leaves the table as it is. -/
  refused : ∀ d e, t.declare d = .error e → (empty.attemptAll (ds ++ [d])).1 = t

/-- Whatever declarations are tried, in whatever order, the table keeps those that are accepted, in
step with its indexes. -/
theorem tabulates_attemptAll (ds : List Declaration) :
    Tabulates ds (empty.attemptAll ds).2 (empty.attemptAll ds).1 := by
  have declares := declares_attemptAll empty ds
  refine ⟨declares, declares.last_eq, ?_, ?_, fun _ _ => get?_eq_some_iff,
    fun _ _ => binding?_eq_some_iff, fun _ _ _ _ => lookup_eq_iff_finds, ?_, ?_⟩
  · rw [params, List.map_map]
    exact (empty.attemptAll ds).1.distinct
  · intro p member
    obtain ⟨entry, inside, rfl⟩ := List.mem_map.mp member
    exact declares.isValid (by simp [empty]) entry inside
  · intro name first second answered
    obtain ⟨holder, member, named, placed⟩ := declares.duplicate answered
    exact ⟨holder.param, List.mem_map_of_mem member, named, placed⟩
  · intro d e refused
    rw [attemptAll, runAll_concat]
    exact congrArg Prod.fst (attempt_of_error refused)

end ParamTable

end DeployManifest
