import DeployManifest.Proofs.Manifest.Builder
import DeployManifest.Proofs.Run

/-! # Manifests that are built step by step

Parameters, interfaces and endpoints are added in any order, and adding goes on behind an endpoint
that is refused. Of the endpoints with one key, and of the interfaces with one name, the first one
counts (`firsts`). Main statement: `builds_attemptAll`, by which the manifest and the answers of
such a run can be read off what was added.
-/

namespace DeployManifest

open Family (RequiredApi)

namespace ManifestBuilder

/-! ### The first of each name -/

section firsts

variable {α : Type} (name : α → String) {x : α} {xs : List α}

/-- Of the things with one name the first one. -/
def firsts (xs : List α) : List α := xs.eraseDupsBy fun later earlier => name later == name earlier

theorem firsts_cons :
    firsts name (x :: xs) = x :: firsts name (xs.filter fun later => name later != name x) := by
  have same : (fun later => decide ((name later == name x) = false)) =
      fun later => name later != name x := by
    funext later
    simp only [bne, Bool.decide_eq_false]
  rw [firsts, List.eraseDupsBy_cons, same, firsts]

/-- The first thing with a name is also found among the first ones. -/
theorem find?_firsts (key : String) :
    (firsts name xs).find? (name · == key) = xs.find? (name · == key) := by
  induction size : xs.length using Nat.strongRecOn generalizing xs with
  | ind size ih =>
    cases xs with
    | nil => rfl
    | cons x xs =>
      rw [firsts_cons, List.find?_cons, List.find?_cons]
      split
      · rfl
      · rename_i differs
        have smaller := List.length_filter_le (fun later => name later != name x) xs
        have kept : (fun later => decide ((name later != name x) = true ∧
            (name later == key) = true)) = fun later => name later == key := by
          funext later
          grind
        rw [ih _ (by rw [← size, List.length_cons]; omega) rfl, List.find?_filter, kept]

/-- One more thing counts if no other has its name. -/
theorem firsts_concat : firsts name (xs ++ [x]) =
    firsts name xs ++ if xs.any (name · == name x) then [] else [x] := by
  induction size : xs.length using Nat.strongRecOn generalizing xs with
  | ind size ih =>
    cases xs with
    | nil => rfl
    | cons first xs =>
      have smaller := List.length_filter_le (fun later => name later != name first) xs
      rw [List.cons_append, firsts_cons, firsts_cons, List.filter_append, List.any_cons]
      by_cases same : name first = name x
      · simp [same]
      · have other : [x].filter (fun later => name later != name first) = [x] := by
          simp [Ne.symm same]
        rw [other, ih _ (by rw [← size, List.length_cons]; omega) rfl, List.any_filter]
        have kept : (fun later => (name later != name first && name later == name x)) =
            fun later => name later == name x := by
          funext later
          grind
        simp [kept, same]

end firsts

/-! ### Additions -/

/-- Something that is added to a manifest. -/
inductive Addition where
  | param (param : Param)
  | api (api : RequiredApi)
  | endpoint (endpoint : Endpoint)

namespace Addition

/-- The parameters among additions. -/
def params (xs : List Addition) : List Param :=
  xs.filterMap fun
    | .param p => some p
    | _ => none

/-- The interfaces among additions. -/
def apis (xs : List Addition) : List RequiredApi :=
  xs.filterMap fun
    | .api required => some required
    | _ => none

/-- The endpoints among additions. -/
def endpoints (xs : List Addition) : List Endpoint :=
  xs.filterMap fun
    | .endpoint e => some e
    | _ => none

variable {xs ys : List Addition}

theorem params_append : params (xs ++ ys) = params xs ++ params ys := List.filterMap_append

theorem apis_append : apis (xs ++ ys) = apis xs ++ apis ys := List.filterMap_append

theorem endpoints_append : endpoints (xs ++ ys) = endpoints xs ++ endpoints ys :=
  List.filterMap_append

variable {x : Addition}

/-- An addition of another kind makes no difference. -/
theorem params_of_other (other : params [x] = []) : params (xs ++ [x]) = params xs := by
  rw [params_append, other, List.append_nil]

theorem apis_of_other (other : apis [x] = []) : apis (xs ++ [x]) = apis xs := by
  rw [apis_append, other, List.append_nil]

theorem endpoints_of_other (other : endpoints [x] = []) : endpoints (xs ++ [x]) = endpoints xs := by
  rw [endpoints_append, other, List.append_nil]

end Addition

/-- Tries an addition. -/
def attempt (b : ManifestBuilder) : Addition → ManifestBuilder × Except DuplicateKey Unit
  | .param p => (b.addParam p, .ok ())
  | .api required => (b.requireApi required, .ok ())
  | .endpoint e => b.addEndpoint e

theorem attempt_of_refused {b : ManifestBuilder} {x : Addition} {clash : DuplicateKey}
    (refused : (b.attempt x).2 = .error clash) : (b.attempt x).1 = b := by
  cases x with
  | param p => cases refused
  | api required => cases refused
  | endpoint e => exact addEndpoint_of_refused refused

/-- Tries additions one after the other: the builder at the end, and the answer to each. -/
def attemptAll (b : ManifestBuilder) (xs : List Addition) :
    ManifestBuilder × List (Except DuplicateKey Unit) :=
  runAll attempt b xs

/-! ### What a run of additions makes -/

/-- What additions make of a new builder. -/
structure Holds (xs : List Addition) (b : ManifestBuilder) : Prop where
  inStep : b.InStep
  params : b.params = Addition.params xs
  /-- The core interface comes first. -/
  requiredApis : b.requiredApis = firsts RequiredApi.api (Manifest.coreApi :: Addition.apis xs)
  endpoints : b.endpoints.values = firsts Endpoint.key (Addition.endpoints xs)

/-- The answer to an addition behind others. -/
inductive Answers (earlier : List Addition) : Addition → Except DuplicateKey Unit → Prop where
  | param (p : Param) : Answers earlier (.param p) (.ok ())
  | api (required : RequiredApi) : Answers earlier (.api required) (.ok ())
  | fresh {e : Endpoint} (free : ∀ other ∈ Addition.endpoints earlier, other.key ≠ e.key) :
      Answers earlier (.endpoint e) (.ok ())
  /-- The answer names the places of the first endpoint with the key and of this one. -/
  | taken {e first : Endpoint}
      (found : (Addition.endpoints earlier).find? (·.key == e.key) = some first) :
      Answers earlier (.endpoint e) (.error ⟨e.key, first.location, e.location⟩)

variable {xs : List Addition} {b : ManifestBuilder}

theorem holds_new : Holds [] new := ⟨inStep_new, rfl, rfl, rfl⟩

namespace Holds

open Addition (params_of_other apis_of_other endpoints_of_other)

theorem get? (holds : Holds xs b) (key : String) :
    b.endpoints.get? key = (Addition.endpoints xs).find? (·.key == key) := by
  rw [holds.inStep.keyed.get?_eq_find?, holds.endpoints]
  exact find?_firsts Endpoint.key key

theorem addParam (holds : Holds xs b) (p : Param) : Holds (xs ++ [.param p]) (b.addParam p) where
  inStep := holds.inStep.addParam p
  params := by
    rw [Addition.params_append, ← holds.params]
    rfl
  requiredApis := by
    rw [apis_of_other rfl]
    exact holds.requiredApis
  endpoints := by
    rw [endpoints_of_other rfl]
    exact holds.endpoints

theorem requireApi (holds : Holds xs b) (required : RequiredApi) :
    Holds (xs ++ [.api required]) (b.requireApi required) where
  inStep := holds.inStep.requireApi required
  params := by rw [params_of_other rfl, requireApi_params, holds.params]
  requiredApis := by
    have taken : b.requiredApis.any (·.api == required.api) =
        (Manifest.coreApi :: Addition.apis xs).any (·.api == required.api) := by
      rw [holds.requiredApis, ← List.isSome_find?, ← List.isSome_find?]
      exact congrArg Option.isSome (find?_firsts RequiredApi.api required.api)
    have added : Manifest.coreApi :: Addition.apis (xs ++ [.api required]) =
        Manifest.coreApi :: Addition.apis xs ++ [required] := by
      rw [Addition.apis_append]
      rfl
    rw [holds.inStep.requireApi_requiredApis, added, firsts_concat, ← holds.requiredApis, taken]
  endpoints := by rw [endpoints_of_other rfl, requireApi_endpoints, holds.endpoints]

/-- One more endpoint counts if its key is free. -/
theorem endpoints_concat (holds : Holds xs b) (e : Endpoint) :
    firsts Endpoint.key (Addition.endpoints (xs ++ [.endpoint e])) =
      b.endpoints.values ++ if (b.endpoints.get? e.key).isSome then [] else [e] := by
  have added : Addition.endpoints (xs ++ [.endpoint e]) = Addition.endpoints xs ++ [e] :=
    Addition.endpoints_append
  rw [added, firsts_concat, ← holds.endpoints, holds.get?, List.isSome_find?]

theorem addEndpoint (holds : Holds xs b) (e : Endpoint) :
    Holds (xs ++ [.endpoint e]) (b.addEndpoint e).1 := by
  refine ⟨holds.inStep.addEndpoint e, ?_, ?_, ?_⟩
  · rw [params_of_other rfl, addEndpoint_params, holds.params]
  · rw [apis_of_other rfl, addEndpoint_requiredApis, holds.requiredApis]
  · rw [holds.endpoints_concat]
    cases found : b.endpoints.get? e.key with
    | some first =>
      rw [addEndpoint_of_taken found]
      exact (List.append_nil _).symm
    | none =>
      rw [addEndpoint_of_free found]
      exact IndexMap.values_insert found

/-- An endpoint is answered by the endpoints that were added before. -/
theorem answers_addEndpoint (holds : Holds xs b) (e : Endpoint) :
    Answers xs (.endpoint e) (b.addEndpoint e).2 := by
  cases found : b.endpoints.get? e.key with
  | some first =>
    rw [addEndpoint_of_taken found]
    exact .taken (holds.get? e.key ▸ found)
  | none =>
    rw [addEndpoint_of_free found]
    rw [holds.get?, List.find?_eq_none] at found
    exact .fresh fun other member => by simpa using found other member

theorem attempt (holds : Holds xs b) (x : Addition) : Holds (xs ++ [x]) (b.attempt x).1 := by
  cases x with
  | param p => exact holds.addParam p
  | api required => exact holds.requireApi required
  | endpoint e => exact holds.addEndpoint e

theorem answers (holds : Holds xs b) (x : Addition) : Answers xs x (b.attempt x).2 := by
  cases x with
  | param p => exact .param p
  | api required => exact .api required
  | endpoint e => exact holds.answers_addEndpoint e

end Holds

/-- What additions make, one after the other. -/
theorem holds_attemptAll (xs : List Addition) : Holds xs (new.attemptAll xs).1 :=
  runAll_reaches holds_new (fun _ _ x holds => holds.attempt x) xs

/-- What is built by additions, with the answers to them. -/
structure Builds (xs : List Addition) (answers : List (Except DuplicateKey Unit))
    (b : ManifestBuilder) : Prop where
  params : b.build.params = Addition.params xs
  /-- Behind the core interface the others stand in the order in which they are first required. -/
  requiredApis : b.build.requiredApis = Manifest.coreApi ::
    firsts RequiredApi.api ((Addition.apis xs).filter (·.api != Manifest.coreApi.api))
  /-- The first endpoint of each key, under that key. -/
  endpoints : b.build.endpoints.entries =
    (firsts Endpoint.key (Addition.endpoints xs)).map fun e => (e.key, e)
  endpoint? : ∀ key, b.build.endpoint? key = (Addition.endpoints xs).find? (·.key == key)
  /-- The set and the map that decide on an addition say what the interfaces and endpoints do. -/
  inStep : b.InStep
  length : answers.length = xs.length
  /-- Each answer is that of its addition, and what is refused leaves everything as it is. -/
  answered : ∀ earlier x later, xs = earlier ++ x :: later →
    ∃ answer, answers[earlier.length]? = some answer ∧ Answers earlier x answer ∧
      ∀ clash, answer = .error clash →
        (new.attemptAll (earlier ++ [x])).1 = (new.attemptAll earlier).1

/-- Whatever is added, in whatever order, the manifest keeps all parameters, and the first interface
and the first endpoint of each name. -/
theorem builds_attemptAll (xs : List Addition) :
    Builds xs (new.attemptAll xs).2 (new.attemptAll xs).1 := by
  have holds := holds_attemptAll xs
  refine ⟨holds.params, ?_, ?_, holds.get?, holds.inStep, length_runAll xs, ?_⟩
  · exact holds.requiredApis.trans (firsts_cons _)
  · rw [← holds.endpoints]
    exact holds.inStep.keyed.entries_eq
  · rintro earlier x later rfl
    refine ⟨_, getElem?_runAll earlier x later, (holds_attemptAll earlier).answers x, ?_⟩
    intro clash refused
    exact (runAll_concat earlier x).trans (attempt_of_refused refused)

end ManifestBuilder

end DeployManifest
