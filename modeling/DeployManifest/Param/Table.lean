import DeployManifest.Compile.Error
import DeployManifest.KeyMap
import DeployManifest.Scan.Basic

/-! # The table of parameters

Parameters are declared one after the other, before anything else is evaluated. A name is declared
once in the whole tree; the bindings, under which the source refers to parameters, may repeat. Both
are looked up through an index, which holds the places of the entries and is kept up with them.
-/

namespace DeployManifest

/-- A declared parameter and where its declaration stands. -/
structure ParamEntry where
  param : Param
  /-- The name that the parameter is assigned to. -/
  binding : Option String
  offset : Nat

/-! ### Indexes -/

def ParamEntry.indexName (entry : ParamEntry) (place : Nat) (index : KeyMap Nat) : KeyMap Nat :=
  index.insert entry.param.name place

/-- The index of bindings with an entry at a place, which comes after the others. -/
def ParamEntry.indexBinding (entry : ParamEntry) (place : Nat) (index : KeyMap (List Nat)) :
    KeyMap (List Nat) :=
  match entry.binding with
  | some binding => index.insert binding ((index.get? binding).getD [] ++ [place])
  | none => index

/-- The index of names with entries from a place on. -/
def indexNames : List ParamEntry → Nat → KeyMap Nat → KeyMap Nat
  | [], _, index => index
  | entry :: entries, place, index =>
    indexNames entries (place + 1) (entry.indexName place index)

/-- The index of bindings with entries from a place on. -/
def indexBindings : List ParamEntry → Nat → KeyMap (List Nat) → KeyMap (List Nat)
  | [], _, index => index
  | entry :: entries, place, index =>
    indexBindings entries (place + 1) (entry.indexBinding place index)

theorem indexNames_append (first second : List ParamEntry) (place : Nat) (index : KeyMap Nat) :
    indexNames (first ++ second) place index =
      indexNames second (place + first.length) (indexNames first place index) := by
  induction first generalizing place index with
  | nil => rfl
  | cons entry first ih =>
    simp only [List.cons_append, indexNames, ih, List.length_cons]
    rw [Nat.add_right_comm, Nat.add_assoc]

theorem indexBindings_append (first second : List ParamEntry) (place : Nat)
    (index : KeyMap (List Nat)) :
    indexBindings (first ++ second) place index =
      indexBindings second (place + first.length) (indexBindings first place index) := by
  induction first generalizing place index with
  | nil => rfl
  | cons entry first ih =>
    simp only [List.cons_append, indexBindings, ih, List.length_cons]
    rw [Nat.add_right_comm, Nat.add_assoc]

/-- Of entries with names of their own the index gives the place of each. -/
theorem get?_indexNames {entries : List ParamEntry}
    (distinct : (entries.map (·.param.name)).Nodup) (name : String) (place : Nat)
    (index : KeyMap Nat) :
    (indexNames entries place index).get? name =
      ((entries.findIdx? (·.param.name == name)).map (· + place)).or (index.get? name) := by
  induction entries generalizing place index with
  | nil => rfl
  | cons entry entries ih =>
    obtain ⟨fresh, distinct⟩ := List.nodup_cons.mp distinct
    rw [indexNames, ih distinct, ParamEntry.indexName, KeyMap.get?_insert, List.findIdx?_cons]
    by_cases same : entry.param.name = name
    · have absent : entries.findIdx? (·.param.name == name) = none := by
        rw [List.findIdx?_eq_none_iff]
        intro other inside
        rw [beq_eq_false_iff_ne, ← same]
        exact fun again => fresh (List.mem_map.mpr ⟨other, inside, again⟩)
      simp [same, absent]
    · simp only [same, if_false, beq_iff_eq, Option.map_map]
      congr 1
      refine Option.map_congr fun found _ => ?_
      simp only [Function.comp_apply]
      omega

/-- Read in a row, the places of a binding in its later part are the entries there that have it. -/
theorem filterMap_indexBindings (front entries : List ParamEntry) (binding : String)
    (index : KeyMap (List Nat)) :
    (((indexBindings entries front.length index).get? binding).getD []).filterMap
        (fun place => (front ++ entries)[place]?) =
      ((index.get? binding).getD []).filterMap (fun place => (front ++ entries)[place]?) ++
        entries.filter (·.binding == some binding) := by
  induction entries generalizing front index with
  | nil => simp [indexBindings]
  | cons entry entries ih =>
    have rest := ih (front ++ [entry]) (entry.indexBinding front.length index)
    rw [List.length_append, List.length_singleton, List.append_assoc, List.singleton_append] at rest
    rw [indexBindings, rest, List.filter_cons]
    cases bound : entry.binding with
    | none => simp [ParamEntry.indexBinding, bound]
    | some other =>
      by_cases same : other = binding
      · simp [ParamEntry.indexBinding, bound, same, KeyMap.get?_insert]
      · simp [ParamEntry.indexBinding, bound, same, KeyMap.get?_insert]

/-! ### The table -/

/-- The parameters in the order of their declarations, no two of one name. -/
structure ParamTable where
  entries : List ParamEntry
  /-- The place of each name. -/
  names : KeyMap Nat
  /-- The places of each binding, in order. -/
  bindings : KeyMap (List Nat)
  distinct : (entries.map (·.param.name)).Nodup
  names_eq : names = indexNames entries 0 []
  bindings_eq : bindings = indexBindings entries 0 []

/-- What a name of the source refers to. -/
inductive ParamLookup where
  /-- A parameter that is declared before the use in the same module. -/
  | found (param : Param)
  /-- A parameter of another module; this one declares none under the name. -/
  | otherModule (param : Param)
  /-- A parameter that the module declares only after the use. -/
  | declaredLater (param : Param)
  | notFound

namespace ParamTable

/-- The entries say all about a table. -/
theorem eq_of_entries {first second : ParamTable} (same : first.entries = second.entries) :
    first = second := by
  obtain ⟨entries, _, _, _, rfl, rfl⟩ := first
  obtain ⟨_, _, _, _, rfl, rfl⟩ := second
  cases same
  rfl

def empty : ParamTable := ⟨[], [], [], List.nodup_nil, rfl, rfl⟩

def params (t : ParamTable) : List Param := t.entries.map (·.param)

/-- The entry of the parameter with a name. -/
def holder? (t : ParamTable) (name : String) : Option ParamEntry :=
  (t.names.get? name).bind fun place => t.entries[place]?

/-- The index leads to the entry that a search through all of them finds. -/
theorem holder?_eq_find? (t : ParamTable) (name : String) :
    t.holder? name = t.entries.find? (·.param.name == name) := by
  rw [holder?, t.names_eq, get?_indexNames t.distinct, List.find?_eq_bind_findIdx?_getElem?]
  simp [KeyMap.get?]

def get? (t : ParamTable) (name : String) : Option Param := (t.holder? name).map (·.param)

/-- The name that a parameter is assigned to. -/
def binding? (t : ParamTable) (name : String) : Option String :=
  (t.holder? name).bind (·.binding)

/-- The table with one more entry, whose name is free. -/
def push (t : ParamTable) (entry : ParamEntry) (free : t.holder? entry.param.name = none) :
    ParamTable where
  entries := t.entries ++ [entry]
  names := entry.indexName t.entries.length t.names
  bindings := entry.indexBinding t.entries.length t.bindings
  distinct := by
    rw [holder?_eq_find?, List.find?_eq_none] at free
    rw [List.map_append, List.nodup_append]
    refine ⟨t.distinct, by simp, ?_⟩
    intro name member other last
    obtain ⟨holder, inside, rfl⟩ := List.mem_map.mp member
    rw [List.map_singleton, List.mem_singleton] at last
    rw [last]
    simpa using free holder inside
  names_eq := by
    rw [indexNames_append, ← t.names_eq, Nat.zero_add]
    rfl
  bindings_eq := by
    rw [indexBindings_append, ← t.bindings_eq, Nat.zero_add]
    rfl

/-- The entries under a binding, in order. -/
def boundTo (t : ParamTable) (binding : String) : List ParamEntry :=
  ((t.bindings.get? binding).getD []).filterMap fun place => t.entries[place]?

/-- The index leads to the entries that a search through all of them finds. -/
theorem boundTo_eq_filter (t : ParamTable) (binding : String) :
    t.boundTo binding = t.entries.filter (·.binding == some binding) := by
  rw [boundTo, t.bindings_eq]
  exact filterMap_indexBindings [] t.entries binding []

/-- What a name refers to where it is used. Declarations of the same module hide those of others;
of several before the use the last one counts, of several after it the first. -/
def lookup (t : ParamTable) (binding module : String) (offset : Nat) : ParamLookup :=
  let bound := t.boundTo binding
  let here := bound.filter (·.param.location.file == module)
  match (here.filter (·.offset < offset)).getLast? with
  | some entry => .found entry.param
  | none =>
    match here.head? with
    | some entry => .declaredLater entry.param
    | none =>
      match bound.head? with
      | some entry => .otherModule entry.param
      | none => .notFound

end ParamTable

end DeployManifest
