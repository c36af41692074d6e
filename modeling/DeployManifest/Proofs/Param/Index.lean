import DeployManifest.Param.Table

/-! # Look-ups are searches

The indexes of a table are kept up entry by entry. What they lead to is said here of the row of
entries alone: a name leads to the one entry that has it (`get?_eq_some_iff`,
`binding?_eq_some_iff`), and a binding to what a search through the row finds
(`lookup_eq_iff_finds`).
-/

namespace DeployManifest

/-- The entry is declared under the binding, in the module. -/
def ParamEntry.IsBoundIn (entry : ParamEntry) (binding module : String) : Prop :=
  entry.binding = some binding ∧ entry.param.location.file = module

instance (entry : ParamEntry) (binding module : String) :
    Decidable (entry.IsBoundIn binding module) :=
  inferInstanceAs (Decidable (_ ∧ _))

/-- What a search through a row of entries finds under a binding that is used at an offset of a
module. -/
inductive Finds (entries : List ParamEntry) (binding module : String) (offset : Nat) :
    ParamLookup → Prop where
  /-- The last entry of the module in front of the use. -/
  | found {before after : List ParamEntry} {entry : ParamEntry}
      (split : entries = before ++ entry :: after) (here : entry.IsBoundIn binding module)
      (early : entry.offset < offset)
      (last : ∀ other ∈ after, other.IsBoundIn binding module → offset ≤ other.offset) :
      Finds entries binding module offset (.found entry.param)
  /-- The first entry of the module, which has none in front of the use. -/
  | declaredLater {before after : List ParamEntry} {entry : ParamEntry}
      (split : entries = before ++ entry :: after) (here : entry.IsBoundIn binding module)
      (first : ∀ other ∈ before, ¬ other.IsBoundIn binding module)
      (late : ∀ other ∈ entries, other.IsBoundIn binding module → offset ≤ other.offset) :
      Finds entries binding module offset (.declaredLater entry.param)
  /-- The first entry of all, none of which is the module's. -/
  | otherModule {before after : List ParamEntry} {entry : ParamEntry}
      (split : entries = before ++ entry :: after) (bound : entry.binding = some binding)
      (first : ∀ other ∈ before, other.binding ≠ some binding)
      (foreign : ∀ other ∈ entries, ¬ other.IsBoundIn binding module) :
      Finds entries binding module offset (.otherModule entry.param)
  | notFound (unbound : ∀ entry ∈ entries, entry.binding ≠ some binding) :
      Finds entries binding module offset .notFound

namespace ParamTable

variable {t : ParamTable} {binding module : String} {offset : Nat}

/-! ### Names -/

theorem holder?_eq_some_iff {name : String} {entry : ParamEntry} :
    t.holder? name = some entry ↔ entry ∈ t.entries ∧ entry.param.name = name := by
  rw [holder?_eq_find?]
  constructor
  · intro found
    exact ⟨List.mem_of_find?_eq_some found, by simpa using List.find?_some found⟩
  · rintro ⟨member, rfl⟩
    obtain ⟨before, after, split⟩ := List.append_of_mem member
    have distinct := t.distinct
    rw [split, List.map_append, List.map_cons, List.nodup_append] at distinct
    rw [List.find?_eq_some_iff_append]
    refine ⟨by simp, before, after, split, fun other earlier => ?_⟩
    simpa using distinct.2.2 _ (List.mem_map_of_mem earlier) _ (List.mem_cons_self ..)

/-- A name leads to the parameter that has it. -/
theorem get?_eq_some_iff {name : String} {p : Param} :
    t.get? name = some p ↔ p ∈ t.params ∧ p.name = name := by
  simp only [get?, Option.map_eq_some_iff, holder?_eq_some_iff, params, List.mem_map]
  constructor
  · rintro ⟨entry, ⟨member, named⟩, rfl⟩
    exact ⟨⟨entry, member, rfl⟩, named⟩
  · rintro ⟨⟨entry, member, rfl⟩, named⟩
    exact ⟨entry, ⟨member, named⟩, rfl⟩

theorem binding?_eq_some_iff {name : String} :
    t.binding? name = some binding ↔
      ∃ entry ∈ t.entries, entry.param.name = name ∧ entry.binding = some binding := by
  simp only [binding?, Option.bind_eq_some_iff, holder?_eq_some_iff, and_assoc]

/-! ### Bindings -/

/-- The entries of a module under a binding. -/
def boundIn (t : ParamTable) (binding module : String) : List ParamEntry :=
  t.entries.filter fun entry => decide (entry.IsBoundIn binding module)

theorem filter_boundTo :
    (t.boundTo binding).filter (·.param.location.file == module) = t.boundIn binding module := by
  rw [boundTo_eq_filter, List.filter_filter, boundIn]
  congr 1
  funext entry
  rw [Bool.eq_iff_iff]
  simp [ParamEntry.IsBoundIn, and_comm]

/-- A look-up finds the last entry of the module in front of the use, else the first one behind it,
else the first one of another module. -/
theorem lookup_eq : t.lookup binding module offset =
    match ((t.boundIn binding module).filter (·.offset < offset)).getLast? with
    | some entry => .found entry.param
    | none =>
      match (t.boundIn binding module).head? with
      | some entry => .declaredLater entry.param
      | none =>
        match (t.entries.filter (·.binding == some binding)).head? with
        | some entry => .otherModule entry.param
        | none => .notFound := by
  rw [← filter_boundTo, ← boundTo_eq_filter]
  rfl

theorem mem_boundIn {entry : ParamEntry} :
    entry ∈ t.boundIn binding module ↔ entry ∈ t.entries ∧ entry.IsBoundIn binding module := by
  rw [boundIn, List.mem_filter, decide_eq_true_eq]

/-- Nothing of the module is in front of the use. -/
theorem filter_boundIn_eq_nil_iff :
    (t.boundIn binding module).filter (·.offset < offset) = [] ↔
      ∀ other ∈ t.entries, other.IsBoundIn binding module → offset ≤ other.offset := by
  simp only [List.filter_eq_nil_iff, mem_boundIn, decide_eq_true_eq, Nat.not_lt, and_imp]

theorem finds_lookup : Finds t.entries binding module offset (t.lookup binding module offset) := by
  rw [lookup_eq]
  split
  · rename_i entry last
    obtain ⟨front, split⟩ := List.getLast?_eq_some_iff.mp last
    rw [boundIn, List.filter_filter, List.filter_eq_append_iff] at split
    obtain ⟨before, rest, whole, -, tail⟩ := split
    obtain ⟨middle, after, rfl, -, holds, none⟩ := List.filter_eq_cons_iff.mp tail
    rw [List.filter_eq_nil_iff] at none
    simp only [Bool.and_eq_true, decide_eq_true_eq, not_and] at holds none
    have split : t.entries = (before ++ middle) ++ entry :: after := by
      rw [whole, List.append_assoc]
    refine .found split holds.2 holds.1 ?_
    intro other behind here
    exact Nat.not_lt.mp fun early => none other behind early here
  · rename_i noneEarly
    have late := filter_boundIn_eq_nil_iff.mp (List.getLast?_eq_none_iff.mp noneEarly)
    split
    · rename_i entry first
      obtain ⟨rest, split⟩ := List.head?_eq_some_iff.mp first
      obtain ⟨before, after, whole, none, here, -⟩ := List.filter_eq_cons_iff.mp split
      simp only [decide_eq_true_eq] at none here
      exact .declaredLater whole here none late
    · rename_i noneHere
      have foreign : ∀ other ∈ t.entries, ¬ other.IsBoundIn binding module := by
        simpa [boundIn] using List.head?_eq_none_iff.mp noneHere
      split
      · rename_i entry first
        obtain ⟨rest, split⟩ := List.head?_eq_some_iff.mp first
        obtain ⟨before, after, whole, none, bound, -⟩ := List.filter_eq_cons_iff.mp split
        simp only [beq_iff_eq] at none bound
        exact .otherModule whole bound none foreign
      · rename_i noneBound
        exact .notFound (by simpa using List.head?_eq_none_iff.mp noneBound)

theorem lookup_of_finds {target : ParamLookup}
    (finds : Finds t.entries binding module offset target) :
    t.lookup binding module offset = target := by
  rw [lookup_eq]
  cases finds with
  | @found before after entry split here early last =>
    have none : after.filter (fun other => decide (other.offset < offset) &&
        decide (other.IsBoundIn binding module)) = [] := by
      rw [List.filter_eq_nil_iff]
      intro other behind
      simpa using fun less here => absurd less (Nat.not_lt.mpr (last other behind here))
    have isLast : ((t.boundIn binding module).filter (·.offset < offset)).getLast? =
        some entry := by
      rw [boundIn, List.filter_filter, split, List.filter_append,
        List.filter_cons_of_pos (by simp [early, here]), none, List.getLast?_concat]
    rw [isLast]
  | @declaredLater before after entry split here first late =>
    have isFirst : (t.boundIn binding module).head? = some entry := by
      have none : before.filter (fun other => decide (other.IsBoundIn binding module)) = [] := by
        simpa using first
      rw [boundIn, split, List.filter_append, none, List.nil_append,
        List.filter_cons_of_pos (by simp [here]), List.head?_cons]
    rw [filter_boundIn_eq_nil_iff.mpr late, isFirst]
    rfl
  | @otherModule before after entry split bound first foreign =>
    have noneHere : t.boundIn binding module = [] := by simpa [boundIn] using foreign
    have isFirst : (t.entries.filter (·.binding == some binding)).head? = some entry := by
      have none : before.filter (·.binding == some binding) = [] := by simpa using first
      rw [split, List.filter_append, none, List.nil_append,
        List.filter_cons_of_pos (by simp [bound]), List.head?_cons]
    rw [noneHere, isFirst]
    rfl
  | notFound unbound =>
    have noneBound : t.entries.filter (·.binding == some binding) = [] := by simpa using unbound
    have noneHere : t.boundIn binding module = [] := by
      simpa [boundIn] using fun entry member here => unbound entry member here.1
    rw [noneHere, noneBound]
    rfl

/-- A look-up gives exactly what a search through the entries finds. -/
theorem lookup_eq_iff_finds {target : ParamLookup} :
    t.lookup binding module offset = target ↔ Finds t.entries binding module offset target := by
  refine ⟨?_, lookup_of_finds⟩
  rintro rfl
  exact finds_lookup

end ParamTable

end DeployManifest
