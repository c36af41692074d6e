import DeployManifest.Proofs.Options.Merge
import DeployManifest.Proofs.Options.Order

/-! # Registrations that say the same

The arguments of a registration can be written in several ways: keywords in any order, options that
are `None` or not there, the address and the handler by position or by keyword (`Respells`). What
the registration gives does not depend on which of them is chosen (`endpoint_respelled`); only which
error is met first does.
-/

namespace DeployManifest

open Outcome

namespace Registration

/-- The number of positional arguments in front of a handler. -/
def handlerSlot (r : Registration) : Nat := if r.family.addressKeyword?.isSome then 1 else 0

/-- Other ways to write the arguments of a registration. Keywords that are moved or added can stand
anywhere behind the positional arguments. -/
inductive Respells (r : Registration) : List Argument → Prop where
  /-- The keywords in another order. -/
  | reordered {front back back' : List Argument} (written : r.args = front ++ back)
      (parted : Argument.Parted front back) (permuted : back'.Perm back) :
      Respells r (front ++ back')
  /-- With one more option, which is `None`. -/
  | unset {front back back' : List Argument} {name : String} {value : Expr} {location : Location}
      (written : r.args = front ++ back) (parted : Argument.Parted front back)
      (accepted : r.family.accepts name = true)
      (missing : name ∉ (back.filterMap (·.keyword?)).map (·.name)) (none : value.isNone = true)
      (placed : back'.Perm (.keyword name value location :: back)) : Respells r (front ++ back')
  /-- In a call, with the positional handler by its keyword. -/
  | handler {before after back back' : List Argument} {binding : Option String} {value : Expr}
      {location : Location} (written : r.args = before ++ .positional value :: after ++ back)
      (parted : Argument.Parted (before ++ .positional value :: after) back)
      (called : r.form = .call binding)
      (slot : (before.filterMap (·.positional?)).length = r.handlerSlot)
      (placed : back'.Perm (.keyword "handler" value location :: back)) :
      Respells r (before ++ after ++ back')
  /-- With the positional address by its keyword, where no handler is given by position. -/
  | address {before after back back' : List Argument} {keyword : String} {value : Expr}
      {location : Location} (written : r.args = before ++ .positional value :: after ++ back)
      (parted : Argument.Parted (before ++ .positional value :: after) back)
      (addressed : r.family.addressKeyword? = some keyword)
      (first : before.filterMap (·.positional?) = [])
      (alone : ∀ binding, r.form = .call binding → after.filterMap (·.positional?) = [])
      (placed : back'.Perm (.keyword keyword value location :: back)) :
      Respells r (before ++ after ++ back')
  /-- In a call, with the positional address and the positional handler by their keywords. -/
  | both {before between after back back' : List Argument} {keyword : String}
      {binding : Option String} {value handler : Expr} {location location' : Location}
      (written : r.args =
        before ++ .positional value :: (between ++ .positional handler :: after) ++ back)
      (parted : Argument.Parted
        (before ++ .positional value :: (between ++ .positional handler :: after)) back)
      (addressed : r.family.addressKeyword? = some keyword) (called : r.form = .call binding)
      (first : before.filterMap (·.positional?) = [])
      (second : between.filterMap (·.positional?) = [])
      (placed : back'.Perm
        (.keyword keyword value location :: .keyword "handler" handler location' :: back)) :
      Respells r (before ++ (between ++ after) ++ back')

/-! ### What takes a value -/

variable {family : Family} {form : RegistrationForm} {keywords keywords' : List OptionArgument}
  {name : String} {values rest : List Expr} {value first : Expr} {location : Location}
  {address : Option Address} {entryPoint : Option String}

/-- Only keywords with the name decide what is taken by it. -/
theorem Takes.congr (takes : Takes keywords name values value rest)
    (same : ∀ k, k.name = name → (k ∈ keywords ↔ k ∈ keywords')) :
    Takes keywords' name values value rest := by
  cases takes with
  | position free => exact .position fun k member named => free k ((same k named).mpr member) named
  | keyword given named => exact .keyword ((same _ named).mp given) named

/-- A positional value is what is taken by its keyword instead, if there are no more. -/
theorem takes_cons_iff (fresh : name ∉ keywords.map (·.name)) :
    Takes (⟨name, first, location⟩ :: keywords) name values value rest ↔
      values = [] ∧ Takes keywords name [first] value rest := by
  have free : ∀ k ∈ keywords, k.name ≠ name :=
    fun k member named => fresh (named ▸ List.mem_map_of_mem member)
  constructor
  · intro takes
    cases takes with
    | position others => exact absurd rfl (others _ (List.mem_cons_self ..))
    | keyword given named =>
      rcases List.mem_cons.mp given with rfl | later
      · exact ⟨rfl, .position free⟩
      · exact absurd named (free _ later)
  · rintro ⟨rfl, takes⟩
    cases takes with
    | position => exact .keyword (List.mem_cons_self ..) rfl

theorem Addresses.congr (addresses : Addresses family ⟨values, keywords⟩ address rest)
    (same : ∀ k, family.addressKeyword? = some k.name → (k ∈ keywords ↔ k ∈ keywords')) :
    Addresses family ⟨values, keywords'⟩ address rest := by
  cases addresses with
  | without bare => exact .without bare
  | given addressed taken constant =>
    exact .given addressed (taken.congr fun k named => same k (named ▸ addressed)) constant

theorem Handles.congr (handles : Handles form keywords entryPoint values)
    (same : ∀ k, k.name = "handler" → (k ∈ keywords ↔ k ∈ keywords')) :
    Handles form keywords' entryPoint values := by
  cases handles with
  | decorated written free =>
    exact .decorated written fun k member named => free k ((same k named).mpr member) named
  | called written taken given => exact .called written (taken.congr same) given

/-! ### What settles a registration -/

variable {r : Registration}

theorem addressKeyword?_ne_handler (keyword : String)
    (addressed : family.addressKeyword? = some keyword) : keyword ≠ "handler" := by
  cases family <;> cases addressed <;> decide

theorem isReserved_eq_true_iff :
    r.isReserved name = true ↔ r.family.addressKeyword? = some name ∨ name = "handler" := by
  simp [isReserved]

/-- Keywords with other names than those of the address and the handler decide neither. -/
theorem Settles.congr (settles : r.Settles ⟨values, keywords⟩ address entryPoint)
    (same : ∀ k, r.isReserved k.name = true → (k ∈ keywords ↔ k ∈ keywords'))
    (distinct : (keywords'.map (·.name)).Nodup)
    (accepted : ∀ k ∈ keywords', r.isReserved k.name = false → r.family.accepts k.name = true) :
    r.Settles ⟨values, keywords'⟩ address entryPoint := by
  obtain ⟨rest, addresses, handles⟩ := settles.parts
  exact ⟨distinct, ⟨rest,
    addresses.congr fun k named => same k (isReserved_eq_true_iff.mpr (.inl named)),
    handles.congr fun k named => same k (isReserved_eq_true_iff.mpr (.inr named))⟩, accepted⟩

theorem Settles.perm (settles : r.Settles ⟨values, keywords⟩ address entryPoint)
    (permuted : keywords.Perm keywords') : r.Settles ⟨values, keywords'⟩ address entryPoint :=
  settles.congr (fun _ _ => permuted.mem_iff) ((permuted.map _).nodup_iff.mp settles.distinct)
    fun k member => settles.accepted k (permuted.mem_iff.mpr member)

/-- An option more does not count. -/
theorem settles_cons_iff (accepted : r.family.accepts name = true)
    (missing : name ∉ keywords.map (·.name)) :
    r.Settles ⟨values, ⟨name, value, location⟩ :: keywords⟩ address entryPoint ↔
      r.Settles ⟨values, keywords⟩ address entryPoint := by
  have option : r.isReserved name = false :=
    isReserved_eq_false (by simpa [Family.accepts] using accepted)
  have same (k : OptionArgument) (reserved : r.isReserved k.name = true) :
      k ∈ (⟨name, value, location⟩ :: keywords : List OptionArgument) ↔ k ∈ keywords := by
    refine ⟨fun member => (List.mem_cons.mp member).resolve_left ?_, List.mem_cons_of_mem _⟩
    rintro rfl
    rw [option] at reserved
    cases reserved
  constructor
  · intro settles
    exact settles.congr same (List.nodup_cons.mp settles.distinct).2
      fun k member => settles.accepted k (List.mem_cons_of_mem _ member)
  · intro settles
    exact settles.congr (fun k reserved => (same k reserved).symm)
      (List.nodup_cons.mpr ⟨missing, settles.distinct⟩)
      (List.forall_mem_cons.mpr ⟨fun _ => accepted, settles.accepted⟩)

/-- The address takes what is in front of the handler's slot, and nothing more. -/
theorem addresses_append_iff {before : List Expr} (slot : before.length = r.handlerSlot) :
    Addresses r.family ⟨before ++ values, keywords⟩ address rest ↔
      rest = values ∧ Addresses r.family ⟨before, keywords⟩ address [] := by
  cases addressed : r.family.addressKeyword? with
  | none =>
    obtain rfl : before = [] := by simpa [handlerSlot, addressed] using slot
    constructor
    · intro addresses
      cases addresses with
      | without => exact ⟨rfl, .without addressed⟩
      | given other => cases addressed.symm.trans other
    · rintro ⟨rfl, addresses⟩
      cases addresses with
      | without => exact .without addressed
      | given other => cases addressed.symm.trans other
  | some keyword =>
    obtain ⟨only, rfl⟩ : ∃ only, before = [only] :=
      List.length_eq_one_iff.mp (by simpa [handlerSlot, addressed] using slot)
    constructor
    · intro addresses
      cases addresses with
      | without bare => cases bare.symm.trans addressed
      | given other taken constant =>
        cases taken with
        | position free => exact ⟨rfl, .given other (.position free) constant⟩
    · rintro ⟨rfl, addresses⟩
      cases addresses with
      | given other taken constant =>
        cases taken with
        | position free => exact .given other (.position free) constant

/-- In a call the handler can be given by its keyword instead. -/
theorem handles_cons_iff {binding : Option String} (fresh : "handler" ∉ keywords.map (·.name)) :
    Handles (.call binding) (⟨"handler", first, location⟩ :: keywords) entryPoint values ↔
      Handles (.call binding) keywords entryPoint (first :: values) := by
  have free : ∀ k ∈ keywords, k.name ≠ "handler" :=
    fun k member named => fresh (named ▸ List.mem_map_of_mem member)
  constructor
  · intro handles
    cases handles with
    | decorated written => cases written
    | called written taken given =>
      obtain ⟨rfl, behind⟩ := (takes_cons_iff fresh).mp taken
      exact .called written behind given
  · intro handles
    cases handles with
    | called written taken given =>
      cases taken with
      | position =>
        exact .called written ((takes_cons_iff fresh).mpr ⟨rfl, .position free⟩) given

theorem settles_handler_iff {binding : Option String} (called : r.form = .call binding)
    {before : List Expr} (slot : before.length = r.handlerSlot) :
    r.Settles ⟨before ++ first :: values, keywords⟩ address entryPoint ↔
      r.Settles ⟨before ++ values, ⟨"handler", first, location⟩ :: keywords⟩ address
        entryPoint := by
  have reserved : r.isReserved "handler" = true := isReserved_eq_true_iff.mpr (.inr rfl)
  have unaddressed (k : OptionArgument) (addressed : r.family.addressKeyword? = some k.name) :
      k ∈ keywords ↔ k ∈ (⟨"handler", first, location⟩ :: keywords : List OptionArgument) := by
    refine ⟨List.mem_cons_of_mem _, fun member => (List.mem_cons.mp member).resolve_left ?_⟩
    rintro rfl
    exact addressKeyword?_ne_handler _ addressed rfl
  constructor
  · rintro ⟨distinct, ⟨rest, addresses, handles⟩, accepted⟩
    obtain ⟨rfl, placed⟩ := (addresses_append_iff slot).mp addresses
    rw [called] at handles
    have fresh : "handler" ∉ keywords.map (·.name) := by
      cases handles with
      | called _ taken =>
        cases taken with
        | position free => simpa using free
    refine ⟨List.nodup_cons.mpr ⟨fresh, distinct⟩, ⟨values, ?_, ?_⟩, ?_⟩
    · exact (addresses_append_iff slot).mpr ⟨rfl, placed.congr unaddressed⟩
    · rw [called]
      exact (handles_cons_iff fresh).mpr handles
    · refine List.forall_mem_cons.mpr ⟨fun free => ?_, accepted⟩
      rw [reserved] at free
      cases free
  · rintro ⟨distinct, ⟨rest, addresses, handles⟩, accepted⟩
    obtain ⟨fresh, unique⟩ := List.nodup_cons.mp distinct
    obtain ⟨rfl, placed⟩ := (addresses_append_iff slot).mp addresses
    refine ⟨unique, ⟨first :: rest, ?_, ?_⟩, (List.forall_mem_cons.mp accepted).2⟩
    · exact (addresses_append_iff slot).mpr
        ⟨rfl, placed.congr fun k addressed => (unaddressed k addressed).symm⟩
    · rw [called] at handles ⊢
      exact (handles_cons_iff fresh).mp handles

/-- A value behind the address would be the handler, which is missing or given by keyword. -/
theorem Handles.eq_nil (handles : Handles r.form keywords entryPoint values)
    (alone : ∀ binding, r.form = .call binding →
      values = [] ∨ "handler" ∈ keywords.map (·.name)) : values = [] := by
  cases handles with
  | decorated => rfl
  | called written taken =>
    rcases alone _ written with none | given
    · exact none
    · obtain ⟨k, member, named⟩ := List.mem_map.mp given
      cases taken with
      | position free => exact absurd named (free k member)
      | keyword => rfl

theorem settles_address_iff {keyword : String} (addressed : r.family.addressKeyword? = some keyword)
    (alone : ∀ binding, r.form = .call binding →
      values = [] ∨ "handler" ∈ keywords.map (·.name)) :
    r.Settles ⟨first :: values, keywords⟩ address entryPoint ↔
      r.Settles ⟨values, ⟨keyword, first, location⟩ :: keywords⟩ address entryPoint := by
  have slot : [first].length = r.handlerSlot := by simp [handlerSlot, addressed]
  have reserved : r.isReserved keyword = true := isReserved_eq_true_iff.mpr (.inl addressed)
  have unhandled (k : OptionArgument) (named : k.name = "handler") :
      k ∈ keywords ↔ k ∈ (⟨keyword, first, location⟩ :: keywords : List OptionArgument) := by
    refine ⟨List.mem_cons_of_mem _, fun member => (List.mem_cons.mp member).resolve_left ?_⟩
    rintro rfl
    exact addressKeyword?_ne_handler _ addressed named
  constructor
  · rintro ⟨distinct, ⟨rest, addresses, handles⟩, accepted⟩
    obtain ⟨rfl, placed⟩ := (addresses_append_iff slot).mp addresses
    obtain rfl := handles.eq_nil alone
    cases placed with
    | given other taken constant =>
      obtain rfl := Option.some.inj (addressed.symm.trans other)
      cases taken with
      | position free =>
        have fresh : keyword ∉ keywords.map (·.name) := by simpa using free
        refine ⟨List.nodup_cons.mpr ⟨fresh, distinct⟩, ⟨[], ?_, handles.congr unhandled⟩, ?_⟩
        · exact .given other ((takes_cons_iff fresh).mpr ⟨rfl, .position free⟩) constant
        · refine List.forall_mem_cons.mpr ⟨fun unreserved => ?_, accepted⟩
          rw [reserved] at unreserved
          cases unreserved
  · rintro ⟨distinct, ⟨rest, addresses, handles⟩, accepted⟩
    obtain ⟨fresh, unique⟩ := List.nodup_cons.mp distinct
    cases addresses with
    | without bare => cases bare.symm.trans addressed
    | given other taken constant =>
      obtain rfl := Option.some.inj (addressed.symm.trans other)
      obtain ⟨none, behind⟩ := (takes_cons_iff fresh).mp taken
      dsimp only at none
      subst none
      cases behind with
      | position free =>
        exact ⟨unique, ⟨[], .given other (.position free) constant,
          handles.congr fun k named => (unhandled k named).symm⟩,
          (List.forall_mem_cons.mp accepted).2⟩

/-! ### What is made of the arguments -/

theorem chosen_append : r.chosen (keywords ++ keywords') = r.chosen keywords ++ r.chosen keywords' :=
  List.filter_append ..

theorem chosen_eq_nil_iff : r.chosen keywords = [] ↔
    ∀ k ∈ keywords, r.isReserved k.name = true ∨ k.value.isNone = true := by
  rw [chosen, List.filter_eq_nil_iff]
  refine forall₂_congr fun k _ => ?_
  cases r.isReserved k.name <;> simp

/-- Other arguments that settle the registration in the same way, with the same options. -/
structure SettlesAs (r : Registration) (args' : List Argument) : Prop where
  first : Argument.PositionalsFirst r.args
  first' : Argument.PositionalsFirst args'
  plain : (∀ arg ∈ args', arg.isSplat = false) ↔ ∀ arg ∈ r.args, arg.isSplat = false
  settles : ∀ address entryPoint, r.Settles (.ofList args') address entryPoint ↔
    r.Settles (.ofList r.args) address entryPoint
  options : (r.chosen (Arguments.ofList args').keywords).Perm
    (r.chosen (Arguments.ofList r.args).keywords)

variable {args' : List Argument} {c : BoundCall} {s : Scope} {globals : GlobalOptions}
  {e : Endpoint}

/-- What settles a registration does so whatever its own arguments are. -/
theorem settles_args_iff {given : Arguments} :
    ({ r with args := args' } : Registration).Settles given address entryPoint ↔
      r.Settles given address entryPoint :=
  ⟨fun ⟨distinct, parts, accepted⟩ => ⟨distinct, parts, accepted⟩,
    fun ⟨distinct, parts, accepted⟩ => ⟨distinct, parts, accepted⟩⟩

theorem SettlesAs.symm (same : r.SettlesAs args') :
    ({ r with args := args' } : Registration).SettlesAs r.args where
  first := same.first'
  first' := same.first
  plain := same.plain.symm
  settles address entryPoint :=
    settles_args_iff.trans ((same.settles address entryPoint).symm.trans settles_args_iff.symm)
  options := same.options.symm

theorem SettlesAs.exists_alike (same : r.SettlesAs args') (bound : r.bound = .ok c) :
    ∃ c', ({ r with args := args' } : Registration).bound = .ok c' ∧ c.Alike c' := by
  obtain ⟨plain, settles, options, rfl⟩ := (bound_eq_ok_iff same.first).mp bound
  let r' : Registration := { c.site with args := args' }
  refine ⟨⟨r', c.address, r'.chosen (Arguments.ofList args').keywords, c.entryPoint⟩, ?_, ?_⟩
  · exact (bound_eq_ok_iff (r := r') same.first').mpr
      ⟨same.plain.mpr plain, settles_args_iff.mpr ((same.settles _ _).mpr settles), rfl, rfl⟩
  · refine ⟨rfl, rfl, rfl, rfl, rfl, options ▸ same.options.symm, ?_⟩
    rw [options]
    exact settles.distinct.sublist (List.filter_sublist.map _)

theorem SettlesAs.endpoint (same : r.SettlesAs args') (made : r.endpoint s globals = .ok e) :
    ({ r with args := args' } : Registration).endpoint s globals = .ok e := by
  rw [Registration.endpoint, bind_eq_ok_iff] at made ⊢
  obtain ⟨c, bound, made⟩ := made
  obtain ⟨c', bound', alike⟩ := same.exists_alike bound
  exact ⟨c', bound', alike.endpoint made⟩

/-- Keywords that are none of the options are moved or added behind the positional arguments. -/
theorem settlesAs_of_added {front front' back back' : List Argument}
    (added : List OptionArgument) (written : r.args = front ++ back)
    (parted : Argument.Parted front back)
    (bare : ∀ arg ∈ front', arg.keyword? = none)
    (plain : (∀ arg ∈ front', arg.isSplat = false) ↔ ∀ arg ∈ front, arg.isSplat = false)
    (placed : back'.Perm ((added.map fun k => .keyword k.name k.value k.location) ++ back))
    (skipped : r.chosen added = [])
    (settles : ∀ address entryPoint,
      r.Settles ⟨front.filterMap (·.positional?), back.filterMap (·.keyword?)⟩ address entryPoint ↔
        r.Settles ⟨front'.filterMap (·.positional?), added ++ back.filterMap (·.keyword?)⟩ address
          entryPoint) : r.SettlesAs (front' ++ back') := by
  have parted' : Argument.Parted front' back' := by
    refine ⟨bare, fun arg member => ?_⟩
    rcases List.mem_append.mp (placed.mem_iff.mp member) with moved | stayed
    · obtain ⟨k, -, rfl⟩ := List.mem_map.mp moved
      rfl
    · exact parted.back arg stayed
  have keywords : (back'.filterMap (·.keyword?)).Perm (added ++ back.filterMap (·.keyword?)) := by
    refine (placed.filterMap _).trans (.of_eq ?_)
    rw [List.filterMap_append, List.filterMap_map]
    congr 1
    exact List.filterMap_some
  refine ⟨written ▸ parted.positionalsFirst, parted'.positionalsFirst, ?_, ?_, ?_⟩
  · rw [written, List.forall_mem_append, List.forall_mem_append, plain]
    refine and_congr_right' ⟨fun all arg member => ?_, fun all arg member => ?_⟩
    · exact all arg (placed.mem_iff.mpr (List.mem_append_right _ member))
    · rcases List.mem_append.mp (placed.mem_iff.mp member) with moved | stayed
      · obtain ⟨k, -, rfl⟩ := List.mem_map.mp moved
        rfl
      · exact all arg stayed
  · intro address entryPoint
    rw [written, Arguments.ofList_append parted, Arguments.ofList_append parted', settles]
    exact ⟨fun settled => settled.perm keywords, fun settled => settled.perm keywords.symm⟩
  · rw [written, Arguments.ofList_append parted, Arguments.ofList_append parted']
    refine (keywords.filter _).trans (.of_eq ?_)
    exact (chosen_append (r := r)).trans (by rw [skipped, List.nil_append])

theorem Respells.settlesAs (respells : r.Respells args') : r.SettlesAs args' := by
  cases respells with
  | reordered written parted permuted =>
    exact settlesAs_of_added [] written parted parted.front Iff.rfl permuted rfl
      fun _ _ => Iff.rfl
  | @unset front back _ name value location written parted accepted missing none placed =>
    refine settlesAs_of_added [⟨name, value, location⟩] written parted parted.front
      Iff.rfl placed ?_ fun _ _ => (settles_cons_iff accepted missing).symm
    exact chosen_eq_nil_iff.mpr (by simp [none])
  | @handler before after back _ binding value location written parted called slot placed =>
    have bare := parted.front
    rw [List.forall_mem_append, List.forall_mem_cons] at bare
    refine settlesAs_of_added [⟨"handler", value, location⟩] written parted
      (List.forall_mem_append.mpr ⟨bare.1, bare.2.2⟩) (by simp [Argument.isSplat, or_imp, forall_and])
      placed ?_ fun _ _ => ?_
    · exact chosen_eq_nil_iff.mpr (by simp [isReserved])
    · rw [List.filterMap_append, List.filterMap_append]
      exact settles_handler_iff called slot
  | @address before after back _ keyword value location written parted addressed first alone placed =>
    have bare := parted.front
    rw [List.forall_mem_append, List.forall_mem_cons] at bare
    refine settlesAs_of_added [⟨keyword, value, location⟩] written parted
      (List.forall_mem_append.mpr ⟨bare.1, bare.2.2⟩) (by simp [Argument.isSplat, or_imp, forall_and])
      placed ?_ fun _ _ => ?_
    · exact chosen_eq_nil_iff.mpr (by simp [isReserved, addressed])
    · rw [List.filterMap_append, List.filterMap_append, first, List.nil_append, List.nil_append]
      exact settles_address_iff addressed fun binding called => .inl (alone binding called)
  | @both before between after back _ keyword binding value handler location location' written parted
      addressed called first second placed =>
    have bare := parted.front
    simp only [List.forall_mem_append, List.forall_mem_cons] at bare
    refine settlesAs_of_added
      [⟨keyword, value, location⟩, ⟨"handler", handler, location'⟩] written parted ?_
      (by simp [Argument.isSplat, or_imp, forall_and]) placed ?_ fun _ _ => ?_
    · simp only [List.forall_mem_append]
      exact ⟨bare.1, bare.2.2.1, bare.2.2.2.2⟩
    · exact chosen_eq_nil_iff.mpr (by simp [isReserved, addressed])
    · have slot : [value].length = r.handlerSlot := by simp [handlerSlot, addressed]
      have values : (before ++ .positional value :: (between ++ .positional handler :: after)).filterMap
          (·.positional?) = [value] ++ handler :: after.filterMap (·.positional?) := by
        simp [first, second]
      have others : (before ++ (between ++ after)).filterMap (·.positional?) =
          after.filterMap (·.positional?) := by simp [first, second]
      rw [values, others]
      exact (settles_handler_iff called slot).trans
        (settles_address_iff addressed fun _ _ => .inr (List.mem_cons_self ..))

/-- A registration gives the same endpoint, or none, however its arguments are written. -/
theorem endpoint_respelled (respells : r.Respells args') :
    (({ r with args := args' } : Registration).endpoint s globals).toOption =
      (r.endpoint s globals).toOption := by
  have same := respells.settlesAs
  apply Option.ext
  intro e
  constructor
  · intro made
    rw [same.symm.endpoint (eq_ok_of_toOption made)]
    rfl
  · intro made
    rw [same.endpoint (eq_ok_of_toOption made)]
    rfl

/-! ### A call in two spellings -/

def relayHere : Location := ⟨"main.py", 1, 9⟩

def relayTopic : Expr := ⟨.text "orders", relayHere, 34, "\"orders\""⟩

def relayHandler : Expr := ⟨.name "handle", relayHere, 44, "handle"⟩

def relayRetry : Argument := .keyword "retry" ⟨.bool true, relayHere, 58, "True"⟩ relayHere

/-- A call with the address and the handler by position. -/
def relay : Registration :=
  ⟨.pubSub, "onMessagePublished", [.positional relayTopic, .positional relayHandler, relayRetry],
    .call none, relayHere, 8⟩

/-- The arguments of the call by keyword, the handler in front. -/
def relayByKeyword : List Argument :=
  [.keyword "handler" relayHandler relayHere, relayRetry, .keyword "topic" relayTopic relayHere]

/-- Both calls export the handler, for the same endpoint. -/
theorem endpoint_respelled_relay :
    relay.Respells relayByKeyword ∧
      (relay.endpoint ⟨.empty, ⟨"main.py", []⟩⟩ .none).toOption.map (·.entryPoint) =
        some "handle" ∧
      (({ relay with args := relayByKeyword } : Registration).endpoint ⟨.empty, ⟨"main.py", []⟩⟩
        .none).toOption = (relay.endpoint ⟨.empty, ⟨"main.py", []⟩⟩ .none).toOption := by
  have written : relay.args = [] ++ .positional relayTopic :: ([] ++ .positional relayHandler :: []) ++
      [relayRetry] := rfl
  have parted : Argument.Parted
      ([] ++ .positional relayTopic :: ([] ++ .positional relayHandler :: [])) [relayRetry] :=
    ⟨by simp [Argument.keyword?], by simp [Argument.positional?, relayRetry]⟩
  have placed : relayByKeyword.Perm (.keyword "topic" relayTopic relayHere ::
      .keyword "handler" relayHandler relayHere :: [relayRetry]) :=
    List.perm_append_singleton _ [_, _]
  have respells : relay.Respells relayByKeyword := .both written parted rfl rfl rfl rfl placed
  exact ⟨respells, by decide +kernel, endpoint_respelled respells⟩

end Registration

end DeployManifest
