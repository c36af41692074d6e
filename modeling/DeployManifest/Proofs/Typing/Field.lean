import DeployManifest.Proofs.Options.Filter
import DeployManifest.Proofs.Typing.Evaluate

/-! # Types of converted options

Each type of option takes values of one type of field only (`FieldType.Denotes`), so what passes its
check is typed (`Field.isTyped_of_check`). The conversions keep every reference and choice of what
they are given.
-/

namespace DeployManifest

open Outcome

/-- Every value that an option of the type takes is of a type of fields. -/
structure FieldType.Denotes (type : FieldType) (T : ValueType) : Prop where
  literal : ∀ l, type.accepts l = true → T.has l = true
  kind : ∀ k ∈ type.kinds, k ≠ .secret ∧ ∀ l, k.admits l = true → T.has l = true

namespace FieldType

theorem int_denotes : int.Denotes .integer where
  literal _ taken := taken
  kind k member := by
    obtain rfl := List.mem_singleton.mp member
    exact ⟨by decide, fun l admitted => by rwa [ParamKind.admits_int] at admitted⟩

theorem number_denotes : number.Denotes .number where
  literal _ taken := taken
  kind k member := by
    rcases List.mem_pair.mp member with rfl | rfl
    · refine ⟨by decide, fun l admitted => ?_⟩
      rw [ParamKind.admits_int] at admitted
      cases l with
      | int => rfl
      | bool _ | float _ | text _ | list _ | map _ => cases admitted
    · exact ⟨by decide, fun l admitted => by rwa [ParamKind.admits_float] at admitted⟩

theorem boolean_denotes : boolean.Denotes .boolean where
  literal _ taken := taken
  kind k member := by
    obtain rfl := List.mem_singleton.mp member
    exact ⟨by decide, fun l admitted => by rwa [ParamKind.admits_boolean] at admitted⟩

theorem string_denotes : string.Denotes .text where
  literal _ taken := taken
  kind k member := by
    obtain rfl := List.mem_singleton.mp member
    exact ⟨by decide, fun l admitted => by rwa [ParamKind.admits_string] at admitted⟩

theorem oneOf_denotes (allowed : List String) : (oneOf allowed).Denotes .text where
  literal l taken := by
    cases l with
    | text _ => rfl
    | bool _ | int _ | float _ | list _ | map _ => cases taken
  kind := string_denotes.kind

theorem cpu_denotes : cpu.Denotes .processors where
  literal _ taken := taken
  kind k member := by
    obtain ⟨notSecret, values⟩ := number_denotes.kind k member
    refine ⟨notSecret, fun l admitted => ?_⟩
    have number : l.isNumber = true := values l admitted
    simp [ValueType.has, number]

end FieldType

namespace Field

variable {f : Field} {type : FieldType} {T : ValueType} {v w : Setting}

theorem exists_of_get? {t : ParamTable} {name : String} {p : Param} (found : t.get? name = some p) :
    p ∈ t.params ∧ p.name = name := by
  obtain ⟨entry, first, rfl⟩ := Option.map_eq_some_iff.mp found
  rw [ParamTable.holder?_eq_find?] at first
  exact ⟨ParamTable.mem_params (List.mem_of_find?_eq_some first),
    by simpa using List.find?_some first⟩

theorem exists_of_checkParam {expected name : String} {kinds : List ParamKind}
    (checked : f.checkParam expected kinds name = .ok ()) :
    ∃ p, f.params.get? name = some p ∧ p ∈ f.params.params ∧ p.name = name ∧ p.kind ∈ kinds := by
  rw [checkParam] at checked
  split at checked
  · rename_i p found
    split at checked
    · rename_i ofKind
      obtain ⟨member, named⟩ := exists_of_get? found
      exact ⟨p, found, member, named, List.contains_iff_mem.mp ofKind⟩
    · cases checked
  · cases checked

/-- A parameter of a kind has a value of the type that the kind stands for. -/
theorem hasValue_param {params : List Param} {p : Param} (member : p ∈ params)
    (values : ∀ l, p.kind.admits l = true → T.has l = true) :
    (Setting.param p.name).HasValue params T :=
  fun σ respects => ⟨σ p.name, rfl, values _ (respects p member)⟩

/-- A reference that passes the check of a type. -/
theorem of_check_param {name : String} (distinct : f.params.Distinct) (denotes : type.Denotes T)
    (checked : f.check type (.param name) = .ok ()) :
    Names f.params.params (· ≠ .secret) name ∧
      (Setting.param name).HasValue f.params.params T := by
  obtain ⟨p, -, member, rfl, ofKind⟩ := exists_of_checkParam checked
  obtain ⟨notSecret, values⟩ := denotes.kind _ ofKind
  exact ⟨distinct.names member notSecret, hasValue_param member values⟩

theorem of_check_literal {l : Literal} {params : List Param} (denotes : type.Denotes T)
    (checked : f.check type (.literal l) = .ok ()) : (Setting.literal l).HasValue params T := by
  rw [check] at checked
  split at checked
  · exact fun _ _ => ⟨l, rfl, denotes.literal l ‹_›⟩
  · cases checked

/-- A side of a choice that passes the check of a type. -/
theorem of_check_side (distinct : f.params.Distinct) (denotes : type.Denotes T)
    (side : v.IsSide f.params.params (fun _ => True)) (checked : f.check type v = .ok ()) :
    v.IsSide f.params.params (· ≠ .secret) ∧ v.HasValue f.params.params T := by
  cases side with
  | literal scalar => exact ⟨.literal scalar, of_check_literal denotes checked⟩
  | param =>
    obtain ⟨named, value⟩ := of_check_param distinct denotes checked
    exact ⟨.param named, value⟩

theorem check_choice {condition : String} {yes no : Setting} :
    f.check type (.choice condition yes no) = .ok () ↔
      f.check type yes = .ok () ∧ f.check type no = .ok () := by
  rw [check, bind_eq_ok_iff]
  constructor
  · rintro ⟨⟨⟩, first, second⟩
    exact ⟨first, second⟩
  · rintro ⟨first, second⟩
    exact ⟨(), first, second⟩

/-- What passes the check of a type is typed. -/
theorem isTyped_of_check (distinct : f.params.Distinct) (denotes : type.Denotes T)
    (closed : v.IsClosed f.params.params (fun _ => True)) (checked : f.check type v = .ok ()) :
    v.IsTyped f.params.params T := by
  cases closed with
  | literal l => exact ⟨.literal l, .inr (of_check_literal denotes checked)⟩
  | param =>
    obtain ⟨named, value⟩ := of_check_param distinct denotes checked
    exact ⟨.param named, .inr value⟩
  | choice chosen first second =>
    obtain ⟨yes, no⟩ := check_choice.mp checked
    obtain ⟨firstSide, firstValue⟩ := of_check_side distinct denotes first yes
    obtain ⟨secondSide, secondValue⟩ := of_check_side distinct denotes second no
    exact ⟨.choice chosen firstSide secondSide, .inr (.choice chosen firstValue secondValue)⟩
  | reset => exact ⟨.reset, .inl rfl⟩

/-- A converted option of a type is what has been given. -/
theorem conveys_of_typed (distinct : f.params.Distinct) (denotes : type.Denotes T)
    (closed : v.IsClosed f.params.params (fun _ => True)) (converted : f.typed type v = .ok w) :
    Content.Conveys f.params.params T v w := by
  simp only [typed, bind_eq_ok_iff, pure_eq_ok_iff] at converted
  obtain ⟨⟨⟩, checked, rfl⟩ := converted
  exact Content.conveys_self (isTyped_of_check distinct denotes closed checked)

/-! ### Memory -/

theorem isScalar_of_memoryLiteral {l converted : Literal} (scalar : l.isScalar = true)
    (done : f.memoryLiteral l = .ok converted) : converted.isScalar = true := by
  unfold memoryLiteral at done
  split at done
  · split at done
    · cases done
      rfl
    · cases done
  · cases done
    exact scalar

/-- Sizes with a unit are spelled anew, and all else stays as it is. -/
theorem side_of_mapLiterals {params : List Param} {allowed : ParamKind → Prop}
    (side : v.IsSide params allowed) (done : mapLiterals f.memoryLiteral v = .ok w) :
    w.IsSide params allowed ∧ Content.Renders v (.plain w) := by
  cases side with
  | literal scalar =>
    simp only [mapLiterals, bind_eq_ok_iff, pure_eq_ok_iff] at done
    obtain ⟨l, converted, rfl⟩ := done
    exact ⟨.literal (isScalar_of_memoryLiteral scalar converted), .literal _ _⟩
  | param named =>
    cases done
    exact ⟨.param named, .param _⟩

theorem of_mapLiterals {params : List Param} {allowed : ParamKind → Prop}
    (closed : v.IsClosed params allowed) (done : mapLiterals f.memoryLiteral v = .ok w) :
    w.IsClosed params allowed ∧ Content.Renders v (.plain w) := by
  cases closed with
  | literal _ =>
    simp only [mapLiterals, bind_eq_ok_iff, pure_eq_ok_iff] at done
    obtain ⟨l, -, rfl⟩ := done
    exact ⟨.literal l, .literal _ l⟩
  | param named =>
    cases done
    exact ⟨.param named, .param _⟩
  | choice chosen first second =>
    simp only [mapLiterals, bind_eq_ok_iff, pure_eq_ok_iff] at done
    obtain ⟨yes, yesDone, no, noDone, rfl⟩ := done
    obtain ⟨yesSide, yesKept⟩ := side_of_mapLiterals first yesDone
    obtain ⟨noSide, noKept⟩ := side_of_mapLiterals second noDone
    exact ⟨.choice chosen yesSide noSide, .choice yesKept noKept⟩
  | reset =>
    cases done
    exact ⟨.reset, .reset⟩

theorem conveys_of_memory (distinct : f.params.Distinct)
    (closed : v.IsClosed f.params.params (fun _ => True)) (converted : f.memory v = .ok w) :
    Content.Conveys f.params.params .integer v w := by
  simp only [memory, typed, bind_eq_ok_iff, pure_eq_ok_iff] at converted
  obtain ⟨_, mapped, ⟨⟩, checked, rfl⟩ := converted
  obtain ⟨closed, kept⟩ := of_mapLiterals closed mapped
  exact ⟨.plain _, kept, rfl,
    Content.isTyped_plain (isTyped_of_check distinct FieldType.int_denotes closed checked)⟩

/-! ### Lists and maps -/

theorem conveys_of_stringList (distinct : f.params.Distinct)
    (closed : v.IsClosed f.params.params (fun _ => True)) (converted : f.stringList v = .ok w) :
    Content.Conveys f.params.params .texts v w := by
  unfold stringList at converted
  split at converted
  · cases converted
    exact ⟨.plain .reset, .reset, rfl, .reset, .inl rfl⟩
  · cases converted
    exact ⟨.plain _, .literal _ _, rfl, Content.isTyped_plain (Setting.isTyped_literal rfl)⟩
  · split at converted
    · cases converted
    · rename_i items noOther
      cases converted
      refine Content.conveys_self (Setting.isTyped_literal ?_)
      rw [ValueType.has, List.all_eq_true]
      simpa using noOther
  · cases converted
  · rename_i name
    simp only [bind_eq_ok_iff, pure_eq_ok_iff] at converted
    obtain ⟨⟨⟩, checked, rfl⟩ := converted
    obtain ⟨p, found, member, rfl, ofKind⟩ := exists_of_checkParam checked
    rw [found, Option.any_some]
    rcases List.mem_pair.mp ofKind with string | list
    · -- one text: the reference is wrapped into a list
      rw [string, if_pos (by decide)]
      have named : Names f.params.params (· ≠ .secret) p.name :=
        distinct.names member (by rw [string]; decide)
      refine ⟨.single (.param p.name), .single rfl, rfl,
        Content.isTyped_single (.param named) (hasValue_param member ?_)⟩
      intro l admitted
      rwa [string, ParamKind.admits_string] at admitted
    · rw [list, if_neg (by decide)]
      have named : Names f.params.params (· ≠ .secret) p.name :=
        distinct.names member (by rw [list]; decide)
      refine Content.conveys_self ⟨.param named, .inr (hasValue_param member ?_)⟩
      intro l admitted
      rwa [list, ParamKind.admits_list] at admitted
  · rename_i condition yes no
    simp only [bind_eq_ok_iff, pure_eq_ok_iff] at converted
    obtain ⟨⟨⟩, checked, rfl⟩ := converted
    obtain ⟨closed, reset | value⟩ :=
      isTyped_of_check distinct FieldType.string_denotes closed checked
    · cases reset
    · exact ⟨.single (.choice condition yes no), .single rfl, rfl,
        Content.isTyped_single closed value⟩

/-- A map is given as a literal or not at all. -/
theorem of_stringMap {entries : KeyMap String} (converted : f.stringMap v = .ok entries) :
    (v = .reset ∧ entries = []) ∨ ∃ given, v = .literal (.map given) ∧
      List.Forall₂ (fun given entry => given = (entry.1, Literal.text entry.2)) given entries := by
  unfold stringMap at converted
  split at converted
  · cases converted
    exact .inl ⟨rfl, rfl⟩
  · rename_i given
    refine .inr ⟨given, rfl, ?_⟩
    refine (mapM_eq_ok_iff.mp converted).imp fun entry read done => ?_
    obtain ⟨name, value⟩ := entry
    dsimp only at done
    split at done
    · cases done
      simp_all
    · cases done
  · cases converted
  · cases converted

theorem conveys_of_stringMapSetting {params : List Param}
    (converted : f.stringMapSetting v = .ok w) : Content.Conveys params .textMap v w := by
  simp only [stringMapSetting, bind_eq_ok_iff] at converted
  obtain ⟨entries, read, converted⟩ := converted
  have given : v = .reset ∧ entries = [] ∨ ∃ l, v = .literal l :=
    (of_stringMap read).imp id fun ⟨given, literal, _⟩ => ⟨.map given, literal⟩
  split at converted
  · cases converted
    rcases given with ⟨rfl, -⟩ | ⟨l, rfl⟩
    · exact ⟨.plain .reset, .reset, rfl, .reset, .inl rfl⟩
    · exact ⟨.plain .reset, .emptied l, rfl, .reset, .inl rfl⟩
  · rename_i nonempty
    cases converted
    rcases given with ⟨-, rfl⟩ | ⟨l, rfl⟩
    · exact absurd rfl nonempty
    · refine ⟨.plain _, .literal _ _, rfl, Content.isTyped_plain (Setting.isTyped_literal ?_)⟩
      rw [ValueType.has, List.all_eq_true]
      intro entry member
      obtain ⟨_, -, rfl⟩ := List.mem_map.mp member
      rfl

end Field

end DeployManifest
